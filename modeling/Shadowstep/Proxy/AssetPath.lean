import Shadowstep.Rust.Path

/-!
# Which file a request means

`resolve_asset` of `assets.rs`. The requested name is taken apart at its
slashes, and each piece must be the name of an entry and nothing else. What
the pieces lead to below the asset root is then made canonical, and counts
only when it is still below the canonical root.

* `resolveAsset_eq_some` — what is found, in a tree with any links;
* `resolveAsset_exact` — without links, exactly what is in the root is found.
-/

namespace Shadowstep

open Rust FileTree

/-! ## `resolve_asset` -/

/-- The name that a piece of a request is, when it is nothing but a name. -/
def normalName (segment : Text) : Option Bytes :=
  match components (asBytes segment) with
  | [.normal name] => if name = asBytes segment then some name else none
  | _ => none

/-- The pieces that `resolve_asset` pushes onto `relative`. -/
def relativePath (requested : Text) : Option (List Bytes) :=
  (requested.splitOn '/').mapM normalName

section

variable {C : Type} (tree : Tree FileName C) (links : Nat) (working : List FileName)

/-- `tokio::fs::canonicalize`, of a process with this working directory. -/
def canonicalize (path : Bytes) : Option (List FileName) :=
  (osPath path).bind (tree.canonicalize links working)

/-- The second half of `resolve_asset`, after its first await. -/
def resolveBelow (root : List FileName) (relative : List Bytes) : Option (List FileName) := do
  let resolved ← canonicalize tree links working (push (render root) (relative.foldl push []))
  if root <+: resolved then some resolved else none

/-- `resolve_asset`. -/
def resolveAsset (root : Bytes) (requested : Text) : Option (List FileName) := do
  let relative ← relativePath requested
  let root ← canonicalize tree links working root
  resolveBelow tree links working root relative

end

/-- The pieces of a request are these names. -/
def Spells (requested : Text) (names : List FileName) : Prop :=
  (requested.splitOn '/').map asBytes = names.map FileName.bytes

theorem Spells.ne_nil {requested : Text} {names : List FileName} (h : Spells requested names) :
    names ≠ [] := by
  rintro rfl
  exact List.splitOn_ne_nil '/' requested (List.map_eq_nil_iff.mp h)

theorem normalName_eq_some {segment : Text} {name : Bytes} (h : normalName segment = some name) :
    name = asBytes segment ∧ components name = [.normal name] := by
  unfold normalName at h
  split at h
  case h_1 found single =>
    split at h
    case isTrue same =>
      obtain rfl := Option.some.inj h
      exact ⟨same, by rw [same] at single ⊢; exact single⟩
    case isFalse => cases h
  case h_2 => cases h

theorem normalName_of_name {segment : Text} {name : FileName} (h : asBytes segment = name.bytes) :
    normalName segment = some name.bytes := by
  unfold normalName
  rw [h, name.components_eq]
  simp

theorem relativePath_of_spells {requested : Text} {names : List FileName}
    (h : Spells requested names) : relativePath requested = some (names.map FileName.bytes) := by
  unfold Spells at h
  unfold relativePath
  generalize requested.splitOn '/' = segments at h
  induction segments generalizing names with
  | nil =>
      rw [List.map_eq_nil_iff.mp h.symm]
      rfl
  | cons segment rest ih =>
      cases names with
      | nil => cases h
      | cons name others =>
          obtain ⟨first, later⟩ := List.cons.inj h
          rw [List.mapM_cons, normalName_of_name first, ih later]
          rfl

/-- The pieces of a request that are pushed are names, but for a NUL in
them. -/
theorem spells_of_relativePath {requested : Text} {pieces : List Bytes}
    (h : relativePath requested = some pieces) (noNul : ∀ piece ∈ pieces, 0 ∉ piece) :
    ∃ names, Spells requested names ∧ pieces = names.map FileName.bytes := by
  unfold Spells
  unfold relativePath at h
  generalize requested.splitOn '/' = segments at h
  induction segments generalizing pieces with
  | nil =>
      obtain rfl := Option.some.inj h
      exact ⟨[], rfl, rfl⟩
  | cons segment rest ih =>
      rw [List.mapM_cons] at h
      obtain ⟨piece, first, h⟩ := Option.bind_eq_some_iff.mp h
      obtain ⟨others, later, h⟩ := Option.bind_eq_some_iff.mp h
      obtain rfl := Option.some.inj h
      obtain ⟨same, single⟩ := normalName_eq_some first
      have normal : .normal piece ∈ components piece := by
        rw [single]
        exact List.mem_singleton_self _
      obtain ⟨name, named⟩ := FileName.ofBytes_isSome normal (noNul piece List.mem_cons_self)
      obtain ⟨names, spelled, rfl⟩ := ih (fun piece h => noNul piece (List.mem_cons_of_mem _ h)) later
      exact ⟨name :: names, by rw [List.map_cons, List.map_cons, spelled, named, same],
        by rw [List.map_cons, named]⟩

variable {C : Type} {tree : Tree FileName C} {links : Nat} {working : List FileName}

/-- A path that leads anywhere has no NUL. -/
theorem not_nul_of_canonicalize {path : Bytes} {place : List FileName}
    (h : canonicalize tree links working path = some place) : 0 ∉ path := by
  obtain ⟨_, read, -⟩ := Option.bind_eq_some_iff.mp h
  intro nul
  rw [osPath, if_pos (.inr nul)] at read
  cases read

/-- A place's own path leads where its names lead from the top. -/
theorem canonicalize_render {names : List FileName} (below : names ≠ []) :
    canonicalize tree links working (render names) = tree.resolve links [] (names.map .name) := by
  rw [canonicalize, osPath_render below]
  rfl

theorem mem_push {path piece : Bytes} {b : UInt8} (h : b ∈ piece) : b ∈ push path piece := by
  unfold push
  split
  · exact h
  · split
    · exact List.mem_append_right _ h
    · exact List.mem_append_right _ (List.mem_cons_of_mem _ h)

/-- Every byte of a piece that does not start at the top is in the joined
path. -/
theorem mem_foldl_push {pieces : List Bytes} (relative : ∀ piece ∈ pieces, 47 ∉ piece)
    {path : Bytes} {b : UInt8} (h : b ∈ path ∨ ∃ piece ∈ pieces, b ∈ piece) :
    b ∈ pieces.foldl push path := by
  induction pieces generalizing path with
  | nil => simpa using h
  | cons piece rest ih =>
      refine ih (fun piece member => relative piece (List.mem_cons_of_mem _ member)) ?_
      rcases h with before | ⟨other, member, inside⟩
      · left
        have start : piece.head? ≠ some 47 := fun slash =>
          relative piece List.mem_cons_self (List.mem_of_mem_head? slash)
        unfold push
        rw [if_neg start]
        split
        · exact List.mem_append_left _ before
        · exact List.mem_append_left _ before
      · rcases List.mem_cons.mp member with rfl | later
        · exact .inl (mem_push inside)
        · exact .inr ⟨other, later, inside⟩

/-- Pushed pieces that lead anywhere are names. -/
theorem spells_of_canonicalize {requested : Text} {pieces : List Bytes} {root : Bytes}
    {place : List FileName} (h : relativePath requested = some pieces)
    (found : canonicalize tree links working (push root (pieces.foldl push [])) = some place) :
    ∃ names, Spells requested names ∧ pieces = names.map FileName.bytes := by
  have relative : ∀ piece ∈ pieces, 47 ∉ piece := by
    intro piece member
    obtain ⟨segment, -, named⟩ := (mem_mapM h).mp member
    obtain ⟨-, single⟩ := normalName_eq_some named
    have normal : .normal piece ∈ components piece := by
      rw [single]
      exact List.mem_singleton_self _
    exact (of_mem_components normal).2.2.2
  exact spells_of_relativePath h fun piece member nul =>
    not_nul_of_canonicalize found (mem_push (mem_foldl_push relative (.inr ⟨piece, member, nul⟩)))

/-- What the pieces of a request lead to below a canonical root. -/
theorem resolveBelow_eq_some {requested : Text} {pieces : List Bytes} {top place : List FileName}
    (relative : relativePath requested = some pieces) :
    resolveBelow tree links working top pieces = some place ↔ ∃ names, Spells requested names ∧
      tree.resolve links [] ((top ++ names).map .name) = some place ∧ top <+: place := by
  have joined {names : List FileName} (spelled : Spells requested names) :
      canonicalize tree links working
          (push (render top) ((names.map FileName.bytes).foldl push [])) =
        tree.resolve links [] ((top ++ names).map .name) := by
    rw [push_render top spelled.ne_nil,
      canonicalize_render (List.append_ne_nil_of_right_ne_nil _ spelled.ne_nil)]
  constructor
  · intro h
    obtain ⟨resolved, found, h⟩ := Option.bind_eq_some_iff.mp h
    split at h
    case isFalse => cases h
    case isTrue under =>
      obtain rfl := Option.some.inj h
      obtain ⟨names, spelled, rfl⟩ := spells_of_canonicalize relative found
      rw [joined spelled] at found
      exact ⟨names, spelled, found, under⟩
  · rintro ⟨names, spelled, found, under⟩
    obtain rfl := Option.some.inj (relative.symm.trans (relativePath_of_spells spelled))
    rw [resolveBelow, joined spelled, found]
    exact if_pos under

/-- What `resolve_asset` finds: what the names of the request lead to below
the canonical root, when that is below the canonical root as well. -/
theorem resolveAsset_eq_some {root : Bytes} {requested : Text} {place : List FileName} :
    resolveAsset tree links working root requested = some place ↔
      ∃ top names, canonicalize tree links working root = some top ∧ Spells requested names ∧
        tree.resolve links [] ((top ++ names).map .name) = some place ∧ top <+: place := by
  constructor
  · intro h
    obtain ⟨pieces, relative, h⟩ := Option.bind_eq_some_iff.mp h
    obtain ⟨top, rooted, h⟩ := Option.bind_eq_some_iff.mp h
    obtain ⟨names, found⟩ := (resolveBelow_eq_some relative).mp h
    exact ⟨top, names, rooted, found⟩
  · rintro ⟨top, names, rooted, spelled, found⟩
    have relative := relativePath_of_spells spelled
    rw [resolveAsset, relative, rooted]
    exact (resolveBelow_eq_some relative).mpr ⟨names, spelled, found⟩

/-! ## Without links -/

theorem spells_intercalate {segments : List Text} {names : List FileName} (below : names ≠ [])
    (named : segments.map asBytes = names.map FileName.bytes) :
    Spells (['/'].intercalate segments) names := by
  have noSlash : ∀ segment ∈ segments, '/' ∉ segment := by
    intro segment member slash
    have encoded : asBytes segment ∈ names.map FileName.bytes :=
      named ▸ List.mem_map_of_mem member
    obtain ⟨name, -, same⟩ := List.mem_map.mp encoded
    refine name.not_special.2.2.2.1 ?_
    rw [same]
    exact List.mem_flatMap.mpr ⟨'/', slash, by decide⟩
  have some : segments ≠ [] := by
    rintro rfl
    exact below (List.map_eq_nil_iff.mp named.symm)
  rw [Spells, List.splitOn_intercalate '/' noSlash some]
  exact named

/-- When no link lies below the asset root, a request finds the entry of the
root that its pieces name, if there is one, and nothing else. Every entry
whose names are text is found by the request that joins them with slashes. -/
theorem resolveAsset_exact (tree : Tree FileName C) (links : Nat) (working : List FileName)
    (real : tree.isReal working = true) (root : Bytes) (top : List FileName)
    (rooted : canonicalize tree links working root = some top)
    (linkFree : ∀ below, tree.isLink (top ++ below) = false) :
    (∀ requested place, resolveAsset tree links working root requested = some place ↔
      ∃ names, Spells requested names ∧ place = top ++ names ∧ (tree.node place).isSome) ∧
    ∀ segments names, names ≠ [] → segments.map asBytes = names.map FileName.bytes →
      (tree.node (top ++ names)).isSome →
      resolveAsset tree links working root (['/'].intercalate segments) = some (top ++ names) := by
  -- nothing on the way to a place below the root is a link
  have unlinked (names passed : List FileName) (h : passed <+: top ++ names) :
      tree.isLink ([] ++ passed) = false := by
    obtain above | ⟨below, rfl⟩ := List.prefix_or_prefix_of_prefix h (List.prefix_append top names)
    · obtain ⟨written, -, resolved⟩ := Option.bind_eq_some_iff.mp rooted
      exact Tree.isLink_of_isReal (Tree.isReal_of_below (Tree.canonicalize_real real resolved) above)
    · exact linkFree below
  have led (names : List FileName) : tree.resolve links [] ((top ++ names).map .name) =
      if (tree.node (top ++ names)).isSome then some (top ++ names) else none :=
    tree.resolve_unlinked links (unlinked names) rfl
  have found (requested : Text) (place : List FileName) :
      resolveAsset tree links working root requested = some place ↔
        ∃ names, Spells requested names ∧ place = top ++ names ∧ (tree.node place).isSome := by
    rw [resolveAsset_eq_some]
    constructor
    · rintro ⟨top', names, rooted', spelled, resolved, -⟩
      obtain rfl := Option.some.inj (rooted.symm.trans rooted')
      rw [led] at resolved
      split at resolved
      case isTrue there =>
        obtain rfl := Option.some.inj resolved
        exact ⟨names, spelled, rfl, there⟩
      case isFalse => cases resolved
    · rintro ⟨names, spelled, rfl, there⟩
      exact ⟨top, names, rooted, spelled, by rw [led, if_pos there], List.prefix_append ..⟩
  refine ⟨found, fun segments names below named there => ?_⟩
  exact (found _ _).mpr ⟨names, spells_intercalate below named, rfl, there⟩

def assetsName : FileName := ⟨ascii "assets", by decide⟩

def styleName : FileName := ⟨ascii "app.css", by decide⟩

/-- `/assets/app.css` and `/app.css`. -/
def styled : Option (Tree FileName Bytes) := do
  let tree ← Tree.empty.put [] assetsName .directory
  let tree ← tree.put [assetsName] styleName (.file (ascii "body"))
  tree.put [] styleName (.file (ascii "secret"))

/-- A request finds the file in the root, and none finds the other one. -/
theorem resolveAsset_exact_example : ∃ tree, styled = some tree ∧
    resolveAsset tree 40 [] (ascii "/assets/.") "app.css".toList = some [assetsName, styleName] ∧
    ∀ requested, resolveAsset tree 40 [] (ascii "/assets/.") requested ≠ some [styleName] := by
  have top : canonicalize (styled.get rfl) 40 [] (ascii "/assets/.") = some [assetsName] := by decide
  have exact := resolveAsset_exact (styled.get rfl) 40 [] rfl (ascii "/assets/.") [assetsName] top
    fun below => Tree.not_isLink_of_entries (by decide) _
  refine ⟨styled.get rfl, (Option.some_get _).symm, ?_, fun requested h => ?_⟩
  · exact exact.2 ["app.css".toList] [styleName] (List.cons_ne_nil _ _) (by decide) (by decide)
  · obtain ⟨names, -, outside, -⟩ := (exact.1 requested _).mp h
    cases outside

end Shadowstep
