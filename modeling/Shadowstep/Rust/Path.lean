import Shadowstep.Lib.FileTree
import Shadowstep.Rust.Utf8

/-!
# Paths as Rust and the operating system read them

A path is bytes. `Path::components` reads it without looking at any file, and
the operating system reads it on its way through the tree of files. Both split
at the slashes. This is the reading of Unix, without prefixes.

* `components` — what `std::path` makes of a path;
* `osPath` — what the operating system makes of it;
* `osPath_render` — a place's own path is read back as its names.
-/

namespace Rust

open FileTree

/-- `std::path::Component`. -/
inductive Component where
  | rootDir
  | curDir
  | parentDir
  | normal (name : Bytes)
deriving DecidableEq

/-- `Path::components`. Empty pieces count for nothing, and `.` only in the
first place of a relative path. -/
def components (path : Bytes) : List Component :=
  let pieces := path.splitOn 47
  let start :=
    if path.head? = some 47 then [Component.rootDir]
    else if pieces.head? = some (ascii ".") then [.curDir]
    else []
  start ++ pieces.filterMap fun piece =>
    if piece = [] ∨ piece = ascii "." then none
    else if piece = ascii ".." then some .parentDir
    else some (.normal piece)

/-- A normal component is a name. -/
theorem of_mem_components {path name : Bytes} (h : .normal name ∈ components path) :
    name ≠ [] ∧ name ≠ ascii "." ∧ name ≠ ascii ".." ∧ 47 ∉ name := by
  unfold components at h
  rcases List.mem_append.mp h with start | piece
  · repeat' split at start
    all_goals simp at start
  · obtain ⟨piece, member, h⟩ := List.mem_filterMap.mp piece
    split at h
    case isTrue => cases h
    case isFalse special =>
      split at h
      case isTrue => cases h
      case isFalse notDots =>
        cases h
        exact ⟨fun none => special (.inl none), fun dot => special (.inr dot), notDots,
          not_mem_of_mem_splitOn member⟩

/-- Whether an entry of a directory can have this name. -/
def isPlain (name : Bytes) : Bool :=
  name ≠ [] && name ≠ ascii "." && name ≠ ascii ".." && name.all fun b => b != 47 && b != 0

/-- The name of an entry of a directory. -/
structure FileName where
  bytes : Bytes
  plain : isPlain bytes = true
deriving DecidableEq

namespace FileName

def ofBytes (bytes : Bytes) : Option FileName :=
  if plain : isPlain bytes = true then some ⟨bytes, plain⟩ else none

theorem ext {name other : FileName} (h : name.bytes = other.bytes) : name = other := by
  cases name
  cases other
  cases h
  rfl

theorem bytes_injective : Function.Injective bytes := fun _ _ => ext

theorem ofBytes_eq_some {bytes : Bytes} {name : FileName} :
    ofBytes bytes = some name ↔ name.bytes = bytes := by
  unfold ofBytes
  constructor
  · intro h
    split at h
    · obtain rfl := Option.some.inj h
      rfl
    · cases h
  · rintro rfl
    rw [dif_pos name.plain]

/-- What a name is not, and what is not in it. -/
theorem not_special (name : FileName) : name.bytes ≠ [] ∧ name.bytes ≠ ascii "." ∧
    name.bytes ≠ ascii ".." ∧ 47 ∉ name.bytes ∧ 0 ∉ name.bytes := by
  have plain := name.plain
  simp only [isPlain, Bool.and_eq_true, decide_eq_true_eq, List.all_eq_true, bne_iff_ne] at plain
  obtain ⟨⟨⟨some, notDot⟩, notDots⟩, all⟩ := plain
  exact ⟨some, notDot, notDots, fun slash => (all _ slash).1 rfl, fun nul => (all _ nul).2 rfl⟩

theorem ofBytes_isSome {bytes : Bytes} (h : .normal bytes ∈ components bytes)
    (noNul : 0 ∉ bytes) : ∃ name : FileName, name.bytes = bytes := by
  obtain ⟨some, notDot, notDots, noSlash⟩ := of_mem_components h
  have plain : isPlain bytes = true := by
    simp only [isPlain, Bool.and_eq_true, decide_eq_true_eq, List.all_eq_true, bne_iff_ne]
    refine ⟨⟨⟨some, notDot⟩, notDots⟩, fun b member => ⟨?_, ?_⟩⟩
    · rintro rfl
      exact noSlash member
    · rintro rfl
      exact noNul member
  exact ⟨⟨bytes, plain⟩, rfl⟩

/-- A name on its own is one normal component. -/
theorem components_eq (name : FileName) : components name.bytes = [.normal name.bytes] := by
  obtain ⟨some, notDot, notDots, noSlash, -⟩ := name.not_special
  have absolute : name.bytes.head? ≠ Option.some 47 := fun h => noSlash (List.mem_of_mem_head? h)
  unfold components
  simp [List.splitOn_eq_singleton noSlash, absolute, some, notDot, notDots]

end FileName

/-- `PathBuf::push`. -/
def push (path piece : Bytes) : Bytes :=
  if piece.head? = some 47 then piece
  else if path = [] ∨ path.getLast? = some 47 then path ++ piece
  else path ++ 47 :: piece

/-! ## The operating system's reading -/

/-- A piece between slashes. -/
def segmentOf (piece : Bytes) : Option (Segment FileName) :=
  if piece = ascii "." then some .current
  else if piece = ascii ".." then some .parent
  else (FileName.ofBytes piece).map .name

/-- A path is not empty and has no NUL. After a last slash a directory is
meant. -/
def osPath (path : Bytes) : Option (Written FileName) :=
  if path = [] ∨ 0 ∈ path then none
  else
    let pieces := path.splitOn 47
    some ⟨path.head? = some 47, pieces.filterMap segmentOf ++
      if pieces.getLast? = some [] then [.current] else []⟩

/-- The path of a place. -/
def render (names : List FileName) : Bytes :=
  if names = [] then [47] else names.flatMap fun name => 47 :: name.bytes

theorem segmentOf_bytes (name : FileName) : segmentOf name.bytes = some (.name name) := by
  obtain ⟨-, notDot, notDots, -, -⟩ := name.not_special
  rw [segmentOf, if_neg notDot, if_neg notDots, FileName.ofBytes_eq_some.mpr rfl, Option.map_some]

theorem intercalate_names (piece : Bytes) (names : List FileName) :
    [47].intercalate (piece :: names.map FileName.bytes) =
      piece ++ names.flatMap fun name => 47 :: name.bytes := by
  induction names generalizing piece with
  | nil => simp
  | cons name rest ih =>
      rw [List.map_cons, List.intercalate_cons_cons, ih, List.flatMap_cons]
      simp

theorem splitOn_render {names : List FileName} (below : names ≠ []) :
    (render names).splitOn 47 = [] :: names.map FileName.bytes := by
  have joined := intercalate_names [] names
  rw [List.nil_append] at joined
  rw [render, if_neg below, ← joined]
  refine List.splitOn_intercalate 47 (fun piece member => ?_) (List.cons_ne_nil _ _)
  rcases List.mem_cons.mp member with rfl | member
  · exact List.not_mem_nil
  · obtain ⟨name, -, rfl⟩ := List.mem_map.mp member
    exact name.not_special.2.2.2.1

theorem render_injective : Function.Injective render := by
  -- the pieces tell the names, and an empty last piece the top
  have pieces (names : List FileName) : (render names).splitOn 47 =
      [] :: if names = [] then [[]] else names.map FileName.bytes := by
    by_cases top : names = []
    · subst top
      rfl
    · rw [splitOn_render top, if_neg top]
  have apart {names : List FileName} (below : names ≠ []) :
      names.map FileName.bytes ≠ [[]] := by
    intro same
    obtain ⟨name, rfl, empty⟩ := List.map_eq_singleton_iff.mp same
    exact name.not_special.1 empty
  intro names others same
  have split := List.cons.inj ((pieces names).symm.trans ((congrArg _ same).trans (pieces others)))
  have same := split.2
  by_cases top : names = [] <;> by_cases top' : others = []
  · rw [top, top']
  · rw [if_pos top, if_neg top'] at same
    exact absurd same.symm (apart top')
  · rw [if_neg top, if_pos top'] at same
    exact absurd same (apart top)
  · rw [if_neg top, if_neg top'] at same
    exact List.map_injective_iff.mpr FileName.bytes_injective same

/-- A place's own path, read by the operating system. -/
theorem osPath_render {names : List FileName} (below : names ≠ []) :
    osPath (render names) = some ⟨true, names.map .name⟩ := by
  have pieces := splitOn_render below
  have noNul : 0 ∉ render names := by
    intro nul
    rw [render, if_neg below] at nul
    obtain ⟨name, -, nul⟩ := List.mem_flatMap.mp nul
    rcases List.mem_cons.mp nul with zero | nul
    · cases zero
    · exact name.not_special.2.2.2.2 nul
  have absolute : (render names).head? = some 47 := by
    rw [render, if_neg below]
    cases names with
    | nil => exact absurd rfl below
    | cons => rfl
  have noSlash : ([] :: names.map FileName.bytes).getLast? ≠ some [] := by
    rw [List.getLast?_cons, List.getLast?_map]
    cases last : names.getLast? with
    | none => exact absurd (List.getLast?_eq_none_iff.mp last) below
    | some name => simpa using name.not_special.1
  have segments : ([] :: names.map FileName.bytes).filterMap segmentOf = names.map .name := by
    rw [List.filterMap_cons_none rfl, List.filterMap_map]
    exact List.filterMap_eq_map_iff_forall_eq_some.mpr fun name _ => segmentOf_bytes name
  have some' : render names ≠ [] := fun none => by
    rw [none] at absolute
    cases absolute
  rw [osPath, if_neg (not_or.mpr ⟨some', noNul⟩)]
  simp only [pieces, absolute, segments, if_neg noSlash, List.append_nil, decide_true]

/-! ## Joining -/

theorem last_of_names {names : List FileName} (below : names ≠ []) :
    (names.flatMap fun name => 47 :: name.bytes).getLast? ≠ some 47 := by
  obtain ⟨before, name, rfl⟩ := List.eq_nil_or_concat names |>.resolve_left below
  intro slash
  rw [List.concat_eq_append, List.flatMap_append, List.flatMap_singleton,
    List.getLast?_append, List.getLast?_cons] at slash
  cases last : name.bytes.getLast? with
  | none => exact name.not_special.1 (List.getLast?_eq_none_iff.mp last)
  | some b =>
      rw [last] at slash
      obtain rfl : b = 47 := by simpa using slash
      exact name.not_special.2.2.2.1 (List.mem_of_getLast? last)

theorem push_name {path : Bytes} (some : path ≠ []) (noSlash : path.getLast? ≠ Option.some 47)
    (name : FileName) : push path name.bytes = path ++ 47 :: name.bytes := by
  have relative : name.bytes.head? ≠ Option.some 47 :=
    fun h => name.not_special.2.2.2.1 (List.mem_of_mem_head? h)
  rw [push, if_neg relative, if_neg (not_or.mpr ⟨some, noSlash⟩)]

/-- Names pushed one after another. -/
theorem foldl_push (names : List FileName) {path : Bytes} (some : path ≠ [])
    (noSlash : path.getLast? ≠ Option.some 47) :
    (names.map FileName.bytes).foldl push path =
      path ++ names.flatMap fun name => 47 :: name.bytes := by
  induction names generalizing path with
  | nil => simp
  | cons name rest ih =>
      rw [List.map_cons, List.foldl_cons, push_name some noSlash, ih (by simp), List.flatMap_cons,
        List.append_assoc]
      intro slash
      have last := last_of_names (List.cons_ne_nil name [])
      rw [List.flatMap_singleton, List.getLast?_cons] at last
      exact last (by simpa [List.getLast?_append, List.getLast?_cons] using slash)

/-- The names of a place joined to a directory's path give the place's path. -/
theorem push_render (top : List FileName) {names : List FileName} (below : names ≠ []) :
    push (render top) ((names.map FileName.bytes).foldl push []) = render (top ++ names) := by
  cases names with
  | nil => exact absurd rfl below
  | cons first rest =>
      have noSlash := first.not_special.2.2.2.1
      have relative : first.bytes.head? ≠ some 47 := fun h => noSlash (List.mem_of_mem_head? h)
      have pushed : ((first :: rest).map FileName.bytes).foldl push [] =
          first.bytes ++ rest.flatMap fun name => 47 :: name.bytes := by
        rw [List.map_cons, List.foldl_cons, push, if_neg relative, if_pos (.inl rfl),
          List.nil_append]
        exact foldl_push rest first.not_special.1 fun h => noSlash (List.mem_of_getLast? h)
      have start : (first.bytes ++ rest.flatMap fun name => 47 :: name.bytes).head? ≠ some 47 := by
        rw [List.head?_append_of_ne_nil _ first.not_special.1]
        exact relative
      rw [pushed, push, if_neg start]
      by_cases atTop : top = []
      · subst atTop
        rfl
      · have last := last_of_names atTop
        simp only [render, if_neg atTop]
        rw [if_neg (not_or.mpr ⟨?_, last⟩), if_neg (by simp), List.flatMap_append,
          List.flatMap_cons, List.cons_append]
        cases top with
        | nil => exact absurd rfl atTop
        | cons => exact List.cons_ne_nil _ _

end Rust
