import Shadowstep.Proxy.AssetPath
import Shadowstep.Proxy.AssetFile

/-!
# Assets while the files change

Asset requests from their arrival to their answer, over one tree of files and
one store. `resolve_asset` makes two paths canonical and `load` opens what
came out three times, each after an await, so entries may come, go and be
replaced between any two of these.

What is opened is a path, and a link on it would lead elsewhere. So a link is
made only where no file and no directory has been; then the path of a place
that has been seen leads to that place ever after, or to nothing.

* `AssetSite.step` — one change of the tree, or one step of a request;
* `AssetSite.Happens` — what such a step can be;
* `AssetSite.view` — the requests as the calls of `load` over files that are
  places;
* `served_from_root` — what is served was in a file of the root;
* `not_modified_iff` — when a client keeps its copy.
-/

namespace Shadowstep

open Rust FileTree

/-! ## The machine -/

/-- Where an asset request stands. -/
inductive AssetCallStage where
  /-- the asset root is being made canonical -/
  | roots (relative : List Bytes)
  /-- what the request names is being made canonical -/
  | joins (root : List FileName) (relative : List Bytes)
  /-- `load`, of a place below the root -/
  | loads (root place : List FileName) (stage : LoadStage)
  /-- `resolve_asset` has found nothing -/
  | refused
  /-- the client has gone away, maybe during `load` -/
  | left (loading : Bool)

structure AssetCall where
  request : AssetRequest
  stage : AssetCallStage

/-- The tree, the store and the requests. -/
structure AssetSite where
  tree : Tree FileName FileVersion
  /-- every modified time that a file at a path has had -/
  times : Path → List SystemTime
  /-- every place where a file or a directory has been -/
  used : List (List FileName)
  store : Store
  calls : Nat → Option AssetCall

/-- The content of a file. -/
def contentOf : Node FileName FileVersion → Option FileVersion
  | .file version => some version
  | _ => none

/-- The file that the operating system opens. -/
def openFile (tree : Tree FileName FileVersion) (links : Nat) (working : List FileName)
    (path : Path) : Option FileVersion :=
  (canonicalize tree links working path).bind fun place => (tree.node place).bind contentOf

/-- The place that has this path. -/
def placeOf (path : Path) : Option (List FileName) :=
  ((path.splitOn 47).tail.mapM FileName.ofBytes).filter fun names => render names = path

/-- The file at the place that has this path. -/
def fileAt (tree : Tree FileName FileVersion) (path : Path) : Option FileVersion :=
  (placeOf path).bind fun place => (tree.node place).bind contentOf

namespace AssetSite

inductive Event where
  /-- a file is written, or replaced by another one -/
  | write (directory : List FileName) (name : FileName) (version : FileVersion)
  | makeDirectory (directory : List FileName) (name : FileName)
  | link (directory : List FileName) (name : FileName) (target : Written FileName)
  | remove (place : List FileName)
  | arrive (id : Nat) (request : AssetRequest)
  | root (id : Nat)
  | join (id : Nat)
  | load (id : Nat) (step : LoadStep)
  | drop (id : Nat)
  /-- moka drops a record -/
  | evict (key : Key)

/-- An empty store before a tree of files. -/
def start (sizeMb : UInt64) (ttl : Duration) (tree : Tree FileName FileVersion) : AssetSite where
  tree := tree
  times := fun path => ((fileAt tree path).map FileVersion.modified).toList
  used := [] :: (tree.entries.map Prod.fst).filter tree.isReal
  store := .new sizeMb ttl
  calls := fun _ => none

def setCall (σ : AssetSite) (id : Nat) (request : AssetRequest) (stage : AssetCallStage) :
    AssetSite :=
  { σ with calls := Function.update σ.calls id (some ⟨request, stage⟩) }

section

variable [AssetCrates] (links : Nat) (working : List FileName) (root : Bytes)

/-- A write needs a modified time that the file never had, and a link a place
where no file or directory has been. -/
def step (σ : AssetSite) : Event → Option AssetSite
  | .write directory name version =>
    let place := directory ++ [name]
    if version.modified ∈ σ.times (render place) then none
    else (σ.tree.put directory name (.file version)).map fun tree =>
      { σ with
        tree
        times := Function.update σ.times (render place)
          (version.modified :: σ.times (render place))
        used := place :: σ.used }
  | .makeDirectory directory name =>
    if (σ.tree.node (directory ++ [name])).isSome then none
    else (σ.tree.put directory name .directory).map fun tree =>
      { σ with tree, used := (directory ++ [name]) :: σ.used }
  | .link directory name target =>
    if directory ++ [name] ∈ σ.used then none
    else (σ.tree.put directory name (.link target)).map fun tree => { σ with tree }
  | .remove place => (σ.tree.remove place).map fun tree => { σ with tree }
  | .arrive id request =>
    match σ.calls id with
    | some _ => none
    | none => some (σ.setCall id request
        ((relativePath request.filename).elim .refused .roots))
  | .root id => do
    let call ← σ.calls id
    match call.stage with
    | .roots relative => some (σ.setCall id call.request
        ((canonicalize σ.tree links working root).elim .refused fun root => .joins root relative))
    | _ => none
  | .join id => do
    let call ← σ.calls id
    match call.stage with
    | .joins root relative => some (σ.setCall id call.request
        ((resolveBelow σ.tree links working root relative).elim .refused fun place =>
          .loads root place (.called (render place))))
    | _ => none
  | .load id step => do
    let call ← σ.calls id
    match call.stage with
    | .loads root place stage => do
      let (stage, store) ← stage.next σ.store (openFile σ.tree links working) step
      return { σ with store }.setCall id call.request (.loads root place stage)
    | _ => none
  | .drop id => do
    let call ← σ.calls id
    match call.stage with
    | .roots _ | .joins .. => some (σ.setCall id call.request (.left false))
    | .loads _ _ (.called _) | .loads _ _ (.reads ..) =>
      some (σ.setCall id call.request (.left true))
    | _ => none
  | .evict key => some { σ with store := σ.store.removeEntry key }

end

end AssetSite

/-- The answer of a request that has come to its end. -/
def AssetCall.given [AssetCrates] (call : AssetCall) : Option AssetGiven :=
  match call.stage with
  | .refused | .loads _ _ .failed => some ⟨.missing, assetNotFound⟩
  | .loads _ _ (.returned _ asset .hit) => some ⟨.stored, assetResponse call.request asset .hit⟩
  | .loads _ _ (.returned _ asset status) => some ⟨.read, assetResponse call.request asset status⟩
  | _ => none

/-- The call of `load` that a request has begun. -/
def AssetCallStage.load : AssetCallStage → Option LoadStage
  | .loads _ _ stage => some stage
  | .left true => some .failed
  | _ => none

theorem AssetCallStage.loads_of_load {stage : AssetCallStage} {load : LoadStage}
    (there : stage.load = some load) (going : load.going = true) :
    ∃ top place, stage = .loads top place load := by
  cases stage with
  | loads top place stage =>
      obtain rfl := Option.some.inj there
      exact ⟨top, place, rfl⟩
  | left loading =>
      cases loading with
      | true =>
          obtain rfl := Option.some.inj there
          cases going
      | false => cases there
  | roots | joins | refused => cases there

/-- The calls of `load`, over the files by the paths of their places. -/
def AssetSite.view (σ : AssetSite) : AssetWorld where
  store := σ.store
  files := fileAt σ.tree
  times := σ.times
  loads := fun id => (σ.calls id).bind fun call => call.stage.load

/-! ## Paths of places -/

theorem placeOf_render {place : List FileName} (below : place ≠ []) :
    placeOf (render place) = some place := by
  have named : (place.map FileName.bytes).mapM FileName.ofBytes = some place := by
    induction place with
    | nil => rfl
    | cons name rest ih =>
        rw [List.map_cons, List.mapM_cons, FileName.ofBytes_eq_some.mpr rfl]
        by_cases last : rest = []
        · subst last
          rfl
        · rw [ih last]
          rfl
  rw [placeOf, splitOn_render below, List.tail_cons, named, Option.filter_some,
    if_pos (decide_eq_true rfl)]

theorem render_placeOf {path : Path} {place : List FileName} (h : placeOf path = some place) :
    render place = path := by
  simpa using (Option.filter_eq_some_iff.mp h).2

section

variable {tree tree' : Tree FileName FileVersion} {place : List FileName}

theorem fileAt_render : fileAt tree (render place) = (tree.node place).bind contentOf := by
  unfold fileAt
  cases found : placeOf (render place) with
  | some names =>
      rw [render_injective (render_placeOf found)]
      rfl
  | none =>
      by_cases top : place = []
      · subst top
        rfl
      · rw [placeOf_render top] at found
        cases found

/-- One place changes, and so what is at its path. -/
theorem fileAt_update {new : Option (Node FileName FileVersion)}
    (changed : tree'.node = Function.update tree.node place new) :
    fileAt tree' = Function.update (fileAt tree) (render place) (new.bind contentOf) := by
  funext path
  by_cases here : path = render place
  · subst here
    rw [fileAt_render, changed, Function.update_self, Function.update_self]
  · rw [Function.update_of_ne here, fileAt, fileAt]
    cases found : placeOf path with
    | none => rfl
    | some other =>
        have elsewhere : other ≠ place := by
          rintro rfl
          exact here (render_placeOf found).symm
        rw [Option.bind_some, Option.bind_some, changed, Function.update_of_ne elsewhere]

/-- Nothing that is read or written changes when no file comes or goes. -/
theorem fileAt_same {new : Option (Node FileName FileVersion)}
    (changed : tree'.node = Function.update tree.node place new)
    (before : (tree.node place).bind contentOf = none) (after : new.bind contentOf = none) :
    fileAt tree' = fileAt tree := by
  rw [fileAt_update changed, after, ← before, ← fileAt_render, Function.update_eq_self]

/-- A place's path opens what is at the place, when no link lies on it. -/
theorem openFile_render (links : Nat) (working : List FileName)
    (unlinked : ∀ above, above <+: place → tree.isLink above = false) :
    openFile tree links working (render place) = fileAt tree (render place) := by
  rw [fileAt_render, openFile]
  by_cases top : place = []
  · subst top
    cases links <;> rfl
  · rw [canonicalize_render top, tree.resolve_unlinked links unlinked (Tree.isReal_top tree),
      List.nil_append]
    cases there : tree.node place with
    | none => rfl
    | some node => simp [there]

end

/-! ## One call of `load` -/

/-- The call is for this path, and what it has returned carries its own tag. -/
def LoadStage.Of [AssetCrates] (path : Path) : LoadStage → Prop
  | .called other | .looks other .. | .reads other _ | .inserts other .. => other = path
  | .returned other asset _ => other = path ∧ asset.etag = assetEtag asset.content
  | .failed => True

/-- Every stored asset carries its own tag. -/
def Tagged [AssetCrates] (store : Store) : Prop :=
  ∀ path asset, store.asset path = some asset → asset.etag = assetEtag asset.content

section

variable [AssetCrates]

/-- `load` opens no other path. -/
theorem LoadStage.next_congr {stage : LoadStage} {path : Path} (of : stage.Of path) (store : Store)
    {files files' : Path → Option FileVersion} (same : files path = files' path)
    (move : LoadStep) : stage.next store files move = stage.next store files' move := by
  cases stage with
  | called other | reads other =>
      obtain rfl : other = path := of
      cases move <;> simp only [LoadStage.next, same]
  | looks | inserts | returned | failed => cases move <;> rfl

theorem Tagged.insertAsset {store : Store} (tagged : Tagged store) (path : Path) (content : Bytes)
    (modified : SystemTime) :
    Tagged (store.insertAsset path content (assetEtag content) modified).2 := by
  intro other asset h
  unfold Store.insertAsset at h
  simp only at h
  split at h
  · simp only [Store.asset, Store.insertAssetEntry] at h
    by_cases same : Key.asset other = Key.asset path
    · rw [same, Function.update_self] at h
      obtain rfl := Option.some.inj h
      rfl
    · rw [Function.update_of_ne same] at h
      exact tagged other asset h
  · exact tagged other asset h

/-- A step of `load` keeps to its path. -/
theorem LoadStage.next_of {stage stage' : LoadStage} {path : Path} (of : stage.Of path)
    {store store' : Store} (tagged : Tagged store) {files : Path → Option FileVersion}
    {move : LoadStep} (h : stage.next store files move = some (stage', store')) :
    stage'.Of path ∧ Tagged store' := by
  unfold LoadStage.next at h
  split at h
  case h_1 =>
    obtain ⟨file, -, eq⟩ := Option.map_eq_some_iff.mp h
    obtain ⟨rfl, rfl⟩ := Prod.mk.inj eq
    exact ⟨of, tagged⟩
  case h_2 other modified len =>
    split at h
    · rename_i asset fresh
      obtain ⟨rfl, rfl⟩ := Prod.mk.inj (Option.some.inj h)
      exact ⟨⟨of, tagged _ _ (Store.freshAsset_eq_some.mp fresh).1⟩, tagged⟩
    · obtain ⟨rfl, rfl⟩ := Prod.mk.inj (Option.some.inj h)
      exact ⟨of, tagged⟩
  case h_3 =>
    obtain ⟨file, -, eq⟩ := Option.map_eq_some_iff.mp h
    obtain ⟨rfl, rfl⟩ := Prod.mk.inj eq
    exact ⟨of, tagged⟩
  case h_4 other modified content =>
    obtain ⟨rfl, rfl⟩ := Prod.mk.inj (Option.some.inj h)
    have own : (store.insertAsset other content (assetEtag content) modified).1.etag =
        assetEtag (store.insertAsset other content (assetEtag content) modified).1.content := by
      rw [Store.insertAsset_asset]
    have kept : Tagged (store.insertAsset other content (assetEtag content) modified).2 :=
      Tagged.insertAsset tagged other content modified
    exact ⟨⟨of, own⟩, kept⟩
  case h_5 | h_6 =>
    obtain ⟨rfl, rfl⟩ := Prod.mk.inj (Option.some.inj h)
    exact ⟨trivial, tagged⟩
  case h_7 => cases h

end

namespace AssetSite

/-! ## What a step can be -/

section

variable [AssetCrates] (links : Nat) (working : List FileName) (root : Bytes)

/-- A step of the machine, event by event. -/
inductive Happens (σ : AssetSite) : Event → AssetSite → Prop
  | write {directory name version tree}
      (new : version.modified ∉ σ.times (render (directory ++ [name])))
      (put : σ.tree.put directory name (.file version) = some tree) :
    Happens σ (.write directory name version)
      { σ with
        tree
        times := Function.update σ.times (render (directory ++ [name]))
          (version.modified :: σ.times (render (directory ++ [name])))
        used := (directory ++ [name]) :: σ.used }
  | makeDirectory {directory name tree} (free : σ.tree.node (directory ++ [name]) = none)
      (put : σ.tree.put directory name .directory = some tree) :
    Happens σ (.makeDirectory directory name)
      { σ with tree, used := (directory ++ [name]) :: σ.used }
  | link {directory name target tree} (unused : directory ++ [name] ∉ σ.used)
      (put : σ.tree.put directory name (.link target) = some tree) :
    Happens σ (.link directory name target) { σ with tree }
  | remove {place tree} (removed : σ.tree.remove place = some tree) :
    Happens σ (.remove place) { σ with tree }
  | arrive {id request} (new : σ.calls id = none) :
    Happens σ (.arrive id request)
      (σ.setCall id request ((relativePath request.filename).elim .refused .roots))
  | root {id request relative} (here : σ.calls id = some ⟨request, .roots relative⟩) :
    Happens σ (.root id) (σ.setCall id request
      ((canonicalize σ.tree links working root).elim .refused fun top => .joins top relative))
  | join {id request top relative} (here : σ.calls id = some ⟨request, .joins top relative⟩) :
    Happens σ (.join id) (σ.setCall id request
      ((resolveBelow σ.tree links working top relative).elim .refused fun place =>
        .loads top place (.called (render place))))
  | load {id move request top place stage stage' store}
      (here : σ.calls id = some ⟨request, .loads top place stage⟩)
      (moved : stage.next σ.store (openFile σ.tree links working) move = some (stage', store)) :
    Happens σ (.load id move) ({ σ with store }.setCall id request (.loads top place stage'))
  | dropEarly {id request stage} (here : σ.calls id = some ⟨request, stage⟩)
      (early : stage.load = none) : Happens σ (.drop id) (σ.setCall id request (.left false))
  /-- the await that is dropped could have failed as well -/
  | dropLoading {id request top place stage}
      (here : σ.calls id = some ⟨request, .loads top place stage⟩)
      (awaits : ∀ store files, stage.next store files .fail = some (.failed, store)) :
    Happens σ (.drop id) (σ.setCall id request (.left true))
  | evict {key} : Happens σ (.evict key) { σ with store := σ.store.removeEntry key }

variable {links working root}

/-- Every step is one of these. -/
theorem happens_of_step {σ σ' : AssetSite} {event : Event}
    (h : step links working root σ event = some σ') :
    Happens links working root σ event σ' := by
  cases event with
  | write directory name version =>
      simp only [step] at h
      split at h
      case isTrue => cases h
      case isFalse new =>
        obtain ⟨tree, put, rfl⟩ := Option.map_eq_some_iff.mp h
        exact .write new put
  | makeDirectory directory name =>
      simp only [step] at h
      split at h
      case isTrue => cases h
      case isFalse free =>
        obtain ⟨tree, put, rfl⟩ := Option.map_eq_some_iff.mp h
        exact .makeDirectory (Option.not_isSome_iff_eq_none.mp free) put
  | link directory name target =>
      simp only [step] at h
      split at h
      case isTrue => cases h
      case isFalse unused =>
        obtain ⟨tree, put, rfl⟩ := Option.map_eq_some_iff.mp h
        exact .link unused put
  | remove place =>
      obtain ⟨tree, removed, rfl⟩ := Option.map_eq_some_iff.mp h
      exact .remove removed
  | arrive id request =>
      simp only [step] at h
      split at h
      case h_1 => cases h
      case h_2 new =>
        obtain rfl := Option.some.inj h
        exact .arrive new
  | root id =>
      obtain ⟨⟨request, stage⟩, here, h⟩ := Option.bind_eq_some_iff.mp h
      cases stage with
      | roots relative =>
          obtain rfl := Option.some.inj h
          exact .root here
      | _ => cases h
  | join id =>
      obtain ⟨⟨request, stage⟩, here, h⟩ := Option.bind_eq_some_iff.mp h
      cases stage with
      | joins top relative =>
          obtain rfl := Option.some.inj h
          exact .join here
      | _ => cases h
  | load id move =>
      obtain ⟨⟨request, stage⟩, here, h⟩ := Option.bind_eq_some_iff.mp h
      cases stage with
      | loads top place stage =>
          obtain ⟨⟨stage', store⟩, moved, h⟩ := Option.bind_eq_some_iff.mp h
          obtain rfl := Option.some.inj h
          exact .load here moved
      | _ => cases h
  | drop id =>
      obtain ⟨⟨request, stage⟩, here, h⟩ := Option.bind_eq_some_iff.mp h
      cases stage with
      | roots | joins =>
          obtain rfl := Option.some.inj h
          exact .dropEarly here rfl
      | loads top place stage =>
          cases stage with
          | called | reads =>
              obtain rfl := Option.some.inj h
              exact .dropLoading here fun _ _ => rfl
          | _ => cases h
      | _ => cases h
  | evict key =>
      obtain rfl := Option.some.inj h
      exact .evict

end

/-! ## What holds after every run -/

section

variable [AssetCrates]

/-- What a request has by the time it comes to a stage. -/
def Fits (used : List (List FileName)) (request : AssetRequest) : AssetCallStage → Prop
  | .roots relative | .joins _ relative => relativePath request.filename = some relative
  | .loads root place stage =>
    root <+: place ∧ (∀ above, above <+: place → above ∈ used) ∧ stage.Of (render place)
  | .refused | .left _ => True

structure Sound (σ : AssetSite) : Prop where
  used_of_real : ∀ place, σ.tree.isReal place = true → place ∈ σ.used
  unlinked : ∀ place ∈ σ.used, σ.tree.isLink place = false
  tagged : Tagged σ.store
  fits : ∀ id call, σ.calls id = some call → Fits σ.used call.request call.stage

variable {σ σ' : AssetSite}

theorem Fits.mono {used later : List (List FileName)} (grows : used ⊆ later)
    {request : AssetRequest} {stage : AssetCallStage} (fits : Fits used request stage) :
    Fits later request stage := by
  cases stage with
  | loads root place stage =>
      exact ⟨fits.1, fun above h => grows (fits.2.1 above h), fits.2.2⟩
  | roots | joins | refused | left => exact fits

/-- One place of the tree changes. What was no link there becomes none. -/
theorem Sound.changed (sound : Sound σ) {tree : Tree FileName FileVersion} {place : List FileName}
    {new : Option (Node FileName FileVersion)}
    (node : tree.node = Function.update σ.tree.node place new)
    (times : Path → List SystemTime) {used : List (List FileName)} (grows : σ.used ⊆ used)
    (only : ∀ other ∈ used, other ∈ σ.used ∨ other = place)
    (real : ∀ found, new = some found → found.isLink = false → place ∈ used)
    (link : ∀ found, new = some found → found.isLink = true → place ∉ used) :
    Sound { σ with tree, times, used } := by
  constructor
  case used_of_real =>
    intro other isReal
    obtain ⟨found, here, noLink⟩ := Tree.isReal_iff.mp isReal
    rw [node] at here
    by_cases same : other = place
    · subst same
      rw [Function.update_self] at here
      exact real found here noLink
    · rw [Function.update_of_ne same] at here
      exact grows (sound.used_of_real other (Tree.isReal_iff.mpr ⟨found, here, noLink⟩))
  case unlinked =>
    intro other member
    show (tree.node other).any Node.isLink = false
    rw [node]
    by_cases same : other = place
    · subst same
      rw [Function.update_self]
      cases new with
      | none => rfl
      | some found =>
          by_contra isLink
          exact link found rfl (by simpa using isLink) member
    · rw [Function.update_of_ne same]
      exact sound.unlinked other ((only other member).resolve_right same)
  case tagged => exact sound.tagged
  case fits => exact fun id call h => (sound.fits id call h).mono grows

/-- A request moves on. -/
theorem Sound.moved (sound : Sound σ) {store : Store} (tagged : Tagged store) (id : Nat)
    {request : AssetRequest} {stage : AssetCallStage} (fits : Fits σ.used request stage) :
    Sound ({ σ with store }.setCall id request stage) := by
  refine ⟨sound.used_of_real, sound.unlinked, tagged, fun other call h => ?_⟩
  rcases Runs.update_cases h with ⟨-, rfl⟩ | ⟨-, before⟩
  · exact fits
  · exact sound.fits other call before

section

variable {links : Nat} {working : List FileName} {root : Bytes} {event : Event}

theorem Sound.step (sound : Sound σ) (h : step links working root σ event = some σ') :
    Sound σ' := by
  cases happens_of_step h with
  | write _ put | makeDirectory _ put =>
      refine sound.changed (Tree.put_eq_some put).1 _ (List.subset_cons_self ..)
        (fun other member => (List.mem_cons.mp member).symm) (fun _ _ _ => List.mem_cons_self) ?_
      rintro _ ⟨⟩ isLink
      cases isLink
  | link unused put =>
      refine sound.changed (Tree.put_eq_some put).1 _ (List.Subset.refl _)
        (fun other member => .inl member) ?_ (fun _ _ _ => unused)
      rintro _ ⟨⟩ noLink
      cases noLink
  | remove removed =>
      exact sound.changed (Tree.remove_eq_some removed) _ (List.Subset.refl _)
        (fun other member => .inl member) (fun _ none => by cases none) (fun _ none => by cases none)
  | @arrive id request _ =>
      refine sound.moved sound.tagged id ?_
      cases relative : relativePath request.filename with
      | none => trivial
      | some pieces => exact relative
  | @root id request relative here =>
      refine sound.moved sound.tagged id ?_
      cases canonicalize σ.tree links working root with
      | none => trivial
      | some top => exact sound.fits id _ here
  | @join id request top relative here =>
      refine sound.moved sound.tagged id ?_
      cases resolved : resolveBelow σ.tree links working top relative with
      | none => trivial
      | some place =>
          obtain ⟨names, -, led, under⟩ := (resolveBelow_eq_some (sound.fits id _ here)).mp resolved
          have real := Tree.resolve_real (Tree.isReal_top σ.tree) led
          exact ⟨under, fun above h => sound.used_of_real above (Tree.isReal_of_below real h), rfl⟩
  | @load id move request top place stage stage' store here moved =>
      obtain ⟨under, seen, of⟩ := sound.fits id _ here
      obtain ⟨of', tagged⟩ := LoadStage.next_of of sound.tagged moved
      exact sound.moved tagged id ⟨under, seen, of'⟩
  | dropEarly | dropLoading => exact sound.moved sound.tagged _ trivial
  | evict =>
      exact ⟨sound.used_of_real, sound.unlinked,
        fun path asset h => sound.tagged path asset (Store.asset_removeEntry h), sound.fits⟩

/-! ## The calls of `load` -/

theorem Sound.unlinked_of_seen (sound : Sound σ) {place : List FileName}
    (seen : ∀ above, above <+: place → above ∈ σ.used) :
    ∀ above, above <+: place → σ.tree.isLink above = false :=
  fun above h => sound.unlinked above (seen above h)

/-- What is at a place that is not used is no file. -/
theorem Sound.no_file_of_unused (sound : Sound σ) {place : List FileName}
    (unused : place ∉ σ.used) : (σ.tree.node place).bind contentOf = none := by
  cases there : σ.tree.node place with
  | none => rfl
  | some node =>
      cases node with
      | directory | link => rfl
      | file version =>
          exact absurd (sound.used_of_real place (Tree.isReal_iff.mpr ⟨_, there, rfl⟩)) unused

omit [AssetCrates] in
theorem view_setCall (σ : AssetSite) (id : Nat) (request : AssetRequest) (stage : AssetCallStage) :
    (σ.setCall id request stage).view =
      { σ.view with loads := Function.update σ.view.loads id stage.load } := by
  have loads : (σ.setCall id request stage).view.loads =
      Function.update σ.view.loads id stage.load := by
    funext other
    by_cases same : other = id
    · subst same
      simp [view, setCall]
    · simp [view, setCall, Function.update_of_ne same]
  rw [← loads]
  rfl

omit [AssetCrates] in
/-- A request that has no call of `load`, and gets none. -/
theorem view_same {id : Nat} {request : AssetRequest} {stage : AssetCallStage}
    (before : σ.view.loads id = none) (after : stage.load = none) :
    (σ.setCall id request stage).view = σ.view := by
  rw [view_setCall, after, ← before, Function.update_eq_self]

/-- In the view that keeps the calls of `load`, and the files by the paths of
their places, each step is one step of `AssetWorld` or none. -/
theorem Sound.viewed (sound : Sound σ) (h : AssetSite.step links working root σ event = some σ') :
    σ'.view = σ.view ∨ ∃ seen, AssetWorld.step σ.view seen = some σ'.view := by
  cases happens_of_step h with
  | @write directory name version tree new put =>
      refine .inr ⟨.write (render (directory ++ [name])) version, ?_⟩
      simp only [AssetWorld.step, view, fileAt_update (Tree.put_eq_some put).1]
      exact if_neg new
  | @makeDirectory _ _ tree free put =>
      have same : fileAt tree = fileAt σ.tree := fileAt_same (Tree.put_eq_some put).1
        (by rw [free]; rfl) rfl
      exact .inl (by simp only [view, same])
  | @link _ _ _ tree unused put =>
      have same : fileAt tree = fileAt σ.tree := fileAt_same (Tree.put_eq_some put).1
        (sound.no_file_of_unused unused) rfl
      exact .inl (by simp only [view, same])
  | @remove place tree removed =>
      refine .inr ⟨.remove (render place), ?_⟩
      simp only [AssetWorld.step, view, fileAt_update (Tree.remove_eq_some removed)]
      rfl
  | @arrive id request new =>
      refine .inl (view_same (by simp [view, new]) ?_)
      cases relativePath request.filename <;> rfl
  | root here =>
      refine .inl (view_same (by simp [view, here, AssetCallStage.load]) ?_)
      cases canonicalize σ.tree links working root <;> rfl
  | @join id request top relative here =>
      have before : σ.view.loads id = none := by simp [view, here, AssetCallStage.load]
      cases resolveBelow σ.tree links working top relative with
      | none => exact .inl (view_same before rfl)
      | some place =>
          refine .inr ⟨.call id (render place), ?_⟩
          rw [Option.elim_some, view_setCall]
          simp only [AssetWorld.step, before]
          rfl
  | @load id move request top place stage stage' store here moved =>
      obtain ⟨-, seen, of⟩ := sound.fits id _ here
      have before : σ.view.loads id = some stage := by simp [view, here, AssetCallStage.load]
      have opens := openFile_render links working (sound.unlinked_of_seen seen)
      rw [LoadStage.next_congr of σ.store opens] at moved
      refine .inr ⟨.load id move, ?_⟩
      rw [view_setCall]
      simp only [AssetWorld.step, before, Option.bind_eq_bind, Option.bind_some]
      show ((stage.next σ.store (fileAt σ.tree) move).bind _) = _
      rw [moved]
      rfl
  | dropEarly here early => exact .inl (view_same (by simp [view, here, early]) rfl)
  | @dropLoading id request top place stage here awaits =>
      refine .inr ⟨.load id .fail, ?_⟩
      rw [view_setCall]
      simp [AssetWorld.step, view, here, AssetCallStage.load, awaits]
  | evict => exact .inr ⟨.evict _, rfl⟩

/-! ## What is served -/

theorem Sound.initial (sizeMb : UInt64) (ttl : Duration) (tree : Tree FileName FileVersion) :
    Sound (start sizeMb ttl tree) := by
  constructor
  case used_of_real =>
    intro place real
    cases place with
    | nil => exact List.mem_cons_self
    | cons name rest =>
        obtain ⟨node, here, -⟩ := Tree.isReal_iff.mp real
        obtain ⟨before, after, split, -⟩ := List.lookup_eq_some_iff.mp
          (show tree.entries.lookup (name :: rest) = some node from here)
        refine List.mem_cons_of_mem _ (List.mem_filter.mpr ⟨?_, real⟩)
        exact List.mem_map.mpr ⟨(name :: rest, node), by simp [split], rfl⟩
  case unlinked =>
    intro place member
    rcases List.mem_cons.mp member with rfl | member
    · rfl
    · exact Tree.isLink_of_isReal (List.mem_filter.mp member).2
  case tagged => exact fun path asset h => by cases h
  case fits => exact fun id call h => by cases h

/-- The asset root that a request goes on with. -/
def top : AssetCallStage → Option (List FileName)
  | .joins top _ | .loads top _ _ => some top
  | .roots _ | .refused | .left _ => none

/-- At some moment of the run the request asked where the asset root is, and
it was there. -/
def RootedDuring (links : Nat) (working : List FileName) (root : Bytes) (σ₀ : AssetSite)
    (events : List Event) (id : Nat) (place : List FileName) : Prop :=
  ∃ σ call relative, Runs.Moment (step links working root) σ₀ events σ ∧
    σ.calls id = some call ∧ call.stage = .roots relative ∧
    canonicalize σ.tree links working root = some place

/-- At some moment of the run the request asked what its file name leads to
below `top`, and it was this place. -/
def ResolvedDuring (links : Nat) (working : List FileName) (root : Bytes) (σ₀ : AssetSite)
    (events : List Event) (id : Nat) (request : AssetRequest) (top place : List FileName) : Prop :=
  ∃ σ relative, Runs.Moment (step links working root) σ₀ events σ ∧
    σ.calls id = some ⟨request, .joins top relative⟩ ∧
    relativePath request.filename = some relative ∧
    resolveBelow σ.tree links working top relative = some place

/-- At some moment of the run the request was in `load`, of this place, and the
file there had this content. -/
def ServedDuring (links : Nat) (working : List FileName) (root : Bytes) (σ₀ : AssetSite)
    (events : List Event) (id : Nat) (top place : List FileName) (content : Bytes) : Prop :=
  ∃ σ call stage version, Runs.Moment (step links working root) σ₀ events σ ∧
    σ.calls id = some call ∧ call.stage = .loads top place stage ∧ stage.going = true ∧
    σ.tree.node place = some (.file version) ∧ version.content = content

/-- What a step can make of a request. -/
inductive Proceeds (links : Nat) (working : List FileName) (root : Bytes) (σ : AssetSite) :
    Option AssetCall → AssetCall → Prop
  | stays {call} : Proceeds links working root σ (some call) call
  | arrives {request} : Proceeds links working root σ none
      ⟨request, (relativePath request.filename).elim .refused .roots⟩
  | rooted {request relative} : Proceeds links working root σ (some ⟨request, .roots relative⟩)
      ⟨request, (canonicalize σ.tree links working root).elim .refused fun top =>
        .joins top relative⟩
  | joined {request top relative} :
    Proceeds links working root σ (some ⟨request, .joins top relative⟩)
      ⟨request, (resolveBelow σ.tree links working top relative).elim .refused fun place =>
        .loads top place (.called (render place))⟩
  | loads {request top place stage stage'} :
    Proceeds links working root σ (some ⟨request, .loads top place stage⟩)
      ⟨request, .loads top place stage'⟩
  | leaves {request stage loading} :
    Proceeds links working root σ (some ⟨request, stage⟩) ⟨request, .left loading⟩

/-- A step moves one request at most. -/
theorem calls_of_step (h : AssetSite.step links working root σ event = some σ') :
    σ'.calls = σ.calls ∨ ∃ id call, σ'.calls = Function.update σ.calls id (some call) ∧
      Proceeds links working root σ (σ.calls id) call := by
  cases happens_of_step h with
  | write | makeDirectory | link | remove | evict => exact .inl rfl
  | arrive new => exact .inr ⟨_, _, rfl, new ▸ .arrives⟩
  | root here => exact .inr ⟨_, _, rfl, here ▸ .rooted⟩
  | join here => exact .inr ⟨_, _, rfl, here ▸ .joined⟩
  | load here => exact .inr ⟨_, _, rfl, here ▸ .loads⟩
  | dropEarly here | dropLoading here => exact .inr ⟨_, _, rfl, here ▸ .leaves⟩

theorem proceeds_of_step (h : AssetSite.step links working root σ event = some σ') {id : Nat}
    {call : AssetCall} (called : σ'.calls id = some call) :
    Proceeds links working root σ (σ.calls id) call := by
  obtain same | ⟨other, moved, update, proceeds⟩ := calls_of_step h
  · rw [← same, called]
    exact .stays
  · rw [update] at called
    obtain ⟨rfl, rfl⟩ | ⟨-, before⟩ := Runs.update_cases called
    · exact proceeds
    · rw [before]
      exact .stays

/-- No request goes from the world. -/
theorem calls_remain (h : AssetSite.step links working root σ event = some σ') {id : Nat}
    {before : AssetCall} (there : σ.calls id = some before) : ∃ call, σ'.calls id = some call := by
  obtain same | ⟨other, moved, update, -⟩ := calls_of_step h
  · exact ⟨before, same ▸ there⟩
  · rw [update]
    by_cases mine : id = other
    · exact ⟨moved, mine ▸ Function.update_self ..⟩
    · exact ⟨before, (Function.update_of_ne mine ..).trans there⟩

omit [AssetCrates] in
/-- A request has the root that it had, or has just been told. -/
theorem Proceeds.top {was : Option AssetCall} {call : AssetCall} {place : List FileName}
    (proceeds : Proceeds links working root σ was call) (rooted : top call.stage = some place) :
    (∃ before, was = some before ∧ AssetSite.top before.stage = some place) ∨
      ∃ before relative, was = some before ∧ before.stage = .roots relative ∧
        canonicalize σ.tree links working root = some place := by
  cases proceeds with
  | stays => exact .inl ⟨call, rfl, rooted⟩
  | @arrives request =>
      cases relative : relativePath request.filename <;> rw [relative] at rooted <;> cases rooted
  | rooted =>
      refine .inr ⟨_, _, rfl, rfl, ?_⟩
      cases led : canonicalize σ.tree links working root with
      | none =>
          rw [led] at rooted
          cases rooted
      | some found =>
          rw [led] at rooted
          exact rooted
  | @joined request top relative =>
      refine .inl ⟨_, rfl, ?_⟩
      cases resolved : resolveBelow σ.tree links working top relative with
      | none =>
          rw [resolved] at rooted
          cases rooted
      | some found =>
          rw [resolved] at rooted
          exact rooted
  | loads => exact .inl ⟨_, rfl, rooted⟩
  | leaves => cases rooted

omit [AssetCrates] in
/-- A request loads the place that it loaded, or that its name has just led
to. -/
theorem Proceeds.place {was : Option AssetCall} {call : AssetCall} {top place : List FileName}
    {stage : LoadStage} (proceeds : Proceeds links working root σ was call)
    (loads : call.stage = .loads top place stage) :
    (∃ stage', was = some ⟨call.request, .loads top place stage'⟩) ∨
      ∃ relative, was = some ⟨call.request, .joins top relative⟩ ∧
        resolveBelow σ.tree links working top relative = some place := by
  cases proceeds with
  | stays =>
      obtain ⟨request, at_it⟩ := call
      subst loads
      exact .inl ⟨stage, rfl⟩
  | @arrives request =>
      cases relative : relativePath request.filename <;> rw [relative] at loads <;> cases loads
  | rooted =>
      cases led : canonicalize σ.tree links working root <;> rw [led] at loads <;> cases loads
  | @joined request top' relative =>
      cases resolved : resolveBelow σ.tree links working top' relative with
      | none =>
          rw [resolved] at loads
          cases loads
      | some found =>
          rw [resolved] at loads
          obtain ⟨rfl, rfl, -⟩ := AssetCallStage.loads.inj loads
          exact .inr ⟨relative, rfl, resolved⟩
  | loads =>
      obtain ⟨rfl, rfl, -⟩ := AssetCallStage.loads.inj loads
      exact .inl ⟨_, rfl⟩
  | leaves => cases loads

omit [AssetCrates] in
/-- A request that loads a place goes on with it, or leaves. -/
theorem Proceeds.loading {request : AssetRequest} {top place : List FileName} {stage : LoadStage}
    {call : AssetCall}
    (proceeds : Proceeds links working root σ (some ⟨request, .loads top place stage⟩) call) :
    (∃ stage', call.stage = .loads top place stage') ∨ ∃ loading, call.stage = .left loading := by
  cases proceeds with
  | stays | loads => exact .inl ⟨_, rfl⟩
  | leaves => exact .inr ⟨_, rfl⟩

omit [AssetCrates] in
theorem Proceeds.left {before call : AssetCall} {loading : Bool}
    (proceeds : Proceeds links working root σ (some before) call)
    (left : before.stage = .left loading) : ∃ loading, call.stage = .left loading := by
  cases proceeds with
  | stays => exact ⟨loading, left⟩
  | leaves => exact ⟨_, rfl⟩
  | rooted | joined | loads => cases left

/-- Where a request looks is where the asset root was while the request ran. -/
theorem rooted_during {σ₀ : AssetSite} {events : List Event} (none : σ₀.calls = fun _ => none)
    (run : Runs.run (AssetSite.step links working root) σ₀ events = some σ) {id : Nat}
    {call : AssetCall} {place : List FileName} (called : σ.calls id = some call)
    (rooted : top call.stage = some place) :
    RootedDuring links working root σ₀ events id place := by
  refine Runs.invariant_history (I := fun events σ => ∀ call place, σ.calls id = some call →
    top call.stage = some place → RootedDuring links working root σ₀ events id place)
    (fun call place h => ?_) ?_ run call place called rooted
  · rw [none] at h
    cases h
  · intro before e middle next hbefore inv hstep call place called rooted
    obtain ⟨call', called', rooted'⟩ | ⟨call', relative, called', stage, led⟩ :=
      (proceeds_of_step hstep called).top rooted
    · obtain ⟨τ, call, relative, moment, rest⟩ := inv call' place called' rooted'
      exact ⟨τ, call, relative, moment.snoc e, rest⟩
    · exact ⟨middle, call', relative, (Runs.Moment.last hbefore).snoc e, called', stage, led⟩

/-- The place that a request loads is what its file name led to while the
request ran. -/
theorem resolved_during {σ₀ : AssetSite} {events : List Event} (start : Sound σ₀)
    (none : σ₀.calls = fun _ => none)
    (run : Runs.run (AssetSite.step links working root) σ₀ events = some σ) {id : Nat}
    {call : AssetCall} {top place : List FileName} {stage : LoadStage}
    (called : σ.calls id = some call) (loads : call.stage = .loads top place stage) :
    ResolvedDuring links working root σ₀ events id call.request top place := by
  refine Runs.invariant_history (I := fun events σ => ∀ call stage, σ.calls id = some call →
    call.stage = .loads top place stage →
      ResolvedDuring links working root σ₀ events id call.request top place)
    (fun call stage h => ?_) ?_ run call stage called loads
  · rw [none] at h
    cases h
  · intro before e middle next hbefore inv hstep call stage called loads
    obtain ⟨stage', called'⟩ | ⟨relative, called', resolved⟩ :=
      (proceeds_of_step hstep called).place loads
    · obtain ⟨τ, relative, moment, rest⟩ := inv _ stage' called' rfl
      exact ⟨τ, relative, moment.snoc e, rest⟩
    · have sound : Sound middle :=
        Runs.invariant_run (fun _ _ _ sound h => Sound.step sound h) start hbefore
      exact ⟨middle, relative, (Runs.Moment.last hbefore).snoc e, called', sound.fits id _ called',
        resolved⟩

/-- The place that a request loads is the one that it loaded at every moment
of `load`. -/
theorem loaded_during {σ₀ : AssetSite} {events : List Event}
    (run : Runs.run (AssetSite.step links working root) σ₀ events = some σ) {id : Nat}
    {call : AssetCall} {top place : List FileName} {stage : LoadStage}
    (called : σ.calls id = some call) (loads : call.stage = .loads top place stage)
    {middle : AssetSite} (moment : Runs.Moment (AssetSite.step links working root) σ₀ events middle)
    {call' : AssetCall} {top' place' : List FileName} {stage' : LoadStage}
    (called' : middle.calls id = some call') (loads' : call'.stage = .loads top' place' stage') :
    top' = top ∧ place' = place := by
  obtain ⟨first, second, rfl, before⟩ := moment
  obtain ⟨again, before', after⟩ := Runs.run_append.mp run
  obtain rfl := Option.some.inj (before.symm.trans before')
  -- from that moment on the request loads this place, or has left
  obtain ⟨call'', called'', ⟨stage'', loads''⟩ | ⟨loading, left⟩⟩ :=
    Runs.invariant_run (I := fun τ => ∃ call, τ.calls id = some call ∧
      ((∃ stage, call.stage = .loads top' place' stage) ∨ ∃ loading, call.stage = .left loading))
      (fun τ _ τ' now hstep => by
        obtain ⟨⟨request, stage⟩, here, now⟩ := now
        obtain ⟨next, there⟩ := calls_remain hstep here
        have proceeds := proceeds_of_step hstep there
        rw [here] at proceeds
        refine ⟨next, there, ?_⟩
        obtain ⟨stage', rfl⟩ | ⟨loading, rfl⟩ := now
        · exact proceeds.loading
        · exact .inr (proceeds.left rfl))
      ⟨call', called', .inl ⟨stage', loads'⟩⟩ after
  · obtain rfl := Option.some.inj (called.symm.trans called'')
    obtain ⟨rfl, rfl, -⟩ := AssetCallStage.loads.inj (loads.symm.trans loads'')
    exact ⟨rfl, rfl⟩
  · obtain rfl := Option.some.inj (called.symm.trans called'')
    cases loads.symm.trans left

/-- The asset of an answer that found one. -/
theorem asset_of_given {call : AssetCall} {given : AssetGiven} (answered : call.given = some given)
    (found : given.cause ≠ .missing) : ∃ top place path asset status,
      call.stage = .loads top place (.returned path asset status) ∧
        given.response = assetResponse call.request asset status := by
  unfold AssetCall.given at answered
  split at answered
  case h_1 | h_2 =>
    obtain rfl := Option.some.inj answered
    exact absurd rfl found
  case h_3 top place path asset stage | h_4 top place path asset _ _ stage =>
    obtain rfl := Option.some.inj answered
    exact ⟨top, place, path, asset, _, stage, rfl⟩
  case h_5 => cases answered

/-- What a call of `load` has returned: an asset with its own tag, and the
content that the file of the request had at a moment of the call. -/
theorem served_of_returned {sizeMb : UInt64} {ttl : Duration}
    {tree : Tree FileName FileVersion} {events : List Event}
    (run : Runs.run (AssetSite.step links working root) (start sizeMb ttl tree) events = some σ)
    {id : Nat} {call : AssetCall} {top' place : List FileName} {path : Path} {asset : Asset}
    {status : CacheStatus} (called : σ.calls id = some call)
    (stage : call.stage = .loads top' place (.returned path asset status)) :
    asset.etag = assetEtag asset.content ∧ top' <+: place ∧
      RootedDuring links working root (start sizeMb ttl tree) events id top' ∧
      ResolvedDuring links working root (start sizeMb ttl tree) events id call.request top' place ∧
      ServedDuring links working root (start sizeMb ttl tree) events id top' place
        asset.content := by
  have always {events : List Event} {σ : AssetSite}
      (run : Runs.run (AssetSite.step links working root) (start sizeMb ttl tree) events = some σ) :
      Sound σ :=
    Runs.invariant_run (fun _ _ _ sound h => sound.step h) (Sound.initial sizeMb ttl tree) run
  have fits := (always run).fits id call called
  rw [stage] at fits
  obtain ⟨under, -, rfl, tag⟩ := fits
  refine ⟨tag, under, rooted_during rfl run called (by rw [stage]; rfl),
    resolved_during (Sound.initial sizeMb ttl tree) rfl run called stage, ?_⟩
  -- the run as a run of `load` alone
  obtain ⟨seen, viewed, moments⟩ := Runs.exists_viewed_run
    (fun _ _ _ sound h => Sound.step sound h) (fun _ _ _ sound h => Sound.viewed sound h)
    (Sound.initial sizeMb ttl tree) run
  have inv : AssetWorld.LoadInv (start sizeMb ttl tree).view seen σ.view :=
    Runs.invariant_history (AssetWorld.LoadInv.initial sizeMb ttl (fileAt tree))
      (fun _ _ _ _ run inv h => inv.step run h) viewed
  have returned : σ.view.loads id = some (.returned (render place) asset status) := by
    simp [view, called, stage, AssetCallStage.load]
  obtain ⟨first, second, τ, load, file, split, run', loading, going, found, held⟩ :=
    inv.returned_held id (render place) asset status returned
  obtain ⟨middle, moment, rfl⟩ := moments τ ⟨first, second, split, run'⟩
  obtain ⟨call', called', load'⟩ := Option.bind_eq_some_iff.mp loading
  have here : (middle.tree.node place).bind contentOf = some file := by
    rw [← fileAt_render]
    exact found
  obtain ⟨node, there, content⟩ := Option.bind_eq_some_iff.mp here
  cases node with
  | directory | link => cases content
  | file version =>
      obtain rfl := Option.some.inj content
      obtain ⟨top, other, at_it⟩ := AssetCallStage.loads_of_load load' going
      obtain ⟨rfl, rfl⟩ := loaded_during run called stage moment called' at_it
      exact ⟨middle, call', load, version, moment, called', at_it, going, there, held⟩

/-- **What is served is in the asset root.** For every interleaving of asset
requests, changes of the tree and evictions: the answer to a request, when it
found a file, is made of a content that a file below the asset root had while
the request was in `load`, and of that content's own tag. The asset root is
where its path led during the request. -/
theorem served_from_root (links : Nat) (working : List FileName) (root : Bytes) (sizeMb : UInt64)
    (ttl : Duration) (tree : Tree FileName FileVersion) (events : List Event) (σ : AssetSite)
    (run : Runs.run (AssetSite.step links working root) (start sizeMb ttl tree) events = some σ)
    (id : Nat) (call : AssetCall) (given : AssetGiven) (called : σ.calls id = some call)
    (answered : call.given = some given) (found : given.cause ≠ .missing) :
    ∃ top place asset status, given.response = assetResponse call.request asset status ∧
      asset.etag = assetEtag asset.content ∧ top <+: place ∧
      RootedDuring links working root (start sizeMb ttl tree) events id top ∧
      ServedDuring links working root (start sizeMb ttl tree) events id top place
        asset.content := by
  obtain ⟨top, place, path, asset, status, stage, response⟩ := asset_of_given answered found
  obtain ⟨tag, under, rooted, -, served⟩ := served_of_returned run called stage
  exact ⟨top, place, asset, status, response, tag, under, rooted, served⟩

end

end

def abcVersion : FileVersion := ⟨ascii "abc", AssetWorld.firstVersion.modified⟩

/-- `/assets/app.css` with the content `abc`. -/
def abcTree : Option (Tree FileName FileVersion) := do
  let tree ← Tree.empty.put [] assetsName .directory
  tree.put [assetsName] styleName (.file abcVersion)

/-- The digests of `abc` and of the empty content. -/
@[reducible] def abcCrates : AssetCrates where
  sha256Hex content :=
    if content = ascii "abc" then
      "ba7816bf8f01cfea414140de5dae2223b00361a396177a9cb410ff61f20015ad".toList
    else "e3b0c44298fc1c149afbf4c8996fb92427ae41e4649b934ca495991b7852b855".toList
  mime _ := "text/css".toList

/-- A client asks for the file, and asks again with the tag that it has. -/
def askedTwice : List Event :=
  let tag := @ownValue (@assetEtag abcCrates (ascii "abc"))
  [.arrive 0 ⟨"app.css".toList, []⟩, .root 0, .join 0, .load 0 .metadata, .load 0 .look,
    .load 0 .read, .load 0 .insert,
    .arrive 1 ⟨"app.css".toList, HeaderMap.append [] header.ifNoneMatch tag⟩, .root 1, .join 1,
    .load 1 .metadata, .load 1 .look]

/-- The world after them. -/
def afterAskedTwice : Option AssetSite :=
  Runs.run (@AssetSite.step abcCrates 40 [] (ascii "/assets"))
    (start 1 (Duration.fromSecs 300) (abcTree.get rfl)) askedTwice

/-- The second request is answered from the store with 304, of a file in the
root. -/
theorem served_from_root_example : ∃ (_ : AssetCrates) (σ : AssetSite) (call : AssetCall)
    (given : AssetGiven), afterAskedTwice = some σ ∧ σ.calls 1 = some call ∧
      call.given = some given ∧ given.response.status = .notModified ∧
      ∃ top place asset status, given.response = assetResponse call.request asset status ∧
        asset.etag = assetEtag asset.content ∧ top <+: place ∧
        RootedDuring 40 [] (ascii "/assets")
          (start 1 (Duration.fromSecs 300) (abcTree.get rfl)) askedTwice 1 top ∧
        ServedDuring 40 [] (ascii "/assets")
          (start 1 (Duration.fromSecs 300) (abcTree.get rfl)) askedTwice 1 top place
          asset.content :=
  let crates : AssetCrates := abcCrates
  have run : afterAskedTwice = some (afterAskedTwice.get rfl) := (Option.some_get _).symm
  ⟨crates, _, _, _, run, rfl, rfl, rfl,
    served_from_root 40 [] (ascii "/assets") 1 (Duration.fromSecs 300) (abcTree.get rfl) askedTwice
      _ run 1 _ _ rfl rfl (by decide)⟩

/-! ## Conditional requests -/

section

variable [AssetCrates]

omit [AssetCrates] in
theorem asBytes_visible (text : VisibleText) :
    asBytes text.text = text.text.map Char.toUInt8 := by
  rw [asBytes, ← List.flatMap_singleton' (text.text.map Char.toUInt8), List.flatMap_map]
  refine List.flatMap_congr fun c member => ?_
  have visible := text.visible c member
  exact String.utf8EncodeChar_eq_singleton (Char.utf8Size_eq_one_iff.mpr
    (UInt32.le_iff_toNat_le.mpr (by rw [Char.toNat_val]; show c.toNat ≤ 127; omega)))

omit [AssetCrates] in
theorem ownValue_visible (text : VisibleText) : ownValue text.text = text.toValue := by
  ext1
  show (asBytes text.text).filter isValueByte = text.text.map Char.toUInt8
  rw [asBytes_visible]
  exact List.filter_eq_self.mpr text.toValue.valid

/-- A tag is hexadecimal digits in quotes, so a client sends it back as it
was. -/
theorem toStr_assetEtag
    (hexadecimal : ∀ content, ∀ c ∈ AssetCrates.sha256Hex content, c ∈ "0123456789abcdef".toList)
    (content : Bytes) : (ownValue (assetEtag content)).toStr = some (assetEtag content) := by
  have visible : ∀ c ∈ assetEtag content, c.toNat = 9 ∨ (32 ≤ c.toNat ∧ c.toNat < 127) := by
    have digits : ∀ c ∈ '"' :: "0123456789abcdef".toList,
        c.toNat = 9 ∨ (32 ≤ c.toNat ∧ c.toNat < 127) := by decide
    intro c member
    refine digits c ?_
    rcases List.mem_append.mp member with front | last
    · rcases List.mem_cons.mp front with rfl | digit
      · exact List.mem_cons_self
      · exact List.mem_cons_of_mem _ (hexadecimal content c (List.mem_of_mem_take digit))
    · rw [List.mem_singleton.mp last]
      exact List.mem_cons_self
  have shown := ownValue_visible ⟨assetEtag content, visible⟩
  rw [shown, VisibleText.toStr_toValue]

theorem get_etag_assetResponse (request : AssetRequest) (asset : Asset) (status : CacheStatus) :
    (assetResponse request asset status).headers.get header.etag = some (ownValue asset.etag) := by
  have different : header.etag ≠ cacheStatusName ∧ header.etag ≠ header.cacheControl ∧
      header.etag ≠ header.contentType := by decide
  unfold assetResponse
  simp only
  split <;>
    simp [HeaderMap.get, HeaderMap.append, HeaderMap.getAll_insert, HeaderMap.getAll_cons,
      different]

/-- An answer is a 304 without a body when the client has the file's tag, and
the file otherwise. -/
theorem assetResponse_cases (request : AssetRequest) (asset : Asset) (status : CacheStatus) :
    ((request.headers.get header.ifNoneMatch).bind HeaderValue.toStr = some asset.etag ∧
        (assetResponse request asset status).status = .notModified) ∨
      ((request.headers.get header.ifNoneMatch).bind HeaderValue.toStr ≠ some asset.etag ∧
        (assetResponse request asset status).status = .ok ∧
        (assetResponse request asset status).body = some asset.content) := by
  unfold assetResponse
  simp only
  split
  case isTrue same =>
    obtain ⟨tag, sent, same⟩ := (Option.any_eq_true _ _).mp same
    exact .inl ⟨by rw [sent, of_decide_eq_true same], rfl⟩
  case isFalse differ =>
    refine .inr ⟨fun sent => differ ?_, rfl, rfl⟩
    rw [sent]
    exact decide_eq_true rfl

/-- **When a client keeps its copy.** A client that has been sent a file sends
its tag with a later request. In every run there is one place below the asset
root that the later request's file name led to while the request ran, and one
content that the file at that place had while the request was in `load`, such
that the client is told 304 exactly when the content's tag is the tag of the
content it was sent, and is sent that content otherwise. -/
theorem not_modified_iff (links : Nat) (working : List FileName) (root : Bytes) (sizeMb : UInt64)
    (ttl : Duration) (tree : Tree FileName FileVersion)
    (hexadecimal : ∀ content, ∀ c ∈ AssetCrates.sha256Hex content, c ∈ "0123456789abcdef".toList)
    (events : List Event) (σ : AssetSite)
    (run : Runs.run (AssetSite.step links working root) (start sizeMb ttl tree) events = some σ)
    (id id' : Nat) (call call' : AssetCall) (given given' : AssetGiven)
    (called : σ.calls id = some call) (called' : σ.calls id' = some call')
    (answered : call.given = some given) (answered' : call'.given = some given')
    (sent : given.cause ≠ .missing) (whole : given.response.status = .ok)
    (found : given'.cause ≠ .missing)
    (echoed : call'.request.headers.get header.ifNoneMatch =
      given.response.headers.get header.etag) :
    ∃ content content' top place stage, given.response.body = some content ∧
      call'.stage = .loads top place stage ∧ top <+: place ∧
      RootedDuring links working root (start sizeMb ttl tree) events id' top ∧
      ResolvedDuring links working root (start sizeMb ttl tree) events id' call'.request top
        place ∧
      ServedDuring links working root (start sizeMb ttl tree) events id' top place content' ∧
      (given'.response.status = .notModified ↔ assetEtag content' = assetEtag content) ∧
      (given'.response.status ≠ .notModified → given'.response.body = some content') := by
  obtain ⟨top, place, path, asset, status, stage, response⟩ := asset_of_given answered sent
  obtain ⟨top', place', path', asset', status', stage', response'⟩ := asset_of_given answered' found
  obtain ⟨tag, -⟩ := served_of_returned run called stage
  obtain ⟨tag', under, rooted, resolved, served⟩ := served_of_returned run called' stage'
  have body : given.response.body = some asset.content := by
    rw [response] at whole ⊢
    obtain ⟨-, notModified⟩ | ⟨-, -, body⟩ := assetResponse_cases call.request asset status
    · rw [notModified] at whole
      cases whole
    · exact body
  have offered : (call'.request.headers.get header.ifNoneMatch).bind HeaderValue.toStr =
      some (assetEtag asset.content) := by
    rw [echoed, response, get_etag_assetResponse, Option.bind_some, tag,
      toStr_assetEtag hexadecimal]
  have either := assetResponse_cases call'.request asset' status'
  rw [offered, tag', ← response'] at either
  refine ⟨asset.content, asset'.content, top', place', _, body, stage', under, rooted, resolved,
    served, ?_⟩
  obtain ⟨same, notModified⟩ | ⟨differ, ok, whole'⟩ := either
  · exact ⟨⟨fun _ => (Option.some.inj same).symm, fun _ => notModified⟩,
      fun modified => absurd notModified modified⟩
  · refine ⟨⟨fun notModified => ?_, fun same => absurd (congrArg some same.symm) differ⟩,
      fun _ => whole'⟩
    rw [notModified] at ok
    cases ok

end

/-- The first request is sent `abc`, and the second one keeps it. -/
theorem not_modified_iff_example : ∃ (_ : AssetCrates) (σ : AssetSite) (call call' : AssetCall)
    (given given' : AssetGiven), afterAskedTwice = some σ ∧ σ.calls 0 = some call ∧
      σ.calls 1 = some call' ∧ call.given = some given ∧ call'.given = some given' ∧
      given.response.status = .ok ∧ given'.response.status = .notModified ∧
      ∃ content content' top place stage, given.response.body = some content ∧
        call'.stage = .loads top place stage ∧ top <+: place ∧
        RootedDuring 40 [] (ascii "/assets")
          (start 1 (Duration.fromSecs 300) (abcTree.get rfl)) askedTwice 1 top ∧
        ResolvedDuring 40 [] (ascii "/assets")
          (start 1 (Duration.fromSecs 300) (abcTree.get rfl)) askedTwice 1 call'.request top
          place ∧
        ServedDuring 40 [] (ascii "/assets")
          (start 1 (Duration.fromSecs 300) (abcTree.get rfl)) askedTwice 1 top place content' ∧
        (given'.response.status = .notModified ↔ assetEtag content' = assetEtag content) ∧
        (given'.response.status ≠ .notModified → given'.response.body = some content') := by
  let crates : AssetCrates := abcCrates
  have run : afterAskedTwice = some (afterAskedTwice.get rfl) := (Option.some_get _).symm
  have hexadecimal : ∀ content, ∀ c ∈ AssetCrates.sha256Hex content,
      c ∈ "0123456789abcdef".toList := by
    intro content
    by_cases abc : content = ascii "abc"
    · show ∀ c ∈ (if content = ascii "abc" then _ else _), c ∈ _
      rw [if_pos abc]
      decide
    · show ∀ c ∈ (if content = ascii "abc" then _ else _), c ∈ _
      rw [if_neg abc]
      decide
  exact ⟨crates, _, _, _, _, _, run, rfl, rfl, rfl, rfl, rfl, rfl,
    not_modified_iff 40 [] (ascii "/assets") 1 (Duration.fromSecs 300) (abcTree.get rfl) hexadecimal
      askedTwice _ run 0 1 _ _ _ _ rfl rfl rfl rfl (by decide) rfl (by decide) rfl⟩

end AssetSite

end Shadowstep
