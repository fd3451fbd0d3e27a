import Shadowstep.Lib.Runs
import Shadowstep.Proxy.Assets

/-!
# Cached assets follow the file

`load` of `assets.rs` while files are written. A call asks for the metadata,
looks in the store, reads the file and stores what it read in four separate
steps, so other calls, writes and evictions run between any two of them, and
a stored asset can pair the modified time of one write with the content of a
later one.

A write gives a file a modified time it never had. What makes the test of
the length and the modified time safe is then one property of every such
pair: a call that holds the pair's time has seen the pair's content in the
file since it began (`LoadInv.pair_seen`).

* `LoadStage.next` — one step of a call, and how it answers the request;
* `AssetWorld.step` — writes, removals, evictions and the steps of the calls;
* `AssetWorld.load_returns_held` — what a call returns was in the file while
  the call ran.
-/

namespace Shadowstep

open Rust

/-- A file as one write leaves it. -/
structure FileVersion where
  content : Bytes
  modified : SystemTime

/-- Where a call of `load` stands. -/
inductive LoadStage where
  /-- before `metadata` -/
  | called (path : Path)
  /-- its cache lookup, with the file's metadata -/
  | looks (path : Path) (modified : SystemTime) (len : Nat)
  /-- the file is being read -/
  | reads (path : Path) (modified : SystemTime)
  /-- `insert_asset` of what was read -/
  | inserts (path : Path) (modified : SystemTime) (content : Bytes)
  | returned (path : Path) (asset : Asset) (status : CacheStatus)
  /-- the metadata or the file could not be read, or the client went away -/
  | failed

inductive LoadStep where
  | metadata
  | look
  | read
  | insert
  | fail

/-- The call has begun and has not ended. -/
def LoadStage.going : LoadStage → Bool
  | .called _ | .looks .. | .reads .. | .inserts .. => true
  | .returned .. | .failed => false

/-- The file of a call that goes on, and the modified time it was told. -/
def LoadStage.told : LoadStage → Option (Path × SystemTime)
  | .looks path modified _ | .reads path modified | .inserts path modified _ =>
    some (path, modified)
  | .called _ | .returned .. | .failed => none

namespace Store

theorem freshAsset_eq_some {store : Store} {path : Path} {modified : SystemTime} {len : Nat}
    {asset : Asset} : store.freshAsset path modified len = some asset ↔
      store.asset path = some asset ∧ asset.modified = modified ∧ asset.len = len := by
  simp [freshAsset, Option.filter_eq_some_iff]

theorem asset_removeEntry {store : Store} {key : Key} {path : Path} {asset : Asset}
    (h : (store.removeEntry key).asset path = some asset) : store.asset path = some asset := by
  by_cases same : Key.asset path = key
  · subst same
    simp [Store.asset, removeEntry] at h
  · simpa [Store.asset, removeEntry, Function.update_of_ne same] using h

/-- What `insert_asset` returns is what it was given. -/
theorem insertAsset_asset (store : Store) (path : Path) (content : Bytes) (etag : Text)
    (modified : SystemTime) : (store.insertAsset path content etag modified).1 =
      ⟨content, etag, modified, content.length, store.ttl⟩ := by
  unfold insertAsset
  simp only
  split <;> rfl

/-- After `insert_asset` the store holds the new asset or what it held. -/
theorem asset_insertAsset {store : Store} {path other : Path} {content : Bytes} {etag : Text}
    {modified : SystemTime} {asset : Asset}
    (h : (store.insertAsset path content etag modified).2.asset other = some asset) :
    other = path ∧ asset.modified = modified ∧ asset.content = content ∨
      store.asset other = some asset := by
  unfold insertAsset at h
  simp only at h
  split at h
  · by_cases same : other = path
    · subst same
      simp only [Store.asset, insertAssetEntry, Function.update_self, Option.some.injEq] at h
      subst h
      exact .inl ⟨rfl, rfl, rfl⟩
    · have differ : Key.asset other ≠ Key.asset path := fun eq => same (Key.asset.inj eq)
      simp only [Store.asset, insertAssetEntry, Function.update_of_ne differ] at h
      exact .inr h
  · exact .inr h

end Store

section

variable [AssetCrates]

/-- One step of `load`: where the call stands after it, and the store. -/
def LoadStage.next (store : Store) (files : Path → Option FileVersion) :
    LoadStage → LoadStep → Option (LoadStage × Store)
  | .called path, .metadata =>
    (files path).map fun file => (.looks path file.modified file.content.length, store)
  | .looks path modified len, .look =>
    match store.freshAsset path modified len with
    | some asset => some (.returned path asset .hit, store)
    | none => some (.reads path modified, store)
  | .reads path modified, .read =>
    (files path).map fun file => (.inserts path modified file.content, store)
  | .inserts path modified content, .insert =>
    let (asset, store) := store.insertAsset path content (assetEtag content) modified
    some (.returned path asset .miss, store)
  | .called _, .fail | .reads .., .fail => some (.failed, store)
  | _, _ => none

/-- A lookup of `load` that finds a stored copy is the one that
`asset_response` answers from. -/
theorem LoadStage.look_answers {store store' : Store} {files : Path → Option FileVersion}
    {path : Path} {modified : SystemTime} {len : Nat} {asset : Asset} {status : CacheStatus}
    (request : AssetRequest)
    (h : (LoadStage.looks path modified len).next store files .look =
      some (.returned path asset status, store')) :
    (AssetStage.looks path modified len).next store request .look =
      some ⟨.done, some ⟨.stored, assetResponse request asset status⟩, none⟩ := by
  simp only [LoadStage.next] at h
  split at h
  · rename_i found fresh
    obtain ⟨stage, -⟩ := Prod.mk.inj (Option.some.inj h)
    obtain ⟨-, rfl, rfl⟩ := LoadStage.returned.inj stage
    simp only [AssetStage.next, fresh]
  · cases h

/-- What `load` read and stored is what `asset_response` answers with. -/
theorem LoadStage.insert_answers {store store' : Store} {files : Path → Option FileVersion}
    {path : Path} {modified : SystemTime} {content : Bytes} {asset : Asset}
    {status : CacheStatus} (request : AssetRequest)
    (h : (LoadStage.inserts path modified content).next store files .insert =
      some (.returned path asset status, store')) :
    (AssetStage.reads path modified).next store request (.content (some content)) =
      some ⟨.done, some ⟨.read, assetResponse request asset status⟩,
        some (path, content, modified)⟩ := by
  obtain ⟨stage, -⟩ := Prod.mk.inj (Option.some.inj h)
  obtain ⟨-, rfl, rfl⟩ := LoadStage.returned.inj stage
  rfl

/-- The store, the files, and the calls of `load`. -/
structure AssetWorld where
  store : Store
  files : Path → Option FileVersion
  /-- every modified time that a file has had -/
  times : Path → List SystemTime
  loads : Nat → Option LoadStage

inductive AssetEvent where
  /-- content and modified time replaced together -/
  | write (path : Path) (version : FileVersion)
  | remove (path : Path)
  /-- a call of `load` -/
  | call (id : Nat) (path : Path)
  | load (id : Nat) (step : LoadStep)
  /-- moka drops a record -/
  | evict (key : Key)

namespace AssetWorld

/-- An empty store, and files with the times they have. -/
def start (sizeMb : UInt64) (ttl : Duration) (files : Path → Option FileVersion) :
    AssetWorld where
  store := Store.new sizeMb ttl
  files := files
  times := fun path => ((files path).map FileVersion.modified).toList
  loads := fun _ => none

/-- A write needs a modified time that the file never had. -/
def step (σ : AssetWorld) : AssetEvent → Option AssetWorld
  | .write path version =>
    if version.modified ∈ σ.times path then none
    else some { σ with
      files := Function.update σ.files path (some version)
      times := Function.update σ.times path (version.modified :: σ.times path) }
  | .remove path => some { σ with files := Function.update σ.files path none }
  | .call id path =>
    match σ.loads id with
    | some _ => none
    | none => some { σ with loads := Function.update σ.loads id (some (.called path)) }
  | .load id step => do
    let stage ← σ.loads id
    let (stage, store) ← stage.next σ.store σ.files step
    return { σ with store, loads := Function.update σ.loads id (some stage) }
  | .evict key => some { σ with store := σ.store.removeEntry key }

/-- At some moment of the run the call was going on and the file at `path`
had this content. -/
def HeldDuring (σ₀ : AssetWorld) (events : List AssetEvent) (id : Nat) (path : Path)
    (content : Bytes) : Prop :=
  ∃ first second σ stage file, events = first ++ second ∧ Runs.run step σ₀ first = some σ ∧
    σ.loads id = some stage ∧ stage.going = true ∧
    σ.files path = some file ∧ file.content = content

/-- Somebody read this content at `path` after the metadata had said
`modified`: it is stored under that time, or is about to be. -/
def Pair (σ : AssetWorld) (path : Path) (modified : SystemTime) (content : Bytes) : Prop :=
  (∃ asset, σ.store.asset path = some asset ∧ asset.modified = modified ∧
    asset.content = content) ∨
  ∃ id, σ.loads id = some (.inserts path modified content)

/-- What holds of the calls, the store and the files after every run. -/
structure LoadInv (σ₀ : AssetWorld) (events : List AssetEvent) (σ : AssetWorld) : Prop where
  file_known : ∀ path file, σ.files path = some file → file.modified ∈ σ.times path
  told_known : ∀ id stage path modified, σ.loads id = some stage →
    stage.told = some (path, modified) → modified ∈ σ.times path
  pair_known : ∀ path modified content, σ.Pair path modified content → modified ∈ σ.times path
  /-- a pair whose time is the file's has the file's content -/
  pair_current : ∀ path modified content, σ.Pair path modified content →
    ∀ file, σ.files path = some file → file.modified = modified → file.content = content
  /-- who was told a pair's time has had the pair's content in the file -/
  pair_seen : ∀ path modified content, σ.Pair path modified content →
    ∀ id len, σ.loads id = some (.looks path modified len) →
      HeldDuring σ₀ events id path content
  read_held : ∀ id path modified content, σ.loads id = some (.inserts path modified content) →
    HeldDuring σ₀ events id path content
  returned_held : ∀ id path asset status, σ.loads id = some (.returned path asset status) →
    HeldDuring σ₀ events id path asset.content

variable {σ₀ σ σ' : AssetWorld} {events : List AssetEvent} {e : AssetEvent} {id : Nat}
  {path : Path} {content : Bytes}

theorem HeldDuring.snoc (held : HeldDuring σ₀ events id path content) (e : AssetEvent) :
    HeldDuring σ₀ (events ++ [e]) id path content := by
  obtain ⟨first, second, τ, stage, file, rfl, rest⟩ := held
  exact ⟨first, second ++ [e], τ, stage, file, List.append_assoc .., rest⟩

/-- What is in the file now is in it during every call that goes on. -/
theorem HeldDuring.now (run : Runs.run step σ₀ events = some σ) {stage : LoadStage}
    {file : FileVersion} (there : σ.loads id = some stage) (going : stage.going = true)
    (found : σ.files path = some file) : HeldDuring σ₀ events id path file.content :=
  ⟨events, [], σ, stage, file, (List.append_nil _).symm, run, there, going, found, rfl⟩

/-- Writes, removals, evictions and new calls add no pair and tell nobody a
time. -/
theorem LoadInv.frame (inv : LoadInv σ₀ events σ)
    (loads : ∀ id stage, σ'.loads id = some stage → σ.loads id = some stage ∨
      ∃ path, stage = .called path)
    (stored : ∀ path asset, σ'.store.asset path = some asset → σ.store.asset path = some asset)
    (times : ∀ path, σ.times path ⊆ σ'.times path)
    (files : ∀ path file, σ'.files path = some file → file.modified ∈ σ'.times path ∧
      (σ.files path = some file ∨ file.modified ∉ σ.times path)) :
    LoadInv σ₀ (events ++ [e]) σ' := by
  have pairs : ∀ path modified content, σ'.Pair path modified content →
      σ.Pair path modified content := by
    rintro path modified content (⟨asset, there, same⟩ | ⟨id, there⟩)
    · exact .inl ⟨asset, stored path asset there, same⟩
    · obtain before | ⟨_, stage⟩ := loads id _ there
      · exact .inr ⟨id, before⟩
      · cases stage
  constructor
  case file_known => exact fun path file found => (files path file found).1
  case told_known =>
    intro id stage path modified there told
    obtain before | ⟨_, rfl⟩ := loads id _ there
    · exact times path (inv.told_known id stage path modified before told)
    · cases told
  case pair_known =>
    exact fun path modified content pair =>
      times path (inv.pair_known path modified content (pairs _ _ _ pair))
  case pair_current =>
    intro path modified content pair file found same
    obtain before | fresh := (files path file found).2
    · exact inv.pair_current path modified content (pairs _ _ _ pair) file before same
    · -- no pair has the time of a new write
      subst same
      exact absurd (inv.pair_known path _ content (pairs _ _ _ pair)) fresh
  case pair_seen =>
    intro path modified content pair id len there
    obtain before | ⟨_, stage⟩ := loads id _ there
    · exact (inv.pair_seen path modified content (pairs _ _ _ pair) id len before).snoc e
    · cases stage
  case read_held =>
    intro id path modified content there
    obtain before | ⟨_, stage⟩ := loads id _ there
    · exact (inv.read_held id path modified content before).snoc e
    · cases stage
  case returned_held =>
    intro id path asset status there
    obtain before | ⟨_, stage⟩ := loads id _ there
    · exact (inv.returned_held id path asset status before).snoc e
    · cases stage

/-- A write has a time that nobody was told and that no pair has. -/
theorem LoadInv.write (inv : LoadInv σ₀ events σ) (path : Path) (version : FileVersion)
    (fresh : version.modified ∉ σ.times path) :
    LoadInv σ₀ (events ++ [e]) { σ with
      files := Function.update σ.files path (some version)
      times := Function.update σ.times path (version.modified :: σ.times path) } := by
  refine inv.frame (fun id stage there => .inl there) (fun _ _ stored => stored) ?_ ?_
  · intro other time known
    show time ∈ Function.update σ.times path (version.modified :: σ.times path) other
    by_cases same : other = path
    · subst same
      rw [Function.update_self]
      exact List.mem_cons_of_mem _ known
    · rwa [Function.update_of_ne same]
  · intro other file found
    show file.modified ∈
      Function.update σ.times path (version.modified :: σ.times path) other ∧ _
    rcases Runs.update_cases found with ⟨rfl, rfl⟩ | ⟨differ, before⟩
    · rw [Function.update_self]
      exact ⟨List.mem_cons_self, .inr fresh⟩
    · rw [Function.update_of_ne differ]
      exact ⟨inv.file_known other file before, .inl before⟩

/-- What a call has by the time it comes to a stage, the files being as they
are then. -/
def Earned (σ₀ : AssetWorld) (events : List AssetEvent) (σ : AssetWorld) (id : Nat) :
    LoadStage → Prop
  | .called _ | .failed => True
  | .looks path modified _ => ∃ file, σ.files path = some file ∧ file.modified = modified
  | .reads path modified => modified ∈ σ.times path
  | .inserts path modified content => modified ∈ σ.times path ∧
    ∃ file, σ.files path = some file ∧ file.content = content
  | .returned path asset _ => HeldDuring σ₀ events id path asset.content

theorem LoadInv.told_of_earned (inv : LoadInv σ₀ events σ) {stage : LoadStage}
    {modified : SystemTime} (earned : Earned σ₀ events σ id stage)
    (told : stage.told = some (path, modified)) : modified ∈ σ.times path := by
  cases stage with
  | called | returned | failed => cases told
  | looks path' modified' len =>
      cases told
      obtain ⟨file, found, rfl⟩ := earned
      exact inv.file_known path file found
  | reads path' modified' =>
      cases told
      exact earned
  | inserts path' modified' content' =>
      cases told
      exact earned.1

/-- One call moves while the files stay. A pair that this makes has the
content that is in the file now, so all calls that go on have seen it. -/
theorem LoadInv.moved (inv : LoadInv σ₀ events σ) (run : Runs.run step σ₀ events = some σ)
    {stage stage' : LoadStage} {store : Store} (there : σ.loads id = some stage)
    (going : stage.going = true) (earned : Earned σ₀ events σ id stage')
    (stored : ∀ path asset, store.asset path = some asset →
      σ.Pair path asset.modified asset.content) :
    LoadInv σ₀ (events ++ [e])
      { σ with store, loads := Function.update σ.loads id (some stage') } := by
  have pairs : ∀ path modified content,
      Pair { σ with store, loads := Function.update σ.loads id (some stage') }
        path modified content →
      σ.Pair path modified content ∨ modified ∈ σ.times path ∧
        ∃ file, σ.files path = some file ∧ file.content = content := by
    rintro path modified content (⟨asset, here, rfl, rfl⟩ | ⟨other, here⟩)
    · exact .inl (stored path asset here)
    · rcases Runs.update_cases here with ⟨-, rfl⟩ | ⟨-, earlier⟩
      · exact .inr earned
      · exact .inl (.inr ⟨other, earlier⟩)
  constructor
  case file_known => exact inv.file_known
  case told_known =>
    intro other later path modified here told
    rcases Runs.update_cases here with ⟨-, rfl⟩ | ⟨-, before⟩
    · exact inv.told_of_earned earned told
    · exact inv.told_known other later path modified before told
  case pair_known =>
    intro path modified content pair
    obtain before | ⟨known, -⟩ := pairs path modified content pair
    · exact inv.pair_known path modified content before
    · exact known
  case pair_current =>
    intro path modified content pair file found same
    obtain before | ⟨-, file', found', holds⟩ := pairs path modified content pair
    · exact inv.pair_current path modified content before file found same
    · obtain rfl := Option.some.inj (found.symm.trans found')
      exact holds
  case pair_seen =>
    intro path modified content pair other len here
    obtain before | ⟨-, file, found, rfl⟩ := pairs path modified content pair
    · rcases Runs.update_cases here with ⟨rfl, rfl⟩ | ⟨-, earlier⟩
      · -- the metadata have just been read, so the pair's time is the file's
        obtain ⟨file, found, same⟩ := earned
        obtain rfl := inv.pair_current path modified content before file found same
        exact (HeldDuring.now run there going found).snoc e
      · exact (inv.pair_seen path modified content before other len earlier).snoc e
    · rcases Runs.update_cases here with ⟨rfl, -⟩ | ⟨-, earlier⟩
      · exact (HeldDuring.now run there going found).snoc e
      · exact (HeldDuring.now run earlier rfl found).snoc e
  case read_held =>
    intro other path modified content here
    rcases Runs.update_cases here with ⟨rfl, rfl⟩ | ⟨-, earlier⟩
    · obtain ⟨-, file, found, rfl⟩ := earned
      exact (HeldDuring.now run there going found).snoc e
    · exact (inv.read_held other path modified content earlier).snoc e
  case returned_held =>
    intro other path asset status here
    rcases Runs.update_cases here with ⟨rfl, rfl⟩ | ⟨-, earlier⟩
    · exact HeldDuring.snoc earned e
    · exact (inv.returned_held other path asset status earlier).snoc e

/-- Each step of a call keeps the invariant. -/
theorem LoadInv.load (inv : LoadInv σ₀ events σ) (run : Runs.run step σ₀ events = some σ)
    {stage stage' : LoadStage} {move : LoadStep} {store : Store}
    (there : σ.loads id = some stage) (h : stage.next σ.store σ.files move = some (stage', store)) :
    LoadInv σ₀ (events ++ [e])
      { σ with store, loads := Function.update σ.loads id (some stage') } := by
  -- all steps but the last leave the store as it is
  have same : ∀ path asset, σ.store.asset path = some asset →
      σ.Pair path asset.modified asset.content :=
    fun path asset here => .inl ⟨asset, here, rfl, rfl⟩
  unfold LoadStage.next at h
  split at h
  case h_1 path =>
    obtain ⟨file, found, eq⟩ := Option.map_eq_some_iff.mp h
    obtain ⟨rfl, rfl⟩ := Prod.mk.inj eq
    exact inv.moved run there rfl ⟨file, found, rfl⟩ same
  case h_2 path modified len =>
    split at h
    · -- a stored copy counts when the call was told its time
      rename_i asset fresh
      obtain ⟨rfl, rfl⟩ := Prod.mk.inj (Option.some.inj h)
      obtain ⟨here, time, -⟩ := Store.freshAsset_eq_some.mp fresh
      have seen : HeldDuring σ₀ events id path asset.content :=
        inv.pair_seen path modified asset.content (.inl ⟨asset, here, time, rfl⟩) id len there
      exact inv.moved run there rfl seen same
    · obtain ⟨rfl, rfl⟩ := Prod.mk.inj (Option.some.inj h)
      have known : modified ∈ σ.times path := inv.told_known id _ path modified there rfl
      exact inv.moved run there rfl known same
  case h_3 path modified =>
    -- a pair of the time of the metadata and the content of now
    obtain ⟨file, found, eq⟩ := Option.map_eq_some_iff.mp h
    obtain ⟨rfl, rfl⟩ := Prod.mk.inj eq
    have known : modified ∈ σ.times path := inv.told_known id _ path modified there rfl
    exact inv.moved run there rfl ⟨known, file, found, rfl⟩ same
  case h_4 path modified content =>
    obtain ⟨rfl, rfl⟩ := Prod.mk.inj (Option.some.inj h)
    have held : HeldDuring σ₀ events id path
        (σ.store.insertAsset path content (assetEtag content) modified).1.content := by
      rw [Store.insertAsset_asset]
      exact inv.read_held id path modified content there
    refine inv.moved run there rfl held ?_
    intro other asset here
    obtain ⟨rfl, time, bytes⟩ | before := Store.asset_insertAsset here
    · -- the pair that the call held
      rw [time, bytes]
      exact .inr ⟨id, there⟩
    · exact same other asset before
  case h_5 | h_6 =>
    obtain ⟨rfl, rfl⟩ := Prod.mk.inj (Option.some.inj h)
    exact inv.moved run there rfl trivial same
  case h_7 => cases h

/-- One step of the whole. -/
theorem LoadInv.step (inv : LoadInv σ₀ events σ) (run : Runs.run step σ₀ events = some σ)
    (h : σ.step e = some σ') : LoadInv σ₀ (events ++ [e]) σ' := by
  cases e with
  | write path version =>
      simp only [AssetWorld.step] at h
      split at h
      case isTrue => cases h
      case isFalse fresh =>
        obtain rfl := Option.some.inj h
        exact inv.write path version fresh
  | remove path =>
      obtain rfl := Option.some.inj h
      refine inv.frame (fun id stage there => .inl there) (fun _ _ stored => stored)
        (fun _ _ known => known) ?_
      intro other file found
      by_cases same : other = path
      · subst same
        simp at found
      · have before : σ.files other = some file := by simpa [same] using found
        exact ⟨inv.file_known other file before, .inl before⟩
  | call id path =>
      simp only [AssetWorld.step] at h
      split at h
      · cases h
      · obtain rfl := Option.some.inj h
        refine inv.frame ?_ (fun _ _ stored => stored) (fun _ _ known => known)
          (fun other file found => ⟨inv.file_known other file found, .inl found⟩)
        intro other stage here
        rcases Runs.update_cases here with ⟨-, rfl⟩ | ⟨-, before⟩
        · exact .inr ⟨path, rfl⟩
        · exact .inl before
  | load id move =>
      simp only [AssetWorld.step, Option.bind_eq_bind, Option.bind_eq_some_iff] at h
      obtain ⟨stage, there, ⟨stage', store⟩, moved, h⟩ := h
      obtain rfl := Option.some.inj h
      exact inv.load run there moved
  | evict key =>
      obtain rfl := Option.some.inj h
      exact inv.frame (fun id stage there => .inl there)
        (fun _ _ stored => Store.asset_removeEntry stored) (fun _ _ known => known)
        (fun other file found => ⟨inv.file_known other file found, .inl found⟩)

theorem LoadInv.initial (sizeMb : UInt64) (ttl : Duration) (files : Path → Option FileVersion) :
    LoadInv σ₀ [] (start sizeMb ttl files) := by
  have noPair : ∀ path modified content,
      ¬ (start sizeMb ttl files).Pair path modified content := by
    rintro path modified content (⟨asset, here, -⟩ | ⟨id, here⟩) <;> cases here
  constructor
  case file_known =>
    intro path file found
    show file.modified ∈ ((files path).map FileVersion.modified).toList
    rw [show files path = some file from found]
    exact List.mem_singleton_self _
  case pair_known => exact fun path modified content pair => absurd pair (noPair _ _ _)
  case pair_current => exact fun path modified content pair => absurd pair (noPair _ _ _)
  case pair_seen => exact fun path modified content pair => absurd pair (noPair _ _ _)
  all_goals
    intros
    contradiction

/-- For every interleaving of writes, removals, evictions and calls of
`load`: the content a call returned, from the store or from the disk, was the
content of the file at a moment of that call. -/
theorem load_returns_held (sizeMb : UInt64) (ttl : Duration)
    (files : Path → Option FileVersion) (events : List AssetEvent) (σ : AssetWorld)
    (run : Runs.run step (start sizeMb ttl files) events = some σ) (id : Nat) (path : Path)
    (asset : Asset) (status : CacheStatus)
    (returned : σ.loads id = some (.returned path asset status)) :
    HeldDuring (start sizeMb ttl files) events id path asset.content :=
  (Runs.invariant_history (I := LoadInv (start sizeMb ttl files))
    (LoadInv.initial sizeMb ttl files)
    (fun _ _ _ _ run inv h => inv.step run h) run).returned_held id path asset status returned

end AssetWorld

end

namespace AssetWorld

/-- A file of one byte, as it is first. -/
def firstVersion : FileVersion := ⟨[1], ⟨1, by decide, by decide⟩⟩

/-- Two calls are told the modified time, the file is written, the first call
reads it and the second one looks in the store. -/
def rewrittenEvents : List AssetEvent :=
  [.call 0 [], .call 1 [], .load 0 .metadata, .load 1 .metadata,
    .write [] ⟨[2], ⟨2, by decide, by decide⟩⟩,
    .load 0 .look, .load 0 .read, .load 0 .insert, .load 1 .look]

/-- The second call finds the new content under the old time. -/
theorem load_returns_held_example : ∃ (_ : AssetCrates) (σ : AssetWorld) (asset : Asset),
    Runs.run step (start 1 (Duration.fromSecs 300) fun _ => some firstVersion) rewrittenEvents =
        some σ ∧
      σ.loads 1 = some (.returned [] asset .hit) ∧ asset.content = [2] ∧
      HeldDuring (start 1 (Duration.fromSecs 300) fun _ => some firstVersion) rewrittenEvents 1 []
        asset.content := by
  let crates : AssetCrates := ⟨fun _ => [], fun _ => []⟩
  obtain ⟨σ, run, returned⟩ := Option.bind_eq_some_iff.mp
    (show (Runs.run step (start 1 (Duration.fromSecs 300) fun _ => some firstVersion)
      rewrittenEvents).bind (fun σ => σ.loads 1) = some (.returned []
        ⟨[2], assetEtag [2], firstVersion.modified, 1, Duration.fromSecs 300⟩ .hit) from rfl)
  exact ⟨crates, σ, _, run, returned, rfl,
    load_returns_held 1 _ _ rewrittenEvents σ run 1 [] _ .hit returned⟩

end AssetWorld

end Shadowstep
