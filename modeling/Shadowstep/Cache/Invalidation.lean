import Shadowstep.Cache.Variants

/-!
# When an invalidation is permanent

`insert_response` reads the index record, and writes it back in a later
step with the generation number it read. An invalidation between the two is
undone: the number is in the index again, and with it every response that
was stored under it. `Sound` excludes this one write, and then
`invalidated_stays_unreachable` holds; `reused_generation_undoes_invalidation`
is a schedule with it.

* `Tracked` — where allocations and unpublished numbers are;
* `Buried` — a generation number that no sound step can publish again.
-/

namespace Shadowstep

open Rust

namespace Concurrent

/-! ## The condition -/

/-- The next access of a call neither takes a number that the counter has
given out before, nor writes an index record with a number that the call read
before the primary key was last invalidated. -/
def soundAccess (memory : Memory) : Pc → Bool
  | .insertFetchAdd _ => memory.taken < 2 ^ 64
  | .insertIndexPut insertion _ (.reused invalidations) =>
    memory.invalidations insertion.primary == invalidations
  | _ => true

def Sound (σ : Concurrent) : Interleaving → Prop
  | .access id _ => (σ.calls id).all (soundAccess σ.memory) = true
  | _ => True

instance (σ : Concurrent) : (event : Interleaving) → Decidable (Sound σ event)
  | .access _ _ => inferInstanceAs (Decidable (_ = true))
  | .call _ _ | .evictIndex _ | .evictEntry _ => isTrue trivial

theorem Sound.takes {σ : Concurrent} {event : Interleaving} (sound : Sound σ event)
    (insertion : Insertion) (takes : Takes σ event insertion) : σ.memory.taken < 2 ^ 64 := by
  obtain ⟨id, now, rfl, here⟩ := takes
  simpa [Sound, here, soundAccess] using sound

theorem Sound.reuses {σ : Concurrent} {id : Nat} {now : Clock} (sound : Sound σ (.access id now))
    {insertion : Insertion} {generation : UInt64} {invalidations : Nat}
    (here : σ.calls id = some (.insertIndexPut insertion generation (.reused invalidations))) :
    σ.memory.invalidations insertion.primary = invalidations := by
  simpa [Sound, here, soundAccess] using sound

/-! ## Allocations and unpublished numbers -/

/-- A number that is neither in the index nor held by another call. -/
def Unpublished (σ : Concurrent) (id : Nat) (generation : UInt64) : Prop :=
  (∀ primary names, σ.memory.store.index primary ≠ some ⟨names, generation⟩) ∧
    ∀ other pc primary names, other ≠ id → σ.calls other = some pc →
      pc.holds ≠ some (primary, names, generation)

structure Tracked (σ : Concurrent) : Prop where
  allocated : ∀ {id insertion generation arc},
    σ.calls id = some (.inserted insertion generation arc) → arc.ptr < σ.memory.store.arcs
  once : ∀ {id id' insertion insertion' generation generation' arc arc'},
    σ.calls id = some (.inserted insertion generation arc) →
    σ.calls id' = some (.inserted insertion' generation' arc') → arc.ptr = arc'.ptr →
    insertion = insertion' ∧ generation = generation'
  /-- a number just taken is known to the call that took it only -/
  unpublished : ∀ {id insertion generation},
    σ.calls id = some (.insertIndexPut insertion generation .taken) →
    Unpublished σ id generation
  read : ∀ {id insertion generation invalidations},
    σ.calls id = some (.insertIndexPut insertion generation (.reused invalidations)) →
    invalidations ≤ σ.memory.invalidations insertion.primary

theorem tracked_start (sizeMb : UInt64) (ttl : Duration) : Tracked (start sizeMb ttl) where
  allocated h := by cases h
  once h := by cases h
  unpublished h := by cases h
  read h := by cases h

theorem Owned.unpublished {σ : Concurrent} {owner : UInt64 → PrimaryKey × List HeaderName}
    (owned : Owned σ owner) (bounded : σ.memory.taken < 2 ^ 64) (id : Nat) :
    Unpublished σ id σ.memory.store.generation := by
  have fresh : σ.memory.store.generation ∉ numbers σ.memory.taken := by
    rw [owned.counter]
    exact not_mem_numbers bounded
  exact ⟨fun primary names index => fresh (owned.mentioned (.inl index)).1,
    fun other pc primary names _ there held =>
      fresh (owned.mentioned (.inr ⟨other, pc, there, held⟩)).1⟩

/-- The index never gets this generation number for the primary key again. -/
structure Buried (σ : Concurrent) (primary : PrimaryKey) (generation : UInt64) : Prop where
  index : ∀ names, σ.memory.store.index primary ≠ some ⟨names, generation⟩
  calls : ∀ {id insertion source},
    σ.calls id = some (.insertIndexPut insertion generation source) → insertion.primary = primary →
    ∃ invalidations, source = .reused invalidations ∧
      invalidations < σ.memory.invalidations primary

/-- What sound steps keep: the counter has not wrapped, and `Owned` and
`Tracked` hold. -/
def Kept (σ : Concurrent) : Prop :=
  σ.memory.taken ≤ 2 ^ 64 ∧ (∃ owner, Owned σ owner) ∧ Tracked σ

theorem kept_start (sizeMb : UInt64) (ttl : Duration) : Kept (start sizeMb ttl) :=
  ⟨Nat.zero_le _, ⟨fun _ => (⟨[], [], []⟩, []), owned_start sizeMb ttl _⟩,
    tracked_start sizeMb ttl⟩

/-! ## Lookups that start later -/

/-- A call has not read a buried number, nor found its response. -/
def Avoids (generation : UInt64) (ptr : Nat) (primary : PrimaryKey) : Pc → Prop
  | .lookupEntry p _ _ index => p = primary → index.generation ≠ generation
  | .lookedUp _ _ _ (some result) => result.response.ptr ≠ ptr
  | _ => True

theorem start_avoids (call : Call) (generation : UInt64) (ptr : Nat)
    (primary : PrimaryKey) : Avoids generation ptr primary call.start := by
  cases call <;> trivial

/-- One access of a lookup that started after the invalidation. -/
theorem avoids_access {σ : Concurrent} {id inserter : Nat} {now : Clock} {pc pc' : Pc}
    {memory : Memory} {insertion : Insertion} {generation : UInt64} {arc : Arc StoredResponse}
    (kept : Kept σ) (buried : Buried σ insertion.primary generation)
    (completed : σ.calls inserter = some (.inserted insertion generation arc))
    (here : σ.calls id = some pc) (avoids : Avoids generation arc.ptr insertion.primary pc)
    (access : Access σ.memory now pc pc' memory) :
    Avoids generation arc.ptr insertion.primary pc' := by
  obtain ⟨-, ⟨owner, owned⟩, tracked⟩ := kept
  cases pc' with
  | lookupEntry primary request maxAge index =>
      rintro rfl same
      cases access with
      | lookupIndex hindex => exact buried.index index.vary (by rw [hindex, ← same])
  | lookedUp primary request index result =>
      cases result with
      | none => trivial
      | some result =>
          obtain ⟨maxAge, record, rfl, rfl, hresponse⟩ := access.lookedUp
          intro same
          -- the response was inserted once, so under the number that is buried
          obtain ⟨other, newer, inserted, rfl, -⟩ := owned.stored hresponse
          obtain ⟨rfl, rfl⟩ := tracked.once inserted completed same
          exact avoids rfl rfl
  | _ => trivial

/-! ## Steps -/

section

variable [HttpDate]

theorem Tracked.allocated_step {σ σ' : Concurrent} {event : Interleaving} (tracked : Tracked σ)
    (h : σ.step event = some σ') {id : Nat} {insertion : Insertion} {generation : UInt64}
    {arc : Arc StoredResponse} (there : σ'.calls id = some (.inserted insertion generation arc)) :
    arc.ptr < σ'.memory.store.arcs := by
  cases step_cases h with
  | @call _ call new =>
      obtain ⟨-, new⟩ | ⟨-, old⟩ := Runs.update_cases there
      · cases call <;> cases new
      · exact tracked.allocated old
  | access here access =>
      obtain ⟨-, rfl⟩ | ⟨-, old⟩ := Runs.update_cases there
      · obtain ⟨ptr, arcs⟩ := access.inserted
        rw [ptr, arcs]
        exact Nat.lt_succ_self _
      · exact (tracked.allocated old).trans_le access.arcs_le
  | evictIndex => exact tracked.allocated there
  | evictEntry => exact tracked.allocated there

theorem Tracked.once_step {σ σ' : Concurrent} {event : Interleaving} (tracked : Tracked σ)
    (h : σ.step event = some σ') {id id' : Nat} {insertion insertion' : Insertion}
    {generation generation' : UInt64} {arc arc' : Arc StoredResponse}
    (there : σ'.calls id = some (.inserted insertion generation arc))
    (there' : σ'.calls id' = some (.inserted insertion' generation' arc'))
    (same : arc.ptr = arc'.ptr) : insertion = insertion' ∧ generation = generation' := by
  cases step_cases h with
  | @call _ call new =>
      obtain ⟨-, new⟩ | ⟨-, old⟩ := Runs.update_cases there
      · cases call <;> cases new
      · obtain ⟨-, new⟩ | ⟨-, old'⟩ := Runs.update_cases there'
        · cases call <;> cases new
        · exact tracked.once old old' same
  | access here access =>
      obtain ⟨rfl, rfl⟩ | ⟨-, old⟩ := Runs.update_cases there <;>
        obtain ⟨rfl, new⟩ | ⟨-, old'⟩ := Runs.update_cases there'
      · obtain ⟨rfl, rfl, -⟩ := Pc.inserted.inj new
        exact ⟨rfl, rfl⟩
      -- what the access has allocated is new, so no other call has it
      · have before := tracked.allocated old'
        rw [← same, access.inserted.1] at before
        exact absurd before (Nat.lt_irrefl _)
      · subst new
        have before := tracked.allocated old
        rw [same, access.inserted.1] at before
        exact absurd before (Nat.lt_irrefl _)
      · exact tracked.once old old' same
  | evictIndex => exact tracked.once there there' same
  | evictEntry => exact tracked.once there there' same

/-- A step of another call does not publish a number that only one call
holds. -/
theorem unpublished_step {σ σ' : Concurrent} {event : Interleaving} {id : Nat}
    {generation : UInt64} (unpublished : Unpublished σ id generation)
    (fresh : ∀ insertion, Takes σ event insertion → generation ≠ σ.memory.store.generation)
    (others : ∀ now, event ≠ .access id now) (h : σ.step event = some σ') :
    Unpublished σ' id generation := by
  obtain ⟨index, held⟩ := unpublished
  cases step_cases h with
  | call new =>
      refine ⟨index, fun other pc primary names different there holds => ?_⟩
      obtain ⟨-, rfl⟩ | ⟨-, old⟩ := Runs.update_cases there
      · simp [Call.start_holds] at holds
      · exact held other pc primary names different old holds
  | @access stepping now pc pc' memory here access =>
      have other : stepping ≠ id := by
        rintro rfl
        exact others now rfl
      refine ⟨fun primary names published => ?_,
        fun other' there' primary names different there holds => ?_⟩
      · obtain old | ⟨insertion, source, rfl, rfl, rfl⟩ := access.index published
        · exact index _ _ old
        · -- a call publishes the number that it holds
          exact held stepping _ _ _ other here rfl
      · obtain ⟨-, rfl⟩ | ⟨-, old⟩ := Runs.update_cases there
        · obtain before | before | ⟨insertion, rfl, -, -, rfl⟩ := access.holds holds
          · exact held stepping pc primary names other here before
          · exact index primary names before
          · exact fresh insertion ⟨stepping, now, rfl, here⟩ rfl
        · exact held other' there' primary names different old holds
  | evictIndex =>
      exact ⟨fun primary names there => index primary names (Store.index_removeIndex there).2,
        held⟩
  | evictEntry => exact ⟨index, held⟩

theorem Tracked.unpublished_step {σ σ' : Concurrent} {event : Interleaving} (tracked : Tracked σ)
    {owner : UInt64 → PrimaryKey × List HeaderName} (owned : Owned σ owner)
    (bounded : ∀ insertion, Takes σ event insertion → σ.memory.taken < 2 ^ 64)
    (h : σ.step event = some σ') {id : Nat} {insertion : Insertion} {generation : UInt64}
    (there : σ'.calls id = some (.insertIndexPut insertion generation .taken)) :
    Unpublished σ' id generation := by
  -- a number that `id` holds already is not the one that this step takes
  have kept (old : σ.calls id = some (.insertIndexPut insertion generation .taken))
      (others : ∀ now, event ≠ .access id now) : Unpublished σ' id generation := by
    refine Concurrent.unpublished_step (tracked.unpublished old) (fun other takes => ?_) others h
    rintro rfl
    have number := (owned.mentioned (.inr ⟨id, _, old, rfl⟩)).1
    rw [owned.counter] at number
    exact not_mem_numbers (bounded other takes) number
  cases step_cases h with
  | @call stepping call new =>
      obtain ⟨-, new⟩ | ⟨-, old⟩ := Runs.update_cases there
      · cases call <;> cases new
      · exact kept old (fun now same => by cases same)
  | @access stepping now pc pc' memory here access =>
      obtain ⟨rfl, rfl⟩ | ⟨different, old⟩ := Runs.update_cases there
      · cases access with
        | fetchAdd =>
            obtain ⟨index, held⟩ := owned.unpublished (bounded insertion ⟨id, now, rfl, here⟩) id
            refine ⟨index, fun other there primary names different this => ?_⟩
            obtain ⟨same, -⟩ | ⟨-, old⟩ := Runs.update_cases this
            · exact absurd same different
            · exact held other there primary names different old
      · refine kept old (fun now' same => ?_)
        cases same
        exact different rfl
  | evictIndex => exact kept there (fun now same => by cases same)
  | evictEntry => exact kept there (fun now same => by cases same)

theorem invalidations_le {σ σ' : Concurrent} {event : Interleaving} (h : σ.step event = some σ')
    (primary : PrimaryKey) : σ.memory.invalidations primary ≤ σ'.memory.invalidations primary := by
  cases step_cases h with
  | access _ access => exact access.invalidations_le primary
  | _ => exact Nat.le_refl _

theorem Tracked.read_step {σ σ' : Concurrent} {event : Interleaving} (tracked : Tracked σ)
    (h : σ.step event = some σ') {id : Nat} {insertion : Insertion} {generation : UInt64}
    {invalidations : Nat}
    (there : σ'.calls id = some (.insertIndexPut insertion generation (.reused invalidations))) :
    invalidations ≤ σ'.memory.invalidations insertion.primary := by
  have kept (old : σ.calls id = some (.insertIndexPut insertion generation
      (.reused invalidations))) : invalidations ≤ σ'.memory.invalidations insertion.primary :=
    (tracked.read old).trans (invalidations_le h _)
  cases step_cases h with
  | @call _ call new =>
      obtain ⟨-, new⟩ | ⟨-, old⟩ := Runs.update_cases there
      · cases call <;> cases new
      · exact kept old
  | access here access =>
      obtain ⟨-, rfl⟩ | ⟨-, old⟩ := Runs.update_cases there
      · cases access
        exact Nat.le_refl _
      · exact kept old
  | evictIndex => exact kept there
  | evictEntry => exact kept there

theorem Tracked.step {σ σ' : Concurrent} {event : Interleaving} (tracked : Tracked σ)
    {owner : UInt64 → PrimaryKey × List HeaderName} (owned : Owned σ owner)
    (bounded : ∀ insertion, Takes σ event insertion → σ.memory.taken < 2 ^ 64)
    (h : σ.step event = some σ') : Tracked σ' where
  allocated := tracked.allocated_step h
  once := tracked.once_step h
  unpublished := tracked.unpublished_step owned bounded h
  read := tracked.read_step h

/-- Only a step that takes a number moves the counter. -/
theorem taken_step {σ σ' : Concurrent} {event : Interleaving} (h : σ.step event = some σ') :
    σ'.memory.taken = σ.memory.taken ∨ ∃ insertion, Takes σ event insertion := by
  cases step_cases h with
  | @access id now pc pc' memory here access =>
      cases access with
      | fetchAdd => exact .inr ⟨_, id, now, rfl, here⟩
      | _ => exact .inl rfl
  | _ => exact .inl rfl

theorem Kept.step {σ σ' : Concurrent} {event : Interleaving} (kept : Kept σ)
    (sound : Sound σ event) (h : σ.step event = some σ') : Kept σ' := by
  obtain ⟨bounded, ⟨owner, owned⟩, tracked⟩ := kept
  have bounded' : σ'.memory.taken ≤ 2 ^ 64 := by
    obtain same | ⟨insertion, takes⟩ := taken_step h
    · rwa [same]
    · rw [takes.taken h]
      exact sound.takes insertion takes
  exact ⟨bounded', owned.step h bounded', tracked.step owned sound.takes h⟩

/-- A buried number stays buried. -/
theorem Buried.step {σ σ' : Concurrent} {event : Interleaving} {primary : PrimaryKey}
    {generation : UInt64} (buried : Buried σ primary generation)
    (number : generation ∈ numbers σ.memory.taken) (kept : Kept σ) (sound : Sound σ event)
    (h : σ.step event = some σ') : Buried σ' primary generation := by
  obtain ⟨-, ⟨owner, owned⟩, -⟩ := kept
  cases step_cases h with
  | @call _ call new =>
      refine ⟨buried.index, fun there same => ?_⟩
      obtain ⟨-, new⟩ | ⟨-, old⟩ := Runs.update_cases there
      · cases call <;> cases new
      · exact buried.calls old same
  | @access id now pc pc' memory here access =>
      constructor
      · intro names published
        obtain old | ⟨insertion, source, rfl, same, rfl⟩ := access.index published
        · exact buried.index names old
        · -- this call read the number before the invalidation, so the step is not sound
          obtain ⟨invalidations, rfl, before⟩ := buried.calls here same
          have current := sound.reuses here
          rw [same] at current
          omega
      · intro other insertion source there same
        have later := access.invalidations_le primary
        obtain ⟨-, rfl⟩ | ⟨-, old⟩ := Runs.update_cases there
        · cases access with
          | @reuse _ index hindex names =>
              rw [same] at hindex
              exact absurd hindex (buried.index index.vary)
          | fetchAdd =>
              have fresh : σ.memory.store.generation ∉ numbers σ.memory.taken := by
                rw [owned.counter]
                exact not_mem_numbers (sound.takes insertion ⟨id, now, rfl, here⟩)
              exact absurd number fresh
        · obtain ⟨invalidations, rfl, before⟩ := buried.calls old same
          exact ⟨invalidations, rfl, before.trans_le later⟩
  | evictIndex =>
      exact ⟨fun names there => buried.index names (Store.index_removeIndex there).2,
        buried.calls⟩
  | evictEntry => exact ⟨buried.index, buried.calls⟩

/-- An invalidation buries the number of every response stored before. -/
theorem buried_of_invalidate {σ σ' : Concurrent} {id : Nat} {now : Clock} {primary : PrimaryKey}
    (kept : Kept σ) (here : σ.calls id = some (.invalidateIndex primary))
    (h : σ.step (.access id now) = some σ') {inserter : Nat} {insertion : Insertion}
    {generation : UInt64} {arc : Arc StoredResponse}
    (completed : σ.calls inserter = some (.inserted insertion generation arc)) :
    Buried σ' primary generation := by
  obtain ⟨-, -, tracked⟩ := kept
  cases step_cases h with
  | access there access =>
      obtain rfl := Option.some.inj (here.symm.trans there)
      cases access
      constructor
      · intro names
        simp [Memory.invalidate, Store.invalidate, Store.removeIndex]
      · intro other newer source stands same
        obtain ⟨-, new⟩ | ⟨different, old⟩ := Runs.update_cases stands
        · cases new
        · cases source with
          | taken =>
              -- the number would be unpublished, but `inserter` holds it
              have elsewhere : inserter ≠ other := by
                rintro rfl
                rw [old] at completed
                cases completed
              exact absurd rfl ((tracked.unpublished old).2 inserter _ insertion.primary
                insertion.vary.names elsewhere completed)
          | reused invalidations =>
              refine ⟨invalidations, rfl, ?_⟩
              have read := tracked.read old
              rw [same] at read
              simpa [Memory.invalidate] using Nat.lt_succ_of_le read

/-! ## The invalidation and after -/

/-- What holds of a lookup from the invalidation on. -/
structure Excluded (reader inserter : Nat) (insertion : Insertion) (generation : UInt64)
    (arc : Arc StoredResponse) (σ : Concurrent) : Prop where
  kept : Kept σ
  buried : Buried σ insertion.primary generation
  completed : σ.calls inserter = some (.inserted insertion generation arc)
  avoids : ∀ pc, σ.calls reader = some pc → Avoids generation arc.ptr insertion.primary pc

theorem Excluded.step {σ σ' : Concurrent} {event : Interleaving} {reader inserter : Nat}
    {insertion : Insertion} {generation : UInt64} {arc : Arc StoredResponse}
    (excluded : Excluded reader inserter insertion generation arc σ) (sound : Sound σ event)
    (h : σ.step event = some σ') : Excluded reader inserter insertion generation arc σ' := by
  obtain ⟨kept, buried, completed, avoids⟩ := excluded
  obtain ⟨owner, owned⟩ := kept.2.1
  have number := (owned.mentioned (.inr ⟨inserter, _, completed, rfl⟩)).1
  refine ⟨kept.step sound h, buried.step number kept sound h, inserted_stays h completed, ?_⟩
  intro there stands
  cases step_cases h with
  | @call _ call new =>
      obtain ⟨-, rfl⟩ | ⟨-, old⟩ := Runs.update_cases stands
      · exact start_avoids ..
      · exact avoids there old
  | access here access =>
      obtain ⟨rfl, rfl⟩ | ⟨-, old⟩ := Runs.update_cases stands
      · exact avoids_access kept buried completed here (avoids _ here) access
      · exact avoids there old
  | evictIndex => exact avoids there stands
  | evictEntry => exact avoids there stands

/-- When all steps are sound, no lookup that starts after an invalidation
returns a response whose insertion was complete before it. -/
theorem invalidated_stays_unreachable {sizeMb : UInt64} {ttl : Duration}
    {before later : List Interleaving} {σ₀ σ₁ σ₂ : Concurrent} {id : Nat} {now : Clock}
    {insertion : Insertion}
    (run₀ : Runs.run step (start sizeMb ttl) before = some σ₀)
    (sound₀ : Runs.Along step Sound (start sizeMb ttl) before)
    (invalidating : σ₀.calls id = some (.invalidateIndex insertion.primary))
    (invalidated : σ₀.step (.access id now) = some σ₁)
    (run₁ : Runs.run step σ₁ later = some σ₂) (sound₁ : Runs.Along step Sound σ₁ later)
    {inserter : Nat} {generation : UInt64} {arc : Arc StoredResponse}
    (completed : σ₀.calls inserter = some (.inserted insertion generation arc))
    {reader : Nat} {primary : PrimaryKey} {request : HeaderMap} {index : Option Index}
    {result : Lookup} (unstarted : σ₁.calls reader = none)
    (found : σ₂.calls reader = some (.lookedUp primary request index (some result))) :
    result.response.ptr ≠ arc.ptr := by
  have kept : Kept σ₀ := Runs.invariant_along (fun _ _ _ kept sound h => kept.step sound h)
    (kept_start sizeMb ttl) sound₀ run₀
  have sound : Sound σ₀ (.access id now) := by
    simp [Sound, invalidating, soundAccess]
  have excluded : Excluded reader inserter insertion generation arc σ₁ :=
    { kept := kept.step sound invalidated
      buried := buried_of_invalidate kept invalidating invalidated completed
      completed := inserted_stays invalidated completed
      avoids := fun pc there => by
        rw [unstarted] at there
        cases there }
  exact (Runs.invariant_along (fun _ _ _ excluded sound h => Excluded.step excluded sound h)
    excluded sound₁ run₁).avoids _ found

end

/-! ## Schedules -/

/-- One response is stored, and the URI is about to be invalidated. -/
def storedThenInvalidating : List Interleaving :=
  [.call 0 (.insertResponse (cookieInsertion ['a'])), .access 0 exampleClock,
    .access 0 exampleClock, .access 0 exampleClock, .access 0 exampleClock,
    .call 2 (.invalidate examplePrimary)]

/-- The same, and call 1 has read the index record to store another variant. -/
def readThenInvalidating : List Interleaving :=
  storedThenInvalidating ++
    [.call 1 (.insertResponse (cookieInsertion ['b'])), .access 1 exampleClock]

/-- After the invalidation call 1 stores its response, and call 3 looks it
up. -/
def storedAgain : List Interleaving :=
  [.call 1 (.insertResponse (cookieInsertion ['b'])), .access 1 exampleClock,
    .access 1 exampleClock, .access 1 exampleClock, .access 1 exampleClock,
    .call 3 (.lookup examplePrimary (cookieRequest 98 (by decide)) none), .access 3 exampleClock,
    .access 3 exampleClock]

/-- After the invalidation call 1 writes the index record with the number it
has read, and call 3 looks up the response of call 0. -/
def indexPutAgain : List Interleaving :=
  [.access 1 exampleClock,
    .call 3 (.lookup examplePrimary (cookieRequest 97 (by decide)) none), .access 3 exampleClock,
    .access 3 exampleClock]

/-- A sound schedule: what the later lookup finds is the new response. -/
theorem invalidated_stays_unreachable_example : ∃ (_ : HttpDate) (σ₀ σ₁ σ₂ : Concurrent)
    (arc : Arc StoredResponse) (result : Lookup),
    Runs.run step (start 1 (Duration.fromSecs 3600)) storedThenInvalidating = some σ₀ ∧
      σ₀.step (.access 2 exampleClock) = some σ₁ ∧ Runs.run step σ₁ storedAgain = some σ₂ ∧
      σ₀.calls 0 = some (.inserted (cookieInsertion ['a']) 0 arc) ∧
      (∃ request index, σ₂.calls 3 =
        some (.lookedUp examplePrimary request index (some result))) ∧
      result.response.ptr ≠ arc.ptr := by
  let dates : HttpDate := ⟨fun _ => none⟩
  have sound : Runs.Along step Sound (start 1 (Duration.fromSecs 3600))
      (storedThenInvalidating ++ .access 2 exampleClock :: storedAgain) := by decide
  obtain ⟨sound₀, rest⟩ := Runs.along_append.mp sound
  obtain ⟨σ₀, σ₁, σ₂, arc, result, request, index, run₀, invalidating, invalidated, run₁,
      completed, unstarted, found⟩ : ∃ (σ₀ σ₁ σ₂ : Concurrent) (arc : Arc StoredResponse)
      (result : Lookup) (request : HeaderMap) (index : Option Index),
      Runs.run step (start 1 (Duration.fromSecs 3600)) storedThenInvalidating = some σ₀ ∧
        σ₀.calls 2 = some (.invalidateIndex (cookieInsertion ['a']).primary) ∧
        σ₀.step (.access 2 exampleClock) = some σ₁ ∧ Runs.run step σ₁ storedAgain = some σ₂ ∧
        σ₀.calls 0 = some (.inserted (cookieInsertion ['a']) 0 arc) ∧ σ₁.calls 3 = none ∧
        σ₂.calls 3 = some (.lookedUp examplePrimary request index (some result)) :=
    ⟨_, _, _, _, _, _, _, rfl, rfl, rfl, rfl, rfl, rfl, rfl⟩
  have sound₁ := ((Runs.along_cons invalidated).mp (rest σ₀ run₀)).2
  exact ⟨dates, σ₀, σ₁, σ₂, arc, result, run₀, invalidated, run₁, completed,
    ⟨request, index, found⟩, invalidated_stays_unreachable run₀ sound₀ invalidating invalidated
      run₁ sound₁ completed unstarted found⟩

/-- Call 3 starts after the invalidation and returns the response of call 0,
which was complete before it. -/
theorem reused_generation_undoes_invalidation : ∃ (_ : HttpDate) (σ₀ σ₁ σ₂ : Concurrent)
    (arc : Arc StoredResponse) (result : Lookup),
    Runs.run step (start 1 (Duration.fromSecs 3600)) readThenInvalidating = some σ₀ ∧
      σ₀.calls 2 = some (.invalidateIndex examplePrimary) ∧
      σ₀.step (.access 2 exampleClock) = some σ₁ ∧ Runs.run step σ₁ indexPutAgain = some σ₂ ∧
      σ₀.calls 0 = some (.inserted (cookieInsertion ['a']) 0 arc) ∧ σ₁.calls 3 = none ∧
      (∃ request index, σ₂.calls 3 =
        some (.lookedUp examplePrimary request index (some result))) ∧
      result.response.ptr = arc.ptr := by
  let dates : HttpDate := ⟨fun _ => none⟩
  exact ⟨dates, _, _, _, _, _, rfl, rfl, rfl, rfl, rfl, rfl, ⟨_, _, rfl⟩, rfl⟩

end Concurrent

end Shadowstep
