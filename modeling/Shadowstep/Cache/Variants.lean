import Shadowstep.Cache.Concurrent

/-!
# No wrong variant

A lookup reads the index record and the entry in two steps, and anything
may happen in between. What makes the entry the right one is that a
generation number belongs to one primary key and one list of `Vary` names
for ever: `Owned` says so of every place that mentions a number, and
`found_variant_matches` reads the result off.
-/

namespace Shadowstep

open Rust

namespace Concurrent

/-! ## Mentions of generation numbers -/

/-- An index record or a call ties a generation number to a primary key and
`Vary` names. -/
def Mentions (σ : Concurrent) (primary : PrimaryKey) (names : List HeaderName)
    (generation : UInt64) : Prop :=
  σ.memory.store.index primary = some ⟨names, generation⟩ ∨
    ∃ id pc, σ.calls id = some pc ∧ pc.holds = some (primary, names, generation)

/-- The step that takes a generation number for an insertion. -/
def Takes (σ : Concurrent) (event : Interleaving) (insertion : Insertion) : Prop :=
  ∃ id now, event = .access id now ∧ σ.calls id = some (.insertFetchAdd insertion)

theorem Takes.unique {σ : Concurrent} {event : Interleaving} {insertion other : Insertion}
    (takes : Takes σ event insertion) (takes' : Takes σ event other) : insertion = other := by
  obtain ⟨id, now, rfl, here⟩ := takes
  obtain ⟨_, _, ⟨⟩, there⟩ := takes'
  exact Pc.insertFetchAdd.inj (Option.some.inj (here.symm.trans there))

/-! ## The invariant -/

/-- Some call stored `arc` under `primary` and `values`, with that generation
number. -/
def Inserted (σ : Concurrent) (primary : PrimaryKey) (generation : UInt64) (values : VaryValues)
    (arc : Arc StoredResponse) : Prop :=
  ∃ id insertion, σ.calls id = some (.inserted insertion generation arc) ∧
    insertion.primary = primary ∧ insertion.vary.values = values

/-- Every generation number that is mentioned has been taken and has one
owner, and every response that is stored or was found has been inserted
under its key. -/
structure Owned (σ : Concurrent) (owner : UInt64 → PrimaryKey × List HeaderName) : Prop where
  counter : σ.memory.store.generation = UInt64.ofNat σ.memory.taken
  mentioned : ∀ {primary names generation}, Mentions σ primary names generation →
    generation ∈ numbers σ.memory.taken ∧ owner generation = (primary, names)
  stored : ∀ {key arc}, σ.memory.store.responseAt key = some arc →
    Inserted σ key.primary key.generation key.vary arc
  found : ∀ {id primary request index result},
    σ.calls id = some (.lookedUp primary request index (some result)) →
    ∃ record, index = some record ∧
      Inserted σ primary record.generation (varyValues record.vary request) result.response

theorem owned_start (sizeMb : UInt64) (ttl : Duration)
    (owner : UInt64 → PrimaryKey × List HeaderName) : Owned (start sizeMb ttl) owner where
  counter := rfl
  mentioned h := by
    obtain h | ⟨_, _, h, -⟩ := h <;> cases h
  stored h := by cases h
  found h := by cases h

/-! ## Steps -/

section

variable [HttpDate]

/-- After a step nothing new is mentioned but a number just taken. -/
theorem mentions_step {σ σ' : Concurrent} {event : Interleaving} (h : σ.step event = some σ')
    {primary : PrimaryKey} {names : List HeaderName} {generation : UInt64}
    (mentions : Mentions σ' primary names generation) :
    Mentions σ primary names generation ∨ ∃ insertion, Takes σ event insertion ∧
      primary = insertion.primary ∧ names = insertion.vary.names ∧
      generation = σ.memory.store.generation := by
  cases step_cases h with
  | @call id call new =>
      obtain index | ⟨other, pc, there, holds⟩ := mentions
      · exact .inl (.inl index)
      · obtain ⟨-, rfl⟩ | ⟨-, before⟩ := Runs.update_cases there
        · rw [call.start_holds] at holds
          cases holds
        · exact .inl (.inr ⟨other, pc, before, holds⟩)
  | @access id now pc pc' memory here access =>
      obtain index | ⟨other, held, there, holds⟩ := mentions
      · obtain before | ⟨insertion, source, rfl, rfl, rfl⟩ := access.index index
        · exact .inl (.inl before)
        · exact .inl (.inr ⟨id, _, here, rfl⟩)
      · obtain ⟨-, rfl⟩ | ⟨-, before⟩ := Runs.update_cases there
        · obtain before | index | ⟨insertion, rfl, new⟩ := access.holds holds
          · exact .inl (.inr ⟨id, pc, here, before⟩)
          · exact .inl (.inl index)
          · exact .inr ⟨insertion, ⟨id, now, rfl, here⟩, new⟩
        · exact .inl (.inr ⟨other, held, before, holds⟩)
  | evictIndex =>
      obtain index | held := mentions
      · exact .inl (.inl (Store.index_removeIndex index).2)
      · exact .inl (.inr held)
  | evictEntry => exact .inl mentions

theorem Takes.taken {σ σ' : Concurrent} {event : Interleaving} {insertion : Insertion}
    (takes : Takes σ event insertion) (h : σ.step event = some σ') :
    σ'.memory.taken = σ.memory.taken + 1 := by
  obtain ⟨id, now, rfl, here⟩ := takes
  cases step_cases h with
  | access there access =>
      obtain rfl := Option.some.inj (here.symm.trans there)
      cases access
      rfl

theorem taken_le {σ σ' : Concurrent} {event : Interleaving} (h : σ.step event = some σ') :
    σ.memory.taken ≤ σ'.memory.taken := by
  cases step_cases h with
  | access _ access => exact access.taken_le
  | _ => exact Nat.le_refl _

/-- A call that has returned stays where it is. -/
theorem inserted_stays {σ σ' : Concurrent} {event : Interleaving} (h : σ.step event = some σ')
    {id : Nat} {insertion : Insertion} {generation : UInt64} {arc : Arc StoredResponse}
    (here : σ.calls id = some (.inserted insertion generation arc)) :
    σ'.calls id = some (.inserted insertion generation arc) := by
  cases step_cases h with
  | call new =>
      refine (Function.update_of_ne ?_ _ _).trans here
      rintro rfl
      rw [new] at here
      cases here
  | access there access =>
      refine (Function.update_of_ne ?_ _ _).trans here
      rintro rfl
      obtain rfl := Option.some.inj (here.symm.trans there)
      cases access
  | evictIndex => exact here
  | evictEntry => exact here

theorem Inserted.step {σ σ' : Concurrent} {event : Interleaving} {primary : PrimaryKey}
    {generation : UInt64} {values : VaryValues} {arc : Arc StoredResponse}
    (inserted : Inserted σ primary generation values arc) (h : σ.step event = some σ') :
    Inserted σ' primary generation values arc := by
  obtain ⟨id, insertion, here, spec⟩ := inserted
  exact ⟨id, insertion, inserted_stays h here, spec⟩

theorem Owned.counter_step {σ σ' : Concurrent} {owner : UInt64 → PrimaryKey × List HeaderName}
    {event : Interleaving} (owned : Owned σ owner) (h : σ.step event = some σ') :
    σ'.memory.store.generation = UInt64.ofNat σ'.memory.taken := by
  cases step_cases h with
  | access _ access =>
      obtain ⟨taken, generation⟩ | ⟨taken, generation⟩ := access.counter
      · rw [generation, taken, owned.counter]
      · rw [generation, taken, owned.counter]
        exact (UInt64.ofNat_add _ _).symm
  | _ => exact owned.counter

/-- A number just taken has had no owner, so it can be given one. -/
theorem Owned.mentioned_step {σ σ' : Concurrent} {owner : UInt64 → PrimaryKey × List HeaderName}
    {event : Interleaving} (owned : Owned σ owner) (h : σ.step event = some σ')
    (bounded : σ'.memory.taken ≤ 2 ^ 64) :
    ∃ owner' : UInt64 → PrimaryKey × List HeaderName,
      ∀ {primary names generation}, Mentions σ' primary names generation →
        generation ∈ numbers σ'.memory.taken ∧ owner' generation = (primary, names) := by
  by_cases takes : ∃ insertion, Takes σ event insertion
  case pos =>
    obtain ⟨insertion, takes⟩ := takes
    have taken := takes.taken h
    have fresh : σ.memory.store.generation ∉ numbers σ.memory.taken := by
      rw [owned.counter]
      exact not_mem_numbers (by omega)
    refine ⟨Function.update owner σ.memory.store.generation
      (insertion.primary, insertion.vary.names), @fun primary names generation mentions => ?_⟩
    obtain old | ⟨other, takes', rfl, rfl, rfl⟩ := mentions_step h mentions
    · obtain ⟨number, owns⟩ := owned.mentioned old
      refine ⟨numbers_mono (taken_le h) number, ?_⟩
      have other : generation ≠ σ.memory.store.generation := by
        rintro rfl
        exact fresh number
      rw [Function.update_of_ne other, owns]
    · obtain rfl := takes.unique takes'
      refine ⟨?_, Function.update_self ..⟩
      rw [owned.counter, taken]
      exact ⟨_, Nat.lt_succ_self _, rfl⟩
  case neg =>
    refine ⟨owner, fun mentions => ?_⟩
    obtain old | ⟨insertion, new, -⟩ := mentions_step h mentions
    · obtain ⟨number, owns⟩ := owned.mentioned old
      exact ⟨numbers_mono (taken_le h) number, owns⟩
    · exact absurd ⟨insertion, new⟩ takes

theorem Owned.stored_step {σ σ' : Concurrent} {owner : UInt64 → PrimaryKey × List HeaderName}
    {event : Interleaving} (owned : Owned σ owner) (h : σ.step event = some σ')
    {key : ResponseKey} {arc : Arc StoredResponse}
    (stored : σ'.memory.store.responseAt key = some arc) :
    Inserted σ' key.primary key.generation key.vary arc := by
  have before (old : σ.memory.store.responseAt key = some arc) :
      Inserted σ' key.primary key.generation key.vary arc := (owned.stored old).step h
  cases step_cases h with
  | call => exact before stored
  | @access id now pc pc' memory here access =>
      obtain old | ⟨insertion, generation, rfl, rfl, rfl, -⟩ := access.responseAt stored
      · exact before old
      · exact ⟨id, insertion, Function.update_self .., rfl, rfl⟩
  | evictIndex => exact before stored
  | @evictEntry evicted =>
      simp only [Memory.removeEntry, Store.responseAt_removeEntry] at stored
      split at stored
      · cases stored
      · exact before stored

theorem Owned.found_step {σ σ' : Concurrent} {owner : UInt64 → PrimaryKey × List HeaderName}
    {event : Interleaving} (owned : Owned σ owner) (h : σ.step event = some σ') {id : Nat}
    {primary : PrimaryKey} {request : HeaderMap} {index : Option Index} {result : Lookup}
    (found : σ'.calls id = some (.lookedUp primary request index (some result))) :
    ∃ record, index = some record ∧
      Inserted σ' primary record.generation (varyValues record.vary request) result.response := by
  have before (old : σ.calls id = some (.lookedUp primary request index (some result))) :
      ∃ record, index = some record ∧ Inserted σ' primary record.generation
        (varyValues record.vary request) result.response := by
    obtain ⟨record, rfl, inserted⟩ := owned.found old
    exact ⟨record, rfl, inserted.step h⟩
  cases step_cases h with
  | @call _ call new =>
      obtain ⟨-, new⟩ | ⟨-, old⟩ := Runs.update_cases found
      · cases call <;> cases new
      · exact before old
  | access here access =>
      obtain ⟨-, new⟩ | ⟨-, old⟩ := Runs.update_cases found
      case inr => exact before old
      case inl =>
        subst new
        obtain ⟨maxAge, record, -, rfl, hresponse⟩ := access.lookedUp
        exact ⟨record, rfl, (owned.stored hresponse).step h⟩
  | evictIndex => exact before found
  | evictEntry => exact before found

theorem Owned.step {σ σ' : Concurrent} {owner : UInt64 → PrimaryKey × List HeaderName}
    {event : Interleaving} (owned : Owned σ owner) (h : σ.step event = some σ')
    (bounded : σ'.memory.taken ≤ 2 ^ 64) : ∃ owner', Owned σ' owner' := by
  obtain ⟨owner', mentioned⟩ := owned.mentioned_step h bounded
  exact ⟨owner', owned.counter_step h, mentioned, owned.stored_step h, owned.found_step h⟩

/-- As long as the counter has not wrapped, every generation number has one
owner. -/
theorem owned_run {sizeMb : UInt64} {ttl : Duration} {events : List Interleaving}
    {σ : Concurrent} (run : Runs.run step (start sizeMb ttl) events = some σ)
    (bounded : σ.memory.taken ≤ 2 ^ 64) : ∃ owner, Owned σ owner := by
  have kept : σ.memory.taken ≤ 2 ^ 64 → ∃ owner, Owned σ owner := by
    refine Runs.invariant_run (I := fun σ => σ.memory.taken ≤ 2 ^ 64 → ∃ owner, Owned σ owner)
      (fun s event s' kept h bounded => ?_)
      (fun _ => ⟨fun _ => (⟨[], [], []⟩, []), owned_start sizeMb ttl _⟩) run
    obtain ⟨owner, owned⟩ := kept ((taken_le h).trans bounded)
    exact owned.step h bounded
  exact kept bounded

/-- Whatever else happens and whatever is evicted, a lookup that returns a
response read an index record, and some call stored that response for the
same primary key, under the names of that record and under the request's
values for them. -/
theorem found_variant_matches {sizeMb : UInt64} {ttl : Duration} {events : List Interleaving}
    {σ : Concurrent} (run : Runs.run step (start sizeMb ttl) events = some σ)
    (bounded : σ.memory.taken ≤ 2 ^ 64) {id : Nat} {primary : PrimaryKey} {request : HeaderMap}
    {index : Option Index} {result : Lookup}
    (found : σ.calls id = some (.lookedUp primary request index (some result))) :
    ∃ record other insertion, index = some record ∧
      σ.calls other = some (.inserted insertion record.generation result.response) ∧
      insertion.primary = primary ∧ insertion.vary.names = record.vary ∧
      insertion.vary.values = varyValues record.vary request := by
  obtain ⟨owner, owned⟩ := owned_run run bounded
  obtain ⟨record, rfl, other, insertion, inserted, rfl, values⟩ := owned.found found
  refine ⟨record, other, insertion, rfl, inserted, rfl, ?_, values⟩
  -- the lookup and the insertion mention one generation number
  have lookup := (owned.mentioned (.inr ⟨id, _, found, rfl⟩)).2
  have insertion := (owned.mentioned (.inr ⟨other, _, inserted, rfl⟩)).2
  exact (Prod.mk.inj (insertion.symm.trans lookup)).2

end

/-- The insertion of a response to a request with some cookie, which the
origin marks with `Vary: Cookie`. -/
def cookieInsertion (cookie : Text) : Insertion :=
  ⟨examplePrimary, ⟨[header.cookie], [some cookie]⟩, examplePolicy, .ok, [], []⟩

def cookieRequest (cookie : UInt8) (valid : isValueByte cookie = true) : HeaderMap :=
  [(header.cookie, ⟨[cookie], by simpa using valid⟩)]

/-- One variant is stored, and a lookup for it begins and ends while another
call stores a second one. -/
def storeThenLookUp : List Interleaving :=
  [.call 0 (.insertResponse (cookieInsertion ['c'])), .access 0 exampleClock,
    .access 0 exampleClock, .access 0 exampleClock, .access 0 exampleClock,
    .call 1 (.insertResponse (cookieInsertion ['d'])), .access 1 exampleClock,
    .call 2 (.lookup examplePrimary (cookieRequest 99 (by decide)) none), .access 2 exampleClock,
    .access 1 exampleClock, .access 1 exampleClock, .access 2 exampleClock]

theorem found_variant_matches_example : ∃ (_ : HttpDate) (σ : Concurrent) (request : HeaderMap)
    (result : Lookup) (second : Arc StoredResponse) (other : Nat) (insertion : Insertion),
    Runs.run step (start 1 (Duration.fromSecs 3600)) storeThenLookUp = some σ ∧
      σ.calls 1 = some (.inserted (cookieInsertion ['d']) 0 second) ∧
      σ.calls 2 =
        some (.lookedUp examplePrimary request (some ⟨[header.cookie], 0⟩) (some result)) ∧
      σ.calls other = some (.inserted insertion 0 result.response) ∧
      insertion.primary = examplePrimary ∧ insertion.vary.names = [header.cookie] ∧
      insertion.vary.values = [some ['c']] := by
  let dates : HttpDate := ⟨fun _ => none⟩
  obtain ⟨σ, request, result, second, run, bounded, stored, found, values⟩ :
      ∃ (σ : Concurrent) (request : HeaderMap) (result : Lookup) (second : Arc StoredResponse),
        Runs.run step (start 1 (Duration.fromSecs 3600)) storeThenLookUp = some σ ∧
          σ.memory.taken ≤ 2 ^ 64 ∧
          σ.calls 1 = some (.inserted (cookieInsertion ['d']) 0 second) ∧
          σ.calls 2 =
            some (.lookedUp examplePrimary request (some ⟨[header.cookie], 0⟩) (some result)) ∧
          varyValues [header.cookie] request = [some ['c']] :=
    ⟨_, _, _, _, rfl, by decide, rfl, rfl, rfl⟩
  obtain ⟨record, other, insertion, hrecord, inserted, primary, names, own⟩ :=
    found_variant_matches run bounded found
  obtain rfl := Option.some.inj hrecord
  exact ⟨dates, σ, request, result, second, other, insertion, run, stored, found, inserted, primary,
    names, own.trans values⟩

end Concurrent

end Shadowstep
