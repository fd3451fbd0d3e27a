import Shadowstep.Cache.Sequence

/-!
# Calls on the store, side by side

Every access to the index map, the entries map or the generation counter is
one step here, and the steps of any number of calls interleave; moka may
drop any record between two steps. A call that has returned keeps what it
returned, so that a later state can be asked about it.

* `Access` — one constructor for each access of the source, with all that
  it reads and writes;
* `next_access` — the executable step makes one of these accesses;
* `call_alone` — what a call comes to that no other one interrupts.
-/

namespace Shadowstep

open Rust

/-! ## Calls -/

/-- The arguments of `insert_response`. -/
structure Insertion where
  primary : PrimaryKey
  vary : Vary
  policy : Storable
  status : StatusCode
  headers : Fields
  body : Bytes

inductive Call where
  | lookup (primary : PrimaryKey) (request : HeaderMap) (maxAge : Option Duration)
  | insertResponse (insertion : Insertion)
  | freshen (entry : StaleEntry) (requestPolicy : RequestPolicy) (request : HeaderMap)
      (update : Fields) (age : Option HeaderValue)
  | invalidate (primary : PrimaryKey)

/-- How a call of `insert_response` came by its generation number. -/
inductive Source where
  /-- from the index record, which it read when the primary key had been
  invalidated that often -/
  | reused (invalidations : Nat)
  /-- from the counter -/
  | taken

/-- Where a call stands: the access it makes next, or what it returned. -/
inductive Pc where
  | lookupIndex (primary : PrimaryKey) (request : HeaderMap) (maxAge : Option Duration)
  | lookupEntry (primary : PrimaryKey) (request : HeaderMap) (maxAge : Option Duration)
      (index : Index)
  | lookedUp (primary : PrimaryKey) (request : HeaderMap) (index : Option Index)
      (result : Option Lookup)
  | insertIndexGet (insertion : Insertion)
  | insertFetchAdd (insertion : Insertion)
  | insertIndexPut (insertion : Insertion) (generation : UInt64) (source : Source)
  | insertEntry (insertion : Insertion) (generation : UInt64)
  | inserted (insertion : Insertion) (generation : UInt64) (response : Arc StoredResponse)
  | refused (insertion : Insertion)
  | freshenEntry (entry : StaleEntry) (requestPolicy : RequestPolicy) (request : HeaderMap)
      (update : Fields) (age : Option HeaderValue)
  | freshenRemove (key : ResponseKey)
  | freshened
  | invalidateIndex (primary : PrimaryKey)
  | invalidated (primary : PrimaryKey)

/-- The first access of a call. -/
def Call.start : Call → Pc
  | .lookup primary request maxAge => .lookupIndex primary request maxAge
  | .insertResponse insertion => .insertIndexGet insertion
  | .freshen entry requestPolicy request update age =>
    .freshenEntry entry requestPolicy request update age
  | .invalidate primary => .invalidateIndex primary

/-- The generation number that a call holds, with the primary key and the
`Vary` names that it belongs to. -/
def Pc.holds : Pc → Option (PrimaryKey × List HeaderName × UInt64)
  | .lookupEntry primary _ _ index | .lookedUp primary _ (some index) _ =>
    some (primary, index.vary, index.generation)
  | .insertIndexPut insertion generation _ | .insertEntry insertion generation
  | .inserted insertion generation _ =>
    some (insertion.primary, insertion.vary.names, generation)
  | _ => none

theorem Call.start_holds (call : Call) : call.start.holds = none := by
  cases call <;> rfl

/-! ## Accesses -/

/-- The store, and what the proofs count. -/
structure Memory where
  store : Store
  /-- how many generation numbers have been taken -/
  taken : Nat
  /-- how often each primary key has been invalidated -/
  invalidations : PrimaryKey → Nat

namespace Memory

def takeGeneration (memory : Memory) : UInt64 × Memory :=
  let (generation, store) := memory.store.takeGeneration
  (generation, { memory with store := store, taken := memory.taken + 1 })

def insertIndex (memory : Memory) (primary : PrimaryKey) (index : Index) : Memory :=
  { memory with store := memory.store.insertIndex primary index }

def insertEntry (memory : Memory) (insertion : Insertion) (generation : UInt64) (now : Clock) :
    Arc StoredResponse × Memory :=
  let response := memory.store.response insertion.policy insertion.status insertion.headers
    insertion.body now
  let (arc, store) :=
    memory.store.insertEntry ⟨insertion.primary, generation, insertion.vary.values⟩ response
  (arc, { memory with store := store })

def removeEntry (memory : Memory) (key : Key) : Memory :=
  { memory with store := memory.store.removeEntry key }

def removeIndex (memory : Memory) (primary : PrimaryKey) : Memory :=
  { memory with store := memory.store.removeIndex primary }

def invalidate (memory : Memory) (primary : PrimaryKey) : Memory :=
  { memory with
    store := memory.store.invalidate primary
    invalidations := Function.update memory.invalidations primary
      (memory.invalidations primary + 1) }

/-- The result of a lookup that read `index`, from its read of the entries. -/
def lookupEntry (memory : Memory) (primary : PrimaryKey) (request : HeaderMap)
    (maxAge : Option Duration) (index : Index) (now : Clock) : Option Lookup :=
  let key := Store.keyFor primary index request
  (memory.store.responseAt key).map fun response =>
    Store.judge ⟨response, key⟩ maxAge now.instant

end Memory

/-- The insertion of an entry updated from a 304. -/
def freshenInsertion (entry : StaleEntry) (update : Fields) (policy : Storable) (vary : Vary) :
    Insertion where
  primary := entry.key.primary
  vary := vary
  policy := policy
  status := entry.response.val.status
  headers := updatedFields entry.response.val.headers update
  body := entry.response.val.body

section

variable [HttpDate]

/-- Where `freshen` goes on after its read of the entries. -/
def freshenBranch (memory : Memory) (entry : StaleEntry) (requestPolicy : RequestPolicy)
    (request : HeaderMap) (update : Fields) (age : Option HeaderValue) (now : Clock) : Pc :=
  let stored := entry.response.val
  if memory.store.current entry then
    match storable requestPolicy request stored.status (Store.freshenMap stored update age) now with
    | some (policy, vary) => .insertIndexGet (freshenInsertion entry update policy vary)
    | none => .freshenRemove entry.key
  else .freshened

/-- The next access of a call, unless it has returned. -/
def Pc.next (pc : Pc) (memory : Memory) (now : Clock) : Option (Pc × Memory) :=
  match pc with
  | .lookupIndex primary request maxAge =>
    match memory.store.index primary with
    | none => some (.lookedUp primary request none none, memory)
    | some index => some (.lookupEntry primary request maxAge index, memory)
  | .lookupEntry primary request maxAge index =>
    some (.lookedUp primary request (some index)
      (memory.lookupEntry primary request maxAge index now), memory)
  | .insertIndexGet insertion =>
    if memory.store.admits insertion.body then
      match memory.store.index insertion.primary with
      | some index =>
        if index.vary = insertion.vary.names then
          some (.insertIndexPut insertion index.generation
            (.reused (memory.invalidations insertion.primary)), memory)
        else some (.insertFetchAdd insertion, memory)
      | none => some (.insertFetchAdd insertion, memory)
    else some (.refused insertion, memory)
  | .insertFetchAdd insertion =>
    let (generation, memory) := memory.takeGeneration
    some (.insertIndexPut insertion generation .taken, memory)
  | .insertIndexPut insertion generation _ =>
    some (.insertEntry insertion generation,
      memory.insertIndex insertion.primary ⟨insertion.vary.names, generation⟩)
  | .insertEntry insertion generation =>
    let (arc, memory) := memory.insertEntry insertion generation now
    some (.inserted insertion generation arc, memory)
  | .freshenEntry entry requestPolicy request update age =>
    some (freshenBranch memory entry requestPolicy request update age now, memory)
  | .freshenRemove key => some (.freshened, memory.removeEntry (.response key))
  | .invalidateIndex primary => some (.invalidated primary, memory.invalidate primary)
  | .lookedUp .. | .inserted .. | .refused _ | .freshened | .invalidated _ => none

/-- The accesses, one constructor each. -/
inductive Access (memory : Memory) (now : Clock) : Pc → Pc → Memory → Prop
  | lookupMiss {primary request maxAge} (h : memory.store.index primary = none) :
    Access memory now (.lookupIndex primary request maxAge) (.lookedUp primary request none none)
      memory
  | lookupIndex {primary request maxAge index} (h : memory.store.index primary = some index) :
    Access memory now (.lookupIndex primary request maxAge)
      (.lookupEntry primary request maxAge index) memory
  | lookupEntry {primary request maxAge index} :
    Access memory now (.lookupEntry primary request maxAge index)
      (.lookedUp primary request (some index)
        (memory.lookupEntry primary request maxAge index now)) memory
  | refuse {insertion} (h : memory.store.admits insertion.body = false) :
    Access memory now (.insertIndexGet insertion) (.refused insertion) memory
  | reuse {insertion index} (h : memory.store.index insertion.primary = some index)
      (names : index.vary = insertion.vary.names) :
    Access memory now (.insertIndexGet insertion)
      (.insertIndexPut insertion index.generation
        (.reused (memory.invalidations insertion.primary))) memory
  | renew {insertion} (h : ∀ index, memory.store.index insertion.primary = some index →
      index.vary ≠ insertion.vary.names) :
    Access memory now (.insertIndexGet insertion) (.insertFetchAdd insertion) memory
  | fetchAdd {insertion} :
    Access memory now (.insertFetchAdd insertion)
      (.insertIndexPut insertion memory.takeGeneration.1 .taken) memory.takeGeneration.2
  | indexPut {insertion generation source} :
    Access memory now (.insertIndexPut insertion generation source)
      (.insertEntry insertion generation)
      (memory.insertIndex insertion.primary ⟨insertion.vary.names, generation⟩)
  | entryPut {insertion generation} :
    Access memory now (.insertEntry insertion generation)
      (.inserted insertion generation (memory.insertEntry insertion generation now).1)
      (memory.insertEntry insertion generation now).2
  | freshenInsert {entry requestPolicy request update age policy vary} :
    Access memory now (.freshenEntry entry requestPolicy request update age)
      (.insertIndexGet (freshenInsertion entry update policy vary)) memory
  | freshenUnstorable {entry requestPolicy request update age} :
    Access memory now (.freshenEntry entry requestPolicy request update age)
      (.freshenRemove entry.key) memory
  | freshenReplaced {entry requestPolicy request update age} :
    Access memory now (.freshenEntry entry requestPolicy request update age) .freshened memory
  | freshenRemove {key} :
    Access memory now (.freshenRemove key) .freshened (memory.removeEntry (.response key))
  | invalidate {primary} :
    Access memory now (.invalidateIndex primary) (.invalidated primary)
      (memory.invalidate primary)

theorem next_access {pc pc' : Pc} {memory memory' : Memory} {now : Clock}
    (h : pc.next memory now = some (pc', memory')) : Access memory now pc pc' memory' := by
  cases pc with
  | lookupIndex primary request maxAge =>
      simp only [Pc.next] at h
      split at h
      case h_1 miss =>
        obtain ⟨rfl, rfl⟩ := Prod.mk.inj (Option.some.inj h)
        exact .lookupMiss miss
      case h_2 index hit =>
        obtain ⟨rfl, rfl⟩ := Prod.mk.inj (Option.some.inj h)
        exact .lookupIndex hit
  | insertIndexGet insertion =>
      simp only [Pc.next] at h
      split at h
      case isTrue =>
        split at h
        case h_1 index hindex =>
          split at h
          case isTrue names =>
            obtain ⟨rfl, rfl⟩ := Prod.mk.inj (Option.some.inj h)
            exact .reuse hindex names
          case isFalse names =>
            obtain ⟨rfl, rfl⟩ := Prod.mk.inj (Option.some.inj h)
            -- the record has other names, so the insertion takes a new number
            refine .renew fun other hother => ?_
            obtain rfl := Option.some.inj (hindex.symm.trans hother)
            exact names
        case h_2 hindex =>
          obtain ⟨rfl, rfl⟩ := Prod.mk.inj (Option.some.inj h)
          exact .renew fun other hother => by simp [hindex] at hother
      case isFalse refused =>
        obtain ⟨rfl, rfl⟩ := Prod.mk.inj (Option.some.inj h)
        exact .refuse (by simpa using refused)
  | freshenEntry entry requestPolicy request update age =>
      obtain ⟨rfl, rfl⟩ := Prod.mk.inj (Option.some.inj h)
      simp only [freshenBranch]
      split
      · split
        · exact .freshenInsert
        · exact .freshenUnstorable
      · exact .freshenReplaced
  | lookupEntry | insertFetchAdd | insertIndexPut | insertEntry | freshenRemove
    | invalidateIndex =>
      obtain ⟨rfl, rfl⟩ := Prod.mk.inj (Option.some.inj h)
      constructor
  | lookedUp | inserted | refused | freshened | invalidated => cases h

end

/-! ## What an access changes -/

section

variable {memory memory' : Memory} {now : Clock} {pc pc' : Pc}

theorem Access.counter (access : Access memory now pc pc' memory') :
    memory'.taken = memory.taken ∧ memory'.store.generation = memory.store.generation ∨
      memory'.taken = memory.taken + 1 ∧
        memory'.store.generation = memory.store.generation + 1 := by
  cases access with
  | fetchAdd => exact .inr ⟨rfl, rfl⟩
  | _ => exact .inl ⟨rfl, rfl⟩

theorem Access.taken_le (access : Access memory now pc pc' memory') :
    memory.taken ≤ memory'.taken := by
  obtain ⟨same, -⟩ | ⟨next, -⟩ := access.counter
  · exact same.ge
  · omega

/-- An entry after an access was there before, or is what the access put. -/
theorem Access.responseAt (access : Access memory now pc pc' memory') {key : ResponseKey}
    {arc : Arc StoredResponse} (h : memory'.store.responseAt key = some arc) :
    memory.store.responseAt key = some arc ∨
      ∃ insertion generation, pc = .insertEntry insertion generation ∧
        pc' = .inserted insertion generation arc ∧
        key = ⟨insertion.primary, generation, insertion.vary.values⟩ ∧
        arc.ptr = memory.store.arcs := by
  cases access with
  | @entryPut insertion generation =>
      have put := Store.responseAt_insertEntry memory.store
        ⟨insertion.primary, generation, insertion.vary.values⟩ key
        (memory.store.response insertion.policy insertion.status insertion.headers insertion.body
          now)
      simp only [Memory.insertEntry] at h ⊢
      rw [put] at h
      split at h
      case isTrue same =>
        obtain rfl := Option.some.inj h
        exact .inr ⟨insertion, generation, rfl, rfl, same, rfl⟩
      case isFalse => exact .inl h
  | @freshenRemove removed =>
      simp only [Memory.removeEntry, Store.responseAt_removeEntry] at h
      split at h
      · cases h
      · exact .inl h
  | _ => exact .inl h

theorem Store.index_insertIndex {store : Store} {primary p : PrimaryKey} {index record : Index}
    (h : (store.insertIndex primary index).index p = some record) :
    p = primary ∧ record = index ∨ store.index p = some record := by
  by_cases same : p = primary
  · subst same
    simp only [Store.insertIndex, Function.update_self, Option.some.injEq] at h
    exact .inl ⟨rfl, h.symm⟩
  · exact .inr (by simpa [Store.insertIndex, same] using h)

theorem Store.index_removeIndex {store : Store} {primary p : PrimaryKey} {record : Index}
    (h : (store.removeIndex primary).index p = some record) :
    p ≠ primary ∧ store.index p = some record := by
  by_cases same : p = primary
  · subst same
    simp [Store.removeIndex] at h
  · exact ⟨same, by simpa [Store.removeIndex, same] using h⟩

/-- An index record after an access was there before, or is what the access
put. -/
theorem Access.index (access : Access memory now pc pc' memory') {primary : PrimaryKey}
    {record : Index} (h : memory'.store.index primary = some record) :
    memory.store.index primary = some record ∨
      ∃ insertion source, pc = .insertIndexPut insertion record.generation source ∧
        insertion.primary = primary ∧ insertion.vary.names = record.vary := by
  cases access with
  | @indexPut insertion generation source =>
      obtain ⟨rfl, rfl⟩ | before := Store.index_insertIndex h
      · exact .inr ⟨insertion, source, rfl, rfl, rfl⟩
      · exact .inl before
  | invalidate => exact .inl (Store.index_removeIndex h).2
  | _ => exact .inl h

/-- A number that a call holds after an access was held or in the index
before, or has just been taken. -/
theorem Access.holds (access : Access memory now pc pc' memory') {primary : PrimaryKey}
    {names : List HeaderName} {generation : UInt64}
    (h : pc'.holds = some (primary, names, generation)) :
    pc.holds = some (primary, names, generation) ∨
      memory.store.index primary = some ⟨names, generation⟩ ∨
      ∃ insertion, pc = .insertFetchAdd insertion ∧ primary = insertion.primary ∧
        names = insertion.vary.names ∧ generation = memory.store.generation := by
  cases access with
  | lookupIndex hindex =>
      cases h
      exact .inr (.inl hindex)
  | reuse hindex same =>
      cases h
      exact .inr (.inl (by rw [hindex, ← same]))
  | fetchAdd =>
      cases h
      exact .inr (.inr ⟨_, rfl, rfl, rfl, rfl⟩)
  | lookupEntry | indexPut | entryPut => exact .inl h
  | _ => cases h

theorem Access.arcs_le (access : Access memory now pc pc' memory') :
    memory.store.arcs ≤ memory'.store.arcs := by
  cases access with
  | entryPut => exact Nat.le_succ _
  | _ => exact Nat.le_refl _

/-- A call that has stored a response allocated it in that access. -/
theorem Access.inserted {insertion : Insertion} {generation : UInt64} {arc : Arc StoredResponse}
    (access : Access memory now pc (.inserted insertion generation arc) memory') :
    arc.ptr = memory.store.arcs ∧ memory'.store.arcs = memory.store.arcs + 1 := by
  cases access
  exact ⟨rfl, rfl⟩

theorem Access.invalidations_le (access : Access memory now pc pc' memory')
    (primary : PrimaryKey) : memory.invalidations primary ≤ memory'.invalidations primary := by
  cases access with
  | @invalidate p =>
      by_cases same : primary = p
      · subst same
        simp [Memory.invalidate]
      · simp [Memory.invalidate, same]
  | _ => exact Nat.le_refl _

/-- A lookup returns the entry at the key that its index record gives. -/
theorem Access.lookedUp {primary : PrimaryKey} {request : HeaderMap} {index : Option Index}
    {result : Lookup}
    (access : Access memory now pc (.lookedUp primary request index (some result)) memory') :
    ∃ maxAge record, pc = .lookupEntry primary request maxAge record ∧ index = some record ∧
      memory.store.responseAt (Store.keyFor primary record request) = some result.response := by
  generalize hreturned : some result = returned at access
  cases access with
  | lookupMiss => cases hreturned
  | @lookupEntry _ _ maxAge record =>
      obtain ⟨response, hresponse, rfl⟩ := Option.map_eq_some_iff.mp hreturned.symm
      exact ⟨maxAge, record, rfl, rfl, by rw [Store.judge_response, hresponse]⟩

end

/-! ## Interleavings -/

/-- A step of one call, or a record that moka drops by itself. -/
inductive Interleaving where
  /-- a new call, which makes no access yet -/
  | call (id : Nat) (call : Call)
  | access (id : Nat) (now : Clock)
  | evictIndex (primary : PrimaryKey)
  | evictEntry (key : Key)

structure Concurrent where
  memory : Memory
  calls : Nat → Option Pc

namespace Concurrent

def start (sizeMb : UInt64) (ttl : Duration) : Concurrent :=
  ⟨⟨Store.new sizeMb ttl, 0, fun _ => 0⟩, fun _ => none⟩

variable [HttpDate]

def step (σ : Concurrent) : Interleaving → Option Concurrent
  | .call id call =>
    if (σ.calls id).isNone then
      some { σ with calls := Function.update σ.calls id (some call.start) }
    else none
  | .access id now => do
    let pc ← σ.calls id
    let (pc, memory) ← pc.next σ.memory now
    return ⟨memory, Function.update σ.calls id (some pc)⟩
  | .evictIndex primary => some { σ with memory := σ.memory.removeIndex primary }
  | .evictEntry key => some { σ with memory := σ.memory.removeEntry key }

/-- What a step does, one case for each kind of event. -/
inductive Stepped (σ : Concurrent) : Interleaving → Concurrent → Prop
  | call {id call} (new : σ.calls id = none) :
    Stepped σ (.call id call) ⟨σ.memory, Function.update σ.calls id (some call.start)⟩
  | access {id now pc pc' memory} (here : σ.calls id = some pc)
      (access : Access σ.memory now pc pc' memory) :
    Stepped σ (.access id now) ⟨memory, Function.update σ.calls id (some pc')⟩
  | evictIndex {primary} :
    Stepped σ (.evictIndex primary) ⟨σ.memory.removeIndex primary, σ.calls⟩
  | evictEntry {key} : Stepped σ (.evictEntry key) ⟨σ.memory.removeEntry key, σ.calls⟩

/-- An access is the next one of a call that has begun. -/
theorem step_access {σ σ' : Concurrent} {id : Nat} {now : Clock}
    (h : σ.step (.access id now) = some σ') :
    ∃ pc pc' memory, σ.calls id = some pc ∧ pc.next σ.memory now = some (pc', memory) ∧
      σ' = ⟨memory, Function.update σ.calls id (some pc')⟩ := by
  simp only [step, Option.bind_eq_bind, Option.bind_eq_some_iff, Option.pure_def,
    Option.some.injEq] at h
  obtain ⟨pc, here, ⟨pc', memory⟩, hnext, rfl⟩ := h
  exact ⟨pc, pc', memory, here, hnext, rfl⟩

theorem step_cases {σ σ' : Concurrent} {event : Interleaving} (h : σ.step event = some σ') :
    Stepped σ event σ' := by
  cases event with
  | call id call =>
      simp only [step] at h
      split at h
      case isTrue new =>
        obtain rfl := Option.some.inj h
        exact .call (Option.isNone_iff_eq_none.mp new)
      case isFalse => cases h
  | access id now =>
      obtain ⟨pc, pc', memory, here, hnext, rfl⟩ := step_access h
      exact .access here (next_access hnext)
  | evictIndex primary =>
      obtain rfl := Option.some.inj h
      exact .evictIndex
  | evictEntry key =>
      obtain rfl := Option.some.inj h
      exact .evictEntry

end Concurrent

/-! ## A call alone -/

section

variable [HttpDate]

/-- A call as one step: the function that it is when nothing comes between its
accesses. -/
def Call.whole (call : Call) (store : Store) (now : Clock) : Store :=
  match call with
  | .lookup .. => store
  | .insertResponse insertion => (store.insertResponse insertion.primary insertion.vary
      insertion.policy insertion.status insertion.headers insertion.body now).2
  | .freshen entry requestPolicy request update age =>
    (store.freshen entry requestPolicy request update age now).2
  | .invalidate primary => store.invalidate primary

/-- A call makes its accesses in a row, until it has returned. -/
inductive Alone (now : Clock) : Pc → Memory → Pc → Memory → Prop
  | returned {pc memory} (returned : pc.next memory now = none) : Alone now pc memory pc memory
  | access {pc memory pc' memory' pc'' memory''} (next : pc.next memory now = some (pc', memory'))
      (rest : Alone now pc' memory' pc'' memory'') : Alone now pc memory pc'' memory''

variable {now : Clock}

theorem Alone.ended {pc pc' : Pc} {memory memory' : Memory}
    (alone : Alone now pc memory pc' memory') : pc'.next memory' now = none := by
  induction alone with
  | returned returned => exact returned
  | access _ _ ih => exact ih

/-- The accesses in a row are a run of that call only. -/
theorem Alone.run {pc pc' : Pc} {memory memory' : Memory} (alone : Alone now pc memory pc' memory')
    {σ : Concurrent} (same : σ.memory = memory) {id : Nat} (here : σ.calls id = some pc) :
    ∃ accesses, Runs.run Concurrent.step σ (List.replicate accesses (.access id now)) =
      some ⟨memory', Function.update σ.calls id (some pc')⟩ := by
  induction alone generalizing σ with
  | returned =>
      subst same
      exact ⟨0, by rw [← here, Function.update_eq_self]; rfl⟩
  | @access pc memory pc' memory' _ _ next rest ih =>
      subst same
      obtain ⟨accesses, run⟩ := ih (σ := ⟨memory', Function.update σ.calls id (some pc')⟩) rfl
        (Function.update_self ..)
      rw [Function.update_idem] at run
      refine ⟨accesses + 1, Runs.run_cons.mpr ⟨_, ?_, run⟩⟩
      simp [Concurrent.step, here, next]

/-- `insert_response` from where it has its generation number. -/
theorem put_alone (insertion : Insertion) (generation : UInt64) (source : Source)
    (memory : Memory) :
    Alone now (.insertIndexPut insertion generation source) memory
      (.inserted insertion generation
        ((memory.insertIndex insertion.primary ⟨insertion.vary.names, generation⟩).insertEntry
          insertion generation now).1)
      ((memory.insertIndex insertion.primary ⟨insertion.vary.names, generation⟩).insertEntry
        insertion generation now).2 :=
  .access rfl (.access rfl (.returned rfl))

theorem insertion_alone (now : Clock) (insertion : Insertion) (memory : Memory) :
    ∃ pc memory', Alone now (.insertIndexGet insertion) memory pc memory' ∧
      memory'.store = (Call.insertResponse insertion).whole memory.store now := by
  by_cases admits : memory.store.admits insertion.body = true
  case neg =>
    refine ⟨.refused insertion, memory, .access ?_ (.returned rfl), ?_⟩
    · simp [Pc.next, admits]
    · rw [Call.whole, Store.insertResponse_of_not_admits (by simpa using admits)]
  case pos =>
    have admitted : ¬ (!memory.store.enabled ||
        decide (memory.store.maxEntry < insertion.body.length)) = true := by
      rw [Store.refuses_eq, admits]
      exact Bool.false_ne_true
    obtain reused | taken :
        (∃ index, memory.store.index insertion.primary = some index ∧
          index.vary = insertion.vary.names) ∨
        ∀ index, memory.store.index insertion.primary = some index →
          index.vary ≠ insertion.vary.names := by
      by_cases h : ∃ index, memory.store.index insertion.primary = some index ∧
          index.vary = insertion.vary.names
      · exact .inl h
      · exact .inr fun index here names => h ⟨index, here, names⟩
    · obtain ⟨index, here, names⟩ := reused
      have next : (Pc.insertIndexGet insertion).next memory now =
          some (.insertIndexPut insertion index.generation
            (.reused (memory.invalidations insertion.primary)), memory) := by
        simp [Pc.next, admits, here, names]
      refine ⟨_, _, .access next (put_alone ..), ?_⟩
      rw [Call.whole, Store.insertResponse, if_neg admitted, Store.generationFor]
      simp only [here, names, if_true]
      rfl
    · have number : memory.store.generationFor insertion.primary insertion.vary.names =
          memory.store.takeGeneration := by
        unfold Store.generationFor
        split
        case h_1 index here => exact if_neg (taken index here)
        case h_2 => rfl
      have next : (Pc.insertIndexGet insertion).next memory now =
          some (.insertFetchAdd insertion, memory) := by
        simp only [Pc.next, admits, if_true]
        split
        case h_1 index here => rw [if_neg (taken index here)]
        case h_2 => rfl
      refine ⟨_, _, .access next (.access rfl (put_alone ..)), ?_⟩
      rw [Call.whole, Store.insertResponse, if_neg admitted, number]
      rfl

/-- A lookup finds what its one read of the index and one of the entries give. -/
theorem lookup_alone (primary : PrimaryKey) (request : HeaderMap) (maxAge : Option Duration)
    (memory : Memory) : Alone now (.lookupIndex primary request maxAge) memory
      (.lookedUp primary request (memory.store.index primary)
        (memory.store.lookup primary request maxAge now.instant)) memory := by
  cases index : memory.store.index primary with
  | none =>
      have nothing : memory.store.lookup primary request maxAge now.instant = none := by
        simp [Store.lookup, Store.find, index]
      rw [nothing]
      exact .access (by simp [Pc.next, index]) (.returned rfl)
  | some record =>
      have found : memory.store.lookup primary request maxAge now.instant =
          memory.lookupEntry primary request maxAge record now := by
        cases there : memory.store.responseAt (Store.keyFor primary record request) <;>
          simp [Store.lookup, Store.find, index, Memory.lookupEntry, there]
      have next : (Pc.lookupIndex primary request maxAge).next memory now =
          some (.lookupEntry primary request maxAge record, memory) := by
        simp [Pc.next, index]
      rw [found]
      exact .access next (.access rfl (.returned rfl))

/-- A call's accesses in a row come to its own function on the store. -/
theorem whole_alone (now : Clock) (call : Call) (memory : Memory) :
    ∃ pc memory', Alone now call.start memory pc memory' ∧
      memory'.store = call.whole memory.store now := by
  cases call with
  | lookup primary request maxAge =>
      exact ⟨_, memory, lookup_alone primary request maxAge memory, rfl⟩
  | insertResponse insertion => exact insertion_alone now insertion memory
  | freshen entry requestPolicy request update age =>
      have next : (Pc.freshenEntry entry requestPolicy request update age).next memory now =
          some (freshenBranch memory entry requestPolicy request update age now, memory) := rfl
      cases verdict : storable requestPolicy request entry.response.val.status
          (Store.freshenMap entry.response.val update age) now with
      | none =>
          by_cases current : memory.store.current entry = true
          · rw [freshenBranch, if_pos current, verdict] at next
            refine ⟨_, _, .access next (.access rfl (.returned rfl)), ?_⟩
            simp only [Call.whole, Store.freshen, verdict, current, if_true]
            rfl
          · rw [freshenBranch, if_neg current] at next
            refine ⟨_, _, .access next (.returned rfl), ?_⟩
            simp only [Call.whole, Store.freshen, verdict, current, Bool.false_eq_true, if_false]
      | some kept =>
          obtain ⟨policy, vary⟩ := kept
          by_cases current : memory.store.current entry = true
          · rw [freshenBranch, if_pos current, verdict] at next
            obtain ⟨pc, memory', alone, store⟩ :=
              insertion_alone now (freshenInsertion entry update policy vary) memory
            refine ⟨pc, memory', .access next alone, store.trans ?_⟩
            simp only [Call.whole, freshenInsertion, Store.freshen, verdict, current, if_true]
            split
            case h_1 inserted => rw [inserted]
            case h_2 refused => rw [refused]
          · rw [freshenBranch, if_neg current] at next
            refine ⟨_, _, .access next (.returned rfl), ?_⟩
            simp only [Call.whole, Store.freshen, verdict, current, Bool.false_eq_true, if_false]
  | invalidate primary => exact ⟨_, _, .access rfl (.returned rfl), rfl⟩

/-- A call whose accesses no other one comes between is one step: it returns,
and the store is what its own function makes of it. -/
theorem Concurrent.call_alone (σ : Concurrent) (call : Call) {id : Nat}
    (here : σ.calls id = some call.start) : ∃ accesses pc memory,
      Runs.run Concurrent.step σ (List.replicate accesses (.access id now)) =
          some ⟨memory, Function.update σ.calls id (some pc)⟩ ∧
        pc.next memory now = none ∧ memory.store = call.whole σ.memory.store now := by
  obtain ⟨pc, memory, alone, store⟩ := whole_alone now call σ.memory
  obtain ⟨accesses, run⟩ := alone.run rfl here
  exact ⟨accesses, pc, memory, run, alone.ended, store⟩

end

end Shadowstep
