import Shadowstep.Cache.Refinement

/-!
# When freshening leaves replaced entries alone

`freshen` compares the allocation that `entries` holds under the key of the
stale entry, whichever generation the index has by now. An invalidation or
other `Vary` names move or drop the index record only, so the old entry is
still there and the comparison succeeds: the 304 brings the response back.
`FreshenSound` is the condition under which nothing of this happens.

* `Traced` — where the allocations are, and what a found entry remembers;
* `alike_run` — two runs that differ in unreachable entries only;
* `freshen_ok_iff` — `freshen` does what it should iff `FreshenSound`;
* `freshen_revives_invalidated` — a run that breaks it.
-/

namespace Shadowstep

open Rust Generations

namespace Observed

/-! ## Allocations -/

/-- What stays true of a stale entry after the lookup that returned it. -/
structure Remembered (σ : Observed) (entry : StaleEntry) (request : HeaderMap) : Prop where
  taken : entry.key.generation ∈ numbers σ.taken
  allocated : entry.response.ptr < σ.store.arcs
  admitted : σ.store.admits entry.response.val.body = true
  /-- the allocation is nowhere else -/
  placed : ∀ {p g v arc}, σ.store.table.entries p g v = some arc →
    arc.ptr = entry.response.ptr → (⟨p, g, v⟩ : ResponseKey) = entry.key ∧ arc = entry.response
  /-- an index record of the same generation has the same names -/
  values : ∀ {names}, σ.store.table.index entry.key.primary = some (names, entry.key.generation) →
    entry.key.vary = varyValues names request

structure Traced (σ : Observed) : Prop where
  numbered : Numbered σ
  allocated : ∀ {p g v arc}, σ.store.table.entries p g v = some arc → arc.ptr < σ.store.arcs
  once : ∀ {p g v arc q h w arc'}, σ.store.table.entries p g v = some arc →
    σ.store.table.entries q h w = some arc' → arc.ptr = arc'.ptr →
    (⟨p, g, v⟩ : ResponseKey) = ⟨q, h, w⟩ ∧ arc = arc'
  admitted : ∀ {p g v arc}, σ.store.table.entries p g v = some arc →
    σ.store.admits arc.val.body = true
  found : ∀ entry request, (entry, request) ∈ σ.found → Remembered σ entry request

theorem traced_start (sizeMb : UInt64) (ttl : Duration) : Traced (start sizeMb ttl) where
  numbered := numbered_start sizeMb ttl
  allocated h := by simp [start, Store.new, Store.table, Store.responseAt] at h
  once h := by simp [start, Store.new, Store.table, Store.responseAt] at h
  admitted h := by simp [start, Store.new, Store.table, Store.responseAt] at h
  found _ _ h := by simp [start] at h

/-- What a call that numbers no generation twice keeps of a found entry. -/
theorem Remembered.moves {σ σ' : Observed} {entry : StaleEntry} {request : HeaderMap}
    {op : TableOp} (remembered : Remembered σ entry request) (numbered : Numbered σ)
    (moves : σ.store.Moves σ'.store op) (later : σ.taken ≤ σ'.taken)
    (bounded : op.takes σ.store.table = true → σ.taken < 2 ^ 64) :
    Remembered σ' entry request where
  taken := numbers_mono later remembered.taken
  allocated := by
    rw [moves.arcs]
    exact remembered.allocated.trans_le (Nat.le_add_right _ _)
  admitted := by
    rw [moves.admits]
    exact remembered.admitted
  placed h same := by
    rw [moves.table] at h
    obtain before | ⟨tag, rfl, -⟩ := Table.Op.entries_apply h
    · exact remembered.placed before same
    · have new := (moves.allocated _ _ _ _ rfl).1
      exact absurd remembered.allocated (by omega)
  values h := by
    rw [moves.table] at h
    obtain before | ⟨takes, fresh⟩ := Table.Op.index_apply h
    · exact remembered.values before
    · rw [numbered.counter] at fresh
      exact absurd (fresh ▸ remembered.taken) (not_mem_numbers (bounded takes))

/-- What a lookup returns is remembered from then on. -/
theorem Traced.remembered_of_find {σ : Observed} (traced : Traced σ) {primary : PrimaryKey}
    {request : HeaderMap} {entry : StaleEntry} (h : σ.store.find primary request = some entry) :
    entry.key.primary = primary ∧ Remembered σ entry request := by
  obtain ⟨index, hindex, hkey, hresponse⟩ := Store.find_eq_some.mp h
  have here : σ.store.table.entries entry.key.primary entry.key.generation entry.key.vary =
      some entry.response := hresponse
  have primaryEq : entry.key.primary = primary := by rw [hkey, Store.keyFor]
  refine ⟨primaryEq, ?_⟩
  constructor
  · exact traced.numbered.within.entries here
  · exact traced.allocated here
  · exact traced.admitted here
  · intro p g v arc there same
    exact traced.once there here same
  · intro names hrecord
    rw [primaryEq, Store.index_of_table, hindex, Option.some.injEq] at hrecord
    rw [hkey, Store.keyFor, hrecord]

/-- What a step returns to its caller is what a lookup found. -/
theorem mem_returned {σ : Observed} {event : Event} {entry : StaleEntry} {request : HeaderMap}
    (h : (entry, request) ∈ σ.returned event) :
    ∃ primary, σ.store.find primary request = some entry := by
  cases event with
  | lookup primary request' maxAge now =>
      simp only [returned, Store.lookup] at h
      cases hfind : σ.store.find primary request' with
      | none => simp [hfind, staleOf] at h
      | some found =>
          simp only [hfind, Option.map_some, Store.judge] at h
          split at h
          · cases h
          · obtain ⟨rfl, rfl⟩ := Prod.mk.inj (List.mem_singleton.mp h)
            exact ⟨primary, hfind⟩
  | _ => cases h

/-! ## What is still reached -/

/-- The response of a found entry is the one that its request reaches. -/
def Reached (σ : Observed) (entry : StaleEntry) (request : HeaderMap) : Prop :=
  ∃ found, σ.store.find entry.key.primary request = some found ∧
    found.response.ptr = entry.response.ptr

theorem Remembered.placed_at {σ : Observed} {entry : StaleEntry} {request : HeaderMap}
    (remembered : Remembered σ entry request) {key : ResponseKey} {arc : Arc StoredResponse}
    (h : σ.store.responseAt key = some arc) (same : arc.ptr = entry.response.ptr) :
    key = entry.key ∧ arc = entry.response := by
  obtain ⟨primary, generation, vary⟩ := key
  exact remembered.placed h same

/-- A live entry has its key under the index record's names. -/
theorem Remembered.find_of_live {σ : Observed} {entry : StaleEntry} {request : HeaderMap}
    (remembered : Remembered σ entry request) {index : Index}
    (hindex : σ.store.index entry.key.primary = some index)
    (live : index.generation = entry.key.generation) :
    σ.store.find entry.key.primary request =
      (σ.store.responseAt entry.key).map fun response => ⟨response, entry.key⟩ := by
  have record : σ.store.table.index entry.key.primary =
      some (index.vary, entry.key.generation) := by
    rw [Store.index_of_table, hindex, ← live]
  have key : Store.keyFor entry.key.primary index request = entry.key := by
    rw [Store.keyFor, live, ← remembered.values record]
  simp only [Store.find, hindex, Option.bind_eq_bind, Option.bind_some, key]
  cases σ.store.responseAt entry.key <;> rfl

theorem current_iff {store : Store} {entry : StaleEntry} :
    store.current entry = true ↔ ∃ response, store.responseAt entry.key = some response ∧
      response.ptr = entry.response.ptr := by
  cases h : store.responseAt entry.key <;> simp [Store.current, h]

/-- A request reaches a found entry when the index record has the entry's
generation and the entry's response is still in place. -/
theorem Remembered.reached_iff {σ : Observed} {entry : StaleEntry} {request : HeaderMap}
    (remembered : Remembered σ entry request) :
    Reached σ entry request ↔
      (∃ index, σ.store.index entry.key.primary = some index ∧
        index.generation = entry.key.generation) ∧ σ.store.current entry = true := by
  rw [current_iff]
  constructor
  · rintro ⟨found, hfind, same⟩
    obtain ⟨index, hindex, hkey, hresponse⟩ := Store.find_eq_some.mp hfind
    obtain ⟨keyEq, -⟩ := remembered.placed_at hresponse same
    have generation : index.generation = entry.key.generation := by
      rw [← keyEq, hkey, Store.keyFor]
    exact ⟨⟨index, hindex, generation⟩, found.response, keyEq ▸ hresponse, same⟩
  · rintro ⟨⟨index, hindex, live⟩, response, hresponse, same⟩
    refine ⟨⟨response, entry.key⟩, ?_, same⟩
    rw [remembered.find_of_live hindex live, hresponse, Option.map_some]

theorem lookup_of_put {store store' : Store} {primary : PrimaryKey} {names : List HeaderName}
    {request : HeaderMap} {arc : Arc StoredResponse}
    (moves : store.Moves store' (.put primary names (varyValues names request) arc))
    (maxAge : Option Duration) (now : Instant) :
    ∃ result, store'.lookup primary request maxAge now = some result ∧ result.response = arc := by
  have found : (store'.lookup primary request maxAge now).map Lookup.response = some arc := by
    rw [Store.lookup_response, Store.find_table, moves.table]
    exact Table.find_put _ _ _ (fun names => varyValues names request) _ _
  exact Option.map_eq_some_iff.mp found

/-! ## States that differ in what they cannot reach -/

/-- An operation that changes nothing a lookup can reach, and takes neither a
generation number nor an allocation. -/
structure Inert (table : ResponseTable) (op : TableOp) : Prop where
  alike : ∀ fresh, Table.Alike table (op.apply table fresh)
  takes : op.takes table = false
  allocations : Store.allocations op = 0

/-- Two states that lookups cannot tell apart, and in which the counters
stand alike. -/
structure SameView (σ τ : Observed) : Prop where
  left : Traced σ
  right : Traced τ
  alike : Table.Alike σ.store.table τ.store.table
  found : σ.found = τ.found
  taken : σ.taken = τ.taken
  arcs : σ.store.arcs = τ.store.arcs
  ttl : σ.store.ttl = τ.store.ttl
  maxEntry : σ.store.maxEntry = τ.store.maxEntry

theorem SameView.lookup {σ τ : Observed} (same : SameView σ τ) (primary : PrimaryKey)
    (request : HeaderMap) (maxAge : Option Duration) (now : Instant) :
    σ.store.lookup primary request maxAge now = τ.store.lookup primary request maxAge now :=
  Store.lookup_congr (congrFun same.alike.index primary)
    (fun _ live => congrFun (same.alike.entries live) _) maxAge now

theorem SameView.generation {σ τ : Observed} (same : SameView σ τ) :
    σ.store.generation = τ.store.generation := by
  rw [same.left.numbered.counter, same.taken, same.right.numbered.counter]

theorem SameView.index {σ τ : Observed} (same : SameView σ τ) (primary : PrimaryKey) :
    σ.store.index primary = τ.store.index primary := by
  have record := congrFun same.alike.index primary
  cases h : τ.store.index primary with
  | none => simpa [Store.table, h] using record
  | some index => rw [← Store.index_of_table, record, Store.index_of_table, h]

theorem SameView.insertOp {σ τ : Observed} (same : SameView σ τ) (primary : PrimaryKey)
    (vary : Vary) (policy : Storable) (status : StatusCode) (headers : Fields) (body : Bytes)
    (now : Clock) :
    σ.store.insertOp primary vary policy status headers body now =
      τ.store.insertOp primary vary policy status headers body now := by
  have admits : σ.store.admits body = τ.store.admits body := by
    simp only [Store.admits, Store.enabled, same.ttl, same.maxEntry]
  have response : σ.store.response policy status headers body now =
      τ.store.response policy status headers body now := by
    simp only [Store.response, same.ttl]
  rw [Store.insertOp, admits, response, same.arcs, Store.insertOp]

/-- Where the index record still has the entry's generation, both states hold
the same response at its key. -/
theorem SameView.current {σ τ : Observed} (same : SameView σ τ) {entry : StaleEntry}
    (live : ∃ index, τ.store.index entry.key.primary = some index ∧
      index.generation = entry.key.generation) :
    σ.store.current entry = τ.store.current entry := by
  obtain ⟨index, hindex, generation⟩ := live
  have entries := same.alike.entries (Store.index_of_table.mpr hindex)
  have response : σ.store.responseAt entry.key = τ.store.responseAt entry.key := by
    simp only [generation] at entries
    exact congrFun entries entry.key.vary
  rw [Store.current, response, Store.current]

theorem SameView.returned {σ τ : Observed} (same : SameView σ τ) (event : Event) :
    σ.returned event = τ.returned event := by
  cases event with
  | lookup => simp only [Observed.returned, same.lookup]
  | _ => rfl

/-! ## Steps -/

section

variable [HttpDate]

theorem Traced.step {σ σ' : Observed} {event : Event} (traced : Traced σ)
    (bounded : (σ.op event).takes σ.store.table = true → σ.taken < 2 ^ 64)
    (h : σ.step event = some σ') : Traced σ' := by
  have stepped := step_spec h
  have moves := stepped.moves
  have before {p g v arc} (h : σ.store.table.entries p g v = some arc) : arc.ptr < σ'.store.arcs := by
    rw [moves.arcs]
    exact (traced.allocated h).trans_le (Nat.le_add_right _ _)
  constructor
  · exact traced.numbered.step h
  · intro p g v arc there
    rw [moves.table] at there
    -- a stored response was there before, or it is the one just allocated
    obtain there | ⟨tag, put, -⟩ := Table.Op.entries_apply there
    · exact before there
    · rw [moves.arcs, (moves.allocated _ _ _ _ put).1, put, Store.allocations]
      exact Nat.lt_succ_self _
  · intro p g v arc q k w arc' there there' same
    rw [moves.table] at there there'
    obtain there | ⟨tag, put, hg⟩ := Table.Op.entries_apply there <;>
      obtain there' | ⟨tag', put', hk⟩ := Table.Op.entries_apply there'
    · exact traced.once there there' same
    -- the new response has a number that no stored one has
    · have old := traced.allocated there
      rw [same, (moves.allocated _ _ _ _ put').1] at old
      exact absurd old (Nat.lt_irrefl _)
    · have old := traced.allocated there'
      rw [← same, (moves.allocated _ _ _ _ put).1] at old
      exact absurd old (Nat.lt_irrefl _)
    · obtain ⟨rfl, rfl, rfl, rfl⟩ := Table.Op.put.inj (put.symm.trans put')
      exact ⟨by rw [hg, hk], rfl⟩
  · intro p g v arc there
    rw [moves.table] at there
    rw [moves.admits]
    obtain there | ⟨tag, put, -⟩ := Table.Op.entries_apply there
    · exact traced.admitted there
    · exact (moves.allocated _ _ _ _ put).2
  · intro entry request member
    rw [stepped.found, List.mem_append] at member
    have remembered : Remembered σ entry request := by
      obtain member | member := member
      · exact traced.found entry request member
      · obtain ⟨primary, hfind⟩ := mem_returned member
        exact (traced.remembered_of_find hfind).2
    exact remembered.moves traced.numbered moves (taken_le h) bounded

/-- A step within the bound gives out no number twice. -/
theorem bounded_step {σ σ' : Observed} {event : Event} (h : σ.step event = some σ')
    (bounded : σ'.taken ≤ 2 ^ 64) :
    σ.taken ≤ 2 ^ 64 ∧ ((σ.op event).takes σ.store.table = true → σ.taken < 2 ^ 64) := by
  refine ⟨(taken_le h).trans bounded, fun takes => ?_⟩
  have counted := (step_spec h).taken
  rw [if_pos takes] at counted
  omega

theorem taken_le_run {σ σ' : Observed} {events : List Event}
    (run : Runs.run step σ events = some σ') : σ.taken ≤ σ'.taken :=
  Runs.invariant_run (I := fun τ => σ.taken ≤ τ.taken) (fun _ _ _ le h => le.trans (taken_le h))
    (Nat.le_refl _) run

theorem Traced.run {σ σ' : Observed} {events : List Event} (traced : Traced σ)
    (run : Runs.run Observed.step σ events = some σ') (bounded : σ'.taken ≤ 2 ^ 64) :
    Traced σ' := by
  have kept : σ'.taken ≤ 2 ^ 64 → Traced σ' := by
    refine Runs.invariant_run (I := fun τ => τ.taken ≤ 2 ^ 64 → Traced τ) ?_ (fun _ => traced) run
    intro τ event τ' kept h bounded
    obtain ⟨before, numbers⟩ := bounded_step h bounded
    exact (kept before).step numbers h
  exact kept bounded

/-! ## The condition -/

/-- The index record still has the generation of the found entry, or another
response has taken the entry's place, or the 304 makes it unstorable. -/
def FreshenSound (σ : Observed) (entry : StaleEntry) (request : HeaderMap)
    (requestPolicy : RequestPolicy) (update : Fields) (age : Option HeaderValue)
    (now : Clock) : Prop :=
  (∃ index, σ.store.index entry.key.primary = some index ∧
      index.generation = entry.key.generation) ∨
    σ.store.current entry = false ∨
    storable requestPolicy request entry.response.val.status
      (Store.freshenMap entry.response.val update age) now = none

/-- No call takes a generation number that has been given out before, and
each `freshen` meets `FreshenSound`. -/
def Sound (σ : Observed) (event : Event) : Prop :=
  ((σ.op event).takes σ.store.table = true → σ.taken < 2 ^ 64) ∧
    ∀ found requestPolicy update age now entry request,
      event = .freshen found requestPolicy update age now →
      σ.found[found]? = some (entry, request) →
      FreshenSound σ entry request requestPolicy update age now

/-! ## Runs side by side -/

/-- A sound `freshen` of an entry whose generation the index has left does
nothing that could be seen. -/
theorem freshenOp_inert {σ : Observed} {entry : StaleEntry} {request : HeaderMap}
    {requestPolicy : RequestPolicy} {update : Fields} {age : Option HeaderValue} {now : Clock}
    (sound : FreshenSound σ entry request requestPolicy update age now)
    (dead : ¬ ∃ index, σ.store.index entry.key.primary = some index ∧
      index.generation = entry.key.generation) :
    Inert σ.store.table (σ.store.freshenOp entry requestPolicy request update age now) := by
  have unreachable : σ.store.table.liveGeneration entry.key.primary ≠ some entry.key.generation := by
    intro live
    obtain ⟨record, hrecord, same⟩ := Option.map_eq_some_iff.mp live
    exact dead ⟨⟨record.1, record.2⟩, Store.index_of_table.mp hrecord, same⟩
  have skips : Inert σ.store.table .skip := ⟨fun _ => .refl _, rfl, rfl⟩
  unfold Store.freshenOp
  obtain live | replaced | unstorable := sound
  · exact absurd live dead
  · simpa only [replaced, Bool.false_eq_true, if_false] using skips
  · simp only [unstorable]
    split
    · exact ⟨fun _ => Table.alike_evict_of_not_live unreachable _, rfl, rfl⟩
    · exact skips

/-- One event does the same to both, as far as anything can reach. -/
structure SameEffect (σ τ : Observed) (event : Event) : Prop where
  alike : Table.Alike ((σ.op event).apply σ.store.table σ.store.generation)
    ((τ.op event).apply τ.store.table τ.store.generation)
  takes : (σ.op event).takes σ.store.table = (τ.op event).takes τ.store.table
  allocations : Store.allocations (σ.op event) = Store.allocations (τ.op event)

theorem SameView.effect_of_eq {σ τ : Observed} {event : Event} (same : SameView σ τ)
    (sound : Sound τ event) (hop : σ.op event = τ.op event) : SameEffect σ τ event := by
  have takes : (τ.op event).takes σ.store.table = (τ.op event).takes τ.store.table := by
    cases τ.op event with
    | put p tag v r => exact same.alike.takes p tag
    | _ => rfl
  refine ⟨?_, by rw [hop, takes], by rw [hop]⟩
  rw [hop, same.generation]
  refine same.alike.apply _ (fun h => ?_) (fun h => ?_)
  · rw [← same.generation]
    refine same.left.numbered.unused ?_
    rw [same.taken]
    exact sound.1 (takes ▸ h)
  · exact same.right.numbered.unused (sound.1 h)

theorem SameView.effect {σ τ : Observed} {event : Event} (same : SameView σ τ)
    (soundLeft : Sound σ event) (soundRight : Sound τ event) : SameEffect σ τ event := by
  cases event with
  | freshen found requestPolicy update age now =>
      cases hfound : τ.found[found]? with
      | none => exact same.effect_of_eq soundRight (by simp only [op, same.found, hfound])
      | some pair =>
          obtain ⟨entry, request⟩ := pair
          have hfound' : σ.found[found]? = some (entry, request) := by rw [same.found, hfound]
          by_cases live : ∃ index, τ.store.index entry.key.primary = some index ∧
              index.generation = entry.key.generation
          · refine same.effect_of_eq soundRight ?_
            simp only [op, hfound, hfound', Store.freshenOp, same.current live, same.insertOp]
          · have inertLeft := freshenOp_inert
              (soundLeft.2 _ _ _ _ _ _ _ rfl hfound') (by rwa [same.index])
            have inertRight := freshenOp_inert (soundRight.2 _ _ _ _ _ _ _ rfl hfound) live
            constructor <;> simp only [op, hfound, hfound']
            · exact (inertLeft.alike _).symm.trans (same.alike.trans (inertRight.alike _))
            · rw [inertLeft.takes, inertRight.takes]
            · rw [inertLeft.allocations, inertRight.allocations]
  | insertResponse =>
      exact same.effect_of_eq soundRight (same.insertOp ..)
  | evictEntry key => cases key <;> exact same.effect_of_eq soundRight rfl
  | _ => exact same.effect_of_eq soundRight rfl

theorem SameView.step {σ τ σ' τ' : Observed} {event : Event} (same : SameView σ τ)
    (soundLeft : Sound σ event) (soundRight : Sound τ event) (h : σ.step event = some σ')
    (h' : τ.step event = some τ') : SameView σ' τ' := by
  have left := step_spec h
  have right := step_spec h'
  have effect := same.effect soundLeft soundRight
  exact
    { left := same.left.step soundLeft.1 h
      right := same.right.step soundRight.1 h'
      alike := by
        rw [left.moves.table, right.moves.table]
        exact effect.alike
      found := by rw [left.found, right.found, same.found, same.returned]
      taken := by rw [left.taken, right.taken, same.taken, effect.takes]
      arcs := by rw [left.moves.arcs, right.moves.arcs, same.arcs, effect.allocations]
      ttl := by rw [left.moves.ttl, right.moves.ttl, same.ttl]
      maxEntry := by rw [left.moves.maxEntry, right.moves.maxEntry, same.maxEntry] }

/-- Two runs over the same events, all of them sound, that start from states
no lookup can tell apart end in such states. -/
theorem SameView.run {σ τ σ' τ' : Observed} {events : List Event} (same : SameView σ τ)
    (along : Runs.Along Observed.step Sound σ events)
    (along' : Runs.Along Observed.step Sound τ events)
    (h : Runs.run Observed.step σ events = some σ')
    (h' : Runs.run Observed.step τ events = some τ') : SameView σ' τ' :=
  Runs.related_run (fun _ _ _ _ _ same sound sound' h h' => same.step sound sound' h h') same
    along along' h h'

/-! ## What `freshen` should do -/

/-- Whatever sound calls follow, lookups are as if the step from `σ` to `σ'`
had not happened. -/
def Unnoticed (σ σ' : Observed) : Prop :=
  ∀ later τ τ', Runs.Along step Sound σ later → Runs.Along step Sound σ' later →
    Runs.run step σ later = some τ → Runs.run step σ' later = some τ' →
    ∀ primary request maxAge now,
      τ'.store.lookup primary request maxAge now = τ.store.lookup primary request maxAge now

/-- The request of a found entry now gets its body with the updated fields,
and nothing else has changed. -/
structure Updated (σ σ' : Observed) (entry : StaleEntry) (request : HeaderMap)
    (update : Fields) (vary : Vary) : Prop where
  found : ∀ maxAge now, ∃ result,
    σ'.store.lookup entry.key.primary request maxAge now = some result ∧
      result.response.val.status = entry.response.val.status ∧
      result.response.val.body = entry.response.val.body ∧
      result.response.val.headers = updatedFields entry.response.val.headers update
  others : ∀ primary, primary ≠ entry.key.primary → ∀ other maxAge now,
    σ'.store.lookup primary other maxAge now = σ.store.lookup primary other maxAge now
  variants : ∀ index, σ.store.index entry.key.primary = some index → index.vary = vary.names →
    ∀ other maxAge now, varyValues vary.names other ≠ varyValues vary.names request →
      σ'.store.lookup entry.key.primary other maxAge now =
        σ.store.lookup entry.key.primary other maxAge now

/-- `freshen` touches a found entry only while its request reaches it. -/
structure FreshenOk (σ σ' : Observed) (entry : StaleEntry) (request : HeaderMap)
    (requestPolicy : RequestPolicy) (update : Fields) (age : Option HeaderValue)
    (now : Clock) : Prop where
  unreached : ¬ Reached σ entry request → Unnoticed σ σ'
  reached : Reached σ entry request → ∀ policy vary,
    storable requestPolicy request entry.response.val.status
      (Store.freshenMap entry.response.val update age) now = some (policy, vary) →
    Updated σ σ' entry request update vary

/-- An updated response that may be stored is put under the entry's primary
key. -/
theorem freshenOp_put {σ : Observed} {entry : StaleEntry} {request : HeaderMap}
    {requestPolicy : RequestPolicy} {update : Fields} {age : Option HeaderValue} {now : Clock}
    {policy : Storable} {vary : Vary} (admitted : σ.store.admits entry.response.val.body = true)
    (current : σ.store.current entry = true)
    (accepted : storable requestPolicy request entry.response.val.status
      (Store.freshenMap entry.response.val update age) now = some (policy, vary)) :
    ∃ arc : Arc StoredResponse, arc.val.status = entry.response.val.status ∧
      arc.val.body = entry.response.val.body ∧
      arc.val.headers = updatedFields entry.response.val.headers update ∧
      σ.store.freshenOp entry requestPolicy request update age now =
        .put entry.key.primary vary.names (varyValues vary.names request) arc := by
  obtain ⟨_, _, spec⟩ := storable_spec accepted
  simp only [Store.freshenOp, current, if_true, accepted, Store.insertOp, admitted,
    spec.values]
  exact ⟨⟨σ.store.arcs, σ.store.response policy entry.response.val.status
    (updatedFields entry.response.val.headers update) entry.response.val.body now⟩,
    rfl, rfl, rfl, rfl⟩

/-- A step whose operation is inert goes unnoticed. -/
theorem unnoticed_of_inert {σ σ' : Observed} {event : Event} (traced : Traced σ)
    (inert : Inert σ.store.table (σ.op event)) (returns : σ.returned event = [])
    (h : σ.step event = some σ') : Unnoticed σ σ' := by
  have stepped := step_spec h
  have same : SameView σ σ' :=
    { left := traced
      right := traced.step (fun takes => by simp [inert.takes] at takes) h
      alike := stepped.moves.table ▸ inert.alike _
      found := by rw [stepped.found, returns, List.append_nil]
      taken := by rw [stepped.taken, inert.takes]; rfl
      arcs := by rw [stepped.moves.arcs, inert.allocations]; rfl
      ttl := stepped.moves.ttl.symm
      maxEntry := stepped.moves.maxEntry.symm }
  intro later τ τ' along along' run run' primary request maxAge now
  exact ((same.run along along' run run').lookup ..).symm

/-- A found entry that is in place and storable, but whose generation the
index has left, is brought back. -/
theorem noticed_of_put {σ σ' : Observed} {event : Event} (traced : Traced σ)
    {primary : PrimaryKey} {names : List HeaderName} {request : HeaderMap}
    {arc : Arc StoredResponse} (put : σ.op event = .put primary names (varyValues names request) arc)
    (h : σ.step event = some σ') : ¬ Unnoticed σ σ' := by
  intro unnoticed
  have stepped := step_spec h
  have moves := stepped.moves
  rw [put] at moves
  let now : Instant := ⟨0, by decide⟩
  obtain ⟨result, after, response⟩ := lookup_of_put moves none now
  have before := unnoticed [] σ σ' trivial trivial rfl rfl primary request none now
  rw [after] at before
  -- the allocation is new, so no lookup could have found it before the step
  have found : (σ.store.find primary request).map StaleEntry.response = some arc := by
    rw [← Store.lookup_response σ.store primary request none now, ← before, Option.map_some,
      response]
  obtain ⟨entry, hfind, rfl⟩ := Option.map_eq_some_iff.mp found
  have old := (traced.remembered_of_find hfind).2.allocated
  rw [(moves.allocated _ _ _ _ rfl).1] at old
  exact Nat.lt_irrefl _ old

theorem updated_of_reached {σ σ' : Observed} {entry : StaleEntry} {request : HeaderMap}
    {requestPolicy : RequestPolicy} {update : Fields} {age : Option HeaderValue} {now : Clock}
    {found : Nat} {policy : Storable} {vary : Vary} (remembered : Remembered σ entry request)
    (returned : σ.found[found]? = some (entry, request)) (reached : Reached σ entry request)
    (accepted : storable requestPolicy request entry.response.val.status
      (Store.freshenMap entry.response.val update age) now = some (policy, vary))
    (h : σ.step (.freshen found requestPolicy update age now) = some σ') :
    Updated σ σ' entry request update vary := by
  obtain ⟨-, current⟩ := remembered.reached_iff.mp reached
  obtain ⟨arc, status, body, headers, put⟩ := freshenOp_put remembered.admitted current accepted
  have moves := (step_spec h).moves
  simp only [op, returned, put] at moves
  constructor
  · intro maxAge at'
    obtain ⟨result, hlookup, rfl⟩ := lookup_of_put moves maxAge at'
    exact ⟨result, hlookup, status, body, headers⟩
  · intro primary different other maxAge at'
    refine lookup_of_ne h ?_ other maxAge at'
    simpa only [about, returned, Option.map_some, ne_eq, Option.some.injEq] using different.symm
  · intro index hindex names other maxAge at' values
    rw [Store.lookup, Store.lookup, moves.find_of_put hindex names values]

/-! ## The exact condition -/

/-- In every state that calls lead to, whatever freshens are among them,
`freshen` does what it should with a found entry if and only if
`FreshenSound` holds of it. -/
theorem freshen_ok_iff {sizeMb : UInt64} {ttl : Duration} {events : List Event}
    {σ σ' : Observed} {found : Nat} {entry : StaleEntry} {request : HeaderMap}
    {requestPolicy : RequestPolicy} {update : Fields} {age : Option HeaderValue} {now : Clock}
    (run : Runs.run step (start sizeMb ttl) events = some σ)
    (bounded : σ.taken ≤ 2 ^ 64) (returned : σ.found[found]? = some (entry, request))
    (h : σ.step (.freshen found requestPolicy update age now) = some σ') :
    FreshenOk σ σ' entry request requestPolicy update age now ↔
      FreshenSound σ entry request requestPolicy update age now := by
  have traced := (traced_start sizeMb ttl).run run bounded
  have remembered := traced.found entry request (List.mem_of_getElem? returned)
  have hop : σ.op (.freshen found requestPolicy update age now) =
      σ.store.freshenOp entry requestPolicy request update age now := by
    simp only [op, returned]
  constructor
  · intro ok
    by_contra unsound
    simp only [FreshenSound, not_or, Bool.not_eq_false, Option.ne_none_iff_exists'] at unsound
    -- the call puts a response where its record no longer leads
    obtain ⟨dead, current, ⟨policy, vary⟩, accepted⟩ := unsound
    have unreached : ¬ Reached σ entry request :=
      fun reached => dead (remembered.reached_iff.mp reached).1
    obtain ⟨arc, -, -, -, put⟩ := freshenOp_put remembered.admitted current accepted
    exact noticed_of_put traced (hop.trans put) h (ok.unreached unreached)
  · intro sound
    refine ⟨fun unreached => ?_, fun reached policy vary accepted =>
      updated_of_reached remembered returned reached accepted h⟩
    -- out of reach the call has replaced nothing, or nothing that a record leads to
    have inert : Inert σ.store.table
        (σ.store.freshenOp entry requestPolicy request update age now) := by
      by_cases live : ∃ index, σ.store.index entry.key.primary = some index ∧
          index.generation = entry.key.generation
      · have replaced : σ.store.current entry = false := by
          have := mt remembered.reached_iff.mpr unreached
          simpa [live] using this
        simp only [Store.freshenOp, replaced, Bool.false_eq_true, if_false]
        exact ⟨fun _ => .refl _, rfl, rfl⟩
      · exact freshenOp_inert sound live
    exact unnoticed_of_inert traced (hop ▸ inert) rfl h

end

/-! ## A late 304 -/

/-- A response with an `ETag` is stored, found stale a minute later, and
invalidated. -/
def lateEvents : List Event :=
  [.insertResponse examplePrimary ⟨[], []⟩ examplePolicy .ok
      [(header.cacheControl, maxAgeMinute), (header.etag, tagA)] [] exampleClock,
    .lookup examplePrimary [] none afterMinute,
    .invalidate examplePrimary]

/-- The origin's 304 for the request that found the response stale. -/
def lateFreshen : Event := .freshen 0 (RequestPolicy.new .get []) [] none nextMinute

set_option maxRecDepth 4000 in
/-- Without the invalidation the 304 updates the entry as it should. -/
theorem freshen_ok_iff_example : ∃ (_ : HttpDate) (σ σ' : Observed) (entry : StaleEntry),
    Runs.run step exampleStart (lateEvents.take 2) = some σ ∧ σ.found[0]? = some (entry, []) ∧
      σ.step lateFreshen = some σ' ∧
      FreshenOk σ σ' entry [] (RequestPolicy.new .get []) [] none nextMinute := by
  let dates : HttpDate := ⟨fun _ => none⟩
  obtain ⟨σ, entry, hrun, bounded, hfound, live⟩ : ∃ (σ : Observed) (entry : StaleEntry),
      Runs.run step exampleStart (lateEvents.take 2) = some σ ∧ σ.taken ≤ 2 ^ 64 ∧
        σ.found[0]? = some (entry, []) ∧
        ∃ index, σ.store.index entry.key.primary = some index ∧
          index.generation = entry.key.generation := ⟨_, _, rfl, by decide, rfl, _, rfl, rfl⟩
  obtain ⟨σ', hstep⟩ : ∃ σ', σ.step lateFreshen = some σ' := by
    simp [step, after, lateFreshen, hfound]
  exact ⟨dates, σ, σ', entry, hrun, hfound, hstep,
    (freshen_ok_iff hrun bounded hfound hstep).mpr (.inl live)⟩

set_option maxRecDepth 4000 in
/-- The late 304 stores the invalidated response again, which the store still
holds for the sake of its `ETag`. -/
theorem freshen_revives_invalidated : ∃ (_ : HttpDate) (σ σ' : Observed) (entry : StaleEntry),
    Runs.run step exampleStart lateEvents = some σ ∧ σ.found[0]? = some (entry, []) ∧
      entry.response.val.elapsed afterMinute < entryTtl (.response entry.response) ∧
      ¬ Reached σ entry [] ∧ σ.step lateFreshen = some σ' ∧
      σ.store.lookup examplePrimary [] none afterMinute = none ∧
      (σ'.store.lookup examplePrimary [] none afterMinute).isSome = true ∧
      ¬ FreshenOk σ σ' entry [] (RequestPolicy.new .get []) [] none nextMinute := by
  let dates : HttpDate := ⟨fun _ => none⟩
  obtain ⟨σ, σ', entry, hrun, hfound, held, gone, hstep, missed, revived⟩ :
      ∃ (σ σ' : Observed) (entry : StaleEntry),
        Runs.run step exampleStart lateEvents = some σ ∧ σ.found[0]? = some (entry, []) ∧
          entry.response.val.elapsed afterMinute < entryTtl (.response entry.response) ∧
          σ.store.find entry.key.primary [] = none ∧ σ.step lateFreshen = some σ' ∧
          σ.store.lookup examplePrimary [] none afterMinute = none ∧
          (σ'.store.lookup examplePrimary [] none afterMinute).isSome = true :=
    ⟨_, _, _, rfl, rfl, by decide, rfl, rfl, rfl, rfl⟩
  have unreached : ¬ Reached σ entry [] := by
    rintro ⟨found, hfind, -⟩
    rw [gone] at hfind
    cases hfind
  refine ⟨dates, σ, σ', entry, hrun, hfound, held, unreached, hstep, missed, revived,
    fun ok => ?_⟩
  have same := ok.unreached unreached [] σ σ' trivial trivial rfl rfl examplePrimary [] none
    afterMinute
  rw [same, missed] at revived
  cases revived

end Observed

end Shadowstep
