import Shadowstep.Cache.Freshen
import Shadowstep.Cache.Lifetimes
import Shadowstep.Proxy.Forward
import Shadowstep.Proxy.HopByHop

/-!
# Whom a freshened response answers

`store_plan` reads the `Vary` names of the origin's head, and `freshen` those
of the stored fields. The two agree unless the head's `Connection` lists
`Vary`, which then is not among the stored fields: the freshened response has
no names, and answers every request for its URI.

* `Settled` — one allocation, its names and its values, through any run;
* `varyNames_freshenMap` — what `freshen` reads;
* `audience_kept_iff` — when a 304 leaves the audience as it was.
-/

namespace Shadowstep

open Rust Generations

namespace Observed

/-! ## One allocation -/

/-- Wherever an allocation is or was found, its key has the values, and an
index record that leads to it has the names. -/
structure Settled (σ : Observed) (names : List HeaderName) (values : VaryValues) (ptr : Nat) :
    Prop where
  allocated : ptr < σ.store.arcs
  placed : ∀ {p g v arc}, σ.store.table.entries p g v = some arc → arc.ptr = ptr →
    v = values ∧ ∀ tag, σ.store.table.index p = some (tag, g) → tag = names
  found : ∀ entry request, (entry, request) ∈ σ.found → entry.response.ptr = ptr →
    varyValues names request = values

/-- A lookup returns the allocation to requests with its values only. -/
theorem Settled.find {σ : Observed} {names : List HeaderName} {values : VaryValues} {ptr : Nat}
    (settled : Settled σ names values ptr) {primary : PrimaryKey} {request : HeaderMap}
    {entry : StaleEntry} (h : σ.store.find primary request = some entry)
    (same : entry.response.ptr = ptr) : varyValues names request = values := by
  rcases Store.find_eq_some.mp h with ⟨index, hindex, hkey, hresponse⟩
  have here : σ.store.table.entries primary index.generation (varyValues index.vary request) =
      some entry.response := by
    rw [hkey] at hresponse
    exact hresponse
  rcases settled.placed here same with ⟨rfl, leads⟩
  rw [leads index.vary (Store.index_of_table.mpr hindex)]

theorem Settled.lookup {σ : Observed} {names : List HeaderName} {values : VaryValues} {ptr : Nat}
    (settled : Settled σ names values ptr) {primary : PrimaryKey} {request : HeaderMap}
    {maxAge : Option Duration} {now : Instant} {result : Lookup}
    (h : σ.store.lookup primary request maxAge now = some result)
    (same : result.response.ptr = ptr) : varyValues names request = values := by
  rcases Option.map_eq_some_iff.mp h with ⟨entry, hfind, rfl⟩
  rw [Store.judge_response] at same
  exact settled.find hfind same

/-! ## Names of stored fields -/

theorem varyNames_of_none {fields : HeaderMap} (absent : fields.getAll header.vary = []) :
    varyNames fields = some [] :=
  calc varyNames fields = varyNames [] := varyNames_congr absent
    _ = some [] := rfl

/-- `Connection` lists `Vary`. -/
def VaryListed (head : Head) : Prop :=
  header.vary.asStr ∈ connectionOptions (head.map.getAll header.connection)

instance (head : Head) : Decidable (VaryListed head) :=
  inferInstanceAs (Decidable (header.vary.asStr ∈ connectionOptions _))

/-- The fields of a 304 that has no `Vary`, as they are stored. -/
theorem update_noVary {head : Head} (noVary : head.map.containsKey header.vary = false) :
    HeaderMap.containsKey (storedFields (forwardableFields head)) header.vary = false := by
  have absent : head.map.getAll header.vary = [] := by
    rw [HeaderMap.containsKey_eq_getAll] at noVary
    simpa using noVary
  rw [HeaderMap.containsKey_eq_getAll, getAll_stored head (by decide) (by decide) (by decide),
    absent, ite_self]
  rfl

/-- What `freshen` judges after a 304 without `Vary` has the names of the
origin's head, or none. -/
theorem varyNames_freshenMap {stored : StoredResponse} {head : Head}
    (fields : stored.headers = storedFields (forwardableFields head)) {update : Fields}
    (noVary : HeaderMap.containsKey update header.vary = false) (age : Option HeaderValue) :
    (VaryListed head → varyNames (Store.freshenMap stored update age) = some []) ∧
      (¬ VaryListed head →
        varyNames (Store.freshenMap stored update age) = varyNames head.map) := by
  have kept : HeaderMap.getAll (Store.freshenMap stored update age) header.vary =
      if header.vary.asStr ∈ connectionOptions (head.map.getAll header.connection) then []
      else head.map.getAll header.vary := by
    rw [getAll_freshenMap (by decide), getAll_updatedFields, if_neg (by simp [noVary]), fields,
      getAll_stored head (by decide) (by decide) (by decide)]
  constructor
  · intro listed
    exact varyNames_of_none (kept.trans (if_pos listed))
  · intro unlisted
    exact varyNames_congr (kept.trans (if_neg unlisted))

/-- Requests differ in the values of any names. -/
theorem exists_other_values {names : List HeaderName} (some_name : names ≠ [])
    (request : HeaderMap) : ∃ other, varyValues names other ≠ varyValues names request := by
  cases names with
  | nil => exact absurd rfl some_name
  | cons name rest =>
    cases value : varyValue request name with
    | none =>
      refine ⟨[(name, ⟨[], by simp⟩)], fun same => ?_⟩
      have first : varyValue [(name, ⟨[], by simp⟩)] name = varyValue request name :=
        (List.cons.inj same).1
      rw [value] at first
      simp [varyValue, HeaderMap.getAll] at first
    | some text =>
      refine ⟨[], fun same => ?_⟩
      have first : varyValue [] name = varyValue request name := (List.cons.inj same).1
      rw [value] at first
      simp [varyValue] at first

/-! ## Runs -/

section

variable [HttpDate]

/-- A step allocates at the counter, so it moves no allocation. -/
theorem Settled.step {σ σ' : Observed} {event : Event} {names : List HeaderName}
    {values : VaryValues} {ptr : Nat} (settled : Settled σ names values ptr) (traced : Traced σ)
    (h : σ.step event = some σ') (bounded : σ'.taken ≤ 2 ^ 64) : Settled σ' names values ptr := by
  have stepped := step_spec h
  have moves := stepped.moves
  constructor
  · rw [moves.arcs]
    exact settled.allocated.trans_le (Nat.le_add_right _ _)
  · intro p g v arc there same
    rw [moves.table] at there ⊢
    rcases Table.Op.entries_apply there with before | ⟨tag, put, -⟩
    · rcases settled.placed before same with ⟨hvalues, leads⟩
      refine ⟨hvalues, fun tag record => ?_⟩
      rcases Table.Op.index_apply record with old | ⟨takes, fresh⟩
      · exact leads tag old
      · -- the generation of a stored entry is not given out again
        have taken := traced.numbered.within.entries before
        rw [fresh, traced.numbered.counter] at taken
        exact absurd taken (not_mem_numbers ((bounded_step h bounded).2 takes))
    · -- what is put has a later allocation
      have new := (moves.allocated _ _ _ _ put).1
      have old := settled.allocated
      omega
  · intro entry request member same
    rw [stepped.found, List.mem_append] at member
    rcases member with before | returned
    · exact settled.found entry request before same
    · rcases mem_returned returned with ⟨primary, hfind⟩
      exact settled.find hfind same

theorem Settled.run {σ σ' : Observed} {events : List Event} {names : List HeaderName}
    {values : VaryValues} {ptr : Nat} (settled : Settled σ names values ptr) (traced : Traced σ)
    (run : Runs.run Observed.step σ events = some σ') (bounded : σ'.taken ≤ 2 ^ 64) :
    Settled σ' names values ptr := by
  have kept : σ'.taken ≤ 2 ^ 64 → Traced σ' ∧ Settled σ' names values ptr := by
    refine Runs.invariant_run (I := fun τ => τ.taken ≤ 2 ^ 64 →
      Traced τ ∧ Settled τ names values ptr) ?_ (fun _ => ⟨traced, settled⟩) run
    intro τ event τ' kept h bounded
    rcases bounded_step h bounded with ⟨before, numbers⟩
    rcases kept before with ⟨traced, settled⟩
    exact ⟨traced.step numbers h, settled.step traced h bounded⟩
  exact (kept bounded).2

/-- What a step puts is settled. -/
theorem Settled.of_put {σ σ' : Observed} {event : Event} {primary : PrimaryKey}
    {names : List HeaderName} {values : VaryValues} {arc : Arc StoredResponse}
    (traced : Traced σ) (h : σ.step event = some σ')
    (put : σ.op event = .put primary names values arc) : Settled σ' names values arc.ptr := by
  have stepped := step_spec h
  have moves := stepped.moves
  have new := (moves.allocated _ _ _ _ put).1
  have index : σ'.store.table.index primary =
      some (names, σ.store.table.generationFor primary names σ.store.generation) := by
    rw [moves.table, put]
    exact Function.update_self primary _ σ.store.table.index
  -- an allocation that was there before has a smaller number
  have placed {p : PrimaryKey} {g : UInt64} {v : VaryValues} {other : Arc StoredResponse}
      (there : σ'.store.table.entries p g v = some other) (same : other.ptr = arc.ptr) :
      p = primary ∧ v = values ∧
        g = σ.store.table.generationFor primary names σ.store.generation := by
    rw [moves.table] at there
    rcases Table.Op.entries_apply there with before | ⟨tag, put', generation⟩
    · have old := traced.allocated before
      omega
    · rw [put] at put'
      rcases Table.Op.put.inj put' with ⟨rfl, rfl, rfl, -⟩
      exact ⟨rfl, rfl, generation⟩
  constructor
  · rw [moves.arcs, new, put]
    exact Nat.lt_succ_self _
  · intro p g v other there same
    rcases placed there same with ⟨rfl, rfl, rfl⟩
    refine ⟨rfl, fun tag record => ?_⟩
    rw [index] at record
    exact (congrArg Prod.fst (Option.some.inj record)).symm
  · intro entry request member same
    rw [stepped.found, List.mem_append] at member
    rcases member with before | returned
    · have old := (traced.found entry request before).allocated
      omega
    · rcases mem_returned returned with ⟨primary, hfind⟩
      have old := (traced.remembered_of_find hfind).2.allocated
      omega

/-! ## A response and its 304 -/

/-- How the callback of `store_plan` stores a response. -/
def storingEvent (storing : Storing) (head : Head) (body : Bytes) (now : Clock) : Event :=
  .insertResponse storing.primary storing.vary storing.policy head.status
    (storedFields (forwardableFields head)) body now

/-- How a 304 freshens an entry. -/
def notModifiedEvent (found : Nat) (requestPolicy : RequestPolicy) (head : Head) (now : Clock) :
    Event :=
  .freshen found requestPolicy (storedFields (forwardableFields head))
    (head.map.get header.age) now

/-- Whatever follows the step from `σ` to `σ'`, neither the response `ptr` nor
one that the step has stored answers a request whose values for the `Vary`
names of `head` differ from `first`'s. -/
def KeepsAudience (σ σ' : Observed) (ptr : Nat) (head : Head) (first : HeaderMap) : Prop :=
  ∀ later τ, Runs.run step σ' later = some τ → τ.taken ≤ 2 ^ 64 →
    ∀ primary request maxAge now result,
      τ.store.lookup primary request maxAge now = some result →
      (result.response.ptr = ptr ∨
        σ.store.arcs ≤ result.response.ptr ∧ result.response.ptr < σ'.store.arcs) →
      ∀ names, varyNames head.map = some names →
        varyValues names request = varyValues names first

/-- What `store_plan` has read of a head. -/
theorem storePlan_spec {actor : Actor} {store : Store} {req : HttpRequest} {head : Head}
    {now : Clock} {storing : Storing} (plan : (storePlan actor store req head now).1 = some storing) :
    varyNames head.map = some storing.vary.names ∧
      storing.vary.values = varyValues storing.vary.names req.headers := by
  have judged : ∃ policy vary, storable (.new req.method req.headers) req.headers head.status
      head.map now = some (policy, vary) ∧ storing.vary = vary := by
    unfold storePlan at plan
    rcases Option.map_eq_some_iff.mp plan with ⟨⟨policy, vary⟩, accepted, rfl⟩
    exact ⟨policy, vary, accepted, rfl⟩
  rcases judged with ⟨policy, vary, accepted, rfl⟩
  rcases storable_spec accepted with ⟨_, _, spec⟩
  exact ⟨spec.names, spec.values⟩

/-- The step that stores a response settles it. -/
theorem Settled.of_stored {σ σ' : Observed} {storing : Storing} {head : Head} {body : Bytes}
    {now : Clock} {arc : Arc StoredResponse} (traced : Traced σ)
    (stored : (σ.store.insertResponse storing.primary storing.vary storing.policy head.status
      (storedFields (forwardableFields head)) body now).1 = some arc)
    (h : σ.step (storingEvent storing head body now) = some σ') :
    Settled σ' storing.vary.names storing.vary.values arc.ptr ∧
      arc.val.headers = storedFields (forwardableFields head) ∧ arc.val.status = head.status := by
  cases admits : σ.store.admits body with
  | false =>
    rw [Store.insertResponse_of_not_admits admits] at stored
    cases stored
  | true =>
    rcases Store.insertResponse_of_admits admits storing.primary storing.vary storing.policy
      head.status (storedFields (forwardableFields head)) now with ⟨store', inserted, -⟩
    rw [inserted] at stored
    obtain rfl := Option.some.inj stored
    have put : σ.op (storingEvent storing head body now) =
        .put storing.primary storing.vary.names storing.vary.values ⟨σ.store.arcs,
          σ.store.response storing.policy head.status (storedFields (forwardableFields head))
            body now⟩ := by
      simp only [op, storingEvent, Store.insertOp, admits, if_true]
    exact ⟨Settled.of_put traced h put, rfl, rfl⟩

/-- `freshen` allocates for an entry that is in place and may still be stored. -/
theorem freshenOp_allocates {store : Store} {entry : StaleEntry} {requestPolicy : RequestPolicy}
    {request : HeaderMap} {update : Fields} {age : Option HeaderValue} {now : Clock}
    (h : 0 < Store.allocations (store.freshenOp entry requestPolicy request update age now)) :
    store.current entry = true ∧ ∃ accepted, storable requestPolicy request
      entry.response.val.status (Store.freshenMap entry.response.val update age) now =
        some accepted := by
  unfold Store.freshenOp at h
  simp only at h
  split at h
  case isTrue current =>
    split at h
    case h_1 policy vary accepted => exact ⟨current, ⟨policy, vary⟩, accepted⟩
    case h_2 => cases h
  case isFalse => cases h

/-- What a `freshen` allocates is settled under the names it has read. -/
theorem Settled.of_freshened {σ σ' : Observed} {found : Nat} {entry : StaleEntry}
    {request : HeaderMap} {requestPolicy : RequestPolicy} {update : Fields}
    {age : Option HeaderValue} {now : Clock} {policy : Storable} {vary : Vary}
    (traced : Traced σ) (returned : σ.found[found]? = some (entry, request))
    (h : σ.step (.freshen found requestPolicy update age now) = some σ')
    (current : σ.store.current entry = true)
    (accepted : storable requestPolicy request entry.response.val.status
      (Store.freshenMap entry.response.val update age) now = some (policy, vary)) :
    varyNames (Store.freshenMap entry.response.val update age) = some vary.names ∧
      Settled σ' vary.names (varyValues vary.names request) σ.store.arcs ∧
      σ'.store.arcs = σ.store.arcs + 1 ∧
      ∀ other, varyValues vary.names other = varyValues vary.names request → ∀ maxAge now,
        ∃ result, σ'.store.lookup entry.key.primary other maxAge now = some result ∧
          result.response.ptr = σ.store.arcs := by
  rcases storable_spec accepted with ⟨_, _, spec⟩
  have remembered := traced.found entry request (List.mem_of_getElem? returned)
  rcases freshenOp_put remembered.admitted current accepted with ⟨arc, -, -, -, put⟩
  have hop : σ.op (.freshen found requestPolicy update age now) =
      .put entry.key.primary vary.names (varyValues vary.names request) arc := by
    simp only [op, returned, put]
  have moves := (step_spec h).moves
  have arcs := moves.arcs
  rw [hop] at moves arcs
  have new := (moves.allocated _ _ _ _ rfl).1
  refine ⟨spec.names, new ▸ Settled.of_put traced h hop, arcs, fun other same maxAge now => ?_⟩
  rw [← same] at moves
  rcases lookup_of_put moves maxAge now with ⟨result, found, rfl⟩
  exact ⟨result, found, new⟩

/-- A 304 without `Vary` leaves a response to the requests it was stored for
if and only if its names are among the stored fields, or the 304 stores
nothing. -/
theorem audience_kept_iff {sizeMb : UInt64} {ttl : Duration} {before between : List Event}
    {σ₀ σ₁ σ₂ σ₃ : Observed} {actor : Actor} {store : Store} {first : HttpRequest}
    {head notModified : Head} {planned inserted freshened : Clock} {storing : Storing}
    {body : Bytes} {arc : Arc StoredResponse} {found : Nat} {entry : StaleEntry}
    {second : HeaderMap} {requestPolicy : RequestPolicy}
    (run : Runs.run step (start sizeMb ttl) before = some σ₀)
    (plan : (storePlan actor store first head planned).1 = some storing)
    (stored : (σ₀.store.insertResponse storing.primary storing.vary storing.policy head.status
      (storedFields (forwardableFields head)) body inserted).1 = some arc)
    (insert : σ₀.step (storingEvent storing head body inserted) = some σ₁)
    (later : Runs.run step σ₁ between = some σ₂)
    (returned : σ₂.found[found]? = some (entry, second)) (same : entry.response = arc)
    (noVary : notModified.map.containsKey header.vary = false)
    (freshen : σ₂.step (notModifiedEvent found requestPolicy notModified freshened) = some σ₃)
    (bounded : σ₃.taken ≤ 2 ^ 64) :
    KeepsAudience σ₂ σ₃ arc.ptr head first.headers ↔
      ¬ VaryListed head ∨ varyNames head.map = some [] ∨ σ₂.store.current entry = false ∨
        storable requestPolicy second entry.response.val.status
          (Store.freshenMap entry.response.val (storedFields (forwardableFields notModified))
            (notModified.map.get header.age)) freshened = none := by
  -- the bound holds all along
  have bounded₂ := (bounded_step freshen bounded).1
  have bounded₁ := (taken_le_run later).trans bounded₂
  have bounded₀ := (bounded_step insert bounded₁).1
  have traced₀ := (traced_start sizeMb ttl).run run bounded₀
  have traced₁ := traced₀.step (bounded_step insert bounded₁).2 insert
  have traced₂ := traced₁.run later bounded₂
  have traced₃ := traced₂.step (bounded_step freshen bounded).2 freshen
  rcases storePlan_spec plan with ⟨headNames, values⟩
  rcases Settled.of_stored traced₀ stored insert with ⟨settled₁, fields, -⟩
  have settled₂ := settled₁.run traced₁ later bounded₂
  have settled₃ := settled₂.step traced₂ freshen bounded
  have reads := varyNames_freshenMap fields (update_noVary noVary) (notModified.map.get header.age)
  rw [← same] at reads
  constructor
  · intro keeps
    by_contra wrong
    simp only [not_or, not_not, Bool.not_eq_false, Option.ne_none_iff_exists'] at wrong
    rcases wrong with ⟨listed, named, current, ⟨policy, vary⟩, accepted⟩
    rcases Settled.of_freshened traced₂ returned freshen current accepted with
      ⟨names, -, arcs, answers⟩
    -- the freshened response has no names, so it answers a request with other values
    have none_read : vary.names = [] :=
      Option.some.inj (names.symm.trans (reads.1 listed))
    have some_named : storing.vary.names ≠ [] := fun none_named => named (none_named ▸ headNames)
    rcases exists_other_values some_named first.headers with ⟨other, differs⟩
    have alike : varyValues vary.names other = varyValues vary.names second := by
      rw [none_read]
      rfl
    rcases answers other alike none freshened.instant with ⟨result, answered, ptr⟩
    refine differs (keeps [] σ₃ rfl bounded _ other none freshened.instant result answered
      (.inr ?_) storing.vary.names headNames)
    omega
  · intro condition rest τ run' bounded' primary request maxAge now result answered which names
      hnames
    obtain rfl := Option.some.inj (hnames.symm.trans headNames)
    rw [← values]
    rcases which with old | ⟨new, made⟩
    · exact (settled₃.run traced₃ run' bounded').lookup answered old
    · have moves := (step_spec freshen).moves
      have allocates : 0 < Store.allocations (σ₂.op
          (notModifiedEvent found requestPolicy notModified freshened)) := by
        have := moves.arcs
        omega
      simp only [op, notModifiedEvent, returned] at allocates
      rcases freshenOp_allocates allocates with ⟨current, ⟨policy, vary⟩, accepted⟩
      rcases Settled.of_freshened traced₂ returned freshen current accepted with
        ⟨names, settled, arcs, -⟩
      have same_names : vary.names = storing.vary.names := by
        rcases condition with unlisted | none_named | gone | unstorable
        · exact Option.some.inj (names.symm.trans ((reads.2 unlisted).trans headNames))
        · -- then the stored fields name nothing either
          have read : varyNames (Store.freshenMap entry.response.val
              (storedFields (forwardableFields notModified)) (notModified.map.get header.age)) =
                varyNames head.map := by
            by_cases listed : VaryListed head
            · rw [reads.1 listed, none_named]
            · exact reads.2 listed
          exact Option.some.inj (names.symm.trans (read.trans headNames))
        · rw [current] at gone
          cases gone
        · rw [accepted] at unstorable
          cases unstorable
      have second_values := settled₂.found entry second (List.mem_of_getElem? returned)
        (congrArg Arc.ptr same)
      rw [same_names, second_values] at settled
      exact (settled.run traced₃ run' bounded').lookup answered (by omega)

end

/-! ## A page in two languages -/

/-- The origin's head, with a `Connection` of its own. -/
def pageHead (connection : HeaderMap) : Head :=
  ⟨.ok, byLanguage ++ (header.etag, tagA) :: connection⟩

def bareNotModified : Head := ⟨.notModified, []⟩

/-- The German page is found stale after a minute. -/
def foundStale : List Event :=
  [.lookup (germanRequest []).cacheKey (germanRequest []).headers none afterMinute]

/-- The answer to the request that `foundStale` has looked it up for. -/
def pageNotModified : Event :=
  notModifiedEvent 0 (.new .get (germanRequest []).headers) bareNotModified nextMinute

/-- `Connection: vary`. -/
def listsVary : HeaderMap := [(header.connection, ⟨ascii "vary", by decide⟩)]

theorem audience_kept_iff_example : ∃ (_ : HttpDate) (σ₁ σ₂ σ₃ : Observed) (storing : Storing)
    (arc : Arc StoredResponse),
    (storePlan (.request 0) exampleStart.store (germanRequest []) (pageHead []) exampleClock).1 =
        some storing ∧
      exampleStart.step (storingEvent storing (pageHead []) [] exampleClock) = some σ₁ ∧
      Runs.run step σ₁ foundStale = some σ₂ ∧
      arc.val.elapsed afterMinute < entryTtl (.response arc) ∧
      StoredResponse.validators arc.val.headers ≠ [] ∧
      σ₂.step pageNotModified = some σ₃ ∧
      KeepsAudience σ₂ σ₃ arc.ptr (pageHead []) (germanRequest []).headers := by
  let dates : HttpDate := ⟨fun _ => none⟩
  obtain ⟨storing, arc, σ₁, σ₂, σ₃, plan, stored, insert, later, held, tagged, entry, returned,
      same, freshen, bounded⟩ : ∃ (storing : Storing) (arc : Arc StoredResponse)
        (σ₁ σ₂ σ₃ : Observed),
    (storePlan (.request 0) exampleStart.store (germanRequest []) (pageHead []) exampleClock).1 =
        some storing ∧
      (exampleStart.store.insertResponse storing.primary storing.vary storing.policy .ok
        (storedFields (forwardableFields (pageHead []))) [] exampleClock).1 = some arc ∧
      exampleStart.step (storingEvent storing (pageHead []) [] exampleClock) = some σ₁ ∧
      Runs.run step σ₁ foundStale = some σ₂ ∧
      arc.val.elapsed afterMinute < entryTtl (.response arc) ∧
      StoredResponse.validators arc.val.headers ≠ [] ∧
      ∃ entry : StaleEntry, σ₂.found[0]? = some (entry, (germanRequest []).headers) ∧
        entry.response = arc ∧ σ₂.step pageNotModified = some σ₃ ∧ σ₃.taken ≤ 2 ^ 64 :=
    ⟨_, _, _, _, _, rfl, rfl, rfl, rfl, by decide +kernel, by decide +kernel, _, rfl, rfl, rfl,
      by decide⟩
  have run : Runs.run step (start 1 (Duration.fromSecs 3600)) [] = some exampleStart := rfl
  have unlisted : ¬ VaryListed (pageHead []) := by decide
  exact ⟨dates, σ₁, σ₂, σ₃, storing, arc, plan, insert, later, held, tagged, freshen,
    (audience_kept_iff run plan stored insert later returned same rfl freshen bounded).mpr
      (.inl unlisted)⟩

/-- With `Connection: vary`, the German page answers a request for another
language after the 304. Its `ETag` keeps it in the store until then. -/
theorem freshened_page_answers_everyone : ∃ (_ : HttpDate) (σ₁ σ₂ σ₃ : Observed)
    (storing : Storing) (arc : Arc StoredResponse) (result : Lookup),
    (storePlan (.request 0) exampleStart.store (germanRequest []) (pageHead listsVary)
        exampleClock).1 = some storing ∧
      (exampleStart.store.insertResponse storing.primary storing.vary storing.policy .ok
        (storedFields (forwardableFields (pageHead listsVary))) [] exampleClock).1 = some arc ∧
      exampleStart.step (storingEvent storing (pageHead listsVary) [] exampleClock) = some σ₁ ∧
      Runs.run step σ₁ foundStale = some σ₂ ∧
      arc.val.elapsed afterMinute < entryTtl (.response arc) ∧
      StoredResponse.validators arc.val.headers ≠ [] ∧
      σ₂.step pageNotModified = some σ₃ ∧
      σ₃.store.lookup (germanRequest []).cacheKey [] none afterMinute = some result ∧
      result.response.ptr = σ₂.store.arcs ∧
      ¬ KeepsAudience σ₂ σ₃ arc.ptr (pageHead listsVary) (germanRequest []).headers := by
  let dates : HttpDate := ⟨fun _ => none⟩
  refine ⟨dates, _, _, _, _, _, _, rfl, rfl, rfl, rfl, by decide +kernel, by decide +kernel, rfl,
    rfl, rfl, fun keeps => ?_⟩
  have same := keeps [] _ rfl (by decide) (germanRequest []).cacheKey [] none afterMinute
    _ rfl (.inr (by decide)) [acceptLanguage] (by decide +kernel)
  revert same
  decide +kernel

end Observed

end Shadowstep
