import Shadowstep.Coalesce.Guards
import Shadowstep.Coalesce.Ends

/-!
# One request to the origin

Requests that find nothing stored under their primary key send one request
to the origin between them, provided that no leader's second lookup reads
the entries between the two writes of `insert_response`. In that window the
index has the new response's `Vary` names, so the requests have a new flight
key, and the entries do not have the response yet.

* `Phase` — the four stages of a run;
* `Phase.step` — a step stays in its stage or enters the next one;
* `misses_reach_origin_once` — what holds after any run;
* `vary_window_sends_twice` — a run with a lookup in the window.
-/

namespace Shadowstep

open Rust

namespace Misses

/-! ## What is assumed of a run -/

/-- The entry that a request reads next. -/
def Progress.reads : Progress → Option ResponseKey
  | .first (.lookupEntry primary request _ index)
  | .second _ (.lookupEntry primary request _ index) => some (Store.keyFor primary index request)
  | _ => none

/-- The origin's responses may be stored, and what a lookup finds is fresh. -/
def Assumed [HttpDate] (setting : Setting) (σ : State) : Event → Prop
  | .arrive _ => True
  | .step id now => ∀ key ∈ (σ.requests id).bind Progress.reads,
      ∀ arc ∈ σ.memory.store.responseAt key, arc.val.isFresh now.instant = true
  | .answered _ head now =>
    (storable setting.policy setting.headers head.status head.map now).isSome = true
  | .ended _ body => σ.memory.store.admits body = true

instance [HttpDate] (setting : Setting) (σ : State) : DecidablePred (Assumed setting σ)
  | .arrive _ => isTrue trivial
  | .step id now => inferInstanceAs (Decidable (∀ key ∈ (σ.requests id).bind Progress.reads,
      ∀ arc ∈ σ.memory.store.responseAt key, arc.val.isFresh now.instant = true))
  | .answered _ head now => inferInstanceAs (Decidable
      ((storable setting.policy setting.headers head.status head.map now).isSome = true))
  | .ended _ body => inferInstanceAs (Decidable (σ.memory.store.admits body = true))

/-- A leader about to read the entries. -/
def Progress.readsAgain : Progress → Bool
  | .second (.leads _) (.lookupEntry ..) => true
  | _ => false

/-- Between the two writes of `insert_response`. -/
def Progress.publishes : Progress → Bool
  | .stores _ (.insertEntry ..) => true
  | _ => false

/-- No leader reads the entries while another request is between the two
writes of `insert_response`. -/
def Timely (σ : State) : Event → Prop
  | .step id _ => (σ.requests id).any Progress.readsAgain = true →
      ∀ other, (σ.requests other).any Progress.publishes = false
  | _ => True

/-! ## Requests that look -/

/-- Requests that coalesce and lead and accept a response of any age. -/
structure Setting.Coalesces (setting : Setting) : Prop where
  mayLead : setting.policy.mayLead = true
  maxAge : setting.policy.maxAge = none

theorem Setting.Coalesces.mayCoalesce {setting : Setting} (coalesces : setting.Coalesces) :
    setting.policy.mayCoalesce = true := by
  have := coalesces.mayLead
  simp only [RequestPolicy.mayLead, Bool.and_eq_true] at this
  exact this.1

theorem Setting.Coalesces.mayServe {setting : Setting} (coalesces : setting.Coalesces) :
    setting.policy.mayServe = true := by
  have := coalesces.mayCoalesce
  simp only [RequestPolicy.mayCoalesce, Bool.and_eq_true] at this
  exact this.1.1

/-- A lookup that has read an index record. -/
def lookAt (setting : Setting) (record : Index) : Pc :=
  .lookupEntry setting.primary setting.headers setting.policy.maxAge record

/-- Where a request stands that has not been answered and has not been
sent, except a leader's second lookup. -/
inductive Searching (setting : Setting) (keys : FlightKey → Prop) (roles : Role → Prop)
    (record : Option Index) : Progress → Prop
  | first : Searching setting keys roles record (.first (startLookup setting))
  | firstEntry {read} : Searching setting keys roles record (.first (lookAt setting read))
  | flightKey : Searching setting keys roles record .flightKey
  | join {key} (known : keys key) : Searching setting keys roles record (.join key)
  | waits {channel} : Searching setting keys roles record (.waits channel)
  | second {role} (known : roles role) :
    Searching setting keys roles record (.second role (startLookup setting))
  | secondEntry {role read} (known : roles role) (current : record = some read) :
    Searching setting keys roles record (.second role (lookAt setting read))

theorem Searching.mono {setting : Setting} {keys keys' : FlightKey → Prop}
    {roles roles' : Role → Prop} {record record' : Option Index} {progress : Progress}
    (h : Searching setting keys roles record progress) (hkeys : ∀ key, keys key → keys' key)
    (hroles : ∀ role, roles role → roles' role ∧ record = record') :
    Searching setting keys' roles' record' progress := by
  cases h with
  | first => exact .first
  | firstEntry => exact .firstEntry
  | flightKey => exact .flightKey
  | join known => exact .join (hkeys _ known)
  | waits => exact .waits
  | second known => exact .second (hroles _ known).1
  | secondEntry known current => exact .secondEntry (hroles _ known).1 ((hroles _ known).2 ▸ current)

/-- What the step of a searching request comes to. -/
inductive Searched (setting : Setting) (keys : FlightKey → Prop) (roles : Role → Prop)
    (σ : State) (old : Progress) : Progress → Prop
  | still {progress}
      (h : Searching setting keys roles (σ.memory.store.index setting.primary) progress) :
    Searched setting keys roles σ old progress
  | leads {key channel} (known : keys key) (free : σ.flights.inFlight key = none) :
    Searched setting keys roles σ old (.second (.leads ⟨key, channel⟩) (startLookup setting))
  | follows {channel} (closed : channel ∈ σ.flights.closed) :
    Searched setting keys roles σ old (.second .follows (startLookup setting))
  | hit {flight arc use key} (primary : key.primary = setting.primary)
      (found : σ.memory.store.responseAt key = some arc) :
    Searched setting keys roles σ old (finish flight (.cached arc use))
  | missIndex {role} (known : roles role) (absent : σ.memory.store.index setting.primary = none) :
    Searched setting keys roles σ old (.toOrigin role.guard)
  | missEntry {role record} (known : roles role)
      (was : old = .second role (lookAt setting record))
      (current : σ.memory.store.index setting.primary = some record)
      (absent : σ.memory.store.responseAt
        (Store.keyFor setting.primary record setting.headers) = none) :
    Searched setting keys roles σ old (.toOrigin role.guard)

theorem join_closed (flights : Flights FlightKey) (key : FlightKey) (mayLead : Bool) :
    (flights.join key mayLead).2.closed = flights.closed := by
  unfold Flights.join
  split
  · rfl
  · split <;> rfl

section

variable [HttpDate]

theorem lookupStep_start {setting : Setting} {memory : Memory} {now : Clock}
    {continuing : Pc → Progress} {after : Option Lookup → Progress} :
    lookupStep memory (startLookup setting) now continuing after =
      match memory.store.index setting.primary with
      | none => some (after none)
      | some record => some (continuing (lookAt setting record)) := by
  cases h : memory.store.index setting.primary <;>
    simp [lookupStep, startLookup, Pc.next, lookAt, h]

/-- The result of a lookup without a `max-age` that reads the entries. -/
theorem lookupStep_entry {setting : Setting} {record : Index} {memory : Memory} {now : Clock}
    {continuing : Pc → Progress} {after : Option Lookup → Progress} {progress : Progress}
    (maxAge : setting.policy.maxAge = none)
    (fresh : ∀ arc ∈ memory.store.responseAt
      (Store.keyFor setting.primary record setting.headers), arc.val.isFresh now.instant = true)
    (h : lookupStep memory (lookAt setting record) now continuing after = some progress) :
    memory.store.responseAt (Store.keyFor setting.primary record setting.headers) = none ∧
        progress = after none ∨
      ∃ arc, memory.store.responseAt (Store.keyFor setting.primary record setting.headers) =
        some arc ∧ progress = after (some (.fresh arc)) := by
  have result : progress =
      after (memory.lookupEntry setting.primary setting.headers none record now) := by
    rw [← maxAge]
    exact (Option.some.inj h).symm
  simp only [Memory.lookupEntry] at result
  cases found : memory.store.responseAt (Store.keyFor setting.primary record setting.headers) with
  | none => exact .inl ⟨rfl, by rw [result, found]; rfl⟩
  | some arc =>
      refine .inr ⟨arc, rfl, ?_⟩
      rw [result, found]
      simp [Store.judge, Store.mayAnswer, fresh arc found]

/-- One step of a searching request. -/
theorem Searching.advance {setting : Setting} {keys : FlightKey → Prop} {roles : Role → Prop}
    {σ σ' : State} {id : Nat} {old : Progress} {now : Clock}
    (searching : Searching setting keys roles (σ.memory.store.index setting.primary) old)
    (coalesces : setting.Coalesces)
    (known : ∃ key, σ.memory.store.flightKey setting.primary setting.headers = some key ∧
      keys key)
    (here : σ.requests id = some old) (fresh : Assumed setting σ (.step id now))
    (h : Misses.advance setting σ id old now = some σ') :
    ∃ progress flights, Searched setting keys roles σ old progress ∧
      flights.closed = σ.flights.closed ∧
      σ' = ⟨σ.memory, flights, Function.update σ.requests id (some progress), σ.sent⟩ := by
  have reads {key} (hkey : old.reads = some key) :
      ∀ arc ∈ σ.memory.store.responseAt key, arc.val.isFresh now.instant = true :=
    fresh key (by rw [here]; exact hkey)
  cases searching with
  | first =>
      simp only [Misses.advance, Option.map_eq_some_iff] at h
      obtain ⟨progress, hstep, rfl⟩ := h
      refine ⟨progress, _, .still ?_, rfl, rfl⟩
      rw [lookupStep_start] at hstep
      split at hstep
      · obtain rfl := Option.some.inj hstep
        simp only [afterFirst, coalesces.mayCoalesce, ↓reduceIte]
        exact .flightKey
      · obtain rfl := Option.some.inj hstep
        exact .firstEntry
  | firstEntry =>
      simp only [Misses.advance, Option.map_eq_some_iff] at h
      obtain ⟨progress, hstep, rfl⟩ := h
      refine ⟨progress, _, ?_, rfl, rfl⟩
      obtain ⟨-, rfl⟩ | ⟨arc, found, rfl⟩ := lookupStep_entry coalesces.maxAge (reads rfl) hstep
      · simp only [afterFirst, coalesces.mayCoalesce, ↓reduceIte]
        exact .still .flightKey
      · change Searched _ _ _ _ _ (finish none _)
        exact .hit rfl found
  | flightKey =>
      obtain ⟨key, hkey, known⟩ := known
      simp only [Misses.advance, hkey] at h
      obtain rfl := Option.some.inj h
      exact ⟨_, _, .still (.join known), rfl, rfl⟩
  | @join key known =>
      obtain rfl := Option.some.inj h
      refine ⟨_, _, ?_, join_closed .., rfl⟩
      simp only [coalesces.mayLead, ↓reduceIte]
      cases taken : σ.flights.inFlight key with
      | none => exact .leads known taken
      | some channel => exact .still .waits
  | @waits channel =>
      simp only [Misses.advance] at h
      split at h
      case isTrue closed =>
        obtain rfl := Option.some.inj h
        exact ⟨_, _, .follows closed, rfl, rfl⟩
      case isFalse => cases h
  | second known =>
      simp only [Misses.advance, Option.map_eq_some_iff] at h
      obtain ⟨progress, hstep, rfl⟩ := h
      refine ⟨progress, _, ?_, rfl, rfl⟩
      rw [lookupStep_start] at hstep
      split at hstep
      case h_1 absent =>
        obtain rfl := Option.some.inj hstep
        exact .missIndex known absent
      case h_2 record current =>
        obtain rfl := Option.some.inj hstep
        exact .still (.secondEntry known current)
  | secondEntry known current =>
      simp only [Misses.advance, Option.map_eq_some_iff] at h
      obtain ⟨progress, hstep, rfl⟩ := h
      refine ⟨progress, _, ?_, rfl, rfl⟩
      obtain ⟨absent, rfl⟩ | ⟨arc, found, rfl⟩ :=
        lookupStep_entry coalesces.maxAge (reads rfl) hstep
      · exact .missEntry known rfl current absent
      · exact .hit rfl found

end

/-! ## The stages of a run -/

/-- The flight key of the requests while the index holds `record`. -/
def keyUnder (setting : Setting) (record : Option Index) : FlightKey :=
  ⟨setting.primary, record.elim [] fun index => varyValues index.vary setting.headers⟩

/-- Nothing is stored for the primary key. -/
structure Bare (setting : Setting) (store : Store) (record : Option Index) : Prop where
  enabled : store.enabled = true
  index : store.index setting.primary = record
  empty : ∀ key, key.primary = setting.primary → store.responseAt key = none

/-- One response is stored for the primary key, where the requests find it. -/
structure Keeps (setting : Setting) (store : Store) (record : Index) (arc : Arc StoredResponse) :
    Prop where
  enabled : store.enabled = true
  index : store.index setting.primary = some record
  found : store.responseAt (Store.keyFor setting.primary record setting.headers) = some arc
  only : ∀ key other, key.primary = setting.primary → store.responseAt key = some other →
    other = arc

theorem flightKey_eq {setting : Setting} {store : Store} (enabled : store.enabled = true) :
    store.flightKey setting.primary setting.headers =
      some (keyUnder setting (store.index setting.primary)) := by
  simp [Store.flightKey, keyUnder, enabled]

/-- An insertion of the response to one of the requests. -/
structure Own (setting : Setting) (insertion : Insertion) : Prop where
  primary : insertion.primary = setting.primary
  values : insertion.vary.values = varyValues insertion.vary.names setting.headers

/-- Where the leader stands until it writes the index, and how many requests
have been sent by then. -/
inductive Leading (setting : Setting) (store : Store) (key : FlightKey) : Nat → Progress → Prop
  | second {channel} :
    Leading setting store key 0 (.second (.leads ⟨key, channel⟩) (startLookup setting))
  | secondEntry {channel read} :
    Leading setting store key 0 (.second (.leads ⟨key, channel⟩) (lookAt setting read))
  | toOrigin {channel} : Leading setting store key 0 (.toOrigin (some ⟨key, channel⟩))
  | atOrigin {channel} : Leading setting store key 1 (.atOrigin (some ⟨key, channel⟩))
  | streams {channel policy vary head} (values : vary.values = varyValues vary.names setting.headers) :
    Leading setting store key 1 (.streams (some ⟨key, channel⟩) policy vary head)
  | indexGet {channel insertion} (own : Own setting insertion)
      (admits : store.admits insertion.body = true) :
    Leading setting store key 1 (.stores (some ⟨key, channel⟩) (.insertIndexGet insertion))
  | fetchAdd {channel insertion} (own : Own setting insertion) :
    Leading setting store key 1 (.stores (some ⟨key, channel⟩) (.insertFetchAdd insertion))
  | indexPut {channel insertion generation source} (own : Own setting insertion) :
    Leading setting store key 1
      (.stores (some ⟨key, channel⟩) (.insertIndexPut insertion generation source))

theorem Leading.guard {setting : Setting} {store : Store} {key : FlightKey} {sent : Nat}
    {progress : Progress} (leading : Leading setting store key sent progress) :
    ∃ channel, progress.guard = some ⟨key, channel⟩ := by
  cases leading <;> exact ⟨_, rfl⟩

theorem Leading.sent_le {setting : Setting} {store : Store} {key : FlightKey} {sent : Nat}
    {progress : Progress} (leading : Leading setting store key sent progress) : sent ≤ 1 := by
  cases leading <;> omega

/-- A request with an outcome, which its guard may still have to follow. -/
inductive Finishing (outcome : Outcome) : Progress → Prop
  | removes {guard} : Finishing outcome (.removes guard outcome)
  | closes {guard} : Finishing outcome (.closes guard outcome)
  | done : Finishing outcome (.done outcome)

theorem finishing_finish (flight : Option FlightKeyGuard) (outcome : Outcome) :
    Finishing outcome (finish flight outcome) := by
  cases flight with
  | none => exact .done
  | some => exact .removes

/-- The stages: no leader yet; a leader that has not written the index; a
leader between its two writes; the response is stored. -/
inductive Phase (setting : Setting) (σ : State) : Prop
  | quiet {record} (bare : Bare setting σ.memory.store record) (closed : σ.flights.closed = ∅)
      (sent : σ.sent = 0)
      (others : ∀ id progress, σ.requests id = some progress →
        Searching setting (· = keyUnder setting record) (fun _ => False) record progress)
  | leading {record leader progress} (bare : Bare setting σ.memory.store record)
      (closed : σ.flights.closed = ∅) (leads : σ.requests leader = some progress)
      (leading : Leading setting σ.memory.store (keyUnder setting record) σ.sent progress)
      (others : ∀ id progress, σ.requests id = some progress → id ≠ leader →
        Searching setting (· = keyUnder setting record) (fun _ => False) record progress)
  | published {leader guard insertion generation}
      (bare : Bare setting σ.memory.store (some ⟨insertion.vary.names, generation⟩))
      (own : Own setting insertion) (closed : σ.flights.closed = ∅) (sent : σ.sent = 1)
      (leads : σ.requests leader =
        some (.stores (some guard) (.insertEntry insertion generation)))
      (others : ∀ id progress, σ.requests id = some progress → id ≠ leader →
        Searching setting (fun _ => True) (fun role => ∃ guard, role = .leads guard)
          (some ⟨insertion.vary.names, generation⟩) progress)
  | stored {record arc leader progress} (keeps : Keeps setting σ.memory.store record arc)
      (sent : σ.sent = 1) (leads : σ.requests leader = some progress)
      (finishing : Finishing .fromOrigin progress)
      (others : ∀ id progress, σ.requests id = some progress → id ≠ leader →
        Searching setting (fun _ => True) (fun _ => True) (some record) progress ∨
          ∃ use, Finishing (.cached arc use) progress)

/-! ## Steps -/

theorem all_update {P : Nat → Progress → Prop} {requests : Nat → Option Progress} {id : Nat}
    {progress : Progress} (all : ∀ other there, requests other = some there → P other there)
    (new : P id progress) :
    ∀ other there, Function.update requests id (some progress) other = some there →
      P other there := by
  intro other there h
  obtain ⟨rfl, rfl⟩ | ⟨-, old⟩ := Runs.update_cases h
  · exact new
  · exact all other there old

theorem update_leader {requests : Nat → Option Progress} {id leader : Nat}
    {progress there : Progress} (different : id ≠ leader) (h : requests leader = some there) :
    Function.update requests id (some progress) leader = some there := by
  rw [Function.update_of_ne different.symm, h]

/-- A request joins a run with its first lookup. -/
theorem Phase.arrives {setting : Setting} {σ : State} {id : Nat} (phase : Phase setting σ)
    (new : σ.requests id = none) : Phase setting (σ.set id (.first (startLookup setting))) := by
  have elsewhere {leader progress} (leads : σ.requests leader = some progress) : id ≠ leader := by
    rintro rfl
    simp [new] at leads
  cases phase with
  | quiet bare closed sent others =>
      exact .quiet bare closed sent (all_update others .first)
  | leading bare closed leads leading others =>
      exact .leading bare closed (update_leader (elsewhere leads) leads) leading
        (all_update others fun _ => .first)
  | published bare own closed sent leads others =>
      exact .published bare own closed sent (update_leader (elsewhere leads) leads)
        (all_update others fun _ => .first)
  | stored keeps sent leads finishing others =>
      exact .stored keeps sent (update_leader (elsewhere leads) leads) finishing
        (all_update others fun _ => .inl .first)

/-- The second write of `insert_response`. -/
theorem entryPut_keeps {setting : Setting} {memory memory' : Memory} {insertion : Insertion}
    {generation : UInt64} {next : Pc} {now : Clock}
    (bare : Bare setting memory.store (some ⟨insertion.vary.names, generation⟩))
    (own : Own setting insertion)
    (access : Access memory now (.insertEntry insertion generation) next memory') :
    ∃ arc, Keeps setting memory'.store ⟨insertion.vary.names, generation⟩ arc ∧
      ∀ flight, afterStore flight next = finish flight .fromOrigin := by
  cases access with
  | entryPut =>
      have put := Store.responseAt_insertEntry memory.store
        ⟨insertion.primary, generation, insertion.vary.values⟩
      refine ⟨(memory.insertEntry insertion generation now).1,
        ⟨bare.enabled, bare.index, ?_, ?_⟩, fun _ => rfl⟩
      · have here : Store.keyFor setting.primary ⟨insertion.vary.names, generation⟩
            setting.headers = ⟨insertion.primary, generation, insertion.vary.values⟩ := by
          simp [Store.keyFor, own.primary, own.values]
        simp only [Memory.insertEntry, here, put, if_pos]
        rfl
      · intro key other primary h
        simp only [Memory.insertEntry, put] at h
        split at h
        · exact (Option.some.inj h).symm
        · rw [bare.empty key primary] at h
          cases h

/-- At the origin, or with a body on its way. -/
def Progress.away : Progress → Bool
  | .atOrigin _ | .streams .. => true
  | _ => false

/-- Only the leader is away. -/
theorem Phase.away {setting : Setting} {σ : State} {id : Nat} {old : Progress}
    (phase : Phase setting σ) (here : σ.requests id = some old) (away : old.away = true) :
    ∃ record, Bare setting σ.memory.store record ∧ σ.flights.closed = ∅ ∧
      Leading setting σ.memory.store (keyUnder setting record) σ.sent old ∧
      ∀ other progress, σ.requests other = some progress → other ≠ id →
        Searching setting (· = keyUnder setting record) (fun _ => False) record progress := by
  cases phase with
  | quiet bare closed sent others =>
      cases others id old here <;> cases away
  | @leading record leader led bare closed leads leading others =>
      by_cases lead : id = leader
      · subst lead
        obtain rfl := Option.some.inj (here.symm.trans leads)
        exact ⟨record, bare, closed, leading, others⟩
      · cases others id old here lead <;> cases away
  | @published leader guard insertion generation bare own closed sent leads others =>
      by_cases lead : id = leader
      · subst lead
        obtain rfl := Option.some.inj (here.symm.trans leads)
        cases away
      · cases others id old here lead <;> cases away
  | @stored record arc leader led keeps sent leads finishing others =>
      by_cases lead : id = leader
      · subst lead
        obtain rfl := Option.some.inj (here.symm.trans leads)
        cases finishing <;> cases away
      · obtain searching | ⟨_, finished⟩ := others id old here lead
        · cases searching <;> cases away
        · cases finished <;> cases away

theorem none_publishes {requests : Nat → Option Progress}
    (h : ∀ id progress, requests id = some progress → progress.publishes = false) (other : Nat) :
    (requests other).any Progress.publishes = false := by
  cases stands : requests other with
  | none => rfl
  | some progress => exact h other progress stands

section

variable [HttpDate]

theorem Finishing.advance {setting : Setting} {σ σ' : State} {id : Nat} {outcome : Outcome}
    {old : Progress} {now : Clock} (finishing : Finishing outcome old)
    (h : Misses.advance setting σ id old now = some σ') :
    ∃ progress flights, Finishing outcome progress ∧
      σ' = ⟨σ.memory, flights, Function.update σ.requests id (some progress), σ.sent⟩ := by
  cases finishing with
  | removes =>
      obtain rfl := Option.some.inj h
      exact ⟨_, _, .closes, rfl⟩
  | closes =>
      obtain rfl := Option.some.inj h
      exact ⟨_, _, .done, rfl⟩
  | done => cases h

/-- One step of the leader, which writes the index last. -/
theorem Leading.advance {setting : Setting} {σ σ' : State} {id : Nat} {record : Option Index}
    {key : FlightKey} {old : Progress} {now : Clock} (maxAge : setting.policy.maxAge = none)
    (bare : Bare setting σ.memory.store record)
    (leading : Leading setting σ.memory.store key σ.sent old)
    (h : Misses.advance setting σ id old now = some σ') :
    σ'.flights = σ.flights ∧
      ((∃ progress, σ'.requests = Function.update σ.requests id (some progress) ∧
          Bare setting σ'.memory.store record ∧
          Leading setting σ'.memory.store key σ'.sent progress) ∨
        ∃ guard insertion generation, Own setting insertion ∧ σ'.sent = 1 ∧
          Bare setting σ'.memory.store (some ⟨insertion.vary.names, generation⟩) ∧
          σ'.requests = Function.update σ.requests id
            (some (.stores (some guard) (.insertEntry insertion generation)))) := by
  generalize hsent : σ.sent = sent at leading
  cases leading with
  | second =>
      simp only [Misses.advance, lookupStep_start, Option.map_eq_some_iff] at h
      obtain ⟨progress, hstep, rfl⟩ := h
      refine ⟨rfl, .inl ⟨progress, rfl, bare, ?_⟩⟩
      change Leading _ _ _ σ.sent _
      rw [hsent]
      split at hstep
      · obtain rfl := Option.some.inj hstep
        exact .toOrigin
      · obtain rfl := Option.some.inj hstep
        exact .secondEntry
  | @secondEntry channel read =>
      simp only [Misses.advance, Option.map_eq_some_iff] at h
      obtain ⟨progress, hstep, rfl⟩ := h
      -- nothing is stored before the leader stores it
      have nothing := bare.empty (Store.keyFor setting.primary read setting.headers) rfl
      obtain ⟨-, rfl⟩ | ⟨arc, found, -⟩ :=
        lookupStep_entry maxAge (fun _ h => by rw [nothing] at h; cases h) hstep
      · refine ⟨rfl, .inl ⟨_, rfl, bare, ?_⟩⟩
        change Leading _ _ _ σ.sent _
        rw [hsent]
        exact .toOrigin
      · rw [nothing] at found
        cases found
  | toOrigin =>
      obtain rfl := Option.some.inj h
      refine ⟨rfl, .inl ⟨_, rfl, bare, ?_⟩⟩
      change Leading _ _ _ (σ.sent + 1) _
      rw [hsent]
      exact .atOrigin
  | atOrigin | streams => cases h
  | @indexGet channel insertion own admits =>
      obtain ⟨⟨next, memory⟩, hnext, rfl⟩ := Option.map_eq_some_iff.mp h
      refine ⟨rfl, .inl ⟨_, rfl, ?_⟩⟩
      change Bare _ memory.store _ ∧ Leading _ memory.store _ σ.sent _
      rw [hsent]
      cases next_access hnext with
      | refuse refused =>
          rw [admits] at refused
          cases refused
      | reuse => exact ⟨bare, .indexPut own⟩
      | renew => exact ⟨bare, .fetchAdd own⟩
  | fetchAdd own =>
      obtain rfl := Option.some.inj h
      refine ⟨rfl, .inl ⟨_, rfl, ⟨bare.enabled, bare.index, bare.empty⟩, ?_⟩⟩
      change Leading _ _ _ σ.sent _
      rw [hsent]
      exact .indexPut own
  | @indexPut channel insertion generation source own =>
      obtain rfl := Option.some.inj h
      refine ⟨rfl, .inr ⟨_, _, _, own, hsent, ⟨bare.enabled, ?_, bare.empty⟩, rfl⟩⟩
      change Function.update σ.memory.store.index insertion.primary _ setting.primary = _
      rw [← own.primary, Function.update_self]

theorem Phase.advance {setting : Setting} {σ σ' : State} {id : Nat} {old : Progress}
    {now : Clock} (coalesces : setting.Coalesces) (guarded : Guarded σ)
    (phase : Phase setting σ) (here : σ.requests id = some old)
    (fresh : Assumed setting σ (.step id now)) (timely : Timely σ (.step id now))
    (h : Misses.advance setting σ id old now = some σ') : Phase setting σ' := by
  cases phase with
  | quiet bare closed sent others =>
      obtain rfl := bare.index
      obtain ⟨progress, flights, searched, unclosed, rfl⟩ := (others id old here).advance coalesces
        ⟨_, flightKey_eq bare.enabled, rfl⟩ here fresh h
      rw [closed] at unclosed
      cases searched with
      | still new => exact .quiet bare unclosed sent (all_update others new)
      | leads known free =>
          obtain rfl := known
          refine .leading bare unclosed (Function.update_self ..) ?_ ?_
          · rw [sent]
            exact .second
          · exact all_update (fun _ _ there _ => others _ _ there) fun self => absurd rfl self
      | follows ended => simp [closed] at ended
      | hit primary found => simp [bare.empty _ primary] at found
      | missIndex known => exact known.elim
      | missEntry known => exact known.elim
  | @leading record leader led bare closed leads leading others =>
      by_cases lead : id = leader
      · subst lead
        obtain rfl := Option.some.inj (here.symm.trans leads)
        obtain ⟨same, ⟨progress, moved, bare, leading⟩ |
          ⟨guard, insertion, generation, own, sent, bare, moved⟩⟩ :=
            leading.advance coalesces.maxAge bare h
        · refine .leading bare (same ▸ closed) (by rw [moved, Function.update_self]) leading ?_
          rw [moved]
          exact all_update others fun self => absurd rfl self
        · refine .published bare own (same ▸ closed) sent (by rw [moved, Function.update_self]) ?_
          rw [moved]
          refine all_update (fun other there stands different => ?_) fun self => absurd rfl self
          exact (others other there stands different).mono (fun _ _ => trivial) fun _ => False.elim
      · obtain rfl := bare.index
        obtain ⟨progress, flights, searched, unclosed, rfl⟩ :=
          (others id old here lead).advance coalesces ⟨_, flightKey_eq bare.enabled, rfl⟩ here
            fresh h
        rw [closed] at unclosed
        cases searched with
        | still new =>
            exact .leading bare unclosed (update_leader lead leads) leading
              (all_update others fun _ => new)
        | leads known free =>
            -- the leader's key is the only one, and it is taken
            obtain rfl := known
            obtain ⟨channel, guard⟩ := leading.guard
            rw [guarded.held leads guard] at free
            cases free
        | follows ended => simp [closed] at ended
        | hit primary found => simp [bare.empty _ primary] at found
        | missIndex known => exact known.elim
        | missEntry known => exact known.elim
  | @published leader guard insertion generation bare own closed sent leads others =>
      by_cases lead : id = leader
      · subst lead
        obtain rfl := Option.some.inj (here.symm.trans leads)
        simp only [Misses.advance, Option.map_eq_some_iff] at h
        obtain ⟨⟨next, memory⟩, hnext, rfl⟩ := h
        obtain ⟨arc, keeps, after⟩ := entryPut_keeps bare own (next_access hnext)
        refine .stored keeps sent (Function.update_self ..) (after _ ▸ finishing_finish ..) ?_
        refine all_update (fun other there stands different => .inl ?_) fun self => absurd rfl self
        exact (others other there stands different).mono (fun _ _ => trivial)
          fun _ _ => ⟨trivial, rfl⟩
      · obtain ⟨progress, flights, searched, unclosed, rfl⟩ :=
          (bare.index ▸ others id old here lead).advance coalesces
            ⟨_, flightKey_eq bare.enabled, trivial⟩ here fresh h
        rw [closed] at unclosed
        cases searched with
        | still new =>
            exact .published bare own unclosed sent (update_leader lead leads)
              (all_update others fun _ => bare.index ▸ new)
        | leads =>
            exact .published bare own unclosed sent (update_leader lead leads)
              (all_update others fun _ => .second ⟨_, rfl⟩)
        | follows ended => simp [closed] at ended
        | hit primary found => simp [bare.empty _ primary] at found
        | missIndex known absent => simp [bare.index] at absent
        | missEntry known was =>
            obtain ⟨guard, rfl⟩ := known
            obtain rfl := was
            have unpublished := timely (by simp [here, Progress.readsAgain, lookAt]) leader
            simp [leads, Progress.publishes] at unpublished
  | @stored record arc leader led keeps sent leads finishing others =>
      by_cases lead : id = leader
      · subst lead
        obtain rfl := Option.some.inj (here.symm.trans leads)
        obtain ⟨progress, flights, finishing, rfl⟩ := finishing.advance h
        exact .stored keeps sent (Function.update_self ..) finishing
          (all_update others fun self => absurd rfl self)
      · have stands (there : Progress) := show Function.update σ.requests id (some there) leader = some led from
          update_leader lead leads
        obtain searching | ⟨use, finished⟩ := others id old here lead
        · obtain ⟨progress, flights, searched, -, rfl⟩ :=
            (keeps.index ▸ searching).advance coalesces
              ⟨_, flightKey_eq keeps.enabled, trivial⟩ here fresh h
          refine .stored keeps sent (stands _) finishing (all_update others fun _ => ?_)
          cases searched with
          | still new => exact .inl (keeps.index ▸ new)
          | leads => exact .inl (.second trivial)
          | follows => exact .inl (.second trivial)
          | hit primary found =>
              obtain rfl := keeps.only _ _ primary found
              exact .inr ⟨_, finishing_finish ..⟩
          | missIndex known absent => simp [keeps.index] at absent
          | missEntry known was current absent =>
              obtain rfl := Option.some.inj (keeps.index.symm.trans current)
              simp [keeps.found] at absent
        · obtain ⟨progress, flights, finished, rfl⟩ := finished.advance h
          exact .stored keeps sent (stands _) finishing
            (all_update others fun _ => .inr ⟨use, finished⟩)

theorem Phase.answered {setting : Setting} {σ σ' : State} {id : Nat} {head : Head} {now : Clock}
    (phase : Phase setting σ) (storable : Assumed setting σ (.answered id head now))
    (h : step setting σ (.answered id head now) = some σ') : Phase setting σ' := by
  simp only [step] at h
  split at h
  case h_1 flight here =>
    obtain ⟨⟨policy, vary⟩, accepted⟩ := Option.isSome_iff_exists.mp storable
    rw [accepted] at h
    obtain rfl := Option.some.inj h
    obtain ⟨_, _, accepted⟩ := storable_spec accepted
    obtain ⟨record, bare, closed, leading, others⟩ := phase.away here rfl
    refine .leading bare closed (Function.update_self ..) ?_
      (all_update others fun self => absurd rfl self)
    change Leading _ _ _ σ.sent _
    generalize σ.sent = sent at leading
    cases leading with
    | atOrigin => exact .streams accepted.values
  case h_2 => cases h

theorem Phase.ended {setting : Setting} {σ σ' : State} {id : Nat} {body : Bytes}
    (phase : Phase setting σ) (admits : Assumed setting σ (.ended id body))
    (h : step setting σ (.ended id body) = some σ') : Phase setting σ' := by
  simp only [step] at h
  split at h
  case h_1 flight policy vary head here =>
    obtain rfl := Option.some.inj h
    obtain ⟨record, bare, closed, leading, others⟩ := phase.away here rfl
    refine .leading bare closed (Function.update_self ..) ?_
      (all_update others fun self => absurd rfl self)
    change Leading _ _ _ σ.sent _
    generalize σ.sent = sent at leading
    cases leading with
    | streams values => exact .indexGet ⟨rfl, values⟩ admits
  case h_2 => cases h

theorem Phase.step {setting : Setting} {σ σ' : State} {event : Event}
    (coalesces : setting.Coalesces) (guarded : Guarded σ) (phase : Phase setting σ)
    (assumed : Assumed setting σ event) (timely : Timely σ event)
    (h : step setting σ event = some σ') : Phase setting σ' := by
  cases event with
  | arrive id =>
      simp only [Misses.step, Option.isNone_iff_eq_none] at h
      split at h
      case isTrue new =>
        obtain rfl := Option.some.inj h
        simp only [arrive, coalesces.mayServe, ↓reduceIte]
        exact phase.arrives new
      case isFalse => cases h
  | step id now =>
      obtain ⟨old, here, hadvance⟩ := Option.bind_eq_some_iff.mp h
      exact phase.advance coalesces guarded here assumed timely hadvance
  | answered id head now => exact phase.answered assumed h
  | ended id body => exact phase.ended assumed h

/-! ## Runs -/

/-- Whatever comes next for a request, it can happen, and in time. -/
def Ready (setting : Setting) (σ : State) (id : Nat) : Prop :=
  (∀ now, (step setting σ (.step id now)).isSome ∧ Timely σ (.step id now)) ∨
    (∀ head now, (step setting σ (.answered id head now)).isSome) ∨
      ∀ body, (step setting σ (.ended id body)).isSome

theorem step_isSome {setting : Setting} {σ : State} {id : Nat} {old : Progress} {now : Clock}
    (here : σ.requests id = some old) :
    (step setting σ (.step id now)).isSome = (advance setting σ id old now).isSome := by
  simp [step, here]

theorem Searching.moves {setting : Setting} {keys : FlightKey → Prop} {roles : Role → Prop}
    {record : Option Index} {σ : State} {id : Nat} {old : Progress} {now : Clock}
    (searching : Searching setting keys roles record old) (here : σ.requests id = some old)
    (released : ∀ channel, old = .waits channel → channel ∈ σ.flights.closed) :
    (step setting σ (.step id now)).isSome = true := by
  rw [step_isSome here]
  cases searching with
  | first | second =>
      simp only [Misses.advance, lookupStep_start, Option.isSome_map]
      split <;> rfl
  | firstEntry | secondEntry => rfl
  | flightKey =>
      simp only [Misses.advance]
      split <;> rfl
  | join => rfl
  | waits => simp [Misses.advance, released]

theorem Leading.moves {setting : Setting} {σ : State} {key : FlightKey} {id : Nat}
    {old : Progress} (leading : Leading setting σ.memory.store key σ.sent old)
    (here : σ.requests id = some old)
    (timely : ∀ other, (σ.requests other).any Progress.publishes = false) :
    Ready setting σ id := by
  generalize σ.sent = sent at leading
  cases leading with
  | second =>
      refine .inl fun now => ⟨?_, fun _ => timely⟩
      rw [step_isSome here]
      simp only [Misses.advance, lookupStep_start, Option.isSome_map]
      split <;> rfl
  | indexGet own admits =>
      refine .inl fun now => ⟨?_, fun _ => timely⟩
      rw [step_isSome here]
      simp only [Misses.advance, Option.isSome_map, Pc.next, admits, ↓reduceIte]
      split
      · split <;> rfl
      · rfl
  | secondEntry | toOrigin | fetchAdd | indexPut =>
      exact .inl fun now => ⟨by rw [step_isSome here]; rfl, fun _ => timely⟩
  | atOrigin =>
      refine .inr (.inl fun head now => ?_)
      simp only [step, here]
      split <;> rfl
  | streams => exact .inr (.inr fun body => by simp [step, here])

theorem Finishing.moves {setting : Setting} {σ : State} {outcome : Outcome} {id : Nat}
    {old : Progress} {now : Clock} (finishing : Finishing outcome old)
    (here : σ.requests id = some old) (unfinished : old ≠ .done outcome) :
    (step setting σ (.step id now)).isSome = true := by
  rw [step_isSome here]
  cases finishing with
  | removes | closes => rfl
  | done => exact absurd rfl unfinished

/-- While a request is unfinished, some request can move. -/
theorem Phase.ready {setting : Setting} {σ : State} {id : Nat} {old : Progress}
    (phase : Phase setting σ) (guarded : Guarded σ) (here : σ.requests id = some old)
    (unfinished : ∀ outcome, old ≠ .done outcome) : ∃ mover, Ready setting σ mover := by
  cases phase with
  | quiet bare closed sent others =>
      refine ⟨id, .inl fun now => ⟨(others id old here).moves here ?_, fun again => ?_⟩⟩
      · rintro channel rfl
        -- a flight in progress has a leader, and there is none yet
        obtain ended | ⟨leader, progress, leads, leading⟩ := guarded.waited here
        · exact ended
        · cases others leader progress leads with
          | second known | secondEntry known => exact known.elim
          | _ => cases leading
      · cases others id old here with
        | second known | secondEntry known => exact known.elim
        | _ => simp [here, Progress.readsAgain] at again
  | @leading record leader led bare closed leads leading others =>
      refine ⟨leader, leading.moves leads (none_publishes fun other progress stands => ?_)⟩
      by_cases lead : other = leader
      · subst lead
        obtain rfl := Option.some.inj (stands.symm.trans leads)
        generalize σ.sent = sent at leading
        cases leading <;> rfl
      · cases others other progress stands lead <;> rfl
  | @published leader guard insertion generation bare own closed sent leads others =>
      refine ⟨leader, .inl fun now => ⟨by rw [step_isSome leads]; rfl, fun again => ?_⟩⟩
      simp [leads, Progress.readsAgain] at again
  | @stored record arc leader led keeps sent leads finishing others =>
      have timely : ∀ other, (σ.requests other).any Progress.publishes = false := by
        refine none_publishes fun other progress stands => ?_
        by_cases lead : other = leader
        · subst lead
          obtain rfl := Option.some.inj (stands.symm.trans leads)
          cases finishing <;> rfl
        · obtain searching | ⟨use, finished⟩ := others other progress stands lead
          · cases searching <;> rfl
          · cases finished <;> rfl
      have moves {other progress} (stands : σ.requests other = some progress)
          (unfinished : ∀ outcome, progress ≠ .done outcome)
          (released : ∀ channel, progress = .waits channel → channel ∈ σ.flights.closed) :
          Ready setting σ other := by
        refine .inl fun now => ⟨?_, fun _ => timely⟩
        by_cases lead : other = leader
        · subst lead
          obtain rfl := Option.some.inj (stands.symm.trans leads)
          exact finishing.moves stands (unfinished _)
        · obtain searching | ⟨use, finished⟩ := others other progress stands lead
          · exact searching.moves stands released
          · exact finished.moves stands (unfinished _)
      by_cases released : ∀ channel, old = .waits channel → channel ∈ σ.flights.closed
      · exact ⟨id, moves here unfinished released⟩
      · obtain ⟨channel, rfl, unclosed⟩ : ∃ channel, old = .waits channel ∧
            channel ∉ σ.flights.closed := by
          simpa using released
        obtain ended | ⟨other, progress, stands, leading⟩ := guarded.waited here
        · exact absurd ended unclosed
        · exact ⟨other, moves stands (by rintro _ rfl; cases leading)
            (by rintro _ rfl; cases leading)⟩

/-- One request has been sent at most, and it alone is answered by the
origin; every other is answered from the store, in the end. -/
structure SentOnce (setting : Setting) (σ : State) : Prop where
  sent : σ.sent ≤ 1
  answered : ∀ id outcome, σ.requests id = some (.done outcome) →
    outcome = .fromOrigin ∨ ∃ entry use,
      σ.memory.store.find setting.primary setting.headers = some entry ∧
      outcome = .cached entry.response use
  once : ∀ id id', σ.requests id = some (.done .fromOrigin) →
    σ.requests id' = some (.done .fromOrigin) → id = id'
  moves : ∀ id progress, σ.requests id = some progress → (∀ outcome, progress ≠ .done outcome) →
    ∃ mover, Ready setting σ mover
  complete : (∀ id progress, σ.requests id = some progress → ∃ outcome, progress = .done outcome) →
    ∀ id progress, σ.requests id = some progress →
      σ.sent = 1 ∧ ∃ leader, σ.requests leader = some (.done .fromOrigin)

theorem Phase.sentOnce {setting : Setting} {σ : State} (phase : Phase setting σ)
    (guarded : Guarded σ) : SentOnce setting σ := by
  have ready := fun id progress (here : σ.requests id = some progress) =>
    phase.ready guarded here
  cases phase with
  | quiet bare closed sent others =>
      refine ⟨by omega, ?_, ?_, ready, ?_⟩
      · intro id outcome done
        cases others id _ done
      · intro id id' done
        cases others id _ done
      · intro finished id progress here
        obtain ⟨outcome, rfl⟩ := finished id progress here
        cases others id _ here
  | @leading record leader led bare closed leads leading others =>
      have unfinished {id outcome} (done : σ.requests id = some (.done outcome)) : False := by
        by_cases lead : id = leader
        · subst lead
          obtain rfl := Option.some.inj (done.symm.trans leads)
          generalize σ.sent = sent at leading
          cases leading
        · cases others id _ done lead
      refine ⟨leading.sent_le, fun _ _ done => (unfinished done).elim,
        fun _ _ done => (unfinished done).elim, ready, fun finished => ?_⟩
      obtain ⟨outcome, rfl⟩ := finished leader led leads
      exact (unfinished leads).elim
  | @published leader guard insertion generation bare own closed sent leads others =>
      have unfinished {id outcome} (done : σ.requests id = some (.done outcome)) : False := by
        by_cases lead : id = leader
        · subst lead
          cases done.symm.trans leads
        · cases others id _ done lead
      refine ⟨sent.le, fun _ _ done => (unfinished done).elim,
        fun _ _ done => (unfinished done).elim, ready, fun finished => ?_⟩
      obtain ⟨outcome, done⟩ := finished leader _ leads
      cases done
  | @stored record arc leader led keeps sent leads finishing others =>
      have found : σ.memory.store.find setting.primary setting.headers =
          some ⟨arc, Store.keyFor setting.primary record setting.headers⟩ := by
        simp [Store.find, keeps.index, keeps.found]
      -- who is done is the leader, or has the response that it stored
      have led_or {id outcome} (done : σ.requests id = some (.done outcome)) :
          id = leader ∧ outcome = .fromOrigin ∨ ∃ use, outcome = .cached arc use := by
        by_cases lead : id = leader
        · subst lead
          obtain rfl := Option.some.inj (done.symm.trans leads)
          cases finishing
          exact .inl ⟨rfl, rfl⟩
        · obtain searching | ⟨use, finished⟩ := others id _ done lead
          · cases searching
          · cases finished
            exact .inr ⟨use, rfl⟩
      refine ⟨sent.le, ?_, ?_, ready, ?_⟩
      · intro id outcome done
        obtain ⟨-, rfl⟩ | ⟨use, rfl⟩ := led_or done
        · exact .inl rfl
        · exact .inr ⟨_, use, found, rfl⟩
      · intro id id' done done'
        obtain ⟨rfl, -⟩ | ⟨use, cached⟩ := led_or done
        · obtain ⟨rfl, -⟩ | ⟨use, cached⟩ := led_or done'
          · rfl
          · cases cached
        · cases cached
      · intro finished _ _ _
        obtain ⟨outcome, rfl⟩ := finished leader led leads
        cases finishing
        exact ⟨sent, leader, leads⟩

/-- Concurrent misses reach the origin once when every step is timely. A
run cannot go on for ever, and a run that cannot go on is complete. -/
theorem misses_reach_origin_once {setting : Setting} {store : Store} {events : List Event}
    {σ : State} (coalesces : setting.Coalesces) (enabled : store.enabled = true)
    (empty : ∀ key, key.primary = setting.primary → store.responseAt key = none)
    (assumed : Runs.Along (step setting) (Assumed setting) (start store) events)
    (timely : Runs.Along (step setting) Timely (start store) events)
    (h : Runs.run (step setting) (start store) events = some σ) :
    SentOnce setting σ ∧
      events.countP (!·.isArrival) ≤ longest * events.countP Event.isArrival := by
  have begins : Phase setting (start store) :=
    .quiet ⟨enabled, rfl, empty⟩ rfl rfl fun _ _ stands => by cases stands
  have preserved (σ : State) (event : Event) (σ' : State) (kept : Guarded σ ∧ Phase setting σ)
      (condition : Assumed setting σ event ∧ Timely σ event)
      (hstep : step setting σ event = some σ') : Guarded σ' ∧ Phase setting σ' :=
    ⟨kept.1.step hstep, kept.2.step coalesces kept.1 condition.1 condition.2 hstep⟩
  have ends := Runs.invariant_along preserved ⟨guarded_start store, begins⟩
    (assumed.and timely) h
  exact ⟨ends.2.sentOnce ends.1, steps_bounded h⟩

end

/-! ## Two requests -/

/-- A response that the origin negotiates by `Accept-Encoding`. -/
def negotiated : Head where
  status := .ok
  fields := [(header.cacheControl, maxAgeMinute),
    (header.vary, ⟨ascii "accept-encoding", by decide⟩)]

def exampleSetting : Setting := ⟨examplePrimary, []⟩

def exampleStore : Store := Store.new 1 (Duration.fromSecs 3600)

/-- `count` steps of one request. -/
def steps (id count : Nat) : List Event := List.replicate count (.step id exampleClock)

/-- Request 0 looks, leads and goes to the origin. -/
def leaderSent : List Event := .arrive 0 :: steps 0 5

/-- Request 1 follows it, and both are answered. -/
def followerWaits : List Event :=
  leaderSent ++ .arrive 1 :: steps 1 3 ++
    [.answered 0 negotiated exampleClock, .ended 0 []] ++ steps 0 6 ++ steps 1 3

/-- Request 0 has written the index when request 1 arrives. -/
def leadsInWindow : List Event :=
  leaderSent ++ [.answered 0 negotiated exampleClock, .ended 0 []] ++ steps 0 3 ++
    .arrive 1 :: steps 1 7

/-- The next step is no leader's read of the entries. -/
def unread (σ : State) : Event → Bool
  | .step id _ => !(σ.requests id).any Progress.readsAgain
  | _ => true

theorem timely_of_unread {σ : State} {event : Event} (h : unread σ event = true) :
    Timely σ event := by
  cases event with
  | step id now =>
      intro again
      simp [unread, again] at h
  | arrive | answered | ended => trivial

set_option maxRecDepth 4000 in
theorem misses_reach_origin_once_example : ∃ (_ : HttpDate) (σ : State),
    Runs.run (step exampleSetting) (start exampleStore) followerWaits = some σ ∧
      (∃ response, σ.requests 1 = some (.done (.cached response .coalesced))) ∧
      SentOnce exampleSetting σ ∧ followerWaits.countP (!·.isArrival) ≤
        longest * followerWaits.countP Event.isArrival := by
  let dates : HttpDate := ⟨fun _ => none⟩
  have assumed : Runs.Along (step exampleSetting) (Assumed exampleSetting) (start exampleStore)
      followerWaits := by decide
  have unread : Runs.Along (step exampleSetting) (fun σ event => unread σ event = true)
      (start exampleStore) followerWaits := by decide
  obtain ⟨σ, hrun, coalesced⟩ : ∃ σ, Runs.run (step exampleSetting) (start exampleStore)
      followerWaits = some σ ∧
        ∃ response, σ.requests 1 = some (.done (.cached response .coalesced)) :=
    ⟨_, rfl, _, rfl⟩
  exact ⟨dates, σ, hrun, coalesced, misses_reach_origin_once ⟨by decide, by decide⟩ (by decide)
    (fun _ _ => rfl) assumed (unread.mono fun _ _ => timely_of_unread) hrun⟩

set_option maxRecDepth 4000 in
/-- Request 1 reads the entries between the two writes, under the flight key
that the first of them has made, and both requests are sent. -/
theorem vary_window_sends_twice : ∃ (_ : HttpDate) (σ : State),
    exampleSetting.Coalesces ∧ exampleStore.enabled = true ∧
      (∀ key, exampleStore.responseAt key = none) ∧
      Runs.Along (step exampleSetting) (Assumed exampleSetting) (start exampleStore)
        leadsInWindow ∧
      Runs.run (step exampleSetting) (start exampleStore) leadsInWindow = some σ ∧
      σ.sent = 2 := by
  let dates : HttpDate := ⟨fun _ => none⟩
  have assumed : Runs.Along (step exampleSetting) (Assumed exampleSetting) (start exampleStore)
      leadsInWindow := by decide
  exact ⟨dates, _, ⟨by decide, by decide⟩, by decide, fun _ => rfl, assumed, rfl, rfl⟩

end Misses

end Shadowstep
