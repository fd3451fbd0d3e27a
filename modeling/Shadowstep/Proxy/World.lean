import Shadowstep.Lib.Runs
import Shadowstep.Proxy.Forward

/-!
# The proxy at work

Any number of requests, each in `forward` or in the stream of its body, and
the background tasks that revalidate, over one store and one flight map. The
clock never goes back, and moka returns no entry past its expiry.

A step goes from one await to the next, and no other step comes between. So a
call on the store is one step: `Concurrent.call_alone` says that this is what
its accesses come to when those of no other call lie between. Calls that do
overlap are the matter of `Cache.Concurrent` and of what imports it. And a step
reads the clock once, where the source reads it anew for the freshness, the
stale windows and the `Age` of one response.

* `World.step` — one step of one request or task, or of moka.
-/

namespace Shadowstep

open Rust

/-! ## Expiry -/

def expired (now : Instant) : Entry → Bool
  | .asset _ => false
  | .response response => entryTtl (.response response) ≤ response.val.elapsed now

/-- The entries that moka still returns. -/
def Store.expire (store : Store) (now : Instant) : Store :=
  { store with entries := fun key => (store.entries key).filter fun entry => !expired now entry }

theorem Store.responseAt_expire {store : Store} {now : Instant} {key : ResponseKey}
    {arc : Arc StoredResponse} (h : (store.expire now).responseAt key = some arc) :
    store.responseAt key = some arc ∧ expired now (.response arc) = false := by
  simp only [responseAt, expire] at h ⊢
  cases entry : store.entries (.response key) with
  | none => simp [entry] at h
  | some found =>
      simp only [entry, Option.filter_some] at h
      split at h <;> simp_all

/-! ## The machine -/

structure Request where
  req : HttpRequest
  stage : Stage

/-- An answer that a request got. -/
structure Given where
  id : Nat
  req : HttpRequest
  now : Instant
  cause : Cause
  response : HttpResponse

structure World where
  store : Store
  flights : Flights FlightKey
  requests : Nat → Option Request
  tasks : Nat → Option Task
  /-- how many background tasks there have been -/
  spawned : Nat
  /-- the last reading of the clock -/
  clock : Instant
  /-- every effect of a step, in order -/
  log : List Effect
  answers : List Given
  /-- a panic ends the process -/
  aborted : Bool

namespace World

inductive Event where
  | arrive (id : Nat) (req : HttpRequest)
  /-- a lookup -/
  | look (id : Nat) (now : Clock)
  | join (id : Nat)
  /-- the leader's guard has dropped -/
  | wake (id : Nat)
  /-- a follower stops waiting -/
  | timeOut (id : Nat)
  | prepare (id : Nat) (body : BodyStart)
  /-- the origin's response headers -/
  | answered (id : Nat) (head : Head) (now : Clock)
  /-- no response headers, for an error or for the timeout -/
  | failed (id : Nat) (timedOut : Bool) (now : Clock)
  /-- the origin's body yields something to the client's poll -/
  | body (id : Nat) (item : Item) (now : Clock)
  /-- the client goes away, or the body's stream drops after its end -/
  | disconnect (id : Nat)
  | refreshed (task : Nat) (head : Head) (now : Clock)
  | refreshFailed (task : Nat)
  | refreshBody (task : Nat) (body : Option Bytes) (now : Clock)
  | insertAsset (path : Path) (content : Bytes) (etag : Text) (modified : SystemTime)
  | evictIndex (primary : PrimaryKey)
  | evictEntry (key : Key)

def start (sizeMb : UInt64) (ttl : Duration) : World where
  store := .new sizeMb ttl
  flights := .empty
  requests := fun _ => none
  tasks := fun _ => none
  spawned := 0
  clock := .zero
  log := []
  answers := []
  aborted := false

/-- A guard's drop ends its flight. -/
def endFlight (flights : Flights FlightKey) : Effect → Flights FlightKey
  | .dropped _ flight => (flights.remove flight).close flight
  | _ => flights

/-- The world after one step of a request. -/
def settle (σ : World) (id : Nat) (req : HttpRequest) (outcome : Outcome) : World where
  store := outcome.store
  flights := outcome.effects.foldl endFlight σ.flights
  requests := Function.update σ.requests id (some ⟨req, outcome.stage⟩)
  tasks := match outcome.spawned with
    | some (task, _) => Function.update σ.tasks σ.spawned (some task)
    | none => σ.tasks
  spawned := σ.spawned + outcome.spawned.toList.length
  clock := σ.clock
  log := σ.log ++ outcome.effects ++
    outcome.spawned.toList.map fun (_, request) => .sent (.task σ.spawned) request
  answers := σ.answers ++ (outcome.answer.bind fun answer =>
    answer.response.map fun response => ⟨id, req, σ.clock, answer.cause, response⟩).toList
  aborted := outcome.panics

/-- A task's step. When the task has ended its `RefreshGuard` drops. -/
def settleTask (σ : World) (id : Nat) (task : Task)
    (outcome : Store × List Effect × TaskStage) : World :=
  let (store, effects, stage) := outcome
  { σ with
    store := match stage with
      | .ended => store.endRefresh task.guard
      | _ => store
    tasks := Function.update σ.tasks id (some { task with stage := stage })
    log := σ.log ++ effects }

/-- The clock advances, and entries expire. -/
def tick (σ : World) (now : Instant) : World :=
  { σ with clock := now, store := σ.store.expire now }

/-- The world at a reading of the clock, which is no earlier than the last. -/
def reading (σ : World) (now : Clock) : Option World :=
  if σ.clock ≤ now.instant then some (σ.tick now.instant) else none

/-- One step of a request, by what it comes to. -/
def proceed (σ : World) (id : Nat) (outcome : Store → HttpRequest → Stage → Option Outcome) :
    Option World := do
  let request ← σ.requests id
  let outcome ← outcome σ.store request.req request.stage
  return σ.settle id request.req outcome

/-- One step of a task, by what it comes to. -/
def proceedTask (σ : World) (id : Nat)
    (outcome : Store → Task → Option (Store × List Effect × TaskStage)) : Option World := do
  let task ← σ.tasks id
  let outcome ← outcome σ.store task
  return σ.settleTask id task outcome

/-- The drop of `forward`'s future at an await, or of its body's stream. -/
def hangUp (id : Nat) (store : Store) : Stage → Option Outcome
  | .first | .follows _ => some (goesOn store [] .done)
  | .prepares toOrigin => some (goesOn store (released id toOrigin.flight) .done)
  | .exchanges exchange => some (goesOn store (released id exchange.flight) .done)
  | .streams tee => some (goesOn store (tee.discard id).1 .done)
  | _ => none

/-- What joining a flight comes to. -/
def afterJoin (id : Nat) (store : Store) (stale : Option StaleEntry) : Join FlightKey → Outcome
  | .alone => goesOn store [] (.prepares ⟨stale, none⟩)
  | .lead flight => goesOn store [.led id flight] (.again (some flight) .hit)
  | .follow channel => goesOn store [] (.follows channel)

theorem reading_eq {σ σ₀ : World} {now : Clock} (h : σ.reading now = some σ₀) :
    σ.clock ≤ now.instant ∧ σ₀ = σ.tick now.instant := by
  unfold reading at h
  split at h
  case isTrue later => exact ⟨later, (Option.some.inj h).symm⟩
  case isFalse => cases h

theorem proceed_eq {σ σ' : World} {id : Nat}
    {outcome : Store → HttpRequest → Stage → Option Outcome} (h : σ.proceed id outcome = some σ') :
    ∃ request result, σ.requests id = some request ∧
      outcome σ.store request.req request.stage = some result ∧
      σ' = σ.settle id request.req result := by
  simp only [proceed, Option.bind_eq_bind, Option.bind_eq_some_iff, Option.pure_def] at h
  obtain ⟨request, here, result, hresult, hσ⟩ := h
  exact ⟨request, result, here, hresult, (Option.some.inj hσ).symm⟩

theorem proceedTask_eq {σ σ' : World} {id : Nat}
    {outcome : Store → Task → Option (Store × List Effect × TaskStage)}
    (h : σ.proceedTask id outcome = some σ') :
    ∃ task result, σ.tasks id = some task ∧ outcome σ.store task = some result ∧
      σ' = σ.settleTask id task result := by
  simp only [proceedTask, Option.bind_eq_bind, Option.bind_eq_some_iff, Option.pure_def] at h
  obtain ⟨task, here, result, hresult, hσ⟩ := h
  exact ⟨task, result, here, hresult, (Option.some.inj hσ).symm⟩

theorem settle_tasks {σ : World} {id other : Nat} {req : HttpRequest} {outcome : Outcome}
    {task : Task} (h : (σ.settle id req outcome).tasks other = some task) :
    (∃ request, outcome.spawned = some (task, request)) ∨ σ.tasks other = some task := by
  unfold settle at h
  cases spawned : outcome.spawned with
  | none => exact .inr (by simpa only [spawned] using h)
  | some pair =>
      simp only [spawned] at h
      obtain ⟨-, rfl⟩ | ⟨-, before⟩ := Runs.update_cases h
      · exact .inl ⟨pair.2, rfl⟩
      · exact .inr before

/-- A request's step adds its effects to the log, and the request that a new
task sends. -/
theorem settle_log (σ : World) (id : Nat) (req : HttpRequest) (outcome : Outcome) :
    ∃ sent : List Effect, (σ.settle id req outcome).log = σ.log ++ outcome.effects ++ sent ∧
      ∀ effect ∈ sent, ∃ request, effect = .sent (.task σ.spawned) request := by
  refine ⟨_, rfl, fun effect h => ?_⟩
  rcases List.mem_map.mp h with ⟨⟨task, request⟩, -, rfl⟩
  exact ⟨request, rfl⟩

theorem mem_settle_answers {σ : World} {id : Nat} {req : HttpRequest} {outcome : Outcome}
    {given : Given} : given ∈ (σ.settle id req outcome).answers ↔ given ∈ σ.answers ∨
      ∃ answer response, outcome.answer = some answer ∧ answer.response = some response ∧
        given = ⟨id, req, σ.clock, answer.cause, response⟩ := by
  simp only [settle, List.mem_append, Option.mem_toList, Option.bind_eq_some_iff,
    Option.map_eq_some_iff, exists_and_left, eq_comm (a := given)]

/-! ## Held responses -/

/-- Every response that a request or a task holds. -/
structure Holds (P : Arc StoredResponse → Prop) (σ : World) : Prop where
  requests : ∀ id request entry, σ.requests id = some request →
    request.stage.stale = some entry → P entry.response
  tasks : ∀ id task, σ.tasks id = some task → P task.entry.response

/-- Every response in the store. -/
def Stores (P : Arc StoredResponse → Prop) (store : Store) : Prop :=
  ∀ key arc, store.responseAt key = some arc → P arc

theorem Stores.expire {P : Arc StoredResponse → Prop} {store : Store} (stores : Stores P store)
    (now : Instant) : Stores P (store.expire now) :=
  fun key arc h => stores key arc (Store.responseAt_expire h).1

/-- moka has dropped every response past its expiry. -/
def Unexpired (σ : World) : Prop :=
  Stores (fun arc => expired σ.clock (.response arc) = false) σ.store

theorem tick_unexpired (σ : World) (now : Instant) : Unexpired (σ.tick now) :=
  fun _ _ h => (Store.responseAt_expire h).2

theorem holds_of_found {P : Arc StoredResponse → Prop} {store : Store} {req : HttpRequest}
    {entry : StaleEntry} (found : Found store req entry) (stores : Stores P store) :
    P entry.response := by
  obtain ⟨index, -, -, here⟩ := Store.find_eq_some.mp found.found
  exact stores _ _ here

theorem Holds.start (P : Arc StoredResponse → Prop) (sizeMb : UInt64) (ttl : Duration) :
    Holds P (start sizeMb ttl) :=
  ⟨fun _ _ _ h => (by cases h), fun _ _ h => (by cases h)⟩

theorem Holds.settle {P : Arc StoredResponse → Prop} {σ : World} (holds : Holds P σ) {id : Nat}
    {req : HttpRequest} {outcome : Outcome}
    (stale : ∀ entry, outcome.stage.stale = some entry → P entry.response)
    (spawned : ∀ task request, outcome.spawned = some (task, request) → P task.entry.response) :
    Holds P (σ.settle id req outcome) where
  requests other request entry h held := by
    obtain ⟨-, rfl⟩ | ⟨-, before⟩ := Runs.update_cases h
    · exact stale entry held
    · exact holds.requests other request entry before held
  tasks other task h := by
    obtain ⟨request, new⟩ | before := settle_tasks h
    · exact spawned task request new
    · exact holds.tasks other task before

/-! ## Steps -/

variable [HttpDate]

section

variable [UriSyntax] (base : OriginUrl)

/-- A lookup of a request. -/
def look (id : Nat) (now : Instant) (store : Store) (req : HttpRequest) : Stage → Option Outcome
  | .first => some (Cached.or id none .joins (fromCache base store req .hit now))
  | .again flight use => some (Cached.or id flight (fun stale => .prepares ⟨stale, flight⟩)
      (fromCache base store req use now))
  | _ => none

def step (σ : World) (event : Event) : Option World :=
  if σ.aborted then none
  else
    match event with
    | .arrive id req =>
      if (σ.requests id).isNone then some (σ.settle id req (goesOn σ.store [] .first)) else none
    | .look id now => do (← σ.reading now).proceed id (look base id now.instant)
    | .join id => do
      let request ← σ.requests id
      match request.stage with
      | .joins stale =>
        let (join, flights) := joinFlight σ.store σ.flights request.req
        some ({ σ with flights := flights }.settle id request.req
          (afterJoin id σ.store stale join))
      | _ => none
    | .wake id => σ.proceed id fun store _ stage =>
      match stage with
      | .follows channel =>
        if channel ∈ σ.flights.closed then some (goesOn store [] (.again none .coalesced))
        else none
      | _ => none
    | .timeOut id => σ.proceed id fun store _ stage =>
      match stage with
      | .follows _ => some (goesOn store [] (.again none .coalesced))
      | _ => none
    | .prepare id body => σ.proceed id fun store req stage =>
      match stage with
      | .prepares toOrigin => some (prepare base id store req toOrigin body)
      | _ => none
    | .answered id head now => do
      (← σ.reading now).proceed id fun store req stage =>
        match stage with
        | .exchanges exchange => some (exchange.answered id store req head now)
        | _ => none
    | .failed id timedOut now => do
      (← σ.reading now).proceed id fun store req stage =>
        match stage with
        | .exchanges exchange =>
          let status := if timedOut then .gatewayTimeout else .badGateway
          some (exchange.failed id store req status now.instant)
        | _ => none
    | .body id item now => do
      (← σ.reading now).proceed id fun store _ stage =>
        match stage with
        | .streams tee =>
          let (store, effects, tee) := tee.poll id store item now
          some (goesOn store effects (.streams tee))
        | _ => none
    | .disconnect id => σ.proceed id fun store _ stage => hangUp id store stage
    | .refreshed id head now => do
      (← σ.reading now).proceedTask id fun store task =>
        match task.stage with
        | .awaits => some (task.refresh id store head now)
        | _ => none
    | .refreshFailed id => σ.proceedTask id fun store task =>
        match task.stage with
        | .awaits => some (store, [], .ended)
        | _ => none
    | .refreshBody id body now => do
      (← σ.reading now).proceedTask id fun store task =>
        match task.stage with
        | .collects storing head =>
          let (store, effects) := Task.collected id store storing head body now
          some (store, effects, .ended)
        | _ => none
    | .insertAsset path content etag modified =>
      some { σ with store := (σ.store.insertAsset path content etag modified).2 }
    | .evictIndex primary => some { σ with store := σ.store.removeIndex primary }
    | .evictEntry key => some { σ with store := σ.store.removeEntry key }

end

/-! ## What a step can be -/

/-- What one step of a request can be, at the clock of the world. -/
inductive Moves (σ : World) (id : Nat) (req : HttpRequest) : Stage → Outcome → Prop
  | lookFirst {refreshing cached spawned} (unexpired : Unexpired σ)
      (found : FromCache σ.store req .hit σ.clock cached spawned) :
    Moves σ id req .first
      (Cached.or id none .joins (cached, { σ.store with refreshing := refreshing }, spawned))
  | lookAgain {flight use refreshing cached spawned} (unexpired : Unexpired σ)
      (found : FromCache σ.store req use σ.clock cached spawned) :
    Moves σ id req (.again flight use) (Cached.or id flight (fun stale => .prepares ⟨stale, flight⟩)
      (cached, { σ.store with refreshing := refreshing }, spawned))
  | wake {channel} :
    Moves σ id req (.follows channel) (goesOn σ.store [] (.again none .coalesced))
  | refused {toOrigin status} :
    Moves σ id req (.prepares toOrigin)
      (reply id σ.store [] toOrigin.flight ⟨.failed, some (errorResponse status)⟩)
  | sent {toOrigin request revalidating} (conditional : revalidating = true →
        (RequestPolicy.new req.method req.headers).conditional = false) :
    Moves σ id req (.prepares toOrigin) (goesOn σ.store [.sent (.request id) request]
      (.exchanges ⟨toOrigin.stale, revalidating, toOrigin.flight⟩))
  | revalidated {exchange stale head now} (clock : now.instant = σ.clock)
      (found : exchange.stale = some stale) (revalidating : exchange.revalidating = true) :
    Moves σ id req (.exchanges exchange) (exchange.revalidated id σ.store req stale head now)
  | onError {exchange stale status} (found : exchange.stale = some stale)
      (error : ∀ code ∈ status, code ∈ errorStatuses)
      (mayServe : Exchange.mayServeOnError req stale σ.clock = true) :
    Moves σ id req (.exchanges exchange) (exchange.serveStale id σ.store stale status σ.clock)
  | forwarded {exchange head now} (clock : now.instant = σ.clock) :
    Moves σ id req (.exchanges exchange) (exchange.forwarded id σ.store req head now)
  | failed {exchange : Exchange} {status} :
    Moves σ id req (.exchanges exchange)
      (reply id σ.store [] exchange.flight ⟨.failed, some (errorResponse status)⟩)
  | body {tee item now} (clock : now.instant = σ.clock) :
    Moves σ id req (.streams tee) (goesOn (tee.poll id σ.store item now).1
      (tee.poll id σ.store item now).2.1 (.streams (tee.poll id σ.store item now).2.2))
  | hangUp {stage outcome} (h : hangUp id σ.store stage = some outcome) :
    Moves σ id req stage outcome

/-- What one step of a task can be. -/
inductive TaskMoves (σ : World) (id : Nat) (task : Task) : Store × List Effect × TaskStage → Prop
  | refreshed {head now} (clock : now.instant = σ.clock) (stage : task.stage = .awaits) :
    TaskMoves σ id task (task.refresh id σ.store head now)
  | failed : TaskMoves σ id task (σ.store, [], .ended)
  | body {storing head body now} (clock : now.instant = σ.clock)
      (stage : task.stage = .collects storing head) :
    TaskMoves σ id task ((Task.collected id σ.store storing head body now).1,
      (Task.collected id σ.store storing head body now).2, .ended)

/-- What one step of the machine can be. `σ₀` is the world at the reading of
the clock. -/
inductive Change (σ : World) : World → Prop
  | arrive {id req} (new : σ.requests id = none) :
    Change σ (σ.settle id req (goesOn σ.store [] .first))
  | request {σ₀ id request outcome} (time : σ₀ = σ ∨ ∃ now, σ.clock ≤ now ∧ σ₀ = σ.tick now)
      (here : σ.requests id = some request)
      (moves : Moves σ₀ id request.req request.stage outcome) :
    Change σ (σ₀.settle id request.req outcome)
  | join {id request stale} (here : σ.requests id = some request)
      (stage : request.stage = .joins stale) :
    Change σ ({ σ with flights := (joinFlight σ.store σ.flights request.req).2 }.settle id
      request.req (afterJoin id σ.store stale (joinFlight σ.store σ.flights request.req).1))
  | task {σ₀ id task outcome} (time : σ₀ = σ ∨ ∃ now, σ.clock ≤ now ∧ σ₀ = σ.tick now)
      (here : σ.tasks id = some task) (moves : TaskMoves σ₀ id task outcome) :
    Change σ (σ₀.settleTask id task outcome)
  | insertAsset {path content etag modified} :
    Change σ { σ with store := (σ.store.insertAsset path content etag modified).2 }
  | evictIndex {primary} : Change σ { σ with store := σ.store.removeIndex primary }
  | evictEntry {key} : Change σ { σ with store := σ.store.removeEntry key }

/-- What a reading of the clock leaves as it was. -/
structure AtReading (σ σ₀ : World) : Prop where
  requests : σ₀.requests = σ.requests
  tasks : σ₀.tasks = σ.tasks
  log : σ₀.log = σ.log
  answers : σ₀.answers = σ.answers
  aborted : σ₀.aborted = σ.aborted
  stores : ∀ {P : Arc StoredResponse → Prop}, Stores P σ.store → Stores P σ₀.store

omit [HttpDate] in
theorem at_reading {σ σ₀ : World} (time : σ₀ = σ ∨ ∃ now, σ.clock ≤ now ∧ σ₀ = σ.tick now) :
    AtReading σ σ₀ := by
  rcases time with rfl | ⟨now, -, rfl⟩
  · exact ⟨rfl, rfl, rfl, rfl, rfl, id⟩
  · exact ⟨rfl, rfl, rfl, rfl, rfl, fun stores => stores.expire now⟩

/-- A step of a request at the world's own clock. -/
theorem change_of_proceed {σ σ' : World} {id : Nat}
    {outcome : Store → HttpRequest → Stage → Option Outcome}
    (moves : ∀ req stage result, outcome σ.store req stage = some result →
      Moves σ id req stage result)
    (h : σ.proceed id outcome = some σ') : Change σ σ' := by
  obtain ⟨request, result, here, hresult, rfl⟩ := proceed_eq h
  exact .request (.inl rfl) here (moves _ _ _ hresult)

/-- A step of a request at a reading of the clock. -/
theorem change_of_reading {σ σ' : World} {id : Nat} {now : Clock}
    {outcome : Store → HttpRequest → Stage → Option Outcome}
    (moves : ∀ req stage result,
      outcome (σ.tick now.instant).store req stage = some result →
        Moves (σ.tick now.instant) id req stage result)
    (h : ((σ.reading now).bind fun σ => σ.proceed id outcome) = some σ') : Change σ σ' := by
  obtain ⟨σ₀, hreading, h⟩ := Option.bind_eq_some_iff.mp h
  obtain ⟨later, rfl⟩ := reading_eq hreading
  obtain ⟨request, result, here, hresult, rfl⟩ := proceed_eq h
  exact .request (.inr ⟨_, later, rfl⟩) here (moves _ _ _ hresult)

theorem moves_answered {σ : World} {id : Nat} {req : HttpRequest} {exchange : Exchange}
    {head : Head} {now : Clock} {outcome : Outcome} (clock : now.instant = σ.clock)
    (answered : exchange.Answered id σ.store req head now outcome) :
    Moves σ id req (.exchanges exchange) outcome := by
  cases answered with
  | revalidated found revalidating => exact .revalidated clock found revalidating
  | stale found error mayServe =>
      rw [clock] at mayServe ⊢
      exact .onError found (fun code h => by cases h; exact error) mayServe
  | forwarded => exact .forwarded clock

section

variable [UriSyntax] {base : OriginUrl}

theorem moves_lookFirst {σ : World} (unexpired : Unexpired σ) (id : Nat) (req : HttpRequest) :
    Moves σ id req .first (Cached.or id none .joins (fromCache base σ.store req .hit σ.clock)) := by
  obtain ⟨⟨refreshing, same⟩, found⟩ := fromCache_spec base σ.store req .hit σ.clock
  have moves : Moves σ id req .first (Cached.or id none .joins
      ((fromCache base σ.store req .hit σ.clock).1, { σ.store with refreshing := refreshing },
        (fromCache base σ.store req .hit σ.clock).2.2)) := .lookFirst unexpired found
  rwa [← same] at moves

theorem moves_lookAgain {σ : World} (unexpired : Unexpired σ) (id : Nat) (req : HttpRequest)
    (flight : Option Flight) (use : FreshUse) :
    Moves σ id req (.again flight use) (Cached.or id flight (fun stale => .prepares ⟨stale, flight⟩)
      (fromCache base σ.store req use σ.clock)) := by
  obtain ⟨⟨refreshing, same⟩, found⟩ := fromCache_spec base σ.store req use σ.clock
  have moves : Moves σ id req (.again flight use) (Cached.or id flight
      (fun stale => .prepares ⟨stale, flight⟩)
      ((fromCache base σ.store req use σ.clock).1, { σ.store with refreshing := refreshing },
        (fromCache base σ.store req use σ.clock).2.2)) := .lookAgain unexpired found
  rwa [← same] at moves

/-- A step is one of these. -/
theorem step_cases {σ σ' : World} {event : Event} (h : step base σ event = some σ') :
    σ.aborted = false ∧ Change σ σ' := by
  unfold step at h
  split at h
  case isTrue => cases h
  case isFalse running =>
    refine ⟨by simpa using running, ?_⟩
    cases event with
    | arrive id req =>
        simp only at h
        split at h
        case isTrue new =>
          obtain rfl := Option.some.inj h
          exact .arrive (Option.isNone_iff_eq_none.mp new)
        case isFalse => cases h
    | look id now =>
        refine change_of_reading (fun req stage result hresult => ?_) h
        cases stage with
        | first =>
            obtain rfl := Option.some.inj hresult
            exact moves_lookFirst (tick_unexpired _ _) id req
        | again flight use =>
            obtain rfl := Option.some.inj hresult
            exact moves_lookAgain (tick_unexpired _ _) id req flight use
        | _ => cases hresult
    | join id =>
        obtain ⟨request, here, h⟩ := Option.bind_eq_some_iff.mp h
        split at h
        case h_1 stale stage =>
          obtain rfl := Option.some.inj h
          exact .join here stage
        case h_2 => cases h
    | wake id =>
        refine change_of_proceed (fun req stage result hresult => ?_) h
        cases stage with
        | follows =>
            simp only at hresult
            split at hresult
            · obtain rfl := Option.some.inj hresult
              exact .wake
            · cases hresult
        | _ => cases hresult
    | timeOut id =>
        refine change_of_proceed (fun req stage result hresult => ?_) h
        cases stage with
        | follows =>
            obtain rfl := Option.some.inj hresult
            exact .wake
        | _ => cases hresult
    | prepare id body =>
        refine change_of_proceed (fun req stage result hresult => ?_) h
        cases stage with
        | prepares toOrigin =>
            obtain rfl := Option.some.inj hresult
            obtain ⟨status, h⟩ | ⟨request, revalidating, h, conditional⟩ :=
              prepare_cases base id σ.store req toOrigin body
            · exact h ▸ .refused
            · exact h ▸ .sent conditional
        | _ => cases hresult
    | answered id head now =>
        refine change_of_reading (fun req stage result hresult => ?_) h
        cases stage with
        | exchanges exchange =>
            obtain rfl := Option.some.inj hresult
            exact moves_answered rfl (exchange.answered_cases ..)
        | _ => cases hresult
    | failed id timedOut now =>
        refine change_of_reading (fun req stage result hresult => ?_) h
        cases stage with
        | exchanges exchange =>
            obtain rfl := Option.some.inj hresult
            obtain ⟨stale, found, mayServe, h⟩ | ⟨status, h⟩ := exchange.failed_cases id
              (σ.tick now.instant).store req (if timedOut then .gatewayTimeout else .badGateway)
              now.instant
            · exact h ▸ .onError found (fun _ none => by cases none) mayServe
            · exact h ▸ .failed
        | _ => cases hresult
    | body id item now =>
        refine change_of_reading (fun req stage result hresult => ?_) h
        cases stage with
        | streams =>
            obtain rfl := Option.some.inj hresult
            exact .body rfl
        | _ => cases hresult
    | disconnect id =>
        exact change_of_proceed (fun req stage result hresult => .hangUp hresult) h
    | refreshed id head now =>
        obtain ⟨σ₀, hreading, h⟩ := Option.bind_eq_some_iff.mp h
        obtain ⟨later, rfl⟩ := reading_eq hreading
        obtain ⟨task, result, here, hresult, rfl⟩ := proceedTask_eq h
        split at hresult
        case h_1 stage =>
          obtain rfl := Option.some.inj hresult
          exact .task (.inr ⟨_, later, rfl⟩) here (.refreshed rfl stage)
        case h_2 => cases hresult
    | refreshFailed id =>
        obtain ⟨task, result, here, hresult, rfl⟩ := proceedTask_eq h
        split at hresult
        case h_1 stage =>
          obtain rfl := Option.some.inj hresult
          exact .task (.inl rfl) here .failed
        case h_2 => cases hresult
    | refreshBody id body now =>
        obtain ⟨σ₀, hreading, h⟩ := Option.bind_eq_some_iff.mp h
        obtain ⟨later, rfl⟩ := reading_eq hreading
        obtain ⟨task, result, here, hresult, rfl⟩ := proceedTask_eq h
        split at hresult
        case h_1 storing head stage =>
          obtain rfl := Option.some.inj hresult
          exact .task (.inr ⟨_, later, rfl⟩) here (.body rfl stage)
        case h_2 => cases hresult
    | insertAsset path content etag modified =>
        obtain rfl := Option.some.inj h
        exact .insertAsset
    | evictIndex primary =>
        obtain rfl := Option.some.inj h
        exact .evictIndex
    | evictEntry key =>
        obtain rfl := Option.some.inj h
        exact .evictEntry

end

/-! ## What is held after a step -/

/-- What a request holds after a step it has held before, or its lookup has
found. -/
theorem Moves.found {σ : World} {id : Nat} {req : HttpRequest} {stage : Stage}
    {outcome : Outcome} (moves : Moves σ id req stage outcome) :
    (∀ entry, outcome.stage.stale = some entry →
        stage.stale = some entry ∨ Found σ.store req entry) ∧
      ∀ task request, outcome.spawned = some (task, request) →
        Found σ.store req task.entry ∧ task.stage = .awaits := by
  have nothing {outcome : Outcome} (stale : outcome.stage.stale = none)
      (spawned : outcome.spawned = none) :
      (∀ entry, outcome.stage.stale = some entry →
          stage.stale = some entry ∨ Found σ.store req entry) ∧
        ∀ task request, outcome.spawned = some (task, request) →
          Found σ.store req task.entry ∧ task.stage = .awaits := by
    rw [stale, spawned]
    exact ⟨fun _ h => (by cases h), fun _ _ h => (by cases h)⟩
  cases moves with
  | lookFirst unexpired found =>
      obtain ⟨stale, task⟩ := or_found found id none .joins fun _ => rfl
      exact ⟨fun entry h => .inr (stale entry h), task⟩
  | lookAgain unexpired found =>
      obtain ⟨stale, task⟩ := or_found found id _ (fun stale => .prepares ⟨stale, _⟩) fun _ => rfl
      exact ⟨fun entry h => .inr (stale entry h), task⟩
  | sent => exact ⟨fun _ h => .inl h, fun _ _ h => (by cases h)⟩
  | hangUp h => cases stage <;> cases h <;> exact nothing rfl rfl
  | _ => exact nothing rfl rfl

/-- Whatever is true of every response in the store is true of every response
that is held, from its lookup on. -/
theorem Holds.change {P : Arc StoredResponse → Prop} {σ σ' : World} (holds : Holds P σ)
    (stores : Stores P σ.store) (change : Change σ σ') : Holds P σ' := by
  have held {σ₀ : World} (read : AtReading σ σ₀) : Holds P σ₀ :=
    ⟨fun id request entry h => holds.requests id request entry (read.requests ▸ h),
      fun id task h => holds.tasks id task (read.tasks ▸ h)⟩
  cases change with
  | arrive => exact holds.settle (fun _ h => (by cases h)) (fun _ _ h => (by cases h))
  | @request σ₀ id request outcome time here moves =>
      have read := at_reading time
      rcases moves.found with ⟨stale, spawned⟩
      refine (held read).settle (fun entry h => ?_) fun task request h =>
        holds_of_found (spawned task request h).1 (read.stores stores)
      rcases stale entry h with before | found
      · exact holds.requests id request entry here before
      · exact holds_of_found found (read.stores stores)
  | @join id request stale here stage =>
      have joined : Holds P
          { σ with flights := (joinFlight σ.store σ.flights request.req).2 } :=
        ⟨holds.requests, holds.tasks⟩
      have held : ∀ entry, stale = some entry → P entry.response := fun entry h =>
        holds.requests id request entry here (by rw [stage]; exact h)
      cases (joinFlight σ.store σ.flights request.req).1 with
      | alone => exact joined.settle held (fun _ _ h => (by cases h))
      | lead => exact joined.settle (fun _ h => (by cases h)) (fun _ _ h => (by cases h))
      | follow => exact joined.settle (fun _ h => (by cases h)) (fun _ _ h => (by cases h))
  | @task σ₀ id task outcome time here moves =>
      have holds₀ := held (at_reading time)
      refine ⟨holds₀.requests, fun other task' h => ?_⟩
      rcases Runs.update_cases h with ⟨-, rfl⟩ | ⟨-, before⟩
      · exact holds.tasks id task here
      · exact holds₀.tasks other task' before
  | insertAsset => exact ⟨holds.requests, holds.tasks⟩
  | evictIndex => exact ⟨holds.requests, holds.tasks⟩
  | evictEntry => exact ⟨holds.requests, holds.tasks⟩

end World

end Shadowstep
