import Mathlib.Data.Finset.Basic
import Shadowstep.Lib.Leases
import Shadowstep.Proxy.Events
import Shadowstep.Proxy.Refreshing
import Shadowstep.Proxy.Release

/-!
# What the proxy leaves behind

Two tables outlive every request: the flight map, and the set of responses
that are being revalidated. A key comes into either with a guard, and the
guard wanders through the stages of a request or a task until it drops.

* `World.flightOf`, `World.refreshOf` — who holds which guard;
* `World.Claiming` — what one step does to the claimed revalidations;
* `World.nothing_left_behind` — the tables are what the guards say.
-/

namespace Shadowstep

open Rust

/-! ## The flight map -/

/-- Quiet effects end no flight. -/
theorem Quiet.endFlights {id : Nat} {effects : List Effect} (quiet : Quiet id effects)
    (flights : Flights FlightKey) : effects.foldl World.endFlight flights = flights := by
  induction effects generalizing flights with
  | nil => rfl
  | cons effect rest ih =>
      have still := (quiet effect List.mem_cons_self).2
      have same : World.endFlight flights effect = flights := by
        cases effect with
        | dropped => cases still
        | _ => rfl
      rw [List.foldl_cons, same]
      exact ih (fun other h => quiet other (List.mem_cons_of_mem _ h)) flights

/-- Joining is nothing, or a wait for a flight, or a lease of the key. -/
theorem joinFlight_cases (store : Store) (flights : Flights FlightKey) (req : HttpRequest) :
    joinFlight store flights req = (.alone, flights) ∨
      (∃ key channel, flights.inFlight key = some channel ∧
        joinFlight store flights req = (.follow channel, flights)) ∨
      ∃ key, flights.inFlight key = none ∧
        joinFlight store flights req = (.lead ⟨key, flights.channels⟩,
          ⟨Function.update flights.inFlight key (some flights.channels), flights.channels + 1,
            flights.closed⟩) := by
  unfold joinFlight
  simp only
  split
  · exact .inl rfl
  · split
    · rename_i key _
      unfold Flights.join
      split
      · rename_i channel there
        exact .inr (.inl ⟨key, channel, there, rfl⟩)
      · rename_i free
        split
        · exact .inr (.inr ⟨key, free, rfl⟩)
        · exact .inl rfl
    · exact .inl rfl

/-- A flight as a lease of its key. -/
def lease (flight : Flight) : FlightKey × Nat := (flight.key, flight.channel)

/-- A task has its claim until it ends. -/
def TaskStage.claim (key : ResponseKey) : TaskStage → Option ResponseKey
  | .awaits | .collects .. => some key
  | .ended => none

namespace World

/-- The lease that a request holds. -/
def flightOf (σ : World) (id : Nat) : Option (FlightKey × Nat) :=
  (σ.requests id).bind fun request => request.stage.guard.map lease

/-- The key that a background task has claimed. -/
def refreshOf (σ : World) (id : Nat) : Option ResponseKey :=
  (σ.tasks id).bind fun task => task.stage.claim task.guard.key

theorem flightOf_of_request {σ : World} {id : Nat} {request : Request}
    (here : σ.requests id = some request) :
    σ.flightOf id = request.stage.guard.map lease := by
  rw [flightOf, here, Option.bind_some]

theorem flightOf_settle (σ : World) (id : Nat) (req : HttpRequest) (outcome : Outcome) :
    (σ.settle id req outcome).flightOf =
      Function.update σ.flightOf id (outcome.stage.guard.map lease) := by
  funext other
  by_cases same : other = id
  · subst same
    simp [flightOf, settle]
  · simp [flightOf, settle, Function.update_of_ne same]

/-- The flights that the guards of requests hold, and what followers wait
for. -/
structure Flying (σ : World) : Prop where
  leases : Leases.Sound σ.flights.inFlight σ.flights.channels σ.flights.closed σ.flightOf
  attended : ∀ id request channel, σ.requests id = some request →
    request.stage = .follows channel → Leases.Attended σ.flights.closed σ.flightOf channel

/-- A step that neither begins nor ends a flight. -/
theorem Flying.same {σ σ' : World} (flying : Flying σ) (flights : σ'.flights = σ.flights)
    (held : σ'.flightOf = σ.flightOf)
    (follows : ∀ id request channel, σ'.requests id = some request →
      request.stage = .follows channel → Leases.Attended σ.flights.closed σ.flightOf channel) :
    Flying σ' := by
  constructor
  · rw [flights, held]
    exact flying.leases
  · rw [flights, held]
    exact follows

/-- A request moves on with the guard it has. -/
theorem Flying.keeps {σ σ₀ : World} (flying : Flying σ) {id : Nat} {req : HttpRequest}
    {outcome : Outcome} (requests : σ₀.requests = σ.requests) (flights : σ₀.flights = σ.flights)
    (quiet : Quiet id outcome.effects) (held : σ.flightOf id = outcome.stage.guard.map lease)
    (follows : ∀ channel, outcome.stage = .follows channel →
      Leases.Attended σ.flights.closed σ.flightOf channel) :
    Flying (σ₀.settle id req outcome) := by
  have before : σ₀.flightOf = σ.flightOf := by
    unfold flightOf
    rw [requests]
  refine flying.same ((quiet.endFlights σ₀.flights).trans flights) ?_ ?_
  · rw [flightOf_settle, before, ← held, Function.update_eq_self]
  · intro other request channel h stage
    rcases Runs.update_cases h with ⟨-, rfl⟩ | ⟨-, earlier⟩
    · exact follows channel stage
    · exact flying.attended other request channel (requests ▸ earlier) stage

/-- A request drops its guard. -/
theorem Flying.drops {σ σ₀ : World} (flying : Flying σ) {id : Nat} {req : HttpRequest}
    {outcome : Outcome} {flight : Flight} {before : List Effect}
    (requests : σ₀.requests = σ.requests) (flights : σ₀.flights = σ.flights)
    (held : σ.flightOf id = some (lease flight)) (quiet : Quiet id before)
    (effects : outcome.effects = before ++ [.dropped id flight]) (ended : outcome.stage.Ended) :
    Flying (σ₀.settle id req outcome) := by
  have holds : (σ₀.settle id req outcome).flightOf = Function.update σ.flightOf id none := by
    have same : σ₀.flightOf = σ.flightOf := by
      unfold flightOf
      rw [requests]
    rw [flightOf_settle, ended.guard, same]
    rfl
  have after : (σ₀.settle id req outcome).flights = (σ.flights.remove flight).close flight := by
    show outcome.effects.foldl endFlight σ₀.flights = _
    rw [effects, List.foldl_append, quiet.endFlights, flights]
    rfl
  constructor
  · rw [holds, after]
    exact flying.leases.revoke held
  · intro other request channel h stage
    rw [holds, after]
    refine Leases.Attended.revoke ?_ held
    rcases Runs.update_cases h with ⟨-, rfl⟩ | ⟨-, earlier⟩
    · rw [show outcome.stage = .follows channel from stage] at ended
      exact ended.elim
    · exact flying.attended other request channel (requests ▸ earlier) stage

section

variable [HttpDate]

/-- Only joining a flight makes a follower. -/
theorem Moves.not_follows {σ : World} {id : Nat} {req : HttpRequest} {stage : Stage}
    {outcome : Outcome} (moves : Moves σ id req stage outcome) (channel : Nat) :
    outcome.stage ≠ .follows channel := by
  have looked (flight : Option Flight) (next : Option StaleEntry → Stage)
      (apart : ∀ stale, next stale ≠ .follows channel)
      (cached : Cached × Store × Option (Task × UpstreamRequest)) :
      (Cached.or id flight next cached).stage ≠ .follows channel := by
    rcases cached with ⟨cached, store, spawned⟩
    cases cached with
    | answer => exact fun h => by cases h
    | _ => exact apart _
  cases moves with
  | lookFirst => exact looked _ _ (fun _ h => by cases h) _
  | lookAgain => exact looked _ _ (fun _ h => by cases h) _
  | hangUp h => cases stage <;> cases h <;> exact fun h => by cases h
  | _ => exact fun h => by cases h

theorem Flying.step {σ σ' : World} (flying : Flying σ) (change : Change σ σ') : Flying σ' := by
  cases change with
  | @arrive id req new =>
      refine flying.keeps rfl rfl (.nil id) ?_ (fun _ h => by cases h)
      simp [flightOf, new, goesOn, Stage.guard]
  | @request σ₀ id request outcome time here moves =>
      have read := at_reading time
      have flights : σ₀.flights = σ.flights := by
        rcases time with rfl | ⟨_, -, rfl⟩ <;> rfl
      have holds := flightOf_of_request here
      have handles := Moves.handles moves
      generalize effects : outcome.effects = log at handles
      generalize stage : outcome.stage = after at handles
      cases handles with
      | keeps quiet same =>
          refine flying.keeps read.requests flights (effects ▸ quiet) ?_
            fun channel h => absurd h (Moves.not_follows moves channel)
          rw [holds, stage, same]
      | drops held quiet ended =>
          exact flying.drops read.requests flights (by rw [holds, held]; rfl) quiet effects
            (stage ▸ ended)
  | @join id request stale here stage =>
      have idle : σ.flightOf id = none := by
        rw [flightOf_of_request here, stage]
        rfl
      obtain joined | ⟨key, channel, there, joined⟩ | ⟨key, free, joined⟩ :=
        joinFlight_cases σ.store σ.flights request.req
      · rw [joined]
        exact flying.keeps rfl rfl (.nil id) idle fun _ h => by cases h
      · rw [joined]
        refine flying.keeps rfl rfl (.nil id) idle fun _ h => ?_
        cases h
        exact flying.leases.attended there
      · rw [joined]
        constructor
        · rw [flightOf_settle]
          exact flying.leases.grant free idle
        · intro other request' channel h stage'
          rw [flightOf_settle]
          rcases Runs.update_cases h with ⟨-, rfl⟩ | ⟨-, earlier⟩
          · cases stage'
          · exact (flying.attended other request' channel earlier stage').grant idle _
  | task time here moves =>
      rcases time with rfl | ⟨_, -, rfl⟩
      · exact flying.same rfl rfl flying.attended
      · exact flying.same rfl rfl flying.attended
  | insertAsset => exact flying.same rfl rfl flying.attended
  | evictIndex => exact flying.same rfl rfl flying.attended
  | evictEntry => exact flying.same rfl rfl flying.attended

end

/-! ## The claimed revalidations -/

/-- The keys that are being revalidated are those of the tasks that run. -/
structure Claimed (σ : World) : Prop where
  claims : Claims.Exact σ.store.refreshing σ.refreshOf
  unspawned : Unspawned σ

/-- What one step does to the claimed revalidations. -/
inductive Claiming (σ σ' : World) : Prop
  | same (refreshing : σ'.store.refreshing = σ.store.refreshing)
      (holds : σ'.refreshOf = σ.refreshOf)
  | claimed {key} (free : key ∉ σ.store.refreshing)
      (refreshing : σ'.store.refreshing = insert key σ.store.refreshing)
      (holds : σ'.refreshOf = Function.update σ.refreshOf σ.spawned (some key))
  | released {id key} (held : σ.refreshOf id = some key)
      (refreshing : σ'.store.refreshing = σ.store.refreshing.erase key)
      (holds : σ'.refreshOf = Function.update σ.refreshOf id none)

theorem Claimed.claiming {σ σ' : World} (claimed : Claimed σ) (claiming : Claiming σ σ') :
    Claims.Exact σ'.store.refreshing σ'.refreshOf := by
  cases claiming with
  | same refreshing holds =>
      rw [refreshing, holds]
      exact claimed.claims
  | claimed free refreshing holds =>
      rw [refreshing, holds]
      refine claimed.claims.claim ?_ free
      rw [refreshOf, claimed.unspawned _ (Nat.le_refl _)]
      rfl
  | released held refreshing holds =>
      rw [refreshing, holds]
      exact claimed.claims.release held

theorem refreshOf_settle_none {σ : World} {id : Nat} {req : HttpRequest} {outcome : Outcome}
    (spawned : outcome.spawned = none) :
    (σ.settle id req outcome).refreshOf = σ.refreshOf := by
  unfold refreshOf settle
  rw [spawned]

theorem refreshOf_settle_some {σ : World} {id : Nat} {req : HttpRequest} {outcome : Outcome}
    {task : Task} {request : UpstreamRequest} (spawned : outcome.spawned = some (task, request)) :
    (σ.settle id req outcome).refreshOf =
      Function.update σ.refreshOf σ.spawned (task.stage.claim task.guard.key) := by
  funext other
  unfold refreshOf settle
  rw [spawned]
  by_cases mine : other = σ.spawned
  · subst mine
    simp
  · simp [Function.update_of_ne mine]

/-- A step of a request that is no lookup. -/
theorem claiming_of_still {σ σ₀ : World} {id : Nat} {req : HttpRequest} {outcome : Outcome}
    (tasks : σ₀.tasks = σ.tasks) (spawned : outcome.spawned = none)
    (refreshing : outcome.store.refreshing = σ.store.refreshing) :
    Claiming σ (σ₀.settle id req outcome) := by
  refine .same refreshing ?_
  rw [refreshOf_settle_none spawned]
  unfold refreshOf
  rw [tasks]

end World

/-- What a lookup of a request does to the claims: nothing, or it claims a key
for the task that it spawns. -/
theorem fromCache_claims [UriSyntax] (base : OriginUrl) (store : Store) (req : HttpRequest)
    (use : FreshUse) (now : Instant) :
    (fromCache base store req use now).2.2 = none ∧
        (fromCache base store req use now).2.1.refreshing = store.refreshing ∨
      ∃ task request, (fromCache base store req use now).2.2 = some (task, request) ∧
        task.stage = .awaits ∧ task.guard.key ∉ store.refreshing ∧
        (fromCache base store req use now).2.1.refreshing =
          insert task.guard.key store.refreshing := by
  have background (entry : StaleEntry) :
      (refreshInBackground base store req entry).2 = none ∧
          (refreshInBackground base store req entry).1.refreshing = store.refreshing ∨
        ∃ task request, (refreshInBackground base store req entry).2 = some (task, request) ∧
          task.stage = .awaits ∧ task.guard.key ∉ store.refreshing ∧
          (refreshInBackground base store req entry).1.refreshing =
            insert task.guard.key store.refreshing := by
    unfold refreshInBackground Store.startRefresh
    by_cases running : entry.key ∈ store.refreshing
    · simp only [running, if_true]
      exact .inl ⟨trivial, trivial⟩
    · simp only [running, if_false]
      split
      case h_1 =>
        -- the guard drops before a task is spawned
        refine .inl ⟨rfl, ?_⟩
        show (insert entry.key store.refreshing).erase entry.key = store.refreshing
        exact Finset.erase_insert running
      case h_2 => exact .inr ⟨_, _, rfl, rfl, running, rfl⟩
  unfold fromCache
  simp only
  split
  · exact .inl ⟨rfl, rfl⟩
  · split
    · exact .inl ⟨rfl, rfl⟩
    · split
      · exact .inl ⟨rfl, rfl⟩
      · rename_i entry _
        split
        · unfold whileRevalidating
          split
          · exact .inl ⟨rfl, rfl⟩
          · split
            · exact background entry
            · exact .inl ⟨rfl, rfl⟩
        · exact .inl ⟨rfl, rfl⟩
      · exact .inl ⟨rfl, rfl⟩

theorem Cached.or_parts (id : Nat) (flight : Option Flight) (next : Option StaleEntry → Stage)
    (cached : Cached × Store × Option (Task × UpstreamRequest)) :
    (Cached.or id flight next cached).store = cached.2.1 ∧
      (Cached.or id flight next cached).spawned = cached.2.2 := by
  rcases cached with ⟨cached, store, spawned⟩
  cases cached <;> exact ⟨rfl, rfl⟩

theorem Tee.finish_refreshing (id : Nat) (store : Store) (tee : Tee) (now : Clock) :
    (tee.finish id store now).1.refreshing = store.refreshing := by
  unfold finish
  split
  · rfl
  · simp only
    split
    · exact Store.insertResponse_refreshing ..
    · rfl

theorem Tee.poll_refreshing (id : Nat) (store : Store) (tee : Tee) (item : Item) (now : Clock) :
    (tee.poll id store item now).1.refreshing = store.refreshing := by
  unfold poll
  split
  · split
    · rfl
    · split
      · rfl
      · simp only
        split
        · exact Tee.finish_refreshing ..
        · rfl
  · rfl
  · exact Tee.finish_refreshing ..

theorem clientResponse_refreshing (id : Nat) (store : Store) (head : Head)
    (storing : Option Storing) (now : Clock) :
    (clientResponse id store head storing now).2.1.refreshing = store.refreshing := by
  unfold clientResponse Tee.new
  simp only
  split
  · exact Tee.finish_refreshing ..
  · rfl

section

variable [HttpDate]

theorem storePlan_refreshing (actor : Actor) (store : Store) (req : HttpRequest) (head : Head)
    (now : Clock) : (storePlan actor store req head now).2.1.refreshing = store.refreshing := by
  unfold storePlan
  simp only
  split <;> rfl

theorem Exchange.answered_still (id : Nat) (store : Store) (req : HttpRequest)
    (exchange : Exchange) (head : Head) (now : Clock) :
    (exchange.answered id store req head now).spawned = none ∧
      (exchange.answered id store req head now).store.refreshing = store.refreshing := by
  have forwarded : (exchange.forwarded id store req head now).store.refreshing =
      store.refreshing := by
    unfold Exchange.forwarded
    simp only
    rw [clientResponse_refreshing, storePlan_refreshing]
  unfold Exchange.answered
  split
  · split
    · exact ⟨rfl, Store.freshen_refreshing ..⟩
    · split
      · exact ⟨rfl, rfl⟩
      · exact ⟨rfl, forwarded⟩
  · exact ⟨rfl, forwarded⟩

omit [HttpDate] in
theorem Exchange.failed_still (id : Nat) (store : Store) (req : HttpRequest)
    (exchange : Exchange) (status : StatusCode) (now : Instant) :
    (exchange.failed id store req status now).spawned = none ∧
      (exchange.failed id store req status now).store = store := by
  unfold Exchange.failed
  split
  · split <;> exact ⟨rfl, rfl⟩
  · exact ⟨rfl, rfl⟩

end

theorem prepare_still [UriSyntax] (base : OriginUrl) (id : Nat) (store : Store)
    (req : HttpRequest) (toOrigin : ToOrigin) (body : BodyStart) :
    (prepare base id store req toOrigin body).spawned = none ∧
      (prepare base id store req toOrigin body).store = store := by
  unfold prepare
  split
  · exact ⟨rfl, rfl⟩
  · cases body <;> exact ⟨rfl, rfl⟩

namespace World

theorem afterJoin_still (id : Nat) (store : Store) (stale : Option StaleEntry)
    (join : Join FlightKey) :
    (afterJoin id store stale join).spawned = none ∧
      (afterJoin id store stale join).store = store := by
  cases join <;> exact ⟨rfl, rfl⟩

section

variable [HttpDate] [UriSyntax] {base : OriginUrl}

omit [HttpDate] [UriSyntax] in
/-- A task keeps its claim until it ends. -/
theorem claiming_of_task {σ σ₀ : World} {id : Nat} {task : Task} {store : Store}
    (effects : List Effect) (stage : TaskStage) (tasks : σ₀.tasks = σ.tasks)
    (here : σ.tasks id = some task) (running : task.stage ≠ .ended)
    (refreshing : store.refreshing = σ.store.refreshing) :
    Claiming σ (σ₀.settleTask id task (store, effects, stage)) := by
  have held : σ.refreshOf id = some task.guard.key := by
    rw [refreshOf, here, Option.bind_some]
    cases was : task.stage with
    | ended => exact absurd was running
    | awaits | collects => rfl
  have holds : (σ₀.settleTask id task (store, effects, stage)).refreshOf =
      Function.update σ.refreshOf id (stage.claim task.guard.key) := by
    funext other
    by_cases mine : other = id
    · subst mine
      simp [refreshOf, settleTask]
    · simp only [refreshOf, settleTask, Function.update_of_ne mine, tasks]
  cases stage with
  | ended =>
      refine .released held ?_ holds
      show store.refreshing.erase task.guard.key = _
      rw [refreshing]
  | awaits | collects =>
      refine .same refreshing (holds.trans ?_)
      rw [TaskStage.claim, ← held, Function.update_eq_self]

omit [HttpDate] in
/-- A lookup of a request claims the key of the task that it spawns. -/
theorem claiming_of_look {σ : World} (id : Nat) (req : HttpRequest) (flight : Option Flight)
    (next : Option StaleEntry → Stage) (use : FreshUse) (now : Instant) :
    Claiming σ ((σ.tick now).settle id req
      (Cached.or id flight next (fromCache base (σ.tick now).store req use now))) := by
  have parts := Cached.or_parts id flight next (fromCache base (σ.tick now).store req use now)
  obtain ⟨spawned, same⟩ | ⟨task, request, spawned, awaits, free, claimed⟩ :=
    fromCache_claims base (σ.tick now).store req use now
  · exact claiming_of_still rfl (parts.2.trans spawned)
      ((congrArg Store.refreshing parts.1).trans same)
  · refine .claimed free ((congrArg Store.refreshing parts.1).trans claimed) ?_
    rw [refreshOf_settle_some (parts.2.trans spawned), awaits]
    rfl

theorem Happens.claiming {σ σ' : World} {event : Event} (happens : Happens base σ event σ') :
    Claiming σ σ' := by
  cases happens with
  | arrive | wake | timeOut => exact claiming_of_still rfl rfl rfl
  | look => exact claiming_of_look ..
  | @join id request stale =>
      obtain ⟨spawned, store⟩ :=
        afterJoin_still id σ.store stale (joinFlight σ.store σ.flights request.req).1
      exact claiming_of_still rfl spawned (congrArg Store.refreshing store)
  | @prepare id body request toOrigin =>
      obtain ⟨spawned, store⟩ := prepare_still base id σ.store request.req toOrigin body
      exact claiming_of_still rfl spawned (congrArg Store.refreshing store)
  | @answered id head now request exchange =>
      obtain ⟨spawned, same⟩ :=
        exchange.answered_still id (σ.tick now.instant).store request.req head now
      exact claiming_of_still rfl spawned same
  | @failed id timedOut now request exchange =>
      obtain ⟨spawned, store⟩ := exchange.failed_still id (σ.tick now.instant).store request.req
        (if timedOut then .gatewayTimeout else .badGateway) now.instant
      exact claiming_of_still rfl spawned (congrArg (fun store => store.refreshing) store)
  | @body id item now request tee =>
      exact claiming_of_still rfl rfl (tee.poll_refreshing id (σ.tick now.instant).store item now)
  | @disconnect id request outcome here hangs =>
      cases stage : request.stage <;> rw [stage] at hangs <;> cases hangs <;>
        exact claiming_of_still rfl rfl rfl
  | @refreshed id head now task later here stage =>
      refine claiming_of_task _ _ rfl here ?_ (task.refresh_refreshing id _ head now)
      rw [stage]
      exact fun h => by cases h
  | refreshFailed here stage =>
      refine claiming_of_task _ _ rfl here ?_ rfl
      rw [stage]
      exact fun h => by cases h
  | @refreshBody id body now task storing head later here stage =>
      refine claiming_of_task _ _ rfl here ?_ (Task.collected_refreshing id _ storing head body now)
      rw [stage]
      exact fun h => by cases h
  | @insertAsset path content etag modified =>
      refine .same ?_ rfl
      show (σ.store.insertAsset path content etag modified).2.refreshing = _
      unfold Store.insertAsset
      simp only
      split <;> rfl
  | evictIndex | evictEntry => exact .same rfl rfl

theorem Claimed.step {σ σ' : World} {event : Event} (claimed : Claimed σ)
    (h : World.step base σ event = some σ') : Claimed σ' := by
  have happens := (happens_of_step h).2
  exact ⟨claimed.claiming happens.claiming, claimed.unspawned.step happens⟩

end

/-! ## Whole runs -/

theorem Flying.start (sizeMb : UInt64) (ttl : Duration) : Flying (start sizeMb ttl) :=
  ⟨Leases.Sound.empty, fun _ _ _ h => (by cases h)⟩

theorem Claimed.start (sizeMb : UInt64) (ttl : Duration) : Claimed (start sizeMb ttl) :=
  ⟨Claims.Exact.empty, .start sizeMb ttl⟩

/-- The request holds the guard of this flight. -/
def Leads (σ : World) (id : Nat) (flight : Flight) : Prop :=
  ∃ request, σ.requests id = some request ∧ request.stage.guard = some flight

/-- The request waits for this channel. -/
def Follows (σ : World) (id : Nat) (channel : Nat) : Prop :=
  ∃ request, σ.requests id = some request ∧ request.stage = .follows channel

/-- The task has not ended, and this is its key. -/
def Revalidates (σ : World) (id : Nat) (key : ResponseKey) : Prop :=
  ∃ task, σ.tasks id = some task ∧ task.stage.claim task.guard.key = some key

theorem leads_iff {σ : World} {id : Nat} {flight : Flight} :
    σ.Leads id flight ↔ σ.flightOf id = some (lease flight) := by
  simp only [Leads, flightOf, Option.bind_eq_some_iff, Option.map_eq_some_iff]
  constructor
  · rintro ⟨request, here, held⟩
    exact ⟨request, here, flight, held, rfl⟩
  · rintro ⟨request, here, other, held, same⟩
    obtain ⟨key, channel⟩ := Prod.mk.inj same
    obtain rfl : other = flight := by
      cases other
      cases flight
      simp_all
    exact ⟨request, here, held⟩

theorem revalidates_iff {σ : World} {id : Nat} {key : ResponseKey} :
    σ.Revalidates id key ↔ σ.refreshOf id = some key := by
  simp only [Revalidates, refreshOf, Option.bind_eq_some_iff]

/-- In every run the flight map holds the flights that some request leads,
one leader each, and the claimed keys are those of the tasks that have not
ended, one task each. A follower's leader is still there, or its channel is
closed. So when nobody leads a flight the map is empty and every follower can
wake, and when no task runs no key is claimed. -/
theorem nothing_left_behind [HttpDate] [UriSyntax] {base : OriginUrl} {sizeMb : UInt64}
    {ttl : Duration} {events : List Event} {σ : World}
    (hrun : Runs.run (step base) (start sizeMb ttl) events = some σ) :
    (∀ key channel, σ.flights.inFlight key = some channel ↔ ∃ id, σ.Leads id ⟨key, channel⟩) ∧
    (∀ id id' flight flight', σ.Leads id flight → σ.Leads id' flight' →
      flight.key = flight'.key ∨ flight.channel = flight'.channel → id = id' ∧ flight = flight') ∧
    (∀ id channel, σ.Follows id channel →
      channel ∈ σ.flights.closed ∨ ∃ leader key, σ.Leads leader ⟨key, channel⟩) ∧
    (∀ key, key ∈ σ.store.refreshing ↔ ∃ id, σ.Revalidates id key) ∧
    (∀ id id' key, σ.Revalidates id key → σ.Revalidates id' key → id = id') ∧
    ((∀ id flight, ¬ σ.Leads id flight) →
      (∀ key, σ.flights.inFlight key = none) ∧
      ∀ id channel, σ.Follows id channel → σ.aborted = false →
        ∃ σ', step base σ (.wake id) = some σ') ∧
    ((∀ id key, ¬ σ.Revalidates id key) → σ.store.refreshing = ∅) := by
  have flying : Flying σ := Runs.invariant_run
    (fun _ _ _ flying h => flying.step (step_cases h).2) (Flying.start sizeMb ttl) hrun
  have claimed : Claimed σ := Runs.invariant_run
    (fun _ _ _ claimed h => claimed.step h) (Claimed.start sizeMb ttl) hrun
  have table : ∀ key channel, σ.flights.inFlight key = some channel ↔
      ∃ id, σ.Leads id ⟨key, channel⟩ := by
    intro key channel
    simp only [leads_iff]
    exact flying.leases.table_iff key channel
  have follower : ∀ id channel, σ.Follows id channel →
      channel ∈ σ.flights.closed ∨ ∃ leader key, σ.Leads leader ⟨key, channel⟩ := by
    rintro id channel ⟨request, here, stage⟩
    simp only [leads_iff]
    exact flying.attended id request channel here stage
  have taken : ∀ key, key ∈ σ.store.refreshing ↔ ∃ id, σ.Revalidates id key := by
    intro key
    simp only [revalidates_iff]
    exact claimed.claims.taken_iff key
  refine ⟨table, ?_, follower, taken, ?_, ?_, ?_⟩
  · intro id id' flight flight' leads leads' same
    have here := leads_iff.mp leads
    have here' := leads_iff.mp leads'
    have there := (flying.leases.table_iff _ _).mpr ⟨id, here⟩
    have there' := (flying.leases.table_iff _ _).mpr ⟨id', here'⟩
    have keys : flight.key = flight'.key := by
      rcases same with keys | channels
      · exact keys
      · exact flying.leases.numbered _ _ _ there (channels ▸ there')
    have channels : flight.channel = flight'.channel := by
      rw [keys] at there
      exact Option.some.inj (there.symm.trans there')
    have one : lease flight' = lease flight := Prod.ext keys.symm channels.symm
    rw [one] at here'
    refine ⟨flying.leases.one _ _ _ _ here here', ?_⟩
    cases flight
    cases flight'
    exact congrArg₂ FlightGuard.mk keys channels
  · intro id id' key runs runs'
    exact claimed.claims.one _ _ _ (revalidates_iff.mp runs) (revalidates_iff.mp runs')
  · intro idle
    refine ⟨fun key => ?_, fun id channel follows running => ?_⟩
    · cases there : σ.flights.inFlight key with
      | none => rfl
      | some channel =>
          obtain ⟨id, leads⟩ := (table key channel).mp there
          exact absurd leads (idle id _)
    · obtain closed | ⟨leader, key, leads⟩ := follower id channel follows
      · obtain ⟨request, here, stage⟩ := follows
        refine ⟨σ.settle id request.req (goesOn σ.store [] (.again none .coalesced)), ?_⟩
        simp [World.step, running, proceed, here, stage, closed]
      · exact absurd leads (idle leader _)
  · intro idle
    refine Finset.eq_empty_of_forall_notMem fun key there => ?_
    obtain ⟨id, runs⟩ := (taken key).mp there
    exact idle id key runs

/-- Two requests for a page that is not stored; the second one waits. -/
def waitingEvents : List Event :=
  [.arrive 0 (germanRequest []), .look 0 exampleClock, .join 0,
    .arrive 1 (germanRequest []), .look 1 exampleClock, .join 1]

theorem nothing_left_behind_example : ∃ (_ : HttpDate) (_ : UriSyntax) (σ : World),
    Runs.run (step exampleOrigin) (start 1 (Duration.fromSecs 300)) waitingEvents = some σ ∧
      σ.Follows 1 0 ∧
      (0 ∈ σ.flights.closed ∨ ∃ leader key, σ.Leads leader ⟨key, 0⟩) := by
  let dates : HttpDate := ⟨fun _ => none⟩
  let uris : UriSyntax := ⟨fun _ => true, fun _ => true⟩
  obtain ⟨σ, hrun, here⟩ := Option.bind_eq_some_iff.mp
    (show (Runs.run (step exampleOrigin) (start 1 (Duration.fromSecs 300)) waitingEvents).bind
      (fun σ => σ.requests 1) = some ⟨germanRequest [], .follows 0⟩ from rfl)
  have follows : σ.Follows 1 0 := ⟨_, here, rfl⟩
  obtain ⟨-, -, follower, -⟩ := nothing_left_behind hrun
  exact ⟨dates, uris, σ, hrun, follows, follower 1 0 follows⟩

end World

end Shadowstep
