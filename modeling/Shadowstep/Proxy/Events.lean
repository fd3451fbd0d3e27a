import Shadowstep.Proxy.World

/-!
# What an event does

`World.step_cases` forgets the event. A result that reads the events of a run
needs both: what happened, and what the world has become.

* `World.Happens` — a step with its event;
* `World.Happens.asked` — nobody forgets the request it acts for.
-/

namespace Shadowstep

open Rust

namespace World

/-- The lookup that a request makes, with the flight it holds and with where it
goes on without an answer. -/
inductive Looks : Stage → Option Flight → (Option StaleEntry → Stage) → FreshUse → Prop
  | first : Looks .first none .joins .hit
  | again {flight use} :
    Looks (.again flight use) flight (fun stale => .prepares ⟨stale, flight⟩) use

variable [HttpDate] [UriSyntax]

/-- A step of the machine, event by event. -/
inductive Happens (base : OriginUrl) (σ : World) : Event → World → Prop
  | arrive {id req} (new : σ.requests id = none) :
    Happens base σ (.arrive id req) (σ.settle id req (goesOn σ.store [] .first))
  | look {id now request flight next use} (later : σ.clock ≤ now.instant)
      (here : σ.requests id = some request) (looks : Looks request.stage flight next use) :
    Happens base σ (.look id now) ((σ.tick now.instant).settle id request.req
      (Cached.or id flight next
        (fromCache base (σ.tick now.instant).store request.req use now.instant)))
  | join {id request stale} (here : σ.requests id = some request)
      (stage : request.stage = .joins stale) :
    Happens base σ (.join id)
      ({ σ with flights := (joinFlight σ.store σ.flights request.req).2 }.settle id request.req
        (afterJoin id σ.store stale (joinFlight σ.store σ.flights request.req).1))
  | wake {id request channel} (here : σ.requests id = some request)
      (stage : request.stage = .follows channel) (closed : channel ∈ σ.flights.closed) :
    Happens base σ (.wake id)
      (σ.settle id request.req (goesOn σ.store [] (.again none .coalesced)))
  | timeOut {id request channel} (here : σ.requests id = some request)
      (stage : request.stage = .follows channel) :
    Happens base σ (.timeOut id)
      (σ.settle id request.req (goesOn σ.store [] (.again none .coalesced)))
  | prepare {id body request toOrigin} (here : σ.requests id = some request)
      (stage : request.stage = .prepares toOrigin) :
    Happens base σ (.prepare id body)
      (σ.settle id request.req (Shadowstep.prepare base id σ.store request.req toOrigin body))
  | answered {id head now request exchange} (later : σ.clock ≤ now.instant)
      (here : σ.requests id = some request) (stage : request.stage = .exchanges exchange) :
    Happens base σ (.answered id head now) ((σ.tick now.instant).settle id request.req
      (exchange.answered id (σ.tick now.instant).store request.req head now))
  | failed {id timedOut now request exchange} (later : σ.clock ≤ now.instant)
      (here : σ.requests id = some request) (stage : request.stage = .exchanges exchange) :
    Happens base σ (.failed id timedOut now) ((σ.tick now.instant).settle id request.req
      (exchange.failed id (σ.tick now.instant).store request.req
        (if timedOut then .gatewayTimeout else .badGateway) now.instant))
  | body {id item now request tee} (later : σ.clock ≤ now.instant)
      (here : σ.requests id = some request) (stage : request.stage = .streams tee) :
    Happens base σ (.body id item now) ((σ.tick now.instant).settle id request.req
      (goesOn (tee.poll id (σ.tick now.instant).store item now).1
        (tee.poll id (σ.tick now.instant).store item now).2.1
        (.streams (tee.poll id (σ.tick now.instant).store item now).2.2)))
  | disconnect {id request outcome} (here : σ.requests id = some request)
      (hangs : hangUp id σ.store request.stage = some outcome) :
    Happens base σ (.disconnect id) (σ.settle id request.req outcome)
  | refreshed {id head now task} (later : σ.clock ≤ now.instant) (here : σ.tasks id = some task)
      (stage : task.stage = .awaits) :
    Happens base σ (.refreshed id head now) ((σ.tick now.instant).settleTask id task
      (task.refresh id (σ.tick now.instant).store head now))
  | refreshFailed {id task} (here : σ.tasks id = some task) (stage : task.stage = .awaits) :
    Happens base σ (.refreshFailed id) (σ.settleTask id task (σ.store, [], .ended))
  | refreshBody {id body now task storing head} (later : σ.clock ≤ now.instant)
      (here : σ.tasks id = some task) (stage : task.stage = .collects storing head) :
    Happens base σ (.refreshBody id body now) ((σ.tick now.instant).settleTask id task
      ((Task.collected id (σ.tick now.instant).store storing head body now).1,
        (Task.collected id (σ.tick now.instant).store storing head body now).2, .ended))
  | insertAsset {path content etag modified} :
    Happens base σ (.insertAsset path content etag modified)
      { σ with store := (σ.store.insertAsset path content etag modified).2 }
  | evictIndex {primary} :
    Happens base σ (.evictIndex primary) { σ with store := σ.store.removeIndex primary }
  | evictEntry {key} :
    Happens base σ (.evictEntry key) { σ with store := σ.store.removeEntry key }

variable {base : OriginUrl}

omit [HttpDate] in
theorem looks_of_look {id : Nat} {now : Instant} {store : Store} {req : HttpRequest}
    {stage : Stage} {outcome : Outcome} (h : look base id now store req stage = some outcome) :
    ∃ flight next use, Looks stage flight next use ∧
      outcome = Cached.or id flight next (fromCache base store req use now) := by
  cases stage with
  | first =>
      obtain rfl := Option.some.inj h
      exact ⟨_, _, _, .first, rfl⟩
  | again flight use =>
      obtain rfl := Option.some.inj h
      exact ⟨_, _, _, .again, rfl⟩
  | _ => cases h

/-- Every step is one of these. -/
theorem happens_of_step {σ σ' : World} {event : Event} (h : step base σ event = some σ') :
    σ.aborted = false ∧ Happens base σ event σ' := by
  unfold step at h
  split at h
  case isTrue => cases h
  case isFalse running =>
    refine ⟨by simpa using running, ?_⟩
    cases event with
    | arrive id req =>
        simp only at h
        split at h
        case isTrue new =>
          obtain rfl := Option.some.inj h
          exact .arrive (Option.isNone_iff_eq_none.mp new)
        case isFalse => cases h
    | look id now =>
        obtain ⟨σ₀, hreading, h⟩ := Option.bind_eq_some_iff.mp h
        obtain ⟨later, rfl⟩ := reading_eq hreading
        obtain ⟨request, result, here, hresult, rfl⟩ := proceed_eq h
        obtain ⟨flight, next, use, looks, rfl⟩ := looks_of_look hresult
        exact .look later here looks
    | join id =>
        obtain ⟨request, here, h⟩ := Option.bind_eq_some_iff.mp h
        split at h
        case h_1 stale stage =>
          obtain rfl := Option.some.inj h
          exact .join here stage
        case h_2 => cases h
    | wake id =>
        obtain ⟨request, result, here, hresult, rfl⟩ := proceed_eq h
        split at hresult
        case h_1 channel stage =>
          split at hresult
          case isTrue closed =>
            obtain rfl := Option.some.inj hresult
            exact .wake here stage closed
          case isFalse => cases hresult
        case h_2 => cases hresult
    | timeOut id =>
        obtain ⟨request, result, here, hresult, rfl⟩ := proceed_eq h
        split at hresult
        case h_1 channel stage =>
          obtain rfl := Option.some.inj hresult
          exact .timeOut here stage
        case h_2 => cases hresult
    | prepare id body =>
        obtain ⟨request, result, here, hresult, rfl⟩ := proceed_eq h
        split at hresult
        case h_1 toOrigin stage =>
          obtain rfl := Option.some.inj hresult
          exact .prepare here stage
        case h_2 => cases hresult
    | answered id head now =>
        obtain ⟨σ₀, hreading, h⟩ := Option.bind_eq_some_iff.mp h
        obtain ⟨later, rfl⟩ := reading_eq hreading
        obtain ⟨request, result, here, hresult, rfl⟩ := proceed_eq h
        split at hresult
        case h_1 exchange stage =>
          obtain rfl := Option.some.inj hresult
          exact .answered later here stage
        case h_2 => cases hresult
    | failed id timedOut now =>
        obtain ⟨σ₀, hreading, h⟩ := Option.bind_eq_some_iff.mp h
        obtain ⟨later, rfl⟩ := reading_eq hreading
        obtain ⟨request, result, here, hresult, rfl⟩ := proceed_eq h
        split at hresult
        case h_1 exchange stage =>
          obtain rfl := Option.some.inj hresult
          exact .failed later here stage
        case h_2 => cases hresult
    | body id item now =>
        obtain ⟨σ₀, hreading, h⟩ := Option.bind_eq_some_iff.mp h
        obtain ⟨later, rfl⟩ := reading_eq hreading
        obtain ⟨request, result, here, hresult, rfl⟩ := proceed_eq h
        split at hresult
        case h_1 tee stage =>
          obtain rfl := Option.some.inj hresult
          exact .body later here stage
        case h_2 => cases hresult
    | disconnect id =>
        obtain ⟨request, result, here, hresult, rfl⟩ := proceed_eq h
        exact .disconnect here hresult
    | refreshed id head now =>
        obtain ⟨σ₀, hreading, h⟩ := Option.bind_eq_some_iff.mp h
        obtain ⟨later, rfl⟩ := reading_eq hreading
        obtain ⟨task, result, here, hresult, rfl⟩ := proceedTask_eq h
        split at hresult
        case h_1 stage =>
          obtain rfl := Option.some.inj hresult
          exact .refreshed later here stage
        case h_2 => cases hresult
    | refreshFailed id =>
        obtain ⟨task, result, here, hresult, rfl⟩ := proceedTask_eq h
        split at hresult
        case h_1 stage =>
          obtain rfl := Option.some.inj hresult
          exact .refreshFailed here stage
        case h_2 => cases hresult
    | refreshBody id body now =>
        obtain ⟨σ₀, hreading, h⟩ := Option.bind_eq_some_iff.mp h
        obtain ⟨later, rfl⟩ := reading_eq hreading
        obtain ⟨task, result, here, hresult, rfl⟩ := proceedTask_eq h
        split at hresult
        case h_1 storing head stage =>
          obtain rfl := Option.some.inj hresult
          exact .refreshBody later here stage
        case h_2 => cases hresult
    | insertAsset path content etag modified =>
        obtain rfl := Option.some.inj h
        exact .insertAsset
    | evictIndex primary =>
        obtain rfl := Option.some.inj h
        exact .evictIndex
    | evictEntry key =>
        obtain rfl := Option.some.inj h
        exact .evictEntry

/-! ## Who acts -/

/-- The number of the next task is free. -/
def Unspawned (σ : World) : Prop := ∀ id, σ.spawned ≤ id → σ.tasks id = none

/-- The request that somebody acts for. -/
def asked (σ : World) : Actor → Option HttpRequest
  | .request id => (σ.requests id).map fun request => request.req
  | .task id => (σ.tasks id).map fun task => task.req

omit [HttpDate] [UriSyntax] in
theorem Unspawned.start (sizeMb : UInt64) (ttl : Duration) : Unspawned (start sizeMb ttl) :=
  fun _ _ => rfl

omit [HttpDate] [UriSyntax] in
theorem Unspawned.settle {σ σ₀ : World} (unspawned : Unspawned σ) (tasks : σ₀.tasks = σ.tasks)
    (count : σ₀.spawned = σ.spawned) (id : Nat) (req : HttpRequest) (outcome : Outcome) :
    Unspawned (σ₀.settle id req outcome) := by
  intro other later
  have before := unspawned other
  unfold World.settle at later ⊢
  cases spawned : outcome.spawned with
  | none =>
      simp only [spawned, Option.toList, List.length_nil, count] at later
      exact tasks ▸ before later
  | some pair =>
      simp only [spawned, Option.toList, List.length_cons, List.length_nil, count] at later
      have differ : other ≠ σ.spawned := by omega
      simp only [count, tasks, Function.update_of_ne differ]
      exact before (by omega)

omit [HttpDate] [UriSyntax] in
theorem Unspawned.settleTask {σ σ₀ : World} (unspawned : Unspawned σ) (tasks : σ₀.tasks = σ.tasks)
    (count : σ₀.spawned = σ.spawned) {id : Nat} {task : Task} (here : σ.tasks id = some task)
    (outcome : Store × List Effect × TaskStage) : Unspawned (σ₀.settleTask id task outcome) := by
  intro other later
  have before := unspawned other (count ▸ later)
  have differ : other ≠ id := by
    rintro rfl
    rw [before] at here
    cases here
  show Function.update σ₀.tasks id _ other = none
  rw [Function.update_of_ne differ, tasks, before]

theorem Unspawned.step {σ σ' : World} {event : Event} (unspawned : Unspawned σ)
    (happens : Happens base σ event σ') : Unspawned σ' := by
  cases happens with
  | refreshed later here => exact unspawned.settleTask rfl rfl here _
  | refreshFailed here => exact unspawned.settleTask rfl rfl here _
  | refreshBody later here => exact unspawned.settleTask (by rfl) (by rfl) here _
  | insertAsset | evictIndex | evictEntry => exact unspawned
  | _ => exact unspawned.settle (by rfl) (by rfl) _ _ _

omit [HttpDate] [UriSyntax] in
/-- A request's step leaves every other request, and every task there was. -/
theorem asked_settle {σ σ₀ : World} (unspawned : Unspawned σ) (requests : σ₀.requests = σ.requests)
    (tasks : σ₀.tasks = σ.tasks) (count : σ₀.spawned = σ.spawned) {id : Nat} {req : HttpRequest}
    (mine : ∀ request, σ.requests id = some request → request.req = req) (outcome : Outcome)
    {actor : Actor} {asks : HttpRequest} (h : σ.asked actor = some asks) :
    (σ₀.settle id req outcome).asked actor = some asks := by
  cases actor with
  | request other =>
      obtain ⟨request, here, rfl⟩ := Option.map_eq_some_iff.mp h
      by_cases same : other = id
      · subst same
        simp [asked, World.settle, mine request here]
      · simp [asked, World.settle, Function.update_of_ne same, requests, here]
  | task other =>
      obtain ⟨task, here, rfl⟩ := Option.map_eq_some_iff.mp h
      have differ : other ≠ σ.spawned := by
        rintro rfl
        rw [unspawned _ (Nat.le_refl _)] at here
        cases here
      show ((σ₀.settle id req outcome).tasks other).map _ = _
      unfold World.settle
      cases outcome.spawned with
      | none => simp [tasks, here]
      | some pair => simp [count, Function.update_of_ne differ, tasks, here]

omit [HttpDate] [UriSyntax] in
theorem asked_settleTask {σ σ₀ : World} (requests : σ₀.requests = σ.requests)
    (tasks : σ₀.tasks = σ.tasks) {id : Nat} {task : Task} (here : σ.tasks id = some task)
    (outcome : Store × List Effect × TaskStage) (actor : Actor) :
    (σ₀.settleTask id task outcome).asked actor = σ.asked actor := by
  cases actor with
  | request other => simp only [asked, World.settleTask, requests]
  | task other =>
      by_cases same : other = id
      · subst same
        simp [asked, World.settleTask, here]
      · simp [asked, World.settleTask, Function.update_of_ne same, tasks]

/-- Who acts for a request does so for good. -/
theorem Happens.asked {σ σ' : World} {event : Event} (happens : Happens base σ event σ')
    (unspawned : Unspawned σ) {actor : Actor} {asks : HttpRequest}
    (h : σ.asked actor = some asks) : σ'.asked actor = some asks := by
  have same {id : Nat} {request : Request} (here : σ.requests id = some request) :
      ∀ other, σ.requests id = some other → other.req = request.req := by
    intro other there
    obtain rfl := Option.some.inj (here.symm.trans there)
    rfl
  cases happens with
  | arrive new =>
      refine asked_settle unspawned rfl rfl rfl (fun request here => ?_) _ h
      rw [new] at here
      cases here
  | look later here => exact asked_settle unspawned rfl rfl rfl (same here) _ h
  | join here => exact asked_settle unspawned rfl rfl rfl (same here) _ h
  | wake here => exact asked_settle unspawned rfl rfl rfl (same here) _ h
  | timeOut here => exact asked_settle unspawned rfl rfl rfl (same here) _ h
  | prepare here => exact asked_settle unspawned rfl rfl rfl (same here) _ h
  | answered later here => exact asked_settle unspawned rfl rfl rfl (same here) _ h
  | failed later here => exact asked_settle unspawned rfl rfl rfl (same here) _ h
  | body later here => exact asked_settle unspawned rfl rfl rfl (same here) _ h
  | disconnect here => exact asked_settle unspawned rfl rfl rfl (same here) _ h
  | refreshed later here => exact (asked_settleTask rfl rfl here _ actor).trans h
  | refreshFailed here => exact (asked_settleTask rfl rfl here _ actor).trans h
  | refreshBody later here => exact (asked_settleTask (by rfl) (by rfl) here _ actor).trans h
  | insertAsset | evictIndex | evictEntry => exact h

end World

end Shadowstep
