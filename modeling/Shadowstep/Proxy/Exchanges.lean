import Mathlib.Algebra.BigOperators.Group.List.Basic
import Shadowstep.Proxy.Progress
import Shadowstep.Proxy.Series

/-!
# Requests to the origin

A request is sent to the origin when `prepare` is done with it or when a task
is spawned. Its exchange ends with a response or without one, and
`send_to_origin` counts it then. If its client goes away before, the handler's
future is dropped in the middle of `send_to_origin`, and nothing counts it.

* `World.Open` — whose exchange has not ended yet;
* `World.Trade` — what a step is to the exchanges;
* `Exported.exchanges_balance` — what becomes of the requests, by kind.
-/

namespace Shadowstep

open Rust

def Actor.kind : Actor → OriginKind
  | .request _ => .foreground
  | .task _ => .background

def Stage.exchanging : Stage → Bool
  | .exchanges _ => true
  | _ => false

/-- Who has sent a request to the origin. -/
def Effect.sender : Effect → Option Actor
  | .sent actor _ => some actor
  | _ => none

theorem senders_silent {effects : List Effect} (silent : effects.filter Effect.isSent = []) :
    effects.filterMap Effect.sender = [] := by
  refine List.filterMap_eq_nil_iff.mpr fun effect there => ?_
  have unsent : ¬ effect.isSent = true := List.filter_eq_nil_iff.mp silent effect there
  cases effect <;> first | rfl | exact absurd rfl unsent

namespace World

/-- The kind of the request to the origin whose exchange an event ends. -/
def Event.ends : Event → Option OriginKind
  | .answered .. | .failed .. => some .foreground
  | .refreshed .. | .refreshFailed _ => some .background
  | _ => none

/-- The requests to the origin, by who has sent them. -/
def senders (σ : World) : List Actor := σ.log.filterMap Effect.sender

/-- The exchange of this actor has not ended. -/
def Open (σ : World) : Actor → Prop
  | .request id => ∃ request, σ.requests id = some request ∧ request.stage.exchanging = true
  | .task id => ∃ task, σ.tasks id = some task ∧ task.stage = .awaits

/-- What a step is to the exchanges. -/
inductive Trade (σ : World) (event : Event) (σ' : World) : Prop
  | nothing (same : ∀ actor, σ'.Open actor ↔ σ.Open actor) (senders : σ'.senders = σ.senders)
      (ends : event.ends = none)
  | sends {actor} (new : ¬ σ.Open actor)
      (changed : ∀ other, σ'.Open other ↔ other = actor ∨ σ.Open other)
      (senders : σ'.senders = σ.senders ++ [actor]) (ends : event.ends = none)
  | ends {actor} (was : σ.Open actor)
      (changed : ∀ other, σ'.Open other ↔ other ≠ actor ∧ σ.Open other)
      (senders : σ'.senders = σ.senders) (ends : event.ends = some actor.kind)
      (connected : event.isDisconnect = false)
  | leaves {id} (was : σ.Open (.request id))
      (changed : ∀ other, σ'.Open other ↔ other ≠ .request id ∧ σ.Open other)
      (senders : σ'.senders = σ.senders) (ends : event.ends = none)
      (disconnects : event.isDisconnect = true)

/-! ## After a step -/

variable {σ σ₀ : World}

theorem open_request {id : Nat} {request : Request} (here : σ.requests id = some request) :
    σ.Open (.request id) ↔ request.stage.exchanging = true := by
  simp [Open, here]

theorem open_task {id : Nat} {task : Task} (here : σ.tasks id = some task) :
    σ.Open (.task id) ↔ task.stage = .awaits := by
  simp [Open, here]

theorem open_settle (before : Before σ σ₀) {id : Nat} {req : HttpRequest} {outcome : Outcome}
    (awaits : ∀ task request, outcome.spawned = some (task, request) → task.stage = .awaits)
    (actor : Actor) : (σ₀.settle id req outcome).Open actor ↔
      outcome.spawned.isSome = true ∧ actor = .task σ.spawned ∨
        if actor = .request id then outcome.stage.exchanging = true else σ.Open actor := by
  cases actor with
  | request other =>
      by_cases same : other = id
      · subst same
        simp [Open, World.settle]
      · simp [Open, World.settle, same, before.requests]
  | task other =>
      cases spawned : outcome.spawned with
      | none => simp [Open, World.settle, spawned, before.tasks]
      | some pair =>
          by_cases new : other = σ.spawned
          · subst new
            simp [Open, World.settle, spawned, before.spawned, awaits _ _ spawned]
          · simp [Open, World.settle, spawned, before.spawned, new, before.tasks]

theorem senders_settle (before : Before σ σ₀) (log : σ₀.log = σ.log) {id : Nat} {req : HttpRequest}
    {outcome : Outcome} : (σ₀.settle id req outcome).senders = σ.senders ++
      outcome.effects.filterMap Effect.sender ++
        outcome.spawned.toList.map fun _ => Actor.task σ.spawned := by
  cases spawned : outcome.spawned <;>
    simp [senders, World.settle, spawned, log, before.spawned, Effect.sender]

theorem open_settleTask (before : Before σ σ₀) {id : Nat} {task : Task}
    {outcome : Store × List Effect × TaskStage} (actor : Actor) :
    (σ₀.settleTask id task outcome).Open actor ↔
      if actor = .task id then outcome.2.2 = .awaits else σ.Open actor := by
  cases actor with
  | request other => simp [Open, World.settleTask, before.requests]
  | task other =>
      by_cases same : other = id
      · subst same
        simp [Open, World.settleTask]
      · simp [Open, World.settleTask, same, before.tasks]

/-! ## Steps -/

variable {event : Event}

theorem Before.refl (σ : World) : Before σ σ := ⟨rfl, rfl, rfl, rfl⟩

theorem Before.tick (σ : World) (now : Instant) : Before σ (σ.tick now) := ⟨rfl, rfl, rfl, rfl⟩

/-- A step of a request that spawns nothing and sends nothing. -/
theorem Trade.quiet (before : Before σ σ₀) (log : σ₀.log = σ.log) {id : Nat} {req : HttpRequest}
    {outcome : Outcome} (silent : outcome.effects.filter Effect.isSent = [])
    (spawned : outcome.spawned = none)
    (was : σ.Open (.request id) ↔ outcome.stage.exchanging = true) (ends : event.ends = none) :
    Trade σ event (σ₀.settle id req outcome) := by
  refine .nothing (fun actor => ?_) ?_ ends
  · rw [open_settle before fun _ _ h => absurd (spawned.symm.trans h) (by simp)]
    simp only [spawned, Option.isSome_none, Bool.false_eq_true, false_and, false_or]
    split
    case isTrue mine => rw [mine, was]
    case isFalse => rfl
  · rw [senders_settle before log, senders_silent silent, spawned]
    simp

/-- A request's exchange is over, one way or the other. -/
theorem closed_settle (before : Before σ σ₀) (log : σ₀.log = σ.log) {id : Nat} {req : HttpRequest}
    {outcome : Outcome} (silent : outcome.effects.filter Effect.isSent = [])
    (spawned : outcome.spawned = none) (done : outcome.stage.exchanging = false) :
    (∀ other, (σ₀.settle id req outcome).Open other ↔ other ≠ .request id ∧ σ.Open other) ∧
      (σ₀.settle id req outcome).senders = σ.senders := by
  constructor
  · intro other
    rw [open_settle before fun _ _ h => absurd (spawned.symm.trans h) (by simp)]
    by_cases mine : other = .request id <;> simp [spawned, done, mine]
  · rw [senders_settle before log, senders_silent silent, spawned]
    simp

theorem closed_settleTask (before : Before σ σ₀) (log : σ₀.log = σ.log) (id : Nat) (task : Task)
    (outcome : Store × List Effect × TaskStage) (silent : outcome.2.1.filter Effect.isSent = [])
    (done : outcome.2.2 ≠ .awaits) :
    (∀ other, (σ₀.settleTask id task outcome).Open other ↔ other ≠ .task id ∧ σ.Open other) ∧
      (σ₀.settleTask id task outcome).senders = σ.senders := by
  constructor
  · intro other
    rw [open_settleTask before]
    by_cases mine : other = .task id <;> simp [done, mine]
  · show (σ₀.log ++ outcome.2.1).filterMap Effect.sender = _
    rw [List.filterMap_append, senders_silent silent, List.append_nil, log, senders]

/-- What answers an exchange sends nothing. -/
theorem exchange_over {id : Nat} {exchange : Exchange} {outcome : Outcome}
    (spends : Spends id (.exchanges exchange) outcome)
    (advances : outcome.Advances (.exchanges exchange)) :
    outcome.effects.filter Effect.isSent = [] ∧ outcome.spawned = none ∧
      outcome.stage.exchanging = false := by
  have ended : outcome.stage.exchanging = false := by
    have lower : outcome.stage.rank < 1 := advances.lower
    cases stage : outcome.stage with
    | exchanges =>
        rw [stage] at lower
        exact absurd lower (Nat.lt_irrefl 1)
    | _ => rfl
  cases spends with
  | nothing silent spawned => exact ⟨silent, spawned, ended⟩
  | fresh _ _ _ _ was | refresh _ _ _ _ _ was | sent _ _ _ was => exact was.elim

theorem Trade.answers (before : Before σ σ₀) (log : σ₀.log = σ.log) {id : Nat} {request : Request}
    (here : σ.requests id = some request) {exchange : Exchange}
    (stage : request.stage = .exchanges exchange) {outcome : Outcome}
    (spends : Spends id (.exchanges exchange) outcome)
    (advances : outcome.Advances (.exchanges exchange)) (ends : event.ends = some .foreground)
    (connected : event.isDisconnect = false) :
    Trade σ event (σ₀.settle id request.req outcome) := by
  obtain ⟨silent, spawned, done⟩ := exchange_over spends advances
  obtain ⟨changed, senders⟩ := closed_settle before log silent spawned done
  refine .ends ?_ changed senders ends connected
  rw [open_request here, stage]
  rfl

/-- A step of moka, or what changes nobody's stage. -/
theorem Trade.aside {σ' : World} (requests : σ'.requests = σ.requests)
    (tasks : σ'.tasks = σ.tasks) (log : σ'.log = σ.log) (ends : event.ends = none) :
    Trade σ event σ' := by
  refine .nothing (fun actor => ?_) (by rw [senders, log, senders]) ends
  cases actor <;> simp [Open, requests, tasks]

section

variable [HttpDate] [UriSyntax] {base : OriginUrl}

omit [HttpDate] in
theorem look_opens {id : Nat} {store : Store} {req : HttpRequest} {stage : Stage}
    {flight : Option Flight} {next : Option StaleEntry → Stage} {use : FreshUse}
    (looks : Looks stage flight next use) {now : Instant} {outcome : Outcome}
    (result : outcome = Cached.or id flight next (fromCache base store req use now)) :
    stage.exchanging = false ∧ outcome.stage.exchanging = false ∧
      outcome.effects.filter Effect.isSent = [] := by
  subst result
  have onward (stale : Option StaleEntry) : (next stale).exchanging = false := by
    cases looks <;> rfl
  refine ⟨by cases looks <;> rfl, ?_⟩
  obtain ⟨cached, after, spawned⟩ := fromCache base store req use now
  cases cached with
  | answer given => exact ⟨rfl, released_silent id flight⟩
  | stale entry => exact ⟨onward (some entry), rfl⟩
  | nothing => exact ⟨onward none, rfl⟩
  | panics => exact ⟨onward none, rfl⟩

omit [HttpDate] in
/-- A look in the cache sends nothing itself, but may spawn a task that does. -/
theorem look_trade (unspawned : Unspawned σ) {id : Nat} {now : Clock} {request : Request}
    {flight : Option Flight} {next : Option StaleEntry → Stage} {use : FreshUse}
    (here : σ.requests id = some request) (looks : Looks request.stage flight next use) :
    Trade σ (.look id now) ((σ.tick now.instant).settle id request.req (Cached.or id flight next
      (fromCache base (σ.tick now.instant).store request.req use now.instant))) := by
  have ticked := Before.tick σ now.instant
  obtain ⟨-, -, -, awaits⟩ := look_advances base id (σ.tick now.instant).store request.req
    looks now.instant
  generalize result : Cached.or id flight next
    (fromCache base (σ.tick now.instant).store request.req use now.instant) = outcome at awaits
  obtain ⟨was, done, silent⟩ := look_opens looks result.symm
  have closed : ¬ σ.Open (.request id) := by
    rw [open_request here, was]
    exact Bool.false_ne_true
  cases spawned : outcome.spawned with
  | none => exact .quiet ticked rfl silent spawned (iff_of_false closed (by simp [done])) rfl
  | some pair =>
      have new : ¬ σ.Open (.task σ.spawned) := by
        rintro ⟨task, known, -⟩
        rw [unspawned _ (Nat.le_refl _)] at known
        cases known
      refine .sends new (fun other => ?_) ?_ rfl
      · rw [open_settle ticked awaits, spawned]
        by_cases mine : other = .request id
        · simp [mine, done, closed]
        · simp [mine]
      · rw [senders_settle ticked rfl, senders_silent silent, spawned]
        simp

omit [HttpDate] in
theorem prepare_trade {id : Nat} {body : BodyStart} {request : Request} {toOrigin : ToOrigin}
    (here : σ.requests id = some request) (stage : request.stage = .prepares toOrigin) :
    Trade σ (.prepare id body) (σ.settle id request.req
      (Shadowstep.prepare base id σ.store request.req toOrigin body)) := by
  have was : ¬ σ.Open (.request id) := by simp [open_request here, stage, Stage.exchanging]
  have same := Before.refl σ
  obtain ⟨status, h⟩ | ⟨sent, revalidating, h, -⟩ :=
    prepare_cases base id σ.store request.req toOrigin body
  · rw [h]
    exact .quiet same rfl (released_silent id toOrigin.flight) rfl
      (iff_of_false was Bool.false_ne_true) rfl
  · rw [h]
    refine .sends was (fun other => ?_) ?_ rfl
    · rw [open_settle same fun _ _ h => (by cases h)]
      by_cases mine : other = .request id <;> simp [mine, goesOn, Stage.exchanging]
    · rw [senders_settle same rfl]
      simp [goesOn, Effect.sender]

/-- Of all steps only `prepare` and the spawning of a task send a request. -/
theorem Happens.trade {σ' : World} (unspawned : Unspawned σ) (happens : Happens base σ event σ') :
    Trade σ event σ' := by
  have same := Before.refl σ
  cases happens with
  | arrive new =>
      refine .quiet same rfl rfl rfl ?_ rfl
      simp [Open, new, goesOn, Stage.exchanging]
  | look later here looks => exact look_trade unspawned here looks
  | @join id request stale here stage =>
      have was : ¬ σ.Open (.request id) := by simp [open_request here, stage, Stage.exchanging]
      have joined : Before σ { σ with flights := (joinFlight σ.store σ.flights request.req).2 } :=
        ⟨rfl, rfl, rfl, rfl⟩
      cases (joinFlight σ.store σ.flights request.req).1 <;>
        exact .quiet joined rfl rfl rfl (iff_of_false was Bool.false_ne_true) rfl
  | wake here stage | timeOut here stage =>
      refine .quiet same rfl rfl rfl ?_ rfl
      simp [open_request here, stage, goesOn, Stage.exchanging]
  | prepare here stage => exact prepare_trade here stage
  | @answered id head now request exchange later here stage =>
      exact .answers (.tick σ now.instant) rfl here stage (answered_spends ..)
        (answered_advances ..) rfl rfl
  | @failed id timedOut now request exchange later here stage =>
      exact .answers (.tick σ now.instant) rfl here stage (failed_spends ..) (failed_advances ..)
        rfl rfl
  | @body id item now request tee later here stage =>
      have ticked := Before.tick σ now.instant
      refine .quiet ticked rfl (Tee.poll_silent ..) rfl ?_ rfl
      simp [open_request here, stage, goesOn, Stage.exchanging]
  | @disconnect id request outcome here hangs =>
      obtain ⟨silent, stage, spawned, -⟩ := hangUp_gone hangs
      have done : outcome.stage.exchanging = false := by rw [stage]; rfl
      by_cases was : σ.Open (.request id)
      · obtain ⟨changed, senders⟩ := closed_settle same rfl silent spawned done
        exact .leaves was changed senders rfl rfl
      · exact .quiet same rfl silent spawned (iff_of_false was (by simp [done])) rfl
  | @refreshed id head now task later here stage =>
      have ticked := Before.tick σ now.instant
      have done : (task.refresh id (σ.tick now.instant).store head now).2.2 ≠ .awaits := by
        intro awaits
        have lower := task.refresh_rank id (σ.tick now.instant).store head now
        rw [awaits] at lower
        exact absurd lower (by decide)
      obtain ⟨changed, senders⟩ := closed_settleTask ticked rfl id task _
        (task.refresh_silent ..) done
      exact .ends ((open_task here).mpr stage) changed senders rfl rfl
  | @refreshFailed id task here stage =>
      obtain ⟨changed, senders⟩ := closed_settleTask same rfl id task (σ.store, [], .ended)
        rfl (fun h => by cases h)
      exact .ends ((open_task here).mpr stage) changed senders rfl rfl
  | @refreshBody id body now task storing head later here stage =>
      have ticked := Before.tick σ now.instant
      obtain ⟨changed, senders⟩ := closed_settleTask ticked rfl id task (_, _, .ended)
        (Task.collected_silent id (σ.tick now.instant).store storing head body now)
        fun h => by cases h
      refine .nothing (fun actor => (changed actor).trans (and_iff_right_of_imp ?_)) senders rfl
      rintro was rfl
      rw [open_task here, stage] at was
      cases was
  | insertAsset | evictIndex | evictEntry => exact .aside rfl rfl rfl rfl

end

end World

/-! ## The account of one kind -/

/-- An event may drop an exchange of this kind in the middle. -/
def World.Event.drops (kind : OriginKind) (event : World.Event) : Bool :=
  kind = .foreground && event.isDisconnect

/-- The open exchanges of a kind. -/
def World.OpenOf (σ : World) (kind : OriginKind) (actor : Actor) : Prop :=
  actor.kind = kind ∧ σ.Open actor

/-- How many requests of a kind have been sent. -/
def World.sent (σ : World) (kind : OriginKind) : Nat :=
  σ.senders.countP fun actor => actor.kind = kind

namespace World

variable {σ σ' : World} {event : Event}

/-- What a step adds to the account of a kind. -/
theorem Trade.entry (trade : Trade σ event σ') (kind : OriginKind) :
    ∃ left new, σ'.sent kind = σ.sent kind + new ∧
      left ≤ (if event.drops kind then 1 else 0) ∧
      Budget.Entry (σ.OpenOf kind) (σ'.OpenOf kind)
        (if event.ends = some kind then 1 else 0) left new := by
  -- an exchange of the other kind is none of this account's
  have apart {actor : Actor} (differ : actor.kind ≠ kind) :
      (∀ other, σ'.Open other ↔ other = actor ∨ σ.Open other) ∨
        (∀ other, σ'.Open other ↔ other ≠ actor ∧ σ.Open other) →
      ∀ other, σ'.OpenOf kind other ↔ σ.OpenOf kind other := by
    intro changed other
    refine and_congr_right fun mine => ?_
    have another : other ≠ actor := fun same => differ (same ▸ mine)
    obtain changed | changed := changed <;> rw [changed] <;> simp [another]
  cases trade with
  | nothing same senders ends =>
      refine ⟨0, 0, by rw [sent, senders]; rfl, Nat.zero_le _, ?_⟩
      rw [ends]
      exact .nothing fun actor => and_congr_right fun _ => same actor
  | @sends actor new changed senders ends =>
      rw [ends]
      by_cases mine : actor.kind = kind
      · refine ⟨0, 1, by simp [sent, senders, mine], Nat.zero_le _, ?_⟩
        refine .admits (fun h => new h.2) fun other => ?_
        by_cases same : other = actor <;> simp [OpenOf, changed, same, mine]
      · exact ⟨0, 0, by simp [sent, senders, mine], Nat.zero_le _,
          .nothing (apart mine (.inl changed))⟩
  | @ends actor was changed senders ends =>
      refine ⟨0, 0, by rw [sent, senders]; rfl, Nat.zero_le _, ?_⟩
      rw [ends]
      by_cases mine : actor.kind = kind
      · rw [if_pos (congrArg some mine)]
        refine .spends ⟨mine, was⟩ fun other => ?_
        by_cases same : other = actor <;> simp [OpenOf, changed, same]
      · rw [if_neg fun h => mine (Option.some.inj h)]
        exact .nothing (apart mine (.inr changed))
  | @leaves id was changed senders ends disconnects =>
      rw [ends]
      by_cases mine : kind = .foreground
      · subst mine
        refine ⟨1, 0, by rw [sent, senders]; rfl, by simp [Event.drops, disconnects], ?_⟩
        refine .leaves (show σ.OpenOf .foreground (.request id) from ⟨rfl, was⟩) fun other => ?_
        by_cases same : other = .request id <;> simp [OpenOf, changed, same]
      · refine ⟨0, 0, by rw [sent, senders]; rfl, Nat.zero_le _, ?_⟩
        have differ : (Actor.request id).kind ≠ kind := fun same => mine same.symm
        exact .nothing (apart differ (.inr changed))

end World

/-! ## The counters of the exchanges -/

/-- An exchange counts in the series of its kind and its outcome. -/
theorem Series.getD_ended (series : Series) (ends : Option (OriginKind × Text))
    (kind : OriginKind) (outcome : Text) :
    ((ends.elim series fun ended => series.ended ended.1 ended.2).originRequests
        [kind.label, outcome]).getD 0 = (series.originRequests [kind.label, outcome]).getD 0 +
      UInt64.ofNat (if ends = some (kind, outcome) then 1 else 0) := by
  cases ends with
  | none => exact (UInt64.add_zero _).symm
  | some ended =>
      obtain ⟨other, ended⟩ := ended
      rw [Option.elim_some, Series.ended, CounterVec.getD_inc]
      by_cases same : other = kind ∧ ended = outcome
      · obtain ⟨rfl, rfl⟩ := same
        simp
      · have differ : ¬ (kind = other ∧ outcome = ended) := fun h => same ⟨h.1.symm, h.2.symm⟩
        simp [Series.kind_label_inj, same, differ]

/-- All outcomes of a request to the origin. -/
def outcomes : List Text := expectedOutcomes ++ [otherClass]

namespace Exported

/-- The exchange that an event ends, by its kind and its outcome. -/
def Event.outcome : Event → Option (OriginKind × Text)
  | .counted (.proxy event) failure _ => Series.outcomeOf failure event
  | _ => none

/-- An exchange of this kind ends with this outcome. -/
def Event.counts (kind : OriginKind) (outcome : Text) (event : Event) : Bool :=
  event.outcome = some (kind, outcome)

def Event.drops (kind : OriginKind) : Event → Bool
  | .counted (.proxy event) .. => event.drops kind
  | _ => false

/-- The kind of the exchange that an event ends. -/
def Event.ends (event : Event) : Option OriginKind := event.outcome.map Prod.fst

theorem Event.outcome_known {event : Event} {kind : OriginKind} {outcome : Text}
    (h : event.outcome = some (kind, outcome)) : outcome ∈ outcomes := by
  cases event with
  | counted event failure idle =>
      cases event with
      | proxy event =>
          obtain known | rfl := Series.outcomeOf_known h
          · exact List.mem_append_left _ known
          · exact List.mem_append_right _ (List.mem_singleton_self _)
      | _ => cases h
  | health => cases h

/-- An exchange that ends has one of the outcomes. -/
theorem sum_counts (kind : OriginKind) (event : Event) :
    (outcomes.map fun outcome => if event.counts kind outcome then 1 else 0).sum =
      if event.ends = some kind then 1 else 0 := by
  have one : ∀ ended ∈ outcomes,
      (outcomes.map fun outcome => if ended = outcome then 1 else 0).sum = 1 := by decide
  obtain ends | ⟨⟨other, ended⟩, ends⟩ := Option.eq_none_or_eq_some event.outcome
  · simp [Event.counts, Event.ends, ends]
  · by_cases same : other = kind
    · simpa [Event.counts, Event.ends, ends, same] using one ended (Event.outcome_known ends)
    · simp [Event.counts, Event.ends, ends, same]

theorem ends_eq {failure : OriginFailure} {idle : Bool} {event : World.Event} :
    (Event.counted (.proxy event) failure idle).ends = event.ends := by
  cases event <;> rfl

theorem sum_countP_counts (kind : OriginKind) (events : List Event) :
    (outcomes.map fun outcome => events.countP (Event.counts kind outcome)).sum =
      events.countP fun event => event.ends = some kind := by
  induction events with
  | nil => rfl
  | cons event rest ih =>
      simp only [List.countP_cons, List.sum_map_add, ih, sum_counts, decide_eq_true_eq]

/-! ## Runs -/

/-- What happens to an asset, and a request for `/health`, is nothing to the
exchanges. -/
structure Bystander (σ σ' : Exported) : Prop where
  requests : σ'.counted.world.requests = σ.counted.world.requests
  tasks : σ'.counted.world.tasks = σ.counted.world.tasks
  spawned : σ'.counted.world.spawned = σ.counted.world.spawned
  log : σ'.counted.world.log = σ.counted.world.log
  originRequests : σ'.series.originRequests = σ.series.originRequests

/-- What an event is to the exchanges. -/
inductive Stepped [HttpDate] [UriSyntax] (base : OriginUrl) (σ : Exported) :
    Event → Exported → Prop
  | proxy {event failure idle σ'} (happens : World.Happens base σ.counted.world event σ'.counted.world)
      (originRequests : σ'.series.originRequests =
        (σ.series.sentToOrigin failure event).originRequests) :
    Stepped base σ (.counted (.proxy event) failure idle) σ'
  | bystander {event σ'} (bystander : Bystander σ σ') (outcome : event.outcome = none)
      (connected : ∀ kind, event.drops kind = false) : Stepped base σ event σ'

/-- Only the end of an exchange counts in `origin_requests`. -/
theorem forwarded_originRequests (series : Series) (answers : List Given) :
    (answers.foldl Series.forwarded series).originRequests = series.originRequests := by
  induction answers generalizing series with
  | nil => rfl
  | cons given rest ih =>
      obtain ⟨passed, bodied, eq⟩ := series.forwarded_eq given
      rw [List.foldl_cons, ih, eq]
      exact bodied.others.2.2

theorem served_originRequests (series : Series) (served : List AssetGiven) :
    (served.foldl Series.served series).originRequests = series.originRequests := by
  induction served generalizing series with
  | nil => rfl
  | cons given rest ih => exact ih (series.served given)

section

variable [HttpDate] [UriSyntax] [AssetCrates] {base : OriginUrl}

theorem storeAsset_aside {world world' : World} {stores : Option (Path × Bytes × SystemTime)}
    (h : Counted.storeAsset base world stores = some world') :
    world'.requests = world.requests ∧ world'.tasks = world.tasks ∧
      world'.spawned = world.spawned ∧ world'.log = world.log := by
  cases stores with
  | none =>
      obtain rfl := Option.some.inj h
      exact ⟨rfl, rfl, rfl, rfl⟩
  | some stored =>
      obtain ⟨path, content, modified⟩ := stored
      have step : World.step base world
          (.insertAsset path content (assetEtag content) modified) = some world' := h
      cases (World.happens_of_step step).2
      exact ⟨rfl, rfl, rfl, rfl⟩

theorem stepped {σ σ' : Exported} {event : Event} (h : step base σ event = some σ') :
    Stepped base σ event σ' := by
  cases event with
  | health =>
      simp only [step] at h
      split at h
      case isTrue => cases h
      case isFalse =>
        obtain rfl := Option.some.inj h
        exact .bystander ⟨rfl, rfl, rfl, rfl, rfl⟩ rfl fun _ => rfl
  | counted event failure idle =>
      obtain ⟨counted, hstep, rfl⟩ := Option.map_eq_some_iff.mp h
      have originRequests : (σ.counting event failure idle counted).originRequests =
          (σ.sent failure idle counted event).originRequests := by
        rw [counting, served_originRequests, forwarded_originRequests]
      cases event with
      | proxy event =>
          obtain ⟨world, hworld, rfl⟩ := Option.map_eq_some_iff.mp hstep
          have bodied := (σ.series.sentToOrigin failure event).originBody_cases idle world.tasks
            event
          exact .proxy (World.happens_of_step hworld).2 (originRequests.trans bodied.others.2.2)
      | assetArrive id request =>
          simp only [Counted.step] at hstep
          split at hstep
          case isTrue => cases hstep
          case isFalse =>
            obtain rfl := Option.some.inj hstep
            exact .bystander ⟨rfl, rfl, rfl, rfl, originRequests⟩ rfl fun _ => rfl
      | asset id assetStep =>
          simp only [Counted.step] at hstep
          split at hstep
          case isTrue => cases hstep
          case isFalse =>
            obtain ⟨⟨request, stage⟩, -, hstep⟩ := Option.bind_eq_some_iff.mp hstep
            obtain ⟨outcome, -, hstep⟩ := Option.bind_eq_some_iff.mp hstep
            obtain ⟨world, hworld, hstep⟩ := Option.bind_eq_some_iff.mp hstep
            obtain rfl := Option.some.inj hstep
            obtain ⟨requests, tasks, spawned, log⟩ := storeAsset_aside hworld
            exact .bystander ⟨requests, tasks, spawned, log, originRequests⟩ rfl fun _ => rfl

end

/-- The account of a kind, and its counters. -/
structure Booked (kind : OriginKind) (events : List Event) (σ : Exported) : Prop where
  unspawned : World.Unspawned σ.counted.world
  account : ∃ left ≤ events.countP (Event.drops kind),
    Budget.Balanced (σ.counted.world.OpenOf kind)
      (events.countP fun event => event.ends = some kind) left (σ.counted.world.sent kind)
  counters : ∀ outcome, (σ.series.originRequests [kind.label, outcome]).getD 0 =
    UInt64.ofNat (events.countP (Event.counts kind outcome))

theorem Booked.start (kind : OriginKind) (sizeMb : UInt64) (ttl : Duration) :
    Booked kind [] (start sizeMb ttl) where
  unspawned := .start sizeMb ttl
  account := by
    refine ⟨0, Nat.le_refl _, .start fun actor h => ?_⟩
    obtain ⟨-, h⟩ := h
    cases actor with
    | request id =>
        obtain ⟨request, here, -⟩ := h
        cases here
    | task id =>
        obtain ⟨task, here, -⟩ := h
        cases here
  counters outcome := Series.new_originRequests _

section

variable [HttpDate] [UriSyntax] {base : OriginUrl}

theorem Booked.step {kind : OriginKind} {events : List Event} {σ σ' : Exported} {event : Event}
    (booked : Booked kind events σ) (stepped : Stepped base σ event σ') :
    Booked kind (events ++ [event]) σ' := by
  have closes (event : Event) : (events ++ [event]).countP (fun event => event.ends = some kind) =
      events.countP (fun event => event.ends = some kind) +
        if event.ends = some kind then 1 else 0 := by
    simp [List.countP_append, List.countP_singleton]
  have counts (outcome : Text) (event : Event) :
      (events ++ [event]).countP (Event.counts kind outcome) =
        events.countP (Event.counts kind outcome) +
          if event.outcome = some (kind, outcome) then 1 else 0 := by
    simp [List.countP_append, List.countP_singleton, Event.counts]
  obtain ⟨left, few, balanced⟩ := booked.account
  cases stepped with
  | @proxy event failure idle _ happens originRequests =>
      refine ⟨booked.unspawned.step happens, ?_, fun outcome => ?_⟩
      · obtain ⟨more, new, sent, most, entry⟩ := (happens.trade booked.unspawned).entry kind
        refine ⟨left + more, ?_, ?_⟩
        · rw [List.countP_append, List.countP_singleton]
          exact Nat.add_le_add few most
        · rw [closes, sent, ends_eq]
          exact balanced.book entry
      · rw [originRequests, Series.sentToOrigin_eq, counts, UInt64.ofNat_add, ← booked.counters]
        show _ = _ + UInt64.ofNat
          (if Series.outcomeOf failure event = some (kind, outcome) then 1 else 0)
        exact Series.getD_ended ..
  | @bystander event _ bystander outcome connected =>
      obtain ⟨requests, tasks, spawned, log, originRequests⟩ := bystander
      have open_ (actor : Actor) :
          σ'.counted.world.OpenOf kind actor ↔ σ.counted.world.OpenOf kind actor := by
        cases actor <;> simp [World.OpenOf, World.Open, requests, tasks]
      have none : event.ends = none := by rw [Event.ends, outcome, Option.map_none]
      refine ⟨fun id later => ?_, ⟨left, ?_, ?_⟩, fun ended => ?_⟩
      · rw [tasks]
        exact booked.unspawned id (spawned ▸ later)
      · rw [List.countP_append]
        exact Nat.le_add_right_of_le few
      · rw [closes, none, World.sent, World.senders, log]
        exact balanced.keep open_
      · rw [originRequests, counts, outcome]
        exact booked.counters ended

/-- Of each kind, as many requests were sent to the origin as have ended in one
of the outcomes, are still open, or were dropped when their client went away;
and the counters say how many have ended in each of them. -/
theorem exchanges_balance [AssetCrates] {sizeMb : UInt64} {ttl : Duration} {events : List Event}
    {σ : Exported} (hrun : Runs.run (Exported.step base) (start sizeMb ttl) events = some σ)
    (kind : OriginKind) :
    (∀ outcome, (σ.series.originRequests [kind.label, outcome]).getD 0 =
        UInt64.ofNat (events.countP (Event.counts kind outcome))) ∧
      ∃ left ≤ events.countP (Event.drops kind), Budget.Balanced (σ.counted.world.OpenOf kind)
        (outcomes.map fun outcome => events.countP (Event.counts kind outcome)).sum left
        (σ.counted.world.sent kind) := by
  have booked : Booked kind events σ :=
    Runs.invariant_history (.start kind sizeMb ttl)
      (fun _ _ _ _ _ booked h => booked.step (stepped h)) hrun
  rw [sum_countP_counts]
  exact ⟨booked.counters, booked.account⟩

end

/-- A client goes away while its request is at the origin. -/
def hungUpEvents : List Event :=
  ((World.missEvents ⟨.ok, []⟩).take 5 ++ [World.Event.disconnect 0]).map fun event =>
    .counted (.proxy event) .error false

/-- The request was sent, and no series counts it. -/
theorem exchanges_balance_example : ∃ (_ : HttpDate) (_ : UriSyntax) (_ : AssetCrates)
    (σ : Exported),
    Runs.run (step exampleOrigin) (start 1 (Duration.fromSecs 300)) hungUpEvents = some σ ∧
      σ.counted.world.sent .foreground = 1 ∧
      ∃ left ≤ hungUpEvents.countP (Event.drops .foreground),
        Budget.Balanced (σ.counted.world.OpenOf .foreground) 0 left 1 := by
  let dates : HttpDate := ⟨fun _ => none⟩
  let uris : UriSyntax := ⟨fun _ => true, fun _ => true⟩
  let crates : AssetCrates := ⟨fun _ => [], fun _ => []⟩
  have evaluated : (Runs.run (step exampleOrigin) (start 1 (Duration.fromSecs 300))
      hungUpEvents).map (fun σ => σ.counted.world.sent .foreground) = some 1 := by decide +kernel
  obtain ⟨σ, run, sent⟩ := Option.map_eq_some_iff.mp evaluated
  have ended : (outcomes.map fun outcome =>
      hungUpEvents.countP (Event.counts .foreground outcome)).sum = 0 := by decide +kernel
  obtain ⟨-, left, few, balanced⟩ := exchanges_balance run .foreground
  rw [ended, sent] at balanced
  exact ⟨dates, uris, crates, σ, run, sent, left, few, balanced⟩

end Exported

end Shadowstep
