import Shadowstep.Lib.Budget
import Shadowstep.Proxy.Allowed
import Shadowstep.Proxy.Events

/-!
# The load on the origin

A client's request costs the origin one request at most, whether it is
forwarded or has a stale response revalidated in the background, and none when
a fresh response answers it. So the origin never gets more requests than the
proxy.

* `Spends` — what one step of a request costs the origin;
* `World.origin_is_spared` — what a run costs it.
-/

namespace Shadowstep

open Rust

def Effect.isSent : Effect → Bool
  | .sent .. => true
  | _ => false

/-- An origin request of this actor. -/
def Effect.isSentBy (actor : Actor) : Effect → Bool
  | .sent by_ _ => by_ = actor
  | _ => false

/-- The stored response was fresh. -/
def Cause.isFresh : Cause → Bool
  | .fresh .. => true
  | _ => false

/-- The stored response was stale, and perhaps revalidated in the background. -/
def Cause.isWhileRevalidating : Cause → Bool
  | .whileRevalidating _ => true
  | _ => false

/-- The request has not been sent to the origin yet, and has no answer. -/
def Stage.Due : Stage → Prop
  | .first | .joins _ | .follows _ | .again .. | .prepares _ => True
  | .exchanges _ | .streams _ | .done => False

/-- What a step of a request costs the origin. -/
inductive Spends (id : Nat) (stage : Stage) (outcome : Outcome) : Prop
  | nothing (silent : outcome.effects.filter Effect.isSent = []) (spawned : outcome.spawned = none)
      (answer : ∀ answer, outcome.answer = some answer → answer.cause.isFresh = false)
      (due : outcome.stage.Due → stage.Due)
  | fresh {answer} (silent : outcome.effects.filter Effect.isSent = [])
      (spawned : outcome.spawned = none) (given : outcome.answer = some answer)
      (fresh : answer.cause.isFresh = true) (was : stage.Due) (ended : ¬ outcome.stage.Due)
  | refresh {answer spawned} (silent : outcome.effects.filter Effect.isSent = [])
      (spawned : outcome.spawned = some spawned) (given : outcome.answer = some answer)
      (stale : answer.cause.isWhileRevalidating = true)
      (panics : outcome.panics = answer.response.isNone) (was : stage.Due)
      (ended : ¬ outcome.stage.Due)
  | sent {request} (sends : outcome.effects.filter Effect.isSent = [.sent (.request id) request])
      (spawned : outcome.spawned = none) (answer : outcome.answer = none) (was : stage.Due)
      (ended : ¬ outcome.stage.Due)

/-! ## What is not sent -/

@[simp] theorem released_silent (id : Nat) (flight : Option Flight) :
    (released id flight).filter Effect.isSent = [] := by
  cases flight <;> rfl

theorem silent_append {first second : List Effect} (silent : first.filter Effect.isSent = [])
    (silent' : second.filter Effect.isSent = []) :
    (first ++ second).filter Effect.isSent = [] := by
  rw [List.filter_append, silent, silent']
  rfl

theorem Tee.discard_silent (id : Nat) (tee : Tee) :
    (tee.discard id).1.filter Effect.isSent = [] := by
  unfold discard
  cases tee.copy with
  | none => rfl
  | some copy => exact released_silent ..

theorem Tee.finish_silent (id : Nat) (store : Store) (tee : Tee) (now : Clock) :
    (tee.finish id store now).2.1.filter Effect.isSent = [] := by
  unfold finish
  split
  · rfl
  · simp only
    split
    · exact silent_append rfl (released_silent ..)
    · exact released_silent ..

theorem Tee.poll_silent (id : Nat) (store : Store) (tee : Tee) (item : Item) (now : Clock) :
    (tee.poll id store item now).2.1.filter Effect.isSent = [] := by
  unfold poll
  split
  · split
    · rfl
    · split
      · exact tee.discard_silent id
      · simp only
        split
        · exact finish_silent ..
        · rfl
  · exact tee.discard_silent id
  · exact tee.finish_silent ..

theorem Tee.new_silent (id : Nat) (store : Store) (length : Option Nat) (copy : Option BodyCopy)
    (now : Clock) : (Tee.new id store length copy now).2.1.filter Effect.isSent = [] := by
  unfold Tee.new
  simp only
  split
  · exact Tee.finish_silent ..
  · rfl

theorem clientResponse_silent (id : Nat) (store : Store) (head : Head) (storing : Option Storing)
    (now : Clock) : (clientResponse id store head storing now).2.2.1.filter Effect.isSent = [] := by
  have refused (kept : Bool) :
      (if kept then storing.elim [] fun s => released id s.flight else []).filter Effect.isSent =
        [] := by
    cases kept with
    | false => rfl
    | true =>
        cases storing with
        | none => rfl
        | some s => exact released_silent ..
  exact silent_append (refused _) (Tee.new_silent ..)

section

variable [HttpDate]

theorem storePlan_silent (actor : Actor) (store : Store) (req : HttpRequest) (head : Head)
    (now : Clock) : (storePlan actor store req head now).2.2.filter Effect.isSent = [] := by
  unfold storePlan
  simp only
  split <;> rfl

theorem Exchange.forwarded_silent (exchange : Exchange) (id : Nat) (store : Store)
    (req : HttpRequest) (head : Head) (now : Clock) :
    (exchange.forwarded id store req head now).effects.filter Effect.isSent = [] := by
  unfold Exchange.forwarded
  simp only [List.filter_append, storePlan_silent, clientResponse_silent, List.nil_append,
    List.append_nil]
  split
  · exact released_silent ..
  · rfl

end

/-! ## One step of a request -/

theorem Looks.due {stage : Stage} {flight : Option Flight} {next : Option StaleEntry → Stage}
    {use : FreshUse} (looks : World.Looks stage flight next use) : stage.Due := by
  cases looks <;> trivial

theorem look_spends [UriSyntax] (base : OriginUrl) (id : Nat) (store : Store) (req : HttpRequest)
    {stage : Stage} {flight : Option Flight} {next : Option StaleEntry → Stage} {use : FreshUse}
    (looks : World.Looks stage flight next use) (now : Instant) :
    Spends id stage (Cached.or id flight next (fromCache base store req use now)) := by
  obtain ⟨-, spec⟩ := fromCache_spec base store req use now
  generalize fromCache base store req use now = result at spec
  obtain ⟨cached, after, spawned⟩ := result
  have due := Looks.due looks
  cases spec with
  | fresh => exact .fresh (released_silent id flight) rfl rfl rfl due fun h => h
  | @whileRevalidating entry =>
      cases spawned with
      | none =>
          refine .nothing (released_silent id flight) rfl ?_ fun _ => due
          rintro _ ⟨⟩
          rfl
      | some pair => exact .refresh (released_silent id flight) rfl rfl rfl rfl due fun h => h
  | _ => exact .nothing rfl rfl (fun _ h => by cases h) fun _ => due

/-- A step that sends nothing and gives no fresh answer. -/
theorem Spends.quiet {id : Nat} {stage : Stage} {outcome : Outcome}
    (silent : outcome.effects.filter Effect.isSent = []) (spawned : outcome.spawned = none)
    (answer : ∀ answer, outcome.answer = some answer → answer.cause.isFresh = false)
    (ended : ¬ outcome.stage.Due) : Spends id stage outcome :=
  .nothing silent spawned answer fun due => absurd due ended

theorem join_spends (id : Nat) (store : Store) (stale : Option StaleEntry) (join : Join FlightKey) :
    Spends id (.joins stale) (World.afterJoin id store stale join) := by
  cases join <;> exact .nothing rfl rfl (fun _ h => by cases h) fun _ => trivial

theorem prepare_spends [UriSyntax] (base : OriginUrl) (id : Nat) (store : Store)
    (req : HttpRequest) (toOrigin : ToOrigin) (body : BodyStart) :
    Spends id (.prepares toOrigin) (prepare base id store req toOrigin body) := by
  obtain ⟨status, h⟩ | ⟨request, revalidating, h, -⟩ :=
    prepare_cases base id store req toOrigin body
  · rw [h]
    refine .quiet (released_silent id toOrigin.flight) rfl ?_ fun h => h
    rintro _ ⟨⟩
    rfl
  · rw [h]
    exact .sent rfl rfl rfl trivial fun h => h

theorem serveStale_spends {id : Nat} {store : Store} {exchange : Exchange} {stale : StaleEntry}
    {status : Option StatusCode} {now : Instant} {stage : Stage} :
    Spends id stage (exchange.serveStale id store stale status now) := by
  refine .quiet (released_silent id exchange.flight) rfl ?_ fun h => h
  rintro _ ⟨⟩
  rfl

theorem failed_spends (id : Nat) (store : Store) (req : HttpRequest) (exchange : Exchange)
    (status : StatusCode) (now : Instant) :
    Spends id (.exchanges exchange) (exchange.failed id store req status now) := by
  obtain ⟨stale, -, -, h⟩ | ⟨status', h⟩ := exchange.failed_cases id store req status now
  · rw [h]
    exact serveStale_spends
  · rw [h]
    refine .quiet (released_silent id exchange.flight) rfl ?_ fun h => h
    rintro _ ⟨⟩
    rfl

theorem answered_spends [HttpDate] (id : Nat) (store : Store) (req : HttpRequest)
    (exchange : Exchange) (head : Head) (now : Clock) :
    Spends id (.exchanges exchange) (exchange.answered id store req head now) := by
  have answered := exchange.answered_cases id store req head now
  generalize exchange.answered id store req head now = outcome at answered
  cases answered with
  | revalidated =>
      refine .quiet (released_silent id exchange.flight) rfl ?_ fun h => h
      rintro _ ⟨⟩
      rfl
  | stale => exact serveStale_spends
  | forwarded =>
      refine .quiet (exchange.forwarded_silent ..) rfl ?_ fun h => h
      rintro _ ⟨⟩
      rfl

/-- Who hangs up leaves without a word. -/
theorem hangUp_gone {id : Nat} {store : Store} {stage : Stage} {outcome : Outcome}
    (hangs : World.hangUp id store stage = some outcome) :
    outcome.effects.filter Effect.isSent = [] ∧ outcome.stage = .done ∧
      outcome.spawned = none ∧ outcome.answer = none := by
  cases stage with
  | streams tee =>
      obtain rfl := Option.some.inj hangs
      exact ⟨tee.discard_silent id, rfl, rfl, rfl⟩
  | prepares | exchanges =>
      obtain rfl := Option.some.inj hangs
      exact ⟨released_silent .., rfl, rfl, rfl⟩
  | first | follows =>
      obtain rfl := Option.some.inj hangs
      exact ⟨rfl, rfl, rfl, rfl⟩
  | _ => cases hangs

theorem hangUp_spends {id : Nat} {store : Store} {stage : Stage} {outcome : Outcome}
    (hangs : World.hangUp id store stage = some outcome) : Spends id stage outcome := by
  obtain ⟨silent, stage, spawned, answer⟩ := hangUp_gone hangs
  refine .quiet silent spawned ?_ ?_
  · rw [answer]
    exact fun _ h => by cases h
  · rw [stage]
    exact fun h => h

/-- A task sends nothing after the request that it is spawned with. -/
theorem Task.refresh_silent [HttpDate] (task : Task) (id : Nat) (store : Store) (head : Head)
    (now : Clock) : (task.refresh id store head now).2.1.filter Effect.isSent = [] := by
  unfold Task.refresh
  split
  · rfl
  · have planned := storePlan_silent (.task id) store task.req head now
    split
    · rename_i plan
      rw [plan] at planned
      exact planned
    · rename_i plan
      rw [plan] at planned
      exact planned

theorem Task.collected_silent (id : Nat) (store : Store) (storing : Storing) (head : Head)
    (body : Option Bytes) (now : Clock) :
    (Task.collected id store storing head body now).2.filter Effect.isSent = [] := by
  unfold Task.collected
  cases body with
  | none => rfl
  | some body =>
      simp only
      split <;> rfl

/-! ## The counts after a step -/

theorem Effect.isSent_of_isSentBy {actor : Actor} {effect : Effect}
    (h : effect.isSentBy actor = true) : effect.isSent = true := by
  cases effect with
  | sent => rfl
  | _ => cases h

theorem countP_sentBy (actor : Actor) (effects : List Effect) :
    effects.countP (Effect.isSentBy actor) =
      (effects.filter Effect.isSent).countP (Effect.isSentBy actor) := by
  rw [List.countP_filter]
  refine List.countP_congr fun effect _ => ?_
  simp only [Bool.and_eq_true]
  exact ⟨fun h => ⟨h, effect.isSent_of_isSentBy h⟩, fun h => h.1⟩

/-- The answer that a step gives, if it has this cause. -/
def Outcome.gives (outcome : Outcome) (p : Cause → Bool) : Nat :=
  if outcome.answer.any fun answer => p answer.cause && answer.response.isSome then 1 else 0

theorem Outcome.gives_of_none {outcome : Outcome} {p : Cause → Bool}
    (never : ∀ answer, outcome.answer = some answer → p answer.cause = false) :
    outcome.gives p = 0 := by
  unfold gives
  cases h : outcome.answer with
  | none => rfl
  | some answer => simp [never answer h]

theorem Outcome.gives_le (outcome : Outcome) (p : Cause → Bool) : outcome.gives p ≤ 1 := by
  unfold gives
  split <;> decide

namespace World

def Event.isArrival : Event → Bool
  | .arrive .. => true
  | _ => false

theorem settle_sends (σ : World) (id : Nat) (req : HttpRequest) (outcome : Outcome) :
    (σ.settle id req outcome).log.countP Effect.isSent =
      σ.log.countP Effect.isSent + (outcome.effects.filter Effect.isSent).length +
        outcome.spawned.toList.length := by
  unfold World.settle
  simp only [List.countP_eq_length_filter, List.filter_append, List.length_append]
  cases outcome.spawned <;> rfl

theorem settle_sendsBy (σ : World) (id : Nat) (req : HttpRequest) (outcome : Outcome)
    (actor : Actor) :
    (σ.settle id req outcome).log.countP (Effect.isSentBy actor) =
      σ.log.countP (Effect.isSentBy actor) +
        (outcome.effects.filter Effect.isSent).countP (Effect.isSentBy actor) +
        if actor = .task σ.spawned then outcome.spawned.toList.length else 0 := by
  unfold World.settle
  simp only [List.countP_append, countP_sentBy actor outcome.effects]
  congr 1
  cases outcome.spawned with
  | none => simp
  | some pair =>
      by_cases mine : actor = .task σ.spawned
      · simp [Effect.isSentBy, mine]
      · simp [Effect.isSentBy, mine, Ne.symm mine]

theorem settle_gives (σ : World) (id : Nat) (req : HttpRequest) (outcome : Outcome)
    (p : Cause → Bool) :
    (σ.settle id req outcome).answers.countP (fun given => p given.cause) =
      σ.answers.countP (fun given => p given.cause) + outcome.gives p := by
  unfold World.settle Outcome.gives
  simp only [List.countP_append]
  congr 1
  cases outcome.answer with
  | none => rfl
  | some answer =>
      cases h : answer.response with
      | none => simp [h]
      | some response => cases cause : p answer.cause <;> simp [h, cause]

/-! ## The invariant -/

/-- The request may still be sent to the origin. -/
def Due (σ : World) (id : Nat) : Prop :=
  ∃ request, σ.requests id = some request ∧ request.stage.Due

structure Spared (events : List Event) (σ : World) : Prop where
  within : Budget.Within σ.Due
    (σ.log.countP Effect.isSent + σ.answers.countP fun given => given.cause.isFresh)
    (events.countP Event.isArrival)
  own : ∀ id, σ.log.countP (Effect.isSentBy (.request id)) ≤ 1
  unsent : ∀ id, (∀ request, σ.requests id = some request → request.stage.Due) →
    σ.log.countP (Effect.isSentBy (.request id)) = 0
  tasks : ∀ id, σ.log.countP (Effect.isSentBy (.task id)) = if id < σ.spawned then 1 else 0
  refreshes : σ.aborted = false →
    σ.spawned ≤ σ.answers.countP fun given => given.cause.isWhileRevalidating

theorem Spared.start (sizeMb : UInt64) (ttl : Duration) : Spared [] (start sizeMb ttl) where
  within := .start fun _ h => by
    obtain ⟨request, here, -⟩ := h
    cases here
  own _ := Nat.zero_le _
  unsent _ _ := rfl
  tasks _ := rfl
  refreshes _ := Nat.le_refl _

variable {events : List Event} {event : Event} {σ σ₀ : World}

/-- Who is due after a step of a request. -/
theorem due_settle {id : Nat} {req : HttpRequest} {outcome : Outcome}
    (requests : σ₀.requests = σ.requests) {other : Nat}
    (h : (σ₀.settle id req outcome).Due other) :
    other = id ∧ outcome.stage.Due ∨ other ≠ id ∧ σ.Due other := by
  obtain ⟨request, here, due⟩ := h
  rcases Runs.update_cases here with ⟨rfl, rfl⟩ | ⟨differ, before⟩
  · exact .inl ⟨rfl, due⟩
  · exact .inr ⟨differ, request, requests ▸ before, due⟩

/-- A step of a request spends what it may. -/
theorem Spared.settle (spared : Spared events σ) {id : Nat} {request : Request}
    {outcome : Outcome} (requests : σ₀.requests = σ.requests) (log : σ₀.log = σ.log)
    (answers : σ₀.answers = σ.answers) (count : σ₀.spawned = σ.spawned)
    (running : σ.aborted = false) (arrival : event.isArrival = false)
    (here : σ.requests id = some request) (spends : Spends id request.stage outcome) :
    Spared (events ++ [event]) (σ₀.settle id request.req outcome) := by
  have arrivals : (events ++ [event]).countP Event.isArrival = events.countP Event.isArrival := by
    simp [arrival]
  have sends := settle_sends σ₀ id request.req outcome
  have sendsBy := settle_sendsBy σ₀ id request.req outcome
  have gives := settle_gives σ₀ id request.req outcome
  rw [log] at sends
  simp only [log, count] at sendsBy
  simp only [answers] at gives
  have spawns : (σ₀.settle id request.req outcome).spawned =
      σ.spawned + outcome.spawned.toList.length := by
    rw [← count]
    rfl
  have aborts : (σ₀.settle id request.req outcome).aborted = outcome.panics := rfl
  have was : request.stage.Due → σ.Due id := fun due => ⟨request, here, due⟩
  have left : ¬ outcome.stage.Due → ∀ other, (σ₀.settle id request.req outcome).Due other →
      other ≠ id ∧ σ.Due other := by
    intro ended other h
    rcases due_settle requests h with ⟨-, due⟩ | before
    · exact absurd due ended
    · exact before
  -- another request's step leaves it its requests
  have others : ∀ other, other ≠ id →
      (∀ request', (σ₀.settle id request.req outcome).requests other = some request' →
        request'.stage.Due) → σ.log.countP (Effect.isSentBy (.request other)) = 0 := by
    intro other differ due
    refine spared.unsent other fun request' h => due request' ?_
    rw [← requests] at h
    exact (Function.update_of_ne differ ..).trans h
  have mine : (∀ request', (σ₀.settle id request.req outcome).requests id = some request' →
      request'.stage.Due) → outcome.stage.Due := fun due => due _ (Function.update_self ..)
  have unsent : request.stage.Due → σ.log.countP (Effect.isSentBy (.request id)) = 0 := by
    intro due
    refine spared.unsent id fun request' h => ?_
    obtain rfl := Option.some.inj (here.symm.trans h)
    exact due
  -- what is not sent changes no request's count
  have quiet (silent : outcome.effects.filter Effect.isSent = []) (other : Nat) :
      (σ₀.settle id request.req outcome).log.countP (Effect.isSentBy (.request other)) =
        σ.log.countP (Effect.isSentBy (.request other)) := by
    rw [sendsBy, silent]
    simp
  cases spends with
  | nothing silent spawned answer due =>
      simp only [silent, spawned, Option.toList, List.length_nil, Nat.add_zero] at sends spawns
      refine ⟨?_, fun other => quiet silent other ▸ spared.own other, fun other h => ?_,
        fun other => ?_, fun _ => ?_⟩
      · rw [sends, gives, Outcome.gives_of_none answer, arrivals]
        refine spared.within.keep fun other h => ?_
        rcases due_settle requests h with ⟨rfl, still⟩ | ⟨-, before⟩
        · exact was (due still)
        · exact before
      · rw [quiet silent]
        by_cases same : other = id
        · subst same
          exact unsent (due (mine h))
        · exact others other same h
      · rw [sendsBy, silent, spawns, spared.tasks]
        simp [spawned]
      · rw [spawns, gives]
        exact Nat.le_add_right_of_le (spared.refreshes running)
  | @fresh answer silent spawned given fresh due ended =>
      simp only [silent, spawned, Option.toList, List.length_nil, Nat.add_zero] at sends spawns
      refine ⟨?_, fun other => quiet silent other ▸ spared.own other, fun other h => ?_,
        fun other => ?_, fun _ => ?_⟩
      · rw [sends, gives, arrivals]
        have once := outcome.gives_le Cause.isFresh
        exact (spared.within.spend (was due) (left ended)).mono (by omega)
      · rw [quiet silent]
        by_cases same : other = id
        · subst same
          exact absurd (mine h) ended
        · exact others other same h
      · rw [sendsBy, silent, spawns, spared.tasks]
        simp [spawned]
      · rw [spawns, gives]
        exact Nat.le_add_right_of_le (spared.refreshes running)
  | @refresh answer pair silent spawned given stale panics due ended =>
      simp only [silent, spawned, Option.toList, List.length_cons, List.length_nil,
        Nat.add_zero, Nat.zero_add] at sends spawns
      refine ⟨?_, fun other => quiet silent other ▸ spared.own other, fun other h => ?_,
        fun other => ?_, fun alive => ?_⟩
      · have unfresh : outcome.gives Cause.isFresh = 0 := by
          refine Outcome.gives_of_none fun other h => ?_
          obtain rfl := Option.some.inj (given.symm.trans h)
          cases cause : answer.cause <;> rw [cause] at stale <;> first | rfl | cases stale
        rw [sends, gives, unfresh, arrivals]
        exact (spared.within.spend (was due) (left ended)).mono (by omega)
      · rw [quiet silent]
        by_cases same : other = id
        · subst same
          exact absurd (mine h) ended
        · exact others other same h
      · rw [sendsBy, silent, spawns, spared.tasks]
        by_cases new : other = σ.spawned
        · subst new
          simp [spawned]
        · simp only [List.countP_nil, Actor.task.injEq, if_neg new]
          split <;> split <;> omega
      · have answered : outcome.gives Cause.isWhileRevalidating = 1 := by
          rw [aborts, panics, Option.isNone_eq_false_iff] at alive
          simp [Outcome.gives, given, stale, alive]
        rw [spawns, gives, answered]
        exact Nat.succ_le_succ (spared.refreshes running)
  | @sent upstream sent spawned answer due ended =>
      simp only [sent, spawned, Option.toList, List.length_cons, List.length_nil,
        Nat.add_zero, Nat.zero_add] at sends spawns
      have sentBy (other : Nat) :
          (σ₀.settle id request.req outcome).log.countP (Effect.isSentBy (.request other)) =
            σ.log.countP (Effect.isSentBy (.request other)) + if id = other then 1 else 0 := by
        rw [sendsBy, sent]
        by_cases same : id = other
        · simp [Effect.isSentBy, same]
        · simp [Effect.isSentBy, same]
      refine ⟨?_, fun other => ?_, fun other h => ?_, fun other => ?_, fun _ => ?_⟩
      · have ungiven : outcome.gives Cause.isFresh = 0 := by
          refine Outcome.gives_of_none fun other h => ?_
          rw [answer] at h
          cases h
        rw [sends, gives, ungiven, arrivals]
        exact (spared.within.spend (was due) (left ended)).mono (by omega)
      · rw [sentBy]
        by_cases same : id = other
        · subst same
          rw [unsent due, if_pos rfl]
        · rw [if_neg same]
          exact spared.own other
      · by_cases same : other = id
        · subst same
          exact absurd (mine h) ended
        · rw [sentBy, if_neg (Ne.symm same)]
          exact others other same h
      · rw [sendsBy, sent, spawns, spared.tasks]
        simp [spawned, Effect.isSentBy]
      · rw [spawns, gives]
        exact Nat.le_add_right_of_le (spared.refreshes running)

/-- A new request. -/
theorem Spared.arrive (spared : Spared events σ) {id : Nat} (req : HttpRequest)
    (running : σ.aborted = false) (arrival : event.isArrival = true)
    (new : σ.requests id = none) :
    Spared (events ++ [event]) (σ.settle id req (goesOn σ.store [] .first)) := by
  have arrivals : (events ++ [event]).countP Event.isArrival =
      events.countP Event.isArrival + 1 := by
    simp [arrival]
  have log : (σ.settle id req (goesOn σ.store [] .first)).log = σ.log := by
    simp [World.settle, goesOn]
  have answers : (σ.settle id req (goesOn σ.store [] .first)).answers = σ.answers := by
    simp [World.settle, goesOn]
  refine ⟨?_, fun other => log ▸ spared.own other, fun other h => ?_,
    fun other => log ▸ spared.tasks other, fun _ => answers ▸ spared.refreshes running⟩
  · rw [log, answers, arrivals]
    refine spared.within.admit id fun other h => ?_
    rcases due_settle rfl h with ⟨same, -⟩ | ⟨-, before⟩
    · exact .inl same
    · exact .inr before
  · rw [log]
    refine spared.unsent other fun request here => h request ?_
    have differ : other ≠ id := by
      rintro rfl
      rw [new] at here
      cases here
    exact (Function.update_of_ne differ ..).trans here

/-- A step that sends nothing and leaves the requests alone. -/
theorem Spared.silent (spared : Spared events σ) {σ' : World} {effects : List Effect}
    (arrival : event.isArrival = false) (requests : σ'.requests = σ.requests)
    (answers : σ'.answers = σ.answers) (count : σ'.spawned = σ.spawned)
    (aborted : σ'.aborted = σ.aborted) (log : σ'.log = σ.log ++ effects)
    (silent : effects.filter Effect.isSent = []) : Spared (events ++ [event]) σ' := by
  have sends : σ'.log.countP Effect.isSent = σ.log.countP Effect.isSent := by
    rw [log, List.countP_append, List.countP_eq_length_filter (l := effects), silent]
    rfl
  have sendsBy (actor : Actor) : σ'.log.countP (Effect.isSentBy actor) =
      σ.log.countP (Effect.isSentBy actor) := by
    rw [log, List.countP_append, countP_sentBy actor effects, silent]
    rfl
  refine ⟨?_, fun id => sendsBy _ ▸ spared.own id, fun id h => ?_, fun id => ?_, fun h => ?_⟩
  · rw [sends, answers, List.countP_append, List.countP_singleton, arrival]
    refine spared.within.keep fun id h => ?_
    obtain ⟨request, here, due⟩ := h
    exact ⟨request, requests ▸ here, due⟩
  · rw [sendsBy]
    exact spared.unsent id fun request here => h request (requests.symm ▸ here)
  · rw [sendsBy, count]
    exact spared.tasks id
  · rw [count, answers]
    exact spared.refreshes (aborted ▸ h)

section

variable [HttpDate] [UriSyntax] {base : OriginUrl}

theorem Spared.step {σ' : World} (spared : Spared events σ) (running : σ.aborted = false)
    (happens : Happens base σ event σ') : Spared (events ++ [event]) σ' := by
  cases happens with
  | arrive new => exact spared.arrive _ running rfl new
  | @look id now request flight next use later here looks =>
      exact spared.settle (by rfl) (by rfl) (by rfl) (by rfl) running rfl here
        (look_spends base id _ request.req looks now.instant)
  | @join id request stale here stage =>
      refine spared.settle (by rfl) (by rfl) (by rfl) (by rfl) running rfl here ?_
      rw [stage]
      exact join_spends ..
  | wake here stage | timeOut here stage =>
      refine spared.settle (by rfl) (by rfl) (by rfl) (by rfl) running rfl here ?_
      rw [stage]
      exact .nothing rfl rfl (fun _ h => by cases h) fun _ => trivial
  | prepare here stage =>
      refine spared.settle (by rfl) (by rfl) (by rfl) (by rfl) running rfl here ?_
      rw [stage]
      exact prepare_spends ..
  | answered later here stage =>
      refine spared.settle (by rfl) (by rfl) (by rfl) (by rfl) running rfl here ?_
      rw [stage]
      exact answered_spends ..
  | failed later here stage =>
      refine spared.settle (by rfl) (by rfl) (by rfl) (by rfl) running rfl here ?_
      rw [stage]
      exact failed_spends ..
  | @body id item now request tee later here stage =>
      exact spared.settle (by rfl) (by rfl) (by rfl) (by rfl) running rfl here
        (.quiet (tee.poll_silent ..) rfl (fun _ h => by cases h) fun h => h)
  | disconnect here hangs =>
      exact spared.settle (by rfl) (by rfl) (by rfl) (by rfl) running rfl here
        (hangUp_spends hangs)
  | @refreshed id head now task later here stage =>
      exact spared.silent rfl (by rfl) (by rfl) (by rfl) (by rfl) (by rfl)
        (task.refresh_silent id (σ.tick now.instant).store head now)
  | refreshFailed => exact spared.silent rfl rfl rfl rfl rfl rfl List.filter_nil
  | @refreshBody id body now task storing head later here stage =>
      exact spared.silent rfl (by rfl) (by rfl) (by rfl) (by rfl) (by rfl)
        (Task.collected_silent id (σ.tick now.instant).store storing head body now)
  | insertAsset | evictIndex | evictEntry =>
      exact spared.silent rfl (by rfl) (by rfl) (by rfl) (by rfl) (List.append_nil _).symm rfl

/-! ## Whole runs -/

/-- In every run a client's request is sent to the origin once at most, a
background task once exactly, and there are no more tasks than stale answers.
All of it and the fresh answers together are no more than the requests that
the proxy has got. -/
theorem origin_is_spared {sizeMb : UInt64} {ttl : Duration} {σ : World}
    (hrun : Runs.run (World.step base) (World.start sizeMb ttl) events = some σ) :
    (∀ id, σ.log.countP (Effect.isSentBy (.request id)) ≤ 1) ∧
    (∀ id, σ.log.countP (Effect.isSentBy (.task id)) = if id < σ.spawned then 1 else 0) ∧
    (σ.aborted = false →
      σ.spawned ≤ σ.answers.countP fun given => given.cause.isWhileRevalidating) ∧
    σ.log.countP Effect.isSent + (σ.answers.countP fun given => given.cause.isFresh) ≤
      events.countP Event.isArrival := by
  have spared : Spared events σ := Runs.invariant_history (I := Spared) (.start sizeMb ttl)
    (fun _ _ _ _ _ spared h =>
      spared.step (happens_of_step h).1 (happens_of_step h).2) hrun
  exact ⟨spared.own, spared.tasks, spared.refreshes, spared.within.le⟩

end

theorem origin_is_spared_example : ∃ (_ : HttpDate) (_ : UriSyntax) (σ : World) (given : Given),
    Runs.run (step exampleOrigin) (start 1 (Duration.fromSecs 300)) hitEvents = some σ ∧
      given ∈ σ.answers ∧ given.cause.isFresh = true ∧
      σ.log.countP Effect.isSent + (σ.answers.countP fun given => given.cause.isFresh) ≤
        hitEvents.countP Event.isArrival := by
  let dates : HttpDate := ⟨fun _ => none⟩
  let uris : UriSyntax := ⟨fun _ => true, fun _ => true⟩
  have evaluated : ((Runs.run (step exampleOrigin) (start 1 (Duration.fromSecs 300))
      hitEvents).map fun σ => (σ.answers[1]?).any fun given => given.cause.isFresh) =
        some true := by
    decide +kernel
  obtain ⟨σ, hrun, evaluated⟩ := Option.map_eq_some_iff.mp evaluated
  obtain ⟨given, last, fresh⟩ := (Option.any_eq_true _ _).mp evaluated
  exact ⟨dates, uris, σ, given, hrun, List.mem_of_getElem? last, fresh,
    (origin_is_spared hrun).2.2.2⟩

end World

end Shadowstep
