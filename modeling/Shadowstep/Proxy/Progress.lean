import Shadowstep.Proxy.Load

/-!
# Nobody waits for good

A request looks in the cache twice at most, joins one flight, waits for one
leader and makes one exchange with the origin. Each of these steps can be taken
whatever the other requests do: a follower may stop waiting, and an exchange
may time out. So every request gets its answer, and only one.

* `Outcome.Advances` — a step towards the answer;
* `World.Turn` — what an event is to those who wait;
* `World.Fate` — what has become of a request;
* `World.requests_balance` — no request is lost, and none is answered twice;
* `World.nobody_waits` — how many steps it takes at most, and that they can be
  taken alone.
-/

namespace Shadowstep

open Rust

/-! ## Steps left -/

/-- How many steps a request takes at most until its answer. -/
def Stage.rank : Stage → Nat
  | .first => 6
  | .joins _ => 5
  | .follows _ => 4
  | .again .. => 3
  | .prepares _ => 2
  | .exchanges _ => 1
  | .streams _ | .done => 0

/-- How many steps a task takes at most until its end. -/
def TaskStage.rank : TaskStage → Nat
  | .awaits => 2
  | .collects .. => 1
  | .ended => 0

def Actor.rank : Actor → Nat
  | .request _ => Stage.first.rank
  | .task _ => TaskStage.awaits.rank

/-- A step towards the answer: there are fewer left, and with the last one the
answer is given. -/
structure Outcome.Advances (stage : Stage) (outcome : Outcome) : Prop where
  lower : outcome.stage.rank < stage.rank
  last : outcome.stage.rank = 0 ↔ outcome.answer.isSome = true
  panics : ∀ answer, outcome.answer = some answer → answer.response = none →
    outcome.panics = true
  awaits : ∀ task request, outcome.spawned = some (task, request) → task.stage = .awaits

theorem Outcome.Advances.reply (id : Nat) (store : Store) (effects : List Effect)
    (flight : Option Flight) (answer : Answer) {stage : Stage} (due : 0 < stage.rank) :
    (reply id store effects flight answer).Advances stage where
  lower := due
  last := ⟨fun _ => rfl, fun _ => rfl⟩
  panics := by
    rintro _ ⟨⟩ none
    exact Option.isNone_iff_eq_none.mpr none
  awaits _ _ h := by cases h

theorem Outcome.Advances.goesOn (store : Store) (effects : List Effect) {stage next : Stage}
    (lower : next.rank < stage.rank) (due : next.rank ≠ 0) :
    (goesOn store effects next).Advances stage where
  lower := lower
  last := ⟨fun h => absurd h due, fun h => (by cases h)⟩
  panics _ h := by cases h
  awaits _ _ h := by cases h

theorem look_advances [UriSyntax] (base : OriginUrl) (id : Nat) (store : Store)
    (req : HttpRequest) {stage : Stage} {flight : Option Flight}
    {next : Option StaleEntry → Stage} {use : FreshUse} (looks : World.Looks stage flight next use)
    (now : Instant) :
    (Cached.or id flight next (fromCache base store req use now)).Advances stage := by
  have due : 0 < stage.rank := by cases looks <;> simp [Stage.rank]
  have lower (stale : Option StaleEntry) :
      (next stale).rank < stage.rank ∧ (next stale).rank ≠ 0 := by
    cases looks <;> simp [Stage.rank]
  obtain ⟨-, spec⟩ := fromCache_spec base store req use now
  generalize fromCache base store req use now = result at spec
  obtain ⟨cached, after, spawned⟩ := result
  have awaits := spec.found.2
  have onward (stale : Option StaleEntry) (panics : Bool) : Outcome.Advances stage
      { goesOn after [] (next stale) with spawned := spawned, panics := panics } :=
    ⟨(lower stale).1, ⟨fun h => absurd h (lower stale).2, fun h => (by cases h)⟩,
      fun _ h => (by cases h), fun task request h => (awaits task request h).2⟩
  cases cached with
  | answer given =>
      obtain ⟨lower, last, panics, -⟩ := Outcome.Advances.reply id after [] flight given due
      exact ⟨lower, last, panics, fun task request h => (awaits task request h).2⟩
  | stale entry => exact onward (some entry) false
  | nothing => exact onward none false
  | panics => exact onward none true

theorem join_advances (id : Nat) (store : Store) (stale : Option StaleEntry)
    (join : Join FlightKey) : (World.afterJoin id store stale join).Advances (.joins stale) := by
  cases join <;> exact .goesOn _ _ (by simp [Stage.rank]) (by simp [Stage.rank])

theorem prepare_advances [UriSyntax] (base : OriginUrl) (id : Nat) (store : Store)
    (req : HttpRequest) (toOrigin : ToOrigin) (body : BodyStart) :
    (prepare base id store req toOrigin body).Advances (.prepares toOrigin) := by
  obtain ⟨status, h⟩ | ⟨request, revalidating, h, -⟩ :=
    prepare_cases base id store req toOrigin body
  · rw [h]
    exact .reply _ _ _ _ _ (by simp [Stage.rank])
  · rw [h]
    exact .goesOn _ _ (by simp [Stage.rank]) (by simp [Stage.rank])

theorem failed_advances (id : Nat) (store : Store) (req : HttpRequest) (exchange : Exchange)
    (status : StatusCode) (now : Instant) :
    (exchange.failed id store req status now).Advances (.exchanges exchange) := by
  obtain ⟨stale, -, -, h⟩ | ⟨status', h⟩ := exchange.failed_cases id store req status now <;>
    rw [h] <;> exact .reply _ _ _ _ _ Nat.one_pos

theorem answered_advances [HttpDate] (id : Nat) (store : Store) (req : HttpRequest)
    (exchange : Exchange) (head : Head) (now : Clock) :
    (exchange.answered id store req head now).Advances (.exchanges exchange) := by
  have answered := exchange.answered_cases id store req head now
  generalize exchange.answered id store req head now = outcome at answered
  cases answered with
  | revalidated | stale => exact .reply _ _ _ _ _ Nat.one_pos
  | forwarded =>
      refine ⟨Nat.one_pos, ⟨fun _ => rfl, fun _ => rfl⟩, ?_, fun _ _ h => (by cases h)⟩
      rintro _ ⟨⟩ none
      cases none

theorem Task.refresh_rank [HttpDate] (id : Nat) (store : Store) (task : Task) (head : Head)
    (now : Clock) : (task.refresh id store head now).2.2.rank ≤ 1 := by
  unfold Task.refresh
  split
  · exact Nat.zero_le _
  · split
    · exact Nat.le_refl _
    · exact Nat.zero_le _

/-! ## Steps of the world -/

namespace World

/-- Whose step towards an answer an event is. Neither a poll of the body nor a
disconnect is one. -/
def Event.advances : Event → Option Actor
  | .look id _ | .join id | .wake id | .timeOut id | .prepare id _ | .answered id ..
  | .failed id .. => some (.request id)
  | .refreshed id .. | .refreshFailed id | .refreshBody id .. => some (.task id)
  | _ => none

def Event.isDisconnect : Event → Bool
  | .disconnect _ => true
  | _ => false

/-- How many steps an actor, who may be still to come, takes at most. -/
def rank (σ : World) : Actor → Nat
  | .request id => (σ.requests id).elim (Actor.rank (.request id)) fun request => request.stage.rank
  | .task id => (σ.tasks id).elim (Actor.rank (.task id)) fun task => task.stage.rank

/-- The world as a step finds it: a step may read the clock and join a flight
before it comes to something. -/
structure Before (σ σ₀ : World) : Prop where
  requests : σ₀.requests = σ.requests
  tasks : σ₀.tasks = σ.tasks
  spawned : σ₀.spawned = σ.spawned
  answers : σ₀.answers = σ.answers

/-- What an event is to those who wait. -/
inductive Turn (σ : World) : Event → World → Prop
  | arrives {id req} (new : σ.requests id = none) :
    Turn σ (.arrive id req) (σ.settle id req (goesOn σ.store [] .first))
  | advances {event σ₀ id request outcome} (before : Before σ σ₀)
      (mine : event.advances = some (.request id)) (unarrived : event.isArrival = false)
      (here : σ.requests id = some request) (advances : outcome.Advances request.stage) :
    Turn σ event (σ₀.settle id request.req outcome)
  | leaves {event σ₀ id request outcome} (before : Before σ σ₀)
      (nobodys : event.advances = none) (unarrived : event.isArrival = false)
      (here : σ.requests id = some request) (spawned : outcome.spawned = none)
      (answer : outcome.answer = none) (left : outcome.stage.rank = 0)
      (why : request.stage.rank = 0 ∨ event = .disconnect id) :
    Turn σ event (σ₀.settle id request.req outcome)
  | refreshes {event σ₀ id task outcome} (before : Before σ σ₀)
      (mine : event.advances = some (.task id)) (unarrived : event.isArrival = false)
      (here : σ.tasks id = some task) (lower : outcome.2.2.rank < task.stage.rank) :
    Turn σ event (σ₀.settleTask id task outcome)
  | apart {event σ'} (before : Before σ σ') (nobodys : event.advances = none)
      (unarrived : event.isArrival = false) : Turn σ event σ'

section

variable [HttpDate] [UriSyntax] {base : OriginUrl}

theorem Happens.turn {σ σ' : World} {event : Event} (happens : Happens base σ event σ') :
    Turn σ event σ' := by
  have before {σ₀ : World} (requests : σ₀.requests = σ.requests) (tasks : σ₀.tasks = σ.tasks)
      (spawned : σ₀.spawned = σ.spawned) (answers : σ₀.answers = σ.answers) : Before σ σ₀ :=
    ⟨requests, tasks, spawned, answers⟩
  cases happens with
  | arrive new => exact .arrives new
  | look later here looks =>
      exact .advances (before (by rfl) (by rfl) (by rfl) (by rfl)) rfl rfl here
        (look_advances base _ _ _ looks _)
  | join here stage =>
      refine .advances (before (by rfl) (by rfl) (by rfl) (by rfl)) rfl rfl here ?_
      rw [stage]
      exact join_advances ..
  | wake here stage | timeOut here stage =>
      refine .advances (before rfl rfl rfl rfl) rfl rfl here ?_
      rw [stage]
      exact .goesOn _ _ (Nat.lt_succ_self 3) (Nat.succ_ne_zero 2)
  | prepare here stage =>
      refine .advances (before rfl rfl rfl rfl) rfl rfl here ?_
      rw [stage]
      exact prepare_advances ..
  | answered later here stage =>
      refine .advances (before (by rfl) (by rfl) (by rfl) (by rfl)) rfl rfl here ?_
      rw [stage]
      exact answered_advances ..
  | failed later here stage =>
      refine .advances (before (by rfl) (by rfl) (by rfl) (by rfl)) rfl rfl here ?_
      rw [stage]
      exact failed_advances ..
  | body later here stage =>
      exact .leaves (before (by rfl) (by rfl) (by rfl) (by rfl)) rfl rfl here rfl rfl rfl
        (.inl (stage ▸ rfl))
  | disconnect here hangs =>
      obtain ⟨-, stage, spawned, answer⟩ := hangUp_gone hangs
      exact .leaves (before rfl rfl rfl rfl) rfl rfl here spawned answer (stage ▸ rfl) (.inr rfl)
  | refreshed later here stage =>
      refine .refreshes (before (by rfl) (by rfl) (by rfl) (by rfl)) rfl rfl here ?_
      rw [stage]
      exact Nat.lt_succ_of_le (Task.refresh_rank ..)
  | refreshFailed here stage =>
      refine .refreshes (before rfl rfl rfl rfl) rfl rfl here ?_
      rw [stage]
      exact Nat.two_pos
  | refreshBody later here stage =>
      refine .refreshes (before (by rfl) (by rfl) (by rfl) (by rfl)) rfl rfl here ?_
      rw [stage]
      exact Nat.one_pos
  | insertAsset | evictIndex | evictEntry => exact .apart (before rfl rfl rfl rfl) rfl rfl

end

/-! ## How often an actor moves -/

theorem rank_request {σ : World} {id : Nat} {request : Request}
    (here : σ.requests id = some request) : σ.rank (.request id) = request.stage.rank := by
  simp [rank, here]

theorem rank_task {σ : World} {id : Nat} {task : Task} (here : σ.tasks id = some task) :
    σ.rank (.task id) = task.stage.rank := by
  simp [rank, here]

/-- A step of a request changes nobody else's rank. -/
theorem settle_rank {σ σ₀ : World} (unspawned : Unspawned σ) (before : Before σ σ₀) {id : Nat}
    (req : HttpRequest) {outcome : Outcome}
    (awaits : ∀ task request, outcome.spawned = some (task, request) → task.stage = .awaits)
    (actor : Actor) : (σ₀.settle id req outcome).rank actor =
      if actor = .request id then outcome.stage.rank else σ.rank actor := by
  cases actor with
  | request other =>
      by_cases same : other = id
      · subst same
        simp [rank, World.settle]
      · simp [rank, World.settle, same, before.requests]
  | task other =>
      simp only [reduceCtorEq, if_false, rank, World.settle]
      cases spawned : outcome.spawned with
      | none => simp [before.tasks]
      | some pair =>
          by_cases new : other = σ.spawned
          · subst new
            simp [before.spawned, unspawned _ (Nat.le_refl _), awaits _ _ spawned, Actor.rank]
          · simp [before.spawned, Function.update_of_ne new, before.tasks]

theorem settleTask_rank {σ σ₀ : World} (before : Before σ σ₀) (id : Nat) (task : Task)
    (outcome : Store × List Effect × TaskStage) (actor : Actor) :
    (σ₀.settleTask id task outcome).rank actor =
      if actor = .task id then outcome.2.2.rank else σ.rank actor := by
  cases actor with
  | request other => simp [rank, World.settleTask, before.requests]
  | task other =>
      by_cases same : other = id
      · subst same
        simp [rank, World.settleTask]
      · simp [rank, World.settleTask, same, before.tasks]

/-- A step towards an answer leaves fewer of them, and no other event adds one. -/
theorem Turn.rank_le {σ σ' : World} {event : Event} (turn : Turn σ event σ')
    (unspawned : Unspawned σ) (actor : Actor) :
    σ'.rank actor + (if event.advances = some actor then 1 else 0) ≤ σ.rank actor := by
  cases turn with
  | @arrives id req new =>
      show _ ≤ σ.rank actor
      rw [settle_rank unspawned ⟨rfl, rfl, rfl, rfl⟩ req fun _ _ h => (by cases h)]
      split
      case isTrue mine => simp [mine, rank, new, Actor.rank, goesOn, Event.advances]
      case isFalse => exact Nat.le_refl _
  | @advances _ _ id request outcome before mine _ here advances =>
      rw [settle_rank unspawned before request.req advances.awaits, mine]
      by_cases same : actor = .request id
      · rw [if_pos same, if_pos (congrArg some same.symm), same, rank_request here]
        exact advances.lower
      · rw [if_neg same, if_neg fun h => same (Option.some.inj h).symm]
        exact Nat.le_refl _
  | @leaves _ _ id request outcome before nobodys _ here spawned _ left _ =>
      have none : ∀ task sent, outcome.spawned = some (task, sent) → task.stage = .awaits := by
        intro task sent h
        rw [spawned] at h
        cases h
      rw [settle_rank unspawned before request.req none, nobodys, left]
      split
      case isTrue => exact Nat.zero_le _
      case isFalse => exact Nat.le_refl _
  | @refreshes _ _ id task outcome before mine _ here lower =>
      rw [settleTask_rank before, mine]
      by_cases same : actor = .task id
      · rw [if_pos same, if_pos (congrArg some same.symm), same, rank_task here]
        exact lower
      · rw [if_neg same, if_neg fun h => same (Option.some.inj h).symm]
        exact Nat.le_refl _
  | apart before nobodys _ =>
      rw [nobodys]
      cases actor <;> simp [rank, before.requests, before.tasks]

/-! ## Every request is accounted for -/

/-- The answers that a request has got. -/
def answersTo (σ : World) (id : Nat) : List Given := σ.answers.filter fun given => given.id = id

/-- What has become of the request with a number. -/
inductive Fate (events : List Event) (σ : World) (id : Nat) : Prop
  | toCome (new : σ.requests id = none) (unheard : ∀ req, .arrive id req ∉ events)
      (answers : σ.answersTo id = [])
  | waits {request} (here : σ.requests id = some request)
      (arrived : .arrive id request.req ∈ events) (due : 0 < request.stage.rank)
      (answers : σ.answersTo id = [])
  | answered {request given} (here : σ.requests id = some request)
      (arrived : .arrive id request.req ∈ events) (settled : request.stage.rank = 0)
      (answers : σ.answersTo id = [given]) (same : given.req = request.req)
  /-- the client has gone away before -/
  | left {request} (here : σ.requests id = some request)
      (arrived : .arrive id request.req ∈ events) (settled : request.stage.rank = 0)
      (answers : σ.answersTo id = []) (gone : .disconnect id ∈ events)

/-- A step that leaves a request alone leaves it its fate. -/
theorem Fate.keep {events : List Event} {σ σ' : World} {id : Nat} (fate : Fate events σ id)
    (event : Event) (elsewhere : ∀ req, event ≠ .arrive id req)
    (requests : σ'.requests id = σ.requests id) (answers : σ'.answersTo id = σ.answersTo id) :
    Fate (events ++ [event]) σ' id := by
  have later {earlier : Event} (h : earlier ∈ events) : earlier ∈ events ++ [event] :=
    List.mem_append_left _ h
  cases fate with
  | toCome new unheard silent =>
      refine .toCome (requests.trans new) (fun req h => ?_) (answers.trans silent)
      obtain before | now := List.mem_append.mp h
      · exact unheard req before
      · exact elsewhere req (List.mem_singleton.mp now).symm
  | waits here arrived due silent =>
      exact .waits (requests.trans here) (later arrived) due (answers.trans silent)
  | answered here arrived settled one same =>
      exact .answered (requests.trans here) (later arrived) settled (answers.trans one) same
  | left here arrived settled silent gone =>
      exact .left (requests.trans here) (later arrived) settled (answers.trans silent) (later gone)

/-- Who still has a step to take has had no answer. -/
theorem Fate.of_due {events : List Event} {σ : World} {id : Nat} (fate : Fate events σ id)
    {request : Request} (here : σ.requests id = some request) (due : 0 < request.stage.rank) :
    .arrive id request.req ∈ events ∧ σ.answersTo id = [] := by
  have same {other : Request} (there : σ.requests id = some other) : other = request :=
    Option.some.inj (there.symm.trans here)
  cases fate with
  | toCome new =>
      rw [new] at here
      cases here
  | waits there arrived _ silent =>
      obtain rfl := same there
      exact ⟨arrived, silent⟩
  | answered there _ settled | left there _ settled =>
      obtain rfl := same there
      exact absurd settled (Nat.ne_of_gt due)

/-- Unless the process is gone. -/
def Accounted (events : List Event) (σ : World) : Prop :=
  σ.aborted = false → ∀ id, Fate events σ id

theorem Accounted.start (sizeMb : UInt64) (ttl : Duration) : Accounted [] (start sizeMb ttl) :=
  fun _ _ => .toCome rfl (fun _ h => by cases h) rfl

theorem settle_answers {σ σ₀ : World} (before : Before σ σ₀) {id : Nat} {req : HttpRequest}
    {outcome : Outcome} (none : outcome.answer = none) :
    (σ₀.settle id req outcome).answers = σ.answers := by
  simp [World.settle, none, before.answers]

/-- With the last step the answer is given. -/
theorem settle_answered {σ σ₀ : World} (before : Before σ σ₀) {id : Nat} {request : Request}
    {outcome : Outcome} (advances : outcome.Advances request.stage)
    (last : outcome.stage.rank = 0)
    (running : (σ₀.settle id request.req outcome).aborted = false) :
    ∃ given, given.id = id ∧ given.req = request.req ∧
      (σ₀.settle id request.req outcome).answers = σ.answers ++ [given] := by
  obtain ⟨answer, given⟩ := Option.isSome_iff_exists.mp (advances.last.mp last)
  cases response : answer.response with
  | none =>
      have panics : outcome.panics = true := advances.panics answer given response
      rw [show outcome.panics = false from running] at panics
      cases panics
  | some response' =>
      refine ⟨⟨id, request.req, σ₀.clock, answer.cause, response'⟩, rfl, rfl, ?_⟩
      simp [World.settle, given, response, before.answers]

/-- A step of a request is no answer to another one. -/
theorem answersTo_settle {σ σ₀ : World} (before : Before σ σ₀) {id other : Nat}
    (differ : other ≠ id) (req : HttpRequest) (outcome : Outcome) :
    (σ₀.settle id req outcome).answersTo other = σ.answersTo other := by
  have none_new : ((outcome.answer.bind fun answer => answer.response.map fun response =>
      (⟨id, req, σ₀.clock, answer.cause, response⟩ : Given)).toList.filter fun given =>
        given.id = other) = [] := by
    refine List.filter_eq_nil_iff.mpr fun given h => ?_
    obtain ⟨answer, -, h⟩ := Option.bind_eq_some_iff.mp (Option.mem_toList.mp h)
    obtain ⟨response, -, rfl⟩ := Option.map_eq_some_iff.mp h
    simpa using differ.symm
  simp only [answersTo, World.settle, before.answers, List.filter_append, none_new, List.append_nil]

theorem answersTo_congr {σ σ' : World} (answers : σ'.answers = σ.answers) (id : Nat) :
    σ'.answersTo id = σ.answersTo id := by
  rw [answersTo, answers, answersTo]

/-- A request that arrives waits. -/
theorem Fate.arrives {events : List Event} {σ : World} {id : Nat} (fate : Fate events σ id)
    (new : σ.requests id = none) (req : HttpRequest) :
    Fate (events ++ [.arrive id req]) (σ.settle id req (goesOn σ.store [] .first)) id := by
  have here : Before σ σ := ⟨rfl, rfl, rfl, rfl⟩
  have silent : σ.answersTo id = [] := by
    cases fate with
    | toCome _ _ silent => exact silent
    | waits there | answered there | left there =>
        rw [new] at there
        cases there
  refine .waits (Function.update_self ..) ?_ (Nat.succ_pos 5) ?_
  · exact List.mem_append_right _ (List.mem_singleton_self _)
  · exact (answersTo_congr (settle_answers here rfl) id).trans silent

/-- A request that goes on waits still, or is answered. -/
theorem Fate.advances {events : List Event} {σ σ₀ : World} {id : Nat} (fate : Fate events σ id)
    (event : Event) (before : Before σ σ₀) {request : Request} {outcome : Outcome}
    (here : σ.requests id = some request) (advances : outcome.Advances request.stage)
    (alive : (σ₀.settle id request.req outcome).aborted = false) :
    Fate (events ++ [event]) (σ₀.settle id request.req outcome) id := by
  obtain ⟨arrived, silent⟩ := fate.of_due here (Nat.zero_lt_of_lt advances.lower)
  have stands : (σ₀.settle id request.req outcome).requests id =
      some ⟨request.req, outcome.stage⟩ := Function.update_self ..
  by_cases last : outcome.stage.rank = 0
  · obtain ⟨given, mine, req, answers⟩ := settle_answered before advances last alive
    refine .answered stands (List.mem_append_left _ arrived) last ?_ req
    have one : (σ₀.settle id request.req outcome).answersTo id = σ.answersTo id ++ [given] := by
      simp only [answersTo, answers, List.filter_append, List.filter_cons, mine, decide_true,
        if_true, List.filter_nil]
    rw [one, silent, List.nil_append]
  · have none : outcome.answer = none := by
      simpa using mt advances.last.mpr last
    exact .waits stands (List.mem_append_left _ arrived) (Nat.pos_of_ne_zero last)
      ((answersTo_congr (settle_answers before none) id).trans silent)

/-- A request that is over without an answer in this step had one, or its client
is gone. -/
theorem Fate.leaves {events : List Event} {σ σ₀ : World} {id : Nat} {event : Event}
    (fate : Fate events σ id) (before : Before σ σ₀) {request : Request} {outcome : Outcome}
    (here : σ.requests id = some request) (none : outcome.answer = none)
    (ended : outcome.stage.rank = 0) (why : request.stage.rank = 0 ∨ event = .disconnect id) :
    Fate (events ++ [event]) (σ₀.settle id request.req outcome) id := by
  have still : (σ₀.settle id request.req outcome).answersTo id = σ.answersTo id :=
    answersTo_congr (settle_answers before none) id
  have stands : (σ₀.settle id request.req outcome).requests id =
      some ⟨request.req, outcome.stage⟩ := Function.update_self ..
  have same {other : Request} (there : σ.requests id = some other) : other = request :=
    Option.some.inj (there.symm.trans here)
  have later {earlier : Event} (h : earlier ∈ events) : earlier ∈ events ++ [event] :=
    List.mem_append_left _ h
  cases fate with
  | toCome new =>
      rw [new] at here
      cases here
  | waits there arrived due silent =>
      obtain rfl := same there
      have hungUp : event = .disconnect id := why.resolve_left (Nat.ne_of_gt due)
      exact .left stands (later arrived) ended (still.trans silent)
        (List.mem_append_right _ (List.mem_singleton.mpr hungUp.symm))
  | answered there arrived _ one asked =>
      obtain rfl := same there
      exact .answered stands (later arrived) ended (still.trans one) asked
  | left there arrived _ silent gone =>
      obtain rfl := same there
      exact .left stands (later arrived) ended (still.trans silent) (later gone)

theorem Accounted.step {events : List Event} {σ σ' : World} {event : Event}
    (accounted : Accounted events σ) (running : σ.aborted = false) (turn : Turn σ event σ') :
    Accounted (events ++ [event]) σ' := by
  intro alive other
  have fate := accounted running other
  have apart (unarrived : event.isArrival = false) (req : HttpRequest) :
      event ≠ .arrive other req := by
    rintro rfl
    cases unarrived
  cases turn with
  | @arrives id req new =>
      by_cases same : other = id
      · subst same
        exact fate.arrives new req
      · have here : Before σ σ := ⟨rfl, rfl, rfl, rfl⟩
        refine fate.keep _ (fun _ h => same ?_) (Function.update_of_ne same ..)
          (answersTo_settle here same req _)
        cases h
        rfl
  | @advances _ σ₀ id request outcome before _ unarrived here advances =>
      by_cases same : other = id
      · subst same
        exact fate.advances event before here advances alive
      · exact fate.keep _ (apart unarrived)
          ((Function.update_of_ne same ..).trans (congrFun before.requests other))
          (answersTo_settle before same request.req outcome)
  | @leaves _ σ₀ id request outcome before _ unarrived here _ none ended why =>
      by_cases same : other = id
      · subst same
        exact fate.leaves before here none ended why
      · exact fate.keep _ (apart unarrived)
          ((Function.update_of_ne same ..).trans (congrFun before.requests other))
          (answersTo_settle before same request.req outcome)
  | @refreshes _ σ₀ id task outcome before _ unarrived _ _ =>
      exact fate.keep _ (apart unarrived) (congrFun before.requests other)
        (answersTo_congr before.answers other)
  | apart before _ unarrived =>
      exact fate.keep _ (apart unarrived) (congrFun before.requests other)
        (answersTo_congr before.answers other)

/-! ## Alone -/

theorem proceed_some {σ : World} {id : Nat} {request : Request}
    {outcome : Store → HttpRequest → Stage → Option Outcome} {result : Outcome}
    (here : σ.requests id = some request)
    (comes : outcome σ.store request.req request.stage = some result) :
    σ.proceed id outcome = some (σ.settle id request.req result) := by
  simp [proceed, here, comes]

theorem proceedTask_some {σ : World} {id : Nat} {task : Task}
    {outcome : Store → Task → Option (Store × List Effect × TaskStage)}
    {result : Store × List Effect × TaskStage} (here : σ.tasks id = some task)
    (comes : outcome σ.store task = some result) :
    σ.proceedTask id outcome = some (σ.settleTask id task result) := by
  simp [proceedTask, here, comes]

/-- A clock that stands still can be read. -/
theorem reading_some (σ : World) (system : SystemTime) :
    σ.reading ⟨σ.clock, system⟩ = some (σ.tick σ.clock) :=
  if_pos (Nat.le_refl _)

section

variable [HttpDate] [UriSyntax] (base : OriginUrl)

/-- Who waits can take the next step, whatever the others do. -/
theorem exists_advance {σ : World} (running : σ.aborted = false) {id : Nat} {request : Request}
    (here : σ.requests id = some request) (waits : 0 < request.stage.rank) :
    ∃ event σ₀ outcome, event.advances = some (.request id) ∧ Before σ σ₀ ∧
      outcome.Advances request.stage ∧
      step base σ event = some (σ₀.settle id request.req outcome) := by
  have now : Before σ σ := ⟨rfl, rfl, rfl, rfl⟩
  have ticked : Before σ (σ.tick σ.clock) := ⟨rfl, rfl, rfl, rfl⟩
  have reads := σ.reading_some exampleClock.system
  have looks {flight next use} (looks : Looks request.stage flight next use) :
      ∃ event σ₀ outcome, event.advances = some (.request id) ∧ Before σ σ₀ ∧
        outcome.Advances request.stage ∧
        step base σ event = some (σ₀.settle id request.req outcome) := by
    refine ⟨.look id ⟨σ.clock, exampleClock.system⟩, _, _, rfl, ticked,
      look_advances base id (σ.tick σ.clock).store request.req looks σ.clock, ?_⟩
    simp only [step, running, reads, Bool.false_eq_true, if_false, Option.bind_eq_bind,
      Option.bind_some]
    refine proceed_some here ?_
    generalize request.stage = stage at looks
    cases looks <;> rfl
  cases stage : request.stage with
  | first =>
      rw [stage] at looks
      exact looks .first
  | again flight use =>
      rw [stage] at looks
      exact looks .again
  | joins stale =>
      refine ⟨.join id, { σ with flights := (joinFlight σ.store σ.flights request.req).2 }, _, rfl,
        ⟨rfl, rfl, rfl, rfl⟩, join_advances id σ.store stale
          (joinFlight σ.store σ.flights request.req).1, ?_⟩
      simp [step, running, here, stage]
  | follows channel =>
      refine ⟨.timeOut id, σ, goesOn σ.store [] (.again none .coalesced), rfl, now,
        .goesOn _ _ (Nat.lt_succ_self 3) (Nat.succ_ne_zero 2), ?_⟩
      simp only [step, running, Bool.false_eq_true, if_false]
      refine proceed_some here ?_
      rw [stage]
  | prepares toOrigin =>
      refine ⟨.prepare id .ready, σ, _, rfl, now,
        prepare_advances base id σ.store request.req toOrigin .ready, ?_⟩
      simp only [step, running, Bool.false_eq_true, if_false]
      refine proceed_some here ?_
      rw [stage]
  | exchanges exchange =>
      refine ⟨.failed id true ⟨σ.clock, exampleClock.system⟩, σ.tick σ.clock, _, rfl, ticked,
        failed_advances id (σ.tick σ.clock).store request.req exchange .gatewayTimeout σ.clock, ?_⟩
      simp only [step, running, reads, Bool.false_eq_true, if_false, Option.bind_eq_bind,
        Option.bind_some]
      refine proceed_some here ?_
      rw [stage]
      rfl
  | streams | done =>
      rw [stage] at waits
      cases waits

/-- So can a task, which ends with it. -/
theorem exists_refresh {σ : World} (running : σ.aborted = false) {id : Nat} {task : Task}
    (here : σ.tasks id = some task) (waits : 0 < task.stage.rank) :
    ∃ event σ', event.advances = some (.task id) ∧ step base σ event = some σ' ∧
      ∃ ended, σ'.tasks id = some ended ∧ ended.stage = .ended := by
  have reads := σ.reading_some exampleClock.system
  have ends (σ₀ : World) (outcome : Store × List Effect × TaskStage) (last : outcome.2.2 = .ended) :
      ∃ ended, (σ₀.settleTask id task outcome).tasks id = some ended ∧ ended.stage = .ended :=
    ⟨_, Function.update_self .., last⟩
  cases stage : task.stage with
  | awaits =>
      have taken : step base σ (.refreshFailed id) =
          some (σ.settleTask id task (σ.store, [], .ended)) := by
        simp only [step, running, Bool.false_eq_true, if_false]
        refine proceedTask_some here ?_
        rw [stage]
      exact ⟨_, _, rfl, taken, ends _ _ rfl⟩
  | collects storing head =>
      let now : Clock := ⟨σ.clock, exampleClock.system⟩
      have taken : step base σ (.refreshBody id none now) =
          some ((σ.tick σ.clock).settleTask id task
            ((Task.collected id (σ.tick σ.clock).store storing head none now).1,
              (Task.collected id (σ.tick σ.clock).store storing head none now).2, .ended)) := by
        simp only [step, running, reads, Bool.false_eq_true, if_false, Option.bind_eq_bind,
          Option.bind_some, now]
        refine proceedTask_some here ?_
        rw [stage]
      exact ⟨_, _, rfl, taken, ends _ _ rfl⟩
  | ended =>
      rw [stage] at waits
      cases waits

/-- A request that takes its own steps only comes to its answer, unless a panic
ends the process. -/
theorem exists_answer {σ : World} (running : σ.aborted = false) {id : Nat} {request : Request}
    (here : σ.requests id = some request) (waits : 0 < request.stage.rank) :
    ∃ rest σ', rest.length ≤ request.stage.rank ∧
      (∀ event ∈ rest, event.advances = some (.request id)) ∧
      Runs.run (step base) σ rest = some σ' ∧ (σ'.aborted = true ∨
        ∃ given, given.id = id ∧ given.req = request.req ∧ σ'.answers = σ.answers ++ [given]) := by
  rw [← rank_request here]
  refine Runs.exists_run_of_progress (rank · (.request id))
    (fun σ' => σ'.aborted = false ∧ σ'.answers = σ.answers ∧
      ∃ other, σ'.requests id = some other ∧ other.req = request.req ∧ 0 < other.stage.rank)
    (fun σ' => σ'.aborted = true ∨
      ∃ given, given.id = id ∧ given.req = request.req ∧ σ'.answers = σ.answers ++ [given])
    ?_ ⟨running, rfl, request, here, rfl, waits⟩
  rintro σ₁ ⟨running, answers, other, here, same, waits⟩
  obtain ⟨event, σ₀, outcome, mine, before, advances, taken⟩ :=
    exists_advance base running here waits
  have stands : (σ₀.settle id other.req outcome).requests id = some ⟨other.req, outcome.stage⟩ :=
    Function.update_self ..
  refine .inr ⟨event, _, mine, taken, ?_, ?_⟩
  · rw [rank_request stands, rank_request here]
    exact advances.lower
  · rw [← same, ← answers]
    cases panics : (σ₀.settle id other.req outcome).aborted with
    | true => exact .inl (.inl rfl)
    | false =>
        by_cases last : outcome.stage.rank = 0
        · exact .inl (.inr (settle_answered before advances last panics))
        · have none : outcome.answer = none := by
            simpa using mt advances.last.mpr last
          exact .inr ⟨rfl, settle_answers before none, _, stands, rfl, Nat.pos_of_ne_zero last⟩

end

/-! ## Whole runs -/

section

variable [HttpDate] [UriSyntax] {base : OriginUrl}

/-- In every run that has not ended in a panic, each request that has arrived
has one answer, which is to it, or waits and has none, or has none because its
client has gone away. -/
theorem requests_balance {sizeMb : UInt64} {ttl : Duration} {events : List Event} {σ : World}
    (hrun : Runs.run (step base) (start sizeMb ttl) events = some σ)
    (running : σ.aborted = false) (id : Nat) : Fate events σ id :=
  Runs.invariant_history (I := Accounted) (.start sizeMb ttl)
    (fun _ _ _ _ _ accounted h =>
      accounted.step (happens_of_step h).1 (happens_of_step h).2.turn) hrun running id

end

/-- Two clients are answered, a third goes away, and a fourth has just come. -/
def fourClients : List Event :=
  hitEvents ++ [.arrive 2 (germanRequest []), .disconnect 2, .arrive 3 (germanRequest [])]

theorem requests_balance_example : ∃ (_ : HttpDate) (_ : UriSyntax) (σ : World),
    Runs.run (step exampleOrigin) (start 1 (Duration.fromSecs 300)) fourClients = some σ ∧
      [0, 1, 2, 3].map (fun id => (σ.answersTo id).length) = [1, 1, 0, 0] ∧
      ∀ id, Fate fourClients σ id := by
  let dates : HttpDate := ⟨fun _ => none⟩
  let uris : UriSyntax := ⟨fun _ => true, fun _ => true⟩
  have evaluated : ((Runs.run (step exampleOrigin) (start 1 (Duration.fromSecs 300))
      fourClients).map fun σ => !σ.aborted &&
        [0, 1, 2, 3].map (fun id => (σ.answersTo id).length) == [1, 1, 0, 0]) = some true := by
    decide +kernel
  obtain ⟨σ, hrun, evaluated⟩ := Option.map_eq_some_iff.mp evaluated
  simp only [Bool.and_eq_true, Bool.not_eq_true', beq_iff_eq] at evaluated
  exact ⟨dates, uris, σ, hrun, evaluated.2, requests_balance hrun evaluated.1⟩

section

variable [HttpDate] [UriSyntax] {base : OriginUrl}

/-- In every run a request takes six steps at most and a task two. While the
process runs, there is a continuation of its own steps only by which a request
that waits comes to its answer, and one by which a task ends. What it needs of
the world around is no more than the clocks of the source: a follower stops
waiting by its timeout (`timeOut`), the body that the request brings along is
ready, and an exchange that the origin leaves open ends by the timeout for the
response headers (`failed`). -/
theorem nobody_waits {sizeMb : UInt64} {ttl : Duration} {events : List Event} {σ : World}
    (hrun : Runs.run (step base) (start sizeMb ttl) events = some σ) :
    (∀ actor : Actor, events.countP (fun event => event.advances = some actor) ≤ actor.rank) ∧
    (σ.aborted = false →
      (∀ id request, σ.requests id = some request → 0 < request.stage.rank →
        ∃ rest σ', rest.length ≤ request.stage.rank ∧
          (∀ event ∈ rest, event.advances = some (.request id)) ∧
          Runs.run (step base) σ rest = some σ' ∧ (σ'.aborted = true ∨
            ∃ given, given.id = id ∧ given.req = request.req ∧ σ'.answers = σ.answers ++ [given])) ∧
      ∀ id task, σ.tasks id = some task → 0 < task.stage.rank →
        ∃ event σ', event.advances = some (.task id) ∧ step base σ event = some σ' ∧
          ∃ ended, σ'.tasks id = some ended ∧ ended.stage = .ended) := by
  refine ⟨fun actor => ?_, fun running => ⟨fun id request here waits =>
    exists_answer base running here waits, fun id task here waits =>
    exists_refresh base running here waits⟩⟩
  have few := Runs.run_count_le Unspawned (rank · actor)
    (fun event => event.advances = some actor)
    (fun _ _ _ unspawned h => unspawned.step (happens_of_step h).2)
    (fun _ _ _ unspawned h => by
      simpa using (happens_of_step h).2.turn.rank_le unspawned actor)
    (.start sizeMb ttl) hrun
  have all : (World.start sizeMb ttl).rank actor = actor.rank := by
    cases actor <;> rfl
  rw [← all]
  exact Nat.le_of_add_right_le few

end

/-- A second request comes for what the first one is about to fetch. -/
def followerEvents : List Event :=
  [.arrive 0 (germanRequest []), .look 0 exampleClock, .join 0, .arrive 1 (germanRequest []),
    .look 1 exampleClock, .join 1]

theorem nobody_waits_example : ∃ (_ : HttpDate) (_ : UriSyntax) (σ : World) (request : Request),
    Runs.run (step exampleOrigin) (start 1 (Duration.fromSecs 300)) followerEvents = some σ ∧
      σ.requests 1 = some request ∧ request.stage.rank = 4 ∧
      ∃ rest σ', rest.length ≤ 4 ∧ (∀ event ∈ rest, event.advances = some (.request 1)) ∧
        Runs.run (step exampleOrigin) σ rest = some σ' ∧ (σ'.aborted = true ∨
          ∃ given, given.id = 1 ∧ given.req = request.req ∧ σ'.answers = σ.answers ++ [given]) := by
  let dates : HttpDate := ⟨fun _ => none⟩
  let uris : UriSyntax := ⟨fun _ => true, fun _ => true⟩
  have evaluated : ((Runs.run (step exampleOrigin) (start 1 (Duration.fromSecs 300))
      followerEvents).map fun σ => !σ.aborted && (σ.requests 1).any fun request =>
        request.stage.rank == 4) = some true := by
    decide +kernel
  obtain ⟨σ, hrun, evaluated⟩ := Option.map_eq_some_iff.mp evaluated
  simp only [Bool.and_eq_true, Bool.not_eq_true', Option.any_eq_true, beq_iff_eq] at evaluated
  obtain ⟨running, request, here, four⟩ := evaluated
  have answered := ((nobody_waits hrun).2 running).1 1 request here (four ▸ Nat.succ_pos 3)
  rw [four] at answered
  exact ⟨dates, uris, σ, request, hrun, here, four, answered⟩

end World

end Shadowstep
