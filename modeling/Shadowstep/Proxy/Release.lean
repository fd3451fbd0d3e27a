import Shadowstep.Proxy.Events
import Shadowstep.Proxy.Kept

/-!
# When a flight ends

The guard of a flight moves from `ToOrigin` to the `Exchange`, from there
into the callback of a `Storing`, and with it into the `Tee`. Each of these
owners drops it on the way to whatever it does last: `Handles` says of every
step that it keeps the guard or drops it as its last effect.

* `Moves.handles` — one step;
* `World.flight_ends_once` — the requests of every run.
-/

namespace Shadowstep

open Rust

/-! ## Effects -/

/-- Whether request `id` has the effect. -/
def Effect.own (id : Nat) : Effect → Bool
  | .led other _ | .dropped other _ => other = id
  | .sent actor _ | .invalidated actor _ | .wrote actor _ _ => actor = .request id

/-- Whether the effect begins or ends a flight. -/
def Effect.onFlight : Effect → Bool
  | .led .. | .dropped .. => true
  | _ => false

/-- Effects of request `id` that leave flights alone. -/
def Quiet (id : Nat) (effects : List Effect) : Prop :=
  ∀ effect ∈ effects, effect.own id = true ∧ effect.onFlight = false

theorem Quiet.nil (id : Nat) : Quiet id [] := fun _ h => by cases h

theorem Quiet.append {id : Nat} {first second : List Effect} (quiet : Quiet id first)
    (quiet' : Quiet id second) : Quiet id (first ++ second) := by
  intro effect h
  obtain h | h := List.mem_append.mp h
  · exact quiet effect h
  · exact quiet' effect h

theorem quiet_singleton {id : Nat} {effect : Effect} (own : effect.own id = true)
    (still : effect.onFlight = false) : Quiet id [effect] := by
  intro other h
  obtain rfl := List.mem_singleton.mp h
  exact ⟨own, still⟩

theorem Quiet.filter_onFlight {id : Nat} {effects : List Effect} (quiet : Quiet id effects) :
    effects.filter Effect.onFlight = [] :=
  List.filter_eq_nil_iff.mpr fun effect h => by simp [(quiet effect h).2]

/-! ## Stages -/

/-- The guard that a request holds. In the stream of a body it is a part of
the copy that is to be stored. -/
def Stage.guard : Stage → Option Flight
  | .again flight _ => flight
  | .prepares toOrigin => toOrigin.flight
  | .exchanges exchange => exchange.flight
  | .streams tee => tee.copy.bind fun copy => copy.storing.flight
  | _ => none

/-- The exchange is over, and its response is stored or will not be. -/
def Stage.Ended : Stage → Prop
  | .streams tee => tee.copy = none
  | .done => True
  | _ => False

theorem Stage.Ended.guard {stage : Stage} (ended : stage.Ended) : stage.guard = none := by
  cases stage <;> simp_all [Ended, Stage.guard]

/-- What the inner stream yields ends the copying: its end, a failure, more than
the limit, or as much as the length says. -/
def Tee.Over (tee : Tee) : Item → Prop
  | .ended | .failed => True
  | .chunk chunk => ∀ copy, tee.copy = some copy →
    copy.storing.limit < copy.buffer.length + chunk.length ∨
      tee.length = some (copy.buffer.length + chunk.length)

theorem Tee.finish_copy [HttpDate] (tee : Tee) (id : Nat) (store : Store) (now : Clock) :
    (tee.finish id store now).2.2.copy = none := by
  unfold Tee.finish
  split
  case h_1 none => exact none
  case h_2 => split <;> rfl

theorem Tee.poll_over [HttpDate] (tee : Tee) {item : Item} (id : Nat) (store : Store) (now : Clock)
    (ends : tee.Over item) : (tee.poll id store item now).2.2.copy = none := by
  cases item with
  | failed => rfl
  | ended => exact tee.finish_copy id store now
  | chunk chunk =>
      simp only [Tee.poll]
      split
      case h_1 none => exact none
      case h_2 copy here =>
        split
        case isTrue => rfl
        case isFalse fits =>
          obtain long | whole := ends copy here
          · exact absurd long fits
          · rw [if_pos (by simpa using whole)]
            exact Tee.finish_copy _ id store now

/-- What a step does with the guard that the request has held. -/
inductive Handles (id : Nat) (guard : Option Flight) : List Effect → Stage → Prop
  | keeps {effects stage} (quiet : Quiet id effects) (same : stage.guard = guard) :
    Handles id guard effects stage
  | drops {flight before stage} (held : guard = some flight) (quiet : Quiet id before)
      (ended : stage.Ended) :
    Handles id guard (before ++ [.dropped id flight]) stage

/-- A guard that goes out of scope at the end. -/
theorem handles_released {id : Nat} {guard : Option Flight} {before : List Effect} {stage : Stage}
    (quiet : Quiet id before) (ended : stage.Ended) :
    Handles id guard (before ++ released id guard) stage := by
  cases guard with
  | none =>
      refine .keeps ?_ ended.guard
      rw [released, List.append_nil]
      exact quiet
  | some flight => exact .drops rfl quiet ended

theorem Handles.prepend {id : Nat} {guard : Option Flight} {first effects : List Effect}
    {stage : Stage} (quiet : Quiet id first) (handles : Handles id guard effects stage) :
    Handles id guard (first ++ effects) stage := by
  cases handles with
  | keeps rest same => exact .keeps (quiet.append rest) same
  | drops held rest ended =>
      rw [← List.append_assoc]
      exact .drops held (quiet.append rest) ended

theorem handles_reply {id : Nat} {store : Store} {effects : List Effect} {flight : Option Flight}
    {answer : Answer} (quiet : Quiet id effects) :
    Handles id flight (reply id store effects flight answer).effects
      (reply id store effects flight answer).stage :=
  handles_released quiet trivial

/-! ## Storing and streaming -/

theorem finish_quiet {id : Nat} {storing : Storing} {store : Store} {status : StatusCode}
    {headers : Fields} {body : Bytes} {now : Clock} :
    Quiet id (storing.finish (.request id) store status headers body now).2 :=
  quiet_singleton (by simp [Effect.own]) rfl

theorem Tee.finish_handles (id : Nat) (store : Store) (tee : Tee) (now : Clock) :
    Handles id (Stage.streams tee).guard (tee.finish id store now).2.1
      (.streams (tee.finish id store now).2.2) := by
  unfold finish
  cases h : tee.copy with
  | none => exact .keeps (.nil id) rfl
  | some copy =>
      have guard : (Stage.streams tee).guard = copy.storing.flight := by
        rw [Stage.guard, h, Option.bind_some]
      rw [guard]
      simp only
      split
      · exact handles_released finish_quiet rfl
      · exact handles_released (.nil id) rfl

theorem Tee.discard_handles (id : Nat) (tee : Tee) {stage : Stage} (ended : stage.Ended) :
    Handles id (Stage.streams tee).guard (tee.discard id).1 stage := by
  unfold discard
  cases h : tee.copy with
  | none =>
      refine .keeps (.nil id) ?_
      rw [ended.guard, Stage.guard, h, Option.bind_none]
  | some copy =>
      have guard : (Stage.streams tee).guard = copy.storing.flight := by
        rw [Stage.guard, h, Option.bind_some]
      rw [guard]
      exact handles_released (.nil id) ended

theorem Tee.poll_handles (id : Nat) (store : Store) (tee : Tee) (item : Item) (now : Clock) :
    Handles id (Stage.streams tee).guard (tee.poll id store item now).2.1
      (.streams (tee.poll id store item now).2.2) := by
  unfold poll
  cases item with
  | chunk chunk =>
      cases h : tee.copy with
      | none => exact .keeps (.nil id) rfl
      | some copy =>
          simp only
          -- the longer copy has the same guard
          have same : (Stage.streams { tee with
              copy := some { copy with buffer := copy.buffer ++ chunk } }).guard =
                (Stage.streams tee).guard := by
            simp only [Stage.guard, h, Option.bind_some]
          split
          · exact tee.discard_handles id rfl
          · split
            · rw [← same]
              exact Tee.finish_handles ..
            · exact .keeps (.nil id) same
  | failed => exact tee.discard_handles id rfl
  | ended => exact tee.finish_handles id store now

/-- A stream without a copy has no effect. -/
theorem Tee.poll_ended {id : Nat} {store : Store} {tee : Tee} {item : Item} {now : Clock}
    (ended : tee.copy = none) :
    (tee.poll id store item now).2.1 = [] ∧ (tee.poll id store item now).2.2.copy = none := by
  cases item <;> simp [poll, finish, discard, ended]

theorem Tee.new_handles (id : Nat) (store : Store) (length : Option Nat) (copy : Option BodyCopy)
    (now : Clock) :
    Handles id (copy.bind fun copy => copy.storing.flight) (Tee.new id store length copy now).2.1
      (.streams (Tee.new id store length copy now).2.2) := by
  unfold new
  simp only
  split
  · exact Tee.finish_handles id store ⟨length, copy⟩ now
  · exact .keeps (.nil id) rfl

theorem Tee.new_none (id : Nat) (store : Store) (length : Option Nat) (now : Clock) :
    (Tee.new id store length none now).2.1 = [] ∧
      (Tee.new id store length none now).2.2.copy = none := by
  unfold new
  simp only
  split <;> exact ⟨rfl, rfl⟩

theorem clientResponse_handles (id : Nat) (store : Store) (head : Head) (storing : Storing)
    (now : Clock) :
    Handles id storing.flight (clientResponse id store head (some storing) now).2.2.1
      (.streams (clientResponse id store head (some storing) now).2.2.2) := by
  unfold clientResponse
  by_cases fits : (contentLength head).all (· ≤ storing.limit) = true
  · simp only [Option.filter_some, fits, if_true, Option.map_some, Option.isNone_some,
      Bool.false_eq_true, if_false, List.nil_append]
    have handles := Tee.new_handles id store (contentLength head)
      (some ⟨[], storing, head.status, storedFields (forwardableFields head)⟩) now
    rwa [Option.bind_some] at handles
  · obtain ⟨effects, copy⟩ := Tee.new_none id store (contentLength head) now
    simp only [Option.filter_some, fits, Bool.false_eq_true, if_false, Option.map_none,
      Option.isNone_none, if_true, Option.elim_some, effects, List.append_nil]
    exact handles_released (.nil id) copy

theorem clientResponse_none (id : Nat) (store : Store) (head : Head) (now : Clock) :
    (clientResponse id store head none now).2.2.1 = [] ∧
      (clientResponse id store head none now).2.2.2.copy = none :=
  Tee.new_none id store (contentLength head) now

section

variable [HttpDate]

theorem storePlan_quiet {id : Nat} {store : Store} {req : HttpRequest} {head : Head}
    {now : Clock} : Quiet id (storePlan (.request id) store req head now).2.2 := by
  unfold storePlan
  simp only
  split
  · exact quiet_singleton (by simp [Effect.own]) rfl
  · exact .nil id

theorem freshenFrom_quiet {id : Nat} {store : Store} {entry : StaleEntry} {req : HttpRequest}
    {head : Head} {now : Clock} :
    Quiet id (freshenFrom (.request id) store entry req head now).2.2 :=
  quiet_singleton (by simp [Effect.own]) rfl

theorem Exchange.forwarded_handles (id : Nat) (store : Store) (req : HttpRequest)
    (exchange : Exchange) (head : Head) (now : Clock) :
    Handles id exchange.flight (exchange.forwarded id store req head now).effects
      (exchange.forwarded id store req head now).stage := by
  unfold forwarded
  cases h : storePlan (.request id) store req head now with
  | mk storing rest =>
      have planned : Quiet id rest.2 := by
        have quiet : Quiet id (storePlan (.request id) store req head now).2.2 := storePlan_quiet
        rwa [h] at quiet
      cases storing with
      | none =>
          obtain ⟨effects, copy⟩ := clientResponse_none id rest.1 head now
          simp only [Option.isNone_none, if_true, Option.map_none, effects, List.append_nil]
          exact handles_released planned copy
      | some storing =>
          simp only [Option.isNone_some, Bool.false_eq_true, if_false, Option.map_some,
            List.append_nil]
          exact (clientResponse_handles id rest.1 head (storing.holding exchange.flight)
            now).prepend planned

namespace World

omit [HttpDate] in
theorem or_handles (id : Nat) (flight : Option Flight) (next : Option StaleEntry → Stage)
    (cached : Cached × Store × Option (Task × UpstreamRequest))
    (next_guard : ∀ stale, (next stale).guard = flight) :
    Handles id flight (Cached.or id flight next cached).effects
      (Cached.or id flight next cached).stage := by
  obtain ⟨cached, store, spawned⟩ := cached
  cases cached with
  | answer => exact handles_released (.nil id) trivial
  | _ => exact .keeps (.nil id) (next_guard _)

/-- A step keeps the guard, or drops it as the last thing it does. -/
theorem Moves.handles {σ : World} {id : Nat} {req : HttpRequest} {stage : Stage}
    {outcome : Outcome} (moves : Moves σ id req stage outcome) :
    Handles id stage.guard outcome.effects outcome.stage := by
  cases moves with
  | lookFirst => exact or_handles id none .joins _ fun _ => rfl
  | lookAgain => exact or_handles id _ (fun stale => .prepares ⟨stale, _⟩) _ fun _ => rfl
  | wake => exact .keeps (.nil id) rfl
  | refused => exact handles_reply (.nil id)
  | sent => exact .keeps (quiet_singleton (by simp [Effect.own]) rfl) rfl
  | revalidated => exact handles_reply freshenFrom_quiet
  | onError => exact handles_reply (.nil id)
  | forwarded => exact Exchange.forwarded_handles ..
  | failed => exact handles_reply (.nil id)
  | body => exact Tee.poll_handles ..
  | hangUp h =>
      cases stage <;> cases h
      case streams.refl tee => exact tee.discard_handles id trivial
      all_goals exact handles_released (.nil id) trivial

/-- A request whose exchange is over does nothing more. -/
theorem Moves.ended {σ : World} {id : Nat} {req : HttpRequest} {stage : Stage}
    {outcome : Outcome} (moves : Moves σ id req stage outcome) (ended : stage.Ended) :
    outcome.effects = [] ∧ outcome.stage.Ended := by
  cases moves with
  | body => exact Tee.poll_ended ended
  | hangUp h =>
      cases stage <;> cases h
      case streams.refl tee =>
        have none : tee.copy = none := ended
        exact ⟨by simp [goesOn, Tee.discard, none], trivial⟩
      all_goals exact ended.elim
  | _ => exact ended.elim

/-! ## Runs -/

/-- What a request has done with the guard of its flight, if it has led one. -/
inductive Led (id : Nat) (stage : Stage) : List Effect → Prop
  | alone {trace} (guard : stage.guard = none) (still : trace.filter Effect.onFlight = []) :
    Led id stage trace
  | holds {flight trace} (guard : stage.guard = some flight)
      (led : trace.filter Effect.onFlight = [.led id flight]) : Led id stage trace
  | dropped {flight before} (ended : stage.Ended)
      (led : before.filter Effect.onFlight = [.led id flight]) :
    Led id stage (before ++ [.dropped id flight])

omit [HttpDate] in
theorem Led.handles {id : Nat} {stage after : Stage} {trace effects : List Effect}
    (led : Led id stage trace) (handles : Handles id stage.guard effects after)
    (ended : stage.Ended → effects = [] ∧ after.Ended) : Led id after (trace ++ effects) := by
  cases led with
  | alone guard still =>
      rw [guard] at handles
      cases handles with
      | keeps quiet same =>
          exact .alone same (by rw [List.filter_append, still, quiet.filter_onFlight, List.nil_append])
      | drops held => cases held
  | holds guard led =>
      cases handles with
      | keeps quiet same =>
          refine .holds (same.trans guard) ?_
          rw [List.filter_append, led, quiet.filter_onFlight, List.append_nil]
      | drops held quiet last =>
          obtain rfl := Option.some.inj (guard.symm.trans held)
          rw [← List.append_assoc]
          refine .dropped last ?_
          rw [List.filter_append, led, quiet.filter_onFlight, List.append_nil]
  | dropped last led =>
      obtain ⟨nothing, last⟩ := ended last
      rw [nothing, List.append_nil]
      exact .dropped last led

omit [HttpDate] in
theorem Handles.own {id : Nat} {guard : Option Flight} {effects : List Effect} {stage : Stage}
    (handles : Handles id guard effects stage) : ∀ effect ∈ effects, effect.own id = true := by
  intro effect h
  cases handles with
  | keeps quiet => exact (quiet effect h).1
  | drops held quiet =>
      obtain h | h := List.mem_append.mp h
      · exact (quiet effect h).1
      · obtain rfl := List.mem_singleton.mp h
        simp [Effect.own]

omit [HttpDate] in
/-- An effect is one request's at most. -/
theorem own_unique {id other : Nat} {effect : Effect} (own : effect.own id = true)
    (own' : effect.own other = true) : other = id := by
  cases effect <;> simp_all [Effect.own]

/-- What each request has done, by the log. -/
structure Tracked (σ : World) : Prop where
  led : ∀ id request, σ.requests id = some request →
    Led id request.stage (σ.log.filter (Effect.own id))
  absent : ∀ id, σ.requests id = none → σ.log.filter (Effect.own id) = []

omit [HttpDate] in
theorem Tracked.settle {σ σ₀ : World} (tracked : Tracked σ) {id : Nat} {req : HttpRequest}
    {outcome : Outcome} (requests : σ₀.requests = σ.requests) (log : σ₀.log = σ.log)
    (own : ∀ effect ∈ outcome.effects, effect.own id = true)
    (led : Led id outcome.stage (σ.log.filter (Effect.own id) ++ outcome.effects)) :
    Tracked (σ₀.settle id req outcome) := by
  have mine : outcome.effects.filter (Effect.own id) = outcome.effects :=
    List.filter_eq_self.mpr own
  rcases settle_log σ₀ id req outcome with ⟨sent, logged, foreign⟩
  have none_sent (other : Nat) : sent.filter (Effect.own other) = [] := by
    rw [List.filter_eq_nil_iff]
    intro effect h
    rcases foreign effect h with ⟨request, rfl⟩
    simp [Effect.own]
  have others {other : Nat} (different : other ≠ id) :
      outcome.effects.filter (Effect.own other) = [] :=
    List.filter_eq_nil_iff.mpr fun effect h yours => different (own_unique (own effect h) yours)
  constructor
  · intro other request h
    rw [logged, log, List.filter_append, List.filter_append, none_sent, List.append_nil]
    obtain ⟨rfl, rfl⟩ | ⟨different, before⟩ := Runs.update_cases h
    · rwa [mine]
    · rw [others different, List.append_nil]
      exact tracked.led other request (requests ▸ before)
  · intro other h
    rw [logged, log, List.filter_append, List.filter_append, none_sent, List.append_nil]
    have different : other ≠ id := by
      rintro rfl
      simp [World.settle] at h
    rw [others different, List.append_nil]
    refine tracked.absent other ?_
    rw [← requests]
    simpa [World.settle, Function.update_of_ne different] using h

/-- A task's effects are no request's. -/
theorem TaskMoves.foreign {σ : World} {id : Nat} {task : Task}
    {outcome : Store × List Effect × TaskStage} (moves : TaskMoves σ id task outcome)
    (other : Nat) : outcome.2.1.filter (Effect.own other) = [] := by
  have one {effect : Effect} (foreign : effect.own other = false) :
      [effect].filter (Effect.own other) = [] :=
    List.filter_cons_of_neg (by simp [foreign])
  cases moves with
  | @refreshed head now =>
      unfold Task.refresh
      split
      · exact one (by simp [Effect.own])
      · cases h : storePlan (.task id) σ.store task.req head now with
        | mk storing rest =>
            have planned : rest.2.filter (Effect.own other) = [] := by
              have effects : (storePlan (.task id) σ.store task.req head now).2.2 = rest.2 := by
                rw [h]
              rw [← effects]
              unfold storePlan
              simp only
              split
              · exact one (by simp [Effect.own])
              · rfl
            cases storing <;> exact planned
  | failed => rfl
  | @body storing head body now =>
      unfold Task.collected
      cases body with
      | none => rfl
      | some body =>
          simp only
          split
          · exact one (by simp [Effect.own])
          · rfl

theorem Tracked.step {σ σ' : World} (tracked : Tracked σ) (change : Change σ σ') :
    Tracked σ' := by
  cases change with
  | @arrive id req new =>
      refine tracked.settle rfl rfl (fun _ h => by cases h) (.alone rfl ?_)
      rw [tracked.absent id new]
      rfl
  | @request σ₀ id request outcome time here moves =>
      have read := at_reading time
      have handles := Moves.handles moves
      exact tracked.settle read.requests read.log (Handles.own handles)
        ((tracked.led id request here).handles handles (Moves.ended moves))
  | @join id request stale here stage =>
      have led := tracked.led id request here
      rw [stage] at led
      -- it has led no flight before
      have still : (σ.log.filter (Effect.own id)).filter Effect.onFlight = [] := by
        generalize σ.log.filter (Effect.own id) = trace at led ⊢
        cases led with
        | alone guard still => exact still
        | holds guard => cases guard
        | dropped ended => exact ended.elim
      cases (joinFlight σ.store σ.flights request.req).1 with
      | alone =>
          refine tracked.settle rfl rfl (fun _ h => by cases h) (.alone rfl ?_)
          simpa [afterJoin, goesOn] using still
      | lead flight =>
          refine tracked.settle rfl rfl (fun effect h => ?_) (.holds rfl ?_)
          · obtain rfl := List.mem_singleton.mp h
            simp [Effect.own]
          · rw [List.filter_append, still]
            rfl
      | follow channel =>
          refine tracked.settle rfl rfl (fun _ h => by cases h) (.alone rfl ?_)
          simpa [afterJoin, goesOn] using still
  | @task σ₀ id task outcome time here moves =>
      have read := at_reading time
      have log (other : Nat) : (σ₀.settleTask id task outcome).log.filter (Effect.own other) =
          σ.log.filter (Effect.own other) := by
        simp only [settleTask, List.filter_append, TaskMoves.foreign moves, List.append_nil, read.log]
      constructor
      · intro other request h
        rw [log]
        exact tracked.led other request (read.requests ▸ h)
      · intro other h
        rw [log]
        exact tracked.absent other (read.requests ▸ h)
  | insertAsset => exact ⟨tracked.led, tracked.absent⟩
  | evictIndex => exact ⟨tracked.led, tracked.absent⟩
  | evictEntry => exact ⟨tracked.led, tracked.absent⟩

/-- After the poll that ends the copying nobody holds the guard. -/
theorem guard_of_over [UriSyntax] {base : OriginUrl} {σ σ' : World} {id : Nat} {request : Request}
    {tee : Tee} {item : Item} {now : Clock} (here : σ.requests id = some request)
    (stage : request.stage = .streams tee) (ends : tee.Over item)
    (h : step base σ (.body id item now) = some σ') :
    ∃ request', σ'.requests id = some request' ∧ request'.stage.guard = none := by
  cases (happens_of_step h).2 with
  | body later there streams =>
      obtain rfl := Option.some.inj (here.symm.trans there)
      obtain rfl := Stage.streams.inj (stage.symm.trans streams)
      exact ⟨_, Function.update_self .., Stage.Ended.guard
        (show Stage.Ended (.streams _) from tee.poll_over id _ now ends)⟩

/-- A request that has led a flight either still holds the guard, and has
dropped none, or it has dropped the guard once, as the last of its effects,
and its exchange is over. A body's poll that ends it, fails or passes the limit
leaves no guard. -/
theorem flight_ends_once [UriSyntax] {base : OriginUrl} {sizeMb : UInt64} {ttl : Duration}
    {events : List Event} {σ : World} {id : Nat} {flight : Flight}
    (hrun : Runs.run (step base) (start sizeMb ttl) events = some σ)
    (led : .led id flight ∈ σ.log) :
    ∃ request, σ.requests id = some request ∧
      (request.stage.guard = some flight ∧
          (σ.log.filter (Effect.own id)).filter Effect.onFlight = [.led id flight] ∨
        request.stage.Ended ∧ ∃ before,
          σ.log.filter (Effect.own id) = before ++ [.dropped id flight] ∧
            before.filter Effect.onFlight = [.led id flight]) ∧
      ∀ tee item now σ', request.stage = .streams tee → tee.Over item →
        step base σ (.body id item now) = some σ' →
          ∃ request', σ'.requests id = some request' ∧ request'.stage.guard = none := by
  have tracked : Tracked σ := Runs.invariant_run
    (fun _ _ _ tracked h => tracked.step (step_cases h).2)
    ⟨fun _ _ h => (by cases h), fun _ _ => rfl⟩ hrun
  have mine : .led id flight ∈ σ.log.filter (Effect.own id) :=
    List.mem_filter.mpr ⟨led, by simp [Effect.own]⟩
  cases here : σ.requests id with
  | none =>
      rw [tracked.absent id here] at mine
      cases mine
  | some request =>
      refine ⟨request, rfl, ?_, fun tee item now σ' stage ends h =>
        guard_of_over here stage ends h⟩
      have told := tracked.led id request here
      have began {list : List Effect} (h : .led id flight ∈ list) :
          .led id flight ∈ list.filter Effect.onFlight := List.mem_filter.mpr ⟨h, rfl⟩
      generalize σ.log.filter (Effect.own id) = trace at mine told ⊢
      cases told with
      | alone guard still =>
          have := began mine
          rw [still] at this
          cases this
      | holds guard only =>
          have := began mine
          rw [only, List.mem_singleton] at this
          cases this
          exact .inl ⟨guard, only⟩
      | @dropped flight' before ended only =>
          -- the guard is dropped after the flight has begun
          obtain mine | mine := List.mem_append.mp mine
          · have := began mine
            rw [only, List.mem_singleton] at this
            cases this
            exact .inr ⟨ended, before, rfl, only⟩
          · cases List.mem_singleton.mp mine

end World

end

namespace World

set_option maxRecDepth 4000 in
theorem flight_ends_once_example : ∃ (_ : HttpDate) (_ : UriSyntax) (σ : World)
    (flight : Flight),
    Runs.run (step exampleOrigin) (start 1 (Duration.fromSecs 300))
        (missEvents ⟨.ok, byLanguage⟩) = some σ ∧
      .led 0 flight ∈ σ.log ∧
      ∃ request, σ.requests 0 = some request ∧
        (request.stage.guard = some flight ∧
            (σ.log.filter (Effect.own 0)).filter Effect.onFlight = [.led 0 flight] ∨
          request.stage.Ended ∧ ∃ before,
            σ.log.filter (Effect.own 0) = before ++ [.dropped 0 flight] ∧
              before.filter Effect.onFlight = [.led 0 flight]) ∧
        ∀ tee item now σ', request.stage = .streams tee → tee.Over item →
          step exampleOrigin σ (.body 0 item now) = some σ' →
            ∃ request', σ'.requests 0 = some request' ∧ request'.stage.guard = none := by
  let dates : HttpDate := ⟨fun _ => none⟩
  let uris : UriSyntax := ⟨fun _ => true, fun _ => true⟩
  have first : (Runs.run (step exampleOrigin) (start 1 (Duration.fromSecs 300))
      (missEvents ⟨.ok, byLanguage⟩)).bind (fun σ => σ.log.head?) =
        some (.led 0 ⟨⟨(germanRequest []).cacheKey, []⟩, 0⟩) := by rfl
  obtain ⟨σ, hrun, head⟩ := Option.bind_eq_some_iff.mp first
  have led := List.mem_of_head? head
  exact ⟨dates, uris, σ, _, hrun, led, flight_ends_once hrun led⟩

end World

end Shadowstep
