import Shadowstep.Lib.Runs
import Shadowstep.Rust.Text
import Shadowstep.Rust.Time

/-!
# The idle timeout

`IdleTimeout` of `proxy.rs` passes the origin's body through and ends it once
the origin has sent nothing for `idle`. The deadline is armed at the first
poll after an item, and the inner stream is asked before the timer.

* `idle_transparent` — what a consumer sees, over any schedule of polls;
* `no_panic_iff` — of the deadlines computed from the upstream timeout, the
  one that `poll_next` arms is added without a guard;
* `largest_timeout_panics` — a configuration that makes it panic.
-/

namespace Shadowstep

open Rust

/-! ## One poll -/

/-- `std::task::Poll`. -/
inductive Poll (α : Type) where
  | ready (a : α)
  | pending

/-- What the timeout yields: an item of the stream it wraps, or its own error. -/
inductive Yielded (α : Type) where
  | item (a : α)
  | timedOut
deriving DecidableEq

/-- A body stream under an idle timeout, less the stream itself. -/
structure IdleTimeout where
  idle : Duration
  /-- the deadline of `sleep` -/
  deadline : Instant
  /-- the deadline runs from the first poll after the last item -/
  waiting : Bool
  expired : Bool
  /-- the counter of bodies that went idle -/
  idleTimeouts : UInt64

namespace IdleTimeout

/-- The deadline is set at the first poll after an item. `none` is where the
addition panics. -/
def arm (body : IdleTimeout) (now : Instant) : Option IdleTimeout :=
  if body.waiting then some body
  else (now.checkedAdd body.idle).map fun deadline =>
    { body with deadline := deadline, waiting := true }

/-- `poll_next`: `inner` is what the wrapped stream answers if it is polled,
and `sleep` whether the timer is ready for a deadline. -/
def pollNext {α : Type} (body : IdleTimeout) (now : Instant) (inner : Poll (Option α))
    (sleep : Instant → Bool) : Option (Poll (Option (Yielded α)) × IdleTimeout) :=
  if body.expired then some (.ready none, body)
  else (body.arm now).map fun body =>
    match inner with
    | .ready item => (.ready (item.map .item), { body with waiting := false })
    | .pending =>
      if sleep body.deadline then
        (.ready (some .timedOut),
          { body with expired := true, idleTimeouts := body.idleTimeouts + 1 })
      else (.pending, body)

theorem arm_eq_some {body armed : IdleTimeout} {now : Instant} :
    body.arm now = some armed ↔
      (body.waiting = true ∧ armed = body) ∨
      (body.waiting = false ∧ ∃ deadline, now.nanos + body.idle.nanos = deadline.nanos ∧
        armed = { body with deadline := deadline, waiting := true }) := by
  unfold arm
  cases waiting : body.waiting with
  | true => simp [eq_comm]
  | false =>
      simp only [Bool.false_eq_true, if_false, Option.map_eq_some_iff, Instant.checkedAdd_eq_some,
        false_and, false_or, true_and]
      exact exists_congr fun deadline => and_congr_right fun _ => eq_comm

end IdleTimeout

/-! ## A consumer -/

/-- One poll by the consumer: the clock when the poll arms the deadline and
when it asks the timer, and what the inner stream and the timer have ready.
The timer may be late, so a deadline in the past need not be noticed. -/
structure PollEvent where
  now : Instant
  checked : Instant
  ready : Bool
  fires : Bool

/-- A consumer that stops at the end of the stream. -/
structure Consumer (α : Type) where
  body : IdleTimeout
  /-- how many answers the inner stream has given, its end included -/
  given : Nat
  clock : Instant
  /-- the polls so far, with what each has answered -/
  log : List (PollEvent × Poll (Option (Yielded α)))
  ended : Bool

namespace Consumer

variable {α : Type}

/-- The consumer of a new body. The first deadline is replaced before it is
looked at. -/
def start (idle : Duration) (deadline : Instant) (idleTimeouts : UInt64) (clock : Instant) :
    Consumer α :=
  ⟨⟨idle, deadline, false, false, idleTimeouts⟩, 0, clock, [], false⟩

/-- An answer that ends the stream. -/
def isEnd : Poll (Option (Yielded α)) → Bool
  | .ready none => true
  | _ => false

/-- The consumer polls. `inner i` is the `i`-th answer of the inner stream,
whenever it is ready. -/
def step (inner : Nat → Option α) (σ : Consumer α) (e : PollEvent) : Option (Consumer α) :=
  if σ.ended || !(σ.clock ≤ e.now && e.now ≤ e.checked) then none
  else
    (σ.body.pollNext e.now (if e.ready then .ready (inner σ.given) else .pending)
      fun deadline => e.fires && deadline ≤ e.checked).map fun answered =>
        { body := answered.2
          given := if e.ready && !σ.body.expired then σ.given + 1 else σ.given
          clock := e.checked
          log := σ.log ++ [(e, answered.1)]
          ended := isEnd answered.1 }

/-- What the consumer has received, in order, with `none` for the end. -/
def received (log : List (PollEvent × Poll (Option (Yielded α)))) : List (Option (Yielded α)) :=
  log.filterMap fun entry =>
    match entry.2 with
    | .ready answer => some answer
    | .pending => none

/-- The first answers of the inner stream, as items. -/
def passed (inner : Nat → Option α) (count : Nat) : List (Option (Yielded α)) :=
  (List.range count).map fun i => (inner i).map .item

theorem received_append (left right : List (PollEvent × Poll (Option (Yielded α)))) :
    received (left ++ right) = received left ++ received right :=
  List.filterMap_append

theorem passed_succ (inner : Nat → Option α) (count : Nat) :
    passed inner (count + 1) = passed inner count ++ [(inner count).map .item] := by
  simp [passed, List.range_succ]

/-! ## What one poll does -/

/-- The four ways in which a poll returns. -/
inductive Polled (inner : Nat → Option α) (σ : Consumer α) (e : PollEvent) :
    Poll (Option (Yielded α)) → Consumer α → Prop where
  /-- after the error there is only the end -/
  | expired (gone : σ.body.expired = true) :
      Polled inner σ e (.ready none)
        ⟨σ.body, σ.given, e.checked, σ.log ++ [(e, .ready none)], true⟩
  /-- what the inner stream has ready is passed on -/
  | passes (armed : IdleTimeout) (live : σ.body.expired = false)
      (arms : σ.body.arm e.now = some armed) (ready : e.ready = true) :
      Polled inner σ e (.ready ((inner σ.given).map .item))
        ⟨{ armed with waiting := false }, σ.given + 1, e.checked,
          σ.log ++ [(e, .ready ((inner σ.given).map .item))], (inner σ.given).isNone⟩
  | pends (armed : IdleTimeout) (live : σ.body.expired = false)
      (arms : σ.body.arm e.now = some armed) (ready : e.ready = false) :
      Polled inner σ e .pending ⟨armed, σ.given, e.checked, σ.log ++ [(e, .pending)], false⟩
  | timesOut (armed : IdleTimeout) (live : σ.body.expired = false)
      (arms : σ.body.arm e.now = some armed) (ready : e.ready = false)
      (due : armed.deadline ≤ e.checked) :
      Polled inner σ e (.ready (some .timedOut))
        ⟨{ armed with expired := true, idleTimeouts := armed.idleTimeouts + 1 }, σ.given,
          e.checked, σ.log ++ [(e, .ready (some .timedOut))], false⟩

/-- A poll happens before the end of the stream, on a clock that does not go
back, and then returns in one of the four ways. -/
theorem step_spec {inner : Nat → Option α} {σ σ' : Consumer α} {e : PollEvent}
    (h : step inner σ e = some σ') :
    σ.ended = false ∧ σ.clock ≤ e.now ∧ e.now ≤ e.checked ∧
      ∃ answer, Polled inner σ e answer σ' := by
  unfold step at h
  split at h
  · cases h
  · rename_i going'
    simp only [Bool.or_eq_true, Bool.not_eq_true', not_or, Bool.not_eq_true, Bool.not_eq_false,
      Bool.and_eq_true, decide_eq_true_eq] at going'
    obtain ⟨going, forward, within⟩ := going'
    refine ⟨going, forward, within, ?_⟩
    obtain ⟨⟨answer, body⟩, polled, rfl⟩ := Option.map_eq_some_iff.mp h
    unfold IdleTimeout.pollNext at polled
    split at polled
    · rename_i gone
      obtain ⟨rfl, rfl⟩ := Prod.mk.inj (Option.some.inj polled)
      simp only [gone, Bool.not_true, Bool.and_false, Bool.false_eq_true, if_false]
      exact ⟨_, .expired gone⟩
    · rename_i live
      have live : σ.body.expired = false := by simpa using live
      obtain ⟨armed, arms, polled⟩ := Option.map_eq_some_iff.mp polled
      cases ready : e.ready with
      | true =>
          simp only [ready, if_true] at polled
          obtain ⟨rfl, rfl⟩ := Prod.mk.inj polled
          simp only [live, Bool.not_false, Bool.and_self, if_true]
          refine ⟨.ready ((inner σ.given).map .item), ?_⟩
          have ended : isEnd (.ready ((inner σ.given).map Yielded.item)) =
              (inner σ.given).isNone := by
            cases inner σ.given <;> rfl
          rw [ended]
          exact .passes armed live arms ready
      | false =>
          simp only [ready, Bool.false_eq_true, if_false] at polled
          split at polled
          · rename_i due
            obtain ⟨rfl, rfl⟩ := Prod.mk.inj polled
            simp only [Bool.and_eq_true, decide_eq_true_eq] at due
            simp only [Bool.false_and, Bool.false_eq_true, if_false]
            exact ⟨_, .timesOut armed live arms ready due.2⟩
          · obtain ⟨rfl, rfl⟩ := Prod.mk.inj polled
            simp only [Bool.false_and, Bool.false_eq_true, if_false]
            exact ⟨_, .pends armed live arms ready⟩

/-! ## Over a run -/

/-- The last poll of the log, if there is one, has yielded an item. -/
def AfterItem (log : List (PollEvent × Poll (Option (Yielded α)))) : Prop :=
  ∀ last ∈ log.getLast?, ∃ a, last.2 = .ready (some (.item a))

/-- Of the polls of the log and the poll `e` after them, `first` is the first
one after the last item. -/
def Since (log : List (PollEvent × Poll (Option (Yielded α)))) (e first : PollEvent) : Prop :=
  ∃ before waits, log = before ++ waits ∧ AfterItem before ∧
    (∀ poll ∈ waits, poll.2 = .pending) ∧ (waits.map Prod.fst ++ [e]).head? = some first

theorem since_self {log : List (PollEvent × Poll (Option (Yielded α)))} (fresh : AfterItem log)
    (e : PollEvent) : Since log e e :=
  ⟨log, [], (List.append_nil _).symm, fresh, by simp, rfl⟩

/-- A poll that finds nothing ready leaves the first poll what it was. -/
theorem Since.pending {log : List (PollEvent × Poll (Option (Yielded α)))} {e first : PollEvent}
    (since : Since log e first) (next : PollEvent) : Since (log ++ [(e, .pending)]) next first := by
  obtain ⟨before, waits, rfl, fresh, pending, head⟩ := since
  refine ⟨before, waits ++ [(e, .pending)], List.append_assoc _ _ _, fresh, ?_, ?_⟩
  · intro poll member
    rcases List.mem_append.mp member with member | member
    · exact pending poll member
    · rw [List.mem_singleton.mp member]
  · rw [List.map_append, List.map_singleton, List.head?_append, head]
    rfl

/-- What the consumer has received: items of the inner stream, and then
nothing, the inner end, or the error and the end after it. -/
inductive Outcome (inner : Nat → Option α) (σ : Consumer α) : Prop where
  | going (live : σ.body.expired = false) (going' : σ.ended = false)
      (items : ∀ i < σ.given, (inner i).isSome = true)
      (so : received σ.log = passed inner σ.given)
  | finished (last : Nat) (live : σ.body.expired = false) (ended' : σ.ended = true)
      (items : ∀ i < last, (inner i).isSome = true) (end' : inner last = none)
      (so : received σ.log = passed inner last ++ [none])
  | wentIdle (gone : σ.body.expired = true) (items : ∀ i < σ.given, (inner i).isSome = true)
      (so : received σ.log = passed inner σ.given ++
        some .timedOut :: if σ.ended then [none] else [])

/-- The invariant of a consumer's run. -/
structure Passing (inner : Nat → Option α) (idle : Duration) (count : UInt64)
    (σ : Consumer α) : Prop where
  idle_eq : σ.body.idle = idle
  outcome : Outcome inner σ
  /-- a deadline that runs was armed at the first poll after the last item -/
  armed : σ.body.expired = false → σ.ended = false → σ.body.waiting = true →
    ∃ log e first, σ.log = log ++ [(e, .pending)] ∧ Since log e first ∧
      first.now.nanos + idle.nanos = σ.body.deadline.nanos
  /-- and none runs right after an item -/
  fresh : σ.body.expired = false → σ.ended = false → σ.body.waiting = false → AfterItem σ.log

theorem passing_start (inner : Nat → Option α) (idle : Duration) (deadline : Instant)
    (count : UInt64) (clock : Instant) :
    Passing inner idle count (start idle deadline count clock) where
  idle_eq := rfl
  outcome := .going rfl rfl (by simp [start]) rfl
  armed _ _ waiting := by cases waiting
  fresh _ _ _ := by simp [start, AfterItem]

section

variable {inner : Nat → Option α} {idle : Duration} {count : UInt64} {σ σ' : Consumer α}
  {e : PollEvent}

/-- The deadline that a poll works with is `idle` after the first poll since
the last item. -/
theorem Passing.since (passing : Passing inner idle count σ) (going' : σ.ended = false)
    (live : σ.body.expired = false) {armed : IdleTimeout} (arms : σ.body.arm e.now = some armed) :
    armed.idle = idle ∧ armed.expired = false ∧ armed.waiting = true ∧
      armed.idleTimeouts = σ.body.idleTimeouts ∧
      ∃ first, Since σ.log e first ∧ first.now.nanos + idle.nanos = armed.deadline.nanos := by
  rcases IdleTimeout.arm_eq_some.mp arms with ⟨waiting, rfl⟩ | ⟨resting, deadline, sum, rfl⟩
  · obtain ⟨log, poll, first, hlog, since, sum⟩ := passing.armed live going' waiting
    exact ⟨passing.idle_eq, live, waiting, rfl, first, hlog ▸ since.pending e, sum⟩
  · have fresh := passing.fresh live going' resting
    rw [passing.idle_eq] at sum
    exact ⟨passing.idle_eq, live, rfl, rfl, e, since_self fresh e, sum⟩

/-- While the stream is open the consumer has received items only. -/
theorem Passing.items (passing : Passing inner idle count σ) (going' : σ.ended = false)
    (live : σ.body.expired = false) : (∀ i < σ.given, (inner i).isSome = true) ∧
      received σ.log = passed inner σ.given := by
  rcases passing.outcome with ⟨-, -, items, so⟩ | ⟨_, -, ended', -⟩ | ⟨gone, -, -⟩
  · exact ⟨items, so⟩
  · rw [going'] at ended'
    cases ended'
  · rw [live] at gone
    cases gone

theorem received_ready (log : List (PollEvent × Poll (Option (Yielded α)))) (e : PollEvent)
    (answer : Option (Yielded α)) :
    received (log ++ [(e, .ready answer)]) = received log ++ [answer] := by
  rw [received_append]
  rfl

theorem received_pending (log : List (PollEvent × Poll (Option (Yielded α)))) (e : PollEvent) :
    received (log ++ [(e, .pending)]) = received log := by
  rw [received_append]
  exact List.append_nil _

theorem Passing.step (passing : Passing inner idle count σ) (h : Consumer.step inner σ e = some σ') :
    Passing inner idle count σ' := by
  obtain ⟨going', -, -, answer, polled⟩ := step_spec h
  cases polled with
  | expired gone =>
      refine ⟨passing.idle_eq, ?_, fun live => ?_, fun live => ?_⟩
      · rcases passing.outcome with ⟨live, -⟩ | ⟨_, live, -⟩ | ⟨-, items, so⟩
        · rw [live] at gone
          cases gone
        · rw [live] at gone
          cases gone
        · refine .wentIdle gone items ?_
          rw [received_ready, so, going']
          simp
      · rw [gone] at live
        cases live
      · rw [gone] at live
        cases live
  | passes armed live arms ready =>
      obtain ⟨idle_eq, live', -, -, -⟩ := passing.since going' live arms
      obtain ⟨items, so⟩ := passing.items going' live
      refine ⟨idle_eq, ?_, fun _ _ waiting => (by cases waiting), fun _ going _ => ?_⟩
      · cases given : inner σ.given with
        | none =>
            refine .finished σ.given live' rfl items given ?_
            rw [received_ready, so]
            rfl
        | some a =>
            refine .going live' rfl ?_ ?_
            · intro i below
              rcases Nat.lt_succ_iff_lt_or_eq.mp below with below | rfl
              · exact items i below
              · rw [given]
                rfl
            · rw [received_ready, so, passed_succ, given]
      · intro last member
        rw [List.getLast?_append] at member
        obtain rfl := Option.some.inj member
        cases given : inner σ.given with
        | none => simp [given] at going
        | some a => exact ⟨a, rfl⟩
  | pends armed live arms ready =>
      obtain ⟨idle_eq, live', waiting, -, first, since, sum⟩ := passing.since going' live arms
      obtain ⟨items, so⟩ := passing.items going' live
      refine ⟨idle_eq, .going live' rfl items ?_, fun _ _ _ => ⟨_, e, first, rfl, since, sum⟩,
        fun _ _ resting => ?_⟩
      · rw [received_pending, so]
      · rw [waiting] at resting
        cases resting
  | timesOut armed live arms ready due =>
      obtain ⟨idle_eq, -, -, -, -⟩ := passing.since going' live arms
      obtain ⟨items, so⟩ := passing.items going' live
      refine ⟨idle_eq, .wentIdle rfl items ?_, fun live => (by cases live),
        fun live => (by cases live)⟩
      rw [received_ready, so]
      rfl

theorem passing_run {deadline clock : Instant} {events : List PollEvent}
    (run : Runs.run (Consumer.step inner) (start idle deadline count clock) events = some σ) :
    Passing inner idle count σ :=
  Runs.invariant_run (fun _ _ _ passing h => passing.step h)
    (passing_start inner idle deadline count clock) run

/-- A poll whose deadline can be added returns. -/
theorem step_isSome (idle_eq : σ.body.idle = idle) (going' : σ.ended = false)
    (forward : σ.clock ≤ e.now) (within : e.now ≤ e.checked)
    (representable : e.now.nanos + idle.nanos < 2 ^ 63 * nanosPerSec) :
    (Consumer.step inner σ e).isSome = true := by
  have clocks : (σ.ended || !(decide (σ.clock ≤ e.now) && decide (e.now ≤ e.checked))) = false := by
    simp [going', forward, within]
  rw [Consumer.step, clocks, if_neg (by simp), Option.isSome_map, IdleTimeout.pollNext]
  cases gone : σ.body.expired with
  | true => rfl
  | false =>
      rw [if_neg (by simp), Option.isSome_map, IdleTimeout.arm]
      cases waiting : σ.body.waiting with
      | true => rfl
      | false =>
          rw [if_neg (by simp), Option.isSome_map, idle_eq, Instant.checkedAdd,
            dif_pos representable]
          rfl

end

/-! ## What a consumer sees -/

/-- What a poll answers, and what it counts. -/
structure Answered (inner : Nat → Option α) (idle : Duration) (σ σ' : Consumer α) (e : PollEvent)
    (answer : Poll (Option (Yielded α))) : Prop where
  logged : σ'.log = σ.log ++ [(e, answer)]
  /-- the error comes only when nothing is ready and the origin had its time -/
  silent : answer = .ready (some .timedOut) → e.ready = false ∧ ∃ first, Since σ.log e first ∧
    first.now.nanos + idle.nanos ≤ e.checked.nanos
  /-- what is ready is what the consumer gets -/
  passed_on : e.ready = true → σ.body.expired = false →
    answer = .ready ((inner σ.given).map .item)
  /-- the error is counted, and nothing else is -/
  counted : (answer = .ready (some .timedOut) ∧
      σ'.body.idleTimeouts = σ.body.idleTimeouts + 1) ∨
    (answer ≠ .ready (some .timedOut) ∧ σ'.body.idleTimeouts = σ.body.idleTimeouts)

/-- What the idle timeout does to the stream it wraps. -/
structure Transparent (inner : Nat → Option α) (idle : Duration) (σ : Consumer α) : Prop where
  /-- the items of the inner stream in order, and after them nothing, its end,
  or the error and then no more than the end -/
  receives : ∃ count tail, (∀ i < count, (inner i).isSome = true) ∧
    received σ.log = passed inner count ++ tail ∧
    (tail = [] ∨ (tail = [none] ∧ inner count = none) ∨ tail = [some .timedOut] ∨
      tail = [some .timedOut, none])
  next : ∀ e σ', Consumer.step inner σ e = some σ' → ∃ answer, Answered inner idle σ σ' e answer
  /-- no poll fails whose deadline is representable -/
  proceeds : ∀ e, σ.ended = false → σ.clock ≤ e.now → e.now ≤ e.checked →
    e.now.nanos + idle.nanos < 2 ^ 63 * nanosPerSec → (Consumer.step inner σ e).isSome = true

theorem Passing.next {inner : Nat → Option α} {idle : Duration} {count : UInt64} {σ σ' : Consumer α}
    {e : PollEvent} (passing : Passing inner idle count σ)
    (h : Consumer.step inner σ e = some σ') : ∃ answer, Answered inner idle σ σ' e answer := by
  obtain ⟨going', -, -, answer, polled⟩ := step_spec h
  refine ⟨answer, ?_⟩
  cases polled with
  | expired gone =>
      refine ⟨rfl, fun error => (by cases error), fun _ live => ?_, .inr ⟨by simp, rfl⟩⟩
      rw [gone] at live
      cases live
  | passes armed live arms ready =>
      obtain ⟨-, -, -, counted, -⟩ := passing.since going' live arms
      -- an item is not the error
      have other : (Poll.ready ((inner σ.given).map Yielded.item)) ≠ .ready (some .timedOut) := by
        cases inner σ.given <;> simp
      exact ⟨rfl, fun error => absurd error other, fun _ _ => rfl, .inr ⟨other, counted⟩⟩
  | pends armed live arms ready =>
      obtain ⟨-, -, -, counted, -⟩ := passing.since going' live arms
      refine ⟨rfl, fun error => (by cases error), fun ready' => ?_, .inr ⟨by simp, counted⟩⟩
      rw [ready] at ready'
      cases ready'
  | timesOut armed live arms ready due =>
      obtain ⟨-, -, -, counted, first, since, sum⟩ := passing.since going' live arms
      refine ⟨rfl, fun _ => ⟨ready, first, since, ?_⟩, fun ready' => ?_, .inl ⟨rfl, ?_⟩⟩
      · rw [sum]
        exact due
      · rw [ready] at ready'
        cases ready'
      · rw [← counted]

/-- For every inner stream, idle duration and schedule of polls on a clock
that does not go back: the idle timeout passes the stream through, and ends
it once when the origin has been silent for too long. -/
theorem idle_transparent (inner : Nat → Option α) (idle : Duration) (deadline : Instant)
    (count : UInt64) (clock : Instant) (events : List PollEvent) (σ : Consumer α)
    (run : Runs.run (Consumer.step inner) (start idle deadline count clock) events = some σ) :
    Transparent inner idle σ := by
  have passing := passing_run run
  refine ⟨?_, fun e σ' h => passing.next h, fun e going' forward within representable =>
    step_isSome passing.idle_eq going' forward within representable⟩
  rcases passing.outcome with ⟨-, -, items, so⟩ | ⟨last, -, -, items, end', so⟩ | ⟨-, items, so⟩
  · exact ⟨σ.given, [], items, by rw [so, List.append_nil], .inl rfl⟩
  · exact ⟨last, [none], items, so, .inr (.inl ⟨rfl, end'⟩)⟩
  · refine ⟨σ.given, _, items, so, .inr (.inr ?_)⟩
    cases σ.ended with
    | true => exact .inr rfl
    | false => exact .inl rfl

/-- One item, a pause of the consumer that does not count, and then a silence
of the origin that does. -/
theorem idle_transparent_example : ∃ (inner : Nat → Option Nat) (idle : Duration)
    (events : List PollEvent) (σ : Consumer Nat),
    Runs.run (Consumer.step inner) (start idle Instant.zero 0 Instant.zero) events = some σ ∧
      received σ.log = [some (.item 7), some .timedOut] ∧ Transparent inner idle σ := by
  let second (n : Nat) (h : n < 2 ^ 63) : Instant :=
    ⟨n * nanosPerSec, Nat.mul_lt_mul_of_pos_right h (by decide)⟩
  let early := second 0 (by decide)
  let late := second 90 (by decide)
  let later := second 120 (by decide)
  obtain ⟨σ, run, got⟩ := Option.map_eq_some_iff.mp
    (show (Runs.run (Consumer.step fun _ => some 7)
        (start (Duration.fromSecs 30) Instant.zero 0 Instant.zero)
        [⟨early, early, true, false⟩, ⟨late, late, false, false⟩,
          ⟨later, later, false, true⟩]).map (fun σ => received σ.log) =
        some [some (.item 7), some .timedOut] by decide +kernel)
  exact ⟨fun _ => some 7, Duration.fromSecs 30, _, σ, run, got,
    idle_transparent _ _ Instant.zero 0 Instant.zero _ _ run⟩

end Consumer

/-! ## The deadlines of a forwarded request -/

/-- The deadline of tokio's `timeout` and `sleep`: one far in the future when
the addition overflows. -/
def sleepDeadline (farFuture : Instant → Instant) (now : Instant) (duration : Duration) : Instant :=
  (now.checkedAdd duration).getD (farFuture now)

/-- `origin_body`. -/
def originBody (farFuture : Instant → Instant) (now : Instant) (idle : Duration)
    (idleTimeouts : UInt64) : IdleTimeout :=
  ⟨idle, sleepDeadline farFuture now idle, false, false, idleTimeouts⟩

/-- What the proxy computes deadlines for, at any time and for any number of
requests at once. -/
inductive Deadlined where
  | sendToOrigin (now : Instant)
  | waitForLeader (now : Instant)
  | originBody (body : Nat) (now : Instant)
  | poll (body : Nat) (now : Instant) (inner : Poll (Option (Except Unit Bytes))) (sleep : Bool)

/-- The deadlines so far, the bodies on their way, and whether the process
has panicked, which aborts it. -/
structure Forwarding where
  deadlines : List Instant
  bodies : Nat → Option IdleTimeout
  panicked : Bool

namespace Forwarding

def start : Forwarding := ⟨[], fun _ => none, false⟩

/-- One deadline, from the upstream timeout and a reading of the clock. -/
def step (farFuture : Instant → Instant) (upstreamTimeout : Duration) (σ : Forwarding) :
    Deadlined → Option Forwarding
  | .sendToOrigin now | .waitForLeader now =>
    if σ.panicked then none
    else some { σ with deadlines := σ.deadlines ++ [sleepDeadline farFuture now upstreamTimeout] }
  | .originBody id now =>
    if σ.panicked || (σ.bodies id).isSome then none
    else
      let body := Shadowstep.originBody farFuture now upstreamTimeout 0
      some { σ with
        deadlines := σ.deadlines ++ [body.deadline]
        bodies := Function.update σ.bodies id (some body) }
  | .poll id now inner sleep =>
    if σ.panicked then none
    else
      (σ.bodies id).map fun body =>
        match body.pollNext now inner fun _ => sleep with
        | none => { σ with panicked := true }
        | some (_, polled) =>
          { σ with
            deadlines := if body.expired || body.waiting then σ.deadlines
              else σ.deadlines ++ [polled.deadline]
            bodies := Function.update σ.bodies id (some polled) }

/-- A poll that arms the deadline can add it to its reading of the clock. -/
def Representable (upstreamTimeout : Duration) (σ : Forwarding) : Deadlined → Prop
  | .poll id now _ _ => ∀ body, σ.bodies id = some body → body.expired = false →
      body.waiting = false → now.nanos + upstreamTimeout.nanos < 2 ^ 63 * nanosPerSec
  | _ => True

/-- Every body has the upstream timeout as its idle duration. -/
def Timed (upstreamTimeout : Duration) (σ : Forwarding) : Prop :=
  ∀ id body, σ.bodies id = some body → body.idle = upstreamTimeout

/-- A poll panics when it has to arm a deadline that cannot be added. -/
theorem pollNext_eq_none {α : Type} {body : IdleTimeout} {now : Instant} {inner : Poll (Option α)}
    {sleep : Instant → Bool} : body.pollNext now inner sleep = none ↔
      body.expired = false ∧ body.waiting = false ∧
        ¬ now.nanos + body.idle.nanos < 2 ^ 63 * nanosPerSec := by
  unfold IdleTimeout.pollNext IdleTimeout.arm
  cases expired : body.expired with
  | true => simp
  | false =>
      cases waiting : body.waiting with
      | true => simp
      | false => simp [Instant.checkedAdd_eq_none]

/-- A poll keeps the idle duration. -/
theorem pollNext_idle {α : Type} {body polled : IdleTimeout} {now : Instant}
    {inner : Poll (Option α)} {sleep : Instant → Bool} {answer : Poll (Option (Yielded α))}
    (h : body.pollNext now inner sleep = some (answer, polled)) : polled.idle = body.idle := by
  unfold IdleTimeout.pollNext at h
  split at h
  · obtain ⟨-, rfl⟩ := Prod.mk.inj (Option.some.inj h)
    rfl
  · obtain ⟨armed, arms, h⟩ := Option.map_eq_some_iff.mp h
    have same : armed.idle = body.idle := by
      rcases IdleTimeout.arm_eq_some.mp arms with ⟨-, rfl⟩ | ⟨-, _, -, rfl⟩ <;> rfl
    cases inner with
    | ready item =>
        obtain ⟨-, rfl⟩ := Prod.mk.inj h
        exact same
    | pending =>
        simp only at h
        split at h <;> obtain ⟨-, rfl⟩ := Prod.mk.inj h <;> exact same

section

variable {farFuture : Instant → Instant} {upstreamTimeout : Duration} {σ σ' : Forwarding}
  {e : Deadlined}

/-- One step panics exactly when it is a poll whose deadline cannot be added:
the other deadlines fall back to one that can. -/
theorem step_panicked (timed : Timed upstreamTimeout σ)
    (h : step farFuture upstreamTimeout σ e = some σ') :
    σ.panicked = false ∧ Timed upstreamTimeout σ' ∧
      (σ'.panicked = false ↔ Representable upstreamTimeout σ e) := by
  cases e with
  | sendToOrigin now | waitForLeader now =>
      simp only [step] at h
      split at h
      · cases h
      · rename_i running
        have running : σ.panicked = false := by simpa using running
        obtain rfl := Option.some.inj h
        exact ⟨running, timed, iff_of_true running trivial⟩
  | originBody id now =>
      simp only [step] at h
      split at h
      · cases h
      · rename_i running
        have running : σ.panicked = false := by simp_all
        obtain rfl := Option.some.inj h
        refine ⟨running, ?_, iff_of_true running trivial⟩
        intro id' body there
        rcases Runs.update_cases there with ⟨-, rfl⟩ | ⟨-, before⟩
        · rfl
        · exact timed id' body before
  | poll id now inner sleep =>
      simp only [step] at h
      split at h
      · cases h
      · rename_i running
        have running : σ.panicked = false := by simpa using running
        obtain ⟨body, here, h⟩ := Option.map_eq_some_iff.mp h
        -- the condition is about this body alone
        have about : Representable upstreamTimeout σ (.poll id now inner sleep) ↔
            ¬ (body.expired = false ∧ body.waiting = false ∧
              ¬ now.nanos + body.idle.nanos < 2 ^ 63 * nanosPerSec) := by
          simp only [Representable, here, Option.some.injEq, forall_eq', timed id body here]
          tauto
        refine ⟨running, ?_⟩
        cases polled : body.pollNext now inner fun _ => sleep with
        | none =>
            rw [polled] at h
            obtain rfl := h
            exact ⟨timed, iff_of_false (by simp) (about.not.mpr (not_not.mpr
              (pollNext_eq_none.mp polled)))⟩
        | some result =>
            obtain ⟨answer, next⟩ := result
            rw [polled] at h
            obtain rfl := h
            refine ⟨?_, iff_of_true running (about.mpr fun fails => ?_)⟩
            · intro id' body' there
              rcases Runs.update_cases there with ⟨-, rfl⟩ | ⟨-, before⟩
              · rw [pollNext_idle polled, timed id body here]
              · exact timed id' body' before
            · rw [pollNext_eq_none.mpr fails] at polled
              cases polled

/-- After a panic there is no further step. -/
theorem step_of_panicked (panicked : σ.panicked = true) :
    step farFuture upstreamTimeout σ e = none := by
  cases e <;> simp [step, panicked]

theorem panicked_run_iff {events : List Deadlined} (timed : Timed upstreamTimeout σ)
    (running : σ.panicked = false)
    (run : Runs.run (step farFuture upstreamTimeout) σ events = some σ') :
    σ'.panicked = false ↔ Runs.Along (step farFuture upstreamTimeout)
      (Representable upstreamTimeout) σ events := by
  induction events generalizing σ with
  | nil =>
      obtain rfl := Option.some.inj run
      exact iff_of_true running trivial
  | cons e rest ih =>
      obtain ⟨next, hstep, hrest⟩ := Runs.run_cons.mp run
      obtain ⟨-, timed', safe⟩ := step_panicked timed hstep
      rw [Runs.along_cons hstep, ← safe]
      cases panicked : next.panicked with
      | false =>
          rw [ih timed' panicked hrest]
          exact ⟨fun along => ⟨rfl, along⟩, fun both => both.2⟩
      | true =>
          -- the run ends where it panics
          cases rest with
          | nil =>
              obtain rfl := Option.some.inj hrest
              simp [panicked]
          | cons e' rest =>
              obtain ⟨_, hstep', -⟩ := Runs.run_cons.mp hrest
              rw [step_of_panicked panicked] at hstep'
              cases hstep'

end

/-- For every configured number of seconds: a run of deadlines does not panic
if and only if every poll that arms its deadline reads the clock less than
`2 ^ 63` seconds before the end of the timeout. -/
theorem no_panic_iff (farFuture : Instant → Instant) (secs : UInt64) (events : List Deadlined)
    (σ : Forwarding)
    (run : Runs.run (step farFuture (Duration.fromSecs secs)) start events = some σ) :
    σ.panicked = false ↔ Runs.Along (step farFuture (Duration.fromSecs secs))
      (Representable (Duration.fromSecs secs)) start events :=
  panicked_run_iff (fun _ _ there => by cases there) rfl run

/-- Thirty seconds, the default, at the first reading of the clock. -/
theorem no_panic_iff_example : ∃ σ, Runs.run (step id (Duration.fromSecs 30)) start
    [.sendToOrigin Instant.zero, .originBody 0 Instant.zero,
      .poll 0 Instant.zero .pending false] = some σ ∧ σ.panicked = false := by
  obtain ⟨σ, run, -⟩ := Option.map_eq_some_iff.mp
    (show (Runs.run (step id (Duration.fromSecs 30)) start
      [.sendToOrigin Instant.zero, .originBody 0 Instant.zero,
        .poll 0 Instant.zero .pending false]).map Forwarding.panicked = some false by
      decide +kernel)
  refine ⟨σ, run, (no_panic_iff id 30 _ σ run).mpr ?_⟩
  refine (Runs.along_cons rfl).mpr ⟨trivial, (Runs.along_cons rfl).mpr ⟨trivial, ?_, ?_⟩⟩
  · rintro body ⟨⟩ - -
    decide
  · intro σ' _
    trivial

/-- The largest timeout the command line accepts: tokio's deadlines fall
back, and the first poll of the first body panics. -/
theorem largest_timeout_panics : ∃ σ,
    Runs.run (step id (Duration.fromSecs (UInt64.ofNat (2 ^ 64 - 1)))) start
      [.sendToOrigin Instant.zero, .originBody 0 Instant.zero,
        .poll 0 Instant.zero .pending false] = some σ ∧ σ.panicked = true := by
  obtain ⟨σ, run, panicked⟩ := Option.map_eq_some_iff.mp
    (show (Runs.run (step id (Duration.fromSecs (UInt64.ofNat (2 ^ 64 - 1)))) start
      [.sendToOrigin Instant.zero, .originBody 0 Instant.zero,
        .poll 0 Instant.zero .pending false]).map Forwarding.panicked = some true by
      decide +kernel)
  exact ⟨σ, run, panicked⟩

end Forwarding

end Shadowstep
