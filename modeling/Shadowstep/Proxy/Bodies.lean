import Shadowstep.Cache.Concurrent
import Shadowstep.Proxy.Forward

/-!
# Whole bodies

A response is stored once its whole body is there. In the foreground the body
passes through a `Tee`, which copies it and hands the copy to the callback; a
background revalidation collects the body first. `handed` is what the copying
comes to, chunk by chunk, and nothing else is ever given to the store.

* `polls_handed` — the `Tee` does what `handed` says, whatever the store and
  the clock are at each poll;
* `tee_stores_whole_bodies` — the callback gets whole bodies, once;
* `foreground_background_agree` — both paths store the same response, or none.
-/

namespace Shadowstep

open Rust

/-! ## A consumer of the stream -/

/-- The store and the clock as a call finds them. -/
structure Moment where
  store : Store
  now : Clock

namespace Tee

/-- What a call on a `Tee` did. -/
structure Call where
  before : Moment
  after : Store
  effects : List Effect

/-- `Tee::poll_next`, which passes the inner stream's item on. -/
def pollNext (id : Nat) (tee : Tee) (item : Item) (moment : Moment) : Item × Call × Tee :=
  let (store, effects, next) := tee.poll id moment.store item moment.now
  (item, ⟨moment, store, effects⟩, next)

/-- The polls of a consumer: what it is given, and what each call did. -/
def polls (id : Nat) : Tee → List (Item × Moment) → List Item × List Call × Tee
  | tee, [] => ([], [], tee)
  | tee, (item, moment) :: rest =>
    let (yielded, call, next) := tee.pollNext id item moment
    let (items, calls, last) := polls id next rest
    (yielded :: items, call :: calls, last)

/-- Whether a call ran the callback. -/
def Call.wrote (call : Call) : Bool :=
  call.effects.any fun
    | .wrote .. => true
    | _ => false

/-- The call left the store alone. -/
structure Call.Idle (call : Call) : Prop where
  store : call.after = call.before.store
  quiet : call.wrote = false

/-- The call ran the callback of `copy` with a body. -/
def Call.Finishes (id : Nat) (copy : BodyCopy) (body : Bytes) (call : Call) : Prop :=
  let result := copy.storing.finish (.request id) call.before.store copy.status copy.headers body
    call.before.now
  call.after = result.1 ∧ call.effects = result.2 ++ released id copy.storing.flight

/-- What a call did, given what it was to hand over. -/
def Call.Does (id : Nat) (copy : BodyCopy) (call : Call) : Option Bytes → Prop
  | some body => call.Finishes id copy body
  | none => call.Idle

theorem Call.Finishes.wrote {id : Nat} {copy : BodyCopy} {body : Bytes} {call : Call}
    (finishes : call.Finishes id copy body) : call.wrote = true := by
  rw [Call.wrote, finishes.2]
  rfl

/-! ## What is handed over -/

/-- What an item makes the `Tee` hand to the callback, and the buffer after
it. A `Tee` without a buffer copies no more. -/
def hand (length : Option Nat) (limit : Nat) : Option Bytes → Item → Option Bytes × Option Bytes
  | none, _ => (none, none)
  | some buffer, .chunk chunk =>
    if limit < buffer.length + chunk.length then (none, none)
    else if length = some (buffer ++ chunk).length then (some (buffer ++ chunk), none)
    else (none, some (buffer ++ chunk))
  | some _, .failed => (none, none)
  | some buffer, .ended => (if length.all (· = buffer.length) then some buffer else none, none)

/-- What each of the items makes it hand over. -/
def handed (length : Option Nat) (limit : Nat) : Option Bytes → List Item → List (Option Bytes)
  | _, [] => []
  | buffer, item :: rest =>
    (hand length limit buffer item).1 :: handed length limit (hand length limit buffer item).2 rest

/-- A `Tee` with this buffer. -/
def copying (length : Option Nat) (copy : BodyCopy) (buffer : Option Bytes) : Tee :=
  ⟨length, buffer.map fun buffer => { copy with buffer := buffer }⟩

/-! ## The `Tee` hands over what `hand` says -/

theorem idle_released {moment : Moment} (id : Nat) (flight : Option Flight) :
    Call.Idle ⟨moment, moment.store, released id flight⟩ :=
  ⟨rfl, by cases flight <;> rfl⟩

theorem idle_nil {moment : Moment} : Call.Idle ⟨moment, moment.store, []⟩ := ⟨rfl, rfl⟩

/-- The callback's check of the length lets a buffer through or drops it. -/
theorem finish_does (id : Nat) (length : Option Nat) (copy : BodyCopy) (buffer : Bytes)
    (moment : Moment) : ∃ after effects,
      (copying length copy (some buffer)).finish id moment.store moment.now =
        (after, effects, copying length copy none) ∧
      Call.Does id copy ⟨moment, after, effects⟩
        (if length.all (· = buffer.length) then some buffer else none) := by
  cases matching : length.all (· = buffer.length) with
  | true =>
    refine ⟨_, _, by simp only [copying, Option.map_some, finish, matching, if_true]; rfl, ?_⟩
    exact ⟨rfl, rfl⟩
  | false =>
    refine ⟨_, _, by
      simp only [copying, Option.map_some, finish, matching, Bool.false_eq_true, if_false]; rfl, ?_⟩
    exact idle_released id copy.storing.flight

theorem poll_chunk (id : Nat) (length : Option Nat) (copy : BodyCopy) (buffer chunk : Bytes)
    (moment : Moment) :
    (copying length copy (some buffer)).poll id moment.store (.chunk chunk) moment.now =
      if copy.storing.limit < buffer.length + chunk.length then
        (moment.store, released id copy.storing.flight, copying length copy none)
      else if length = some (buffer ++ chunk).length then
        (copying length copy (some (buffer ++ chunk))).finish id moment.store moment.now
      else (moment.store, [], copying length copy (some (buffer ++ chunk))) := rfl

/-- One poll. -/
theorem pollNext_hand (id : Nat) (length : Option Nat) (copy : BodyCopy) (buffer : Option Bytes)
    (item : Item) (moment : Moment) : ∃ call,
      (copying length copy buffer).pollNext id item moment =
        (item, call, copying length copy (hand length copy.storing.limit buffer item).2) ∧
      call.Does id copy (hand length copy.storing.limit buffer item).1 := by
  cases buffer with
  | none =>
    -- nothing is copied any more
    refine ⟨⟨moment, moment.store, []⟩, ?_, idle_nil⟩
    cases item <;> rfl
  | some buffer =>
    cases item with
    | failed => exact ⟨_, rfl, idle_released id copy.storing.flight⟩
    | ended =>
      rcases finish_does id length copy buffer moment with ⟨after, effects, done, does⟩
      refine ⟨⟨moment, after, effects⟩, ?_, does⟩
      simp only [pollNext, poll, done]
      rfl
    | chunk chunk =>
      have polled := poll_chunk id length copy buffer chunk moment
      by_cases past : copy.storing.limit < buffer.length + chunk.length
      · rw [if_pos past] at polled
        simp only [pollNext, polled, hand, if_pos past]
        exact ⟨_, rfl, idle_released id copy.storing.flight⟩
      rw [if_neg past] at polled
      by_cases whole : length = some (buffer ++ chunk).length
      · rcases finish_does id length copy (buffer ++ chunk) moment with
          ⟨after, effects, done, does⟩
        have matching : length.all (· = (buffer ++ chunk).length) = true := by
          rw [whole]
          exact decide_eq_true rfl
        rw [if_pos matching] at does
        rw [if_pos whole, done] at polled
        simp only [pollNext, polled, hand, if_neg past, if_pos whole]
        exact ⟨_, rfl, does⟩
      · rw [if_neg whole] at polled
        simp only [pollNext, polled, hand, if_neg past, if_neg whole]
        exact ⟨_, rfl, idle_nil⟩

/-- All polls: the consumer is given the items, and the callback what is
handed over. -/
theorem polls_handed (id : Nat) (length : Option Nat) (copy : BodyCopy) (buffer : Option Bytes)
    (schedule : List (Item × Moment)) : ∃ calls last,
      polls id (copying length copy buffer) schedule =
        (schedule.map Prod.fst, calls, copying length copy last) ∧
      List.Forall₂ (Call.Does id copy) calls
        (handed length copy.storing.limit buffer (schedule.map Prod.fst)) := by
  induction schedule generalizing buffer with
  | nil => exact ⟨[], buffer, rfl, .nil⟩
  | cons poll rest ih =>
    rcases poll with ⟨item, moment⟩
    rcases pollNext_hand id length copy buffer item moment with ⟨call, polled, does⟩
    rcases ih (hand length copy.storing.limit buffer item).2 with ⟨calls, last, later, all⟩
    refine ⟨call :: calls, last, ?_, .cons does all⟩
    simp only [polls, polled, later]
    rfl

/-- A `Tee` without a copy does nothing but pass its items on. -/
theorem polls_idle {id : Nat} {tee : Tee} (gone : tee.copy = none)
    {schedule : List (Item × Moment)} : ∀ call ∈ (polls id tee schedule).2.1, call.Idle := by
  induction schedule generalizing tee with
  | nil => exact fun _ h => by cases h
  | cons poll rest ih =>
    rcases poll with ⟨item, moment⟩
    obtain ⟨next, polled, kept⟩ : ∃ next, tee.pollNext id item moment =
        (item, ⟨moment, moment.store, []⟩, next) ∧ next.copy = none := by
      cases item with
      | chunk => exact ⟨tee, by simp only [pollNext, Tee.poll, gone], gone⟩
      | failed => exact ⟨{ tee with copy := none },
          by simp only [pollNext, Tee.poll, discard, gone, Option.elim_none], rfl⟩
      | ended => exact ⟨tee, by simp only [pollNext, Tee.poll, finish, gone], gone⟩
    simp only [polls, polled]
    intro call member
    rcases List.mem_cons.mp member with rfl | later
    · exact idle_nil
    · exact ih kept call later

/-! ## A stream from its construction to its drop -/

/-- How the stream of a body comes to its end. -/
inductive Ending where
  | ended
  | failed
  /-- the consumer drops it -/
  | dropped
deriving DecidableEq

def Ending.items : Ending → List Item
  | .ended => [.ended]
  | .failed => [.failed]
  | .dropped => []

/-- What the inner stream yields. -/
def bodyItems (chunks : List Bytes) (ending : Ending) : List Item :=
  chunks.map .chunk ++ ending.items

/-- The life of a `Tee`: what its consumer is given, what each call did, and
the `Tee` after its drop. -/
def stream (id : Nat) (length : Option Nat) (copy : Option BodyCopy) (created : Moment)
    (schedule : List (Item × Moment)) (dropped : Moment) : List Item × List Call × Tee :=
  let (store, effects, tee) := Tee.new id created.store length copy created.now
  let (items, calls, last) := polls id tee schedule
  let (released, gone) := last.discard id
  (items, ⟨created, store, effects⟩ :: calls ++ [⟨dropped, dropped.store, released⟩], gone)

/-- What the calls of a stream hand over. -/
def handedInAll (length : Option Nat) (limit : Nat) (items : List Item) : List (Option Bytes) :=
  (if length = some 0 then some [] else none) ::
    handed length limit (if length = some 0 then none else some []) items ++ [none]

/-- A copy that has nothing in its buffer. -/
def emptyCopy (storing : Storing) (status : StatusCode) (headers : Fields) : BodyCopy :=
  ⟨[], storing, status, headers⟩

/-- The drop of a `Tee`. -/
theorem discard_idle (id : Nat) (tee : Tee) (moment : Moment) :
    Call.Idle ⟨moment, moment.store, (tee.discard id).1⟩ := by
  unfold discard
  cases tee.copy with
  | none => exact idle_nil
  | some copy => exact idle_released id copy.storing.flight

theorem stream_handed (id : Nat) (length : Option Nat) (storing : Storing) (status : StatusCode)
    (headers : Fields) (created dropped : Moment) (schedule : List (Item × Moment)) :
    let copy := emptyCopy storing status headers
    let result := stream id length (some copy) created schedule dropped
    result.1 = schedule.map Prod.fst ∧ result.2.2.copy = none ∧
      List.Forall₂ (Call.Does id copy) result.2.1
        (handedInAll length storing.limit (schedule.map Prod.fst)) := by
  -- an empty body is whole as soon as the stream is made
  have made : ∃ after effects, Tee.new id created.store length
        (some (emptyCopy storing status headers)) created.now =
      (after, effects, copying length (emptyCopy storing status headers)
        (if length = some 0 then none else some [])) ∧
      Call.Does id (emptyCopy storing status headers) ⟨created, after, effects⟩
        (if length = some 0 then some [] else none) := by
    by_cases zero : length = some 0
    · rcases finish_does id length (emptyCopy storing status headers) [] created with
        ⟨after, effects, done, does⟩
      have matching : length.all (· = ([] : Bytes).length) = true := by
        rw [zero]
        rfl
      rw [if_pos matching] at does
      simp only [if_pos zero]
      refine ⟨after, effects, ?_, does⟩
      rw [Tee.new, if_pos zero]
      exact done
    · simp only [if_neg zero]
      refine ⟨created.store, [], ?_, idle_nil⟩
      rw [Tee.new, if_neg zero]
      rfl
  rcases made with ⟨after, effects, made, does⟩
  rcases polls_handed id length (emptyCopy storing status headers)
    (if length = some 0 then none else some []) schedule with ⟨calls, last, polled, all⟩
  simp only [stream, made, polled]
  exact ⟨trivial, rfl, .cons does (List.rel_append all (.cons (discard_idle id _ dropped) .nil))⟩

/-! ## What a stream hands over -/

theorem mem_handed_none {length : Option Nat} {limit : Nat} {items : List Item}
    {handedOver : Option Bytes} (h : handedOver ∈ handed length limit none items) :
    handedOver = none := by
  induction items with
  | nil => cases h
  | cons item rest ih => exact (List.mem_cons.mp h).elim id ih

/-- When the callback is due: with a declared length as soon as the chunks
have it, and else at the end. -/
def DueAt (length : Option Nat) (chunks : List Bytes) (ending : Ending) (k : Nat) : Prop :=
  match length with
  | none => ending = .ended ∧ k = chunks.length + 1
  | some length => (chunks.take k).flatten.length = length

/-- Whether the body becomes whole within the limit. -/
def Whole (length : Option Nat) (limit : Nat) (chunks : List Bytes) (ending : Ending) : Prop :=
  match length with
  | none => ending = .ended ∧ chunks.flatten.length ≤ limit
  | some length => ∃ k, (chunks.take k).flatten.length = length

/-- Three things that a chunk can come to. -/
theorem hand_chunk (length : Option Nat) (limit : Nat) (buffer chunk : Bytes) :
    (limit < buffer.length + chunk.length ∧
        hand length limit (some buffer) (.chunk chunk) = (none, none)) ∨
      (buffer.length + chunk.length ≤ limit ∧ length = some (buffer ++ chunk).length ∧
        hand length limit (some buffer) (.chunk chunk) = (some (buffer ++ chunk), none)) ∨
      (buffer.length + chunk.length ≤ limit ∧ length ≠ some (buffer ++ chunk).length ∧
        hand length limit (some buffer) (.chunk chunk) = (none, some (buffer ++ chunk))) := by
  by_cases past : limit < buffer.length + chunk.length
  · exact .inl ⟨past, if_pos past⟩
  by_cases whole : length = some (buffer ++ chunk).length
  · exact .inr (.inl ⟨Nat.le_of_not_lt past, whole, by rw [hand, if_neg past, if_pos whole]⟩)
  · exact .inr (.inr ⟨Nat.le_of_not_lt past, whole, by rw [hand, if_neg past, if_neg whole]⟩)

/-- A hand-over comes when it is due, and has all the chunks so far. -/
theorem handed_due {length : Option Nat} {limit : Nat} {chunks : List Bytes} {ending : Ending}
    {buffer body : Bytes} {k : Nat} (within : buffer.length ≤ limit)
    (unreached : length ≠ some buffer.length)
    (h : (handed length limit (some buffer) (bodyItems chunks ending))[k]? = some (some body)) :
    body = buffer ++ (chunks.take (k + 1)).flatten ∧ body.length ≤ limit ∧
      (length = none → ending = .ended ∧ k = chunks.length) ∧
      ∀ declared, length = some declared → body.length = declared := by
  induction chunks generalizing buffer k with
  | nil =>
    -- only the end of the stream can hand the buffer over
    cases ending with
    | failed => cases k <;> cases h
    | dropped => cases h
    | ended =>
      cases k with
      | succ k => cases h
      | zero =>
        cases length with
        | none =>
          obtain rfl : buffer = body := Option.some.inj (Option.some.inj h)
          exact ⟨(List.append_nil _).symm, within, fun _ => ⟨rfl, rfl⟩, fun _ h => (by cases h)⟩
        | some length =>
          have differs : decide (length = buffer.length) = false :=
            decide_eq_false fun same => unreached (congrArg some same)
          simp [bodyItems, Ending.items, handed, hand, differs] at h
  | cons chunk rest ih =>
    have items : bodyItems (chunk :: rest) ending = .chunk chunk :: bodyItems rest ending := rfl
    rw [items, handed] at h
    rcases hand_chunk length limit buffer chunk with
      ⟨-, said⟩ | ⟨fits, whole, said⟩ | ⟨fits, unreached', said⟩
    · rw [said] at h
      have member := List.mem_of_getElem? h
      rcases List.mem_cons.mp member with same | later
      · cases same
      · cases mem_handed_none later
    · rw [said] at h
      cases k with
      | zero =>
        obtain rfl : buffer ++ chunk = body := Option.some.inj (Option.some.inj h)
        refine ⟨by simp, by simpa using fits, fun none => ?_, fun declared same => ?_⟩
        · cases none.symm.trans whole
        · exact Option.some.inj (whole.symm.trans same)
      | succ k =>
        cases mem_handed_none (List.mem_of_getElem? (List.getElem?_cons_succ ▸ h))
    · rw [said] at h
      cases k with
      | zero => cases h
      | succ k =>
        rw [List.getElem?_cons_succ] at h
        rcases ih (by simpa using fits) unreached' h with ⟨rfl, small, due⟩
        refine ⟨by simp, small, fun none => ?_, due.2⟩
        exact ⟨(due.1 none).1, by rw [(due.1 none).2, List.length_cons]⟩

/-- A body that becomes whole is handed over. -/
theorem exists_handed {length : Option Nat} {limit : Nat} {chunks : List Bytes} {ending : Ending}
    {buffer : Bytes} (unreached : length ≠ some buffer.length)
    (undeclared : length = none → ending = .ended ∧
      buffer.length + chunks.flatten.length ≤ limit)
    (declared : ∀ declared, length = some declared → declared ≤ limit ∧
      ∃ k, buffer.length + (chunks.take k).flatten.length = declared) :
    ∃ body, some body ∈ handed length limit (some buffer) (bodyItems chunks ending) := by
  induction chunks generalizing buffer with
  | nil =>
    cases length with
    | none =>
      rcases undeclared rfl with ⟨rfl, -⟩
      exact ⟨buffer, List.mem_cons_self⟩
    | some length =>
      rcases declared length rfl with ⟨-, k, same⟩
      rw [List.take_nil, List.flatten_nil, List.length_nil] at same
      exact absurd (congrArg some same.symm) unreached
  | cons chunk rest ih =>
    have items : bodyItems (chunk :: rest) ending = .chunk chunk :: bodyItems rest ending := rfl
    rw [items, handed]
    rcases hand_chunk length limit buffer chunk with
      ⟨past, said⟩ | ⟨fits, -, said⟩ | ⟨fits, unreached', said⟩
    · -- a whole body never passes the limit before it is whole
      exfalso
      cases length with
      | none =>
        have := (undeclared rfl).2
        rw [List.flatten_cons, List.length_append] at this
        omega
      | some length =>
        rcases declared length rfl with ⟨small, k, same⟩
        cases k with
        | zero => exact unreached (congrArg some same.symm)
        | succ k =>
          rw [List.take_succ_cons, List.flatten_cons, List.length_append] at same
          omega
    · rw [said]
      exact ⟨buffer ++ chunk, List.mem_cons_self⟩
    · -- the rest makes the body whole
      rw [said]
      have later : ∃ body, some body ∈
          handed length limit (some (buffer ++ chunk)) (bodyItems rest ending) := by
        refine ih unreached' (fun none => ?_) fun length hlength => ?_
        · have := (undeclared none).2
          rw [List.flatten_cons, List.length_append] at this
          refine ⟨(undeclared none).1, ?_⟩
          rw [List.length_append]
          omega
        · rcases declared length hlength with ⟨small, k, same⟩
          cases k with
          | zero => exact absurd (hlength.trans (congrArg some same.symm)) unreached
          | succ k =>
            rw [List.take_succ_cons, List.flatten_cons, List.length_append] at same
            refine ⟨small, k, ?_⟩
            rw [List.length_append]
            omega
      rcases later with ⟨body, member⟩
      exact ⟨body, List.mem_cons_of_mem _ member⟩

/-- Without a copy nothing is handed over. -/
theorem countP_handed_none (length : Option Nat) (limit : Nat) (items : List Item) :
    (handed length limit none items).countP Option.isSome = 0 := by
  rw [List.countP_eq_zero]
  intro handedOver member
  rw [mem_handed_none member]
  exact Bool.false_ne_true

/-- There is one hand-over at most. -/
theorem countP_handed_le (length : Option Nat) (limit : Nat) (buffer : Option Bytes)
    (items : List Item) : (handed length limit buffer items).countP Option.isSome ≤ 1 := by
  induction items generalizing buffer with
  | nil => exact Nat.zero_le 1
  | cons item rest ih =>
    rw [handed, List.countP_cons]
    cases said : (hand length limit buffer item).1 with
    | none => simpa using ih (hand length limit buffer item).2
    | some body =>
      -- what has been handed over is not copied any more
      have stops : (hand length limit buffer item).2 = none := by
        cases buffer with
        | none => rfl
        | some buffer =>
          cases item with
          | chunk chunk =>
            rcases hand_chunk length limit buffer chunk with ⟨-, h⟩ | ⟨-, -, h⟩ | ⟨-, -, h⟩ <;>
              rw [h] at said ⊢
            cases said
          | failed => rfl
          | ended => rfl
      rw [stops, countP_handed_none]
      simp

/-! ## The whole stream -/

theorem handedInAll_due {length : Option Nat} {limit : Nat} {chunks : List Bytes}
    {ending : Ending} {k : Nat} {body : Bytes}
    (h : (handedInAll length limit (bodyItems chunks ending))[k]? = some (some body)) :
    body = (chunks.take k).flatten ∧ DueAt length chunks ending k ∧ body.length ≤ limit := by
  rw [handedInAll, List.cons_append] at h
  by_cases zero : length = some 0
  · -- an empty body is whole when the stream is made
    rw [if_pos zero, if_pos zero] at h
    cases k with
    | zero =>
      obtain rfl := Option.some.inj (Option.some.inj h)
      rw [zero]
      exact ⟨rfl, rfl, Nat.zero_le _⟩
    | succ k =>
      rcases List.mem_append.mp (List.mem_of_getElem? h) with member | member
      · cases mem_handed_none member
      · cases List.mem_singleton.mp member
  rw [if_neg zero, if_neg zero] at h
  cases k with
  | zero => cases h
  | succ k =>
    rw [List.getElem?_cons_succ, List.getElem?_append] at h
    split at h
    case isFalse => cases List.mem_singleton.mp (List.mem_of_getElem? h)
    case isTrue =>
      rcases handed_due (Nat.zero_le limit) zero h with ⟨same, small, undeclared, declared⟩
      refine ⟨same, ?_, small⟩
      cases length with
      | none => exact ⟨(undeclared rfl).1, congrArg _ (undeclared rfl).2⟩
      | some length =>
        show (chunks.take (k + 1)).flatten.length = length
        rw [← declared length rfl, same, List.nil_append]

theorem exists_handedInAll {length : Option Nat} {limit : Nat} {chunks : List Bytes}
    {ending : Ending} (within : ∀ declared, length = some declared → declared ≤ limit)
    (whole : Whole length limit chunks ending) :
    ∃ body, some body ∈ handedInAll length limit (bodyItems chunks ending) := by
  by_cases zero : length = some 0
  · rw [handedInAll, if_pos zero]
    exact ⟨[], List.mem_cons_self⟩
  · rw [handedInAll, if_neg zero, if_neg zero]
    have handed : ∃ body, some body ∈ handed length limit (some []) (bodyItems chunks ending) := by
      refine exists_handed zero (fun none => ?_) fun declared same => ?_
      · subst none
        exact ⟨whole.1, by simpa using whole.2⟩
      · subst same
        rcases whole with ⟨k, due⟩
        exact ⟨within declared rfl, k, by simpa using due⟩
    rcases handed with ⟨body, member⟩
    exact ⟨body, List.mem_cons_of_mem _ (List.mem_append_left _ member)⟩

theorem countP_handedInAll_le (length : Option Nat) (limit : Nat) (items : List Item) :
    (handedInAll length limit items).countP Option.isSome ≤ 1 := by
  rw [handedInAll, List.cons_append, List.countP_cons, List.countP_append]
  by_cases zero : length = some 0
  · rw [if_pos zero, if_pos zero, countP_handed_none]
    simp
  · rw [if_neg zero, if_neg zero]
    simpa using countP_handed_le length limit (some []) items

/-! ## What was handed over is what was done -/

theorem Call.Does.wrote_eq {id : Nat} {copy : BodyCopy} {call : Call} {handedOver : Option Bytes}
    (does : call.Does id copy handedOver) : call.wrote = handedOver.isSome := by
  cases handedOver with
  | none => exact does.quiet
  | some body => exact does.wrote

theorem countP_wrote {id : Nat} {copy : BodyCopy} {calls : List Call}
    {all : List (Option Bytes)} (done : List.Forall₂ (Call.Does id copy) calls all) :
    calls.countP Call.wrote = all.countP Option.isSome := by
  induction done with
  | nil => rfl
  | cons does _ ih => rw [List.countP_cons, List.countP_cons, ih, does.wrote_eq]

theorem done_at {id : Nat} {copy : BodyCopy} {calls : List Call} {all : List (Option Bytes)}
    (done : List.Forall₂ (Call.Does id copy) calls all) {k : Nat} {call : Call}
    (h : calls[k]? = some call) :
    ∃ handedOver, all[k]? = some handedOver ∧ call.Does id copy handedOver := by
  induction done generalizing k with
  | nil => cases h
  | cons does _ ih =>
    cases k with
    | zero =>
      obtain rfl := Option.some.inj h
      exact ⟨_, rfl, does⟩
    | succ k => exact ih h

theorem exists_wrote {id : Nat} {copy : BodyCopy} {calls : List Call} {all : List (Option Bytes)}
    (done : List.Forall₂ (Call.Does id copy) calls all) :
    (∃ call ∈ calls, call.wrote = true) ↔ ∃ body, some body ∈ all := by
  rw [← List.countP_pos_iff, countP_wrote done, List.countP_pos_iff]
  constructor
  · rintro ⟨handedOver, member, given⟩
    rcases Option.isSome_iff_exists.mp given with ⟨body, rfl⟩
    exact ⟨body, member⟩
  · rintro ⟨body, member⟩
    exact ⟨some body, member, rfl⟩

/-- The consumer gets the inner items, and the callback each body that becomes
whole within the limit, once and when it is due. -/
structure StoresWhole (id : Nat) (length : Option Nat) (copy : BodyCopy) (chunks : List Bytes)
    (ending : Ending) (items : List Item) (calls : List Call) (gone : Tee) : Prop where
  yields : items = bodyItems chunks ending
  /-- the construction is the call number 0, and each item has the next one -/
  only : ∀ k call, calls[k]? = some call → call.Idle ∨
    call.Finishes id copy (chunks.take k).flatten ∧ DueAt length chunks ending k
  once : calls.countP Call.wrote ≤ 1
  iff : (∃ call ∈ calls, call.wrote = true) ↔ Whole length copy.storing.limit chunks ending
  dropped : gone.copy = none

theorem tee_stores_whole_bodies (id : Nat) (length : Option Nat) (storing : Storing)
    (status : StatusCode) (headers : Fields) (chunks : List Bytes) (ending : Ending)
    (created dropped : Moment) (schedule : List (Item × Moment))
    (body : schedule.map Prod.fst = bodyItems chunks ending)
    (within : ∀ declared, length = some declared → declared ≤ storing.limit) :
    let copy := emptyCopy storing status headers
    let result := stream id length (some copy) created schedule dropped
    StoresWhole id length copy chunks ending result.1 result.2.1 result.2.2 := by
  rcases stream_handed id length storing status headers created dropped schedule with
    ⟨yields, gone, done⟩
  rw [body] at yields done
  constructor
  · exact yields
  · intro k call here
    rcases done_at done here with ⟨handedOver, there, does⟩
    cases handedOver with
    | none => exact .inl does
    | some bytes =>
      rcases handedInAll_due there with ⟨rfl, due, -⟩
      exact .inr ⟨does, due⟩
  · rw [countP_wrote done]
    exact countP_handedInAll_le ..
  · rw [exists_wrote done]
    refine ⟨?_, exists_handedInAll within⟩
    rintro ⟨bytes, member⟩
    rcases List.mem_iff_getElem?.mp member with ⟨k, there⟩
    rcases handedInAll_due there with ⟨rfl, due, small⟩
    cases length with
    | none =>
      rcases due with ⟨rfl, rfl⟩
      rw [List.take_of_length_le (Nat.le_succ _)] at small
      exact ⟨rfl, small⟩
    | some length => exact ⟨k, due⟩
  · exact gone

/-! ## Three chunks, one of them empty -/

def threeBytes : List Bytes := [[1, 2], [], [3]]

def exampleMoment : Moment := ⟨Store.new 1 (Duration.fromSecs 3600), exampleClock⟩

def exampleStoring : Storing :=
  ⟨8, examplePrimary, ⟨[], []⟩, examplePolicy, ⟨germanRequest [], .ok, [], exampleClock⟩, none⟩

def eachAt (moment : Moment) (items : List Item) : List (Item × Moment) :=
  items.map fun item => (item, moment)

theorem tee_stores_whole_bodies_example :
    let copy := emptyCopy exampleStoring .ok []
    let result := stream 0 (some 3) (some copy) exampleMoment
      (eachAt exampleMoment (bodyItems threeBytes .dropped)) exampleMoment
    StoresWhole 0 (some 3) copy threeBytes .dropped result.1 result.2.1 result.2.2 := by
  refine tee_stores_whole_bodies 0 (some 3) exampleStoring .ok [] threeBytes .dropped
    exampleMoment exampleMoment _ rfl ?_
  rintro _ ⟨⟩
  decide

end Tee

/-! ## Foreground and background -/

/-- The arguments of the `insert_response` that a call made. -/
structure Tee.Call.Inserts (call : Tee.Call) (insertion : Insertion) : Prop where
  after : call.after = (call.before.store.insertResponse insertion.primary insertion.vary
    insertion.policy insertion.status insertion.headers insertion.body call.before.now).2
  wrote : call.wrote = true

/-- One call stored a response, and the others left the store alone. -/
def InsertsOnce (calls : List Tee.Call) (insertion : Insertion) : Prop :=
  ∃ before call after, calls = before ++ call :: after ∧ call.Inserts insertion ∧
    ∀ other ∈ before ++ after, other.Idle

/-- What `collect` makes of a body. -/
def collect (chunks : List Bytes) (ending : Tee.Ending) : Option Bytes :=
  if ending = .ended then some chunks.flatten else none

/-- How hyper reads a body of a declared length: it ends after as many bytes,
and does not fail once they are there. -/
def Framed (head : Head) (chunks : List Bytes) (ending : Tee.Ending) : Prop :=
  ∀ length, contentLength head = some length →
    (ending = .ended → chunks.flatten.length = length) ∧
      (ending = .failed → ∀ k, (chunks.take k).flatten.length ≠ length)

section

variable [HttpDate]

/-- The calls of a request that streams the origin's response to its client. -/
def foreground (id : Nat) (exchange : Exchange) (req : HttpRequest) (head : Head)
    (answered : Moment) (schedule : List (Item × Moment)) (dropped : Moment) : List Tee.Call :=
  let outcome := exchange.forwarded id answered.store req head answered.now
  match outcome.stage with
  | .streams tee =>
    let (_, calls, last) := tee.polls id schedule
    ⟨answered, outcome.store, outcome.effects⟩ :: calls ++
      [⟨dropped, dropped.store, (last.discard id).1⟩]
  | _ => [⟨answered, outcome.store, outcome.effects⟩]

/-- The calls of a task that collects the response's body. -/
def background (id : Nat) (task : Task) (head : Head) (answered : Moment) (body : Option Bytes)
    (collected : Moment) : List Tee.Call :=
  let (store, effects, stage) := task.refresh id answered.store head answered.now
  match stage with
  | .collects storing head =>
    let (after, finished) :=
      Task.collected id collected.store storing head body collected.now
    [⟨answered, store, effects⟩, ⟨collected, after, finished⟩]
  | _ => [⟨answered, store, effects⟩]

/-! ### The plan -/

/-- How a `GET` and its response are to be stored. -/
def planned (store : Store) (req : HttpRequest) (head : Head) (now : Clock) : Option Storing :=
  (storable (.new req.method req.headers) req.headers head.status head.map now).map
    fun (policy, vary) =>
      ⟨store.maxEntry, req.cacheKey, vary, policy, ⟨req, head.status, head.map, now⟩, none⟩

theorem storePlan_of_get {req : HttpRequest} (isGet : req.method = .get) (actor : Actor)
    (store : Store) (head : Head) (now : Clock) :
    storePlan actor store req head now = (planned store req head now, store, []) := by
  simp only [storePlan, isGet, Method.isSafe, Bool.not_true, Bool.false_and, Bool.false_eq_true,
    if_false, planned]

/-- What the callback of a storing is called with. -/
def Storing.insertion (storing : Storing) (head : Head) (body : Bytes) : Insertion :=
  ⟨storing.primary, storing.vary, storing.policy, head.status,
    storedFields (forwardableFields head), body⟩

/-! ### The foreground -/

omit [HttpDate] in
theorem idle_of_done {id : Nat} {copy : BodyCopy} {calls : List Tee.Call}
    {all : List (Option Bytes)} (done : List.Forall₂ (Tee.Call.Does id copy) calls all)
    (nothing : ∀ body, some body ∉ all) : ∀ call ∈ calls, call.Idle := by
  induction done with
  | nil => exact fun _ h => by cases h
  | @cons call handedOver calls all does done ih =>
    intro other member
    rcases List.mem_cons.mp member with rfl | later
    · cases handedOver with
      | none => exact does
      | some body => exact absurd List.mem_cons_self (nothing body)
    · exact ih (fun body h => nothing body (List.mem_cons_of_mem _ h)) other later

omit [HttpDate] in
theorem insertsOnce_of_done {id : Nat} {storing : Storing} {head : Head} {calls : List Tee.Call}
    {all : List (Option Bytes)} {body : Bytes}
    (done : List.Forall₂ (Tee.Call.Does id
      (Tee.emptyCopy storing head.status (storedFields (forwardableFields head)))) calls all)
    (member : some body ∈ all) (once : all.countP Option.isSome ≤ 1) :
    InsertsOnce calls (storing.insertion head body) := by
  induction done with
  | nil => cases member
  | @cons call handedOver calls all does done ih =>
    rw [List.countP_cons] at once
    cases handedOver with
    | none =>
      rcases ih ((List.mem_cons.mp member).resolve_left (by simp)) (by simpa using once) with
        ⟨before, found, after, rfl, inserts, others⟩
      refine ⟨call :: before, found, after, rfl, inserts, fun other h => ?_⟩
      exact (List.mem_cons.mp h).elim (fun same => same ▸ does) (others other)
    | some given =>
      have rest : ∀ bytes, some bytes ∉ all := by
        intro bytes later
        have : 0 < all.countP Option.isSome := List.countP_pos_iff.mpr ⟨_, later, rfl⟩
        simp only [Option.isSome_some, if_true] at once
        omega
      obtain rfl : body = given :=
        Option.some.inj ((List.mem_cons.mp member).resolve_right (rest body))
      refine ⟨[], call, calls, rfl, ⟨?_, does.wrote⟩, idle_of_done done rest⟩
      exact does.1

theorem foreground_of_not_stored {req : HttpRequest} {head : Head} {answered : Moment}
    (isGet : req.method = .get) (id : Nat) (exchange : Exchange)
    (unstored : ∀ storing, planned answered.store req head answered.now = some storing →
      (contentLength head).all (· ≤ storing.limit) = false)
    (schedule : List (Item × Moment)) (dropped : Moment) :
    ∀ call ∈ foreground id exchange req head answered schedule dropped, call.Idle := by
  have none_kept : Option.filter (fun storing : Storing =>
      (contentLength head).all (· ≤ storing.limit))
        ((planned answered.store req head answered.now).map fun s => s.holding exchange.flight) =
          none := by
    cases plan : planned answered.store req head answered.now with
    | none => rfl
    | some storing =>
      have refused : (contentLength head).all
          (· ≤ (storing.holding exchange.flight).limit) = false := unstored storing plan
      exact Option.filter_some_neg (by rw [refused])
  -- the stream copies nothing from the start
  have made : Tee.new id answered.store (contentLength head) none answered.now =
      (answered.store, [], ⟨contentLength head, none⟩) := by
    rw [Tee.new]
    split <;> rfl
  simp only [foreground, Exchange.forwarded, storePlan_of_get isGet, clientResponse, none_kept,
    Option.map_none, made]
  intro call member
  rcases List.mem_append.mp member with first | last
  · rcases List.mem_cons.mp first with rfl | polled
    · refine ⟨rfl, ?_⟩
      cases planned answered.store req head answered.now with
      | none => cases exchange.flight <;> rfl
      | some storing => cases exchange.flight <;> rfl
    · exact Tee.polls_idle rfl call polled
  · rw [List.mem_singleton.mp last]
    exact Tee.discard_idle id _ dropped

theorem foreground_of_stored {req : HttpRequest} {head : Head} {answered : Moment}
    {storing : Storing} (isGet : req.method = .get) (id : Nat) (exchange : Exchange)
    (stored : planned answered.store req head answered.now = some storing)
    (within : (contentLength head).all (· ≤ storing.limit) = true)
    (schedule : List (Item × Moment)) (dropped : Moment) :
    foreground id exchange req head answered schedule dropped =
      (Tee.stream id (contentLength head) (some (Tee.emptyCopy (storing.holding exchange.flight)
        head.status (storedFields (forwardableFields head)))) answered schedule dropped).2.1 := by
  have kept : Option.filter (fun storing : Storing =>
      (contentLength head).all (· ≤ storing.limit)) (some (storing.holding exchange.flight)) =
        some (storing.holding exchange.flight) := Option.filter_some_pos within
  simp only [foreground, Exchange.forwarded, storePlan_of_get isGet, stored, clientResponse,
    Option.map_some, kept, Tee.stream]
  rfl

/-- A body that ends within the limit. -/
def EndsWithin (limit : Nat) (chunks : List Bytes) (ending : Tee.Ending) : Prop :=
  ending = .ended ∧ chunks.flatten.length ≤ limit

/-- A body that hyper reads becomes whole in the `Tee` exactly when it ends
within the limit, and then it is all of it. -/
theorem foreground_of_planned {req : HttpRequest} {head : Head} {answered : Moment}
    {storing : Storing} {chunks : List Bytes} {ending : Tee.Ending} (isGet : req.method = .get)
    (id : Nat) (exchange : Exchange)
    (stored : planned answered.store req head answered.now = some storing)
    (framed : Framed head chunks ending) (read : ending ≠ .dropped)
    {schedule : List (Item × Moment)}
    (body : schedule.map Prod.fst = Tee.bodyItems chunks ending) (dropped : Moment) :
    (EndsWithin storing.limit chunks ending →
        InsertsOnce (foreground id exchange req head answered schedule dropped)
          (storing.insertion head chunks.flatten)) ∧
      (¬ EndsWithin storing.limit chunks ending →
        ∀ call ∈ foreground id exchange req head answered schedule dropped, call.Idle) := by
  cases within : (contentLength head).all (· ≤ storing.limit) with
  | false =>
    -- the declared length is past the limit, and so is a body that ends
    have idle := foreground_of_not_stored isGet id exchange
      (fun other plan => Option.some.inj (stored.symm.trans plan) ▸ within) schedule dropped
    refine ⟨fun ends => ?_, fun _ => idle⟩
    cases declared : contentLength head with
    | none =>
      rw [declared] at within
      cases within
    | some length =>
      rw [declared] at within
      have long : ¬ length ≤ storing.limit := of_decide_eq_false within
      exact absurd ((framed length declared).1 ends.1 ▸ ends.2) long
  | true =>
    have small : ∀ length, contentLength head = some length → length ≤ storing.limit := by
      intro length declared
      rw [declared] at within
      exact of_decide_eq_true within
    rw [foreground_of_stored isGet id exchange stored within schedule dropped]
    rcases Tee.stream_handed id (contentLength head) (storing.holding exchange.flight)
      head.status (storedFields (forwardableFields head)) answered dropped schedule with
      ⟨-, -, done⟩
    rw [body] at done
    constructor
    · rintro ⟨rfl, fits⟩
      have whole : Tee.Whole (contentLength head) storing.limit chunks .ended := by
        cases declared : contentLength head with
        | none => exact ⟨rfl, fits⟩
        | some length =>
          refine ⟨chunks.length, ?_⟩
          rw [List.take_length]
          exact (framed length declared).1 rfl
      rcases Tee.exists_handedInAll small whole with ⟨bytes, member⟩
      rcases List.mem_iff_getElem?.mp member with ⟨k, there⟩
      rcases Tee.handedInAll_due there with ⟨rfl, due, -⟩
      have all : (chunks.take k).flatten = chunks.flatten := by
        cases declared : contentLength head with
        | none =>
          rw [declared] at due
          rw [due.2, List.take_of_length_le (Nat.le_succ _)]
        | some length =>
          rw [declared] at due
          -- a part of the chunks that is as long as all of them
          have whole := (framed length declared).1 rfl
          have split : chunks.flatten = (chunks.take k).flatten ++ (chunks.drop k).flatten := by
            rw [← List.flatten_append, List.take_append_drop]
          have rest : (chunks.drop k).flatten = [] := by
            rw [split, List.length_append] at whole
            have due : (chunks.take k).flatten.length = length := due
            exact List.eq_nil_of_length_eq_zero (by omega)
          rw [split, rest, List.append_nil]
      have once : InsertsOnce _ ((storing.holding exchange.flight).insertion head _) :=
        insertsOnce_of_done done member (Tee.countP_handedInAll_le ..)
      rw [all] at once
      exact once
    · intro unfit
      refine idle_of_done done fun bytes member => unfit ?_
      rcases List.mem_iff_getElem?.mp member with ⟨k, there⟩
      rcases Tee.handedInAll_due there with ⟨rfl, due, fits⟩
      cases declared : contentLength head with
      | none =>
        rw [declared] at due
        rw [due.2, List.take_of_length_le (Nat.le_succ _)] at fits
        exact ⟨due.1, fits⟩
      | some length =>
        rw [declared] at due
        have due : (chunks.take k).flatten.length = length := due
        cases ending with
        | dropped => exact absurd rfl read
        | failed => exact absurd due ((framed length declared).2 rfl k)
        | ended =>
          refine ⟨rfl, ?_⟩
          rw [(framed length declared).1 rfl, ← due]
          exact fits

theorem background_of_planned {req : HttpRequest} {head : Head} {answered : Moment}
    {storing : Storing} (isGet : req.method = .get) (id : Nat) (task : Task)
    (same : task.req = req) (full : head.status ≠ .notModified)
    (stored : planned answered.store req head answered.now = some storing)
    (chunks : List Bytes) (ending : Tee.Ending) (collected : Moment) :
    (EndsWithin storing.limit chunks ending →
        InsertsOnce (background id task head answered (collect chunks ending) collected)
          (storing.insertion head chunks.flatten)) ∧
      (¬ EndsWithin storing.limit chunks ending →
        ∀ call ∈ background id task head answered (collect chunks ending) collected,
          call.Idle) := by
  have refreshed : task.refresh id answered.store head answered.now =
      (answered.store, [], .collects storing head) := by
    rw [Task.refresh, if_neg full, same, storePlan_of_get isGet, stored]
  simp only [background, refreshed]
  constructor
  · rintro ⟨rfl, fits⟩
    refine ⟨[⟨answered, answered.store, []⟩], _, [], rfl, ?_, ?_⟩
    · rw [collect, if_pos rfl, Task.collected, if_pos fits]
      exact ⟨rfl, rfl⟩
    · intro other member
      rw [List.mem_singleton.mp member]
      exact Tee.idle_nil
  · intro unfit
    -- `collect` has failed, or `Limited` has
    have nothing : Task.collected id collected.store storing head (collect chunks ending)
        collected.now = (collected.store, []) := by
      rw [collect]
      split
      case isTrue ended => exact if_neg fun fits => unfit ⟨ended, fits⟩
      case isFalse => rfl
    rw [nothing]
    intro call member
    rcases List.mem_cons.mp member with rfl | last
    · exact Tee.idle_nil
    · rw [List.mem_singleton.mp last]
      exact Tee.idle_nil

/-- Without a plan neither path stores anything. -/
theorem background_of_not_planned {req : HttpRequest} {head : Head} {answered : Moment}
    (isGet : req.method = .get) (id : Nat) (task : Task) (same : task.req = req)
    (full : head.status ≠ .notModified)
    (unstored : planned answered.store req head answered.now = none) (body : Option Bytes)
    (collected : Moment) :
    ∀ call ∈ background id task head answered body collected, call.Idle := by
  have refreshed : task.refresh id answered.store head answered.now =
      (answered.store, [], .ended) := by
    rw [Task.refresh, if_neg full, same, storePlan_of_get isGet, unstored]
  simp only [background, refreshed]
  intro call member
  rw [List.mem_singleton.mp member]
  exact Tee.idle_nil

/-- A response other than a 304 to a `GET` is stored alike by a request and by
a background task, if at all. -/
theorem foreground_background_agree {req : HttpRequest} {head : Head} {chunks : List Bytes}
    {ending : Tee.Ending} (id taskId : Nat) (exchange : Exchange) (task : Task)
    (answered dropped collected : Moment) (schedule : List (Item × Moment))
    (isGet : req.method = .get) (same : task.req = req) (full : head.status ≠ .notModified)
    (framed : Framed head chunks ending) (read : ending ≠ .dropped)
    (body : schedule.map Prod.fst = Tee.bodyItems chunks ending) :
    let front := foreground id exchange req head answered schedule dropped
    let back := background taskId task head answered (collect chunks ending) collected
    (∀ call ∈ front ++ back, call.Idle) ∨
      ∃ insertion, InsertsOnce front insertion ∧ InsertsOnce back insertion := by
  intro front back
  have both (idleFront : ∀ call ∈ front, call.Idle) (idleBack : ∀ call ∈ back, call.Idle) :
      ∀ call ∈ front ++ back, call.Idle :=
    fun call member => (List.mem_append.mp member).elim (idleFront call) (idleBack call)
  cases plan : planned answered.store req head answered.now with
  | none =>
    refine .inl (both ?_ ?_)
    · exact foreground_of_not_stored isGet id exchange 
        (fun _ h => by cases plan.symm.trans h) schedule dropped
    · exact background_of_not_planned isGet taskId task same full plan _ collected
  | some storing =>
    rcases foreground_of_planned isGet id exchange plan framed read body dropped with
      ⟨storedFront, idleFront⟩
    rcases background_of_planned isGet taskId task same full plan chunks ending collected with
      ⟨storedBack, idleBack⟩
    by_cases ends : EndsWithin storing.limit chunks ending
    · exact .inr ⟨_, storedFront ends, storedBack ends⟩
    · exact .inl (both (idleFront ends) (idleBack ends))

end

/-- A stored response that a task revalidates. -/
def exampleEntry : StaleEntry :=
  ⟨⟨0, Tee.exampleMoment.store.response examplePolicy .ok [] [] exampleClock⟩, ⟨examplePrimary, 0, []⟩⟩

def exampleTask : Task := ⟨germanRequest [], exampleEntry, ⟨exampleEntry.key⟩, .awaits⟩

/-- Both store the three bytes. -/
theorem foreground_background_agree_example : ∃ (_ : HttpDate) (insertion : Insertion),
    InsertsOnce (foreground 0 ⟨none, false, none⟩ (germanRequest []) ⟨.ok, byLanguage⟩
        Tee.exampleMoment (Tee.eachAt Tee.exampleMoment (Tee.bodyItems Tee.threeBytes .ended))
        Tee.exampleMoment) insertion ∧
      InsertsOnce (background 0 exampleTask ⟨.ok, byLanguage⟩ Tee.exampleMoment
        (collect Tee.threeBytes .ended) Tee.exampleMoment) insertion := by
  let dates : HttpDate := ⟨fun _ => none⟩
  have framed : Framed ⟨.ok, byLanguage⟩ Tee.threeBytes .ended := by
    intro length declared
    cases declared
  have writes : ((foreground 0 ⟨none, false, none⟩ (germanRequest []) ⟨.ok, byLanguage⟩
      Tee.exampleMoment (Tee.eachAt Tee.exampleMoment (Tee.bodyItems Tee.threeBytes .ended))
      Tee.exampleMoment).any Tee.Call.wrote) = true := by decide +kernel
  obtain ⟨call, member, wrote⟩ := List.any_eq_true.mp writes
  obtain idle | ⟨insertion, front, back⟩ := foreground_background_agree 0 0 ⟨none, false, none⟩
    exampleTask Tee.exampleMoment Tee.exampleMoment Tee.exampleMoment
    (Tee.eachAt Tee.exampleMoment (Tee.bodyItems Tee.threeBytes .ended)) rfl rfl
    (by decide : (⟨.ok, byLanguage⟩ : Head).status ≠ .notModified) framed (by decide) rfl
  · rw [(idle call (List.mem_append_left _ member)).quiet] at wrote
    cases wrote
  · exact ⟨dates, insertion, front, back⟩

end Shadowstep
