import Shadowstep.Lib.Runs
import Shadowstep.Proxy.Forward

/-!
# The request body

`request_body` of `proxy.rs` reads the first chunk of the client's payload in
the handler. A task then copies that chunk and the rest into a channel of
capacity one, which the body of the origin request reads. The task, the
reader, and the reader's going away happen in any order.

* `Copying.Stepped` — what one step can be;
* `Copying.Flowing` — what is read, in the channel, and still to be copied;
* `request_body_whole` — the body at the origin is whole or visibly broken.
-/

namespace Shadowstep

open Rust

/-! ## The payload -/

/-- A client's payload: its chunks, and the error it ends with, if any. -/
structure Payload (E : Type) where
  chunks : List Bytes
  failure : Option E

/-- An item of the payload, and a frame of the body: data or an error. -/
abbrev Frame (E : Type) := Except E Bytes

namespace Payload

variable {E : Type}

/-- Everything a payload has to give, in order. -/
def frames (payload : Payload E) : List (Frame E) :=
  payload.chunks.map .ok ++ payload.failure.toList.map .error

/-- `payload.next().await`, and the payload after it. -/
def next (payload : Payload E) : Option (Frame E) × Payload E :=
  match payload.chunks with
  | chunk :: chunks => (some (.ok chunk), { payload with chunks := chunks })
  | [] =>
    match payload.failure with
    | some error => (some (.error error), { payload with failure := none })
    | none => (none, payload)

/-- The first frame is the one that `next` returns, and an error is the last. -/
theorem next_cases (payload : Payload E) :
    (payload.frames = [] ∧ payload.next = (none, payload)) ∨
    ∃ frame rest, payload.next = (some frame, rest) ∧ payload.frames = frame :: rest.frames ∧
      (∀ error, frame = .error error → rest.frames = []) := by
  obtain ⟨chunks, failure⟩ := payload
  cases chunks with
  | cons chunk chunks =>
      exact .inr ⟨.ok chunk, ⟨chunks, failure⟩, rfl, rfl, fun _ error => by cases error⟩
  | nil =>
      cases failure with
      | none => exact .inl ⟨rfl, rfl⟩
      | some error => exact .inr ⟨.error error, ⟨[], none⟩, rfl, rfl, fun _ _ => rfl⟩

/-- Nothing follows an error. -/
theorem frames_error {payload : Payload E} {before after : List (Frame E)} {error : E}
    (split : payload.frames = before ++ .error error :: after) :
    before = payload.chunks.map .ok ∧ payload.failure = some error ∧ after = [] := by
  obtain ⟨chunks, failure⟩ := payload
  simp only [frames] at split ⊢
  induction chunks generalizing before with
  | nil =>
      cases failure with
      | none => simp at split
      | some failure =>
          cases before with
          | nil =>
              obtain ⟨same, rfl⟩ := List.cons.inj split
              exact ⟨rfl, congrArg some (Except.error.inj same), rfl⟩
          | cons frame before => simp at split
  | cons chunk chunks ih =>
      cases before with
      | nil => cases (List.cons.inj split).1
      | cons frame before =>
          obtain ⟨rfl, tail⟩ := List.cons.inj split
          obtain ⟨rfl, failed, none⟩ := ih tail
          exact ⟨rfl, failed, none⟩

/-- A payload ends cleanly when none of its frames is an error. -/
theorem failure_eq_none {payload : Payload E} :
    payload.failure = none ↔ ∀ error, Except.error error ∉ payload.frames := by
  obtain ⟨chunks, failure⟩ := payload
  cases failure with
  | none => simp [frames]
  | some failure =>
      refine iff_of_false (by simp) fun clean => clean failure ?_
      simp [frames]

end Payload

/-! ## The copying task -/

/-- Where `pump_request_body` stands. -/
inductive Pump (E : Type) where
  /-- at `sender.send`, with the rest of the payload -/
  | sends (frame : Frame E) (rest : Payload E)
  /-- at `payload.next` -/
  | reads (rest : Payload E)
  /-- it has returned, and its sender is dropped -/
  | done

/-- The frames that the task has still to send. -/
def Pump.frames {E : Type} : Pump E → List (Frame E)
  | .sends frame rest => frame :: rest.frames
  | .reads rest => rest.frames
  | .done => []

/-- The task, the channel, and what the body has yielded to its reader. -/
structure Copying (E : Type) where
  pump : Pump E
  /-- the one place of the channel -/
  channel : Option (Frame E)
  /-- whether the reader still has the body -/
  reader : Bool
  yielded : List (Frame E)
  /-- whether the body has yielded its end -/
  ended : Bool

/-- `UpstreamBody`. -/
inductive UpstreamBody (E : Type) where
  | empty
  | copied (copying : Copying E)

/-- `request_body`. -/
def requestBody {E : Type} (payload : Payload E) : Except E (UpstreamBody E) :=
  match payload.next with
  | (none, _) => .ok .empty
  | (some (.error error), _) => .error error
  | (some (.ok first), rest) => .ok (.copied ⟨.sends (.ok first) rest, none, true, [], false⟩)

/-- What `origin_request` makes of the body. -/
def BodyStart.ofBody {E : Type} : Except E (UpstreamBody E) → BodyStart
  | .ok _ => .ready
  | .error _ => .failed

namespace Copying

variable {E : Type}

/-- One move of the task or of the reader. -/
inductive Event where
  /-- `sender.send` succeeds -/
  | send
  /-- `sender.send` fails on a closed channel -/
  | sendFails
  /-- `payload.next` returns -/
  | next
  /-- the body is polled and yields -/
  | poll
  /-- the reader drops the body -/
  | leave

/-- What the task does after it has sent a frame. -/
def afterSend (frame : Frame E) (rest : Payload E) : Pump E :=
  match frame with
  | .ok _ => .reads rest
  | .error _ => .done

/-- What the task does with what `payload.next` has returned. -/
def afterNext : Option (Frame E) × Payload E → Pump E
  | (some frame, rest) => .sends frame rest
  | (none, _) => .done

def step (σ : Copying E) : Event → Option (Copying E)
  | .send =>
    match σ.pump, σ.channel with
    | .sends frame rest, none =>
      if σ.reader then some { σ with pump := afterSend frame rest, channel := some frame } else none
    | _, _ => none
  | .sendFails =>
    match σ.pump with
    | .sends .. => if σ.reader then none else some { σ with pump := .done }
    | _ => none
  | .next =>
    match σ.pump with
    | .reads rest => some { σ with pump := afterNext rest.next }
    | _ => none
  | .poll =>
    if !σ.reader || σ.ended then none
    else
      match σ.channel with
      | some frame => some { σ with channel := none, yielded := σ.yielded ++ [frame] }
      | none =>
        -- an empty channel ends when its sender is gone
        match σ.pump with
        | .done => some { σ with ended := true }
        | _ => none
  | .leave => if σ.reader then some { σ with reader := false, channel := none } else none

/-- What one step can be. -/
inductive Stepped (σ : Copying E) : Event → Copying E → Prop
  | send {frame rest} (reader : σ.reader = true) (pump : σ.pump = .sends frame rest)
      (free : σ.channel = none) :
    Stepped σ .send { σ with pump := afterSend frame rest, channel := some frame }
  | sendFails {frame rest} (gone : σ.reader = false) (pump : σ.pump = .sends frame rest) :
    Stepped σ .sendFails { σ with pump := .done }
  | next {rest} (pump : σ.pump = .reads rest) :
    Stepped σ .next { σ with pump := afterNext rest.next }
  | yields {frame} (reader : σ.reader = true) (going : σ.ended = false)
      (channel : σ.channel = some frame) :
    Stepped σ .poll { σ with channel := none, yielded := σ.yielded ++ [frame] }
  | ends (reader : σ.reader = true) (going : σ.ended = false) (channel : σ.channel = none)
      (pump : σ.pump = .done) :
    Stepped σ .poll { σ with ended := true }
  | leave (reader : σ.reader = true) :
    Stepped σ .leave { σ with reader := false, channel := none }

variable {σ σ' : Copying E} {e : Event}

theorem step_stepped (h : step σ e = some σ') : Stepped σ e σ' := by
  cases e with
  | send =>
      simp only [step] at h
      split at h
      · rename_i frame rest pump free
        split at h
        · rename_i reader
          obtain rfl := Option.some.inj h
          exact .send reader pump free
        · cases h
      · cases h
  | sendFails =>
      simp only [step] at h
      split at h
      · rename_i frame rest pump
        split at h
        · cases h
        · rename_i gone
          obtain rfl := Option.some.inj h
          exact .sendFails (Bool.not_eq_true _ ▸ gone) pump
      · cases h
  | next =>
      simp only [step] at h
      split at h
      · rename_i rest pump
        obtain rfl := Option.some.inj h
        exact .next pump
      · cases h
  | poll =>
      simp only [step] at h
      split at h
      · cases h
      · rename_i reading
        obtain ⟨reader, going⟩ : σ.reader = true ∧ σ.ended = false := by simpa using reading
        split at h
        · rename_i frame channel
          obtain rfl := Option.some.inj h
          exact .yields reader going channel
        · rename_i channel
          split at h
          · rename_i pump
            obtain rfl := Option.some.inj h
            exact .ends reader going channel pump
          · cases h
  | leave =>
      simp only [step] at h
      split at h
      · rename_i reader
        obtain rfl := Option.some.inj h
        exact .leave reader
      · cases h

/-! ## What is where -/

/-- Where the frames of a payload are. -/
structure Flowing (whole : List (Frame E)) (σ : Copying E) : Prop where
  /-- while the reader is there none is lost -/
  flows : σ.reader = true → whole = σ.yielded ++ (σ.channel.toList ++ σ.pump.frames)
  yielded : σ.yielded <+: whole
  lastError : ∀ error rest, σ.pump = .sends (.error error) rest → rest.frames = []
  ended : σ.ended = true → σ.yielded = whole

theorem Flowing.send {whole : List (Frame E)} (flowing : Flowing whole σ) {frame : Frame E}
    {rest : Payload E} (reader : σ.reader = true) (pump : σ.pump = .sends frame rest)
    (free : σ.channel = none) :
    Flowing whole { σ with pump := afterSend frame rest, channel := some frame } := by
  -- an error is the last frame there is, so no frame is dropped with the task
  have after : (afterSend frame rest).frames = rest.frames := by
    cases frame with
    | ok chunk => rfl
    | error error => exact (flowing.lastError error rest pump).symm
  refine ⟨fun _ => ?_, flowing.yielded, fun error rest' sends => ?_, flowing.ended⟩
  · rw [flowing.flows reader, pump, free]
    show _ = σ.yielded ++ ([frame] ++ (afterSend frame rest).frames)
    rw [after]
    rfl
  · cases frame <;> cases sends

theorem Flowing.next {whole : List (Frame E)} (flowing : Flowing whole σ) {rest : Payload E}
    (pump : σ.pump = .reads rest) : Flowing whole { σ with pump := afterNext rest.next } := by
  have frames : (afterNext rest.next).frames = rest.frames := by
    rcases rest.next_cases with ⟨none, next⟩ | ⟨frame, rest', next, frames, -⟩
    · rw [next, none]
      rfl
    · rw [next, frames]
      rfl
  refine ⟨fun reader => ?_, flowing.yielded, fun error rest' sends => ?_, flowing.ended⟩
  · rw [flowing.flows reader, pump]
    exact congrArg (fun later => σ.yielded ++ (σ.channel.toList ++ later)) frames.symm
  · rcases rest.next_cases with ⟨-, next⟩ | ⟨frame, rest'', next, -, last⟩
    · rw [next] at sends
      cases sends
    · rw [next] at sends
      obtain ⟨rfl, rfl⟩ := Pump.sends.inj sends
      exact last error rfl

theorem Flowing.step {whole : List (Frame E)} (flowing : Flowing whole σ)
    (h : Copying.step σ e = some σ') : Flowing whole σ' := by
  cases step_stepped h with
  | send reader pump free => exact flowing.send reader pump free
  | sendFails gone =>
      refine ⟨fun reader => ?_, flowing.yielded, fun _ _ sends => (by cases sends), flowing.ended⟩
      cases gone.symm.trans reader
  | next pump => exact flowing.next pump
  | @yields frame reader going channel =>
      have flows : whole = (σ.yielded ++ [frame]) ++ σ.pump.frames := by
        rw [flowing.flows reader, channel, List.append_assoc]
        rfl
      refine ⟨fun _ => flows, ⟨_, flows.symm⟩, flowing.lastError, fun ended => ?_⟩
      cases going.symm.trans ended
  | ends reader going channel pump =>
      refine ⟨flowing.flows, flowing.yielded, flowing.lastError, fun _ => ?_⟩
      -- nothing is in the channel and nothing is to come
      have flows := flowing.flows reader
      rw [channel, pump] at flows
      simpa [Pump.frames] using flows.symm
  | leave =>
      exact ⟨fun reader => (by cases reader), flowing.yielded, flowing.lastError, flowing.ended⟩

/-! ## Every run comes to an end -/

/-- How many moves the task has left at most. -/
def pumpLeft : Pump E → Nat
  | .sends _ rest => 3 * rest.frames.length + 3
  | .reads rest => 3 * rest.frames.length + 1
  | .done => 0

theorem pumpLeft_sends (frame : Frame E) (rest : Payload E) :
    pumpLeft (.sends frame rest) = 3 * rest.frames.length + 3 := rfl

theorem pumpLeft_reads (rest : Payload E) :
    pumpLeft (.reads rest) = 3 * rest.frames.length + 1 := rfl

theorem pumpLeft_done : pumpLeft (.done : Pump E) = 0 := rfl

/-- How many moves are left at most. -/
def left (σ : Copying E) : Nat :=
  pumpLeft σ.pump + σ.channel.toList.length + (if σ.ended then 0 else 1) +
    if σ.reader then 1 else 0

theorem pumpLeft_afterSend (frame : Frame E) (rest : Payload E) :
    pumpLeft (afterSend frame rest) ≤ 3 * rest.frames.length + 1 := by
  cases frame with
  | ok chunk => exact le_rfl
  | error error => exact Nat.zero_le _

theorem pumpLeft_afterNext (rest : Payload E) :
    pumpLeft (afterNext rest.next) < 3 * rest.frames.length + 1 := by
  rcases rest.next_cases with ⟨none, next⟩ | ⟨frame, rest', next, frames, -⟩
  · rw [next]
    exact Nat.succ_pos _
  · rw [next, frames, List.length_cons]
    show 3 * rest'.frames.length + 3 < _
    omega

/-- Every move leaves fewer. -/
theorem left_step (h : step σ e = some σ') : σ'.left < σ.left := by
  cases step_stepped h with
  | @send frame rest reader pump free =>
      have after := pumpLeft_afterSend frame rest
      simp only [left, pump, free, Option.toList_some, Option.toList_none, List.length_cons,
        List.length_nil, pumpLeft_sends]
      omega
  | sendFails gone pump =>
      simp only [left, pump, pumpLeft_sends, pumpLeft_done]
      omega
  | @next rest pump =>
      have after := pumpLeft_afterNext rest
      simp only [left, pump, pumpLeft_reads]
      omega
  | yields reader going channel =>
      simp only [left, channel, Option.toList_some, Option.toList_none, List.length_cons,
        List.length_nil]
      omega
  | ends reader going =>
      simp only [left, going, if_true, Bool.false_eq_true, if_false]
      omega
  | leave reader =>
      simp only [left, reader, if_true, Bool.false_eq_true, if_false, Option.toList_none,
        List.length_nil]
      omega

/-- As long as the reader waits for a body that has not ended, the task or the
reader can move. -/
theorem moves (reader : σ.reader = true) (going : σ.ended = false) :
    ∃ e, e ≠ .leave ∧ (step σ e).isSome = true := by
  cases channel : σ.channel with
  | some frame => exact ⟨.poll, by simp, by simp [step, reader, going, channel]⟩
  | none =>
      cases pump : σ.pump with
      | sends frame rest => exact ⟨.send, by simp, by simp [step, reader, pump, channel]⟩
      | reads rest => exact ⟨.next, by simp, by simp [step, pump]⟩
      | done => exact ⟨.poll, by simp, by simp [step, reader, going, channel, pump]⟩

/-- What the body of the origin request yields of a payload. -/
structure Carries (payload : Payload E) (σ : Copying E) : Prop where
  /-- the payload's frames in order, whoever goes away and when -/
  yields : σ.yielded <+: payload.frames
  /-- all of them, when the body ends -/
  whole : σ.ended = true → σ.yielded = payload.frames
  /-- without an error exactly when the payload ended without one -/
  clean : σ.ended = true →
    ((∀ error, Except.error error ∉ σ.yielded) ↔ payload.failure = none)
  /-- an error comes after the chunks before it, and nothing comes after it -/
  broken : ∀ before error after, σ.yielded = before ++ .error error :: after →
    before = payload.chunks.map .ok ∧ payload.failure = some error ∧ after = []
  /-- a reader that waits gets there -/
  moves : σ.reader = true → σ.ended = false → ∃ e, e ≠ .leave ∧ (step σ e).isSome = true

theorem Flowing.carries {payload : Payload E} (flowing : Flowing payload.frames σ) :
    Carries payload σ where
  yields := flowing.yielded
  whole := flowing.ended
  clean ended := by
    rw [flowing.ended ended]
    exact Payload.failure_eq_none.symm
  broken before error after split := by
    obtain ⟨later, whole⟩ := flowing.yielded
    rw [split, List.append_assoc, List.cons_append] at whole
    obtain ⟨rfl, failed, none⟩ := Payload.frames_error whole.symm
    exact ⟨rfl, failed, (List.append_eq_nil_iff.mp none).1⟩
  moves := Copying.moves

end Copying

/-! ## The body at the origin -/

/-- For every payload and every interleaving of the copying task with the
reader of its channel: a payload that fails at once is never sent, an empty
one is an empty body, and any other reaches the reader whole, or as far as
the reader stays, with its error as the last frame if it has one. -/
theorem request_body_whole {E : Type} (payload : Payload E) :
    (∀ error, payload.chunks = [] → payload.failure = some error →
      requestBody payload = .error error ∧
      ∀ (_ : UriSyntax) (base : OriginUrl) (id : Nat) (store : Store) (req : HttpRequest)
        (toOrigin : ToOrigin) (request : UpstreamRequest), req.upstream base = some request →
        let outcome := prepare base id store req toOrigin (.ofBody (requestBody payload))
        outcome.answer = some ⟨.failed, some (errorResponse .badRequest)⟩ ∧
          ∀ actor sent, Effect.sent actor sent ∉ outcome.effects) ∧
    (payload.chunks = [] → payload.failure = none → requestBody payload = .ok .empty) ∧
    ∀ first rest, payload.chunks = first :: rest → ∃ start : Copying E,
      requestBody payload = .ok (.copied start) ∧
      ∀ (events : List Copying.Event) (σ : Copying E),
        Runs.run Copying.step start events = some σ →
        Copying.Carries payload σ ∧ events.length ≤ 3 * payload.frames.length + 2 := by
  obtain ⟨chunks, failure⟩ := payload
  refine ⟨?_, ?_, ?_⟩
  · rintro error rfl rfl
    refine ⟨rfl, fun _ base id store req toOrigin request built => ?_⟩
    have body : BodyStart.ofBody (requestBody (⟨[], some error⟩ : Payload E)) = .failed := rfl
    have answer : prepare base id store req toOrigin .failed =
        reply id store [] toOrigin.flight ⟨.failed, some (errorResponse .badRequest)⟩ := by
      unfold prepare
      rw [built]
    rw [body, answer]
    refine ⟨rfl, fun actor sent member => ?_⟩
    -- the one effect there may be is the drop of the flight
    cases flight : toOrigin.flight with
    | none => simp [reply, released, flight] at member
    | some held => simp [reply, released, flight] at member
  · rintro rfl rfl
    rfl
  · rintro first rest rfl
    refine ⟨⟨.sends (.ok first) ⟨rest, failure⟩, none, true, [], false⟩, rfl, ?_⟩
    intro events σ run
    have flowing : Copying.Flowing (⟨first :: rest, failure⟩ : Payload E).frames σ := by
      refine Runs.invariant_run (fun _ _ _ flowing h => flowing.step h) ?_ run
      exact ⟨fun _ => rfl, List.nil_prefix, fun _ _ sends => (by cases sends),
        fun ended => (by cases ended)⟩
    have bound := Runs.run_length_le (fun _ _ _ h => Copying.left_step h) run
    refine ⟨flowing.carries, ?_⟩
    simp only [Copying.left, Copying.pumpLeft, Payload.frames, List.length_append, List.length_map,
      List.length_cons, Option.toList_none, List.length_nil] at bound ⊢
    simp at bound
    omega

end Shadowstep
