import Shadowstep.Coalesce.Flights
import Shadowstep.Lib.Runs

/-!
# The flight registry

`Flights` on its own, for any keys and any callers: calls of `join` in any
order, the two parts of a guard's drop, and the return of a wait. A call is
known by its number, so a request that joins again is another call. Waiters
hold the channel and not the map entry, and the same key is used by one
flight after another.

* `Sound` — what the map, the guards and the waiters have to do with each
  other in every state;
* `single_flight` — what that comes to for the callers.
-/

namespace Shadowstep

namespace Registry

/-! ## The machine -/

/-- What a call of `join` returned, and what has become of it. -/
inductive Standing (K : Type) where
  | leads (guard : FlightGuard K)
  /-- the guard drops: its key has left the map, and its sender is still open -/
  | drops (guard : FlightGuard K)
  /-- the guard has dropped, and its sender with it -/
  | dropped (guard : FlightGuard K)
  | follows (channel : Nat)
  /-- the wait has returned -/
  | released (channel : Nat)
  | alone

structure Call (K : Type) where
  key : K
  standing : Standing K

structure State (K : Type) where
  flights : Flights K
  calls : Nat → Option (Call K)
  /-- how many calls there have been -/
  joined : Nat

inductive Event (K : Type) where
  | join (key : K) (mayLead : Bool)
  /-- `FlightGuard::drop` of a call's guard: the key leaves the map -/
  | remove (call : Nat)
  /-- the guard's sender is dropped -/
  | close (call : Nat)
  /-- `Waiter::wait` of a call returns -/
  | wake (call : Nat)

variable {K : Type}

/-- The guard that a call has made, whatever is left of it. -/
def Standing.guard : Standing K → Option (FlightGuard K)
  | leads guard | drops guard | dropped guard => some guard
  | follows _ | released _ | alone => none

/-- The channel that a follower's receiver belongs to. -/
def Standing.channel : Standing K → Option Nat
  | follows channel | released channel => some channel
  | leads _ | drops _ | dropped _ | alone => none

/-- What a call starts as. -/
def Standing.ofJoin : Join K → Standing K
  | .lead guard => leads guard
  | .follow channel => follows channel
  | .alone => alone

def start : State K := ⟨Flights.empty, fun _ => none, 0⟩

/-- A call stands elsewhere. -/
def State.put (σ : State K) (call : Nat) (key : K) (standing : Standing K) : State K :=
  { σ with calls := Function.update σ.calls call (some ⟨key, standing⟩) }

/-- A new call, with what it has made of the flights. -/
def State.add (σ : State K) (flights : Flights K) (key : K) (standing : Standing K) : State K :=
  { flights := flights
    calls := Function.update σ.calls σ.joined (some ⟨key, standing⟩)
    joined := σ.joined + 1 }

section

variable [DecidableEq K]

def State.step (σ : State K) : Event K → Option (State K)
  | .join key mayLead =>
    let joined := σ.flights.join key mayLead
    some (σ.add joined.2 key (.ofJoin joined.1))
  | .remove call =>
    match σ.calls call with
    | some ⟨key, .leads guard⟩ =>
      some (({ σ with flights := σ.flights.remove guard } : State K).put call key (.drops guard))
    | _ => none
  | .close call =>
    match σ.calls call with
    | some ⟨key, .drops guard⟩ =>
      some (({ σ with flights := σ.flights.close guard } : State K).put call key (.dropped guard))
    | _ => none
  | .wake call =>
    match σ.calls call with
    | some ⟨key, .follows channel⟩ =>
      -- `changed` fails, and so the wait returns, once the sender is gone
      if channel ∈ σ.flights.closed then some (σ.put call key (.released channel)) else none
    | _ => none

/-! ## What one step does -/

/-- The three ways in which `join` returns. -/
theorem join_cases (flights : Flights K) (key : K) (mayLead : Bool) :
    (∃ channel, flights.inFlight key = some channel ∧
      flights.join key mayLead = (.follow channel, flights)) ∨
    (flights.inFlight key = none ∧ mayLead = true ∧
      flights.join key mayLead = (.lead ⟨key, flights.channels⟩,
        { flights with
          inFlight := Function.update flights.inFlight key (some flights.channels)
          channels := flights.channels + 1 })) ∨
    (flights.inFlight key = none ∧ mayLead = false ∧
      flights.join key mayLead = (.alone, flights)) := by
  unfold Flights.join
  cases there : flights.inFlight key with
  | some channel => exact .inl ⟨channel, rfl, rfl⟩
  | none =>
      cases mayLead with
      | true => exact .inr (.inl ⟨rfl, rfl, rfl⟩)
      | false => exact .inr (.inr ⟨rfl, rfl, rfl⟩)

theorem step_remove {σ σ' : State K} {call : Nat} (h : σ.step (.remove call) = some σ') :
    ∃ key guard, σ.calls call = some ⟨key, .leads guard⟩ ∧
      σ' = ({ σ with flights := σ.flights.remove guard } : State K).put call key (.drops guard) := by
  simp only [State.step] at h
  split at h
  · rename_i key guard here
    exact ⟨key, guard, here, (Option.some.inj h).symm⟩
  · cases h

theorem step_close {σ σ' : State K} {call : Nat} (h : σ.step (.close call) = some σ') :
    ∃ key guard, σ.calls call = some ⟨key, .drops guard⟩ ∧
      σ' = ({ σ with flights := σ.flights.close guard } : State K).put call key (.dropped guard) := by
  simp only [State.step] at h
  split at h
  · rename_i key guard here
    exact ⟨key, guard, here, (Option.some.inj h).symm⟩
  · cases h

theorem step_wake {σ : State K} {call : Nat} {σ' : State K} :
    σ.step (.wake call) = some σ' ↔ ∃ key channel, σ.calls call = some ⟨key, .follows channel⟩ ∧
      channel ∈ σ.flights.closed ∧ σ' = σ.put call key (.released channel) := by
  simp only [State.step]
  constructor
  · intro h
    split at h
    · rename_i key channel here
      split at h
      · rename_i closed
        exact ⟨key, channel, here, closed, (Option.some.inj h).symm⟩
      · cases h
    · cases h
  · rintro ⟨key, channel, here, closed, rfl⟩
    rw [here]
    exact if_pos closed

/-- A wait can return exactly when its channel is closed. -/
theorem wake_isSome {σ : State K} {call : Nat} {key : K} {channel : Nat}
    (here : σ.calls call = some ⟨key, .follows channel⟩) :
    (σ.step (.wake call)).isSome = true ↔ channel ∈ σ.flights.closed := by
  rw [Option.isSome_iff_exists]
  constructor
  · rintro ⟨σ', h⟩
    obtain ⟨_, _, there, closed, -⟩ := step_wake.mp h
    obtain ⟨rfl, ⟨⟩⟩ := Call.mk.inj (Option.some.inj (here.symm.trans there))
    exact closed
  · intro closed
    exact ⟨_, step_wake.mpr ⟨key, channel, here, closed, rfl⟩⟩

end

/-! ## Guards and channels -/

/-- What the steps after `join` keep: who made which guard, and whose flight a
follower has joined. -/
structure Numbered (σ : State K) : Prop where
  calls : ∀ {n call}, σ.calls n = some call → n < σ.joined
  keyed : ∀ {n key standing guard}, σ.calls n = some ⟨key, standing⟩ →
    standing.guard = some guard → guard.key = key ∧ guard.channel < σ.flights.channels
  /-- a channel has one guard -/
  once : ∀ {m n k l s t g h}, σ.calls m = some ⟨k, s⟩ → s.guard = some g →
    σ.calls n = some ⟨l, t⟩ → t.guard = some h → g.channel = h.channel → m = n
  /-- a follower's channel has a guard of the same key -/
  opened : ∀ {n key standing channel}, σ.calls n = some ⟨key, standing⟩ →
    standing.channel = some channel → ∃ m s guard, σ.calls m = some ⟨key, s⟩ ∧
      s.guard = some guard ∧ guard.channel = channel

/-- A call that only moves on keeps its key, its guard and its channel. -/
structure Moves (σ : State K) (call : Nat) (key : K) (standing standing' : Standing K) : Prop where
  here : σ.calls call = some ⟨key, standing⟩
  guard : standing'.guard = standing.guard
  channel : standing'.channel = standing.channel

namespace Moves

variable {σ : State K} {call : Nat} {key : K} {standing standing' : Standing K}

theorem back (moves : Moves σ call key standing standing') {m : Nat} {k : K} {t : Standing K}
    (there : (σ.put call key standing').calls m = some ⟨k, t⟩) :
    ∃ t₀, σ.calls m = some ⟨k, t₀⟩ ∧ t.guard = t₀.guard ∧ t.channel = t₀.channel := by
  rcases Runs.update_cases there with ⟨rfl, same⟩ | ⟨-, other⟩
  · obtain ⟨rfl, rfl⟩ := Call.mk.inj same
    exact ⟨_, moves.here, moves.guard, moves.channel⟩
  · exact ⟨t, other, rfl, rfl⟩

theorem forth (moves : Moves σ call key standing standing') {m : Nat} {k : K} {t : Standing K}
    (there : σ.calls m = some ⟨k, t⟩) : ∃ t', (σ.put call key standing').calls m = some ⟨k, t'⟩ ∧
      t'.guard = t.guard ∧ t'.channel = t.channel := by
  by_cases same : m = call
  · subst same
    obtain ⟨rfl, rfl⟩ := Call.mk.inj (Option.some.inj (there.symm.trans moves.here))
    exact ⟨standing', Function.update_self _ _ _, moves.guard, moves.channel⟩
  · exact ⟨t, (Function.update_of_ne same _ _).trans there, rfl, rfl⟩

/-- The calls that stand neither as this one stood nor as it stands now are
the same before and after. -/
theorem other (moves : Moves σ call key standing standing') {n : Nat} {k : K} {t : Standing K}
    (before : t ≠ standing) (after : t ≠ standing') :
    (σ.put call key standing').calls n = some ⟨k, t⟩ ↔ σ.calls n = some ⟨k, t⟩ := by
  constructor
  · intro there
    rcases Runs.update_cases there with ⟨-, same⟩ | ⟨-, there⟩
    · exact absurd (Call.mk.inj same).2 after
    · exact there
  · intro there
    show Function.update σ.calls call _ n = _
    rw [Function.update_of_ne, there]
    rintro rfl
    exact before (Call.mk.inj (Option.some.inj (there.symm.trans moves.here))).2

theorem numbered (moves : Moves σ call key standing standing') (numbered : Numbered σ)
    (flights : Flights K) (channels : flights.channels = σ.flights.channels) :
    Numbered (({ σ with flights := flights } : State K).put call key standing') where
  calls {n call'} there := by
    obtain ⟨k, t⟩ := call'
    obtain ⟨_, before, -⟩ := moves.back there
    exact numbered.calls before
  keyed there made := by
    obtain ⟨_, before, guard, -⟩ := moves.back there
    rw [State.put, channels]
    exact numbered.keyed before (guard ▸ made)
  once there made there' made' same := by
    obtain ⟨_, before, guard, -⟩ := moves.back there
    obtain ⟨_, before', guard', -⟩ := moves.back there'
    exact numbered.once before (guard ▸ made) before' (guard' ▸ made') same
  opened there joined := by
    obtain ⟨_, before, -, channel⟩ := moves.back there
    obtain ⟨m, s, guard, leader, made, same⟩ := numbered.opened before (channel ▸ joined)
    obtain ⟨s', leader', made', -⟩ := moves.forth leader
    exact ⟨m, s', guard, leader', made'.trans made, same⟩

end Moves

/-! ## The invariant -/

/-- The map holds the channels of the guards that have not removed their key,
and the closed channels are those whose guard is gone. -/
structure Sound (σ : State K) : Prop extends Numbered σ where
  inMap : ∀ {key channel}, σ.flights.inFlight key = some channel ↔
    ∃ n, σ.calls n = some ⟨key, .leads ⟨key, channel⟩⟩
  closed : ∀ {channel}, channel ∈ σ.flights.closed ↔
    ∃ n key guard, σ.calls n = some ⟨key, .dropped guard⟩ ∧ guard.channel = channel
  released : ∀ {n key channel}, σ.calls n = some ⟨key, .released channel⟩ →
    channel ∈ σ.flights.closed

theorem sound_start : Sound (start : State K) where
  calls there := by cases there
  keyed there := by cases there
  once there := by cases there
  opened there := by cases there
  inMap := by simp [start, Flights.empty]
  closed := by simp [start, Flights.empty]
  released there := by cases there

namespace Sound

variable {σ : State K}

/-- A leader's guard is the one in the map. -/
theorem leads_inMap (sound : Sound σ) {n : Nat} {key : K} {guard : FlightGuard K}
    (here : σ.calls n = some ⟨key, .leads guard⟩) :
    guard.key = key ∧ σ.flights.inFlight key = some guard.channel := by
  obtain ⟨rfl, -⟩ := sound.keyed here rfl
  exact ⟨rfl, sound.inMap.mpr ⟨n, here⟩⟩

/-- The first step of a guard's drop. -/
theorem remove [DecidableEq K] (sound : Sound σ) {call : Nat} {key : K} {guard : FlightGuard K}
    (here : σ.calls call = some ⟨key, .leads guard⟩) :
    Sound (({ σ with flights := σ.flights.remove guard } : State K).put call key
      (.drops guard)) := by
  have moves : Moves σ call key (.leads guard) (.drops guard) := ⟨here, rfl, rfl⟩
  obtain ⟨rfl, entry⟩ := sound.leads_inMap here
  refine { toNumbered := moves.numbered sound.toNumbered _ rfl, inMap := ?_, closed := ?_,
           released := ?_ }
  · intro key' channel
    show Function.update σ.flights.inFlight guard.key none key' = some channel ↔
      ∃ n, Function.update σ.calls call (some ⟨guard.key, .drops guard⟩) n = _
    constructor
    · intro there
      have other : key' ≠ guard.key := by
        rintro rfl
        rw [Function.update_self] at there
        cases there
      rw [Function.update_of_ne other] at there
      obtain ⟨n, leader⟩ := sound.inMap.mp there
      refine ⟨n, ?_⟩
      rw [Function.update_of_ne, leader]
      rintro rfl
      exact other (Call.mk.inj (Option.some.inj (leader.symm.trans here))).1
    · rintro ⟨n, there⟩
      rcases Runs.update_cases there with ⟨-, same⟩ | ⟨other, leader⟩
      · cases (Call.mk.inj same).2
      · -- another leader of this key would have this guard's channel
        have entry' := sound.inMap.mpr ⟨n, leader⟩
        rw [Function.update_of_ne, entry']
        rintro rfl
        have same : channel = guard.channel := Option.some.inj (entry'.symm.trans entry)
        exact other (sound.once leader rfl here rfl same)
  · intro channel
    exact sound.closed.trans (exists_congr fun n => exists_congr fun k => exists_congr fun g =>
      and_congr_left' (moves.other (by simp) (by simp)).symm)
  · intro n k channel there
    exact sound.released ((moves.other (by simp) (by simp)).mp there)

/-- The second step. -/
theorem close (sound : Sound σ) {call : Nat} {key : K} {guard : FlightGuard K}
    (here : σ.calls call = some ⟨key, .drops guard⟩) :
    Sound (({ σ with flights := σ.flights.close guard } : State K).put call key
      (.dropped guard)) := by
  have moves : Moves σ call key (.drops guard) (.dropped guard) := ⟨here, rfl, rfl⟩
  refine { toNumbered := moves.numbered sound.toNumbered _ rfl, inMap := ?_, closed := ?_,
           released := ?_ }
  · intro key' channel
    exact sound.inMap.trans (exists_congr fun n => (moves.other (by simp) (by simp)).symm)
  · intro channel
    show channel ∈ insert guard.channel σ.flights.closed ↔
      ∃ n k g, Function.update σ.calls call (some ⟨key, .dropped guard⟩) n = _ ∧ _
    rw [Finset.mem_insert, sound.closed]
    constructor
    · rintro (rfl | ⟨n, k, g, gone, same⟩)
      · exact ⟨call, key, guard, Function.update_self _ _ _, rfl⟩
      · refine ⟨n, k, g, ?_, same⟩
        rw [Function.update_of_ne, gone]
        rintro rfl
        cases (Call.mk.inj (Option.some.inj (gone.symm.trans here))).2
    · rintro ⟨n, k, g, gone, same⟩
      rcases Runs.update_cases gone with ⟨-, now⟩ | ⟨-, before⟩
      · obtain ⟨-, ⟨⟩⟩ := Call.mk.inj now
        exact .inl same.symm
      · exact .inr ⟨n, k, g, before, same⟩
  · intro n k channel there
    exact Finset.mem_insert_of_mem
      (sound.released ((moves.other (by simp) (by simp)).mp there))

/-- A wait returns. -/
theorem wake (sound : Sound σ) {call : Nat} {key : K} {channel : Nat}
    (here : σ.calls call = some ⟨key, .follows channel⟩) (closed : channel ∈ σ.flights.closed) :
    Sound (σ.put call key (.released channel)) := by
  have moves : Moves σ call key (.follows channel) (.released channel) := ⟨here, rfl, rfl⟩
  refine { toNumbered := moves.numbered sound.toNumbered σ.flights rfl, inMap := ?_,
           closed := ?_, released := ?_ }
  · intro key' channel
    exact sound.inMap.trans (exists_congr fun n => (moves.other (by simp) (by simp)).symm)
  · intro channel
    exact sound.closed.trans (exists_congr fun n => exists_congr fun k => exists_congr fun g =>
      and_congr_left' (moves.other (by simp) (by simp)).symm)
  · intro n k c there
    rcases Runs.update_cases there with ⟨-, now⟩ | ⟨-, before⟩
    · obtain ⟨-, ⟨⟩⟩ := Call.mk.inj now
      exact closed
    · exact sound.released before

end Sound

/-! ## A new call -/

/-- A new call has the next number, and no guard or flight that is not its own. -/
theorem Numbered.add {σ : State K} (numbered : Numbered σ) {flights : Flights K} {key : K}
    {standing : Standing K} (channels : σ.flights.channels ≤ flights.channels)
    (made : ∀ guard, standing.guard = some guard → guard.key = key ∧
      guard.channel = σ.flights.channels ∧ guard.channel < flights.channels)
    (joins : ∀ channel, standing.channel = some channel → ∃ m s guard,
      σ.calls m = some ⟨key, s⟩ ∧ s.guard = some guard ∧ guard.channel = channel) :
    Numbered (σ.add flights key standing) where
  calls there := by
    rcases Runs.update_cases there with ⟨rfl, -⟩ | ⟨-, before⟩
    · exact Nat.lt_succ_self _
    · exact (numbered.calls before).trans (Nat.lt_succ_self _)
  keyed there guard := by
    rcases Runs.update_cases there with ⟨-, new⟩ | ⟨-, before⟩
    · obtain ⟨rfl, rfl⟩ := Call.mk.inj new
      exact ⟨(made _ guard).1, (made _ guard).2.2⟩
    · have known := numbered.keyed before guard
      exact ⟨known.1, known.2.trans_le channels⟩
  once there guard there' guard' same := by
    rcases Runs.update_cases there with ⟨rfl, new⟩ | ⟨-, before⟩ <;>
      rcases Runs.update_cases there' with ⟨rfl, new'⟩ | ⟨-, before'⟩
    · rfl
    · -- the new guard's channel is above every channel so far
      obtain ⟨rfl, rfl⟩ := Call.mk.inj new
      have above := (made _ guard).2.1
      have below := (numbered.keyed before' guard').2
      omega
    · obtain ⟨rfl, rfl⟩ := Call.mk.inj new'
      have above := (made _ guard').2.1
      have below := (numbered.keyed before guard).2
      omega
    · exact numbered.once before guard before' guard' same
  opened there channel := by
    have stays {m : Nat} {call : Call K} (known : σ.calls m = some call) :
        (σ.add flights key standing).calls m = some call := by
      have older := numbered.calls known
      exact (Function.update_of_ne (by omega) _ _).trans known
    rcases Runs.update_cases there with ⟨-, new⟩ | ⟨-, before⟩
    · obtain ⟨rfl, rfl⟩ := Call.mk.inj new
      obtain ⟨m, s, guard, leader, holds, same⟩ := joins _ channel
      exact ⟨m, s, guard, stays leader, holds, same⟩
    · obtain ⟨m, s, guard, leader, holds, same⟩ := numbered.opened before channel
      exact ⟨m, s, guard, stays leader, holds, same⟩

/-- The calls that do not stand as the new one are those there were before. -/
theorem Numbered.add_other {σ : State K} (numbered : Numbered σ) {flights : Flights K} {key : K}
    {standing : Standing K} {n : Nat} {k : K} {t : Standing K} (different : t ≠ standing) :
    (σ.add flights key standing).calls n = some ⟨k, t⟩ ↔ σ.calls n = some ⟨k, t⟩ := by
  constructor
  · intro there
    rcases Runs.update_cases there with ⟨-, same⟩ | ⟨-, before⟩
    · exact absurd (Call.mk.inj same).2 different
    · exact before
  · intro before
    have older := numbered.calls before
    exact (Function.update_of_ne (by omega) _ _).trans before

namespace Sound

variable {σ : State K}

/-- A call that leads. -/
theorem lead [DecidableEq K] (sound : Sound σ) {key : K} (free : σ.flights.inFlight key = none) :
    Sound (σ.add
      { σ.flights with
        inFlight := Function.update σ.flights.inFlight key (some σ.flights.channels)
        channels := σ.flights.channels + 1 } key (.leads ⟨key, σ.flights.channels⟩)) := by
  refine { toNumbered := sound.toNumbered.add (Nat.le_succ _) ?_ ?_, inMap := ?_, closed := ?_,
           released := ?_ }
  · rintro guard made
    obtain rfl := Option.some.inj made
    exact ⟨rfl, rfl, Nat.lt_succ_self _⟩
  · intro channel joins
    cases joins
  · intro key' channel
    show Function.update σ.flights.inFlight key (some σ.flights.channels) key' = some channel ↔ _
    by_cases same : key' = key
    · subst same
      rw [Function.update_self, Option.some.injEq]
      constructor
      · rintro rfl
        exact ⟨σ.joined, Function.update_self _ _ _⟩
      · rintro ⟨n, there⟩
        rcases Runs.update_cases there with ⟨-, new⟩ | ⟨-, before⟩
        · obtain ⟨-, ⟨⟩⟩ := Call.mk.inj new
          rfl
        · -- the key was free, so no call led it
          have entry := sound.inMap.mpr ⟨n, before⟩
          rw [free] at entry
          cases entry
    · rw [Function.update_of_ne same, sound.inMap]
      refine exists_congr fun n => (sound.toNumbered.add_other ?_).symm
      intro leads
      obtain ⟨⟨rfl, -⟩⟩ := leads
      exact same rfl
  · intro channel
    exact sound.closed.trans (exists_congr fun n => exists_congr fun k => exists_congr fun g =>
      and_congr_left' (sound.toNumbered.add_other (by simp)).symm)
  · intro n k channel there
    exact sound.released ((sound.toNumbered.add_other (by simp)).mp there)

/-- A call that follows, or that goes on alone. -/
theorem joins (sound : Sound σ) {key : K} {standing : Standing K}
    (follows : standing = .alone ∨
      ∃ channel, standing = .follows channel ∧ σ.flights.inFlight key = some channel) :
    Sound (σ.add σ.flights key standing) := by
  have noGuard : standing.guard = none ∧ ∀ channel, standing ≠ .released channel := by
    rcases follows with rfl | ⟨channel, rfl, -⟩ <;> exact ⟨rfl, by simp⟩
  have others (t : Standing K) (guard : t.guard ≠ none) : t ≠ standing := by
    rintro rfl
    exact guard noGuard.1
  refine { toNumbered := sound.toNumbered.add le_rfl ?_ ?_, inMap := ?_, closed := ?_,
           released := ?_ }
  · intro guard made
    rw [noGuard.1] at made
    cases made
  · intro channel joins
    rcases follows with rfl | ⟨_, rfl, entry⟩
    · cases joins
    · obtain rfl := Option.some.inj joins
      obtain ⟨n, leader⟩ := sound.inMap.mp entry
      exact ⟨n, _, _, leader, rfl, rfl⟩
  · intro key' channel
    exact sound.inMap.trans (exists_congr fun n =>
      (sound.toNumbered.add_other (others _ (by simp [Standing.guard]))).symm)
  · intro channel
    exact sound.closed.trans (exists_congr fun n => exists_congr fun k => exists_congr fun g =>
      and_congr_left' (sound.toNumbered.add_other (others _ (by simp [Standing.guard]))).symm)
  · intro n k channel there
    exact sound.released ((sound.toNumbered.add_other (noGuard.2 channel).symm).mp there)

theorem step [DecidableEq K] {σ' : State K} {e : Event K} (sound : Sound σ) (h : σ.step e = some σ') :
    Sound σ' := by
  cases e with
  | join key mayLead =>
      obtain rfl := Option.some.inj h
      rcases join_cases σ.flights key mayLead with ⟨channel, entry, joined⟩ |
        ⟨free, -, joined⟩ | ⟨-, -, joined⟩
      · rw [joined]
        exact sound.joins (.inr ⟨channel, rfl, entry⟩)
      · rw [joined]
        exact sound.lead free
      · rw [joined]
        exact sound.joins (.inl rfl)
  | remove call =>
      obtain ⟨key, guard, here, rfl⟩ := step_remove h
      exact sound.remove here
  | close call =>
      obtain ⟨key, guard, here, rfl⟩ := step_close h
      exact sound.close here
  | wake call =>
      obtain ⟨key, channel, here, closed, rfl⟩ := step_wake.mp h
      exact sound.wake here closed

end Sound

theorem sound_run [DecidableEq K] {events : List (Event K)} {σ : State K}
    (run : Runs.run State.step start events = some σ) : Sound σ :=
  Runs.invariant_run (fun _ _ _ sound h => sound.step h) sound_start run

/-! ## What the callers get -/

/-- The flight that the call `waiter` follows was opened by the call `leader`,
for the same key. -/
def Follows (σ : State K) (waiter leader : Nat) : Prop :=
  ∃ key standing guard, σ.calls waiter = some ⟨key, .follows guard.channel⟩ ∧
    σ.calls leader = some ⟨key, standing⟩ ∧ standing.guard = some guard

/-- A guard's drop is no concern of a waiter that follows another call: it
follows the same call after the step and may return if it could before. -/
def Unconcerned [DecidableEq K] (σ σ' : State K) (call : Nat) : Prop :=
  ∀ waiter leader, Follows σ waiter leader → leader ≠ call →
    Follows σ' waiter leader ∧
      ((σ'.step (.wake waiter)).isSome = true ↔ (σ.step (.wake waiter)).isSome = true)

/-- What the registry does for its callers. -/
structure SingleFlight [DecidableEq K] (σ : State K) : Prop where
  /-- a key is in the map when exactly one guard for it has not removed it yet -/
  inMap : ∀ key, (σ.flights.inFlight key).isSome = true ↔
    ∃! n, ∃ guard, σ.calls n = some ⟨key, .leads guard⟩
  oneLeader : ∀ m n key guard guard', σ.calls m = some ⟨key, .leads guard⟩ →
    σ.calls n = some ⟨key, .leads guard'⟩ → m = n
  /-- every waiter follows one call, and returns when that call's sender has closed -/
  waits : ∀ waiter key channel, σ.calls waiter = some ⟨key, .follows channel⟩ →
    ∃! leader, Follows σ waiter leader
  wakes : ∀ waiter leader, Follows σ waiter leader →
    ((σ.step (.wake waiter)).isSome = true ↔
      ∃ key guard, σ.calls leader = some ⟨key, .dropped guard⟩)
  /-- nobody follows, from then on, a flight that has released a waiter -/
  rejoins : ∀ n key channel later σ', σ.calls n = some ⟨key, .released channel⟩ →
    Runs.run State.step σ later = some σ' →
    ∀ key' mayLead, (σ'.flights.join key' mayLead).1 ≠ .follow channel
  /-- the first step of a drop takes the guard's own entry out, and nothing else -/
  removes : ∀ call σ', σ.step (.remove call) = some σ' → ∃ key guard,
    σ.calls call = some ⟨key, .leads guard⟩ ∧ σ.flights.inFlight key = some guard.channel ∧
    σ'.flights.inFlight key = none ∧
    (∀ key' ≠ key, σ'.flights.inFlight key' = σ.flights.inFlight key') ∧
    σ'.flights.closed = σ.flights.closed ∧ (∀ n ≠ call, σ'.calls n = σ.calls n) ∧
    Unconcerned σ σ' call
  /-- the second step leaves the map, and with it a later flight for the key -/
  closes : ∀ call σ', σ.step (.close call) = some σ' → ∃ key guard,
    σ.calls call = some ⟨key, .drops guard⟩ ∧ σ.flights.inFlight key ≠ some guard.channel ∧
    σ'.flights.inFlight = σ.flights.inFlight ∧ (∀ n ≠ call, σ'.calls n = σ.calls n) ∧
    Unconcerned σ σ' call
  alone : ∀ key mayLead, (σ.flights.join key mayLead).1 = .alone ↔
    σ.flights.inFlight key = none ∧ mayLead = false

namespace Sound

variable {σ : State K}

theorem follows_unique (sound : Sound σ) {waiter leader other : Nat}
    (follows : Follows σ waiter leader) (follows' : Follows σ waiter other) : leader = other := by
  obtain ⟨key, standing, guard, here, there, made⟩ := follows
  obtain ⟨key', standing', guard', here', there', made'⟩ := follows'
  obtain ⟨-, same⟩ := Call.mk.inj (Option.some.inj (here.symm.trans here'))
  exact sound.once there made there' made' (Standing.follows.inj same)

/-- Two calls never lead for one key. -/
theorem leads_unique (sound : Sound σ) {m n : Nat} {key : K} {guard guard' : FlightGuard K}
    (leader : σ.calls m = some ⟨key, .leads guard⟩)
    (leader' : σ.calls n = some ⟨key, .leads guard'⟩) : m = n := by
  have entry := (sound.leads_inMap leader).2
  have entry' := (sound.leads_inMap leader').2
  exact sound.once leader rfl leader' rfl (Option.some.inj (entry.symm.trans entry'))

/-- A closed channel is no longer in the map. -/
theorem not_inMap (sound : Sound σ) {key : K} {channel : Nat}
    (closed : channel ∈ σ.flights.closed) : σ.flights.inFlight key ≠ some channel := by
  intro entry
  obtain ⟨n, leader⟩ := sound.inMap.mp entry
  obtain ⟨m, key', guard, gone, same⟩ := sound.closed.mp closed
  -- the guard of the channel cannot both lead and be gone
  obtain rfl := sound.once gone rfl leader rfl same
  cases (Call.mk.inj (Option.some.inj (gone.symm.trans leader))).2

/-- A join never follows a closed channel. -/
theorem join_ne_follow [DecidableEq K] (sound : Sound σ) {channel : Nat}
    (closed : channel ∈ σ.flights.closed) (key : K) (mayLead : Bool) :
    (σ.flights.join key mayLead).1 ≠ .follow channel := by
  intro joined
  rcases join_cases σ.flights key mayLead with ⟨_, entry, join⟩ | ⟨-, -, join⟩ | ⟨-, -, join⟩
  · rw [join] at joined
    obtain rfl := Join.follow.inj joined
    exact sound.not_inMap closed entry
  · rw [join] at joined
    cases joined
  · rw [join] at joined
    cases joined

/-- The channel that a waiter follows is closed when the guard of its flight
is gone. -/
theorem closed_iff (sound : Sound σ) {leader : Nat} {key : K} {standing : Standing K}
    {guard : FlightGuard K} (there : σ.calls leader = some ⟨key, standing⟩)
    (made : standing.guard = some guard) :
    guard.channel ∈ σ.flights.closed ↔
      ∃ key guard, σ.calls leader = some ⟨key, .dropped guard⟩ := by
  rw [sound.closed]
  constructor
  · rintro ⟨n, key', guard', gone, same⟩
    obtain rfl := sound.once gone rfl there made same
    exact ⟨key', guard', gone⟩
  · rintro ⟨key', guard', gone⟩
    obtain ⟨-, rfl⟩ := Call.mk.inj (Option.some.inj (there.symm.trans gone))
    obtain rfl := Option.some.inj made
    exact ⟨leader, key', guard', gone, rfl⟩

end Sound

section

variable [DecidableEq K] {σ σ' : State K}

/-- A closed channel stays closed. -/
theorem closed_step {e : Event K} (h : σ.step e = some σ') :
    σ.flights.closed ⊆ σ'.flights.closed := by
  cases e with
  | join key mayLead =>
      obtain rfl := Option.some.inj h
      rcases join_cases σ.flights key mayLead with ⟨_, -, joined⟩ | ⟨-, -, joined⟩ | ⟨-, -, joined⟩
      all_goals
        rw [joined]
        exact Finset.Subset.refl _
  | remove call =>
      obtain ⟨_, _, -, rfl⟩ := step_remove h
      exact Finset.Subset.refl _
  | close call =>
      obtain ⟨_, guard, -, rfl⟩ := step_close h
      exact Finset.subset_insert _ _
  | wake call =>
      obtain ⟨_, _, -, -, rfl⟩ := step_wake.mp h
      exact Finset.Subset.refl _

theorem closed_run {later : List (Event K)} (run : Runs.run State.step σ later = some σ') :
    σ.flights.closed ⊆ σ'.flights.closed :=
  Runs.invariant_run (I := fun τ => σ.flights.closed ⊆ τ.flights.closed)
    (fun _ _ _ before h => before.trans (closed_step h)) (Finset.Subset.refl _) run

/-- A step of one call's drop that closes no other call's channel is no
concern of those who follow other calls. -/
theorem unconcerned {call : Nat} {key : K} {standing : Standing K}
    (here : σ.calls call = some ⟨key, standing⟩) (guarded : standing.channel = none)
    (others : ∀ n ≠ call, σ'.calls n = σ.calls n)
    (same : ∀ leader key' s guard, σ.calls leader = some ⟨key', s⟩ → s.guard = some guard →
      leader ≠ call → (guard.channel ∈ σ'.flights.closed ↔ guard.channel ∈ σ.flights.closed)) :
    Unconcerned σ σ' call := by
  rintro waiter leader ⟨key', s, guard, waits, there, made⟩ other
  have away : waiter ≠ call := by
    rintro rfl
    obtain ⟨-, rfl⟩ := Call.mk.inj (Option.some.inj (here.symm.trans waits))
    cases guarded
  have waits' := (others waiter away).trans waits
  refine ⟨⟨key', s, guard, waits', (others leader other).trans there, made⟩, ?_⟩
  rw [wake_isSome waits', wake_isSome waits, same leader key' s guard there made other]

/-- A join is on its own when there is no flight to follow and it may lead
none. -/
theorem join_eq_alone (flights : Flights K) (key : K) (mayLead : Bool) :
    (flights.join key mayLead).1 = .alone ↔ flights.inFlight key = none ∧ mayLead = false := by
  rcases join_cases flights key mayLead with ⟨_, entry, join⟩ | ⟨free, may, join⟩ |
    ⟨free, may, join⟩
  · rw [join, entry]
    simp
  · rw [join, may]
    simp
  · rw [join, free, may]
    simp

/-- In every state that calls, drops and wakes lead to, in any order and for
any keys, the registry serves its callers as it should. -/
theorem single_flight {events : List (Event K)}
    (run : Runs.run State.step start events = some σ) : SingleFlight σ := by
  have sound := sound_run run
  refine { inMap := ?_, oneLeader := ?_, waits := ?_, wakes := ?_, rejoins := ?_, removes := ?_,
           closes := ?_, alone := ?_ }
  · intro key
    constructor
    · intro there
      obtain ⟨channel, entry⟩ := Option.isSome_iff_exists.mp there
      obtain ⟨n, leader⟩ := sound.inMap.mp entry
      refine ⟨n, ⟨_, leader⟩, ?_⟩
      rintro m ⟨guard, leader'⟩
      exact sound.leads_unique leader' leader
    · rintro ⟨n, ⟨guard, leader⟩, -⟩
      rw [(sound.leads_inMap leader).2]
      rfl
  · intro m n key guard guard' leader leader'
    exact sound.leads_unique leader leader'
  · intro waiter key channel here
    obtain ⟨leader, standing, guard, there, made, rfl⟩ := sound.opened here rfl
    have follows : Follows σ waiter leader := ⟨key, standing, guard, here, there, made⟩
    exact ⟨leader, follows, fun other follows' => sound.follows_unique follows' follows⟩
  · rintro waiter leader ⟨key, standing, guard, here, there, made⟩
    exact (wake_isSome here).trans (sound.closed_iff there made)
  · intro n key channel later σ' here run' key' mayLead
    have sound' : Sound σ' := Runs.invariant_run (fun _ _ _ sound h => sound.step h) sound run'
    exact sound'.join_ne_follow (closed_run run' (sound.released here)) key' mayLead
  · intro call σ' h
    obtain ⟨key, guard, here, rfl⟩ := step_remove h
    obtain ⟨rfl, entry⟩ := sound.leads_inMap here
    have others : ∀ n ≠ call, (({ σ with flights := σ.flights.remove guard } : State K).put call
        guard.key (.drops guard)).calls n = σ.calls n :=
      fun n other => Function.update_of_ne other _ _
    refine ⟨guard.key, guard, here, entry, Function.update_self _ _ _, fun key' other =>
      Function.update_of_ne other _ _, rfl, others, unconcerned here rfl others ?_⟩
    intro leader key' s guard' there made other
    exact Iff.rfl
  · intro call σ' h
    obtain ⟨key, guard, here, rfl⟩ := step_close h
    have others : ∀ n ≠ call, (({ σ with flights := σ.flights.close guard } : State K).put call
        key (.dropped guard)).calls n = σ.calls n :=
      fun n other => Function.update_of_ne other _ _
    refine ⟨key, guard, here, ?_, rfl, others, unconcerned here rfl others ?_⟩
    · intro entry
      obtain ⟨n, leader⟩ := sound.inMap.mp entry
      obtain rfl := sound.once leader rfl here rfl rfl
      cases (Call.mk.inj (Option.some.inj (leader.symm.trans here))).2
    · -- another call's guard has another channel
      intro leader key' s guard' there made other
      show guard'.channel ∈ insert guard.channel σ.flights.closed ↔ _
      rw [Finset.mem_insert, or_iff_right]
      intro same
      exact other (sound.once there made here rfl same)
  · exact join_eq_alone σ.flights

end

/-- Two flights for one key, one after the other, with a waiter of the first
that returns while the second is in flight. -/
theorem single_flight_example : ∃ σ : State Nat,
    Runs.run State.step start [.join 0 true, .join 0 true, .remove 0, .join 0 true, .close 0,
      .wake 1] = some σ ∧ σ.calls 1 = some ⟨0, .released 0⟩ ∧ σ.flights.inFlight 0 = some 1 ∧
      SingleFlight σ := by
  refine ⟨_, rfl, rfl, rfl, ?_⟩
  exact single_flight (show Runs.run State.step start [.join 0 true, .join 0 true, .remove 0,
    .join 0 true, .close 0, .wake 1] = some _ from rfl)

end Registry

end Shadowstep
