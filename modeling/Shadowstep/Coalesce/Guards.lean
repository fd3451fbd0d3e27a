import Shadowstep.Coalesce.Misses

/-!
# Guards and flights

What the flight map and the guards that requests hold have to do with each
other, whatever the lookups and the origin return: a key is in flight when
one request holds its guard, and a follower's flight has ended or has a
leader that will end it.

* `Flown` — what one step does to the flights;
* `Guarded.step` — the invariant is kept by every step.
-/

namespace Shadowstep

open Rust

namespace Misses

/-! ## Guards along a request -/

/-- The channel that the end of a request will close. -/
def Progress.channel : Progress → Option Nat
  | .closes guard _ => some guard.channel
  | progress => progress.guard.map FlightGuard.channel

/-- Neither a follower's wait nor a guard with its key gone. -/
def Progress.plain : Progress → Bool
  | .waits _ | .closes .. => false
  | _ => true

theorem channel_of_guard {progress : Progress} {guard : FlightKeyGuard}
    (h : progress.guard = some guard) : progress.channel = some guard.channel := by
  cases progress <;> simp_all [Progress.channel, Progress.guard]

theorem channel_of_plain {progress : Progress} (h : progress.plain = true) :
    progress.channel = progress.guard.map FlightGuard.channel := by
  cases progress <;> simp_all [Progress.channel, Progress.plain]

@[simp] theorem finish_guard (flight : Option FlightKeyGuard) (outcome : Outcome) :
    (finish flight outcome).guard = flight := by
  cases flight <;> rfl

@[simp] theorem finish_plain (flight : Option FlightKeyGuard) (outcome : Outcome) :
    (finish flight outcome).plain = true := by
  cases flight <;> rfl

@[simp] theorem afterFirst_guard (setting : Setting) (result : Option Lookup) :
    (afterFirst setting result).guard = none := by
  unfold afterFirst
  split
  · rfl
  · rfl
  · split <;> rfl

@[simp] theorem afterFirst_plain (setting : Setting) (result : Option Lookup) :
    (afterFirst setting result).plain = true := by
  unfold afterFirst
  split
  · rfl
  · rfl
  · split <;> rfl

@[simp] theorem afterSecond_guard (role : Role) (result : Option Lookup) :
    (afterSecond role result).guard = role.guard := by
  unfold afterSecond
  split
  · exact finish_guard _ _
  · exact finish_guard _ _
  · rfl

@[simp] theorem afterSecond_plain (role : Role) (result : Option Lookup) :
    (afterSecond role result).plain = true := by
  unfold afterSecond
  split
  · exact finish_plain _ _
  · exact finish_plain _ _
  · rfl

@[simp] theorem afterStore_guard (flight : Option FlightKeyGuard) (insertion : Pc) :
    (afterStore flight insertion).guard = flight := by
  cases insertion <;> first | exact finish_guard _ _ | rfl

@[simp] theorem afterStore_plain (flight : Option FlightKeyGuard) (insertion : Pc) :
    (afterStore flight insertion).plain = true := by
  cases insertion <;> first | exact finish_plain _ _ | rfl

@[simp] theorem arrive_guard (setting : Setting) : (arrive setting).guard = none := by
  unfold arrive
  split
  · rfl
  · exact afterFirst_guard setting none

@[simp] theorem arrive_plain (setting : Setting) : (arrive setting).plain = true := by
  unfold arrive
  split
  · rfl
  · exact afterFirst_plain setting none

/-! ## What a step does to the flights -/

/-- What one step of a request does to the flights and to its guard. -/
inductive Flown (flights : Flights FlightKey) :
    Option Progress → Progress → Flights FlightKey → Prop
  | keep {old new} (guard : new.guard = old.bind Progress.guard)
      (channel : new.channel = old.bind Progress.channel) (plain : new.plain = true) :
      Flown flights old new flights
  | lead {key lookup} (free : flights.inFlight key = none) :
      Flown flights (some (.join key)) (.second (.leads ⟨key, flights.channels⟩) lookup)
        { flights with
          inFlight := Function.update flights.inFlight key (some flights.channels)
          channels := flights.channels + 1 }
  | follow {key channel} (taken : flights.inFlight key = some channel) :
      Flown flights (some (.join key)) (.waits channel) flights
  | remove {guard outcome} :
      Flown flights (some (.removes guard outcome)) (.closes guard outcome) (flights.remove guard)
  | close {guard outcome} :
      Flown flights (some (.closes guard outcome)) (.done outcome) (flights.close guard)

/-- A step between two plain standings that keeps the guard. -/
theorem Flown.of_plain {flights : Flights FlightKey} {old new : Progress}
    (guard : new.guard = old.guard) (plain : new.plain = true) (plain' : old.plain = true) :
    Flown flights (some old) new flights :=
  .keep guard (by rw [channel_of_plain plain, Option.bind_some, channel_of_plain plain', guard])
    plain

/-- A step changes the standing of one request, and the flights with it. -/
structure Moved (σ σ' : State) (id : Nat) (progress : Progress) : Prop where
  requests : σ'.requests = Function.update σ.requests id (some progress)
  flown : Flown σ.flights (σ.requests id) progress σ'.flights

theorem join_flown {flights : Flights FlightKey} {key : FlightKey} {mayLead : Bool}
    {lookup : Pc} :
    Flown flights (some (.join key))
      (match (flights.join key mayLead).1 with
        | .alone => .toOrigin none
        | .lead guard => .second (.leads guard) lookup
        | .follow channel => .waits channel)
      (flights.join key mayLead).2 := by
  unfold Flights.join
  cases h : flights.inFlight key with
  | some channel => exact .follow h
  | none =>
      cases mayLead with
      | true => exact .lead h
      | false => exact .of_plain rfl rfl rfl

section

variable [HttpDate]

theorem lookupStep_cases {memory : Memory} {lookup : Pc} {now : Clock}
    {continuing : Pc → Progress} {after : Option Lookup → Progress} {progress : Progress}
    (h : lookupStep memory lookup now continuing after = some progress) :
    (∃ result, progress = after result) ∨ ∃ lookup, progress = continuing lookup := by
  unfold lookupStep at h
  split at h
  · exact .inl ⟨_, (Option.some.inj h).symm⟩
  · exact .inr ⟨_, (Option.some.inj h).symm⟩
  · cases h

theorem advance_moved {setting : Setting} {σ σ' : State} {id : Nat} {progress : Progress}
    {now : Clock} (here : σ.requests id = some progress)
    (h : advance setting σ id progress now = some σ') : ∃ progress', Moved σ σ' id progress' := by
  cases progress with
  | first lookup =>
      obtain ⟨progress', hstep, rfl⟩ := Option.map_eq_some_iff.mp h
      refine ⟨progress', rfl, here ▸ ?_⟩
      obtain ⟨result, rfl⟩ | ⟨lookup', rfl⟩ := lookupStep_cases hstep
      · exact .of_plain (afterFirst_guard ..) (afterFirst_plain ..) rfl
      · exact .of_plain rfl rfl rfl
  | flightKey =>
      simp only [advance] at h
      split at h
      · obtain rfl := Option.some.inj h
        exact ⟨_, rfl, here ▸ .of_plain rfl rfl rfl⟩
      · obtain rfl := Option.some.inj h
        exact ⟨_, rfl, here ▸ .of_plain rfl rfl rfl⟩
  | join key =>
      obtain rfl := Option.some.inj h
      exact ⟨_, rfl, here ▸ join_flown⟩
  | waits channel =>
      simp only [advance] at h
      split at h
      · obtain rfl := Option.some.inj h
        exact ⟨_, rfl, here ▸ .keep rfl rfl rfl⟩
      · cases h
  | second role lookup =>
      obtain ⟨progress', hstep, rfl⟩ := Option.map_eq_some_iff.mp h
      refine ⟨progress', rfl, here ▸ ?_⟩
      obtain ⟨result, rfl⟩ | ⟨lookup', rfl⟩ := lookupStep_cases hstep
      · exact .of_plain (afterSecond_guard ..) (afterSecond_plain ..) rfl
      · exact .of_plain rfl rfl rfl
  | toOrigin flight =>
      obtain rfl := Option.some.inj h
      exact ⟨_, rfl, here ▸ .of_plain rfl rfl rfl⟩
  | stores flight insertion =>
      obtain ⟨⟨insertion, memory⟩, -, rfl⟩ := Option.map_eq_some_iff.mp h
      exact ⟨_, rfl, here ▸ .of_plain (afterStore_guard ..) (afterStore_plain ..) rfl⟩
  | removes guard outcome =>
      obtain rfl := Option.some.inj h
      exact ⟨_, rfl, here ▸ .remove⟩
  | closes guard outcome =>
      obtain rfl := Option.some.inj h
      exact ⟨_, rfl, here ▸ .close⟩
  | atOrigin | streams | done => cases h

theorem step_moved {setting : Setting} {σ σ' : State} {event : Event}
    (h : step setting σ event = some σ') : ∃ id progress, Moved σ σ' id progress := by
  cases event with
  | arrive id =>
      simp only [step] at h
      split at h
      case isTrue new =>
        obtain rfl := Option.some.inj h
        refine ⟨id, _, rfl, ?_⟩
        rw [Option.isNone_iff_eq_none.mp new]
        exact .keep (arrive_guard setting)
          ((channel_of_plain (arrive_plain setting)).trans (by simp)) (arrive_plain setting)
      case isFalse => cases h
  | step id now =>
      obtain ⟨progress, here, hadvance⟩ := Option.bind_eq_some_iff.mp h
      exact ⟨id, advance_moved here hadvance⟩
  | answered id head now =>
      simp only [step] at h
      split at h
      case h_1 flight here =>
        split at h
        · obtain rfl := Option.some.inj h
          exact ⟨id, _, rfl, here ▸ .of_plain rfl rfl rfl⟩
        · obtain rfl := Option.some.inj h
          exact ⟨id, _, rfl, here ▸ .of_plain (finish_guard ..) (finish_plain ..) rfl⟩
      case h_2 => cases h
  | ended id body =>
      simp only [step] at h
      split at h
      case h_1 flight policy vary head here =>
        obtain rfl := Option.some.inj h
        exact ⟨id, _, rfl, here ▸ .of_plain rfl rfl rfl⟩
      case h_2 => cases h

end

/-! ## The invariant -/

/-- A key is in flight exactly when one request holds its guard, and the
flight that a follower waits for has ended or will be ended by a request. -/
structure Guarded (σ : State) : Prop where
  held : ∀ {id progress guard}, σ.requests id = some progress → progress.guard = some guard →
    σ.flights.inFlight guard.key = some guard.channel
  once : ∀ {id id' progress progress' guard guard'}, σ.requests id = some progress →
    σ.requests id' = some progress' → progress.guard = some guard →
    progress'.guard = some guard' → guard.channel = guard'.channel → id = id'
  made : ∀ {id progress channel}, σ.requests id = some progress →
    progress.channel = some channel → channel < σ.flights.channels
  led : ∀ {key channel}, σ.flights.inFlight key = some channel →
    ∃ id progress, σ.requests id = some progress ∧ progress.guard = some ⟨key, channel⟩
  waited : ∀ {id channel}, σ.requests id = some (.waits channel) →
    channel ∈ σ.flights.closed ∨
      ∃ leader progress, σ.requests leader = some progress ∧ progress.channel = some channel

theorem guarded_start (store : Store) : Guarded (start store) where
  held h := by cases h
  once h := by cases h
  made h := by cases h
  led h := by cases h
  waited h := by cases h

/-- After a step a request stands where it stood, or it made the step. -/
theorem Moved.cases {σ σ' : State} {id other : Nat} {progress there : Progress}
    (moved : Moved σ σ' id progress) (h : σ'.requests other = some there) :
    other = id ∧ there = progress ∨ other ≠ id ∧ σ.requests other = some there := by
  rw [moved.requests] at h
  exact Runs.update_cases h

theorem Moved.here {σ σ' : State} {id : Nat} {progress : Progress} (moved : Moved σ σ' id progress) :
    σ'.requests id = some progress := by
  rw [moved.requests, Function.update_self]

theorem Moved.elsewhere {σ σ' : State} {id other : Nat} {progress there : Progress}
    (moved : Moved σ σ' id progress) (h : σ.requests other = some there) (different : other ≠ id) :
    σ'.requests other = some there := by
  rw [moved.requests, Function.update_of_ne different, h]

/-- A request in another stage than the one that moved stays as it is. -/
theorem Moved.other {σ σ' : State} {id other : Nat} {old progress there : Progress}
    (moved : Moved σ σ' id progress) (here : σ.requests id = some old)
    (h : σ.requests other = some there) (different : there ≠ old) :
    σ'.requests other = some there := by
  refine moved.elsewhere h ?_
  rintro rfl
  exact different (Option.some.inj (h.symm.trans here))

/-- A step that keeps the guard of its request keeps all guards. -/
theorem Guarded.keep {σ σ' : State} {id : Nat} {progress : Progress} (guarded : Guarded σ)
    (moved : Moved σ σ' id progress) (flights : σ'.flights = σ.flights)
    (guard : progress.guard = (σ.requests id).bind Progress.guard)
    (channel : progress.channel = (σ.requests id).bind Progress.channel)
    (plain : progress.plain = true) : Guarded σ' := by
  -- a guard held after the step was held before it, by the same request
  have before {other there g} (h : σ'.requests other = some there) (hg : there.guard = some g) :
      ∃ there, σ.requests other = some there ∧ there.guard = some g := by
    obtain ⟨rfl, rfl⟩ | ⟨-, old⟩ := moved.cases h
    · rw [guard] at hg
      exact Option.bind_eq_some_iff.mp hg
    · exact ⟨there, old, hg⟩
  have after {other there} {α : Type} {f : Progress → Option α} {a : α}
      (same : f progress = (σ.requests id).bind f) (h : σ.requests other = some there)
      (hf : f there = some a) : ∃ there, σ'.requests other = some there ∧ f there = some a := by
    by_cases here : other = id
    · subst here
      exact ⟨progress, moved.here, by rw [same, h, Option.bind_some, hf]⟩
    · exact ⟨there, moved.elsewhere h here, hf⟩
  constructor
  · intro other there g h hg
    obtain ⟨_, old, hg⟩ := before h hg
    rw [flights]
    exact guarded.held old hg
  · intro i j there there' g g' h h' hg hg' same
    obtain ⟨_, old, hg⟩ := before h hg
    obtain ⟨_, old', hg'⟩ := before h' hg'
    exact guarded.once old old' hg hg' same
  · intro other there c h hc
    rw [flights]
    obtain ⟨rfl, rfl⟩ | ⟨-, old⟩ := moved.cases h
    · rw [channel] at hc
      obtain ⟨_, old, hc⟩ := Option.bind_eq_some_iff.mp hc
      exact guarded.made old hc
    · exact guarded.made old hc
  · intro key c h
    rw [flights] at h
    obtain ⟨other, there, old, hg⟩ := guarded.led h
    exact ⟨other, after guard old hg⟩
  · intro other c h
    rw [flights]
    obtain ⟨rfl, rfl⟩ | ⟨-, old⟩ := moved.cases h
    · cases plain
    · obtain ended | ⟨leader, there, lead, hc⟩ := guarded.waited old
      · exact .inl ended
      · exact .inr ⟨leader, after channel lead hc⟩

theorem Guarded.lead {σ σ' : State} {id : Nat} {key : FlightKey} {lookup : Pc}
    (guarded : Guarded σ)
    (moved : Moved σ σ' id (.second (.leads ⟨key, σ.flights.channels⟩) lookup))
    (here : σ.requests id = some (.join key)) (free : σ.flights.inFlight key = none)
    (flights : σ'.flights = { σ.flights with
      inFlight := Function.update σ.flights.inFlight key (some σ.flights.channels)
      channels := σ.flights.channels + 1 }) : Guarded σ' := by
  constructor
  · intro other there g h hg
    obtain ⟨rfl, rfl⟩ | ⟨-, old⟩ := moved.cases h
    · obtain rfl := Option.some.inj hg
      rw [flights]
      exact Function.update_self ..
    · have held := guarded.held old hg
      rw [flights]
      refine (Function.update_of_ne ?_ _ _).trans held
      rintro rfl
      rw [free] at held
      cases held
  · intro i j there there' g g' h h' hg hg' same
    obtain ⟨rfl, rfl⟩ | ⟨-, old⟩ := moved.cases h <;>
      obtain ⟨rfl, rfl⟩ | ⟨-, old'⟩ := moved.cases h'
    · rfl
    -- the new guard has the next channel, which no other guard has
    · obtain rfl := Option.some.inj hg
      have made := guarded.made old' (channel_of_guard hg')
      rw [← same] at made
      exact absurd made (Nat.lt_irrefl _)
    · obtain rfl := Option.some.inj hg'
      have made := guarded.made old (channel_of_guard hg)
      rw [same] at made
      exact absurd made (Nat.lt_irrefl _)
    · exact guarded.once old old' hg hg' same
  · intro other there c h hc
    rw [flights]
    obtain ⟨rfl, rfl⟩ | ⟨-, old⟩ := moved.cases h
    · obtain rfl := Option.some.inj hc
      exact Nat.lt_succ_self _
    · exact (guarded.made old hc).trans (Nat.lt_succ_self _)
  · intro other c h
    rw [flights] at h
    by_cases same : other = key
    · subst same
      simp only [Function.update_self, Option.some.injEq] at h
      subst h
      exact ⟨id, _, moved.here, rfl⟩
    · have old : σ.flights.inFlight other = some c := (Function.update_of_ne same _ _).symm.trans h
      obtain ⟨leader, there, lead, hg⟩ := guarded.led old
      exact ⟨leader, there, moved.other here lead (by rintro rfl; cases hg), hg⟩
  · intro other c h
    obtain ⟨rfl, new⟩ | ⟨-, old⟩ := moved.cases h
    · cases new
    · rw [flights]
      obtain ended | ⟨leader, there, lead, hc⟩ := guarded.waited old
      · exact .inl ended
      · exact .inr ⟨leader, there, moved.other here lead (by rintro rfl; cases hc), hc⟩

theorem Guarded.follow {σ σ' : State} {id : Nat} {key : FlightKey} {channel : Nat}
    (guarded : Guarded σ) (moved : Moved σ σ' id (.waits channel))
    (here : σ.requests id = some (.join key))
    (taken : σ.flights.inFlight key = some channel) (flights : σ'.flights = σ.flights) :
    Guarded σ' := by
  have before {other there g} (h : σ'.requests other = some there) (hg : there.guard = some g) :
      σ.requests other = some there := by
    obtain ⟨rfl, rfl⟩ | ⟨-, old⟩ := moved.cases h
    · cases hg
    · exact old
  constructor
  · intro other there g h hg
    rw [flights]
    exact guarded.held (before h hg) hg
  · intro i j there there' g g' h h' hg hg' same
    exact guarded.once (before h hg) (before h' hg') hg hg' same
  · intro other there c h hc
    rw [flights]
    obtain ⟨rfl, rfl⟩ | ⟨-, old⟩ := moved.cases h
    · cases hc
    · exact guarded.made old hc
  · intro other c h
    rw [flights] at h
    obtain ⟨leader, there, lead, hg⟩ := guarded.led h
    exact ⟨leader, there, moved.other here lead (by rintro rfl; cases hg), hg⟩
  · intro other c h
    rw [flights]
    obtain ⟨rfl, new⟩ | ⟨-, old⟩ := moved.cases h
    · obtain rfl := Progress.waits.inj new
      obtain ⟨leader, there, lead, hg⟩ := guarded.led taken
      exact .inr ⟨leader, there, moved.other here lead (by rintro rfl; cases hg), channel_of_guard hg⟩
    · obtain ended | ⟨leader, there, lead, hc⟩ := guarded.waited old
      · exact .inl ended
      · exact .inr ⟨leader, there, moved.other here lead (by rintro rfl; cases hc), hc⟩

theorem Guarded.remove {σ σ' : State} {id : Nat} {guard : FlightKeyGuard} {outcome : Outcome}
    (guarded : Guarded σ) (moved : Moved σ σ' id (.closes guard outcome))
    (here : σ.requests id = some (.removes guard outcome))
    (flights : σ'.flights = σ.flights.remove guard) : Guarded σ' := by
  have before {other there g} (h : σ'.requests other = some there) (hg : there.guard = some g) :
      other ≠ id ∧ σ.requests other = some there := by
    obtain ⟨rfl, rfl⟩ | old := moved.cases h
    · cases hg
    · exact old
  constructor
  · intro other there g h hg
    obtain ⟨different, old⟩ := before h hg
    have held := guarded.held old hg
    rw [flights]
    refine (Function.update_of_ne ?_ _ _).trans held
    -- the key has one channel, and that channel one guard
    intro same
    rw [same, guarded.held here rfl] at held
    exact different (guarded.once old here hg rfl (Option.some.inj held).symm)
  · intro i j there there' g g' h h' hg hg' same
    exact guarded.once (before h hg).2 (before h' hg').2 hg hg' same
  · intro other there c h hc
    rw [flights]
    obtain ⟨rfl, rfl⟩ | ⟨-, old⟩ := moved.cases h
    · exact guarded.made here hc
    · exact guarded.made old hc
  · intro other c h
    rw [flights] at h
    by_cases same : other = guard.key
    · subst same
      simp [Flights.remove] at h
    · have old : σ.flights.inFlight other = some c := (Function.update_of_ne same _ _).symm.trans h
      obtain ⟨leader, there, lead, hg⟩ := guarded.led old
      refine ⟨leader, there, moved.elsewhere lead ?_, hg⟩
      rintro rfl
      obtain rfl := Option.some.inj (here.symm.trans lead)
      obtain rfl := Option.some.inj hg
      exact same rfl
  · intro other c h
    rw [flights]
    obtain ⟨rfl, new⟩ | ⟨-, old⟩ := moved.cases h
    · cases new
    · obtain ended | ⟨leader, there, lead, hc⟩ := guarded.waited old
      · exact .inl ended
      · by_cases same : leader = id
        · subst same
          obtain rfl := Option.some.inj (here.symm.trans lead)
          exact .inr ⟨leader, _, moved.here, hc⟩
        · exact .inr ⟨leader, there, moved.elsewhere lead same, hc⟩

theorem Guarded.close {σ σ' : State} {id : Nat} {guard : FlightKeyGuard} {outcome : Outcome}
    (guarded : Guarded σ) (moved : Moved σ σ' id (.done outcome))
    (here : σ.requests id = some (.closes guard outcome))
    (flights : σ'.flights = σ.flights.close guard) : Guarded σ' := by
  have before {other there c} (h : σ'.requests other = some there) (hc : there.channel = some c) :
      σ.requests other = some there := by
    obtain ⟨rfl, rfl⟩ | ⟨-, old⟩ := moved.cases h
    · cases hc
    · exact old
  constructor
  · intro other there g h hg
    rw [flights]
    exact guarded.held (before h (channel_of_guard hg)) hg
  · intro i j there there' g g' h h' hg hg' same
    exact guarded.once (before h (channel_of_guard hg)) (before h' (channel_of_guard hg')) hg hg'
      same
  · intro other there c h hc
    rw [flights]
    exact guarded.made (before h hc) hc
  · intro other c h
    rw [flights] at h
    obtain ⟨leader, there, lead, hg⟩ := guarded.led h
    exact ⟨leader, there, moved.other here lead (by rintro rfl; cases hg), hg⟩
  · intro other c h
    rw [flights]
    obtain ⟨rfl, new⟩ | ⟨-, old⟩ := moved.cases h
    · cases new
    · obtain ended | ⟨leader, there, lead, hc⟩ := guarded.waited old
      · exact .inl (Finset.mem_insert_of_mem ended)
      · by_cases same : leader = id
        · subst same
          obtain rfl := Option.some.inj (here.symm.trans lead)
          obtain rfl := Option.some.inj hc
          exact .inl (Finset.mem_insert_self ..)
        · exact .inr ⟨leader, there, moved.elsewhere lead same, hc⟩

theorem Guarded.moved {σ σ' : State} {id : Nat} {progress : Progress} (guarded : Guarded σ)
    (moved : Moved σ σ' id progress) : Guarded σ' := by
  have flown := moved.flown
  generalize hold : σ.requests id = old at flown
  generalize hflights : σ'.flights = flights at flown
  cases flown with
  | keep guard channel plain =>
      exact guarded.keep moved hflights (hold ▸ guard) (hold ▸ channel) plain
  | lead free => exact guarded.lead moved hold free hflights
  | follow taken => exact guarded.follow moved hold taken hflights
  | remove => exact guarded.remove moved hold hflights
  | close => exact guarded.close moved hold hflights

theorem Guarded.step [HttpDate] {setting : Setting} {σ σ' : State} {event : Event}
    (guarded : Guarded σ) (h : step setting σ event = some σ') : Guarded σ' := by
  obtain ⟨id, progress, moved⟩ := step_moved h
  exact guarded.moved moved

end Misses

end Shadowstep
