import Shadowstep.Coalesce.Misses
import Mathlib.Algebra.BigOperators.Group.Finset.Basic
import Mathlib.Algebra.Order.BigOperators.Group.Finset

/-!
# Runs end

Every access brings a call closer to its return, and every step brings a
request closer to its answer, so the length of a run is bounded by the number
of its requests. A request never looks, waits or leads a third time.

* `steps_bounded` — at most `longest` steps for each request.
-/

namespace Shadowstep

open Rust

/-! ## Calls -/

/-- How many accesses a call has left at most. -/
def Pc.rank : Pc → Nat
  | .freshenEntry .. => 5
  | .insertIndexGet _ => 4
  | .insertFetchAdd _ => 3
  | .lookupIndex .. | .insertIndexPut .. => 2
  | .lookupEntry .. | .insertEntry .. | .freshenRemove _ | .invalidateIndex _ => 1
  | .lookedUp .. | .inserted .. | .refused _ | .freshened | .invalidated _ => 0

theorem Access.rank_lt {memory memory' : Memory} {now : Clock} {pc pc' : Pc}
    (access : Access memory now pc pc' memory') : pc'.rank < pc.rank := by
  cases access <;> simp [Pc.rank]

namespace Misses

/-! ## Requests -/

/-- How many steps a request has left at most. -/
def Progress.rank : Progress → Nat
  | .first lookup => 20 + lookup.rank
  | .flightKey => 19
  | .join _ => 18
  | .waits _ => 17
  | .second _ lookup => 13 + lookup.rank
  | .toOrigin _ => 12
  | .atOrigin _ => 11
  | .streams .. => 10
  | .stores _ insertion => 4 + insertion.rank
  | .removes .. => 2
  | .closes .. => 1
  | .done _ => 0

/-- The steps of a request that looks twice and goes to the origin. -/
def longest : Nat := 22

theorem finish_rank (flight : Option FlightKeyGuard) (outcome : Outcome) :
    (finish flight outcome).rank ≤ 2 := by
  cases flight <;> simp [finish, Progress.rank]

theorem afterFirst_rank (setting : Setting) (result : Option Lookup) :
    (afterFirst setting result).rank < 20 := by
  unfold afterFirst
  split
  · simp [Progress.rank]
  · simp [Progress.rank]
  · split <;> simp [Progress.rank]

theorem afterSecond_rank (role : Role) (result : Option Lookup) :
    (afterSecond role result).rank < 13 := by
  have := finish_rank role.guard
  unfold afterSecond
  split
  · exact (this _).trans_lt (by omega)
  · exact (this _).trans_lt (by omega)
  · simp [Progress.rank]

theorem afterStore_rank (flight : Option FlightKeyGuard) (insertion : Pc) :
    (afterStore flight insertion).rank ≤ 4 + insertion.rank := by
  have := finish_rank flight .fromOrigin
  unfold afterStore
  split
  · omega
  · omega
  · simp [Progress.rank]

theorem arrive_rank (setting : Setting) : (arrive setting).rank ≤ longest := by
  unfold arrive
  split
  · simp [Progress.rank, startLookup, Pc.rank, longest]
  · have := afterFirst_rank setting none
    simp only [longest]
    omega

def Event.isArrival : Event → Bool
  | .arrive _ => true
  | _ => false

/-- The requests have at most `n` steps left between them. -/
def Left (σ : State) (n : Nat) : Prop :=
  ∃ ids : Finset Nat, (∀ id, (σ.requests id).isSome → id ∈ ids) ∧
    ∑ id ∈ ids, (σ.requests id).elim 0 Progress.rank ≤ n

theorem sum_update (requests : Nat → Option Progress) (ids : Finset Nat) (id : Nat)
    (progress : Progress) :
    ∑ other ∈ insert id ids,
        (Function.update requests id (some progress) other).elim 0 Progress.rank +
          (requests id).elim 0 Progress.rank =
      progress.rank + ∑ other ∈ insert id ids, (requests other).elim 0 Progress.rank := by
  have same : ∑ other ∈ (insert id ids).erase id,
      (Function.update requests id (some progress) other).elim 0 Progress.rank =
        ∑ other ∈ (insert id ids).erase id, (requests other).elim 0 Progress.rank :=
    Finset.sum_congr rfl fun other h => by
      rw [Function.update_of_ne (Finset.ne_of_mem_erase h)]
  rw [← Finset.add_sum_erase _ _ (Finset.mem_insert_self id ids),
    ← Finset.add_sum_erase _ (fun other => (requests other).elim 0 Progress.rank)
      (Finset.mem_insert_self id ids), same, Function.update_self]
  simp only [Option.elim_some]
  omega

section

variable [HttpDate]

theorem lookupStep_rank {memory : Memory} {lookup : Pc} {now : Clock}
    {continuing : Pc → Progress} {after : Option Lookup → Progress} {progress : Progress}
    {base : Nat} (hcontinuing : ∀ pc, (continuing pc).rank = base + pc.rank)
    (hafter : ∀ result, (after result).rank < base)
    (h : lookupStep memory lookup now continuing after = some progress) :
    progress.rank < base + lookup.rank := by
  unfold lookupStep at h
  split at h
  · obtain rfl := Option.some.inj h
    have := hafter ‹_›
    omega
  case h_2 next =>
    obtain rfl := Option.some.inj h
    have := (next_access next).rank_lt
    rw [hcontinuing]
    omega
  · cases h

/-- A step of a request takes it closer to its answer. -/
theorem advance_rank {setting : Setting} {σ σ' : State} {id : Nat} {old : Progress} {now : Clock}
    (h : advance setting σ id old now = some σ') : ∃ progress,
      σ'.requests = Function.update σ.requests id (some progress) ∧ progress.rank < old.rank := by
  cases old with
  | first lookup =>
      obtain ⟨progress, hstep, rfl⟩ := Option.map_eq_some_iff.mp h
      exact ⟨progress, rfl, lookupStep_rank (fun _ => rfl) (afterFirst_rank setting) hstep⟩
  | flightKey =>
      simp only [advance] at h
      split at h
      · obtain rfl := Option.some.inj h
        exact ⟨_, rfl, by simp [Progress.rank]⟩
      · obtain rfl := Option.some.inj h
        exact ⟨_, rfl, by simp [Progress.rank]⟩
  | join key =>
      obtain rfl := Option.some.inj h
      refine ⟨_, rfl, ?_⟩
      split <;> simp [Progress.rank, startLookup, Pc.rank]
  | waits channel =>
      simp only [advance] at h
      split at h
      · obtain rfl := Option.some.inj h
        exact ⟨_, rfl, by simp [Progress.rank, startLookup, Pc.rank]⟩
      · cases h
  | second role lookup =>
      obtain ⟨progress, hstep, rfl⟩ := Option.map_eq_some_iff.mp h
      exact ⟨progress, rfl, lookupStep_rank (fun _ => rfl) (afterSecond_rank role) hstep⟩
  | stores flight insertion =>
      obtain ⟨⟨next, memory⟩, hnext, rfl⟩ := Option.map_eq_some_iff.mp h
      refine ⟨_, rfl, ?_⟩
      have := (next_access hnext).rank_lt
      have := afterStore_rank flight next
      change _ < 4 + insertion.rank
      omega
  | toOrigin | removes | closes =>
      obtain rfl := Option.some.inj h
      exact ⟨_, rfl, by simp [Progress.rank]⟩
  | atOrigin | streams | done => cases h

/-! ## Runs -/

theorem step_rank {setting : Setting} {σ σ' : State} {event : Event}
    (h : step setting σ event = some σ') : ∃ id progress,
      σ'.requests = Function.update σ.requests id (some progress) ∧
      (event.isArrival = true ∧ σ.requests id = none ∧ progress.rank ≤ longest ∨
        event.isArrival = false ∧
          ∃ old, σ.requests id = some old ∧ progress.rank < old.rank) := by
  cases event with
  | arrive id =>
      simp only [step, Option.isNone_iff_eq_none] at h
      split at h
      case isTrue new =>
        obtain rfl := Option.some.inj h
        exact ⟨id, _, rfl, .inl ⟨rfl, new, arrive_rank setting⟩⟩
      case isFalse => cases h
  | step id now =>
      obtain ⟨old, here, hadvance⟩ := Option.bind_eq_some_iff.mp h
      obtain ⟨progress, moved, lower⟩ := advance_rank hadvance
      exact ⟨id, progress, moved, .inr ⟨rfl, old, here, lower⟩⟩
  | answered id head now =>
      simp only [step] at h
      split at h
      case h_1 flight here =>
        split at h
        · obtain rfl := Option.some.inj h
          exact ⟨id, _, rfl, .inr ⟨rfl, _, here, by simp [Progress.rank]⟩⟩
        · obtain rfl := Option.some.inj h
          refine ⟨id, _, rfl, .inr ⟨rfl, _, here, ?_⟩⟩
          exact (finish_rank flight .fromOrigin).trans_lt (by simp [Progress.rank])
      case h_2 => cases h
  | ended id body =>
      simp only [step] at h
      split at h
      case h_1 flight policy vary head here =>
        obtain rfl := Option.some.inj h
        exact ⟨id, _, rfl, .inr ⟨rfl, _, here, by simp [Progress.rank, Pc.rank]⟩⟩
      case h_2 => cases h

theorem Left.step {setting : Setting} {σ σ' : State} {event : Event} {n : Nat} (left : Left σ n)
    (h : step setting σ event = some σ') :
    event.isArrival = true ∧ Left σ' (n + longest) ∨
      event.isArrival = false ∧ ∃ m, n = m + 1 ∧ Left σ' m := by
  obtain ⟨ids, covers, bound⟩ := left
  obtain ⟨id, progress, moved, step⟩ := step_rank h
  have covers' : ∀ other, (σ'.requests other).isSome → other ∈ insert id ids := by
    intro other stands
    rw [moved] at stands
    by_cases same : other = id
    · exact same ▸ Finset.mem_insert_self ..
    · rw [Function.update_of_ne same] at stands
      exact Finset.mem_insert_of_mem (covers other stands)
  have sum := sum_update σ.requests ids id progress
  rw [← moved] at sum
  -- an arrival adds one rank, and any other step lowers one
  obtain ⟨arrival, new, rank⟩ | ⟨other, old, here, rank⟩ := step
  · refine .inl ⟨arrival, insert id ids, covers', ?_⟩
    have same : ∑ other ∈ insert id ids, (σ.requests other).elim 0 Progress.rank =
        ∑ other ∈ ids, (σ.requests other).elim 0 Progress.rank :=
      Finset.sum_insert_of_eq_zero_if_notMem fun _ => by rw [new]; rfl
    rw [same, new, Option.elim_none] at sum
    omega
  · have known := covers id (by rw [here]; rfl)
    rw [Finset.insert_eq_of_mem known] at sum covers'
    rw [here, Option.elim_some] at sum
    have most : old.rank ≤ ∑ other ∈ ids, (σ.requests other).elim 0 Progress.rank := by
      refine le_trans ?_ (Finset.single_le_sum (fun _ _ => Nat.zero_le _) known)
      rw [here]
      rfl
    exact .inr ⟨other, n - 1, by omega, ids, covers', by omega⟩

theorem Left.run {setting : Setting} {σ σ' : State} {events : List Event} {n : Nat}
    (left : Left σ n) (h : Runs.run (Misses.step setting) σ events = some σ') :
    events.countP (!·.isArrival) ≤ n + longest * events.countP Event.isArrival := by
  induction events generalizing σ n with
  | nil => simp
  | cons event rest ih =>
      obtain ⟨next, hstep, hrest⟩ := Runs.run_cons.mp h
      rw [List.countP_cons, List.countP_cons, Nat.mul_add]
      obtain ⟨arrival, later⟩ | ⟨other, m, rfl, later⟩ := left.step hstep
      · have := ih later hrest
        simp only [arrival, Bool.not_true, Bool.false_eq_true, ↓reduceIte, mul_one]
        omega
      · have := ih later hrest
        simp only [other, Bool.not_false, Bool.false_eq_true, ↓reduceIte, mul_zero]
        omega

/-- A run takes at most `longest` steps for each request that arrives. -/
theorem steps_bounded {setting : Setting} {store : Store} {σ : State} {events : List Event}
    (h : Runs.run (step setting) (start store) events = some σ) :
    events.countP (!·.isArrival) ≤ longest * events.countP Event.isArrival := by
  have left : Left (start store) 0 := ⟨∅, fun _ stands => by simp [start] at stands, by simp⟩
  simpa using left.run h

end

end Misses

end Shadowstep
