import Mathlib.Data.Finset.Card
import Mathlib.Data.Finset.Erase

/-!
# Spending once

Each newcomer may spend one unit, once, and may leave without spending. So at
most as much is spent as there have been newcomers, and for each that may still
spend there is one unit less.

* `Within` — what is spent and what may still be spent is covered;
* `Within.admit`, `Within.spend`, `Within.keep` — the three ways to go on;
* `Balanced` — every unit is accounted for, those of who left too;
* `Balanced.book` — the ways to go on, by what each adds to the accounts.
-/

namespace Budget

variable {ι : Type*}

/-- Of `given` units `spent` are spent, and everybody who is `due` has another. -/
def Within (due : ι → Prop) (spent given : Nat) : Prop :=
  ∃ ids : Finset ι, (∀ id, due id → id ∈ ids) ∧ spent + ids.card ≤ given

variable {due due' : ι → Prop} {spent given : Nat}

theorem Within.le (within : Within due spent given) : spent ≤ given := by
  obtain ⟨ids, -, covered⟩ := within
  omega

theorem Within.start (nobody : ∀ id, ¬ due id) : Within due 0 0 :=
  ⟨∅, fun id h => absurd h (nobody id), Nat.le_refl _⟩

theorem Within.mono (within : Within due spent given) {less : Nat} (le : less ≤ spent) :
    Within due less given := by
  obtain ⟨ids, covers, covered⟩ := within
  exact ⟨ids, covers, by omega⟩

/-- Nothing is spent, and nobody new is due. -/
theorem Within.keep (within : Within due spent given) (left : ∀ id, due' id → due id) :
    Within due' spent given := by
  obtain ⟨ids, covers, covered⟩ := within
  exact ⟨ids, fun id h => covers id (left id h), covered⟩

variable [DecidableEq ι]

/-- A newcomer. -/
theorem Within.admit (within : Within due spent given) (id : ι)
    (left : ∀ other, due' other → other = id ∨ due other) : Within due' spent (given + 1) := by
  obtain ⟨ids, covers, covered⟩ := within
  refine ⟨insert id ids, fun other h => ?_, ?_⟩
  · rcases left other h with rfl | before
    · exact Finset.mem_insert_self ..
    · exact Finset.mem_insert_of_mem (covers other before)
  · have := Finset.card_insert_le id ids
    omega

/-- Who spends is not due any more. -/
theorem Within.spend (within : Within due spent given) {id : ι} (was : due id)
    (left : ∀ other, due' other → other ≠ id ∧ due other) : Within due' (spent + 1) given := by
  obtain ⟨ids, covers, covered⟩ := within
  refine ⟨ids.erase id, fun other h => ?_, ?_⟩
  · obtain ⟨differ, before⟩ := left other h
    exact Finset.mem_erase.mpr ⟨differ, covers other before⟩
  · have := Finset.card_erase_add_one (covers id was)
    omega

/-! ## Accounts -/

/-- Each of the `given` units is spent, is left behind, or is that of somebody
who is `due`. -/
def Balanced (due : ι → Prop) (spent left given : Nat) : Prop :=
  ∃ ids : Finset ι, (∀ id, id ∈ ids ↔ due id) ∧ spent + ids.card + left = given

variable {left : Nat}

omit [DecidableEq ι] in
theorem Balanced.start (nobody : ∀ id, ¬ due id) : Balanced due 0 0 0 :=
  ⟨∅, fun id => iff_of_false (Finset.notMem_empty id) (nobody id), rfl⟩

omit [DecidableEq ι] in
theorem Balanced.keep (balanced : Balanced due spent left given) (same : ∀ id, due' id ↔ due id) :
    Balanced due' spent left given := by
  obtain ⟨ids, exactly, total⟩ := balanced
  exact ⟨ids, fun id => (exactly id).trans (same id).symm, total⟩

theorem Balanced.admit (balanced : Balanced due spent left given) {id : ι} (new : ¬ due id)
    (changed : ∀ other, due' other ↔ other = id ∨ due other) :
    Balanced due' spent left (given + 1) := by
  obtain ⟨ids, exactly, total⟩ := balanced
  refine ⟨insert id ids, fun other => ?_, ?_⟩
  · rw [Finset.mem_insert, exactly, changed]
  · rw [Finset.card_insert_of_notMem fun h => new ((exactly id).mp h)]
    omega

/-- Who was due is not any more, and has spent the unit or left it behind. -/
theorem Balanced.close (balanced : Balanced due spent left given) {id : ι} (was : due id)
    (changed : ∀ other, due' other ↔ other ≠ id ∧ due other) {spent' left' : Nat}
    (one : spent' + left' = spent + left + 1) : Balanced due' spent' left' given := by
  obtain ⟨ids, exactly, total⟩ := balanced
  refine ⟨ids.erase id, fun other => ?_, ?_⟩
  · rw [Finset.mem_erase, exactly, changed]
  · have := Finset.card_erase_add_one ((exactly id).mpr was)
    omega

/-- What a step adds to what is spent, left behind and given. -/
inductive Entry (due due' : ι → Prop) : Nat → Nat → Nat → Prop
  | nothing (same : ∀ id, due' id ↔ due id) : Entry due due' 0 0 0
  | admits {id} (new : ¬ due id) (changed : ∀ other, due' other ↔ other = id ∨ due other) :
    Entry due due' 0 0 1
  | spends {id} (was : due id) (changed : ∀ other, due' other ↔ other ≠ id ∧ due other) :
    Entry due due' 1 0 0
  | leaves {id} (was : due id) (changed : ∀ other, due' other ↔ other ≠ id ∧ due other) :
    Entry due due' 0 1 0

theorem Balanced.book (balanced : Balanced due spent left given) {spent' left' given' : Nat}
    (entry : Entry due due' spent' left' given') :
    Balanced due' (spent + spent') (left + left') (given + given') := by
  cases entry with
  | nothing same => exact balanced.keep same
  | admits new changed => exact balanced.admit new changed
  | spends was changed => exact balanced.close was changed (Nat.add_right_comm ..)
  | leaves was changed => exact balanced.close was changed rfl

end Budget
