import Mathlib.Data.Finset.Erase
import Mathlib.Data.Finset.Insert
import Shadowstep.Lib.Runs

/-!
# Keys that are claimed

A set of taken keys beside the holders that took them. A holder adds its key
to the set when it is not there, and removes it again on release; nobody
checks on removal whose key it is. The set stays right when a holder removes
its own key only.

* `Exact` — the taken keys are those of the holders, one holder each;
* `Exact.claim`, `Exact.release` — the two operations keep it.
-/

namespace Claims

variable {ι κ : Type*}

/-- The taken keys are exactly those that somebody holds, and no two hold the
same. -/
structure Exact (taken : Finset κ) (holds : ι → Option κ) : Prop where
  taken_iff : ∀ key, key ∈ taken ↔ ∃ id, holds id = some key
  one : ∀ id id' key, holds id = some key → holds id' = some key → id = id'

variable {taken : Finset κ} {holds : ι → Option κ}

theorem Exact.empty : Exact (∅ : Finset κ) (fun _ : ι => none) where
  taken_iff key := by simp
  one id id' key held _ := by cases held

variable [DecidableEq ι] [DecidableEq κ]

/-- Who claims a key that is not taken is its only holder. -/
theorem Exact.claim (claims : Exact taken holds) {id : ι} {key : κ} (idle : holds id = none)
    (free : key ∉ taken) : Exact (insert key taken) (Function.update holds id (some key)) := by
  have unheld : ∀ other, holds other ≠ some key :=
    fun other held => free ((claims.taken_iff key).mpr ⟨other, held⟩)
  constructor
  case taken_iff =>
    intro other
    rw [Finset.mem_insert, claims.taken_iff]
    constructor
    · rintro (rfl | ⟨holder, held⟩)
      · exact ⟨id, Function.update_self ..⟩
      · have differ : holder ≠ id := by
          rintro rfl
          rw [idle] at held
          cases held
        exact ⟨holder, (Function.update_of_ne differ ..).trans held⟩
    · rintro ⟨holder, held⟩
      rcases Runs.update_cases held with ⟨-, same⟩ | ⟨-, before⟩
      · exact .inl same
      · exact .inr ⟨holder, before⟩
  case one =>
    intro left right other held held'
    rcases Runs.update_cases held with ⟨hl, same⟩ | ⟨-, before⟩ <;>
      rcases Runs.update_cases held' with ⟨hr, same'⟩ | ⟨-, before'⟩
    · rw [hl, hr]
    · rw [same] at before'
      exact absurd before' (unheld right)
    · rw [same'] at before
      exact absurd before (unheld left)
    · exact claims.one left right other before before'

/-- A holder that removes its own key leaves every other claim as it is. -/
theorem Exact.release (claims : Exact taken holds) {id : ι} {key : κ} (held : holds id = some key) :
    Exact (taken.erase key) (Function.update holds id none) := by
  have others : ∀ other key', Function.update holds id none other = some key' →
      other ≠ id ∧ holds other = some key' := by
    intro other key' h
    by_cases same : other = id
    · subst same
      rw [Function.update_self] at h
      cases h
    · rw [Function.update_of_ne same] at h
      exact ⟨same, h⟩
  constructor
  case taken_iff =>
    intro other
    rw [Finset.mem_erase, claims.taken_iff]
    constructor
    · rintro ⟨differ, holder, holds'⟩
      have away : holder ≠ id := by
        rintro rfl
        exact differ (Option.some.inj (holds'.symm.trans held))
      exact ⟨holder, (Function.update_of_ne away ..).trans holds'⟩
    · rintro ⟨holder, h⟩
      obtain ⟨away, holds'⟩ := others holder other h
      refine ⟨?_, holder, holds'⟩
      rintro rfl
      exact away (claims.one holder id other holds' held)
  case one =>
    intro left right other h h'
    exact claims.one left right other (others left other h).2 (others right other h').2

end Claims
