import Mathlib.Data.Finset.Insert
import Shadowstep.Lib.Runs

/-!
# Numbered leases

A table that leases each key to one holder at a time, under a number that was
never used before. When a lease ends, its key leaves the table and its number
is closed. Others wait for a number to close.

* `Sound` — the table is what the holders hold, and no lease in it is closed;
* `Sound.grant`, `Sound.revoke` — the two operations keep it;
* `Attended` — a number that is waited for is closed, or somebody will close
  it.
-/

namespace Leases

variable {ι κ : Type*}

/-- The numbers of the leases are distinct, below the next one, and open. -/
structure Sound (table : κ → Option Nat) (next : Nat) (closed : Finset Nat)
    (holds : ι → Option (κ × Nat)) : Prop where
  table_iff : ∀ key number, table key = some number ↔ ∃ id, holds id = some (key, number)
  one : ∀ id id' key number, holds id = some (key, number) → holds id' = some (key, number) →
    id = id'
  numbered : ∀ key key' number, table key = some number → table key' = some number → key = key'
  below : ∀ key number, table key = some number → number < next
  closed_below : ∀ number ∈ closed, number < next
  open_held : ∀ key number, table key = some number → number ∉ closed

/-- The number is closed, or a lease that somebody holds. -/
def Attended (closed : Finset Nat) (holds : ι → Option (κ × Nat)) (number : Nat) : Prop :=
  number ∈ closed ∨ ∃ id key, holds id = some (key, number)

variable {table : κ → Option Nat} {next : Nat} {closed : Finset Nat} {holds : ι → Option (κ × Nat)}

theorem Sound.empty : Sound (fun _ : κ => none) 0 ∅ (fun _ : ι => none) := by
  constructor <;> simp

/-- What is in the table is attended. -/
theorem Sound.attended (sound : Sound table next closed holds) {key : κ} {number : Nat}
    (there : table key = some number) : Attended closed holds number := by
  obtain ⟨id, held⟩ := (sound.table_iff key number).mp there
  exact .inr ⟨id, key, held⟩

variable [DecidableEq ι] [DecidableEq κ]

/-- A free key is leased under the next number. -/
theorem Sound.grant (sound : Sound table next closed holds) {id : ι} {key : κ}
    (free : table key = none) (idle : holds id = none) :
    Sound (Function.update table key (some next)) (next + 1) closed
      (Function.update holds id (some (key, next))) := by
  have unused : ∀ other, table other ≠ some next := fun other there =>
    absurd (sound.below other next there) (Nat.lt_irrefl _)
  constructor
  case table_iff =>
    intro other number
    constructor
    · intro there
      rcases Runs.update_cases there with ⟨rfl, rfl⟩ | ⟨-, before⟩
      · exact ⟨id, Function.update_self ..⟩
      · obtain ⟨holder, held⟩ := (sound.table_iff other number).mp before
        have differ : holder ≠ id := by
          rintro rfl
          rw [idle] at held
          cases held
        exact ⟨holder, (Function.update_of_ne differ ..).trans held⟩
    · rintro ⟨holder, held⟩
      rcases Runs.update_cases held with ⟨-, same⟩ | ⟨-, before⟩
      · obtain ⟨rfl, rfl⟩ := Prod.mk.inj same
        exact Function.update_self ..
      · have there := (sound.table_iff other number).mpr ⟨holder, before⟩
        have differ : other ≠ key := by
          rintro rfl
          rw [free] at there
          cases there
        exact (Function.update_of_ne differ ..).trans there
  case one =>
    intro left right other number held held'
    rcases Runs.update_cases held with ⟨rfl, same⟩ | ⟨-, before⟩ <;>
      rcases Runs.update_cases held' with ⟨rfl, same'⟩ | ⟨-, before'⟩
    · rfl
    · obtain ⟨rfl, rfl⟩ := Prod.mk.inj same
      exact absurd ((sound.table_iff _ _).mpr ⟨right, before'⟩) (unused _)
    · obtain ⟨rfl, rfl⟩ := Prod.mk.inj same'
      exact absurd ((sound.table_iff _ _).mpr ⟨left, before⟩) (unused _)
    · exact sound.one left right other number before before'
  case numbered =>
    intro left right number there there'
    rcases Runs.update_cases there with ⟨rfl, rfl⟩ | ⟨-, before⟩ <;>
      rcases Runs.update_cases there' with ⟨rfl, same⟩ | ⟨-, before'⟩
    · rfl
    · exact absurd before' (unused right)
    · exact absurd (same ▸ before) (unused left)
    · exact sound.numbered left right number before before'
  case below =>
    intro other number there
    rcases Runs.update_cases there with ⟨-, rfl⟩ | ⟨-, before⟩
    · exact Nat.lt_succ_self _
    · exact Nat.lt_succ_of_lt (sound.below other number before)
  case closed_below => exact fun number h => Nat.lt_succ_of_lt (sound.closed_below number h)
  case open_held =>
    intro other number there
    rcases Runs.update_cases there with ⟨-, rfl⟩ | ⟨-, before⟩
    · exact fun h => absurd (sound.closed_below _ h) (Nat.lt_irrefl _)
    · exact sound.open_held other number before

/-- A holder gives up its lease. -/
theorem Sound.revoke (sound : Sound table next closed holds) {id : ι} {key : κ} {number : Nat}
    (held : holds id = some (key, number)) :
    Sound (Function.update table key none) next (insert number closed)
      (Function.update holds id none) := by
  have leased := (sound.table_iff key number).mpr ⟨id, held⟩
  -- what is left in the table is another lease
  have others : ∀ other other', Function.update table key none other = some other' →
      other ≠ key ∧ table other = some other' := by
    intro other other' h
    by_cases same : other = key
    · subst same
      rw [Function.update_self] at h
      cases h
    · rw [Function.update_of_ne same] at h
      exact ⟨same, h⟩
  have holders : ∀ other lease, Function.update holds id none other = some lease →
      other ≠ id ∧ holds other = some lease := by
    intro other lease h
    by_cases same : other = id
    · subst same
      rw [Function.update_self] at h
      cases h
    · rw [Function.update_of_ne same] at h
      exact ⟨same, h⟩
  constructor
  case table_iff =>
    intro other number'
    constructor
    · intro there
      obtain ⟨differ, before⟩ := others other number' there
      obtain ⟨holder, held'⟩ := (sound.table_iff other number').mp before
      have away : holder ≠ id := by
        rintro rfl
        rw [held] at held'
        exact differ (Prod.mk.inj (Option.some.inj held')).1.symm
      exact ⟨holder, (Function.update_of_ne away ..).trans held'⟩
    · rintro ⟨holder, held'⟩
      obtain ⟨away, before⟩ := holders holder _ held'
      have there := (sound.table_iff other number').mpr ⟨holder, before⟩
      have differ : other ≠ key := by
        rintro rfl
        obtain rfl := Option.some.inj (leased.symm.trans there)
        exact away (sound.one holder id other number before held)
      exact (Function.update_of_ne differ ..).trans there
  case one =>
    intro left right other number' h h'
    exact sound.one left right other number' (holders left _ h).2 (holders right _ h').2
  case numbered =>
    intro left right number' h h'
    exact sound.numbered left right number' (others left _ h).2 (others right _ h').2
  case below => exact fun other number' h => sound.below other number' (others other _ h).2
  case closed_below =>
    intro number' h
    rcases Finset.mem_insert.mp h with rfl | h
    · exact sound.below key _ leased
    · exact sound.closed_below number' h
  case open_held =>
    intro other number' h closed'
    obtain ⟨differ, before⟩ := others other number' h
    rcases Finset.mem_insert.mp closed' with rfl | earlier
    · exact differ (sound.numbered other key _ before leased)
    · exact sound.open_held other number' before earlier

omit [DecidableEq κ] in
/-- A new lease leaves every other number attended. -/
theorem Attended.grant {number : Nat} (attended : Attended closed holds number) {id : ι}
    (idle : holds id = none) (lease : κ × Nat) :
    Attended closed (Function.update holds id (some lease)) number := by
  rcases attended with done | ⟨holder, key, held⟩
  · exact .inl done
  · have differ : holder ≠ id := by
      rintro rfl
      rw [idle] at held
      cases held
    exact .inr ⟨holder, key, (Function.update_of_ne differ ..).trans held⟩

omit [DecidableEq κ] in
/-- The number of a lease that ends is closed. -/
theorem Attended.revoke {number : Nat} (attended : Attended closed holds number) {id : ι} {key : κ}
    {ended : Nat} (held : holds id = some (key, ended)) :
    Attended (insert ended closed) (Function.update holds id none) number := by
  rcases attended with done | ⟨holder, key', held'⟩
  · exact .inl (Finset.mem_insert_of_mem done)
  · by_cases same : holder = id
    · subst same
      obtain ⟨-, rfl⟩ := Prod.mk.inj (Option.some.inj (held.symm.trans held'))
      exact .inl (Finset.mem_insert_self ..)
    · exact .inr ⟨holder, key', (Function.update_of_ne same ..).trans held'⟩

end Leases
