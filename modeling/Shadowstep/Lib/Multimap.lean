import Mathlib.Data.List.Basic

/-!
# Ordered multimaps

A list of pairs, read as a map in which a key may have several values and
the order of the pairs counts. `override` is the update in which the pairs of
each key in the update replace all those of that key.

* `values_override` — the values of every key after an update;
* `override_assoc`, `override_self` — updates compose, and repeating one
  changes nothing, as lists and not only up to the values;
* `foldl_override` — a chain of updates is the update by the chain's own
  composite.
-/

namespace Multimap

variable {κ α : Type*} [DecidableEq κ]

/-- The values of a key, in order. -/
def values (map : List (κ × α)) (key : κ) : List α := (map.filter (·.1 = key)).map (·.2)

/-- Whether a key occurs. -/
def contains (map : List (κ × α)) (key : κ) : Bool := map.any (·.1 = key)

/-- The pairs of `base` whose keys do not occur in `update`, and then `update`. -/
def override (base update : List (κ × α)) : List (κ × α) :=
  base.filter (fun pair => !update.any fun new => new.1 = pair.1) ++ update

@[simp] theorem values_nil (key : κ) : values ([] : List (κ × α)) key = [] := rfl

theorem values_cons (pair : κ × α) (map : List (κ × α)) (key : κ) :
    values (pair :: map) key =
      if pair.1 = key then pair.2 :: values map key else values map key := by
  by_cases h : pair.1 = key <;> simp [values, h]

@[simp] theorem values_append (left right : List (κ × α)) (key : κ) :
    values (left ++ right) key = values left key ++ values right key := by
  simp [values]

@[simp] theorem contains_append (left right : List (κ × α)) (key : κ) :
    contains (left ++ right) key = (contains left key || contains right key) :=
  List.any_append

theorem contains_iff {map : List (κ × α)} {key : κ} :
    contains map key = true ↔ ∃ value, (key, value) ∈ map := by
  simp only [contains, List.any_eq_true, decide_eq_true_eq, Prod.exists]
  constructor
  · rintro ⟨_, value, member, rfl⟩
    exact ⟨value, member⟩
  · rintro ⟨value, member⟩
    exact ⟨key, value, member, rfl⟩

theorem contains_eq_values (map : List (κ × α)) (key : κ) :
    contains map key = !(values map key).isEmpty := by
  induction map with
  | nil => rfl
  | cons pair rest ih =>
      by_cases same : pair.1 = key
      · simp [contains, values_cons, same]
      · rw [values_cons, if_neg same, ← ih]
        simp [contains, same]

/-- Filtering by key keeps all values of a key or none. -/
theorem values_filter (map : List (κ × α)) (keep : κ → Bool) (key : κ) :
    values (map.filter fun pair => keep pair.1) key = if keep key then values map key else [] := by
  induction map with
  | nil => simp
  | cons pair rest ih =>
      by_cases same : pair.1 = key
      · subst same
        by_cases kept : keep pair.1 <;> simp_all [values_cons]
      · by_cases kept : keep pair.1 <;> simp_all [values_cons]

/-- Filtering by key keeps a key that occurs or drops it. -/
theorem contains_filter (map : List (κ × α)) (keep : κ → Bool) (key : κ) :
    contains (map.filter fun pair => keep pair.1) key = (keep key && contains map key) := by
  rw [contains_eq_values, values_filter, contains_eq_values]
  cases keep key <;> simp

theorem override_eq (base update : List (κ × α)) :
    override base update = base.filter (fun pair => !contains update pair.1) ++ update := rfl

/-- The update's values of a key replace the base's, if it has any. -/
theorem values_override (base update : List (κ × α)) (key : κ) :
    values (override base update) key =
      if contains update key then values update key else values base key := by
  have kept := values_filter base (fun k => !contains update k) key
  rw [override_eq, values_append, kept, contains_eq_values update key]
  cases values update key <;> simp

@[simp] theorem override_nil (base : List (κ × α)) : override base [] = base := by
  simp [override]

@[simp] theorem nil_override (update : List (κ × α)) : override [] update = update := rfl

/-- The keys after an update are those of both. -/
theorem contains_override (base update : List (κ × α)) (key : κ) :
    contains (override base update) key = (contains base key || contains update key) := by
  have kept := contains_filter base (fun k => !contains update k) key
  rw [override_eq, contains_append, kept]
  cases contains update key <;> simp

/-- Nothing of a map is left out of it once its own keys are taken away. -/
theorem filter_own_keys (map : List (κ × α)) :
    map.filter (fun pair => !contains map pair.1) = [] := by
  rw [List.filter_eq_nil_iff]
  intro pair member
  have occurs : contains map pair.1 = true := contains_iff.mpr ⟨pair.2, member⟩
  simp [occurs]

/-- The same update twice is the update once. -/
theorem override_self (base update : List (κ × α)) :
    override (override base update) update = override base update := by
  rw [override_eq (override base update), override_eq base, List.filter_append, List.filter_filter,
    filter_own_keys, List.append_nil]
  simp only [Bool.and_self]

/-- Two updates in turn are one update, by the first updated by the second. -/
theorem override_assoc (base first second : List (κ × α)) :
    override (override base first) second = override base (override first second) := by
  -- a pair of the base is dropped by the two updates exactly when by their composite
  have dropped : ∀ pair : κ × α,
      (!contains second pair.1 && !contains first pair.1) =
        !contains (override first second) pair.1 := by
    intro pair
    rw [contains_override, Bool.not_or, Bool.and_comm]
  calc override (override base first) second
      = (base.filter fun pair => !contains second pair.1 && !contains first pair.1) ++
          first.filter (fun pair => !contains second pair.1) ++ second := by
        rw [override_eq (override base first), override_eq base, List.filter_append,
          List.filter_filter]
    _ = (base.filter fun pair => !contains (override first second) pair.1) ++
          override first second := by
        rw [List.filter_congr fun pair _ => dropped pair, List.append_assoc, ← override_eq first]
    _ = override base (override first second) := (override_eq _ _).symm

/-- A chain of updates is one update. -/
theorem foldl_override (base : List (κ × α)) (chain : List (List (κ × α))) :
    chain.foldl override base = override base (chain.foldl override []) := by
  induction chain generalizing base with
  | nil => exact (override_nil base).symm
  | cons first rest ih =>
      calc rest.foldl override (override base first)
          = override (override base first) (rest.foldl override []) := ih _
        _ = override base (override first (rest.foldl override [])) := override_assoc _ _ _
        _ = override base (rest.foldl override (override [] first)) := by
            rw [nil_override, ih first]

end Multimap
