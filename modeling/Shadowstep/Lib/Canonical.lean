import Mathlib.Data.List.Destutter
import Mathlib.Data.List.Sort

/-!
# One list for each set of elements

A list is sorted and then loses every element that equals the one before it.
Removing such neighbours alone would leave repetitions, and sorting alone the
number of them; together they give one list for all lists with the same
elements.

* `mem_destutter_ne` — no element is lost with its repetitions;
* `canonical_strict` — the result is strictly sorted;
* `canonical_eq_iff` — two results agree exactly when the elements do.
-/

namespace Canonical

variable {α : Type*}

/-- In a sorted list equal elements are neighbours, so where neighbours differ
all elements do. -/
theorem strict_of_neighbours {r : α → α → Prop} [Std.Antisymm r] {list : List α}
    (sorted : list.Pairwise r) (differ : list.IsChain (· ≠ ·)) :
    list.Pairwise fun a b => r a b ∧ a ≠ b := by
  induction list with
  | nil => exact .nil
  | cons first rest ih =>
      obtain ⟨below, sorted⟩ := List.pairwise_cons.mp sorted
      refine List.pairwise_cons.mpr ⟨fun later there => ⟨below later there, ?_⟩,
        ih sorted differ.tail⟩
      rintro rfl
      cases rest with
      | nil => cases there
      | cons next rest =>
          -- the neighbour lies between the element and its repetition
          have apart := (List.isChain_cons_cons.mp differ).1
          obtain rfl | there := List.mem_cons.mp there
          · exact apart rfl
          · exact apart (antisymm (below next List.mem_cons_self)
              ((List.pairwise_cons.mp sorted).1 first there))

variable [DecidableEq α]

theorem mem_destutter'_ne {a first : α} {rest : List α} :
    a ∈ rest.destutter' (· ≠ ·) first ↔ a = first ∨ a ∈ rest := by
  induction rest generalizing first with
  | nil => simp
  | cons b rest ih =>
      by_cases differ : first ≠ b
      · rw [List.destutter'_cons_pos _ differ, List.mem_cons, ih, List.mem_cons]
      · rw [List.destutter'_cons_neg _ differ, ih, List.mem_cons]
        rw [not_not] at differ
        subst differ
        tauto

/-- Removing repeated neighbours loses no element. -/
theorem mem_destutter_ne {a : α} {list : List α} :
    a ∈ list.destutter (· ≠ ·) ↔ a ∈ list := by
  cases list with
  | nil => exact Iff.rfl
  | cons first rest =>
      rw [List.destutter_cons', mem_destutter'_ne, List.mem_cons]

variable (r : α → α → Prop) [DecidableRel r]

/-- A list sorted by `r` and without repetitions. -/
def canonical (list : List α) : List α := (list.insertionSort r).destutter (· ≠ ·)

theorem mem_canonical {a : α} {list : List α} : a ∈ canonical r list ↔ a ∈ list := by
  rw [canonical, mem_destutter_ne, List.mem_insertionSort]

variable {r} [Std.Total r] [IsTrans α r] [Std.Antisymm r]

theorem canonical_strict (list : List α) :
    (canonical r list).Pairwise fun a b => r a b ∧ a ≠ b :=
  strict_of_neighbours
    ((List.pairwise_insertionSort r list).sublist (List.destutter_sublist _ _))
    (List.isChain_destutter _ _)

/-- Sorting and removing neighbours forgets order and repetition, and nothing
else. -/
theorem canonical_eq_iff {left right : List α} :
    canonical r left = canonical r right ↔ ∀ a, a ∈ left ↔ a ∈ right := by
  constructor
  · intro same a
    rw [← mem_canonical r, same, mem_canonical r]
  · intro same
    have antisymmetric : Std.Antisymm fun a b => r a b ∧ a ≠ b :=
      ⟨fun a b before after => antisymm before.1 after.1⟩
    have irreflexive : Std.Irrefl fun a b => r a b ∧ a ≠ b := ⟨fun a self => self.2 rfl⟩
    refine (canonical_strict left).eq_of_mem_iff (canonical_strict right) fun a => ?_
    rw [mem_canonical r, mem_canonical r, same a]

end Canonical
