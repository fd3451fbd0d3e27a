import Mathlib.Logic.Function.Basic
import Mathlib.Data.Set.Insert

/-!
# Two-level maps kept by generation numbers

A two-level map sends a primary key to a tag and, under that tag, a variant
to a record; storing under a new tag replaces every variant at once. A
`Table` implements it with two flat maps: an index from primary keys to the
tag and a generation number, and entries keyed by the generation too. A
superseded variant is never removed, it only stops being reachable, so the
implementation is right as long as a new generation number is really new.

* `view` — the two-level map that a table stands for;
* `view_apply` — each operation of the table does to the view what its
  `meaning` says, for a generation number not yet in use;
* `All.apply` — what is true of every record that is stored is true of every
  record that can be found;
* `Within.apply` — the generation numbers in use, after each operation;
* `Alike.apply` — two tables with the same index and view stay so, whatever
  unreachable entries each of them holds.
-/

namespace Generations

/-! ## The abstract map -/

/-- A tag for each primary key, and a record for each variant under it. -/
abbrev TwoLevel (P N V R : Type*) := P → Option (N × (V → Option R))

namespace TwoLevel

variable {P N V R : Type*}

/-- The record for a primary key, where the variant depends on the tag. -/
def find (map : TwoLevel P N V R) (p : P) (variant : N → V) : Option R :=
  (map p).bind fun group => group.2 (variant group.1)

/-- The variants stored for a primary key under a tag. -/
def variantsUnder [DecidableEq N] (map : TwoLevel P N V R) (p : P) (tag : N) : V → Option R :=
  match map p with
  | some group => if group.1 = tag then group.2 else fun _ => none
  | none => fun _ => none

theorem variantsUnder_eq [DecidableEq N] {map : TwoLevel P N V R} {p : P} {tag : N}
    {group : V → Option R} (h : map p = some (tag, group)) :
    map.variantsUnder p tag = group := by
  simp [variantsUnder, h]

variable [DecidableEq P]

/-- Stores a variant: it joins the others under the same tag, and replaces
them all under a different one. -/
def insert [DecidableEq N] [DecidableEq V] (map : TwoLevel P N V R) (p : P) (tag : N) (v : V)
    (r : R) : TwoLevel P N V R :=
  Function.update map p (some (tag, Function.update (map.variantsUnder p tag) v (some r)))

def delete (map : TwoLevel P N V R) (p : P) : TwoLevel P N V R := Function.update map p none

def deleteVariant [DecidableEq V] (map : TwoLevel P N V R) (p : P) (v : V) : TwoLevel P N V R :=
  Function.update map p ((map p).map fun group => (group.1, Function.update group.2 v none))

/-- What can be done to a two-level map. -/
inductive Op (P N V R : Type*) where
  | skip
  | insert (p : P) (tag : N) (v : V) (r : R)
  | delete (p : P)
  | deleteVariant (p : P) (v : V)

/-- The primary key an operation is about. -/
def Op.primary : Op P N V R → Option P
  | .skip => none
  | .insert p .. | .delete p | .deleteVariant p _ => some p

def Op.apply [DecidableEq N] [DecidableEq V] (op : Op P N V R) (map : TwoLevel P N V R) :
    TwoLevel P N V R :=
  match op with
  | .skip => map
  | .insert p tag v r => map.insert p tag v r
  | .delete p => map.delete p
  | .deleteVariant p v => map.deleteVariant p v

/-- An operation on one primary key leaves the group of another. -/
theorem Op.apply_of_ne [DecidableEq N] [DecidableEq V] {op : Op P N V R}
    (map : TwoLevel P N V R) {q : P} (different : op.primary ≠ some q) :
    op.apply map q = map q := by
  cases op with
  | skip => rfl
  | insert p tag v r =>
      exact Function.update_of_ne (fun h => different (congrArg some h.symm)) _ _
  | delete p => exact Function.update_of_ne (fun h => different (congrArg some h.symm)) _ _
  | deleteVariant p v =>
      exact Function.update_of_ne (fun h => different (congrArg some h.symm)) _ _

/-- What a primary key holds after one of its variants was stored. -/
theorem insert_self [DecidableEq N] [DecidableEq V] (map : TwoLevel P N V R) (p : P) (tag : N)
    (v : V) (r : R) :
    map.insert p tag v r p =
      some (tag, Function.update (map.variantsUnder p tag) v (some r)) :=
  Function.update_self ..

/-! ## What is true of every record -/

/-- Every record of the map meets `Φ`. -/
def All (Φ : P → N → V → R → Prop) (map : TwoLevel P N V R) : Prop :=
  ∀ ⦃p tag group⦄, map p = some (tag, group) → ∀ ⦃v r⦄, group v = some r → Φ p tag v r

section All

variable {Φ Ψ : P → N → V → R → Prop} {map : TwoLevel P N V R}

omit [DecidableEq P] in
theorem All.mono (all : map.All Φ) (weaker : ∀ p tag v r, Φ p tag v r → Ψ p tag v r) :
    map.All Ψ :=
  fun p tag _ group v r record => weaker p tag v r (all group record)

omit [DecidableEq P] in
theorem All.find (all : map.All Φ) {p : P} {variant : N → V} {r : R}
    (h : map.find p variant = some r) : ∃ tag, Φ p tag (variant tag) r := by
  obtain ⟨⟨tag, group⟩, here, record⟩ := Option.bind_eq_some_iff.mp h
  exact ⟨tag, all here record⟩

theorem All.insert [DecidableEq N] [DecidableEq V] (all : map.All Φ) {p : P} {tag : N} {v : V}
    {r : R} (new : Φ p tag v r) : (map.insert p tag v r).All Φ := by
  intro q tag' group here w s record
  by_cases same : q = p
  · subst same
    rw [insert_self] at here
    obtain ⟨rfl, rfl⟩ := Prod.mk.inj (Option.some.inj here)
    by_cases mine : w = v
    · subst mine
      rw [Function.update_self] at record
      obtain rfl := Option.some.inj record
      exact new
    · -- the other variants are there only if the tag is the old one
      rw [Function.update_of_ne mine] at record
      unfold variantsUnder at record
      cases old : map q with
      | none => simp [old] at record
      | some group =>
          by_cases kept : group.1 = tag
          · subst kept
            simp only [old, if_true] at record
            exact all old record
          · simp [old, kept] at record
  · rw [TwoLevel.insert, Function.update_of_ne same] at here
    exact all here record

theorem All.delete (all : map.All Φ) (p : P) : (map.delete p).All Φ := by
  intro q tag group here v r record
  by_cases same : q = p
  · subst same
    simp [TwoLevel.delete] at here
  · rw [TwoLevel.delete, Function.update_of_ne same] at here
    exact all here record

theorem All.deleteVariant [DecidableEq V] (all : map.All Φ) (p : P) (v : V) :
    (map.deleteVariant p v).All Φ := by
  intro q tag group here w r record
  by_cases same : q = p
  · subst same
    rw [TwoLevel.deleteVariant, Function.update_self] at here
    obtain ⟨⟨tag', old⟩, there, same⟩ := Option.map_eq_some_iff.mp here
    obtain ⟨rfl, rfl⟩ := Prod.mk.inj same
    by_cases gone : w = v
    · subst gone
      simp at record
    · rw [Function.update_of_ne gone] at record
      exact all there record
  · rw [TwoLevel.deleteVariant, Function.update_of_ne same] at here
    exact all here record

/-- What is true of every record that is inserted stays true of all. -/
theorem All.apply [DecidableEq N] [DecidableEq V] (all : map.All Φ) {op : Op P N V R}
    (new : ∀ p tag v r, op = .insert p tag v r → Φ p tag v r) : (op.apply map).All Φ := by
  cases op with
  | skip => exact all
  | insert p tag v r => exact all.insert (new p tag v r rfl)
  | delete p => exact all.delete p
  | deleteVariant p v => exact all.deleteVariant p v

end All

end TwoLevel

/-! ## The implementation -/

/-- An index of tags and generation numbers, and entries keyed by them. -/
structure Table (P N V R G : Type*) where
  index : P → Option (N × G)
  entries : P → G → V → Option R

namespace Table

variable {P N V R G : Type*}

def find (table : Table P N V R G) (p : P) (variant : N → V) : Option R :=
  (table.index p).bind fun record => table.entries p record.2 (variant record.1)

/-- The two-level map that a table stands for. -/
def view (table : Table P N V R G) : TwoLevel P N V R :=
  fun p => (table.index p).map fun record => (record.1, table.entries p record.2)

/-- The generation number of the index record, when there is one. -/
def liveGeneration (table : Table P N V R G) (p : P) : Option G := (table.index p).map Prod.snd

/-- No record of the table carries the generation number. -/
def Unused (table : Table P N V R G) (generation : G) : Prop :=
  (∀ p tag, table.index p ≠ some (tag, generation)) ∧ ∀ p v, table.entries p generation v = none

/-- The generation number a variant is stored under: the index record's when
it has the same tag, and else the fresh one. -/
def generationFor [DecidableEq N] (table : Table P N V R G) (p : P) (tag : N) (fresh : G) : G :=
  match table.index p with
  | some record => if record.1 = tag then record.2 else fresh
  | none => fresh

/-- Whether storing under a tag needs a new generation number. -/
def takes [DecidableEq N] (table : Table P N V R G) (p : P) (tag : N) : Bool :=
  (table.index p).all fun record => record.1 ≠ tag

/-- Replaces one entry, or removes it. -/
def setEntry [DecidableEq P] [DecidableEq V] [DecidableEq G] (table : Table P N V R G) (p : P)
    (generation : G) (v : V) (record : Option R) : Table P N V R G :=
  { table with
    entries := fun q g w => if q = p ∧ g = generation ∧ w = v then record else table.entries q g w }

def put [DecidableEq P] [DecidableEq N] [DecidableEq V] [DecidableEq G] (table : Table P N V R G)
    (p : P) (tag : N) (v : V) (r : R) (fresh : G) : Table P N V R G :=
  let generation := table.generationFor p tag fresh
  { (table.setEntry p generation v (some r)) with
    index := Function.update table.index p (some (tag, generation)) }

def drop [DecidableEq P] (table : Table P N V R G) (p : P) : Table P N V R G :=
  { table with index := Function.update table.index p none }

/-- Removes one entry, reachable or not. -/
def evict [DecidableEq P] [DecidableEq V] [DecidableEq G] (table : Table P N V R G) (p : P)
    (generation : G) (v : V) : Table P N V R G :=
  table.setEntry p generation v none

/-! ## The view of each operation -/

theorem find_view (table : Table P N V R G) (p : P) (variant : N → V) :
    table.view.find p variant = table.find p variant := by
  cases h : table.index p <;> simp [view, TwoLevel.find, find, h]

/-- The entries under the generation that a tag is stored in are exactly the
variants that the two-level map keeps next to a new one. -/
theorem entries_generationFor [DecidableEq N] {table : Table P N V R G} {fresh : G} {p : P}
    {tag : N} (unused : table.takes p tag = true → table.Unused fresh) :
    table.entries p (table.generationFor p tag fresh) = table.view.variantsUnder p tag := by
  have empty (taken : table.takes p tag = true) : table.entries p fresh = fun _ => none :=
    funext ((unused taken).2 p)
  unfold generationFor TwoLevel.variantsUnder view
  cases h : table.index p with
  | none => simpa [h] using empty (by simp [takes, h])
  | some record =>
      by_cases same : record.1 = tag
      · simp [same]
      · simpa [h, same] using empty (by simp [takes, h, same])

section View

variable [DecidableEq P]

theorem view_drop (table : Table P N V R G) (p : P) :
    (table.drop p).view = table.view.delete p := by
  funext q
  by_cases h : q = p
  · subst h
    simp [view, drop, TwoLevel.delete]
  · simp [view, drop, TwoLevel.delete, Function.update_of_ne h]

variable [DecidableEq V] [DecidableEq G]

/-- Removing an entry removes a variant if the entry is reachable, and
nothing otherwise. -/
theorem view_evict (table : Table P N V R G) (p : P) (generation : G) (v : V) :
    (table.evict p generation v).view =
      if table.liveGeneration p = some generation then table.view.deleteVariant p v
      else table.view := by
  funext q
  by_cases hq : q = p
  · subst hq
    cases hindex : table.index q with
    | none => simp [view, evict, setEntry, liveGeneration, hindex]
    | some record =>
        by_cases live : record.2 = generation
        · have removed : (fun w => if w = v then none else table.entries q generation w) =
              Function.update (table.entries q generation) v none := by
            funext w
            simp [Function.update_apply]
          simp [view, evict, setEntry, liveGeneration, TwoLevel.deleteVariant, hindex, live,
            removed]
        · simp [view, evict, setEntry, liveGeneration, hindex, live]
  · have other : (table.evict p generation v).view q = table.view q := by
      simp [view, evict, setEntry, hq]
    rw [other]
    split
    · simp [TwoLevel.deleteVariant, Function.update_of_ne hq]
    · rfl

theorem view_put [DecidableEq N] {table : Table P N V R G} {fresh : G} {p : P} {tag : N}
    (unused : table.takes p tag = true → table.Unused fresh) (v : V) (r : R) :
    (table.put p tag v r fresh).view = table.view.insert p tag v r := by
  funext q
  by_cases hq : q = p
  · subst hq
    have joined : (fun w => if w = v then some r
          else table.entries q (table.generationFor q tag fresh) w) =
        Function.update (table.view.variantsUnder q tag) v (some r) := by
      funext w
      rw [← entries_generationFor unused, Function.update_apply]
    simp [view, put, setEntry, TwoLevel.insert, ← joined]
  · simp [view, put, setEntry, TwoLevel.insert, hq]

end View

/-- A variant just stored is found by what asks for it. -/
theorem find_put [DecidableEq P] [DecidableEq N] [DecidableEq V] [DecidableEq G]
    (table : Table P N V R G) (p : P) (tag : N) (variant : N → V) (r : R) (fresh : G) :
    (table.put p tag (variant tag) r fresh).find p variant = some r := by
  simp [find, put, setEntry]

/-- A variant under the tag of the index record joins the ones that are there. -/
theorem put_of_tag [DecidableEq P] [DecidableEq N] [DecidableEq V] [DecidableEq G]
    {table : Table P N V R G} {p : P} {tag : N} {generation : G}
    (live : table.index p = some (tag, generation)) (v : V) (r : R) (fresh : G) :
    table.put p tag v r fresh = table.setEntry p generation v (some r) := by
  have reused : table.generationFor p tag fresh = generation := by simp [generationFor, live]
  have index : Function.update table.index p (some (tag, generation)) = table.index := by
    rw [← live, Function.update_eq_self]
  simp only [put, reused, index]
  rfl

/-! ## Generation numbers in use -/

/-- Every generation number in the table is in `used`. -/
structure Within (table : Table P N V R G) (used : Set G) : Prop where
  index : ∀ {p record}, table.index p = some record → record.2 ∈ used
  entries : ∀ {p generation v r}, table.entries p generation v = some r → generation ∈ used

section Within

variable {table : Table P N V R G} {used : Set G}

theorem Within.unused (within : table.Within used) {generation : G}
    (outside : generation ∉ used) : table.Unused generation := by
  refine ⟨fun p tag h => outside (within.index h), fun p v => ?_⟩
  cases h : table.entries p generation v with
  | none => rfl
  | some r => exact absurd (within.entries h) outside

theorem Within.mono (within : table.Within used) {wider : Set G} (h : used ⊆ wider) :
    table.Within wider :=
  ⟨fun hindex => h (within.index hindex), fun hentry => h (within.entries hentry)⟩

/-- A table with no record that is not in the other. -/
structure Part (part whole : Table P N V R G) : Prop where
  index : ∀ ⦃p record⦄, part.index p = some record → whole.index p = some record
  entries : ∀ ⦃p generation v r⦄, part.entries p generation v = some r →
    whole.entries p generation v = some r

theorem Within.part (within : table.Within used) {part : Table P N V R G} (h : Part part table) :
    part.Within used :=
  ⟨fun hindex => within.index (h.index hindex), fun hentry => within.entries (h.entries hentry)⟩

theorem all_of_part {Φ : P → N → V → R → Prop} (all : table.view.All Φ) {part : Table P N V R G}
    (h : Part part table) : part.view.All Φ := by
  intro p tag group here v r record
  obtain ⟨⟨tag', generation⟩, live, same⟩ := Option.map_eq_some_iff.mp here
  obtain ⟨rfl, rfl⟩ := Prod.mk.inj same
  have there : table.view p = some (tag', table.entries p generation) := by
    simp [view, h.index live]
  exact all there (h.entries record)

theorem Within.generationFor [DecidableEq N] (within : table.Within used) {p : P} {tag : N}
    {fresh : G} (covered : table.takes p tag = true → fresh ∈ used) :
    table.generationFor p tag fresh ∈ used := by
  unfold Table.generationFor
  cases h : table.index p with
  | none => exact covered (by simp [takes, h])
  | some record =>
      by_cases same : record.1 = tag
      · simpa [same] using within.index h
      · simpa [same] using covered (by simp [takes, h, same])

variable [DecidableEq P]

theorem Within.drop (within : table.Within used) (p : P) : (table.drop p).Within used := by
  refine ⟨fun {q record} h => ?_, within.entries⟩
  by_cases hq : q = p
  · subst hq
    simp [Table.drop] at h
  · exact within.index (by simpa [Table.drop, Function.update_of_ne hq] using h)

variable [DecidableEq V] [DecidableEq G]

theorem Within.evict (within : table.Within used) (p : P) (generation : G) (v : V) :
    (table.evict p generation v).Within used := by
  refine ⟨within.index, fun {q g w r} h => ?_⟩
  simp only [Table.evict, setEntry] at h
  split at h
  · cases h
  · exact within.entries h

theorem Within.put [DecidableEq N] (within : table.Within used) {p : P} {tag : N} {fresh : G}
    (covered : table.takes p tag = true → fresh ∈ used) (v : V) (r : R) :
    (table.put p tag v r fresh).Within used := by
  have generation := within.generationFor covered
  constructor
  · intro q record h
    by_cases hq : q = p
    · subst hq
      simp only [Table.put, Function.update_self, Option.some.injEq] at h
      exact h ▸ generation
    · exact within.index (by simpa [Table.put, Function.update_of_ne hq] using h)
  · intro q g w r' h
    simp only [Table.put, setEntry] at h
    split at h
    case isTrue here => exact here.2.1 ▸ generation
    case isFalse => exact within.entries h

end Within

/-! ## Operations -/

/-- What can be done to a table. -/
inductive Op (P N V R G : Type*) where
  | skip
  | put (p : P) (tag : N) (v : V) (r : R)
  | drop (p : P)
  | evict (p : P) (generation : G) (v : V)

/-- The primary key an operation is about. -/
def Op.primary : Op P N V R G → Option P
  | .skip => none
  | .put p .. | .drop p | .evict p .. => some p

/-- What an operation on a table does to the two-level map. -/
def Op.meaning [DecidableEq G] (op : Op P N V R G) (table : Table P N V R G) : TwoLevel.Op P N V R :=
  match op with
  | .skip => .skip
  | .put p tag v r => .insert p tag v r
  | .drop p => .delete p
  | .evict p generation v =>
    if table.liveGeneration p = some generation then .deleteVariant p v else .skip

/-- What an operation means is about the same primary key, or nothing. -/
theorem Op.meaning_primary [DecidableEq G] {op : Op P N V R G} {table : Table P N V R G} {p : P}
    (h : (op.meaning table).primary = some p) : op.primary = some p := by
  cases op with
  | skip => exact h
  | put q tag v r => exact h
  | drop q => exact h
  | evict q generation v =>
      simp only [Op.meaning] at h
      split at h
      · exact h
      · cases h

section Op

variable [DecidableEq P] [DecidableEq N] [DecidableEq V] [DecidableEq G]

def Op.apply (op : Op P N V R G) (table : Table P N V R G) (fresh : G) : Table P N V R G :=
  match op with
  | .skip => table
  | .put p tag v r => table.put p tag v r fresh
  | .drop p => table.drop p
  | .evict p generation v => table.evict p generation v

/-- Whether an operation needs a new generation number. -/
def Op.takes (op : Op P N V R G) (table : Table P N V R G) : Bool :=
  match op with
  | .put p tag _ _ => table.takes p tag
  | _ => false

/-- An operation on one primary key leaves the records of another. -/
theorem Op.apply_of_ne {op : Op P N V R G} (table : Table P N V R G) (fresh : G) {q : P}
    (different : op.primary ≠ some q) :
    (op.apply table fresh).index q = table.index q ∧
      (op.apply table fresh).entries q = table.entries q := by
  cases op with
  | skip => exact ⟨rfl, rfl⟩
  | put p tag v r =>
      have other : q ≠ p := fun h => different (congrArg some h.symm)
      exact ⟨Function.update_of_ne other _ _, funext fun g => by simp [Op.apply, Table.put, setEntry, other]⟩
  | drop p =>
      exact ⟨Function.update_of_ne (fun h => different (congrArg some h.symm)) _ _, rfl⟩
  | evict p generation v =>
      have other : q ≠ p := fun h => different (congrArg some h.symm)
      exact ⟨rfl, funext fun g => by simp [Op.apply, Table.evict, setEntry, other]⟩

/-- The entries after an operation: those from before, and the one it puts. -/
theorem Op.entries_apply {op : Op P N V R G} {table : Table P N V R G} {fresh : G} {p : P}
    {g : G} {v : V} {r : R} (h : (op.apply table fresh).entries p g v = some r) :
    table.entries p g v = some r ∨
      ∃ tag, op = .put p tag v r ∧ g = table.generationFor p tag fresh := by
  cases op with
  | skip => exact .inl h
  | put q tag w s =>
      simp only [Op.apply, Table.put, setEntry] at h
      split at h
      case isTrue here =>
        obtain ⟨rfl, rfl, rfl⟩ := here
        obtain rfl := Option.some.inj h
        exact .inr ⟨tag, rfl, rfl⟩
      case isFalse => exact .inl h
  | drop q => exact .inl h
  | evict q generation w =>
      simp only [Op.apply, Table.evict, setEntry] at h
      split at h
      · cases h
      · exact .inl h

/-- The index record after an operation is the one from before, or carries a
new generation number. -/
theorem Op.index_apply {op : Op P N V R G} {table : Table P N V R G} {fresh : G} {p : P}
    {tag : N} {g : G} (h : (op.apply table fresh).index p = some (tag, g)) :
    table.index p = some (tag, g) ∨ op.takes table = true ∧ g = fresh := by
  cases op with
  | skip => exact .inl h
  | evict q generation w => exact .inl h
  | drop q =>
      by_cases same : p = q
      · subst same
        simp [Op.apply, Table.drop] at h
      · exact .inl (by simpa [Op.apply, Table.drop, Function.update_of_ne same] using h)
  | put q newTag w s =>
      by_cases same : p = q
      · subst same
        simp only [Op.apply, Table.put, Function.update_self, Option.some.injEq,
          Prod.mk.injEq] at h
        obtain ⟨rfl, rfl⟩ := h
        cases hindex : table.index p with
        | none => exact .inr (by simp [Op.takes, Table.takes, generationFor, hindex])
        | some record =>
            by_cases sameTag : record.1 = newTag
            · subst sameTag
              exact .inl (by simp [generationFor, hindex])
            · exact .inr (by simp [Op.takes, Table.takes, generationFor, hindex, sameTag])
      · exact .inl (by simpa [Op.apply, Table.put, Function.update_of_ne same] using h)

theorem view_apply (op : Op P N V R G) {table : Table P N V R G} {fresh : G}
    (unused : op.takes table = true → table.Unused fresh) :
    (op.apply table fresh).view = (op.meaning table).apply table.view := by
  cases op with
  | skip => rfl
  | put p tag v r => exact view_put unused v r
  | drop p => exact view_drop table p
  | evict p generation v =>
      simp only [Op.apply, Op.meaning, view_evict]
      split <;> rfl

/-- What is true of every record that is put stays true of all that can be
found. -/
theorem all_apply {Φ : P → N → V → R → Prop} {table : Table P N V R G} (all : table.view.All Φ)
    {op : Op P N V R G} {fresh : G} (unused : op.takes table = true → table.Unused fresh)
    (new : ∀ p tag v r, op = .put p tag v r → Φ p tag v r) :
    (op.apply table fresh).view.All Φ := by
  rw [view_apply op unused]
  refine all.apply fun p tag v r same => ?_
  cases op with
  | put q tag' w s =>
      obtain ⟨rfl, rfl, rfl, rfl⟩ := TwoLevel.Op.insert.inj same
      exact new _ _ _ _ rfl
  | skip | drop q => cases same
  | evict q generation w =>
      simp only [Op.meaning] at same
      split at same <;> cases same

theorem Within.apply {table : Table P N V R G} {used : Set G} (within : table.Within used)
    (op : Op P N V R G) {fresh : G} (covered : op.takes table = true → fresh ∈ used) :
    (op.apply table fresh).Within used := by
  cases op with
  | skip => exact within
  | put p tag v r => exact within.put covered v r
  | drop p => exact within.drop p
  | evict p generation v => exact within.evict p generation v

end Op

/-! ## Tables that differ only in what they cannot reach -/

/-- Two tables with one index that stand for one two-level map. -/
structure Alike (left right : Table P N V R G) : Prop where
  index : left.index = right.index
  view : left.view = right.view

section Alike

variable {left right : Table P N V R G}

theorem Alike.refl (table : Table P N V R G) : Alike table table := ⟨rfl, rfl⟩

theorem Alike.symm (alike : Alike left right) : Alike right left :=
  ⟨alike.index.symm, alike.view.symm⟩

theorem Alike.trans (alike : Alike left right) {other : Table P N V R G}
    (next : Alike right other) : Alike left other :=
  ⟨alike.index.trans next.index, alike.view.trans next.view⟩

theorem Alike.find (alike : Alike left right) (p : P) (variant : N → V) :
    left.find p variant = right.find p variant := by
  rw [← find_view, ← find_view, alike.view]

/-- Alike tables hold the same entries wherever a lookup can reach. -/
theorem Alike.entries (alike : Alike left right) {p : P} {record : N × G}
    (live : right.index p = some record) : left.entries p record.2 = right.entries p record.2 := by
  have same := congrFun alike.view p
  simp only [Table.view, alike.index, live, Option.map_some, Option.some.injEq, Prod.mk.injEq,
    true_and] at same
  exact same

theorem Alike.generationFor [DecidableEq N] (alike : Alike left right) (p : P) (tag : N)
    (fresh : G) : left.generationFor p tag fresh = right.generationFor p tag fresh := by
  unfold Table.generationFor
  rw [alike.index]

theorem Alike.takes [DecidableEq N] (alike : Alike left right) (p : P) (tag : N) :
    left.takes p tag = right.takes p tag := by
  unfold Table.takes
  rw [alike.index]

variable [DecidableEq P]

theorem Alike.drop (alike : Alike left right) (p : P) : Alike (left.drop p) (right.drop p) where
  index := by simp only [Table.drop, alike.index]
  view := by rw [view_drop, view_drop, alike.view]

variable [DecidableEq V] [DecidableEq G]

theorem Alike.put [DecidableEq N] (alike : Alike left right) {fresh : G} {p : P} {tag : N}
    (unusedLeft : left.takes p tag = true → left.Unused fresh)
    (unusedRight : right.takes p tag = true → right.Unused fresh) (v : V) (r : R) :
    Alike (left.put p tag v r fresh) (right.put p tag v r fresh) where
  index := by simp only [Table.put, alike.index, alike.generationFor]
  view := by rw [view_put unusedLeft, view_put unusedRight, alike.view]

theorem Alike.evict (alike : Alike left right) (p : P) (generation : G) (v : V) :
    Alike (left.evict p generation v) (right.evict p generation v) where
  index := alike.index
  view := by
    have live : left.liveGeneration p = right.liveGeneration p := by
      rw [liveGeneration, liveGeneration, alike.index]
    rw [view_evict, view_evict, live, alike.view]

theorem Alike.apply [DecidableEq N] (alike : Alike left right) (op : Op P N V R G) {fresh : G}
    (unusedLeft : op.takes left = true → left.Unused fresh)
    (unusedRight : op.takes right = true → right.Unused fresh) :
    Alike (op.apply left fresh) (op.apply right fresh) := by
  cases op with
  | skip => exact alike
  | put p tag v r => exact alike.put unusedLeft unusedRight v r
  | drop p => exact alike.drop p
  | evict p generation v => exact alike.evict p generation v

/-- Removing an entry that cannot be reached leaves the table alike. -/
theorem alike_evict_of_not_live {table : Table P N V R G} {p : P} {generation : G}
    (dead : table.liveGeneration p ≠ some generation) (v : V) :
    Alike table (table.evict p generation v) where
  index := rfl
  view := by rw [view_evict, if_neg dead]

end Alike

end Table

end Generations
