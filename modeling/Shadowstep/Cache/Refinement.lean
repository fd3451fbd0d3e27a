import Shadowstep.Cache.Sequence

/-!
# The store refines a two-level map

Deletion is lazy: a superseded or invalidated response stays in `entries`,
and only a new generation number keeps it out of reach. The counter is a
`u64` that wraps, so the refinement holds for the runs that take at most
`2 ^ 64` numbers, and one more brings the first generation back.

* `view_run` — the table stands for the map that the calls describe;
* `lookups_follow_model` — what lookups return, which of them an operation
  can change, and how long a stored response is found;
* `wrapped_counter_revives_variant` — a run that takes `2 ^ 64 + 1` numbers.
-/

namespace Shadowstep

open Rust Generations

namespace Observed

/-! ## The simulation -/

theorem lookup_eq_model {σ : Observed} (view : σ.store.table.view = σ.model)
    (primary : PrimaryKey) (request : HeaderMap) (maxAge : Option Duration) (now : Instant) :
    (σ.store.lookup primary request maxAge now).map Lookup.response =
      σ.model.find primary fun names => varyValues names request := by
  rw [Store.lookup_response, Store.find_table, ← view, Table.find_view]

theorem view_start (sizeMb : UInt64) (ttl : Duration) :
    (start sizeMb ttl).store.table.view = (start sizeMb ttl).model := by
  funext p
  simp [start, Store.new, Store.table, Table.view]

section

variable [HttpDate]

theorem taken_le {σ σ' : Observed} {event : Event} (h : σ.step event = some σ') :
    σ.taken ≤ σ'.taken := by
  rw [(step_spec h).taken]
  exact Nat.le_add_right _ _

theorem view_step {σ σ' : Observed} {event : Event} (numbered : Numbered σ)
    (view : σ.store.table.view = σ.model) (h : σ.step event = some σ')
    (bounded : σ'.taken ≤ 2 ^ 64) : σ'.store.table.view = σ'.model := by
  have stepped := step_spec h
  have unused (takes : (σ.op event).takes σ.store.table = true) :
      σ.store.table.Unused σ.store.generation := by
    have counted := stepped.taken
    rw [if_pos takes] at counted
    exact numbered.unused (by omega)
  rw [stepped.moves.table, stepped.model, Table.view_apply _ unused, view]

/-- As long as the counter has not wrapped, the store stands for the
two-level map that the calls describe. -/
theorem view_run {σ σ' : Observed} {events : List Event} (numbered : Numbered σ)
    (view : σ.store.table.view = σ.model) (h : Runs.run step σ events = some σ')
    (bounded : σ'.taken ≤ 2 ^ 64) : σ'.store.table.view = σ'.model := by
  have carried : Numbered σ' ∧ (σ'.taken ≤ 2 ^ 64 → σ'.store.table.view = σ'.model) := by
    refine Runs.invariant_run
      (I := fun σ => Numbered σ ∧ (σ.taken ≤ 2 ^ 64 → σ.store.table.view = σ.model))
      (fun s e s' kept hstep => ?_) ⟨numbered, fun _ => view⟩ h
    obtain ⟨numbered, view⟩ := kept
    exact ⟨numbered.step hstep,
      fun bounded => view_step numbered (view ((taken_le hstep).trans bounded)) hstep bounded⟩
  exact carried.2 bounded

/-! ## Frames -/

/-- The primary key that an event is about. -/
def about (σ : Observed) : Event → Option PrimaryKey
  | .insertResponse primary .. | .invalidate primary | .evictIndex primary => some primary
  | .freshen found .. => σ.found[found]?.map fun (entry, _) => entry.key.primary
  | .evictEntry (.response key) => some key.primary
  | .evictEntry (.asset _) | .insertAsset .. | .lookup .. => none

theorem op_about {σ : Observed} {event : Event} {p : PrimaryKey}
    (h : (σ.op event).primary = some p) : σ.about event = some p := by
  cases event with
  | insertAsset => cases h
  | insertResponse => exact congrArg some (Store.insertOp_primary h)
  | invalidate => exact h
  | lookup => cases h
  | freshen found requestPolicy update age now =>
      cases hfound : σ.found[found]? with
      | none => simp [op, hfound, Table.Op.primary] at h
      | some pair =>
          obtain ⟨entry, request⟩ := pair
          simp only [op, hfound, Store.freshenOp] at h
          simp only [about, hfound, Option.map_some, Option.some.injEq]
          split at h
          · split at h
            · exact Store.insertOp_primary h
            · exact Option.some.inj h
          · cases h
  | evictIndex => exact h
  | evictEntry key =>
      cases key with
      | asset path => cases h
      | response key => exact h

theorem lookup_of_ne {σ σ' : Observed} {event : Event} {q : PrimaryKey}
    (h : σ.step event = some σ') (different : σ.about event ≠ some q) (request : HeaderMap)
    (maxAge : Option Duration) (now : Instant) :
    σ'.store.lookup q request maxAge now = σ.store.lookup q request maxAge now := by
  have other : (σ.op event).primary ≠ some q := fun h => different (op_about h)
  obtain ⟨index, entries⟩ := Table.Op.apply_of_ne σ.store.table σ.store.generation other
  rw [← (step_spec h).moves.table] at index entries
  exact Store.lookup_congr index (fun record _ => congrFun (congrFun entries record.2) _) maxAge now

/-! ## Persistence -/

/-- An event that neither evicts anything nor replaces or invalidates the
variant of `primary` that `vary` names. -/
def Keeps (primary : PrimaryKey) (vary : Vary) (σ : Observed) : Event → Prop
  | .insertResponse other newer _ _ _ body _ =>
    σ.store.admits body = true → other = primary →
      newer.names = vary.names ∧ newer.values ≠ vary.values
  | .invalidate other => other ≠ primary
  | .freshen found .. => ∀ entry request, σ.found[found]? = some (entry, request) →
      entry.key.primary ≠ primary
  | .evictIndex _ | .evictEntry _ => False
  | .insertAsset .. | .lookup .. => True

/-- The model holds a response as one variant of a primary key. -/
def Holds (primary : PrimaryKey) (vary : Vary) (arc : Arc StoredResponse) (model : ResponseMap) :
    Prop :=
  ∃ group, model primary = some (vary.names, group) ∧ group vary.values = some arc

theorem holds_step {σ σ' : Observed} {event : Event} {primary : PrimaryKey} {vary : Vary}
    {arc : Arc StoredResponse} (holds : Holds primary vary arc σ.model)
    (keeps : Keeps primary vary σ event) (h : σ.step event = some σ') :
    Holds primary vary arc σ'.model := by
  have model := (step_spec h).model
  by_cases other : ((σ.op event).meaning σ.store.table).primary = some primary
  case neg => rwa [Holds, model, TwoLevel.Op.apply_of_ne _ other]
  case pos =>
    have about := op_about (Table.Op.meaning_primary other)
    cases event with
    | insertResponse p newer policy status headers body now =>
        obtain rfl := Option.some.inj about
        obtain ⟨group, hmodel, hgroup⟩ := holds
        by_cases admitted : σ.store.admits body = true
        · obtain ⟨names, values⟩ := keeps admitted rfl
          rw [Holds, model]
          simp only [op, Store.insertOp, admitted, if_true, Table.Op.meaning, TwoLevel.Op.apply,
            names, TwoLevel.insert_self, TwoLevel.variantsUnder_eq hmodel]
          exact ⟨_, rfl, by rwa [Function.update_of_ne values.symm]⟩
        · simp [op, Store.insertOp, admitted, Table.Op.meaning, TwoLevel.Op.primary] at other
    | freshen found requestPolicy update age now =>
        obtain ⟨⟨entry, request⟩, hfound, hkey⟩ := Option.map_eq_some_iff.mp about
        exact absurd hkey (keeps entry request hfound)
    | invalidate p => exact absurd (Option.some.inj about) keeps
    | evictIndex p => exact absurd keeps id
    | evictEntry key => exact absurd keeps id
    | insertAsset => cases about
    | lookup => cases about

/-! ## The refinement -/

/-- A run that takes at most `2 ^ 64` generation numbers: every lookup
returns what the two-level map holds for the request's `Vary` values, an
event about one primary key leaves the lookups of all others, and a stored
response is found under its `Vary` values until it is replaced, invalidated
or evicted. -/
theorem lookups_follow_model {sizeMb : UInt64} {ttl : Duration} {events : List Event}
    {σ : Observed} (run : Runs.run step (start sizeMb ttl) events = some σ)
    (bounded : σ.taken ≤ 2 ^ 64) :
    (∀ primary request maxAge now,
      (σ.store.lookup primary request maxAge now).map Lookup.response =
        σ.model.find primary fun names => varyValues names request) ∧
    (∀ event σ' other, σ.step event = some σ' → σ.about event ≠ some other →
      ∀ request maxAge now,
        σ'.store.lookup other request maxAge now = σ.store.lookup other request maxAge now) ∧
    (∀ primary vary policy status headers body now, σ.store.admits body = true →
      ∀ next later σ',
        σ.step (.insertResponse primary vary policy status headers body now) = some next →
        Runs.run step next later = some σ' → Runs.Along step (Keeps primary vary) next later →
        σ'.taken ≤ 2 ^ 64 →
        ∀ request maxAge at', vary.values = varyValues vary.names request →
          (σ'.store.lookup primary request maxAge at').map Lookup.response =
            some ⟨σ.store.arcs, σ.store.response policy status headers body now⟩) := by
  have numbered := numbered_run (numbered_start sizeMb ttl) run
  have view := view_run (numbered_start sizeMb ttl) (view_start sizeMb ttl) run bounded
  refine ⟨lookup_eq_model view, fun event σ' other hstep different => lookup_of_ne hstep different,
    ?_⟩
  intro primary vary policy status headers body now admitted next later σ' hstep hlater along
    bounded' request maxAge at' values
  have view' : σ'.store.table.view = σ'.model :=
    view_run numbered view (Runs.run_cons.mpr ⟨next, hstep, hlater⟩) bounded'
  -- the response is in the model at once, and the events keep it there
  have stored : Holds primary vary
      ⟨σ.store.arcs, σ.store.response policy status headers body now⟩ next.model := by
    rw [(step_spec hstep).model]
    simp only [op, Store.insertOp, admitted, if_true, Table.Op.meaning, TwoLevel.Op.apply, Holds,
      TwoLevel.insert_self]
    exact ⟨_, rfl, Function.update_self ..⟩
  obtain ⟨group, hmodel, hgroup⟩ := Runs.invariant_along
    (fun s e s' holds keeps h => holds_step holds keeps h) stored along hlater
  rw [lookup_eq_model view', TwoLevel.find, hmodel, Option.bind_some, ← values]
  exact hgroup

end

/-! ## When the counter wraps -/

/-- The origin alternates between `Vary: Cookie` and `Vary: Authorization`. -/
def alternatingNames (n : Nat) : List HeaderName :=
  if n % 2 = 0 then [header.cookie] else [header.authorization]

/-- The request behind the first response has no cookie, and the later ones
all have the same field value. -/
def alternatingVary (n : Nat) : Vary :=
  ⟨alternatingNames n, if n = 0 then [none] else [some "b".toList]⟩

def alternatingEvent (n : Nat) : Event :=
  .insertResponse examplePrimary (alternatingVary n) examplePolicy .ok [] [] exampleClock

def exampleStart : Observed := start 1 (Duration.fromSecs 3600)

/-- The response that the first event stores. -/
def firstAlternating : Arc StoredResponse :=
  ⟨0, exampleStart.store.response examplePolicy .ok [] [] exampleClock⟩

/-- What holds after the events `0` to `n`: the first response is still in
the entries under generation 0, and the model has dropped it. -/
structure Alternated (n : Nat) (σ : Observed) : Prop where
  index : σ.store.table.index examplePrimary = some (alternatingNames n, UInt64.ofNat n)
  counter : σ.store.generation = UInt64.ofNat (n + 1)
  first : σ.store.table.entries examplePrimary 0 [none] = some firstAlternating
  model : ∃ group, σ.model examplePrimary = some (alternatingNames n, group) ∧
    (n ≠ 0 → group [none] = none)
  admits : σ.store.admits [] = true

theorem alternatingNames_succ_ne (n : Nat) : alternatingNames n ≠ alternatingNames (n + 1) := by
  unfold alternatingNames
  by_cases even : n % 2 = 0
  · have odd : (n + 1) % 2 ≠ 0 := by omega
    rw [if_pos even, if_neg odd]
    decide
  · have even' : (n + 1) % 2 = 0 := by omega
    rw [if_neg even, if_pos even']
    decide

section

variable [HttpDate]

theorem alternated_zero : ∃ σ, exampleStart.step (alternatingEvent 0) = some σ ∧
    Alternated 0 σ := by
  have admitted : exampleStart.store.admits [] = true := by decide
  refine ⟨_, rfl, ?_⟩
  constructor
  · rfl
  · rfl
  · rfl
  · exact ⟨_, rfl, fun h => absurd rfl h⟩
  · rfl

theorem Alternated.succ {n : Nat} {σ σ' : Observed} (alternated : Alternated n σ)
    (h : σ.step (alternatingEvent (n + 1)) = some σ') : Alternated (n + 1) σ' := by
  have stepped := step_spec h
  have different := alternatingNames_succ_ne n
  obtain ⟨arc, hop⟩ : ∃ arc, σ.op (alternatingEvent (n + 1)) =
      .put examplePrimary (alternatingNames (n + 1)) [some "b".toList] arc :=
    ⟨_, by simp only [op, alternatingEvent, Store.insertOp, alternated.admits, if_true]; rfl⟩
  -- the names are not those of the record, so the counter moves
  have takes : (σ.op (alternatingEvent (n + 1))).takes σ.store.table = true := by
    simp [hop, Table.Op.takes, Table.takes, alternated.index, different]
  have generation : σ.store.table.generationFor examplePrimary (alternatingNames (n + 1))
      σ.store.generation = UInt64.ofNat (n + 1) := by
    simp [Table.generationFor, alternated.index, different, alternated.counter]
  have table : σ'.store.table = σ.store.table.put examplePrimary (alternatingNames (n + 1))
      [some "b".toList] arc σ.store.generation := by
    rw [stepped.moves.table, hop]
    rfl
  constructor
  · rw [table, Table.put, generation]
    exact Function.update_self examplePrimary _ σ.store.table.index
  · rw [stepped.moves.generation, if_pos takes, alternated.counter]
    exact (UInt64.ofNat_add _ _).symm
  · rw [table]
    simpa [Table.put, Table.setEntry] using alternated.first
  · obtain ⟨group, hmodel, -⟩ := alternated.model
    have empty : σ.model.variantsUnder examplePrimary (alternatingNames (n + 1)) =
        fun _ => none := by
      simp [TwoLevel.variantsUnder, hmodel, different]
    have model : σ'.model examplePrimary = some (alternatingNames (n + 1),
        Function.update (fun _ => none) [some "b".toList] (some arc)) := by
      rw [stepped.model, hop, ← empty]
      exact TwoLevel.insert_self σ.model ..
    exact ⟨_, model, fun _ => by simp⟩
  · rw [stepped.moves.admits]
    exact alternated.admits

theorem alternated_run (n : Nat) :
    ∃ σ, Runs.run step exampleStart ((List.range (n + 1)).map alternatingEvent) = some σ ∧
      Alternated n σ := by
  induction n with
  | zero =>
      obtain ⟨σ, hstep, alternated⟩ := alternated_zero
      exact ⟨σ, Runs.run_cons.mpr ⟨σ, hstep, rfl⟩, alternated⟩
  | succ n ih =>
      obtain ⟨σ, hrun, alternated⟩ := ih
      obtain ⟨σ', hstep⟩ : ∃ σ', σ.step (alternatingEvent (n + 1)) = some σ' := ⟨_, rfl⟩
      refine ⟨σ', ?_, alternated.succ hstep⟩
      rw [List.range_succ, List.map_append]
      exact Runs.run_snoc.mpr ⟨σ, hrun, hstep⟩

end

/-- Another page is stored and invalidated. -/
def elsewhere : List Event :=
  let primary := { examplePrimary with pathAndQuery := "/b".toList }
  [.insertResponse primary (alternatingVary 1) examplePolicy .ok [] [] exampleClock,
    .invalidate primary]

/-- The first page is still found. -/
theorem lookups_follow_model_example : ∃ (_ : HttpDate) (σ σ' : Observed),
    Runs.run step exampleStart [alternatingEvent 0] = some σ ∧
      Runs.run step σ elsewhere = some σ' ∧
      (σ'.store.lookup examplePrimary [] none exampleClock.instant).map Lookup.response =
        some firstAlternating := by
  let dates : HttpDate := ⟨fun _ => none⟩
  have started : Runs.run step exampleStart [] = some exampleStart := rfl
  obtain ⟨σ, hstep⟩ : ∃ σ, exampleStart.step (alternatingEvent 0) = some σ := ⟨_, rfl⟩
  obtain ⟨σ', hlater⟩ : ∃ σ', Runs.run step σ elsewhere = some σ' := ⟨_, rfl⟩
  have apart : { examplePrimary with pathAndQuery := "/b".toList } ≠ examplePrimary := by decide
  have keeps : Runs.Along step (Keeps examplePrimary (alternatingVary 0)) σ elsewhere :=
    ⟨fun _ same => absurd same apart, fun _ _ => ⟨apart, fun _ _ => trivial⟩⟩
  have bounded : σ'.taken ≤ 2 ^ 64 := by
    obtain rfl := Option.some.inj hstep
    obtain rfl := Option.some.inj hlater
    decide
  refine ⟨dates, σ, σ', Runs.run_cons.mpr ⟨σ, hstep, rfl⟩, hlater, ?_⟩
  obtain ⟨-, -, persists⟩ := lookups_follow_model started (by decide)
  exact persists examplePrimary (alternatingVary 0) examplePolicy .ok [] [] exampleClock
    (by decide) σ elsewhere σ' hstep hlater keeps bounded [] none exampleClock.instant rfl

/-- After `2 ^ 64 + 1` stores the generation number is 0 again, and a lookup
reaches the first response, which the second store had replaced. -/
theorem wrapped_counter_revives_variant :
    ¬ ∀ (_ : HttpDate) (sizeMb : UInt64) (ttl : Duration) (events : List Event) (σ : Observed),
      Runs.run step (start sizeMb ttl) events = some σ →
      ∀ primary request maxAge now,
        (σ.store.lookup primary request maxAge now).map Lookup.response =
          σ.model.find primary fun names => varyValues names request := by
  intro refines
  have : HttpDate := ⟨fun _ => none⟩
  obtain ⟨σ, hrun, alternated⟩ := alternated_run (2 ^ 64)
  obtain ⟨group, hmodel, gone⟩ := alternated.model
  have names : alternatingNames (2 ^ 64) = [header.cookie] := by decide
  have wrapped : UInt64.ofNat (2 ^ 64) = 0 := by decide
  have same := refines _ _ _ _ σ hrun examplePrimary [] none exampleClock.instant
  rw [Store.lookup_response, Store.find_table, Table.find, alternated.index, TwoLevel.find, hmodel,
    names, wrapped] at same
  have values : varyValues [header.cookie] [] = [none] := rfl
  simp only [Option.bind_some, values, alternated.first, gone (by decide)] at same
  cases same

end Observed

end Shadowstep
