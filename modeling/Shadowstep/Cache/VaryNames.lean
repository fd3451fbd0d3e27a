import Shadowstep.Cache.Concurrent
import Shadowstep.Http.Lists
import Shadowstep.Lib.Canonical

/-!
# `Vary` names are canonical

`insert_response` compares the `Vary` names of the index record and of the
new response as lists, and discards every stored variant when they differ.
An origin may write the same names in another order, with other capitals and
blanks, more than once and over any lines. The names that `vary_names` reads
are the same list whenever the responses name the same fields.

* `listsFields_iff` — the responses that `vary_names` reads at all;
* `varyNames_eq_iff` — equal names for equal sets of fields;
* `find_insertResponse_of_names` — a response under the names of the index
  record replaces its own variant only;
* `named_run` — the record has the names of its origin in every interleaving;
* `vary_names_canonical` — no variant is lost to another spelling.
-/

namespace Shadowstep

open Rust Generations

/-! ## What a `Vary` says -/

/-- Every `Vary` line is visible ASCII, and its elements are valid field
names, in any letter case, or empty. None is `*`. -/
def ListsFields (response : HeaderMap) : Prop :=
  ∀ value ∈ response.getAll header.vary, (∀ b ∈ value.bytes, isVisibleAscii b = true) ∧
    ∀ element ∈ listElements value, element ≠ [] →
      element ≠ ['*'] ∧ IsFieldName (toAsciiLowercase element)

/-- The fields that the `Vary` lines of a response name, in lower case. -/
def namedFields (response : HeaderMap) : Set Text :=
  {field | ∃ value ∈ response.getAll header.vary, ∃ element ∈ listElements value,
    element ≠ [] ∧ toAsciiLowercase element = field}

/-! ## What is read of it -/

theorem fromText_eq_some {text : Text} {name : HeaderName} :
    HeaderName.fromText text = some name ↔ toAsciiLowercase text = name.asStr := by
  unfold HeaderName.fromText
  constructor
  · intro read
    split at read
    case isTrue => exact congrArg HeaderName.asStr (Option.some.inj read)
    case isFalse => cases read
  · intro same
    rw [dif_pos (same ▸ name.valid)]
    exact congrArg some (HeaderName.ext same)

theorem varyElement_isSome {element : Text} :
    (varyElement element).isSome ↔
      (element ≠ [] → element ≠ ['*'] ∧ IsFieldName (toAsciiLowercase element)) := by
  unfold varyElement
  split_ifs with empty star
  · simp [empty]
  · simp [star]
  · by_cases valid : IsFieldName (toAsciiLowercase element) <;>
      simp [HeaderName.fromText, empty, star, valid]

theorem mem_varyElement {element : Text} {names : List HeaderName}
    (read : varyElement element = some names) {name : HeaderName} :
    name ∈ names ↔ element ≠ [] ∧ toAsciiLowercase element = name.asStr := by
  unfold varyElement at read
  split_ifs at read with empty star
  · obtain rfl := Option.some.inj read
    simp [empty]
  · obtain ⟨found, valid, rfl⟩ := Option.map_eq_some_iff.mp read
    rw [List.mem_singleton, fromText_eq_some.mp valid, HeaderName.ext_iff]
    exact ⟨fun same => ⟨empty, same.symm⟩, fun same => same.2.symm⟩

/-- A line is read when it is visible ASCII and all of its elements are. -/
theorem varyLine_isSome {value : HeaderValue} :
    (varyLine value).isSome ↔ (∀ b ∈ value.bytes, isVisibleAscii b = true) ∧
      ∀ element ∈ listElements value, (varyElement element).isSome := by
  constructor
  · intro read
    obtain ⟨names, read⟩ := Option.isSome_iff_exists.mp read
    simp only [varyLine, Option.bind_eq_bind, Option.bind_eq_some_iff] at read
    obtain ⟨text, decoded, elements, all, -⟩ := read
    rw [pieces_of_toStr decoded] at all
    exact ⟨(toStr_eq_some decoded).1, mapM_isSome all⟩
  · rintro ⟨visible, all⟩
    have decoded : value.toStr = some (value.bytes.map asChar) :=
      if_pos (List.all_eq_true.mpr visible)
    obtain ⟨elements, all⟩ := exists_mapM all
    simp only [varyLine, decoded, Option.bind_eq_bind, Option.bind_some,
      pieces_of_toStr decoded, all]
    rfl

theorem mem_varyLine {value : HeaderValue} {names : List HeaderName}
    (read : varyLine value = some names) {name : HeaderName} :
    name ∈ names ↔ ∃ element ∈ listElements value,
      element ≠ [] ∧ toAsciiLowercase element = name.asStr := by
  simp only [varyLine, Option.bind_eq_bind, Option.bind_eq_some_iff, Option.pure_def,
    Option.some.injEq] at read
  obtain ⟨text, decoded, elements, all, rfl⟩ := read
  rw [pieces_of_toStr decoded] at all
  rw [List.mem_flatten]
  constructor
  · rintro ⟨some_names, member, named⟩
    obtain ⟨element, listed, given⟩ := (mem_mapM all).mp member
    exact ⟨element, listed, (mem_varyElement given).mp named⟩
  · rintro ⟨element, listed, named⟩
    obtain ⟨given, read⟩ := Option.isSome_iff_exists.mp (mapM_isSome all element listed)
    exact ⟨given, (mem_mapM all).mpr ⟨element, listed, read⟩, (mem_varyElement read).mpr named⟩

/-! ## One list for each set of names -/

/-- How `vary_names` sorts. -/
def byName (left right : HeaderName) : Prop := left.asStr ≤ right.asStr

instance : DecidableRel byName :=
  fun left right => inferInstanceAs (Decidable (left.asStr ≤ right.asStr))

instance : Std.Total byName := ⟨fun left right => le_total left.asStr right.asStr⟩

instance : IsTrans HeaderName byName := ⟨fun _ _ _ before after => le_trans before after⟩

/-- Names that are sorted alike are one name. -/
instance : Std.Antisymm byName :=
  ⟨fun _ _ before after => HeaderName.ext (le_antisymm before after)⟩

/-- `vary_names` reads the responses whose `Vary` lists fields. -/
theorem listsFields_iff {response : HeaderMap} :
    ListsFields response ↔ (varyNames response).isSome := by
  have lines : ListsFields response ↔
      ∀ value ∈ response.getAll header.vary, (varyLine value).isSome := by
    simp only [ListsFields, varyLine_isSome, varyElement_isSome]
  rw [lines]
  constructor
  · intro all
    obtain ⟨names, read⟩ := exists_mapM all
    simp [varyNames, read]
  · intro read
    obtain ⟨names, read⟩ := Option.isSome_iff_exists.mp read
    simp only [varyNames, Option.bind_eq_bind, Option.bind_eq_some_iff] at read
    obtain ⟨lines, all, -⟩ := read
    exact mapM_isSome all

theorem listsFields_of_read {response : HeaderMap} {names : List HeaderName}
    (read : varyNames response = some names) : ListsFields response :=
  listsFields_iff.mpr (read ▸ rfl)

/-- The names are the canonical list of those that the lines give. -/
theorem varyNames_eq_some {response : HeaderMap} {names : List HeaderName}
    (read : varyNames response = some names) :
    ∃ given, names = Canonical.canonical byName given ∧
      ∀ name, name ∈ given ↔ name.asStr ∈ namedFields response := by
  simp only [varyNames, Option.bind_eq_bind, Option.bind_eq_some_iff, Option.pure_def,
    Option.some.injEq] at read
  obtain ⟨lines, all, rfl⟩ := read
  refine ⟨lines.flatten, rfl, fun name => ?_⟩
  rw [List.mem_flatten]
  constructor
  · rintro ⟨line, member, named⟩
    obtain ⟨value, listed, read⟩ := (mem_mapM all).mp member
    exact ⟨value, listed, (mem_varyLine read).mp named⟩
  · rintro ⟨value, listed, named⟩
    obtain ⟨line, read⟩ := Option.isSome_iff_exists.mp (mapM_isSome all value listed)
    exact ⟨line, (mem_mapM all).mpr ⟨value, listed, read⟩, (mem_varyLine read).mpr named⟩

/-- A named field is a field name. -/
theorem ListsFields.isFieldName {response : HeaderMap} (lists : ListsFields response)
    {field : Text} (named : field ∈ namedFields response) : IsFieldName field := by
  obtain ⟨value, listed, element, member, nonempty, rfl⟩ := named
  exact ((lists value listed).2 element member nonempty).2

/-- Two responses that list fields have the same names exactly when they name
the same fields. -/
theorem varyNames_eq_iff {left right : HeaderMap} (listsLeft : ListsFields left)
    (listsRight : ListsFields right) :
    varyNames left = varyNames right ↔ namedFields left = namedFields right := by
  obtain ⟨names, readLeft⟩ := Option.isSome_iff_exists.mp (listsFields_iff.mp listsLeft)
  obtain ⟨names', readRight⟩ := Option.isSome_iff_exists.mp (listsFields_iff.mp listsRight)
  obtain ⟨given, rfl, memLeft⟩ := varyNames_eq_some readLeft
  obtain ⟨given', rfl, memRight⟩ := varyNames_eq_some readRight
  rw [readLeft, readRight, Option.some.injEq, Canonical.canonical_eq_iff]
  constructor
  · intro same
    ext field
    constructor
    · intro named
      exact (memRight ⟨field, listsLeft.isFieldName named⟩).mp
        ((same _).mp ((memLeft _).mpr named))
    · intro named
      exact (memLeft ⟨field, listsRight.isFieldName named⟩).mp
        ((same _).mpr ((memRight _).mpr named))
  · intro same name
    rw [memLeft, memRight, same]

/-- An element `*` in any line takes all names away. -/
theorem varyNames_of_star {response : HeaderMap} {value : HeaderValue}
    (member : value ∈ response.getAll header.vary) (star : ['*'] ∈ listElements value) :
    varyNames response = none := by
  cases read : varyNames response with
  | none => rfl
  | some names =>
      have allowed := (listsFields_of_read read value member).2 ['*'] star (List.cons_ne_nil _ _)
      exact absurd rfl allowed.1

/-! ## Under the names of the index record -/

namespace Store

/-- A response under the names of the index record replaces its own variant
only. -/
theorem find_insertResponse_of_names {store : Store} {primary : PrimaryKey} {vary : Vary}
    (names : ∀ index, store.index primary = some index → index.vary = vary.names)
    (policy : Storable) (status : StatusCode) (headers : Fields) (body : Bytes) (now : Clock)
    {request : HeaderMap} {entry : StaleEntry} (found : store.find primary request = some entry)
    (other : entry.key.vary ≠ vary.values) :
    (store.insertResponse primary vary policy status headers body now).2.find primary request =
      some entry := by
  cases admitted : store.admits body with
  | false => rwa [insertResponse_of_not_admits admitted]
  | true =>
      obtain ⟨index, live, key, -⟩ := find_eq_some.mp found
      have same := names index live
      have values : varyValues vary.names request ≠ vary.values := by
        rwa [key, keyFor, same] at other
      obtain ⟨store', stored, moves⟩ :=
        insertResponse_of_admits admitted primary vary policy status headers now
      rw [stored, moves.find_of_put live same values, found]

end Store

/-! ## One set of fields, however written -/

/-- A list that `vary_names` reads of a response that names these fields. -/
def NamesOf (fields : Set Text) (names : List HeaderName) : Prop :=
  ∃ response, namedFields response = fields ∧ varyNames response = some names

/-- There is one such list. -/
theorem NamesOf.unique {fields : Set Text} {left right : List HeaderName}
    (first : NamesOf fields left) (second : NamesOf fields right) : left = right := by
  obtain ⟨response, named, read⟩ := first
  obtain ⟨response', named', read'⟩ := second
  have same : varyNames response = varyNames response' :=
    (varyNames_eq_iff (listsFields_of_read read) (listsFields_of_read read')).mpr
      (named.trans named'.symm)
  rw [read, read'] at same
  exact Option.some.inj same

/-- What a call is about to store for the primary key names these fields. A
`freshen` reads them of the stored fields with those of the 304. -/
def Pc.Names (fields : Set Text) (primary : PrimaryKey) : Pc → Prop
  | .insertIndexGet insertion | .insertFetchAdd insertion | .insertIndexPut insertion _ _ =>
    insertion.primary = primary → NamesOf fields insertion.vary.names
  | .freshenEntry entry _ _ update age =>
    entry.key.primary = primary →
      namedFields (Store.freshenMap entry.response.val update age) = fields
  | _ => True

section

variable {fields : Set Text} {primary : PrimaryKey}

/-- A `freshen` inserts under the names that it reads. -/
theorem freshenBranch_eq_insert [HttpDate] {memory : Memory} {entry : StaleEntry}
    {requestPolicy : RequestPolicy} {request : HeaderMap} {update : Fields}
    {age : Option HeaderValue} {now : Clock} {insertion : Insertion}
    (h : freshenBranch memory entry requestPolicy request update age now =
      .insertIndexGet insertion) :
    insertion.primary = entry.key.primary ∧
      varyNames (Store.freshenMap entry.response.val update age) = some insertion.vary.names := by
  simp only [freshenBranch] at h
  split at h
  case isFalse => cases h
  case isTrue =>
    split at h
    case h_2 => cases h
    case h_1 policy vary accepted =>
      obtain rfl := Pc.insertIndexGet.inj h
      obtain ⟨_, _, spec⟩ := storable_spec accepted
      exact ⟨rfl, spec.names⟩

/-- What a call is about to store stays so from access to access. -/
theorem Pc.Names.next [HttpDate] {pc pc' : Pc} {memory memory' : Memory} {now : Clock}
    (names : pc.Names fields primary) (h : pc.next memory now = some (pc', memory')) :
    pc'.Names fields primary := by
  cases next_access h with
  | reuse | renew | fetchAdd => exact names
  | freshenInsert =>
      obtain ⟨branch, -⟩ := Prod.mk.inj (Option.some.inj h)
      obtain ⟨same, read⟩ := freshenBranch_eq_insert branch
      intro here
      exact ⟨_, names (same.symm.trans here), read⟩
  | _ => trivial

namespace Concurrent

/-- Every call that begins is to store names of these fields for the primary
key, whichever spelling the origin gave each of them. -/
def Steady (fields : Set Text) (primary : PrimaryKey) (_ : Concurrent) : Interleaving → Prop
  | .call _ call => call.start.Names fields primary
  | _ => True

/-- The index record of the primary key and all calls have names of these
fields. -/
structure Named (fields : Set Text) (primary : PrimaryKey) (σ : Concurrent) : Prop where
  index : ∀ record, σ.memory.store.index primary = some record → NamesOf fields record.vary
  calls : ∀ id pc, σ.calls id = some pc → pc.Names fields primary

theorem named_start (fields : Set Text) (primary : PrimaryKey) (sizeMb : UInt64)
    (ttl : Duration) : Named fields primary (start sizeMb ttl) where
  index _ h := by cases h
  calls _ _ h := by cases h

/-- The names of a response that names the fields are those of the record. -/
theorem Named.same {σ : Concurrent} (named : Named fields primary σ) {names : List HeaderName}
    (read : NamesOf fields names) {record : Index}
    (live : σ.memory.store.index primary = some record) : record.vary = names :=
  (named.index record live).unique read

variable [HttpDate]

theorem Named.step {σ σ' : Concurrent} {event : Interleaving} (named : Named fields primary σ)
    (steady : Steady fields primary σ event) (h : σ.step event = some σ') :
    Named fields primary σ' := by
  cases event with
  | access id now =>
      obtain ⟨pc, pc', memory, here, next, rfl⟩ := step_access h
      have names := named.calls id pc here
      constructor
      · intro record live
        obtain before | ⟨insertion, source, rfl, same, vary⟩ := (next_access next).index live
        · exact named.index record before
        · exact vary ▸ names same
      · intro other pc there
        obtain ⟨-, rfl⟩ | ⟨-, before⟩ := Runs.update_cases there
        · exact names.next next
        · exact named.calls other pc before
  | call id call =>
      cases step_cases h
      refine ⟨named.index, fun other pc there => ?_⟩
      obtain ⟨-, rfl⟩ | ⟨-, before⟩ := Runs.update_cases there
      · exact steady
      · exact named.calls other pc before
  | evictIndex =>
      cases step_cases h
      exact ⟨fun record live => named.index record (Store.index_removeIndex live).2, named.calls⟩
  | evictEntry =>
      cases step_cases h
      exact ⟨named.index, named.calls⟩

theorem named_run {sizeMb : UInt64} {ttl : Duration} {events : List Interleaving}
    {σ : Concurrent} (run : Runs.run Concurrent.step (start sizeMb ttl) events = some σ)
    (steady : Runs.Along Concurrent.step (Steady fields primary) (start sizeMb ttl) events) :
    Named fields primary σ :=
  Runs.invariant_along (fun _ _ _ named steady h => named.step steady h)
    (named_start fields primary sizeMb ttl) steady run

/-- No insertion for the primary key takes another one's variants away by its
names. -/
structure KeepsVariants (fields : Set Text) (primary : PrimaryKey) (σ : Concurrent) : Prop where
  /-- a call that is not interrupted replaces its own variant only -/
  whole : ∀ vary policy status headers body now, NamesOf fields vary.names →
    ∀ request entry, σ.memory.store.find primary request = some entry →
      entry.key.vary ≠ vary.values →
      (σ.memory.store.insertResponse primary vary policy status headers body now).2.find primary
        request = some entry
  /-- a call that finds an index record, whatever runs beside it, is about to
  write the same record -/
  reuses : ∀ id insertion record now, σ.calls id = some (.insertIndexGet insertion) →
    insertion.primary = primary → σ.memory.store.admits insertion.body = true →
    σ.memory.store.index primary = some record →
    record.vary = insertion.vary.names ∧
      Pc.next (.insertIndexGet insertion) σ.memory now =
        some (.insertIndexPut insertion record.generation
          (.reused (σ.memory.invalidations primary)), σ.memory)

theorem Named.keepsVariants {σ : Concurrent} (named : Named fields primary σ) :
    KeepsVariants fields primary σ where
  whole vary policy status headers body now read request entry found other :=
    Store.find_insertResponse_of_names (fun _ live => named.same read live) policy status headers
      body now found other
  reuses id insertion record now here same admitted live := by
    subst same
    have names := named.same (named.calls id _ here rfl) live
    refine ⟨names, ?_⟩
    simp only [Pc.next, admitted, if_true, live, names]

end Concurrent

end

/-! ## Canonical names -/

/-- The names of two responses are equal exactly when they name the same
fields, and `*` leaves none. So while an origin names the same fields for a
primary key, however it writes them, no insertion loses the other variants. -/
theorem vary_names_canonical [HttpDate] :
    (∀ left right, ListsFields left → ListsFields right →
      (varyNames left = varyNames right ↔ namedFields left = namedFields right)) ∧
    (∀ response value, value ∈ HeaderMap.getAll response header.vary →
      ['*'] ∈ listElements value → varyNames response = none) ∧
    ∀ fields primary sizeMb ttl events σ,
      Runs.run Concurrent.step (Concurrent.start sizeMb ttl) events = some σ →
      Runs.Along Concurrent.step (Concurrent.Steady fields primary)
        (Concurrent.start sizeMb ttl) events →
      Concurrent.KeepsVariants fields primary σ := by
  refine ⟨fun _ _ => varyNames_eq_iff, fun _ _ => varyNames_of_star, ?_⟩
  intro fields primary sizeMb ttl events σ run steady
  exact (Concurrent.named_run run steady).keepsVariants

/-- `Vary: Accept-Encoding, Cookie`. -/
def spelledOnce : HeaderMap := [(header.vary, ⟨ascii "Accept-Encoding, Cookie", by decide⟩)]

/-- The same fields over two lines. -/
def respelled : HeaderMap :=
  [(header.vary, ⟨ascii "cookie,,", by decide⟩),
    (header.vary, ⟨ascii "\tACCEPT-ENCODING , cookie", by decide⟩)]

/-- What `vary_names` reads of both. -/
def exampleNames : List HeaderName := [⟨"accept-encoding".toList, by decide⟩, header.cookie]

/-- `Vary: Cookie, *`. -/
def starred : HeaderValue := ⟨ascii "Cookie, *", by decide⟩

/-- A response is stored for a request without either field. -/
def storeFirstVariant : List Interleaving :=
  [.call 0 (.insertResponse
      ⟨examplePrimary, ⟨exampleNames, [none, none]⟩, examplePolicy, .ok, [], []⟩),
    .access 0 exampleClock, .access 0 exampleClock, .access 0 exampleClock,
    .access 0 exampleClock]

theorem vary_names_canonical_example : ∃ (_ : HttpDate) (σ : Concurrent) (entry : StaleEntry),
    namedFields spelledOnce = namedFields respelled ∧
      varyNames [(header.vary, starred)] = none ∧
      Runs.run Concurrent.step (Concurrent.start 1 (Duration.fromSecs 3600)) storeFirstVariant =
        some σ ∧
      σ.memory.store.find examplePrimary [] = some entry ∧
      (σ.memory.store.insertResponse examplePrimary ⟨exampleNames, [none, some "a".toList]⟩
        examplePolicy .ok [] [] exampleClock).2.find examplePrimary [] = some entry := by
  let dates : HttpDate := ⟨fun _ => none⟩
  obtain ⟨equal, star, kept⟩ := vary_names_canonical
  have once : varyNames spelledOnce = some exampleNames := by decide
  have again : varyNames respelled = some exampleNames := by decide
  have same : namedFields spelledOnce = namedFields respelled :=
    (equal _ _ (listsFields_of_read once) (listsFields_of_read again)).mp (once.trans again.symm)
  have steady : Runs.Along Concurrent.step
      (Concurrent.Steady (namedFields respelled) examplePrimary)
      (Concurrent.start 1 (Duration.fromSecs 3600)) storeFirstVariant := by
    refine ⟨fun _ => ⟨spelledOnce, same, once⟩, fun _ _ => ⟨trivial, fun _ _ => ⟨trivial,
      fun _ _ => ⟨trivial, fun _ _ => ⟨trivial, fun _ _ => trivial⟩⟩⟩⟩⟩
  obtain ⟨σ, entry, run, found, values⟩ : ∃ (σ : Concurrent) (entry : StaleEntry),
      Runs.run Concurrent.step (Concurrent.start 1 (Duration.fromSecs 3600)) storeFirstVariant =
        some σ ∧ σ.memory.store.find examplePrimary [] = some entry ∧
          entry.key.vary = [none, none] := ⟨_, _, rfl, rfl, rfl⟩
  refine ⟨dates, σ, entry, same, star _ starred (by decide) (by decide), run, found, ?_⟩
  refine (kept _ _ _ _ _ _ run steady).whole _ _ _ _ _ _ ⟨respelled, rfl, again⟩ _ _ found ?_
  rw [values]
  decide

end Shadowstep
