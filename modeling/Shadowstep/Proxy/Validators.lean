import Shadowstep.Proxy.Audience

/-!
# Whose validator a stored body has

`updated_fields` merges the fields of a 304 by name, the `ETag` like any
other, and `freshen` does not compare it with the stored one. A 304 with
another strong `ETag` gives the stored body the validator of another
representation.

* `Sourced` — the store, and for each response the head that its body came
  with, through stores and 304s;
* `Agrees` — what a 304 has to be for the stored body to keep its validator;
* `own_validators_iff` — the runs along which it does.
-/

namespace Shadowstep

open Rust Generations

/-! ## Strong validators -/

/-- An entity tag without `W/`. -/
def Strong (value : HeaderValue) : Prop := ¬ ascii "W/" <+: value.bytes

instance (value : HeaderValue) : Decidable (Strong value) := by
  unfold Strong
  infer_instance

/-- The entity tags of some fields. -/
def etags (fields : HeaderMap) : List HeaderValue := fields.getAll header.etag

/-- `Connection` lists `ETag`. -/
def EtagListed (head : Head) : Prop :=
  header.etag.asStr ∈ connectionOptions (head.map.getAll header.connection)

instance (head : Head) : Decidable (EtagListed head) :=
  inferInstanceAs (Decidable (header.etag.asStr ∈ connectionOptions _))

/-- The strong tags of a body's fields are those of the response that it came
with, if that had any tag. -/
def OwnTags (source : Head) (fields : Fields) : Prop :=
  ∀ tag ∈ etags fields, Strong tag → tag ∈ etags source.map ∨ etags source.map = []

/-- A 304 with a strong tag that the stored fields, which have strong ones, do
not have. -/
def Differs (stored : Fields) (notModified : Head) : Prop :=
  ∃ tag ∈ etags notModified.map, Strong tag ∧ tag ∉ etags stored ∧ ∃ other ∈ etags stored, Strong other

/-- Every strong tag of a 304 is a stored one; or no stored one is strong, and
the tag is not stored either, or is one that the body came with, or that came
without any. -/
def Agrees (source : Head) (stored : Fields) (notModified : Head) : Prop :=
  ∀ tag ∈ etags notModified.map, Strong tag → tag ∈ etags stored ∨
    (∀ other ∈ etags stored, ¬ Strong other) ∧
      (EtagListed notModified ∨ tag ∈ etags source.map ∨ etags source.map = [])

theorem etags_stored (head : Head) :
    etags (storedFields (forwardableFields head)) = if EtagListed head then [] else etags head.map :=
  getAll_stored head (by decide) (by decide) (by decide)

theorem ownTags_stored (head : Head) : OwnTags head (storedFields (forwardableFields head)) := by
  intro tag member _
  rw [etags_stored] at member
  split at member
  · cases member
  · exact .inl member

/-- What an update that leaves something stored comes to. -/
theorem agrees_iff {source : Head} {stored : Fields} {notModified : Head}
    (own : OwnTags source stored) :
    Agrees source stored notModified ↔ ¬ Differs stored notModified ∧
      OwnTags source (updatedFields stored (storedFields (forwardableFields notModified))) := by
  have merged : etags (updatedFields stored (storedFields (forwardableFields notModified))) =
      if EtagListed notModified ∨ etags notModified.map = [] then etags stored
      else etags notModified.map := by
    have update := etags_stored notModified
    rw [etags] at update
    rw [etags, getAll_updatedFields, HeaderMap.containsKey_eq_getAll, update]
    by_cases listed : EtagListed notModified
    · simp [listed, etags]
    · by_cases empty : etags notModified.map = []
      · simp only [listed, if_false, empty, List.isEmpty_nil, or_true, if_true]
        rfl
      · simp [listed, empty]
  constructor
  · intro agrees
    constructor
    · rintro ⟨tag, member, strong, missing, other, stored_other, strong_other⟩
      rcases agrees tag member strong with there | ⟨none_strong, -⟩
      · exact missing there
      · exact none_strong other stored_other strong_other
    · intro tag member strong
      rw [merged] at member
      split at member
      -- the 304 brings no tag of its own
      case isTrue => exact own tag member strong
      case isFalse brings =>
        simp only [not_or] at brings
        rcases agrees tag member strong with there | ⟨-, listed | known⟩
        · exact own tag there strong
        · exact absurd listed brings.1
        · exact known
  · rintro ⟨same, ownAfter⟩ tag member strong
    by_cases there : tag ∈ etags stored
    · exact .inl there
    · refine .inr ⟨fun other stored_other strong_other =>
        same ⟨tag, member, strong, there, other, stored_other, strong_other⟩, ?_⟩
      by_cases listed : EtagListed notModified
      · exact .inl listed
      · have brings : ¬ (EtagListed notModified ∨ etags notModified.map = []) := by
          rintro (listed' | empty)
          · exact listed listed'
          · rw [empty] at member
            cases member
        rw [if_neg brings] at merged
        exact .inr (ownAfter tag (merged ▸ member) strong)

/-! ## Where a body came from -/

/-- The store, and the head of the full response that the body of each
allocation came with. -/
structure Sourced where
  observed : Observed
  source : Nat → Option Head

namespace Sourced

/-- What the proxy does with the store, or moka by itself. -/
inductive Event where
  /-- a whole body of a response -/
  | store (storing : Storing) (head : Head) (body : Bytes) (now : Clock)
  /-- a 304 for an entry that a lookup has found -/
  | freshen (found : Nat) (requestPolicy : RequestPolicy) (notModified : Head) (now : Clock)
  | lookup (primary : PrimaryKey) (request : HeaderMap) (maxAge : Option Duration)
      (now : Instant)
  | invalidate (primary : PrimaryKey)
  | insertAsset (path : Path) (content : Bytes) (etag : Text) (modified : SystemTime)
  | evictIndex (primary : PrimaryKey)
  | evictEntry (key : Key)

def Event.call : Event → Shadowstep.Event
  | .store storing head body now => Observed.storingEvent storing head body now
  | .freshen found requestPolicy notModified now =>
    Observed.notModifiedEvent found requestPolicy notModified now
  | .lookup primary request maxAge now => .lookup primary request maxAge now
  | .invalidate primary => .invalidate primary
  | .insertAsset path content etag modified => .insertAsset path content etag modified
  | .evictIndex primary => .evictIndex primary
  | .evictEntry key => .evictEntry key

def start (sizeMb : UInt64) (ttl : Duration) : Sourced := ⟨.start sizeMb ttl, fun _ => none⟩

/-- The head that an event's body came with. -/
def origin (σ : Sourced) : Event → Option Head
  | .store _ head _ _ => some head
  | .freshen found .. =>
    σ.observed.found[found]?.bind fun (entry, _) => σ.source entry.response.ptr
  | _ => none

/-- A strong tag of a stored response is one of the head that its body came
with, if that had any. -/
def OwnValidators (σ : Sourced) : Prop :=
  ∀ key arc, σ.observed.store.responseAt key = some arc →
    ∃ head, σ.source arc.ptr = some head ∧ OwnTags head arc.val.headers

section

variable [HttpDate]

def step (σ : Sourced) (event : Event) : Option Sourced :=
  (σ.observed.step event.call).map fun observed =>
    { observed := observed
      source := if observed.store.arcs = σ.observed.store.arcs then σ.source
        else Function.update σ.source σ.observed.store.arcs (σ.origin event) }

/-- An event has stored the fields of a 304 whose strong tag differs. -/
def StoresDiffering (σ σ' : Sourced) : Event → Prop
  | .freshen found _ notModified _ =>
    σ'.observed.store.arcs ≠ σ.observed.store.arcs ∧ ∃ entry request,
      σ.observed.found[found]? = some (entry, request) ∧
        Differs entry.response.val.headers notModified
  | _ => False

/-- A step leaves stored bodies with their own validators. -/
def Keeps (σ : Sourced) (event : Event) : Prop :=
  ∀ σ', σ.step event = some σ' → OwnValidators σ' ∧ ¬ StoresDiffering σ σ' event

/-- A 304 stores nothing, or its strong tags agree. -/
def Agreeing (σ : Sourced) : Event → Prop
  | .freshen found requestPolicy notModified now => ∀ entry request source,
    σ.observed.found[found]? = some (entry, request) →
    σ.source entry.response.ptr = some source →
      σ.observed.store.current entry = false ∨
      storable requestPolicy request entry.response.val.status
        (Store.freshenMap entry.response.val (storedFields (forwardableFields notModified))
          (notModified.map.get header.age)) now = none ∨
      Agrees source entry.response.val.headers notModified
  | _ => True

/-! ## The invariant -/

/-- What stays true of a response from its allocation on. -/
structure Own (σ : Sourced) (arc : Arc StoredResponse) : Prop where
  allocated : arc.ptr < σ.observed.store.arcs
  admitted : σ.observed.store.admits arc.val.body = true
  tags : ∃ head, σ.source arc.ptr = some head ∧ OwnTags head arc.val.headers

/-- So it is of all that are stored or were found. -/
structure Owned (σ : Sourced) : Prop where
  stored : ∀ key arc, σ.observed.store.responseAt key = some arc → Own σ arc
  found : ∀ entry request, (entry, request) ∈ σ.observed.found → Own σ entry.response

omit [HttpDate] in
theorem owned_start (sizeMb : UInt64) (ttl : Duration) : Owned (start sizeMb ttl) where
  stored key arc h := by simp [start, Observed.start, Store.new, Store.responseAt] at h
  found entry request h := by simp [start, Observed.start] at h

/-- What a step does to the store and to the sources. -/
theorem step_eq {σ σ' : Sourced} {event : Event} (h : σ.step event = some σ') :
    σ.observed.step event.call = some σ'.observed ∧
      σ'.source = if σ'.observed.store.arcs = σ.observed.store.arcs then σ.source
        else Function.update σ.source σ.observed.store.arcs (σ.origin event) := by
  rcases Option.map_eq_some_iff.mp h with ⟨observed, hstep, rfl⟩
  exact ⟨hstep, rfl⟩

/-- A response keeps its source. -/
theorem Own.step {σ σ' : Sourced} {event : Event} {arc : Arc StoredResponse} (own : Own σ arc)
    (h : σ.step event = some σ') : Own σ' arc := by
  rcases step_eq h with ⟨hstep, sources⟩
  have moves := (Observed.step_spec hstep).moves
  have same : σ'.source arc.ptr = σ.source arc.ptr := by
    rw [sources]
    split
    · rfl
    · exact Function.update_of_ne own.allocated.ne _ _
  constructor
  · rw [moves.arcs]
    exact own.allocated.trans_le (Nat.le_add_right _ _)
  · rw [moves.admits]
    exact own.admitted
  · rw [same]
    exact own.tags

/-- What a step puts has the source of the event. -/
theorem source_of_put {σ σ' : Sourced} {event : Event} (h : σ.step event = some σ')
    {p : PrimaryKey} {names : List HeaderName} {v : VaryValues} {arc : Arc StoredResponse}
    (put : σ.observed.op event.call = .put p names v arc) :
    arc.ptr = σ.observed.store.arcs ∧ σ'.observed.store.arcs = σ.observed.store.arcs + 1 ∧
      σ'.observed.store.admits arc.val.body = true ∧ σ'.source arc.ptr = σ.origin event := by
  rcases step_eq h with ⟨hstep, sources⟩
  have moves := (Observed.step_spec hstep).moves
  rcases moves.allocated _ _ _ _ put with ⟨new, admitted⟩
  have arcs := moves.arcs
  rw [put] at arcs
  refine ⟨new, arcs, (moves.admits _).trans admitted, ?_⟩
  rw [sources, if_neg (by rw [arcs]; exact Nat.succ_ne_self _), new, Function.update_self]

/-- What an agreeing step puts has its own tags. -/
theorem own_of_put {σ σ' : Sourced} {event : Event} (owned : Owned σ) (agreeing : Agreeing σ event)
    (h : σ.step event = some σ') {p : PrimaryKey} {names : List HeaderName} {v : VaryValues}
    {arc : Arc StoredResponse} (put : σ.observed.op event.call = .put p names v arc) :
    Own σ' arc := by
  rcases source_of_put h put with ⟨new, arcs, admitted, source⟩
  refine ⟨by omega, admitted, ?_⟩
  rw [source]
  cases event with
  | store storing head body now =>
    refine ⟨head, rfl, ?_⟩
    rw [(Store.insertOp_eq_put put).2]
    exact ownTags_stored head
  | freshen found requestPolicy notModified now =>
    cases returned : σ.observed.found[found]? with
    | none =>
      simp only [Event.call, Observed.notModifiedEvent, Observed.op, returned] at put
      cases put
    | some pair =>
      rcases pair with ⟨entry, request⟩
      simp only [Event.call, Observed.notModifiedEvent, Observed.op, returned] at put
      rcases Store.freshenOp_eq_put put with ⟨policy, vary, accepted, -, stored⟩
      have current := (Observed.freshenOp_allocates (by rw [put]; exact Nat.one_pos)).1
      rcases (owned.found entry request (List.mem_of_getElem? returned)).tags with
        ⟨head, hsource, own⟩
      refine ⟨head, by simp only [origin, returned, Option.bind_some, hsource], ?_⟩
      rw [stored]
      rcases agreeing entry request head returned hsource with gone | unstorable | agrees
      · rw [current] at gone
        cases gone
      · rw [accepted] at unstorable
        cases unstorable
      · exact ((agrees_iff own).mp agrees).2
  | invalidate | lookup | insertAsset | evictIndex => cases put
  | evictEntry key => cases key <;> cases put

theorem Owned.step {σ σ' : Sourced} {event : Event} (owned : Owned σ) (agreeing : Agreeing σ event)
    (h : σ.step event = some σ') : Owned σ' := by
  have stepped := Observed.step_spec (step_eq h).1
  constructor
  · intro key arc there
    rcases stepped.moves.responseAt there with before | ⟨p, names, v, put⟩
    · exact (owned.stored key arc before).step h
    · exact own_of_put owned agreeing h put
  · intro entry request member
    rw [stepped.found, List.mem_append] at member
    rcases member with before | returned
    · exact (owned.found entry request before).step h
    · rcases Observed.mem_returned returned with ⟨primary, hfind⟩
      rcases Store.find_eq_some.mp hfind with ⟨index, -, -, there⟩
      exact (owned.stored _ _ there).step h

/-! ## The exact condition -/

/-- One step leaves stored bodies with their own validators if and only if its
304, if it stores one, agrees. -/
theorem keeps_iff {σ : Sourced} (owned : Owned σ) (event : Event) :
    Keeps σ event ↔ Agreeing σ event := by
  constructor
  · intro keeps
    cases event with
    | freshen found requestPolicy notModified now =>
      intro entry request source returned hsource
      by_contra wrong
      simp only [not_or, Bool.not_eq_false, ← ne_eq, Option.ne_none_iff_exists'] at wrong
      rcases wrong with ⟨current, ⟨⟨policy, vary⟩, accepted⟩, disagrees⟩
      have own := owned.found entry request (List.mem_of_getElem? returned)
      rcases own.tags with ⟨head, hhead, ownTags⟩
      obtain rfl := Option.some.inj (hsource.symm.trans hhead)
      rcases Observed.freshenOp_put own.admitted current accepted with
        ⟨arc, -, -, headers, put⟩
      have hop : σ.observed.op (Event.freshen found requestPolicy notModified now).call =
          .put entry.key.primary vary.names (varyValues vary.names request) arc := by
        simp only [Event.call, Observed.notModifiedEvent, Observed.op, returned, put]
      obtain ⟨σ', h⟩ : ∃ σ', σ.step (.freshen found requestPolicy notModified now) = some σ' := by
        simp [step, Event.call, Observed.notModifiedEvent, Observed.step, Observed.after, returned]
      rcases source_of_put h hop with ⟨-, arcs, -, from_entry⟩
      rcases keeps σ' h with ⟨validators, same⟩
      refine disagrees ((agrees_iff ownTags).mpr ⟨fun differs => same ⟨by omega, entry, request,
        returned, differs⟩, ?_⟩)
      -- the freshened response is in the store, under the source of the entry
      have moves := (Observed.step_spec (step_eq h).1).moves
      rw [hop] at moves
      rcases moves.put_responseAt with ⟨generation, there⟩
      rcases validators _ arc there with ⟨head, hhead, own⟩
      have known : σ'.source arc.ptr = some source := by
        rw [from_entry]
        simp only [origin, returned, Option.bind_some, hsource]
      obtain rfl := Option.some.inj (hhead.symm.trans known)
      rwa [headers] at own
    | _ => trivial
  · intro agreeing σ' h
    refine ⟨fun key arc there => ((owned.step agreeing h).stored key arc there).tags, ?_⟩
    cases event with
    | freshen found requestPolicy notModified now =>
      rintro ⟨stored, entry, request, returned, differs⟩
      have moves := (Observed.step_spec (step_eq h).1).moves
      have allocates : 0 < Store.allocations
          (σ.observed.op (Event.freshen found requestPolicy notModified now).call) := by
        have := moves.arcs
        omega
      simp only [Event.call, Observed.notModifiedEvent, Observed.op, returned] at allocates
      rcases Observed.freshenOp_allocates allocates with ⟨current, accepted, haccepted⟩
      rcases (owned.found entry request (List.mem_of_getElem? returned)).tags with
        ⟨head, hsource, own⟩
      rcases agreeing entry request head returned hsource with gone | unstorable | agrees
      · rw [current] at gone
        cases gone
      · rw [haccepted] at unstorable
        cases unstorable
      · exact ((agrees_iff own).mp agrees).1 differs
    | _ => exact id

/-- Stored bodies have their own validators all along a run if and only if
every 304 of the run agrees with what it updates, or stores nothing. -/
theorem own_validators_iff (sizeMb : UInt64) (ttl : Duration) (events : List Event) :
    Runs.Along step Keeps (start sizeMb ttl) events ↔
      Runs.Along step Agreeing (start sizeMb ttl) events :=
  Runs.along_iff (I := Owned) (fun _ event owned => keeps_iff owned event)
    (fun _ _ _ owned agreeing h => owned.step agreeing h) (owned_start sizeMb ttl)

end

/-! ## Another representation's tag -/

def tagB : HeaderValue := ⟨ascii "\"b\"", by decide⟩

/-- The page as the origin sends it. -/
def taggedPage : Head := ⟨.ok, freshForMinute ++ [(header.etag, tagA)]⟩

/-- The page is stored, is found stale a minute later, and a 304 has the tag
of another page. -/
def revalidatedPage (storing : Storing) : List Event :=
  [.store storing taggedPage [] exampleClock,
    .lookup (germanRequest []).cacheKey (germanRequest []).headers none afterMinute,
    .freshen 0 (.new .get (germanRequest []).headers) ⟨.notModified, [(header.etag, tagB)]⟩
      nextMinute]

/-- The stored page now has that tag. -/
theorem differing_tag_is_stored : ∃ (_ : HttpDate) (storing : Storing) (σ : Sourced)
    (arc : Arc StoredResponse),
    (storePlan (.request 0) (.new 1 (Duration.fromSecs 3600)) (germanRequest []) taggedPage
        exampleClock).1 = some storing ∧
      Runs.run step (start 1 (Duration.fromSecs 3600)) (revalidatedPage storing) = some σ ∧
      σ.observed.store.responseAt ⟨(germanRequest []).cacheKey, 0, []⟩ = some arc ∧
      σ.source arc.ptr = some taggedPage ∧ etags taggedPage.map = [tagA] ∧
      etags arc.val.headers = [tagB] ∧ Strong tagB ∧
      ¬ Runs.Along step Keeps (start 1 (Duration.fromSecs 3600)) (revalidatedPage storing) := by
  let dates : HttpDate := ⟨fun _ => none⟩
  refine ⟨dates, _, _, _, rfl, rfl, rfl, rfl, by decide, by decide +kernel, by decide,
    fun along => ?_⟩
  have last := ((along.2 _ rfl).2 _ rfl).1 _ rfl
  rcases last.1 ⟨(germanRequest []).cacheKey, 0, []⟩ _ rfl with ⟨head, hhead, own⟩
  obtain rfl : taggedPage = head := Option.some.inj hhead
  rcases own tagB (by decide +kernel) (by decide) with same | without
  · exact absurd same (by decide)
  · exact absurd without (by decide)

end Sourced

end Shadowstep
