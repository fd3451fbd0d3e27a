import Shadowstep.Cache.Store
import Shadowstep.Lib.Generations
import Shadowstep.Lib.Runs

/-!
# Calls on the store, one after another

The store's two maps form a `Generations.Table`: `index` holds the `Vary`
names and the generation of each primary key, and `entries` the responses
by generation and `Vary` values. Every call, and every record that moka may
drop by itself, is one operation on that table (`Moves`), and `Observed` is
the machine that makes any sequence of them.

* `insertResponse_spec`, `freshen_moves` — what the two writers do;
* `Observed.step_moves` — what a step of the machine does;
* `Numbered` — the invariant behind the generation numbers, which holds as
  long as the counter has not wrapped.
-/

namespace Shadowstep

open Rust Generations

/-- The `Vary` values that tell the variants of one primary key apart. -/
abbrev VaryValues := List (Option Text)

abbrev ResponseTable :=
  Table PrimaryKey (List HeaderName) VaryValues (Arc StoredResponse) UInt64

/-- What the store is for: the `Vary` names of each primary key, and a
response for each list of `Vary` values. -/
abbrev ResponseMap := TwoLevel PrimaryKey (List HeaderName) VaryValues (Arc StoredResponse)

abbrev TableOp := Table.Op PrimaryKey (List HeaderName) VaryValues (Arc StoredResponse) UInt64

namespace Store

/-! ## The store as a table -/

def table (store : Store) : ResponseTable where
  index primary := (store.index primary).map fun index => (index.vary, index.generation)
  entries primary generation vary := store.responseAt ⟨primary, generation, vary⟩

theorem find_table (store : Store) (primary : PrimaryKey) (request : HeaderMap) :
    (store.find primary request).map StaleEntry.response =
      store.table.find primary fun names => varyValues names request := by
  cases h : store.index primary with
  | none => simp [find, Table.find, table, h]
  | some index =>
      cases hresponse : store.responseAt (keyFor primary index request) <;>
        simp_all [find, Table.find, table, keyFor]

theorem lookup_response (store : Store) (primary : PrimaryKey) (request : HeaderMap)
    (maxAge : Option Duration) (now : Instant) :
    (store.lookup primary request maxAge now).map Lookup.response =
      (store.find primary request).map StaleEntry.response := by
  rw [lookup, Option.map_map]
  congr 1
  funext entry
  exact judge_response entry maxAge now

/-- What a lookup reaches, and under which key. -/
theorem find_eq_some {store : Store} {primary : PrimaryKey} {request : HeaderMap}
    {entry : StaleEntry} :
    store.find primary request = some entry ↔ ∃ index, store.index primary = some index ∧
      entry.key = keyFor primary index request ∧
      store.responseAt entry.key = some entry.response := by
  simp only [find, Option.bind_eq_bind, Option.bind_eq_some_iff, Option.pure_def,
    Option.some.injEq]
  constructor
  · rintro ⟨index, hindex, response, hresponse, rfl⟩
    exact ⟨index, hindex, rfl, hresponse⟩
  · rintro ⟨index, hindex, hkey, hresponse⟩
    exact ⟨index, hindex, entry.response, hkey ▸ hresponse, by rw [← hkey]⟩

theorem index_of_table {store : Store} {primary : PrimaryKey} {names : List HeaderName}
    {generation : UInt64} :
    store.table.index primary = some (names, generation) ↔
      store.index primary = some ⟨names, generation⟩ := by
  cases h : store.index primary with
  | none => simp [table, h]
  | some index => cases index; simp [table, h]

/-- What a request reaches depends on the index record of its primary key,
and on the one entry that its `Vary` values name. -/
theorem find_congr {left right : Store} {primary : PrimaryKey} {request : HeaderMap}
    (index : left.table.index primary = right.table.index primary)
    (entries : ∀ record, right.table.index primary = some record →
      left.table.entries primary record.2 (varyValues record.1 request) =
        right.table.entries primary record.2 (varyValues record.1 request)) :
    left.find primary request = right.find primary request := by
  have hindex : left.index primary = right.index primary := by
    cases hright : right.index primary with
    | none => simpa [table, hright] using index
    | some record => rw [← index_of_table, index, index_of_table, hright]
  unfold find
  rw [hindex]
  cases hright : right.index primary with
  | none => rfl
  | some record =>
      have hresponse : left.responseAt (keyFor primary record request) =
          right.responseAt (keyFor primary record request) :=
        entries (record.vary, record.generation) (index_of_table.mpr hright)
      simp only [Option.bind_eq_bind, Option.bind_some, hresponse]

theorem lookup_congr {left right : Store} {primary : PrimaryKey} {request : HeaderMap}
    (index : left.table.index primary = right.table.index primary)
    (entries : ∀ record, right.table.index primary = some record →
      left.table.entries primary record.2 (varyValues record.1 request) =
        right.table.entries primary record.2 (varyValues record.1 request))
    (maxAge : Option Duration) (now : Instant) :
    left.lookup primary request maxAge now = right.lookup primary request maxAge now := by
  rw [lookup, find_congr index entries, lookup]

theorem table_removeIndex (store : Store) (primary : PrimaryKey) :
    (store.removeIndex primary).table = store.table.drop primary := by
  simp only [table, removeIndex, Table.drop, responseAt, Table.mk.injEq, and_true]
  funext other
  by_cases h : other = primary
  · subst h
    simp
  · simp [Function.update_of_ne h]

theorem table_removeEntry (store : Store) (key : ResponseKey) :
    (store.removeEntry (.response key)).table =
      store.table.evict key.primary key.generation key.vary := by
  obtain ⟨primary, generation, vary⟩ := key
  simp only [table, Table.evict, Table.setEntry, Table.mk.injEq, responseAt_removeEntry]
  refine ⟨rfl, ?_⟩
  funext p g v
  simp [eq_comm]

theorem table_removeEntry_asset (store : Store) (path : Path) :
    (store.removeEntry (.asset path)).table = store.table := by
  simp only [table, responseAt_removeEntry]
  simp [removeEntry]

theorem table_insertEntry (store : Store) (key : ResponseKey) (response : StoredResponse) :
    (store.insertEntry key response).2.table =
      store.table.setEntry key.primary key.generation key.vary (some ⟨store.arcs, response⟩) := by
  obtain ⟨primary, generation, vary⟩ := key
  simp only [table, Table.setEntry, Table.mk.injEq, responseAt_insertEntry]
  refine ⟨rfl, ?_⟩
  funext p g v
  simp

theorem table_insertAssetEntry (store : Store) (path : Path) (asset : Asset) :
    (store.insertAssetEntry path asset).table = store.table := by
  simp only [table, responseAt_insertAssetEntry]
  rfl

/-! ## What one call does -/

/-- Whether the store keeps a response with this body. -/
def admits (store : Store) (body : Bytes) : Bool :=
  store.enabled && body.length ≤ store.maxEntry

/-- How many responses an operation allocates. -/
def allocations : TableOp → Nat
  | .put .. => 1
  | _ => 0

/-- A call did one operation on the table, and nothing else that a lookup or
a later call could tell. -/
structure Moves (store store' : Store) (op : TableOp) : Prop where
  table : store'.table = op.apply store.table store.generation
  generation : store'.generation =
    if op.takes store.table then store.generation + 1 else store.generation
  arcs : store'.arcs = store.arcs + allocations op
  ttl : store'.ttl = store.ttl
  maxEntry : store'.maxEntry = store.maxEntry
  allocated : ∀ p tag v r, op = .put p tag v r →
    r.ptr = store.arcs ∧ store.admits r.val.body = true

theorem Moves.skip (store : Store) : Moves store store .skip :=
  ⟨rfl, rfl, rfl, rfl, rfl, fun _ _ _ _ h => by cases h⟩

theorem Moves.admits {store store' : Store} {op : TableOp} (moves : Moves store store' op)
    (body : Bytes) : store'.admits body = store.admits body := by
  simp only [Store.admits, enabled, moves.ttl, moves.maxEntry]

/-- What a call has put is there. -/
theorem Moves.put_responseAt {store store' : Store} {primary : PrimaryKey}
    {tag : List HeaderName} {v : VaryValues} {arc : Arc StoredResponse}
    (moves : Moves store store' (.put primary tag v arc)) :
    ∃ generation, store'.responseAt ⟨primary, generation, v⟩ = some arc := by
  refine ⟨store.table.generationFor primary tag store.generation, ?_⟩
  show store'.table.entries primary _ v = some arc
  rw [moves.table]
  simp [Table.Op.apply, Table.put, Table.setEntry]

/-- What a call puts under the names of the index record replaces its own
variant only. -/
theorem Moves.find_of_put {store store' : Store} {primary : PrimaryKey} {tag : List HeaderName}
    {v : VaryValues} {arc : Arc StoredResponse}
    (moves : Moves store store' (.put primary tag v arc)) {index : Index}
    (live : store.index primary = some index) (names : index.vary = tag) {request : HeaderMap}
    (other : varyValues tag request ≠ v) :
    store'.find primary request = store.find primary request := by
  subst names
  have record := index_of_table.mpr live
  have table : store'.table = store.table.setEntry primary index.generation v (some arc) := by
    rw [moves.table]
    exact Table.put_of_tag record v arc _
  refine find_congr (by rw [table]; rfl) fun found hfound => ?_
  obtain rfl := Option.some.inj (record.symm.trans hfound)
  rw [table]
  simp [Table.setEntry, other]

/-- An entry after a call was there before, or is what the call has put. -/
theorem Moves.responseAt {store store' : Store} {op : TableOp} (moves : Moves store store' op)
    {key : ResponseKey} {arc : Arc StoredResponse} (h : store'.responseAt key = some arc) :
    store.responseAt key = some arc ∨ ∃ p tag v, op = .put p tag v arc := by
  have entry : (op.apply store.table store.generation).entries key.primary key.generation
      key.vary = some arc := by
    rw [← moves.table]
    exact h
  obtain old | ⟨tag, put, -⟩ := Table.Op.entries_apply entry
  · exact .inl old
  · exact .inr ⟨_, tag, _, put⟩

theorem insertAsset_moves (store : Store) (path : Path) (content : Bytes) (etag : Text)
    (modified : SystemTime) :
    Moves store (store.insertAsset path content etag modified).2 .skip := by
  simp only [insertAsset]
  split
  · exact ⟨table_insertAssetEntry .., rfl, rfl, rfl, rfl, fun _ _ _ _ h => by cases h⟩
  · exact Moves.skip store

theorem takes_table (store : Store) (primary : PrimaryKey) (names : List HeaderName) :
    store.table.takes primary names =
      (store.index primary).all fun index => index.vary ≠ names := by
  cases h : store.index primary <;> simp [Table.takes, table, h]

/-- Which generation number a response gets, and what the counter is after. -/
theorem generationFor_spec (store : Store) (primary : PrimaryKey) (names : List HeaderName) :
    store.generationFor primary names =
      (store.table.generationFor primary names store.generation,
        { store with generation :=
            if store.table.takes primary names then store.generation + 1
            else store.generation }) := by
  rw [takes_table]
  unfold generationFor Table.generationFor
  cases h : store.index primary with
  | none => simp [table, h, takeGeneration]
  | some index =>
      by_cases same : index.vary = names
      · simp [table, h, same]
      · simp [table, h, same, takeGeneration]

theorem refuses_eq (store : Store) (body : Bytes) :
    (!store.enabled || decide (store.maxEntry < body.length)) = !store.admits body := by
  simp only [admits, Bool.not_and, ← decide_not, not_le]

/-- A response is stored as one `put`, under a new allocation. -/
theorem insertResponse_of_admits {store : Store} {body : Bytes}
    (admitted : store.admits body = true) (primary : PrimaryKey) (vary : Vary)
    (policy : Storable) (status : StatusCode) (headers : Fields) (now : Clock) :
    let response := store.response policy status headers body now
    ∃ store', store.insertResponse primary vary policy status headers body now =
        (some ⟨store.arcs, response⟩, store') ∧
      Moves store store' (.put primary vary.names vary.values ⟨store.arcs, response⟩) := by
  simp only [insertResponse, refuses_eq, admitted, Bool.not_true, Bool.false_eq_true, if_false, generationFor_spec]
  refine ⟨_, rfl, ?_⟩
  exact
    { table := by
        rw [table_insertEntry]
        simp only [table, Table.Op.apply, Table.put, Table.setEntry, insertIndex]
        congr 1
        funext other
        by_cases h : other = primary
        · subst h
          simp
        · simp [Function.update_of_ne h]
      generation := rfl
      arcs := rfl
      ttl := rfl
      maxEntry := rfl
      allocated := by
        rintro _ _ _ _ ⟨⟩
        exact ⟨rfl, admitted⟩ }

theorem insertResponse_of_not_admits {store : Store} {body : Bytes}
    (refused : store.admits body = false) (primary : PrimaryKey) (vary : Vary)
    (policy : Storable) (status : StatusCode) (headers : Fields) (now : Clock) :
    store.insertResponse primary vary policy status headers body now = (none, store) := by
  simp only [insertResponse, refuses_eq, refused, Bool.not_false, if_true]

/-- What `insertResponse` does to the table. -/
def insertOp (store : Store) (primary : PrimaryKey) (vary : Vary) (policy : Storable)
    (status : StatusCode) (headers : Fields) (body : Bytes) (now : Clock) : TableOp :=
  if store.admits body then
    .put primary vary.names vary.values
      ⟨store.arcs, store.response policy status headers body now⟩
  else .skip

theorem insertResponse_moves (store : Store) (primary : PrimaryKey) (vary : Vary)
    (policy : Storable) (status : StatusCode) (headers : Fields) (body : Bytes) (now : Clock) :
    Moves store (store.insertResponse primary vary policy status headers body now).2
      (store.insertOp primary vary policy status headers body now) := by
  unfold insertOp
  split
  case isTrue admitted =>
    obtain ⟨store', stored, moves⟩ :=
      insertResponse_of_admits admitted primary vary policy status headers now
    rw [stored]
    exact moves
  case isFalse refused =>
    rw [insertResponse_of_not_admits (by simpa using refused)]
    exact Moves.skip store

theorem insertOp_primary {store : Store} {primary p : PrimaryKey} {vary : Vary}
    {policy : Storable} {status : StatusCode} {headers : Fields} {body : Bytes} {now : Clock}
    (h : (store.insertOp primary vary policy status headers body now).primary = some p) :
    primary = p := by
  unfold insertOp at h
  split at h
  · exact Option.some.inj h
  · cases h

theorem insertOp_eq_put {store : Store} {primary p : PrimaryKey} {vary : Vary}
    {policy : Storable} {status : StatusCode} {headers : Fields} {body : Bytes} {now : Clock}
    {tag : List HeaderName} {v : VaryValues} {arc : Arc StoredResponse}
    (h : store.insertOp primary vary policy status headers body now = .put p tag v arc) :
    store.admits body = true ∧ arc.val = store.response policy status headers body now := by
  unfold insertOp at h
  split at h
  case isTrue admits =>
    obtain ⟨-, -, -, rfl⟩ := Table.Op.put.inj h
    exact ⟨admits, rfl⟩
  case isFalse => cases h

theorem removeEntry_moves (store : Store) (key : ResponseKey) :
    Moves store (store.removeEntry (.response key))
      (.evict key.primary key.generation key.vary) :=
  ⟨table_removeEntry store key, rfl, rfl, rfl, rfl, fun _ _ _ _ h => by cases h⟩

theorem removeIndex_moves (store : Store) (primary : PrimaryKey) :
    Moves store (store.removeIndex primary) (.drop primary) :=
  ⟨table_removeIndex store primary, rfl, rfl, rfl, rfl, fun _ _ _ _ h => by cases h⟩

section

variable [HttpDate]

/-- What `freshen` does to the table. -/
def freshenOp (store : Store) (entry : StaleEntry) (requestPolicy : RequestPolicy)
    (request : HeaderMap) (update : Fields) (age : Option HeaderValue) (now : Clock) : TableOp :=
  let stored := entry.response.val
  if store.current entry then
    match storable requestPolicy request stored.status (freshenMap stored update age) now with
    | some (policy, vary) =>
      store.insertOp entry.key.primary vary policy stored.status
        (updatedFields stored.headers update) stored.body now
    | none => .evict entry.key.primary entry.key.generation entry.key.vary
  else .skip

theorem freshen_moves (store : Store) (entry : StaleEntry) (requestPolicy : RequestPolicy)
    (request : HeaderMap) (update : Fields) (age : Option HeaderValue) (now : Clock) :
    Moves store (store.freshen entry requestPolicy request update age now).2
      (store.freshenOp entry requestPolicy request update age now) := by
  cases hstorable : storable requestPolicy request entry.response.val.status
      (freshenMap entry.response.val update age) now with
  | none =>
      by_cases current : store.current entry = true
      · simp only [freshen, freshenOp, hstorable, current, if_true]
        exact removeEntry_moves store entry.key
      · simp only [freshen, freshenOp, hstorable, current]
        exact Moves.skip store
  | some accepted =>
      by_cases current : store.current entry = true
      · simp only [freshen, freshenOp, hstorable, current, if_true]
        have inserted := insertResponse_moves store entry.key.primary accepted.2 accepted.1
          entry.response.val.status (updatedFields entry.response.val.headers update)
          entry.response.val.body now
        generalize store.insertResponse entry.key.primary accepted.2 accepted.1
          entry.response.val.status (updatedFields entry.response.val.headers update)
          entry.response.val.body now = result at inserted ⊢
        obtain ⟨_ | fresh, store'⟩ := result <;> exact inserted
      · simp only [freshen, freshenOp, hstorable, current]
        exact Moves.skip store

/-- What `freshen` puts in the store, if anything. -/
theorem freshenOp_eq_put {store : Store} {entry : StaleEntry}
    {requestPolicy : RequestPolicy} {request : HeaderMap} {update : Fields}
    {age : Option HeaderValue} {now : Clock} {p : PrimaryKey} {tag : List HeaderName}
    {v : VaryValues} {arc : Arc StoredResponse}
    (h : store.freshenOp entry requestPolicy request update age now = .put p tag v arc) :
    ∃ policy vary, storable requestPolicy request entry.response.val.status
        (freshenMap entry.response.val update age) now = some (policy, vary) ∧
      store.admits entry.response.val.body = true ∧
      arc.val = store.response policy entry.response.val.status
        (updatedFields entry.response.val.headers update) entry.response.val.body now := by
  unfold freshenOp at h
  simp only at h
  split at h
  case isTrue =>
    split at h
    case h_1 policy vary accepted =>
      obtain ⟨admits, stored⟩ := insertOp_eq_put h
      exact ⟨policy, vary, accepted, admits, stored⟩
    case h_2 => cases h
  case isFalse => cases h

/-- The response that `freshen` returns, whether it is stored or not. -/
theorem freshen_returns (store : Store) (entry : StaleEntry) (requestPolicy : RequestPolicy)
    (request : HeaderMap) (update : Fields) (age : Option HeaderValue) (now : Clock) :
    (store.freshen entry requestPolicy request update age now).1 =
      store.response (((storable requestPolicy request entry.response.val.status
          (freshenMap entry.response.val update age) now).map Prod.fst).getD Storable.default)
        entry.response.val.status (updatedFields entry.response.val.headers update)
        entry.response.val.body now := by
  cases hstorable : storable requestPolicy request entry.response.val.status
      (freshenMap entry.response.val update age) now with
  | none =>
      cases current : store.current entry <;> simp only [freshen, hstorable, current] <;> rfl
  | some accepted =>
      cases current : store.current entry with
      | false =>
          simp only [freshen, hstorable, current]
          rfl
      | true =>
          cases admits : store.admits entry.response.val.body with
          | false =>
              simp only [freshen, hstorable, current, insertResponse_of_not_admits admits]
              rfl
          | true =>
              rcases insertResponse_of_admits admits entry.key.primary accepted.2 accepted.1
                entry.response.val.status (updatedFields entry.response.val.headers update) now
                with ⟨store', stored, -⟩
              simp only [freshen, hstorable, current, stored]
              rfl

/-- An entry after `freshen` was there before, or is what it returned. -/
theorem freshen_responseAt {store : Store} {entry : StaleEntry} {requestPolicy : RequestPolicy}
    {request : HeaderMap} {update : Fields} {age : Option HeaderValue} {now : Clock}
    {key : ResponseKey} {arc : Arc StoredResponse}
    (h : (store.freshen entry requestPolicy request update age now).2.responseAt key = some arc) :
    store.responseAt key = some arc ∨
      arc.val = (store.freshen entry requestPolicy request update age now).1 := by
  rcases (store.freshen_moves entry requestPolicy request update age now).responseAt h with
    old | ⟨p, tag, v, put⟩
  · exact .inl old
  · rcases freshenOp_eq_put put with ⟨policy, vary, accepted, -, stored⟩
    refine .inr ?_
    rw [freshen_returns, accepted, stored]
    rfl

end

end Store

/-! ## Generation numbers -/

/-- The first generation numbers that the counter gives out. -/
def numbers (taken : Nat) : Set UInt64 := {generation | ∃ i < taken, generation = UInt64.ofNat i}

theorem numbers_mono {taken later : Nat} (h : taken ≤ later) : numbers taken ⊆ numbers later := by
  rintro _ ⟨i, hi, rfl⟩
  exact ⟨i, hi.trans_le h, rfl⟩

/-- Until it wraps, the counter gives out new numbers. -/
theorem not_mem_numbers {taken : Nat} (h : taken < 2 ^ 64) : UInt64.ofNat taken ∉ numbers taken := by
  rintro ⟨i, hi, same⟩
  have := congrArg UInt64.toNat same
  rw [UInt64.toNat_ofNat_of_lt' h, UInt64.toNat_ofNat_of_lt' (hi.trans h)] at this
  omega

/-! ## Concrete arguments for runs -/

def examplePrimary : PrimaryKey := ⟨"http".toList, "a".toList, "/".toList⟩

/-- A minute of freshness. -/
def examplePolicy : Storable := ⟨Duration.fromSecs 60, Duration.zero, StaleRules.default⟩

def exampleClock : Clock := ⟨Instant.zero, ⟨0, by decide, by decide⟩⟩

/-- The response of `examplePolicy` is stale by then. -/
def afterMinute : Instant := ⟨61 * nanosPerSec, by decide⟩

/-- The clocks at that moment. -/
def nextMinute : Clock := ⟨afterMinute, ⟨61 * nanosPerSec, by decide, by decide⟩⟩

/-- `max-age=60`. -/
def maxAgeMinute : HeaderValue := ⟨ascii "max-age=60", by decide⟩

def tagA : HeaderValue := ⟨ascii "\"a\"", by decide⟩

/-! ## Sequences of calls -/

/-- One call on the store, or one record that moka drops by itself. -/
inductive Event where
  | insertAsset (path : Path) (content : Bytes) (etag : Text) (modified : SystemTime)
  | insertResponse (primary : PrimaryKey) (vary : Vary) (policy : Storable)
      (status : StatusCode) (headers : Fields) (body : Bytes) (now : Clock)
  | invalidate (primary : PrimaryKey)
  | lookup (primary : PrimaryKey) (request : HeaderMap) (maxAge : Option Duration)
      (now : Instant)
  /-- `found` counts the stale entries that lookups have returned; the call
  is for one of them and for the request that found it -/
  | freshen (found : Nat) (requestPolicy : RequestPolicy) (update : Fields)
      (age : Option HeaderValue) (now : Clock)
  | evictIndex (primary : PrimaryKey)
  | evictEntry (key : Key)

/-- The store and what has been observed of it so far. -/
structure Observed where
  store : Store
  /-- the stale entries that lookups have returned, and for which requests -/
  found : List (StaleEntry × HeaderMap)
  /-- how many generation numbers have been taken -/
  taken : Nat
  /-- the two-level map that the calls so far describe -/
  model : ResponseMap

namespace Observed

/-- A new store. -/
def start (sizeMb : UInt64) (ttl : Duration) : Observed :=
  ⟨Store.new sizeMb ttl, [], 0, fun _ => none⟩

/-- The stale entry that a lookup returns, if it returns one. -/
def staleOf (request : HeaderMap) : Option Lookup → List (StaleEntry × HeaderMap)
  | some (.stale entry) => [(entry, request)]
  | _ => []

section

variable [HttpDate]

/-- The store after an event. `none` is a `freshen` of an entry that no
lookup has returned. -/
def after (σ : Observed) : Event → Option Store
  | .insertAsset path content etag modified =>
    some (σ.store.insertAsset path content etag modified).2
  | .insertResponse primary vary policy status headers body now =>
    some (σ.store.insertResponse primary vary policy status headers body now).2
  | .invalidate primary => some (σ.store.invalidate primary)
  | .lookup .. => some σ.store
  | .freshen found requestPolicy update age now =>
    σ.found[found]?.map fun (entry, request) =>
      (σ.store.freshen entry requestPolicy request update age now).2
  | .evictIndex primary => some (σ.store.removeIndex primary)
  | .evictEntry key => some (σ.store.removeEntry key)

/-- What an event does to the table. -/
def op (σ : Observed) : Event → TableOp
  | .insertResponse primary vary policy status headers body now =>
    σ.store.insertOp primary vary policy status headers body now
  | .invalidate primary | .evictIndex primary => .drop primary
  | .freshen found requestPolicy update age now =>
    match σ.found[found]? with
    | some (entry, request) => σ.store.freshenOp entry requestPolicy request update age now
    | none => .skip
  | .evictEntry (.response key) => .evict key.primary key.generation key.vary
  | .evictEntry (.asset _) | .insertAsset .. | .lookup .. => .skip

/-- The stale entries that an event returns. -/
def returned (σ : Observed) : Event → List (StaleEntry × HeaderMap)
  | .lookup primary request maxAge now =>
    staleOf request (σ.store.lookup primary request maxAge now)
  | _ => []

def step (σ : Observed) (event : Event) : Option Observed :=
  (σ.after event).map fun store =>
    { store := store
      found := σ.found ++ σ.returned event
      taken := σ.taken + if (σ.op event).takes σ.store.table then 1 else 0
      model := ((σ.op event).meaning σ.store.table).apply σ.model }

/-- Every event is one operation on the table. -/
theorem after_moves {σ : Observed} {event : Event} {store : Store}
    (h : σ.after event = some store) : σ.store.Moves store (σ.op event) := by
  cases event with
  | insertAsset path content etag modified =>
      obtain rfl := Option.some.inj h
      exact Store.insertAsset_moves ..
  | insertResponse primary vary policy status headers body now =>
      obtain rfl := Option.some.inj h
      exact Store.insertResponse_moves ..
  | invalidate primary =>
      obtain rfl := Option.some.inj h
      exact Store.removeIndex_moves ..
  | lookup primary request maxAge now =>
      obtain rfl := Option.some.inj h
      exact Store.Moves.skip _
  | freshen found requestPolicy update age now =>
      obtain ⟨⟨entry, request⟩, hfound, rfl⟩ := Option.map_eq_some_iff.mp h
      simp only [op, hfound]
      exact Store.freshen_moves ..
  | evictIndex primary =>
      obtain rfl := Option.some.inj h
      exact Store.removeIndex_moves ..
  | evictEntry key =>
      obtain rfl := Option.some.inj h
      cases key with
      | asset path =>
          exact ⟨Store.table_removeEntry_asset σ.store path, rfl, rfl, rfl, rfl,
            fun _ _ _ _ h => by cases h⟩
      | response key => exact Store.removeEntry_moves ..

/-- What a step of the machine does. -/
structure Stepped (σ σ' : Observed) (event : Event) : Prop where
  moves : σ.store.Moves σ'.store (σ.op event)
  found : σ'.found = σ.found ++ σ.returned event
  taken : σ'.taken = σ.taken + if (σ.op event).takes σ.store.table then 1 else 0
  model : σ'.model = ((σ.op event).meaning σ.store.table).apply σ.model

theorem step_spec {σ σ' : Observed} {event : Event} (h : σ.step event = some σ') :
    Stepped σ σ' event := by
  obtain ⟨store, hafter, rfl⟩ := Option.map_eq_some_iff.mp h
  exact ⟨after_moves hafter, rfl, rfl, rfl⟩

end

/-! ## Numbers in use -/

/-- Every generation number in the table has been taken, and the counter
stands at the next one. -/
structure Numbered (σ : Observed) : Prop where
  counter : σ.store.generation = UInt64.ofNat σ.taken
  within : σ.store.table.Within (numbers σ.taken)

theorem numbered_start (sizeMb : UInt64) (ttl : Duration) : Numbered (start sizeMb ttl) where
  counter := rfl
  within := ⟨fun h => by simp [start, Store.new, Store.table] at h,
    fun h => by simp [start, Store.new, Store.table, Store.responseAt] at h⟩

/-- The number that a step would take next is not in use. -/
theorem Numbered.unused {σ : Observed} (numbered : Numbered σ) (h : σ.taken < 2 ^ 64) :
    σ.store.table.Unused σ.store.generation := by
  rw [numbered.counter]
  exact numbered.within.unused (not_mem_numbers h)

variable [HttpDate]

theorem Numbered.step {σ σ' : Observed} {event : Event} (numbered : Numbered σ)
    (h : σ.step event = some σ') : Numbered σ' := by
  have stepped := step_spec h
  constructor
  · rw [stepped.moves.generation, stepped.taken, numbered.counter]
    split
    · exact (UInt64.ofNat_add _ _).symm
    · rfl
  · rw [stepped.moves.table, stepped.taken]
    have wider : σ.store.table.Within
        (numbers (σ.taken + if (σ.op event).takes σ.store.table then 1 else 0)) :=
      numbered.within.mono (numbers_mono (Nat.le_add_right _ _))
    refine wider.apply _ fun takes => ?_
    rw [numbered.counter, takes]
    exact ⟨σ.taken, Nat.lt_succ_self _, rfl⟩

theorem numbered_run {σ σ' : Observed} {events : List Event} (numbered : Numbered σ)
    (h : Runs.run step σ events = some σ') : Numbered σ' :=
  Runs.invariant_run (fun _ _ _ numbered h => numbered.step h) numbered h

end Observed

end Shadowstep
