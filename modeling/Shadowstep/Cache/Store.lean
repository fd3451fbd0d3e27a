import Shadowstep.Cache.Policy
import Mathlib.Data.Finset.Erase
import Mathlib.Data.Finset.Insert
import Mathlib.Logic.Function.Basic

/-!
# The store

`Store` of `cache.rs`, one function of the source at a time. The two moka
caches are plain maps here: what moka may do on its own, dropping a record,
is a step of the runs that need it, never part of an operation.

`Arc::ptr_eq` is observable in `freshen`, so a stored response is kept in an
`Arc` that carries the number of its allocation. The generation counter is
a `u64` whose `fetch_add` wraps.
-/

namespace Shadowstep

open Rust

/-! ## Keys -/

/-- The cache key without the `Vary` part. Only responses to GET are stored,
so the method is always GET. -/
@[ext]
structure PrimaryKey where
  scheme : Text
  host : Text
  pathAndQuery : Text
deriving DecidableEq

def PrimaryKey.new (scheme host pathAndQuery : Text) : PrimaryKey :=
  ⟨toAsciiLowercase scheme, toAsciiLowercase host, pathAndQuery⟩

/-- The `Vary` field names of the latest stored response for a URI, and the
generation that the stored variants' keys carry. -/
structure Index where
  vary : List HeaderName
  generation : UInt64
deriving DecidableEq

structure ResponseKey where
  primary : PrimaryKey
  generation : UInt64
  /-- the request's values for the index's `Vary` field names, in order -/
  vary : List (Option Text)
deriving DecidableEq

/-- The key that concurrent requests coalesce on: the primary key and the
request's values for the `Vary` field names the store knows for it. -/
structure FlightKey where
  primary : PrimaryKey
  vary : List (Option Text)
deriving DecidableEq

/-- A `PathBuf`. -/
abbrev Path := Bytes

inductive Key where
  | asset (path : Path)
  | response (key : ResponseKey)
deriving DecidableEq

/-! ## Records -/

/-- An `Arc`: the value and the number of its allocation, which is what
`Arc::ptr_eq` compares. -/
structure Arc (α : Type) where
  ptr : Nat
  val : α

/-- A local file as read from disk. -/
structure Asset where
  content : Bytes
  etag : Text
  modified : SystemTime
  len : Nat
  ttl : Duration

/-- An origin response held by the store. -/
@[ext]
structure StoredResponse where
  status : StatusCode
  /-- end-to-end fields without `Content-Length` and `Age` -/
  headers : Fields
  body : Bytes
  storedAt : Instant
  initialAge : Duration
  /-- the freshness lifetime left when the response was stored -/
  ttl : Duration
  /-- how long the store keeps the response once it is stale -/
  grace : Duration
  stale : StaleRules

inductive Entry where
  | asset (asset : Asset)
  | response (response : Arc StoredResponse)

namespace StoredResponse

/-- `stored_at.elapsed()` at a reading of the clock. -/
def elapsed (response : StoredResponse) (now : Instant) : Duration :=
  now.durationSince response.storedAt

/-- The response's current age (RFC 9111 section 4.2.3). `none` is where the
addition of two `Duration`s panics. -/
def age (response : StoredResponse) (now : Instant) : Option Duration :=
  response.initialAge.checkedAdd (response.elapsed now)

def isFresh (response : StoredResponse) (now : Instant) : Bool :=
  response.elapsed now < response.ttl

/-- How long the response has been stale, or `none` while it is fresh. -/
def staleness (response : StoredResponse) (now : Instant) : Option Duration :=
  (response.elapsed now).checkedSub response.ttl

def staleWithin (response : StoredResponse) (window : Duration) (now : Instant) : Bool :=
  !response.stale.mustRevalidate && (response.staleness now).any (· < window)

/-- Whether the response may be served stale while a background request
revalidates it (RFC 5861 section 3). -/
def mayServeWhileRevalidating (response : StoredResponse) (now : Instant) : Bool :=
  response.staleWithin response.stale.whileRevalidate now

/-- Whether the response may be served stale in place of an origin error
(RFC 5861 section 4). -/
def mayServeOnError (response : StoredResponse) (now : Instant) : Bool :=
  response.staleWithin response.stale.ifError now

/-- Whether a stale use of the response needs a successful revalidation. -/
def mustRevalidate (response : StoredResponse) : Bool := response.stale.mustRevalidate

/-- The conditional request fields built from the stored validators (RFC 9111
section 4.3.1). -/
def validators (headers : Fields) : Fields :=
  headers.filterMap fun (name, value) =>
    if name = header.etag then some (header.ifNoneMatch, value)
    else if name = header.lastModified then some (header.ifModifiedSince, value)
    else none

theorem staleWithin_iff {response : StoredResponse} {window : Duration} {now : Instant} :
    response.staleWithin window now = true ↔ response.stale.mustRevalidate = false ∧
      ∃ stale, response.staleness now = some stale ∧ stale < window := by
  cases h : response.staleness now <;> simp [staleWithin, h]

theorem staleness_eq_some {response : StoredResponse} {now : Instant} {stale : Duration} :
    response.staleness now = some stale ↔ response.ttl ≤ response.elapsed now ∧
      stale.nanos = (response.elapsed now).nanos - response.ttl.nanos :=
  Duration.checkedSub_eq_some

theorem isFresh_iff {response : StoredResponse} {now : Instant} :
    response.isFresh now = true ↔ response.elapsed now < response.ttl := by
  simp [isFresh]

end StoredResponse

/-- A stored response that needs revalidation, and where it is stored. -/
structure StaleEntry where
  response : Arc StoredResponse
  key : ResponseKey

/-- A stored response for a request, and whether it may answer it as is. -/
inductive Lookup where
  /-- fresh, and no older than the request allows -/
  | fresh (response : Arc StoredResponse)
  /-- stale, or older than the request's max-age -/
  | stale (entry : StaleEntry)

/-- The response a lookup found. -/
def Lookup.response : Lookup → Arc StoredResponse
  | .fresh response => response
  | .stale entry => entry.response

/-- The fields of a stored response updated from a 304 (RFC 9111 section
3.2): each field in `update` replaces the stored values of that name. -/
def updatedFields (stored update : Fields) : Fields :=
  stored.filter (fun field => !update.any fun new => new.1 = field.1) ++ update

theorem updatedFields_eq_override (stored update : Fields) :
    updatedFields stored update = Multimap.override stored update := rfl

/-- The update's values of a name replace the stored ones, if it has any. -/
theorem getAll_updatedFields (stored update : Fields) (name : HeaderName) :
    HeaderMap.getAll (updatedFields stored update) name =
      if HeaderMap.containsKey update name then HeaderMap.getAll update name
      else HeaderMap.getAll stored name :=
  Multimap.values_override stored update name

/-- A chain of 304s leaves the stored fields of one 304 with the merged
update. -/
theorem updatedFields_chain (stored : Fields) (updates : List Fields) :
    updates.foldl updatedFields stored = updatedFields stored (updates.foldl updatedFields []) :=
  Multimap.foldl_override stored updates

/-- What 304s make of the stored fields: the values of every name after one,
none that changes nothing, one that comes twice, and two or more that come
in turn. -/
theorem updatedFields_compose (s u₁ u₂ : Fields) :
    (∀ name, HeaderMap.getAll (updatedFields s u₁) name =
      if name ∈ u₁.map (·.1) then HeaderMap.getAll u₁ name else HeaderMap.getAll s name) ∧
    updatedFields s [] = s ∧
    updatedFields (updatedFields s u₁) u₁ = updatedFields s u₁ ∧
    updatedFields (updatedFields s u₁) u₂ = updatedFields s (updatedFields u₁ u₂) ∧
    ∀ updates : List Fields,
      updates.foldl updatedFields s = updatedFields s (updates.foldl updatedFields []) := by
  refine ⟨fun name => ?_, ?_, ?_, ?_, updatedFields_chain s⟩
  · -- a name of the update is a key of it
    have named : name ∈ u₁.map (·.1) ↔ HeaderMap.containsKey u₁ name = true := by
      simp [HeaderMap.containsKey_iff]
    rw [getAll_updatedFields]
    exact if_congr named.symm rfl rfl
  · rw [updatedFields_eq_override, Multimap.override_nil]
  · simp only [updatedFields_eq_override, Multimap.override_self]
  · simp only [updatedFields_eq_override, Multimap.override_assoc]

/-- The only background revalidation of a stored response. -/
structure RefreshGuard where
  key : ResponseKey

/-- The lifetime the entries cache gives a record. -/
def entryTtl : Entry → Duration
  | .asset asset => asset.ttl
  | .response response => response.val.ttl.saturatingAdd response.val.grace

/-! ## Operations -/

def mib : Nat := 1024 * 1024

/-- The largest body the store keeps. -/
def maxEntryBytes : Nat := 8 * mib

/-- Origin responses and local assets, bounded by bytes and by time. -/
structure Store where
  entries : Key → Option Entry
  index : PrimaryKey → Option Index
  generation : UInt64
  refreshing : Finset ResponseKey
  ttl : Duration
  maxEntry : Nat
  /-- how many responses have been allocated for `entries` -/
  arcs : Nat

namespace Store

/-- A store of at most `sizeMb` MiB whose entries live for at most `ttl`. -/
def new (sizeMb : UInt64) (ttl : Duration) : Store where
  entries := fun _ => none
  index := fun _ => none
  generation := 0
  refreshing := ∅
  ttl := ttl
  maxEntry := min (min (sizeMb.toNat * mib) (2 ^ 64 - 1)) maxEntryBytes
  arcs := 0

def enabled (store : Store) : Bool := 0 < store.maxEntry && !store.ttl.isZero

/-! ### Single accesses -/

/-- `self.generation.fetch_add(1)`: the number taken, and the counter after
it. -/
def takeGeneration (store : Store) : UInt64 × Store :=
  (store.generation, { store with generation := store.generation + 1 })

/-- `self.index.insert`. -/
def insertIndex (store : Store) (primary : PrimaryKey) (index : Index) : Store :=
  { store with index := Function.update store.index primary (some index) }

/-- `self.index.invalidate`, which is also what an eviction does. -/
def removeIndex (store : Store) (primary : PrimaryKey) : Store :=
  { store with index := Function.update store.index primary none }

/-- `self.entries.insert` of an asset. -/
def insertAssetEntry (store : Store) (path : Path) (asset : Asset) : Store :=
  { store with entries := Function.update store.entries (.asset path) (some (.asset asset)) }

/-- `Arc::new` and `self.entries.insert` of a response. -/
def insertEntry (store : Store) (key : ResponseKey) (response : StoredResponse) :
    Arc StoredResponse × Store :=
  let arc := ⟨store.arcs, response⟩
  (arc, { store with
    entries := Function.update store.entries (.response key) (some (.response arc))
    arcs := store.arcs + 1 })

/-- `self.entries.invalidate`, which is also what an eviction does. -/
def removeEntry (store : Store) (key : Key) : Store :=
  { store with entries := Function.update store.entries key none }

/-- `self.entries.get`, as a response. -/
def responseAt (store : Store) (key : ResponseKey) : Option (Arc StoredResponse) :=
  match store.entries (.response key) with
  | some (.response response) => some response
  | _ => none

theorem responseAt_insertEntry (store : Store) (key other : ResponseKey)
    (response : StoredResponse) :
    (store.insertEntry key response).2.responseAt other =
      if other = key then some ⟨store.arcs, response⟩ else store.responseAt other := by
  by_cases h : other = key
  · subst h
    simp [responseAt, insertEntry]
  · simp [responseAt, insertEntry, h]

theorem responseAt_removeEntry (store : Store) (key : Key) (other : ResponseKey) :
    (store.removeEntry key).responseAt other =
      if key = .response other then none else store.responseAt other := by
  by_cases h : key = .response other
  · subst h
    simp [responseAt, removeEntry]
  · simp [responseAt, removeEntry, Function.update_of_ne (Ne.symm h), h]

theorem responseAt_insertAssetEntry (store : Store) (path : Path) (asset : Asset)
    (other : ResponseKey) :
    (store.insertAssetEntry path asset).responseAt other = store.responseAt other := by
  simp [responseAt, insertAssetEntry]

/-! ### Functions of the source -/

def asset (store : Store) (path : Path) : Option Asset :=
  match store.entries (.asset path) with
  | some (.asset asset) => some asset
  | _ => none

def insertAsset (store : Store) (path : Path) (content : Bytes) (etag : Text)
    (modified : SystemTime) : Asset × Store :=
  let asset : Asset := ⟨content, etag, modified, content.length, store.ttl⟩
  if store.enabled && asset.len ≤ store.maxEntry then
    (asset, store.insertAssetEntry path asset)
  else (asset, store)

/-- Where the store keeps the response for a request. -/
def keyFor (primary : PrimaryKey) (index : Index) (request : HeaderMap) : ResponseKey :=
  ⟨primary, index.generation, varyValues index.vary request⟩

/-- The stored response that a lookup for a request reaches, and its key. -/
def find (store : Store) (primary : PrimaryKey) (request : HeaderMap) : Option StaleEntry := do
  let index ← store.index primary
  let key := keyFor primary index request
  let response ← store.responseAt key
  return ⟨response, key⟩

/-- Whether a found response answers a request as it is. A panic in `age`
answers nothing. -/
def mayAnswer (response : StoredResponse) (maxAge : Option Duration) (now : Instant) : Bool :=
  response.isFresh now && maxAge.all fun maxAge => (response.age now).any (· ≤ maxAge)

/-- What a lookup returns for the entry it reached. -/
def judge (entry : StaleEntry) (maxAge : Option Duration) (now : Instant) : Lookup :=
  if mayAnswer entry.response.val maxAge now then .fresh entry.response else .stale entry

theorem judge_response (entry : StaleEntry) (maxAge : Option Duration) (now : Instant) :
    (judge entry maxAge now).response = entry.response := by
  unfold judge
  split <;> rfl

/-- The stored response for `primary` that matches the request's `Vary`
fields (RFC 9111 section 4.1). It is fresh when its freshness lifetime has
not run out and it is no older than `maxAge`. -/
def lookup (store : Store) (primary : PrimaryKey) (request : HeaderMap)
    (maxAge : Option Duration) (now : Instant) : Option Lookup :=
  (store.find primary request).map fun entry => judge entry maxAge now

/-- The coalescing key for a request, or `none` when the store keeps
nothing. -/
def flightKey (store : Store) (primary : PrimaryKey) (request : HeaderMap) : Option FlightKey :=
  if !store.enabled then none
  else some ⟨primary, (store.index primary).elim [] fun index => varyValues index.vary request⟩

/-- Claims the background revalidation of `entry`, or `none` when one is
already running. -/
def startRefresh (store : Store) (entry : StaleEntry) : Option RefreshGuard × Store :=
  if entry.key ∈ store.refreshing then (none, store)
  else (some ⟨entry.key⟩, { store with refreshing := insert entry.key store.refreshing })

/-- `RefreshGuard::drop`. -/
def endRefresh (store : Store) (guard : RefreshGuard) : Store :=
  { store with refreshing := store.refreshing.erase guard.key }

def response (store : Store) (policy : Storable) (status : StatusCode) (headers : Fields)
    (body : Bytes) (now : Clock) : StoredResponse where
  status := status
  headers := headers
  body := body
  storedAt := now.instant
  initialAge := policy.initialAge
  ttl := min policy.ttl store.ttl
  grace := policy.stale.grace (!(StoredResponse.validators headers).isEmpty) store.ttl
  stale := policy.stale

/-- The generation a response with these `Vary` names is stored under: the
index record's when it has the same names, and else a new one, which
replaces every stored variant. -/
def generationFor (store : Store) (primary : PrimaryKey) (names : List HeaderName) :
    UInt64 × Store :=
  match store.index primary with
  | some index => if index.vary = names then (index.generation, store) else store.takeGeneration
  | none => store.takeGeneration

/-- Stores `body` under `primary` and the request's values for the response's
`Vary` field names, and returns the stored response. -/
def insertResponse (store : Store) (primary : PrimaryKey) (vary : Vary) (policy : Storable)
    (status : StatusCode) (headers : Fields) (body : Bytes) (now : Clock) :
    Option (Arc StoredResponse) × Store :=
  if !store.enabled || store.maxEntry < body.length then (none, store)
  else
    let (generation, store) := store.generationFor primary vary.names
    let store := store.insertIndex primary ⟨vary.names, generation⟩
    let response := store.response policy status headers body now
    let (arc, store) := store.insertEntry ⟨primary, generation, vary.values⟩ response
    (some arc, store)

/-- Makes every stored response for `primary` unreachable (RFC 9111 section
4.4). -/
def invalidate (store : Store) (primary : PrimaryKey) : Store := store.removeIndex primary

/-- The header map a 304's update is judged by. -/
def freshenMap (stored : StoredResponse) (update : Fields) (age : Option HeaderValue) :
    HeaderMap :=
  let headers := updatedFields stored.headers update
  match age with
  | some age => HeaderMap.insert headers header.age age
  | none => headers

/-- Whether the entries map still holds the response of `entry` where the
lookup found it. -/
def current (store : Store) (entry : StaleEntry) : Bool :=
  (store.responseAt entry.key).any fun response => response.ptr = entry.response.ptr

/-- `entry` updated from a 304 (RFC 9111 section 4.3.4). `update` holds the
304's fields that are stored, and `age` its `Age`. The updated response
replaces the entry when it may still be stored, and the entry is removed
when it may not. The caller only reads the result. -/
def freshen [HttpDate] (store : Store) (entry : StaleEntry) (requestPolicy : RequestPolicy)
    (request : HeaderMap) (update : Fields) (age : Option HeaderValue) (now : Clock) :
    StoredResponse × Store :=
  let stored := entry.response.val
  let headers := updatedFields stored.headers update
  let storable := storable requestPolicy request stored.status (freshenMap stored update age) now
  let current := store.current entry
  let unstored (policy : Storable) (store : Store) :=
    (store.response policy stored.status headers stored.body now, store)
  match storable with
  | some (policy, vary) =>
    if current then
      match store.insertResponse entry.key.primary vary policy stored.status headers stored.body
          now with
      | (some fresh, store) => (fresh.val, store)
      | (none, store) => unstored policy store
    else unstored policy store
  | none =>
    if current then unstored Storable.default (store.removeEntry (.response entry.key))
    else unstored Storable.default store

end Store

end Shadowstep
