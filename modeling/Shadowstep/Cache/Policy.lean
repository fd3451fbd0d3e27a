import Shadowstep.Cache.Directives
import Mathlib.Data.Char
import Mathlib.Data.List.Lex
import Mathlib.Data.List.Sort
import Mathlib.Data.List.Destutter

/-!
# What may be served, and what may be stored

The two judgements of `cache.rs` that depend only on header fields:
`RequestPolicy::new` reads what the proxy may do with the cache for a
request, and `storable` decides whether a response may be kept, for how
long, and under which `Vary` values. `storable_spec` says everything an
accepted response satisfies; the rest of the development uses it in place
of the definition.
-/

namespace Shadowstep

open Rust

/-- `httpdate::parse_http_date`, from a crate that is not part of the
repository. -/
class HttpDate where
  parseHttpDate : Text → Option SystemTime

/-! ## Requests -/

/-- Request headers through which a client asks the origin to treat the
request as another method. -/
def methodOverrideHeaders : List HeaderName :=
  [⟨"x-http-method-override".toList, by decide⟩, ⟨"x-http-method".toList, by decide⟩,
    ⟨"x-method-override".toList, by decide⟩]

/-- The request fields that make a request conditional (RFC 9110 section
13.1). -/
def preconditionHeaders : List HeaderName :=
  [header.ifMatch, header.ifNoneMatch, header.ifModifiedSince, header.ifUnmodifiedSince,
    header.ifRange]

/-- What the proxy may do with the cache for one request. -/
structure RequestPolicy where
  /-- whether a stored response may answer the request -/
  mayServe : Bool
  /-- the oldest stored response the client accepts -/
  maxAge : Option Duration
  /-- whether the origin's response may be stored -/
  mayStore : Bool
  hasCredentials : Bool
  /-- whether the request has its own preconditions -/
  conditional : Bool

namespace RequestPolicy

def new (method : Method) (headers : HeaderMap) : RequestPolicy :=
  let directives := Directives.parse (headers.getAll header.cacheControl)
  let cacheableMethod := (method = .get || method = .head) &&
    !methodOverrideHeaders.any headers.containsKey
  let noStore := directives.malformed || directives.has "no-store"
  { mayServe := cacheableMethod && !noStore && !directives.has "no-cache"
    maxAge := directives.seconds "max-age"
    mayStore := cacheableMethod && method = .get && !noStore
    hasCredentials := headers.containsKey header.authorization || headers.containsKey header.cookie
    conditional := preconditionHeaders.any headers.containsKey }

/-- Whether the cache can neither answer the request nor store its response. -/
def bypassesCache (policy : RequestPolicy) : Bool := !policy.mayServe && !policy.mayStore

/-- Whether a stale response may answer the request. A request max-age rules
out stale ones (RFC 9111 section 5.2.1.1). -/
def mayServeStale (policy : RequestPolicy) : Bool := policy.maxAge.isNone

/-- Whether the request may wait for a concurrent request for the same key. -/
def mayCoalesce (policy : RequestPolicy) : Bool :=
  policy.mayServe && !policy.hasCredentials && !policy.conditional

/-- Whether other requests may wait for this one's response to be stored. -/
def mayLead (policy : RequestPolicy) : Bool := policy.mayCoalesce && policy.mayStore

end RequestPolicy

/-! ## Vary -/

/-- The `Vary` field names of a response and the request's values for them. -/
structure Vary where
  names : List HeaderName
  values : List (Option Text)

/-- One request's value for a field name: its lines, trimmed and joined. -/
def varyValue (request : HeaderMap) (name : HeaderName) : Option Text :=
  let values := (request.getAll name).map fun value => trim (fromUtf8Lossy value.bytes)
  if values = [] then none else some (", ".toList.intercalate values)

def varyValues (names : List HeaderName) (request : HeaderMap) : List (Option Text) :=
  names.map (varyValue request)

/-- One element of a `Vary` list: nothing for an empty one, and `none` for
`*` or an invalid name. -/
def varyElement (element : Text) : Option (List HeaderName) :=
  if element = [] then some []
  else if element = ['*'] then none
  else (HeaderName.fromText element).map fun name => [name]

/-- The field names of one `Vary` value, in its order. -/
def varyLine (value : HeaderValue) : Option (List HeaderName) := do
  let text ← value.toStr
  let names ← ((text.splitOn ',').map trim).mapM varyElement
  return names.flatten

/-- The sorted field names that `Vary` lists, or `none` for `Vary: *`, which
never matches a later request (RFC 9111 section 4.1), or an invalid name. -/
def varyNames (response : HeaderMap) : Option (List HeaderName) := do
  let names ← (response.getAll header.vary).mapM varyLine
  return (names.flatten.insertionSort fun a b => a.asStr ≤ b.asStr).destutter (· ≠ ·)

theorem varyNames_congr {left right : HeaderMap}
    (same : left.getAll header.vary = right.getAll header.vary) :
    varyNames left = varyNames right := by
  rw [varyNames, same, varyNames]

/-! ## Responses -/

/-- What a response's Cache-Control allows once it is stale. -/
structure StaleRules where
  whileRevalidate : Duration
  ifError : Duration
  mustRevalidate : Bool

namespace StaleRules

/-- The directives that forbid a stale use. `s-maxage` carries the semantics
of `proxy-revalidate` for a shared cache (RFC 9111 section 5.2.2.10). -/
def revalidateDirectives : List String := ["must-revalidate", "proxy-revalidate", "s-maxage"]

def parse (directives : Directives) : StaleRules where
  whileRevalidate := (directives.seconds "stale-while-revalidate").getD Duration.zero
  ifError := (directives.seconds "stale-if-error").getD Duration.zero
  mustRevalidate := revalidateDirectives.any directives.has

/-- `StaleRules::default()`. -/
def default : StaleRules := ⟨Duration.zero, Duration.zero, false⟩

/-- How long a stale response stays in the store: long enough for its stale
windows, and up to `cap` when it has a validator. Never more than `cap`. -/
def grace (rules : StaleRules) (hasValidator : Bool) (cap : Duration) : Duration :=
  let windows := if rules.mustRevalidate then Duration.zero
    else max rules.whileRevalidate rules.ifError
  let revalidation := if hasValidator then cap else Duration.zero
  min (max windows revalidation) cap

end StaleRules

/-- A response that the store may keep, and for how long. -/
structure Storable where
  ttl : Duration
  initialAge : Duration
  stale : StaleRules

/-- `Storable::default()`. -/
def Storable.default : Storable := ⟨Duration.zero, Duration.zero, StaleRules.default⟩

/-- Status codes that are cacheable by default (RFC 9110 section 15.1), less
206. -/
def cacheableByDefault : List Nat := [200, 203, 204, 300, 301, 308, 404, 405, 410, 414, 501]

/-- Cache-Control directives that stop a shared cache storing a response. -/
def unstorableDirectives : List String := ["no-store", "private", "no-cache"]

/-- The response's Cache-Control directives, or `none` when the response
itself rules out storing whatever the request was. -/
def storableResponseDirectives (status : StatusCode) (response : HeaderMap) : Option Directives :=
  if !cacheableByDefault.contains status.code || response.containsKey header.setCookie then none
  else
    let directives := Directives.parse (response.getAll header.cacheControl)
    let unstorable := directives.malformed || unstorableDirectives.any directives.has
    if unstorable then none else some directives

section

variable [HttpDate]

def httpDate (value : HeaderValue) : Option SystemTime := do
  HttpDate.parseHttpDate (← value.toStr)

/-- The freshness lifetime from s-maxage, max-age or Expires, in that order
(RFC 9111 section 4.2.1). `none` when the origin gave none. -/
def freshnessLifetime (directives : Directives) (response : HeaderMap) (now : Clock) :
    Option Duration :=
  match (directives.seconds "s-maxage").orElse fun _ => directives.seconds "max-age" with
  | some lifetime => some lifetime
  | none => do
    let expires ← response.get header.expires
    match httpDate expires with
    -- an invalid Expires, such as "0", means already expired
    | none => some Duration.zero
    | some expires =>
      let date := ((response.get header.date).bind httpDate).getD now.system
      some ((expires.durationSince date).getD Duration.zero)

/-- The origin's `Age`, which is 0 when it is absent or not a number. -/
def originAge (response : HeaderMap) : Duration :=
  (((response.get header.age).bind HeaderValue.toStr).bind parseU64).elim
    Duration.zero Duration.fromSecs

/-- Whether a shared cache may store the origin's response to a request (RFC
9111 section 3), and the request's `Vary` values for its key. -/
def storable (requestPolicy : RequestPolicy) (request : HeaderMap) (status : StatusCode)
    (response : HeaderMap) (now : Clock) : Option (Storable × Vary) :=
  if !requestPolicy.mayStore then none
  else do
    let directives ← storableResponseDirectives status response
    if requestPolicy.hasCredentials && !directives.has "public" then none
    else do
      let names ← varyNames response
      let initialAge := originAge response
      let lifetime ← freshnessLifetime directives response now
      let ttl ← lifetime.checkedSub initialAge
      if ttl.isZero then none
      else
        some (⟨ttl, initialAge, StaleRules.parse directives⟩, ⟨names, varyValues names request⟩)

end

/-! ## What the judgements say -/

/-- The directives of a response that a shared cache may keep. -/
structure KeepableResponse (status : StatusCode) (response : HeaderMap)
    (directives : Directives) : Prop where
  status_mem : status.code ∈ cacheableByDefault
  noSetCookie : response.containsKey header.setCookie = false
  parsed : directives = Directives.parse (response.getAll header.cacheControl)
  wellFormed : directives.malformed = false
  allowed : ∀ name ∈ unstorableDirectives, directives.has name = false

theorem storableResponseDirectives_spec {status : StatusCode} {response : HeaderMap}
    {directives : Directives}
    (h : storableResponseDirectives status response = some directives) :
    KeepableResponse status response directives := by
  unfold storableResponseDirectives at h
  split at h
  case isTrue => cases h
  case isFalse excluded =>
    simp only at h
    split at h
    case isTrue => cases h
    case isFalse keepable =>
      obtain rfl := Option.some.inj h
      simp only [Bool.or_eq_true, not_or, Bool.not_eq_true, Bool.not_eq_true',
        List.any_eq_false, Bool.not_eq_false] at excluded keepable
      exact ⟨by simpa using excluded.1, excluded.2, rfl, keepable.1,
        fun name hname => keepable.2 name hname⟩

theorem KeepableResponse.directives_eq {status : StatusCode} {response : HeaderMap}
    {directives : Directives} (keepable : KeepableResponse status response directives) :
    storableResponseDirectives status response = some directives := by
  have allowed : unstorableDirectives.any directives.has = false := by
    rw [List.any_eq_false]
    intro name hname
    rw [keepable.allowed name hname]
    exact Bool.false_ne_true
  have included : cacheableByDefault.contains status.code = true :=
    List.contains_iff_mem.mpr keepable.status_mem
  rw [storableResponseDirectives, included, keepable.noSetCookie, ← keepable.parsed]
  simp only [keepable.wellFormed, allowed]
  rfl

/-- Everything `storable` checked of a response it accepted. -/
structure Accepted [HttpDate] (requestPolicy : RequestPolicy) (request : HeaderMap)
    (status : StatusCode) (response : HeaderMap) (now : Clock) (policy : Storable) (vary : Vary)
    (directives : Directives) (lifetime : Duration) : Prop where
  mayStore : requestPolicy.mayStore = true
  keepable : KeepableResponse status response directives
  credentials : requestPolicy.hasCredentials = true → directives.has "public" = true
  names : varyNames response = some vary.names
  values : vary.values = varyValues vary.names request
  lifetime_eq : freshnessLifetime directives response now = some lifetime
  initialAge : policy.initialAge = originAge response
  age_add_ttl : policy.initialAge.nanos + policy.ttl.nanos = lifetime.nanos
  ttl_pos : 0 < policy.ttl.nanos
  stale : policy.stale = StaleRules.parse directives

theorem storable_spec [HttpDate] {requestPolicy : RequestPolicy} {request : HeaderMap}
    {status : StatusCode} {response : HeaderMap} {now : Clock} {policy : Storable} {vary : Vary}
    (h : storable requestPolicy request status response now = some (policy, vary)) :
    ∃ directives lifetime,
      Accepted requestPolicy request status response now policy vary directives lifetime := by
  unfold storable at h
  split at h
  case isTrue => cases h
  case isFalse mayStore =>
    simp only [Option.bind_eq_bind, Option.bind_eq_some_iff] at h
    obtain ⟨directives, hdirectives, h⟩ := h
    split at h
    case isTrue => cases h
    case isFalse credentials =>
      simp only [Option.bind_eq_some_iff] at h
      obtain ⟨names, hnames, lifetime, hlifetime, ttl, httl, h⟩ := h
      split at h
      case isTrue => cases h
      case isFalse positive =>
        obtain ⟨rfl, rfl⟩ := Prod.mk.inj (Option.some.inj h)
        obtain ⟨covered, rest⟩ := Duration.checkedSub_eq_some.mp httl
        refine ⟨directives, lifetime, ?_⟩
        exact
          { mayStore := by simpa using mayStore
            keepable := storableResponseDirectives_spec hdirectives
            credentials := by
              intro has
              simpa [has] using credentials
            names := hnames
            values := rfl
            lifetime_eq := hlifetime
            initialAge := rfl
            age_add_ttl := by
              simp only [rest]
              omega
            ttl_pos := Duration.isZero_eq_false.mp (by simpa using positive)
            stale := rfl }

/-- A request whose response may be stored is a plain `GET`. -/
structure PlainGet (method : Method) (headers : HeaderMap) : Prop where
  isGet : method = .get
  noOverride : ∀ name ∈ methodOverrideHeaders, headers.containsKey name = false
  wellFormed : (Directives.parse (headers.getAll header.cacheControl)).malformed = false
  noStore : (Directives.parse (headers.getAll header.cacheControl)).has "no-store" = false

theorem mayStore_spec {method : Method} {headers : HeaderMap}
    (h : (RequestPolicy.new method headers).mayStore = true) : PlainGet method headers := by
  simp only [RequestPolicy.new, Bool.and_eq_true, Bool.not_eq_true', Bool.or_eq_false_iff,
    decide_eq_true_eq, List.any_eq_false, Bool.not_eq_true] at h
  obtain ⟨⟨⟨-, override⟩, isGet⟩, malformed, noStore⟩ := h
  exact ⟨isGet, override, malformed, noStore⟩

/-- A request that a stored response may answer: a `GET` or `HEAD` that asks
for no other method and accepts a stored answer. -/
structure Servable (method : Method) (headers : HeaderMap) : Prop where
  method : method = .get ∨ method = .head
  noOverride : ∀ name ∈ methodOverrideHeaders, headers.containsKey name = false
  wellFormed : (Directives.parse (headers.getAll header.cacheControl)).malformed = false
  noStore : (Directives.parse (headers.getAll header.cacheControl)).has "no-store" = false
  noCache : (Directives.parse (headers.getAll header.cacheControl)).has "no-cache" = false

theorem mayServe_spec {method : Method} {headers : HeaderMap}
    (h : (RequestPolicy.new method headers).mayServe = true) : Servable method headers := by
  simp only [RequestPolicy.new, Bool.and_eq_true, Bool.not_eq_true', Bool.or_eq_false_iff,
    Bool.or_eq_true, decide_eq_true_eq, List.any_eq_false, Bool.not_eq_true] at h
  obtain ⟨⟨⟨isGetOrHead, override⟩, malformed, noStore⟩, noCache⟩ := h
  exact ⟨isGetOrHead, override, malformed, noStore, noCache⟩

theorem StaleRules.grace_le_cap (rules : StaleRules) (hasValidator : Bool) (cap : Duration) :
    rules.grace hasValidator cap ≤ cap :=
  min_le_right _ _

/-- A response that may be used stale names no directive that forbids it. -/
theorem StaleRules.parse_mustRevalidate_eq_false {directives : Directives}
    (h : (StaleRules.parse directives).mustRevalidate = false) :
    ∀ name ∈ revalidateDirectives, directives.has name = false := by
  simpa [StaleRules.parse, List.any_eq_false] using h

end Shadowstep
