import Shadowstep.Cache.Sequence
import Shadowstep.Coalesce.Flights
import Shadowstep.Proxy.Response
import Shadowstep.Proxy.Upstream

/-!
# Forwarding

The functions of `proxy.rs`, each as the code between two points at which
other requests may run; it reads the clock once. What a function does to
what the requests share is returned as a list of effects, in the order of
the code; a guard's drop is one of them, where its owner goes out of scope.

* `Outcome` — what one step of one request comes to.
-/

namespace Shadowstep

open Rust

abbrev Flight := FlightGuard FlightKey

/-- Who acts on the store. -/
inductive Actor where
  | request (id : Nat)
  | task (id : Nat)
deriving DecidableEq

/-- What `storable` was asked when a response was stored or freshened. -/
structure Judgement where
  request : HttpRequest
  status : StatusCode
  fields : HeaderMap
  clock : Clock

/-- What a step does to what requests share, besides the store's contents. -/
inductive Effect where
  | sent (actor : Actor) (request : UpstreamRequest)
  | led (id : Nat) (flight : Flight)
  | dropped (id : Nat) (flight : Flight)
  | invalidated (actor : Actor) (primary : PrimaryKey)
  /-- `insert_response` or `freshen`; `stored` is the number of the response
  it has stored, if any -/
  | wrote (actor : Actor) (judged : Judgement) (stored : Option Nat)

/-! ## Storing -/

/-- How to store a cacheable response once its whole body has arrived: what
the callback of `Storing` has captured. -/
structure Storing where
  /-- the largest body to store -/
  limit : Nat
  primary : PrimaryKey
  vary : Vary
  policy : Storable
  judged : Judgement
  /-- the flight that `holding` keeps until the response is stored -/
  flight : Option Flight

def Storing.holding (storing : Storing) (flight : Option Flight) : Storing :=
  { storing with flight := flight }

/-- A flight that goes out of scope. -/
def released (id : Nat) : Option Flight → List Effect
  | some flight => [.dropped id flight]
  | none => []

/-- The callback of a `Storing`. -/
def Storing.finish (storing : Storing) (actor : Actor) (store : Store) (status : StatusCode)
    (headers : Fields) (body : Bytes) (now : Clock) : Store × List Effect :=
  let (stored, store) :=
    store.insertResponse storing.primary storing.vary storing.policy status headers body now
  (store, [.wrote actor storing.judged (stored.map Arc.ptr)])

section

variable [HttpDate]

/-- How to store the origin's response, if at all. A successful unsafe
request also removes the stored responses for its URI (RFC 9111 section
4.4). -/
def storePlan (actor : Actor) (store : Store) (req : HttpRequest) (head : Head) (now : Clock) :
    Option Storing × Store × List Effect :=
  let (store, effects) :=
    if !req.method.isSafe && (head.status.isSuccess || head.status.isRedirection) then
      (store.invalidate req.cacheKey, [.invalidated actor req.cacheKey])
    else (store, [])
  let storing := (storable (.new req.method req.headers) req.headers head.status head.map now).map
    fun (policy, vary) =>
      ⟨store.maxEntry, req.cacheKey, vary, policy, ⟨req, head.status, head.map, now⟩, none⟩
  (storing, store, effects)

/-- `Store::freshen` with the fields of a 304. -/
def freshenFrom (actor : Actor) (store : Store) (entry : StaleEntry) (req : HttpRequest)
    (head : Head) (now : Clock) : StoredResponse × Store × List Effect :=
  let update := storedFields (forwardableFields head)
  let age := head.map.get header.age
  let (fresh, after) := store.freshen entry (.new req.method req.headers) req.headers update age now
  let judged := ⟨req, entry.response.val.status,
    Store.freshenMap entry.response.val update age, now⟩
  (fresh, after,
    [.wrote actor judged (if after.arcs = store.arcs then none else some store.arcs)])

end

/-! ## Streaming -/

/-- A body on its way into the cache. -/
structure BodyCopy where
  buffer : Bytes
  storing : Storing
  status : StatusCode
  headers : Fields

/-- The copying of a body stream. -/
structure Tee where
  length : Option Nat
  copy : Option BodyCopy

/-- What the inner stream of a `Tee` yields. -/
inductive Item where
  | chunk (bytes : Bytes)
  | failed
  | ended

namespace Tee

/-- The copy is given up. -/
def discard (id : Nat) (tee : Tee) : List Effect × Tee :=
  ((tee.copy.elim [] fun copy => released id copy.storing.flight), { tee with copy := none })

/-- Passes a whole body on to the callback. The callback drops the flight
after it has stored the response. -/
def finish (id : Nat) (store : Store) (tee : Tee) (now : Clock) : Store × List Effect × Tee :=
  match tee.copy with
  | none => (store, [], tee)
  | some copy =>
    let released := released id copy.storing.flight
    if tee.length.all (· = copy.buffer.length) then
      let (store, effects) := copy.storing.finish (.request id) store copy.status copy.headers
        copy.buffer now
      (store, effects ++ released, { tee with copy := none })
    else (store, released, { tee with copy := none })

/-- `Tee::new`. -/
def new (id : Nat) (store : Store) (length : Option Nat) (copy : Option BodyCopy) (now : Clock) :
    Store × List Effect × Tee :=
  let tee : Tee := ⟨length, copy⟩
  -- actix never polls a sized body of length 0
  if length = some 0 then tee.finish id store now else (store, [], tee)

/-- `Tee::poll_next`, when the inner stream yields `item`. -/
def poll (id : Nat) (store : Store) (tee : Tee) (item : Item) (now : Clock) :
    Store × List Effect × Tee :=
  match item with
  | .chunk chunk =>
    match tee.copy with
    | none => (store, [], tee)
    | some copy =>
      if copy.buffer.length + chunk.length > copy.storing.limit then
        (store, tee.discard id)
      else
        let buffer := copy.buffer ++ chunk
        let tee : Tee := { tee with copy := some { copy with buffer := buffer } }
        -- actix stops polling a sized body at its length
        if tee.length = some buffer.length then tee.finish id store now else (store, [], tee)
  | .failed => (store, tee.discard id)
  | .ended => tee.finish id store now

end Tee

/-- Turns the origin's response into the client's, with the body's copy when
it is to be stored and no longer than the limit. -/
def clientResponse (id : Nat) (store : Store) (head : Head) (storing : Option Storing)
    (now : Clock) : HttpResponse × Store × List Effect × Tee :=
  let length := contentLength head
  let copy := (storing.filter fun storing => length.all (· ≤ storing.limit)).map fun storing =>
    ⟨[], storing, head.status, storedFields (forwardableFields head)⟩
  -- a response that is too long drops its callback here
  let refused := if copy.isNone then storing.elim [] fun s => released id s.flight else []
  let (store, effects, tee) := Tee.new id store length copy now
  (clientHead head, store, refused ++ effects, tee)

/-! ## Background revalidation -/

/-- Where a background revalidation stands. -/
inductive TaskStage where
  /-- the origin request is on its way -/
  | awaits
  /-- the body of a storable response arrives -/
  | collects (storing : Storing) (head : Head)
  | ended

/-- A background revalidation. -/
structure Task where
  req : HttpRequest
  entry : StaleEntry
  guard : RefreshGuard
  stage : TaskStage

/-- `builder` with the conditional fields from the stored validators. -/
def withValidators (request : UpstreamRequest) (stored : StoredResponse) : UpstreamRequest :=
  { request with headers := request.headers ++ StoredResponse.validators stored.headers }

def withoutPreconditions (request : UpstreamRequest) : UpstreamRequest :=
  { request with
    headers := request.headers.filter fun (name, _) => !preconditionHeaders.contains name }

/-- Revalidates `entry` in a task, unless another task is already revalidating
it. -/
def refreshInBackground [UriSyntax] (base : OriginUrl) (store : Store) (req : HttpRequest)
    (entry : StaleEntry) : Store × Option (Task × UpstreamRequest) :=
  match store.startRefresh entry with
  | (none, store) => (store, none)
  | (some guard, claimed) =>
    let request := (req.upstream base).map fun request =>
      withValidators (withoutPreconditions request) entry.response.val
    match request.filter UriSyntax.builds with
    | none => (claimed.endRefresh guard, none)
    | some request => (claimed, some (⟨req, entry, guard, .awaits⟩, request))

/-! ## Before the origin -/

/-- Why a request is answered as it is. -/
inductive Cause where
  | fresh (response : Arc StoredResponse) (use : FreshUse)
  | whileRevalidating (response : Arc StoredResponse)
  | onError (response : Arc StoredResponse) (status : Option StatusCode)
  | revalidated (response : StoredResponse)
  | forwarded
  | failed

/-- An answer: `response` is `none` when the process panics in making it. -/
structure Answer where
  cause : Cause
  response : Option HttpResponse

/-- What the cache can do for a request before it goes to the origin. -/
inductive Cached where
  | answer (answer : Answer)
  | stale (entry : StaleEntry)
  | nothing
  /-- `lookup` panics -/
  | panics

/-- What a request takes to the origin. -/
structure ToOrigin where
  stale : Option StaleEntry
  flight : Option Flight

/-- Whether the `max-age` test of `lookup` panics. -/
def lookupPanics (store : Store) (req : HttpRequest) (maxAge : Option Duration) (now : Instant) :
    Bool :=
  (store.find req.cacheKey req.headers).any fun entry =>
    entry.response.val.isFresh now && maxAge.isSome && (entry.response.val.age now).isNone

/-- The stale response and a background revalidation when the response's
stale-while-revalidate window allows it (RFC 5861 section 3), or else the
entry to revalidate before use. -/
def whileRevalidating [UriSyntax] (base : OriginUrl) (store : Store) (req : HttpRequest)
    (entry : StaleEntry) (now : Instant) : Cached × Store × Option (Task × UpstreamRequest) :=
  if !(RequestPolicy.new req.method req.headers).mayServeStale ||
      !entry.response.val.mayServeWhileRevalidating now then (.stale entry, store, none)
  else
    match cachedResponse entry.response.val .stale now with
    | some response =>
      (.answer ⟨.whileRevalidating entry.response, some response⟩,
        refreshInBackground base store req entry)
    -- the panic comes before the task
    | none => (.answer ⟨.whileRevalidating entry.response, none⟩, store, none)

/-- The stored response for this request, if any, and whether it answers the
request. -/
def fromCache [UriSyntax] (base : OriginUrl) (store : Store) (req : HttpRequest)
    (freshUse : FreshUse) (now : Instant) : Cached × Store × Option (Task × UpstreamRequest) :=
  let policy := RequestPolicy.new req.method req.headers
  if !policy.mayServe then (.nothing, store, none)
  else if lookupPanics store req policy.maxAge now then (.panics, store, none)
  else
    match store.lookup req.cacheKey req.headers policy.maxAge now with
    | some (.fresh stored) =>
      (.answer ⟨.fresh stored freshUse, cachedResponse stored.val freshUse.cacheStatus now⟩,
        store, none)
    | some (.stale entry) =>
      if req.method = .get then whileRevalidating base store req entry now
      else (.nothing, store, none)
    | none => (.nothing, store, none)

/-- What the cache can do for a request, and the background task that this
starts. -/
inductive FromCache (store : Store) (req : HttpRequest) (use : FreshUse) (now : Instant) :
    Cached → Option (Task × UpstreamRequest) → Prop
  | fresh {entry} (mayServe : (RequestPolicy.new req.method req.headers).mayServe = true)
      (found : store.find req.cacheKey req.headers = some entry)
      (mayAnswer : Store.mayAnswer entry.response.val
        (RequestPolicy.new req.method req.headers).maxAge now = true) :
    FromCache store req use now
      (.answer ⟨.fresh entry.response use,
        cachedResponse entry.response.val use.cacheStatus now⟩) none
  | whileRevalidating {entry spawned}
      (mayServe : (RequestPolicy.new req.method req.headers).mayServe = true)
      (isGet : req.method = .get)
      (mayServeStale : (RequestPolicy.new req.method req.headers).mayServeStale = true)
      (found : store.find req.cacheKey req.headers = some entry)
      (within : entry.response.val.mayServeWhileRevalidating now = true)
      (task : ∀ task request, spawned = some (task, request) →
        task.req = req ∧ task.entry = entry ∧ task.stage = .awaits) :
    FromCache store req use now
      (.answer ⟨.whileRevalidating entry.response,
        cachedResponse entry.response.val .stale now⟩) spawned
  | stale {entry} (mayServe : (RequestPolicy.new req.method req.headers).mayServe = true)
      (isGet : req.method = .get) (found : store.find req.cacheKey req.headers = some entry) :
    FromCache store req use now (.stale entry) none
  | nothing : FromCache store req use now .nothing none
  | panics {entry} (found : store.find req.cacheKey req.headers = some entry)
      (fresh : entry.response.val.isFresh now = true)
      (overflow : entry.response.val.age now = none) :
    FromCache store req use now .panics none

theorem refreshInBackground_spec [UriSyntax] (base : OriginUrl) (store : Store)
    (req : HttpRequest) (entry : StaleEntry) :
    (∃ refreshing, (refreshInBackground base store req entry).1 =
        { store with refreshing := refreshing }) ∧
      ∀ task request, (refreshInBackground base store req entry).2 = some (task, request) →
        task.req = req ∧ task.entry = entry ∧ task.stage = .awaits := by
  unfold refreshInBackground Store.startRefresh
  by_cases running : entry.key ∈ store.refreshing
  · simp only [running, if_true]
    exact ⟨⟨store.refreshing, rfl⟩, fun _ _ h => by cases h⟩
  · simp only [running, if_false]
    split
    case h_1 => exact ⟨⟨_, rfl⟩, fun _ _ h => by cases h⟩
    case h_2 request _ =>
      refine ⟨⟨_, rfl⟩, ?_⟩
      rintro task request' h
      obtain ⟨rfl, -⟩ := Prod.mk.inj (Option.some.inj h)
      exact ⟨rfl, rfl, rfl⟩

/-- A lookup of a request changes nothing in the store but the claimed
revalidations. -/
theorem fromCache_spec [UriSyntax] (base : OriginUrl) (store : Store) (req : HttpRequest)
    (use : FreshUse) (now : Instant) :
    (∃ refreshing, (fromCache base store req use now).2.1 =
        { store with refreshing := refreshing }) ∧
      FromCache store req use now (fromCache base store req use now).1
        (fromCache base store req use now).2.2 := by
  have unchanged : ∃ refreshing, store = { store with refreshing := refreshing } :=
    ⟨store.refreshing, rfl⟩
  unfold fromCache
  simp only
  split
  case isTrue => exact ⟨unchanged, .nothing⟩
  case isFalse serves =>
    have mayServe : (RequestPolicy.new req.method req.headers).mayServe = true := by
      simpa using serves
    split
    case isTrue panics =>
      refine ⟨unchanged, ?_⟩
      obtain ⟨entry, found, panics⟩ := (Option.any_eq_true _ _).mp panics
      simp only [Bool.and_eq_true, Option.isNone_iff_eq_none] at panics
      exact .panics found panics.1.1 panics.2
    case isFalse =>
      rw [Store.lookup]
      cases found : store.find req.cacheKey req.headers with
      | none => exact ⟨unchanged, .nothing⟩
      | some entry =>
          rw [Option.map_some, Store.judge]
          by_cases mayAnswer : Store.mayAnswer entry.response.val
              (RequestPolicy.new req.method req.headers).maxAge now = true
          · rw [if_pos mayAnswer]
            exact ⟨unchanged, .fresh mayServe found mayAnswer⟩
          · rw [if_neg mayAnswer]
            by_cases isGet : req.method = .get
            · simp only [isGet, if_true, whileRevalidating]
              split
              case isTrue => exact ⟨unchanged, .stale mayServe isGet found⟩
              case isFalse serve =>
                simp only [Bool.or_eq_true, Bool.not_eq_true', not_or, Bool.not_eq_false] at serve
                have answers (spawned : Option (Task × UpstreamRequest)) :=
                  @FromCache.whileRevalidating store req use now entry spawned mayServe isGet
                    (isGet ▸ serve.1) found serve.2
                split
                case h_1 response made =>
                  obtain ⟨same, task⟩ := refreshInBackground_spec base store req entry
                  exact ⟨same, made ▸ answers _ task⟩
                case h_2 made =>
                  exact ⟨unchanged, made ▸ answers none fun _ _ h => by cases h⟩
            · simp only [isGet, if_false]
              exact ⟨unchanged, .nothing⟩

/-- A lookup of this request finds the entry, and hands it out. -/
structure Found (store : Store) (req : HttpRequest) (entry : StaleEntry) : Prop where
  mayServe : (RequestPolicy.new req.method req.headers).mayServe = true
  isGet : req.method = .get
  found : store.find req.cacheKey req.headers = some entry

theorem FromCache.found {store : Store} {req : HttpRequest} {use : FreshUse} {now : Instant}
    {cached : Cached} {spawned : Option (Task × UpstreamRequest)}
    (h : FromCache store req use now cached spawned) :
    (∀ entry, cached = .stale entry → Found store req entry) ∧
      ∀ task request, spawned = some (task, request) →
        Found store req task.entry ∧ task.stage = .awaits := by
  cases h with
  | whileRevalidating mayServe isGet mayServeStale found within task =>
      refine ⟨fun _ hcached => (by cases hcached), fun _ _ hspawned => ?_⟩
      obtain ⟨-, entry, stage⟩ := task _ _ hspawned
      exact ⟨⟨mayServe, isGet, entry ▸ found⟩, stage⟩
  | stale mayServe isGet found =>
      refine ⟨fun _ hcached => ?_, fun _ _ hspawned => (by cases hspawned)⟩
      cases hcached
      exact ⟨mayServe, isGet, found⟩
  | _ => exact ⟨fun _ hcached => (by cases hcached), fun _ _ hspawned => (by cases hspawned)⟩

/-! ## At the origin -/

/-- One request on its way to the origin, and the stored response it may
revalidate. -/
structure Exchange where
  stale : Option StaleEntry
  /-- whether the origin request carries the stale response's validators -/
  revalidating : Bool
  /-- the flight this request leads -/
  flight : Option Flight

/-- Statuses for which stale-if-error serves a stale response in place of the
origin's (RFC 5861 section 4). -/
def errorStatuses : List StatusCode :=
  [.internalServerError, .badGateway, .serviceUnavailable, .gatewayTimeout]

/-- Where a request stands. -/
inductive Stage where
  /-- its own lookup -/
  | first
  /-- it joins a flight, and may have found a stale entry -/
  | joins (stale : Option StaleEntry)
  | follows (channel : Nat)
  /-- the lookup of a leader, or of a follower after its wait -/
  | again (flight : Option Flight) (use : FreshUse)
  /-- its origin request is being built, and its body is about to be read -/
  | prepares (toOrigin : ToOrigin)
  | exchanges (exchange : Exchange)
  /-- the client reads the body -/
  | streams (tee : Tee)
  | done

/-- The stale entry that a request holds. -/
def Stage.stale : Stage → Option StaleEntry
  | .joins stale => stale
  | .prepares toOrigin => toOrigin.stale
  | .exchanges exchange => exchange.stale
  | _ => none

/-- What a step of one request comes to. -/
structure Outcome where
  store : Store
  effects : List Effect
  stage : Stage
  answer : Option Answer
  /-- a background task, and its request to the origin -/
  spawned : Option (Task × UpstreamRequest)
  panics : Bool

/-- A step without an answer. -/
def goesOn (store : Store) (effects : List Effect) (stage : Stage) : Outcome :=
  ⟨store, effects, stage, none, none, false⟩

/-- An answer to the request, whose flight drops with it. -/
def reply (id : Nat) (store : Store) (effects : List Effect) (flight : Option Flight)
    (answer : Answer) : Outcome :=
  ⟨store, effects ++ released id flight, .done, some answer, none, answer.response.isNone⟩

/-- The cache's answer, or the origin request with `flight`. `next` is where
the request goes on when the cache has no answer. -/
def Cached.or (id : Nat) (flight : Option Flight) (next : Option StaleEntry → Stage) :
    Cached × Store × Option (Task × UpstreamRequest) → Outcome
  | (.answer given, store, spawned) => { reply id store [] flight given with spawned := spawned }
  | (.stale entry, store, spawned) =>
    { goesOn store [] (next (some entry)) with spawned := spawned }
  | (.nothing, store, spawned) => { goesOn store [] (next none) with spawned := spawned }
  | (.panics, store, spawned) =>
    { goesOn store [] (next none) with spawned := spawned, panics := true }

theorem or_found {store after : Store} {req : HttpRequest} {use : FreshUse} {now : Instant}
    {cached : Cached} {spawned : Option (Task × UpstreamRequest)}
    (h : FromCache store req use now cached spawned) (id : Nat) (flight : Option Flight)
    (next : Option StaleEntry → Stage) (next_stale : ∀ stale, (next stale).stale = stale) :
    (∀ entry, (Cached.or id flight next (cached, after, spawned)).stage.stale = some entry →
        Found store req entry) ∧
      ∀ task request,
        (Cached.or id flight next (cached, after, spawned)).spawned = some (task, request) →
          Found store req task.entry ∧ task.stage = .awaits := by
  obtain ⟨stale, task⟩ := h.found
  cases cached with
  | answer => exact ⟨fun _ hstale => (by cases hstale), task⟩
  | stale entry =>
      refine ⟨fun entry' hstale => ?_, task⟩
      obtain rfl := Option.some.inj ((next_stale (some entry)).symm.trans hstale)
      exact stale entry rfl
  | nothing => exact ⟨fun _ hstale => (by cases (next_stale none).symm.trans hstale), task⟩
  | panics => exact ⟨fun _ hstale => (by cases (next_stale none).symm.trans hstale), task⟩

/-- The request's part in the flight for its key. -/
def joinFlight (store : Store) (flights : Flights FlightKey) (req : HttpRequest) :
    Join FlightKey × Flights FlightKey :=
  let policy := RequestPolicy.new req.method req.headers
  if !policy.mayCoalesce then (.alone, flights)
  else
    match store.flightKey req.cacheKey req.headers with
    | some key => flights.join key policy.mayLead
    | none => (.alone, flights)

/-- How reading the client's body begins. -/
inductive BodyStart where
  | ready
  /-- the first chunk is an error -/
  | failed
  /-- hyper refuses to build the request -/
  | refused

/-- The origin request from the client's, with the validators of a stale entry
unless the client has preconditions of its own. -/
def prepare [UriSyntax] (base : OriginUrl) (id : Nat) (store : Store) (req : HttpRequest)
    (toOrigin : ToOrigin) (body : BodyStart) : Outcome :=
  match req.upstream base with
  | none => reply id store [] toOrigin.flight ⟨.failed, some (errorResponse .internalServerError)⟩
  | some request =>
    let conditional := (RequestPolicy.new req.method req.headers).conditional
    let revalidating := toOrigin.stale.filter fun _ => !conditional
    let request := revalidating.elim request fun entry => withValidators request entry.response.val
    match body with
    | .ready => goesOn store [.sent (.request id) request]
        (.exchanges ⟨toOrigin.stale, revalidating.isSome, toOrigin.flight⟩)
    | .failed => reply id store [] toOrigin.flight ⟨.failed, some (errorResponse .badRequest)⟩
    | .refused =>
      reply id store [] toOrigin.flight ⟨.failed, some (errorResponse .internalServerError)⟩

/-- Either the request fails, or it is sent to the origin. -/
theorem prepare_cases [UriSyntax] (base : OriginUrl) (id : Nat) (store : Store)
    (req : HttpRequest) (toOrigin : ToOrigin) (body : BodyStart) :
    (∃ status, prepare base id store req toOrigin body =
        reply id store [] toOrigin.flight ⟨.failed, some (errorResponse status)⟩) ∨
      ∃ request revalidating, prepare base id store req toOrigin body =
        goesOn store [.sent (.request id) request]
          (.exchanges ⟨toOrigin.stale, revalidating, toOrigin.flight⟩) ∧
        (revalidating = true →
          (RequestPolicy.new req.method req.headers).conditional = false) := by
  unfold prepare
  cases req.upstream base with
  | none => exact .inl ⟨_, rfl⟩
  | some request =>
      cases body with
      | ready =>
          refine .inr ⟨_, _, rfl, fun revalidating => ?_⟩
          obtain ⟨entry, kept⟩ := Option.isSome_iff_exists.mp revalidating
          simpa using (Option.filter_eq_some_iff.mp kept).2
      | failed => exact .inl ⟨_, rfl⟩
      | refused => exact .inl ⟨_, rfl⟩

namespace Exchange

def mayServeOnError (req : HttpRequest) (stale : StaleEntry) (now : Instant) : Bool :=
  (RequestPolicy.new req.method req.headers).mayServeStale &&
    stale.response.val.mayServeOnError now

/-- The stale response in place of an error, of the origin's with its
`status` or of the exchange's. -/
def serveStale (id : Nat) (store : Store) (exchange : Exchange) (stale : StaleEntry)
    (status : Option StatusCode) (now : Instant) : Outcome :=
  reply id store [] exchange.flight
    ⟨.onError stale.response status, cachedResponse stale.response.val .stale now⟩

/-- The client's response when the origin could not be reached or sent no
response headers in time. -/
def failed (id : Nat) (store : Store) (req : HttpRequest) (exchange : Exchange)
    (status : StatusCode) (now : Instant) : Outcome :=
  match exchange.stale with
  | some stale =>
    if mayServeOnError req stale now then exchange.serveStale id store stale none now
    else
      let status := if stale.response.val.mustRevalidate then .gatewayTimeout else status
      reply id store [] exchange.flight ⟨.failed, some (errorResponse status)⟩
  | none => reply id store [] exchange.flight ⟨.failed, some (errorResponse status)⟩

variable [HttpDate]

/-- The stored body with the fields of the origin's 304, which also freshens
the stored response. -/
def revalidated (id : Nat) (store : Store) (req : HttpRequest) (exchange : Exchange)
    (stale : StaleEntry) (head : Head) (now : Clock) : Outcome :=
  let (fresh, store, effects) := freshenFrom (.request id) store stale req head now
  reply id store effects exchange.flight
    ⟨.revalidated fresh, cachedResponse fresh .revalidated now.instant⟩

/-- The origin's response, streamed to the client and perhaps to the store. -/
def forwarded (id : Nat) (store : Store) (req : HttpRequest) (exchange : Exchange) (head : Head)
    (now : Clock) : Outcome :=
  let (storing, store, planned) := storePlan (.request id) store req head now
  -- without a plan the flight goes with the closure that should have held it
  let unheld := if storing.isNone then released id exchange.flight else []
  let (response, store, effects, tee) :=
    clientResponse id store head (storing.map fun s => s.holding exchange.flight) now
  ⟨store, planned ++ unheld ++ effects, .streams tee, some ⟨.forwarded, some response⟩, none,
    false⟩

/-- The client's response once the origin has answered. -/
def answered (id : Nat) (store : Store) (req : HttpRequest) (exchange : Exchange) (head : Head)
    (now : Clock) : Outcome :=
  match exchange.stale with
  | some stale =>
    if exchange.revalidating && head.status = .notModified then
      exchange.revalidated id store req stale head now
    else if errorStatuses.contains head.status && mayServeOnError req stale now.instant then
      exchange.serveStale id store stale (some head.status) now.instant
    else exchange.forwarded id store req head now
  | none => exchange.forwarded id store req head now

/-- Three things that an answer of the origin can come to. -/
inductive Answered (id : Nat) (store : Store) (req : HttpRequest) (exchange : Exchange)
    (head : Head) (now : Clock) : Outcome → Prop
  | revalidated {stale} (found : exchange.stale = some stale)
      (revalidating : exchange.revalidating = true) (bare : head.status = .notModified) :
    Answered id store req exchange head now (exchange.revalidated id store req stale head now)
  | stale {stale} (found : exchange.stale = some stale)
      (error : head.status ∈ errorStatuses)
      (mayServe : mayServeOnError req stale now.instant = true) :
    Answered id store req exchange head now
      (exchange.serveStale id store stale (some head.status) now.instant)
  | forwarded : Answered id store req exchange head now (exchange.forwarded id store req head now)

theorem answered_cases (id : Nat) (store : Store) (req : HttpRequest) (exchange : Exchange)
    (head : Head) (now : Clock) :
    Answered id store req exchange head now (exchange.answered id store req head now) := by
  unfold answered
  split
  case h_1 stale found =>
    split
    case isTrue notModified =>
      simp only [Bool.and_eq_true, decide_eq_true_eq] at notModified
      exact .revalidated found notModified.1 notModified.2
    case isFalse =>
      split
      case isTrue error =>
        simp only [Bool.and_eq_true, List.contains_iff_mem] at error
        exact .stale found error.1 error.2
      case isFalse => exact .forwarded
  case h_2 => exact .forwarded

omit [HttpDate] in
/-- Without an answer of the origin the request gets a stale response or an
error. -/
theorem failed_cases (id : Nat) (store : Store) (req : HttpRequest) (exchange : Exchange)
    (status : StatusCode) (now : Instant) :
    (∃ stale, exchange.stale = some stale ∧ mayServeOnError req stale now = true ∧
        exchange.failed id store req status now = exchange.serveStale id store stale none now) ∨
      ∃ status', exchange.failed id store req status now =
        reply id store [] exchange.flight ⟨.failed, some (errorResponse status')⟩ := by
  unfold failed
  split
  case h_1 stale found =>
    split
    case isTrue mayServe => exact .inl ⟨stale, found, mayServe, rfl⟩
    case isFalse => exact .inr ⟨_, rfl⟩
  case h_2 => exact .inr ⟨_, rfl⟩

end Exchange

/-! ## A background task at the origin -/

section

variable [HttpDate]

/-- Updates the entry from the origin's answer to a background revalidation:
a 304 freshens it, and a storable response replaces it. -/
def Task.refresh (id : Nat) (store : Store) (task : Task) (head : Head) (now : Clock) :
    Store × List Effect × TaskStage :=
  if head.status = .notModified then
    let (_, store, effects) := freshenFrom (.task id) store task.entry task.req head now
    (store, effects, .ended)
  else
    match storePlan (.task id) store task.req head now with
    | (some storing, store, effects) => (store, effects, .collects storing head)
    | (none, store, effects) => (store, effects, .ended)

end

/-- The whole body of the task's response, or `none` when it failed. -/
def Task.collected (id : Nat) (store : Store) (storing : Storing) (head : Head)
    (body : Option Bytes) (now : Clock) : Store × List Effect :=
  match body with
  | some body =>
    if body.length ≤ storing.limit then
      storing.finish (.task id) store head.status (storedFields (forwardableFields head)) body now
    else (store, [])
  | none => (store, [])

end Shadowstep
