import Shadowstep.Proxy.Events
import Shadowstep.Proxy.Kept

/-!
# What the cache may answer

Every path through `forward` that answers from the cache reads the clock and
the request's policy anew. `Allowed` says what each of them has checked, in
terms of the judgement by which the response was stored, and `Caused` what
the origin has said to this very request.

* `Moves.allowed`, `Happens.caused` — one step;
* `World.answers_are_allowed` — every answer of every run, by its
  `X-Shadowstep-Cache` value.
-/

namespace Shadowstep

open Rust

/-- A request without preconditions of its own. -/
theorem conditional_eq_false {method : Method} {headers : HeaderMap}
    (h : (RequestPolicy.new method headers).conditional = false) :
    ∀ name ∈ preconditionHeaders, headers.containsKey name = false := by
  simpa [RequestPolicy.new] using h

theorem mayServeStale_spec {method : Method} {headers : HeaderMap}
    (h : (RequestPolicy.new method headers).mayServeStale = true) :
    (Directives.parse (headers.getAll header.cacheControl)).has "max-age" = false :=
  Directives.seconds_eq_none.mp (Option.isNone_iff_eq_none.mp h)

/-- A request that a stored response may answer does not bypass the cache. -/
theorem Servable.bypassesCache {method : Method} {headers : HeaderMap}
    (servable : Servable method headers) :
    (RequestPolicy.new method headers).bypassesCache = false := by
  have override : methodOverrideHeaders.any headers.containsKey = false := by
    rw [List.any_eq_false]
    intro name member
    rw [servable.noOverride name member]
    exact Bool.false_ne_true
  have serves : (RequestPolicy.new method headers).mayServe = true := by
    simp only [RequestPolicy.new, override, servable.wellFormed, servable.noStore,
      servable.noCache]
    rcases servable.method with rfl | rfl <;> rfl
  rw [RequestPolicy.bypassesCache, serves]
  rfl

/-- An age that stays below a limit can be computed. -/
theorem StoredResponse.age_of_lt {response : StoredResponse} {now : Instant} {limit : Duration}
    (h : response.initialAge.nanos + (response.elapsed now).nanos < limit.nanos) :
    ∃ age, response.age now = some age ∧ age < limit := by
  obtain ⟨age, hage⟩ := Option.isSome_iff_exists.mp
    (Duration.checkedAdd_isSome.mpr (h.trans limit.inRange))
  refine ⟨age, hage, ?_⟩
  rw [Duration.lt_iff, ← Duration.checkedAdd_eq_some.mp hage]
  exact h

/-- The judgement by which the response was stored is in the log. -/
def Judged (log : List Effect) (arc : Arc StoredResponse) (rule : Judgement → Prop) : Prop :=
  ∃ actor judged, .wrote actor judged (some arc.ptr) ∈ log ∧ rule judged

theorem Judged.mono {log more : List Effect} {arc : Arc StoredResponse}
    {rule : Judgement → Prop} (judged : Judged log arc rule) : Judged (log ++ more) arc rule := by
  obtain ⟨actor, judgement, wrote, holds⟩ := judged
  exact ⟨actor, judgement, List.mem_append_left _ wrote, holds⟩

/-- The origin has failed a request: it has answered with this error status, or
with no response headers at all. -/
def OriginFailed (events : List World.Event) (id : Nat) (status : Option StatusCode) : Prop :=
  (∃ head now, .answered id head now ∈ events ∧ head.status ∈ errorStatuses ∧
      status = some head.status) ∨
    status = none ∧ ∃ timedOut now, .failed id timedOut now ∈ events

/-- What the origin has said to the request that is answered for a cause. -/
structure Caused (events : List World.Event) (id : Nat) (cause : Cause) : Prop where
  onError : ∀ arc status, cause = .onError arc status → OriginFailed events id status
  revalidated : ∀ response, cause = .revalidated response →
    ∃ head now, .answered id head now ∈ events ∧ head.status = .notModified

theorem Caused.mono {events more : List World.Event} {id : Nat} {cause : Cause}
    (caused : Caused events id cause) (sub : events ⊆ more) : Caused more id cause where
  onError arc status h := by
    obtain ⟨head, now, answered, error⟩ | ⟨none, timedOut, now, failed⟩ :=
      caused.onError arc status h
    · exact .inl ⟨head, now, sub answered, error⟩
    · exact .inr ⟨none, timedOut, now, sub failed⟩
  revalidated response h := by
    obtain ⟨head, now, answered, bare⟩ := caused.revalidated response h
    exact ⟨head, now, sub answered, bare⟩

/-- A cause that says nothing of the origin. -/
theorem Caused.of_other {events : List World.Event} {id : Nat} {cause : Cause}
    (onError : ∀ arc status, cause ≠ .onError arc status)
    (revalidated : ∀ response, cause ≠ .revalidated response) : Caused events id cause :=
  ⟨fun arc status h => absurd h (onError arc status),
    fun response h => absurd h (revalidated response)⟩

section

variable [HttpDate]

/-! ## The rules -/

/-- A fresh answer, from a response that is judged by `judged`. -/
structure FreshAnswer (cap : Duration) (judged : Judgement) (given : Given)
    (stored : StoredResponse) : Prop where
  servable : Servable given.req.method given.req.headers
  fresh : stored.elapsed given.now < stored.ttl
  capped : stored.elapsed given.now < cap
  lifetime : ∃ lifetime age, freshnessLifetime (Directives.parse
      (judged.fields.getAll header.cacheControl)) judged.fields judged.clock = some lifetime ∧
    stored.age given.now = some age ∧ age < lifetime
  maxAge : ∀ maxAge, (Directives.parse (given.req.headers.getAll header.cacheControl)).seconds
      "max-age" = some maxAge → ∃ age, stored.age given.now = some age ∧ age ≤ maxAge

/-- A stale answer, `window` after the response's lifetime at most. -/
structure StaleAnswer (judged : Judgement) (given : Given) (stored : StoredResponse)
    (window : StaleRules → Duration) : Prop where
  servable : Servable given.req.method given.req.headers
  isGet : given.req.method = .get
  noMaxAge : (Directives.parse (given.req.headers.getAll header.cacheControl)).has "max-age" = false
  allowed : ∀ name ∈ StaleRules.revalidateDirectives,
    (Directives.parse (judged.fields.getAll header.cacheControl)).has name = false
  within : ∃ stale, stored.staleness given.now = some stale ∧ stale < window (StaleRules.parse
    (Directives.parse (judged.fields.getAll header.cacheControl)))

/-- An answer after a 304 to the stored validators. -/
structure RevalidatedAnswer (given : Given) : Prop where
  servable : Servable given.req.method given.req.headers
  isGet : given.req.method = .get
  unconditional : ∀ name ∈ preconditionHeaders, given.req.headers.containsKey name = false

/-- What an answer needs, by its cause. -/
def Allowed (cap : Duration) (log : List Effect) (given : Given) : Prop :=
  match given.cause with
  | .fresh arc use =>
    cachedResponse arc.val use.cacheStatus given.now = some given.response ∧
      Judged log arc fun judged => FreshAnswer cap judged given arc.val
  | .whileRevalidating arc =>
    cachedResponse arc.val .stale given.now = some given.response ∧
      Judged log arc fun judged => StaleAnswer judged given arc.val StaleRules.whileRevalidate
  | .onError arc status =>
    cachedResponse arc.val .stale given.now = some given.response ∧
      (∀ code ∈ status, code ∈ errorStatuses) ∧
      Judged log arc fun judged => StaleAnswer judged given arc.val StaleRules.ifError
  | .revalidated response =>
    cachedResponse response .revalidated given.now = some given.response ∧ RevalidatedAnswer given
  | .forwarded => cacheLabel given.response = some .miss
  | .failed => cacheLabel given.response = none

theorem Allowed.mono {cap : Duration} {log : List Effect} {given : Given}
    (allowed : Allowed cap log given) (more : List Effect) : Allowed cap (log ++ more) given := by
  obtain ⟨id, req, now, cause, response⟩ := given
  cases cause with
  | fresh => exact ⟨allowed.1, allowed.2.mono⟩
  | whileRevalidating => exact ⟨allowed.1, allowed.2.mono⟩
  | onError => exact ⟨allowed.1, allowed.2.1, allowed.2.2.mono⟩
  | _ => exact allowed

/-- What may be said of an answer by its `X-Shadowstep-Cache` value. -/
structure Labelled (cap : Duration) (events : List World.Event) (log : List Effect)
    (given : Given) : Prop where
  fresh : cacheLabel given.response = some .hit ∨ cacheLabel given.response = some .coalesced →
    ∃ arc use, given.cause = .fresh arc use ∧
      cachedResponse arc.val use.cacheStatus given.now = some given.response ∧
      Judged log arc fun judged => FreshAnswer cap judged given arc.val
  stale : cacheLabel given.response = some .stale → ∃ arc,
    cachedResponse arc.val .stale given.now = some given.response ∧
      (given.cause = .whileRevalidating arc ∧
          (Judged log arc fun judged => StaleAnswer judged given arc.val
            StaleRules.whileRevalidate) ∨
        ∃ status, given.cause = .onError arc status ∧ (∀ code ∈ status, code ∈ errorStatuses) ∧
          OriginFailed events given.id status ∧
          Judged log arc fun judged => StaleAnswer judged given arc.val StaleRules.ifError)
  revalidated : cacheLabel given.response = some .revalidated → RevalidatedAnswer given ∧
    ∃ head now, .answered given.id head now ∈ events ∧ head.status = .notModified

/-- The other values say nothing. -/
theorem Labelled.of_other {cap : Duration} {events : List World.Event} {log : List Effect}
    {given : Given} (other : cacheLabel given.response ∉
      [some CacheStatus.hit, some .coalesced, some .stale, some .revalidated]) :
    Labelled cap events log given := by
  simp only [List.mem_cons, List.not_mem_nil, or_false, not_or] at other
  obtain ⟨hit, coalesced, stale, revalidated⟩ := other
  exact ⟨fun h => absurd h (not_or.mpr ⟨hit, coalesced⟩), fun h => absurd h stale,
    fun h => absurd h revalidated⟩

theorem Allowed.labelled {cap : Duration} {events : List World.Event} {log : List Effect}
    {given : Given} (allowed : Allowed cap log given)
    (caused : Caused events given.id given.cause) : Labelled cap events log given := by
  obtain ⟨id, req, now, cause, response⟩ := given
  cases cause with
  | fresh arc use =>
      obtain ⟨made, judged⟩ := allowed
      have label : cacheLabel response = some use.cacheStatus := cacheLabel_cachedResponse made
      refine ⟨fun _ => ⟨arc, use, rfl, made, judged⟩, fun h => ?_, fun h => ?_⟩ <;>
        cases use <;> cases label.symm.trans h
  | whileRevalidating arc =>
      obtain ⟨made, judged⟩ := allowed
      have label : cacheLabel response = some .stale := cacheLabel_cachedResponse made
      refine ⟨fun h => ?_, fun _ => ⟨arc, made, .inl ⟨rfl, judged⟩⟩, fun h => ?_⟩
      · obtain h | h := h <;> cases label.symm.trans h
      · cases label.symm.trans h
  | onError arc status =>
      obtain ⟨made, error, judged⟩ := allowed
      have label : cacheLabel response = some .stale := cacheLabel_cachedResponse made
      have failed := caused.onError arc status rfl
      refine ⟨fun h => ?_, fun _ => ⟨arc, made, .inr ⟨status, rfl, error, failed, judged⟩⟩,
        fun h => ?_⟩
      · obtain h | h := h <;> cases label.symm.trans h
      · cases label.symm.trans h
  | revalidated fresh =>
      obtain ⟨made, revalidated⟩ := allowed
      have label : cacheLabel response = some .revalidated := cacheLabel_cachedResponse made
      refine ⟨fun h => ?_, fun h => ?_, fun _ => ⟨revalidated, caused.revalidated fresh rfl⟩⟩
      · obtain h | h := h <;> cases label.symm.trans h
      · cases label.symm.trans h
  | forwarded =>
      refine .of_other ?_
      rw [show cacheLabel response = some .miss from allowed]
      decide
  | failed =>
      refine .of_other ?_
      rw [show cacheLabel response = none from allowed]
      decide

/-! ## One step -/

theorem Sound.fresh {cap : Duration} {maxEntry : Nat} {judged : Judgement}
    {stored : StoredResponse} (sound : Sound cap maxEntry judged stored) {id : Nat}
    {req : HttpRequest} {now : Instant} {cause : Cause} {response : HttpResponse}
    (mayServe : (RequestPolicy.new req.method req.headers).mayServe = true)
    (mayAnswer : Store.mayAnswer stored (RequestPolicy.new req.method req.headers).maxAge now =
      true) :
    FreshAnswer cap judged ⟨id, req, now, cause, response⟩ stored := by
  rw [Store.mayAnswer, Bool.and_eq_true] at mayAnswer
  obtain ⟨isFresh, young⟩ := mayAnswer
  have fresh := StoredResponse.isFresh_iff.mp isFresh
  obtain ⟨lifetime, given, within⟩ := sound.lifetime
  have below : stored.initialAge.nanos + (stored.elapsed now).nanos < lifetime.nanos := by
    rw [Duration.lt_iff] at fresh
    omega
  obtain ⟨age, hage, younger⟩ := StoredResponse.age_of_lt below
  refine
    { servable := mayServe_spec mayServe
      fresh := fresh
      capped := fresh.trans_le sound.ttl_le
      lifetime := ⟨lifetime, age, given, hage, younger⟩
      maxAge := fun maxAge asked => ⟨age, hage, ?_⟩ }
  have asked : (RequestPolicy.new req.method req.headers).maxAge = some maxAge := asked
  simpa [asked, hage] using young

theorem Sound.staleWithin {cap : Duration} {maxEntry : Nat} {judged : Judgement}
    {stored : StoredResponse} (sound : Sound cap maxEntry judged stored) {id : Nat}
    {req : HttpRequest} {now : Instant} {cause : Cause} {response : HttpResponse}
    (mayServe : (RequestPolicy.new req.method req.headers).mayServe = true)
    (isGet : req.method = .get)
    (mayServeStale : (RequestPolicy.new req.method req.headers).mayServeStale = true)
    {window : StaleRules → Duration} (within : stored.staleWithin (window stored.stale) now = true) :
    StaleAnswer judged ⟨id, req, now, cause, response⟩ stored window := by
  obtain ⟨allowed, stale, hstale, below⟩ := StoredResponse.staleWithin_iff.mp within
  rw [sound.stale] at allowed below
  exact
    { servable := mayServe_spec mayServe
      isGet := isGet
      noMaxAge := mayServeStale_spec mayServeStale
      allowed := StaleRules.parse_mustRevalidate_eq_false allowed
      within := ⟨stale, hstale, below⟩ }

theorem Backed.judged {cap : Duration} {maxEntry : Nat} {log : List Effect}
    {arc : Arc StoredResponse} (backed : Backed cap maxEntry log arc) {rule : Judgement → Prop}
    (sound : ∀ judged, Sound cap maxEntry judged arc.val → rule judged) : Judged log arc rule := by
  obtain ⟨actor, judged, wrote, h⟩ := backed
  exact ⟨actor, judged, wrote, sound judged h⟩

/-- What a request that goes on has shown: a request with a stale entry is a
`GET` that may be answered, and one that revalidates has no preconditions. -/
structure Stage.Asked (req : HttpRequest) (stage : Stage) : Prop where
  held : ∀ entry, stage.stale = some entry →
    (RequestPolicy.new req.method req.headers).mayServe = true ∧ req.method = .get
  revalidates : ∀ exchange, stage = .exchanges exchange → exchange.revalidating = true →
    (RequestPolicy.new req.method req.headers).conditional = false

namespace World

variable {cap : Duration} {maxEntry : Nat} {log : List Effect}

theorem or_allowed {store after : Store} {req : HttpRequest} {use : FreshUse} {now : Instant}
    {cached : Cached} {spawned : Option (Task × UpstreamRequest)}
    (h : FromCache store req use now cached spawned) (stores : Stores (Backed cap maxEntry log) store)
    (id : Nat) (flight : Option Flight) (next : Option StaleEntry → Stage) :
    ∀ answer response, (Cached.or id flight next (cached, after, spawned)).answer = some answer →
      answer.response = some response → Allowed cap log ⟨id, req, now, answer.cause, response⟩ := by
  have backed {entry : StaleEntry} (found : store.find req.cacheKey req.headers = some entry) :
      Backed cap maxEntry log entry.response := by
    obtain ⟨index, -, -, here⟩ := Store.find_eq_some.mp found
    exact stores _ _ here
  cases h with
  | fresh mayServe found mayAnswer =>
      rintro _ response ⟨⟩ made
      exact ⟨made, (backed found).judged fun judged sound => sound.fresh mayServe mayAnswer⟩
  | whileRevalidating mayServe isGet mayServeStale found within =>
      rintro _ response ⟨⟩ made
      exact ⟨made, (backed found).judged fun judged sound =>
        sound.staleWithin mayServe isGet mayServeStale within⟩
  | _ =>
      rintro _ response ⟨⟩

/-- An answer is allowed at the clock of its step. -/
theorem Moves.allowed {σ : World} {id : Nat} {req : HttpRequest} {stage : Stage}
    {outcome : Outcome} (moves : Moves σ id req stage outcome) (asked : stage.Asked req)
    (stores : Stores (Backed cap maxEntry log) σ.store)
    (held : ∀ entry, stage.stale = some entry → Backed cap maxEntry log entry.response) :
    ∀ answer response, outcome.answer = some answer → answer.response = some response →
      Allowed cap log ⟨id, req, σ.clock, answer.cause, response⟩ := by
  cases moves with
  | lookFirst unexpired found => exact or_allowed found stores id none .joins
  | lookAgain unexpired found => exact or_allowed found stores id _ fun stale => .prepares ⟨stale, _⟩
  | refused =>
      rintro _ _ ⟨⟩ ⟨⟩
      exact cacheLabel_errorResponse _
  | @revalidated exchange stale head now clock found revalidating =>
      rintro _ response ⟨⟩ made
      obtain ⟨mayServe, isGet⟩ := asked.held stale found
      refine ⟨clock ▸ made, mayServe_spec mayServe, isGet, ?_⟩
      exact conditional_eq_false (asked.revalidates exchange rfl revalidating)
  | @onError exchange stale status found error mayServe =>
      rintro _ response ⟨⟩ made
      obtain ⟨serves, isGet⟩ := asked.held stale found
      rw [Exchange.mayServeOnError, Bool.and_eq_true] at mayServe
      exact ⟨made, error, (held stale found).judged fun judged sound =>
        sound.staleWithin serves isGet mayServe.1 mayServe.2⟩
  | @forwarded exchange head now =>
      rintro _ _ ⟨⟩ ⟨⟩
      exact cacheLabel_clientHead head
  | failed =>
      rintro _ _ ⟨⟩ ⟨⟩
      exact cacheLabel_errorResponse _
  | hangUp h => cases stage <;> cases h <;> rintro _ _ ⟨⟩
  | _ => rintro _ _ ⟨⟩

/-- What a request shows by a step. -/
theorem Moves.asked {σ : World} {id : Nat} {req : HttpRequest} {stage : Stage}
    {outcome : Outcome} (moves : Moves σ id req stage outcome) (asked : stage.Asked req) :
    outcome.stage.Asked req where
  held entry h := by
    obtain before | found := moves.found.1 entry h
    · exact asked.held entry before
    · exact ⟨found.mayServe, found.isGet⟩
  revalidates exchange h revalidating := by
    cases moves with
    | lookFirst unexpired found => cases found <;> cases h
    | lookAgain unexpired found => cases found <;> cases h
    | sent conditional =>
        cases h
        exact conditional revalidating
    | hangUp hung => cases stage <;> cases hung <;> cases h
    | _ => cases h

theorem answered_caused (id : Nat) (store : Store) (req : HttpRequest)
    (exchange : Exchange) (head : Head) (now : Clock) :
    ∀ answer, (exchange.answered id store req head now).answer = some answer →
      Caused [.answered id head now] id answer.cause := by
  have there : Event.answered id head now ∈ [Event.answered id head now] :=
    List.mem_singleton_self _
  have answered := exchange.answered_cases id store req head now
  generalize exchange.answered id store req head now = outcome at answered
  cases answered with
  | revalidated found revalidating bare =>
      rintro _ ⟨⟩
      exact ⟨fun _ _ h => (by cases h), fun _ _ => ⟨head, now, there, bare⟩⟩
  | stale found error =>
      rintro _ ⟨⟩
      refine ⟨fun _ _ h => ?_, fun _ h => (by cases h)⟩
      cases h
      exact .inl ⟨head, now, there, error, rfl⟩
  | forwarded =>
      rintro _ ⟨⟩
      exact .of_other (fun _ _ h => (by cases h)) fun _ h => (by cases h)

omit [HttpDate] in
theorem failed_caused (id : Nat) (store : Store) (req : HttpRequest)
    (exchange : Exchange) (status : StatusCode) (timedOut : Bool) (now : Clock) :
    ∀ answer, (exchange.failed id store req status now.instant).answer = some answer →
      Caused [.failed id timedOut now] id answer.cause := by
  obtain ⟨stale, -, -, h⟩ | ⟨status', h⟩ :=
    exchange.failed_cases id store req status now.instant
  · rw [h]
    rintro _ ⟨⟩
    refine ⟨fun _ _ h => ?_, fun _ h => (by cases h)⟩
    cases h
    exact .inr ⟨rfl, timedOut, now, List.mem_singleton_self _⟩
  · rw [h]
    rintro _ ⟨⟩
    exact .of_other (fun _ _ h => (by cases h)) fun _ h => (by cases h)

/-- An answer of an event has its cause in it. -/
theorem Happens.caused [UriSyntax] {base : OriginUrl} {σ σ' : World} {event : Event}
    (happens : Happens base σ event σ') :
    ∀ given ∈ σ'.answers, given ∈ σ.answers ∨ Caused [event] given.id given.cause := by
  have settled {σ₀ : World} {id : Nat} {req : HttpRequest} {outcome : Outcome}
      (answers : σ₀.answers = σ.answers)
      (causes : ∀ answer, outcome.answer = some answer → Caused [event] id answer.cause) :
      ∀ given ∈ (σ₀.settle id req outcome).answers,
        given ∈ σ.answers ∨ Caused [event] given.id given.cause := by
    intro given h
    obtain before | ⟨answer, response, hanswer, -, rfl⟩ := mem_settle_answers.mp h
    · exact .inl (answers ▸ before)
    · exact .inr (causes answer hanswer)
  cases happens with
  | arrive | wake | timeOut => exact settled rfl fun _ h => by cases h
  | body => exact settled (by rfl) fun _ h => by cases h
  | @look id now request flight next use later here looks =>
      refine settled (by rfl) ?_
      obtain ⟨-, spec⟩ :=
        fromCache_spec base (σ.tick now.instant).store request.req use now.instant
      generalize fromCache base (σ.tick now.instant).store request.req use now.instant = result
        at spec
      obtain ⟨cached, after, spawned⟩ := result
      cases spec <;> rintro _ ⟨⟩ <;>
        exact .of_other (fun _ _ h => (by cases h)) fun _ h => (by cases h)
  | @join id request stale here stage =>
      refine settled (by rfl) ?_
      cases (joinFlight σ.store σ.flights request.req).1 <;> exact fun _ h => by cases h
  | @prepare id body request toOrigin here stage =>
      refine settled rfl ?_
      obtain ⟨status, h⟩ | ⟨_, _, h, -⟩ :=
        prepare_cases base id σ.store request.req toOrigin body <;> rw [h] <;> rintro _ ⟨⟩
      exact .of_other (fun _ _ h => (by cases h)) fun _ h => (by cases h)
  | answered => exact settled (by rfl) (answered_caused _ _ _ _ _ _)
  | failed => exact settled (by rfl) (failed_caused _ _ _ _ _ _ _)
  | @disconnect id request outcome here hangs =>
      refine settled rfl fun _ h => ?_
      cases stage : request.stage <;> rw [stage] at hangs <;> cases hangs <;> cases h
  | refreshed | refreshBody => exact fun given h => .inl h
  | refreshFailed | insertAsset | evictIndex | evictEntry => exact fun given h => .inl h

/-! ## Runs -/

/-- The invariant: what each request has shown, and that every answer so far
was allowed. -/
structure Obeys (σ : World) : Prop where
  asked : ∀ id request, σ.requests id = some request → request.stage.Asked request.req
  answers : ∀ given ∈ σ.answers, Allowed σ.store.ttl σ.log given

theorem Obeys.settle {σ σ₀ : World} (obeys : Obeys σ) {id : Nat} {req : HttpRequest}
    {outcome : Outcome} (requests : σ₀.requests = σ.requests) (answers : σ₀.answers = σ.answers)
    (log : σ₀.log = σ.log) (ttl : outcome.store.ttl = σ.store.ttl)
    (asked : outcome.stage.Asked req)
    (allowed : ∀ answer response, outcome.answer = some answer → answer.response = some response →
      Allowed σ.store.ttl σ.log ⟨id, req, σ₀.clock, answer.cause, response⟩) :
    Obeys (σ₀.settle id req outcome) where
  asked other request h := by
    obtain ⟨-, rfl⟩ | ⟨-, before⟩ := Runs.update_cases h
    · exact asked
    · exact obeys.asked other request (requests ▸ before)
  answers given h := by
    have allowed_before : Allowed σ.store.ttl σ.log given := by
      obtain before | ⟨answer, response, hanswer, made, rfl⟩ := mem_settle_answers.mp h
      · exact obeys.answers given (answers ▸ before)
      · exact allowed answer response hanswer made
    simp only [World.settle, ttl, log, List.append_assoc]
    exact allowed_before.mono _

theorem Obeys.step {σ σ' : World} (obeys : Obeys σ) (kept : Kept σ) (change : Change σ σ') :
    Obeys σ' := by
  have still {store : Store} {more : List Effect} (ttl : store.ttl = σ.store.ttl) :
      ∀ given ∈ σ.answers, Allowed store.ttl (σ.log ++ more) given := fun given h => by
    rw [ttl]
    exact (obeys.answers given h).mono more
  have wrote := kept.change change
  obtain ⟨⟨effects, log, writes⟩, -, -⟩ := wrote
  have fresh (req : HttpRequest) {stage : Stage} (stale : stage.stale = none)
      (sent : ∀ exchange, stage ≠ .exchanges exchange) : stage.Asked req :=
    ⟨fun entry h => absurd (stale.symm.trans h) (by simp), fun exchange h => absurd h (sent exchange)⟩
  cases change with
  | @arrive id req =>
      exact obeys.settle rfl rfl rfl rfl (fresh req rfl fun _ h => by cases h) fun _ _ h => by cases h
  | @request σ₀ id request outcome time here moves =>
      have read := at_reading time
      have asked := obeys.asked id request here
      exact obeys.settle read.requests read.answers read.log writes.ttl (moves.asked asked)
        (moves.allowed asked (read.stores kept.stores) fun entry =>
          kept.holds.requests id request entry here)
  | @join id request stale here stage =>
      have asked := obeys.asked id request here
      cases (joinFlight σ.store σ.flights request.req).1 with
      | alone =>
          refine obeys.settle rfl rfl rfl rfl ⟨fun entry h => ?_, fun _ h => by cases h⟩
            fun _ _ h => by cases h
          exact asked.held entry (by rw [stage]; exact h)
      | lead =>
          exact obeys.settle rfl rfl rfl rfl (fresh _ rfl fun _ h => by cases h)
            fun _ _ h => by cases h
      | follow =>
          exact obeys.settle rfl rfl rfl rfl (fresh _ rfl fun _ h => by cases h)
            fun _ _ h => by cases h
  | @task σ₀ id task outcome time here moves =>
      have read := at_reading time
      refine ⟨fun other request h => obeys.asked other request (read.requests ▸ h),
        fun given h => ?_⟩
      rw [log, writes.ttl]
      exact (obeys.answers given (read.answers ▸ h)).mono effects
  | insertAsset =>
      exact ⟨obeys.asked, fun given h => by rw [writes.ttl]; exact obeys.answers given h⟩
  | evictIndex => exact ⟨obeys.asked, obeys.answers⟩
  | evictEntry => exact ⟨obeys.asked, obeys.answers⟩

theorem obeys_start (sizeMb : UInt64) (ttl : Duration) : Obeys (start sizeMb ttl) :=
  ⟨fun _ _ h => (by cases h), fun _ h => (by cases h)⟩

/-- Every answer of a run has its cause among the events. -/
theorem caused_run [UriSyntax] {base : OriginUrl} {sizeMb : UInt64} {ttl : Duration}
    {events : List Event} {σ : World}
    (hrun : Runs.run (step base) (start sizeMb ttl) events = some σ) :
    ∀ given ∈ σ.answers, Caused events given.id given.cause := by
  refine Runs.invariant_history
    (I := fun events σ => ∀ given ∈ σ.answers, Caused events given.id given.cause)
    (fun _ h => by cases h) ?_ hrun
  intro before event σ σ' _ caused h given there
  obtain earlier | now := (happens_of_step h).2.caused given there
  · exact (caused given earlier).mono (List.subset_append_left ..)
  · exact now.mono (List.subset_append_right ..)

/-- Every answer of every run kept to the rules when it was given. -/
theorem answers_are_allowed [UriSyntax] {base : OriginUrl} {sizeMb : UInt64} {ttl : Duration}
    {events : List Event} {σ : World}
    (hrun : Runs.run (step base) (start sizeMb ttl) events = some σ) :
    ∀ given ∈ σ.answers, Labelled ttl events σ.log given := by
  obtain ⟨-, obeys⟩ : Kept σ ∧ Obeys σ :=
    Runs.invariant_run (I := fun σ => Kept σ ∧ Obeys σ)
      (fun _ _ _ both h => ⟨both.1.step (step_cases h).2, both.2.step both.1 (step_cases h).2⟩)
      ⟨kept_start sizeMb ttl, obeys_start sizeMb ttl⟩ hrun
  intro given h
  have allowed := obeys.answers given h
  rw [(kept_run hrun).2.ttl_eq] at allowed
  exact allowed.labelled (caused_run hrun given h)

end World

end

namespace World

/-- A minute's response is stored, and asked for again. -/
def hitEvents : List World.Event :=
  missEvents ⟨.ok, byLanguage⟩ ++ [.arrive 1 (germanRequest []), .look 1 exampleClock]

theorem answers_are_allowed_example : ∃ (_ : HttpDate) (_ : UriSyntax) (σ : World)
    (given : Given),
    Runs.run (step exampleOrigin) (start 1 (Duration.fromSecs 300)) hitEvents = some σ ∧
      given ∈ σ.answers ∧ cacheLabel given.response = some .hit ∧
      Labelled (Duration.fromSecs 300) hitEvents σ.log given := by
  let dates : HttpDate := ⟨fun _ => none⟩
  let uris : UriSyntax := ⟨fun _ => true, fun _ => true⟩
  have labelled : (Runs.run (step exampleOrigin) (start 1 (Duration.fromSecs 300))
      hitEvents).map (fun σ => σ.answers.map fun given => cacheLabel given.response) =
        some [some .miss, some .hit] := by decide +kernel
  rcases Option.map_eq_some_iff.mp labelled with ⟨σ, hrun, labels⟩
  have second : some CacheStatus.hit ∈ σ.answers.map fun given => cacheLabel given.response := by
    rw [labels]
    exact List.mem_cons_of_mem _ List.mem_cons_self
  rcases List.mem_map.mp second with ⟨given, member, label⟩
  exact ⟨dates, uris, σ, given, hrun, member, label, answers_are_allowed hrun given member⟩

end World

end Shadowstep
