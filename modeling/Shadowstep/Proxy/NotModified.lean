import Shadowstep.Proxy.Provenance

/-!
# Where the other answers come from

An answer that is not from the cache is the origin's to the request's own
origin request, or an error of the proxy. The proxy puts validators of its own
into origin requests, so a 304 of the origin may be meant for the cache: such
a 304 never reaches a client. A client's 304 is the origin's answer to a
request that has the client's preconditions and no others.

* `Explained` — what an answer is, by its cause;
* `World.not_modified_is_the_origins` — every answer of every run.
-/

namespace Shadowstep

open Rust

/-- The statuses of the errors that the proxy makes itself. -/
def ownErrors : List StatusCode := [.badRequest, .internalServerError, .badGateway, .gatewayTimeout]

/-- This answer is none of the origin's 304s. -/
def Unlike304 (answer : Answer) (response : HttpResponse) : Prop :=
  match answer.cause with
  | .forwarded => False
  | .failed => ∃ status ∈ ownErrors, response = errorResponse status
  | .fresh .. | .whileRevalidating _ | .onError .. | .revalidated _ =>
    response.status ≠ .notModified

/-- No answer, or one that is none of the origin's 304s. -/
def Outcome.Unlike304 (outcome : Outcome) : Prop :=
  ∀ answer response, outcome.answer = some answer → answer.response = some response →
    Shadowstep.Unlike304 answer response

theorem unlike304_error (id : Nat) (store : Store) (effects : List Effect)
    (flight : Option Flight) {status : StatusCode} (own : status ∈ ownErrors) :
    (reply id store effects flight ⟨.failed, some (errorResponse status)⟩).Unlike304 := by
  rintro _ _ ⟨⟩ ⟨⟩
  exact ⟨status, own, rfl⟩

theorem unlike304_cached {stored : StoredResponse} {label : CacheStatus} {now : Instant}
    {response : HttpResponse} (h : cachedResponse stored label now = some response)
    (cached : stored.status ≠ .notModified) : response.status ≠ .notModified := by
  obtain ⟨age, -, rfl⟩ := Option.map_eq_some_iff.mp h
  exact cached

/-- A status that may be stored. -/
theorem ne_notModified {status : StatusCode} (cacheable : status.code ∈ cacheableByDefault) :
    status ≠ .notModified := by
  rintro rfl
  revert cacheable
  decide

section

variable [UriSyntax]

theorem look_unlike304 {store : Store} (stores : World.Stores
      (fun arc => arc.val.status ≠ .notModified) store) (base : OriginUrl) (id : Nat)
    (req : HttpRequest) (flight : Option Flight) (next : Option StaleEntry → Stage)
    (use : FreshUse) (now : Instant) :
    (Cached.or id flight next (fromCache base store req use now)).Unlike304 := by
  obtain ⟨-, spec⟩ := fromCache_spec base store req use now
  generalize fromCache base store req use now = result at spec
  obtain ⟨cached, after, spawned⟩ := result
  have stored {entry : StaleEntry} (h : store.find req.cacheKey req.headers = some entry) :
      entry.response.val.status ≠ .notModified := by
    obtain ⟨index, -, -, here⟩ := Store.find_eq_some.mp h
    exact stores _ _ here
  cases spec with
  | fresh mayServe here mayAnswer =>
      rintro _ response ⟨⟩ made
      exact unlike304_cached made (stored here)
  | whileRevalidating mayServe isGet mayServeStale here within task =>
      rintro _ response ⟨⟩ made
      exact unlike304_cached made (stored here)
  | _ => rintro _ _ ⟨⟩

/-- A request that is refused gets an error, and one that is sent has validators
of a stale entry only where it revalidates. -/
theorem prepare_sends (base : OriginUrl) (id : Nat) (store : Store) (req : HttpRequest)
    (toOrigin : ToOrigin) (body : BodyStart) :
    (prepare base id store req toOrigin body).Unlike304 ∧
      ∀ exchange, (prepare base id store req toOrigin body).stage = .exchanges exchange →
        ∃ sent, .sent (.request id) sent ∈ (prepare base id store req toOrigin body).effects ∧
          (exchange.revalidating = false ∨ exchange.stale = none →
            req.upstream base = some sent) := by
  unfold prepare
  cases target : req.upstream base with
  | none => exact ⟨unlike304_error _ _ _ _ (by decide), fun _ h => by cases h⟩
  | some request =>
      cases body with
      | ready =>
          refine ⟨by rintro _ _ ⟨⟩, ?_⟩
          rintro _ ⟨⟩
          refine ⟨_, List.mem_singleton_self _, fun plain => ?_⟩
          -- nothing is left to revalidate
          have nothing : toOrigin.stale.filter
              (fun _ => !(RequestPolicy.new req.method req.headers).conditional) = none := by
            rcases plain with unasked | absent
            · exact Option.isNone_iff_eq_none.mp (Option.isSome_eq_false_iff.mp unasked)
            · rw [show toOrigin.stale = none from absent]
              rfl
          rw [nothing]
          rfl
      | failed => exact ⟨unlike304_error _ _ _ _ (by decide), fun _ h => by cases h⟩
      | refused => exact ⟨unlike304_error _ _ _ _ (by decide), fun _ h => by cases h⟩

end

theorem hangUp_unlike304 {id : Nat} {store : Store} {stage : Stage} {outcome : Outcome}
    (hangs : World.hangUp id store stage = some outcome) : outcome.Unlike304 := by
  cases stage <;> cases hangs <;> rintro _ _ ⟨⟩

theorem serveStale_unlike304 {stale : StaleEntry}
    (stored : stale.response.val.status ≠ .notModified) (id : Nat) (store : Store)
    (exchange : Exchange) (status : Option StatusCode) (now : Instant) :
    (exchange.serveStale id store stale status now).Unlike304 := by
  rintro _ response ⟨⟩ made
  exact unlike304_cached made stored

theorem failed_unlike304 {exchange : Exchange}
    (stored : ∀ entry, exchange.stale = some entry → entry.response.val.status ≠ .notModified)
    {status : StatusCode} (own : status ∈ ownErrors) (id : Nat) (store : Store) (req : HttpRequest)
    (now : Instant) : (exchange.failed id store req status now).Unlike304 := by
  unfold Exchange.failed
  split
  · rename_i stale found
    split
    · exact serveStale_unlike304 (stored stale found) id store exchange none now
    · refine unlike304_error _ _ _ _ ?_
      cases stale.response.val.mustRevalidate with
      | false => exact own
      | true =>
          rw [if_pos rfl]
          decide
  · exact unlike304_error _ _ _ _ own

/-- The origin's answer is passed on, and a 304 only where it is no answer to the
validators of the cache. -/
theorem answered_cases304 [HttpDate] {exchange : Exchange}
    (stored : ∀ entry, exchange.stale = some entry → entry.response.val.status ≠ .notModified)
    (id : Nat) (store : Store) (req : HttpRequest) (head : Head) (now : Clock) :
    (exchange.answered id store req head now).Unlike304 ∨
      (exchange.answered id store req head now).answer =
          some ⟨.forwarded, some (clientHead head)⟩ ∧
        (head.status = .notModified → exchange.revalidating = false ∨ exchange.stale = none) := by
  unfold Exchange.answered
  split
  · rename_i stale found
    split
    · refine .inl ?_
      rintro _ response ⟨⟩ made
      have kept : (freshenFrom (.request id) store stale req head now).1.page =
          stale.response.val.page.updated head := store.freshen_page stale ..
      have status : (freshenFrom (.request id) store stale req head now).1.status =
          stale.response.val.status := congrArg Page.status kept
      refine unlike304_cached made fun notModified => ?_
      exact stored stale found (status.symm.trans notModified)
    · rename_i other
      split
      · exact .inl (serveStale_unlike304 (stored stale found) _ _ _ _ _)
      · refine .inr ⟨rfl, fun notModified => .inl ?_⟩
        simpa [notModified] using other
  · rename_i none
    exact .inr ⟨rfl, fun _ => .inr none⟩

/-- An exchange ends with the origin's answer. -/
theorem Exchange.answered_ends [HttpDate] (exchange : Exchange) (id : Nat) (store : Store)
    (req : HttpRequest) (head : Head) (now : Clock) (other : Exchange) :
    (exchange.answered id store req head now).stage ≠ .exchanges other := by
  have answered := exchange.answered_cases id store req head now
  generalize exchange.answered id store req head now = outcome at answered
  cases answered <;> exact fun h => by cases h

theorem Exchange.failed_ends (exchange : Exchange) (id : Nat) (store : Store) (req : HttpRequest)
    (status : StatusCode) (now : Instant) (other : Exchange) :
    (exchange.failed id store req status now).stage ≠ .exchanges other := by
  obtain ⟨stale, -, -, h⟩ | ⟨status', h⟩ := exchange.failed_cases id store req status now <;>
    rw [h] <;> exact fun h => by cases h

/-! ## The machine -/

namespace World

theorem Looks.not_exchanges {stage : Stage} {flight : Option Flight}
    {next : Option StaleEntry → Stage} {use : FreshUse} (looks : Looks stage flight next use)
    (id : Nat) (cached : Cached × Store × Option (Task × UpstreamRequest)) (exchange : Exchange) :
    (Cached.or id flight next cached).stage ≠ .exchanges exchange := by
  obtain ⟨cached, store, spawned⟩ := cached
  cases looks <;> cases cached <;> exact fun h => by cases h

/-- What an answer is, by its cause. -/
def Explained [UriSyntax] (base : OriginUrl) (events : List Event) (σ : World) (given : Given) :
    Prop :=
  match given.cause with
  | .forwarded => ∃ head, Said events (.request given.id) head ∧
      given.response = clientHead head ∧
      (head.status = .notModified → ∃ sent, .sent (.request given.id) sent ∈ σ.log ∧
        given.req.upstream base = some sent)
  | .failed => ∃ status ∈ ownErrors, given.response = errorResponse status
  | .fresh .. | .whileRevalidating _ | .onError .. | .revalidated _ =>
    given.response.status ≠ .notModified

theorem explained_of_unlike304 [UriSyntax] {base : OriginUrl} {events : List Event} {σ : World}
    {id : Nat} {req : HttpRequest} {now : Instant} {answer : Answer} {response : HttpResponse}
    (unlike : Unlike304 answer response) :
    Explained base events σ ⟨id, req, now, answer.cause, response⟩ := by
  unfold Unlike304 at unlike
  unfold Explained
  cases cause : answer.cause with
  | forwarded =>
      rw [cause] at unlike
      exact unlike.elim
  | _ =>
      rw [cause] at unlike
      exact unlike

theorem Explained.mono [UriSyntax] {base : OriginUrl} {events : List Event} {σ σ' : World}
    {given : Given} (explained : Explained base events σ given) (more : List Event)
    (logged : σ.log ⊆ σ'.log) : Explained base (events ++ more) σ' given := by
  unfold Explained at explained ⊢
  cases cause : given.cause with
  | forwarded =>
      rw [cause] at explained
      obtain ⟨head, said, made, plain⟩ := explained
      refine ⟨head, said.mono more, made, fun notModified => ?_⟩
      obtain ⟨sent, there, same⟩ := plain notModified
      exact ⟨sent, logged there, same⟩
  | _ =>
      rw [cause] at explained
      exact explained

/-- The origin request of an exchange is the client's, unless the exchange
revalidates a stale entry. -/
def SentPlain [UriSyntax] (base : OriginUrl) (log : List Effect) (id : Nat) (req : HttpRequest)
    (exchange : Exchange) : Prop :=
  ∃ sent, .sent (.request id) sent ∈ log ∧
    (exchange.revalidating = false ∨ exchange.stale = none → req.upstream base = some sent)

structure Genuine [UriSyntax] (base : OriginUrl) (events : List Event) (σ : World) : Prop where
  unspawned : Unspawned σ
  sends : ∀ id request exchange, σ.requests id = some request →
    request.stage = .exchanges exchange → SentPlain base σ.log id request.req exchange
  answers : ∀ given ∈ σ.answers,
    σ.asked (.request given.id) = some given.req ∧ Explained base events σ given

variable [UriSyntax] {base : OriginUrl} {events : List Event} {event : Event} {σ σ₀ : World}

/-- A step of a request. -/
theorem Genuine.settle (genuine : Genuine base events σ) {id : Nat} {req : HttpRequest}
    {outcome : Outcome} (requests : σ₀.requests = σ.requests) (log : σ₀.log = σ.log)
    (answers : σ₀.answers = σ.answers) (unspawned : Unspawned (σ₀.settle id req outcome))
    (asked : ∀ actor asks, σ.asked actor = some asks →
      (σ₀.settle id req outcome).asked actor = some asks)
    (sends : ∀ exchange, outcome.stage = .exchanges exchange →
      SentPlain base outcome.effects id req exchange)
    (explained : ∀ answer response, outcome.answer = some answer →
      answer.response = some response → Explained base (events ++ [event])
        (σ₀.settle id req outcome) ⟨id, req, σ₀.clock, answer.cause, response⟩) :
    Genuine base (events ++ [event]) (σ₀.settle id req outcome) := by
  obtain ⟨more, logged, -⟩ := settle_log σ₀ id req outcome
  have before : σ.log ⊆ (σ₀.settle id req outcome).log := by
    rw [logged, log, List.append_assoc]
    exact List.subset_append_left ..
  have now : outcome.effects ⊆ (σ₀.settle id req outcome).log := by
    rw [logged, List.append_assoc]
    exact fun effect h => List.mem_append_right _ (List.mem_append_left _ h)
  refine ⟨unspawned, ?_, ?_⟩
  · intro other request exchange h stage
    rcases Runs.update_cases h with ⟨rfl, rfl⟩ | ⟨-, earlier⟩
    · obtain ⟨sent, there, plain⟩ := sends exchange stage
      exact ⟨sent, now there, plain⟩
    · obtain ⟨sent, there, plain⟩ :=
        genuine.sends other request exchange (requests ▸ earlier) stage
      exact ⟨sent, before there, plain⟩
  · intro given there
    obtain earlier | ⟨answer, response, hanswer, hresponse, rfl⟩ := mem_settle_answers.mp there
    · obtain ⟨asks, was⟩ := genuine.answers given (answers ▸ earlier)
      exact ⟨asked _ _ asks, was.mono [event] before⟩
    · exact ⟨by simp [World.asked, World.settle], explained answer response hanswer hresponse⟩

theorem Genuine.settleTask (genuine : Genuine base events σ) {id : Nat} {task : Task}
    {outcome : Store × List Effect × TaskStage} (requests : σ₀.requests = σ.requests)
    (log : σ₀.log = σ.log) (answers : σ₀.answers = σ.answers)
    (unspawned : Unspawned (σ₀.settleTask id task outcome))
    (asked : ∀ actor asks, σ.asked actor = some asks →
      (σ₀.settleTask id task outcome).asked actor = some asks) :
    Genuine base (events ++ [event]) (σ₀.settleTask id task outcome) := by
  have before : σ.log ⊆ (σ₀.settleTask id task outcome).log := by
    show σ.log ⊆ σ₀.log ++ outcome.2.1
    rw [log]
    exact List.subset_append_left ..
  refine ⟨unspawned, fun other request exchange h stage => ?_, fun given there => ?_⟩
  · obtain ⟨sent, there, plain⟩ := genuine.sends other request exchange (requests ▸ h) stage
    exact ⟨sent, before there, plain⟩
  · obtain ⟨asks, was⟩ := genuine.answers given (answers ▸ there)
    exact ⟨asked _ _ asks, was.mono [event] before⟩

variable [HttpDate]

theorem Genuine.step {σ' : World} (genuine : Genuine base events σ)
    (stores : Stores (fun arc => arc.val.status ≠ .notModified) σ.store)
    (holds : Holds (fun arc => arc.val.status ≠ .notModified) σ)
    (happens : Happens base σ event σ') : Genuine base (events ++ [event]) σ' := by
  have asked : ∀ actor req, σ.asked actor = some req → σ'.asked actor = some req :=
    fun _ _ h => happens.asked genuine.unspawned h
  have unspawned := genuine.unspawned.step happens
  have quiet {outcome : Outcome} (unlike : outcome.Unlike304) (id : Nat) (req : HttpRequest)
      (now : Instant) :
      ∀ answer response, outcome.answer = some answer → answer.response = some response →
        Explained base (events ++ [event]) σ' ⟨id, req, now, answer.cause, response⟩ :=
    fun answer response h h' => explained_of_unlike304 (unlike answer response h h')
  cases happens with
  | arrive =>
      exact genuine.settle rfl rfl rfl unspawned asked (fun _ h => by cases h)
        (fun _ _ h => by cases h)
  | @look id now request flight next use later here looks =>
      refine genuine.settle rfl rfl rfl unspawned asked (fun exchange h => ?_)
        (quiet (look_unlike304 (stores.expire now.instant) base id _ _ _ _ _) _ _ _)
      exact absurd h (looks.not_exchanges id _ exchange)
  | @join id request stale here stage =>
      refine genuine.settle rfl rfl rfl unspawned asked (fun exchange h => ?_) fun _ _ h => ?_
      · cases joined : (joinFlight σ.store σ.flights request.req).1 <;>
          rw [joined] at h <;> cases h
      · cases joined : (joinFlight σ.store σ.flights request.req).1 <;>
          rw [joined] at h <;> cases h
  | wake | timeOut =>
      exact genuine.settle rfl rfl rfl unspawned asked (fun _ h => by cases h)
        (fun _ _ h => by cases h)
  | @prepare id body request toOrigin here stage =>
      obtain ⟨unlike, sends⟩ := prepare_sends base id σ.store request.req toOrigin body
      exact genuine.settle rfl rfl rfl unspawned asked sends (quiet unlike _ _ _)
  | @answered id head now request exchange later here stage =>
      have stored : ∀ entry, exchange.stale = some entry →
          entry.response.val.status ≠ .notModified := fun entry h =>
        holds.requests id request entry here (by rw [stage]; exact h)
      refine genuine.settle rfl rfl rfl unspawned asked (fun other h => ?_) ?_
      · exact absurd h (exchange.answered_ends id _ request.req head now other)
      · obtain unlike | ⟨forwarded, plain⟩ := answered_cases304 stored id
          (σ.tick now.instant).store request.req head now
        · exact quiet unlike _ _ _
        · intro answer response h made
          rw [forwarded] at h
          obtain rfl := Option.some.inj h
          obtain rfl := Option.some.inj made
          refine ⟨head, ?_, rfl, fun bare => ?_⟩
          · exact ⟨_, List.mem_append_right _ (List.mem_singleton_self _), rfl⟩
          · obtain ⟨sent, there, same⟩ := genuine.sends id request exchange here stage
            refine ⟨sent, ?_, same (plain bare)⟩
            obtain ⟨more, logged, -⟩ := settle_log (σ.tick now.instant) id request.req
              (exchange.answered id (σ.tick now.instant).store request.req head now)
            rw [logged]
            exact List.mem_append_left _ (List.mem_append_left _ there)
  | @failed id timedOut now request exchange later here stage =>
      have stored : ∀ entry, exchange.stale = some entry →
          entry.response.val.status ≠ .notModified := fun entry h =>
        holds.requests id request entry here (by rw [stage]; exact h)
      have own : (if timedOut then .gatewayTimeout else .badGateway) ∈ ownErrors := by
        cases timedOut <;> decide
      refine genuine.settle rfl rfl rfl unspawned asked (fun other h => ?_)
        (quiet (failed_unlike304 stored own id _ request.req now.instant) _ _ _)
      exact absurd h (exchange.failed_ends id _ request.req _ now.instant other)
  | body =>
      exact genuine.settle rfl rfl rfl unspawned asked (fun _ h => by cases h)
        (fun _ _ h => by cases h)
  | @disconnect id request outcome here hangs =>
      refine genuine.settle rfl rfl rfl unspawned asked (fun exchange h => ?_)
        (quiet (hangUp_unlike304 hangs) _ _ _)
      cases stage : request.stage <;> rw [stage] at hangs <;> cases hangs <;> cases h
  | refreshed | refreshFailed | refreshBody =>
      exact genuine.settleTask (by rfl) (by rfl) (by rfl) unspawned asked
  | insertAsset | evictIndex | evictEntry =>
      exact ⟨unspawned, genuine.sends, fun given there =>
        (genuine.answers given there).imp_right (·.mono [_] (List.Subset.refl _))⟩

/-! ## Whole runs -/

omit [UriSyntax] in
theorem Kept.not_modified {σ : World} (kept : Kept σ) :
    Stores (fun arc => arc.val.status ≠ .notModified) σ.store ∧
      Holds (fun arc => arc.val.status ≠ .notModified) σ := by
  have other {arc : Arc StoredResponse}
      (backed : Backed σ.store.ttl σ.store.maxEntry σ.log arc) :
      arc.val.status ≠ .notModified := by
    obtain ⟨-, judged, -, sound⟩ := backed
    exact ne_notModified sound.status
  exact ⟨fun key arc h => other (kept.stores key arc h),
    fun id request entry here h => other (kept.holds.requests id request entry here h),
    fun id task here => other (kept.holds.tasks id task here)⟩

/-- In every run each answer that is not from the cache is the response to the
head that the origin has given to this request, or one of the proxy's errors. A
304 is always the origin's, to an origin request that is built from the client's
alone, without validators of the cache. -/
theorem not_modified_is_the_origins {sizeMb : UInt64} {ttl : Duration} {σ : World}
    (hrun : Runs.run (World.step base) (World.start sizeMb ttl) events = some σ) :
    ∀ given ∈ σ.answers, σ.asked (.request given.id) = some given.req ∧
      (given.cause = .forwarded → ∃ head, Said events (.request given.id) head ∧
        given.response = clientHead head) ∧
      (given.cause = .failed → ∃ status ∈ ownErrors, given.response = errorResponse status) ∧
      (given.response.status = .notModified →
        given.cause = .forwarded ∧ ∃ head sent, Said events (.request given.id) head ∧
          given.response = clientHead head ∧ head.status = .notModified ∧
          .sent (.request given.id) sent ∈ σ.log ∧ given.req.upstream base = some sent) := by
  have both : Kept σ ∧ Genuine base events σ := by
    refine Runs.invariant_history (I := fun events σ => Kept σ ∧ Genuine base events σ)
      ⟨kept_start sizeMb ttl, .start sizeMb ttl, fun _ _ _ h => (by cases h),
        fun _ h => (by cases h)⟩
      ?_ hrun
    rintro before event middle next - ⟨kept, genuine⟩ h
    obtain ⟨stores, holds⟩ := kept.not_modified
    exact ⟨kept.step (step_cases h).2, genuine.step stores holds (happens_of_step h).2⟩
  intro given there
  obtain ⟨asks, explained⟩ := both.2.answers given there
  refine ⟨asks, ?_⟩
  unfold Explained at explained
  cases cause : given.cause with
  | forwarded =>
      rw [cause] at explained
      obtain ⟨head, said, made, plain⟩ := explained
      refine ⟨fun _ => ⟨head, said, made⟩, fun h => (by cases h), fun bare => ?_⟩
      rw [made] at bare
      obtain ⟨sent, logged, same⟩ := plain bare
      exact ⟨rfl, head, sent, said, made, bare, logged, same⟩
  | failed =>
      rw [cause] at explained
      refine ⟨fun h => (by cases h), fun _ => explained, fun bare => ?_⟩
      obtain ⟨status, own, made⟩ := explained
      rw [made] at bare
      obtain rfl : status = .notModified := bare
      exact absurd own (by decide)
  | _ =>
      rw [cause] at explained
      exact ⟨fun h => (by cases h), fun h => (by cases h), fun bare => absurd bare explained⟩

end World

namespace World

/-- A client that has the page asks whether it has changed. -/
def conditionalEvents : List Event :=
  [.arrive 0 (germanRequest [(header.ifNoneMatch, ⟨ascii "\"v1\"", by decide⟩)]),
    .look 0 exampleClock, .join 0, .prepare 0 .ready,
    .answered 0 ⟨.notModified, []⟩ exampleClock]

theorem not_modified_is_the_origins_example : ∃ (_ : HttpDate) (_ : UriSyntax) (σ : World)
    (given : Given),
    Runs.run (step exampleOrigin) (start 1 (Duration.fromSecs 300)) conditionalEvents = some σ ∧
      given ∈ σ.answers ∧ given.response.status = .notModified ∧ given.cause = .forwarded ∧
      σ.asked (.request given.id) = some given.req ∧
      ∃ head sent, Said conditionalEvents (.request given.id) head ∧
        given.response = clientHead head ∧ head.status = .notModified ∧
        .sent (.request given.id) sent ∈ σ.log ∧ given.req.upstream exampleOrigin = some sent := by
  let dates : HttpDate := ⟨fun _ => none⟩
  let uris : UriSyntax := ⟨fun _ => true, fun _ => true⟩
  obtain ⟨σ, hrun, given, first, status⟩ : ∃ σ,
      Runs.run (step exampleOrigin) (start 1 (Duration.fromSecs 300)) conditionalEvents =
          some σ ∧
        ∃ given, σ.answers[0]? = some given ∧ given.response.status = .notModified :=
    ⟨_, rfl, _, rfl, rfl⟩
  have there := List.mem_of_getElem? first
  obtain ⟨asks, -, -, origins⟩ := not_modified_is_the_origins hrun given there
  obtain ⟨forwarded, answered⟩ := origins status
  exact ⟨dates, uris, σ, given, hrun, there, status, forwarded, asks, answered⟩

end World

end Shadowstep
