import Shadowstep.Proxy.Load

/-!
# What passes by the cache

A request that no stored response may answer, and every request when the store
keeps nothing, gets what it would get from a proxy without a cache. Nothing
that other requests, background tasks or the store do makes a difference: its
origin requests and its answer come of its own events.

* `Relay` — a proxy that only forwards;
* `World.relay` — what it sees of the world;
* `World.passing_is_relayed` — the run of the relay over the events of the
  requests that pass by.
-/

namespace Shadowstep

open Rust

/-! ## The relay -/

/-- Where a request stands in a proxy that only forwards. -/
inductive RelayStage where
  | waits
  | exchanges
  | done

/-- A proxy that only forwards. -/
structure Relay where
  requests : Nat → Option (HttpRequest × RelayStage)
  /-- every request to the origin, in order -/
  sent : List (Nat × UpstreamRequest)
  answers : List (HttpRequest × HttpResponse)

namespace Relay

inductive Event where
  | arrive (id : Nat) (req : HttpRequest)
  | prepare (id : Nat) (body : BodyStart)
  | answered (id : Nat) (head : Head)
  | failed (id : Nat) (timedOut : Bool)
  | disconnect (id : Nat)

def start : Relay := ⟨fun _ => none, [], []⟩

/-- The request has got to a stage. -/
def moved (σ : Relay) (id : Nat) (req : HttpRequest) (stage : RelayStage) : Relay :=
  { σ with requests := Function.update σ.requests id (some (req, stage)) }

def answer (σ : Relay) (id : Nat) (req : HttpRequest) (response : HttpResponse) : Relay :=
  { σ.moved id req .done with answers := σ.answers ++ [(req, response)] }

def step [UriSyntax] (base : OriginUrl) (σ : Relay) : Event → Option Relay
  | .arrive id req => if (σ.requests id).isNone then some (σ.moved id req .waits) else none
  | .prepare id body =>
    match σ.requests id with
    | some (req, .waits) =>
      match req.upstream base, body with
      | some request, .ready =>
        some { σ.moved id req .exchanges with sent := σ.sent ++ [(id, request)] }
      | some _, .failed => some (σ.answer id req (errorResponse .badRequest))
      | _, _ => some (σ.answer id req (errorResponse .internalServerError))
    | _ => none
  | .answered id head =>
    match σ.requests id with
    | some (req, .exchanges) => some (σ.answer id req (clientHead head))
    | _ => none
  | .failed id timedOut =>
    match σ.requests id with
    | some (req, .exchanges) =>
      some (σ.answer id req (errorResponse (if timedOut then .gatewayTimeout else .badGateway)))
    | _ => none
  | .disconnect id => (σ.requests id).map fun (req, _) => σ.moved id req .done

end Relay

/-! ## What the relay sees -/

/-- A request that a stored response cannot answer. -/
def passes (sizeMb : UInt64) (ttl : Duration) (req : HttpRequest) : Bool :=
  !(Store.new sizeMb ttl).enabled || !(RequestPolicy.new req.method req.headers).mayServe

def Stage.relay : Stage → RelayStage
  | .first | .joins _ | .follows _ | .again .. | .prepares _ => .waits
  | .exchanges _ => .exchanges
  | .streams _ | .done => .done

/-- Where a request that passes by can stand: it holds no stored response and
leads no flight, and it waits for nobody. -/
def Stage.Bare : Stage → Prop
  | .joins stale => stale = none
  | .follows _ | .again .. => False
  | .prepares toOrigin => toOrigin = ⟨none, none⟩
  | .exchanges exchange => exchange = ⟨none, false, none⟩
  | .first | .streams _ | .done => True

/-- An origin request of one of these requests. -/
def Effect.relay (mine : Nat → Bool) : Effect → Option (Nat × UpstreamRequest)
  | .sent (.request id) request => if mine id then some (id, request) else none
  | _ => none

namespace World

/-- What the relay is told of an event: that of another request, and every
lookup and join, is nothing to it. -/
def Event.relay (mine : Nat → Bool) : Event → Option Relay.Event
  | .arrive id req => if mine id then some (.arrive id req) else none
  | .prepare id begun => if mine id then some (.prepare id begun) else none
  | .answered id head _ => if mine id then some (.answered id head) else none
  | .failed id timedOut _ => if mine id then some (.failed id timedOut) else none
  | .disconnect id => if mine id then some (.disconnect id) else none
  | _ => none

/-- The requests that pass by. -/
def passing (σ : World) (passes : HttpRequest → Bool) (id : Nat) : Bool :=
  (σ.requests id).any fun request => passes request.req

def relay (passes : HttpRequest → Bool) (mine : Nat → Bool) (σ : World) : Relay where
  requests id :=
    if mine id then (σ.requests id).map fun request => (request.req, request.stage.relay) else none
  sent := σ.log.filterMap (Effect.relay mine)
  answers := (σ.answers.filter fun given => passes given.req).map fun given =>
    (given.req, given.response)

/-! ## A step seen by the relay -/

section

variable {passes : HttpRequest → Bool} {mine : Nat → Bool}

theorem relay_filter (effects : List Effect) : effects.filterMap (Effect.relay mine) =
    (effects.filter Effect.isSent).filterMap (Effect.relay mine) := by
  rw [List.filterMap_filter]
  refine List.filterMap_congr fun effect _ => ?_
  cases effect <;> rfl

theorem relay_silent {effects : List Effect} (silent : effects.filter Effect.isSent = []) :
    effects.filterMap (Effect.relay mine) = [] := by
  rw [relay_filter, silent]
  rfl

/-- The relay is not told of another request's origin request. -/
theorem relay_others {id : Nat} {stage : Stage} {outcome : Outcome}
    (spends : Spends id stage outcome) (others : mine id = false) :
    outcome.effects.filterMap (Effect.relay mine) = [] := by
  rw [relay_filter]
  cases spends with
  | nothing silent | fresh silent | refresh silent => simp [silent]
  | sent sends => simp [sends, Effect.relay, others]

/-- A step of a task or of moka. -/
structure Aside (σ σ' : World) : Prop where
  requests : σ'.requests = σ.requests
  answers : σ'.answers = σ.answers
  log : ∃ effects, σ'.log = σ.log ++ effects ∧ effects.filter Effect.isSent = []

theorem relay_aside {σ σ' : World} (aside : Aside σ σ') :
    σ'.relay passes mine = σ.relay passes mine := by
  obtain ⟨effects, log, silent⟩ := aside.log
  simp [relay, aside.requests, aside.answers, log, relay_silent silent]

/-- The relay sees of a request's step what it sends and what it answers. -/
theorem relay_settle (σ : World) (id : Nat) (req : HttpRequest) (outcome : Outcome) :
    (σ.settle id req outcome).relay passes mine =
      { requests := if mine id then Function.update (σ.relay passes mine).requests id
          (some (req, outcome.stage.relay)) else (σ.relay passes mine).requests
        sent := (σ.relay passes mine).sent ++ outcome.effects.filterMap (Effect.relay mine)
        answers := (σ.relay passes mine).answers ++ if passes req then
          (outcome.answer.bind fun answer => answer.response.map (req, ·)).toList else [] } := by
  have requests : ((σ.settle id req outcome).relay passes mine).requests =
      if mine id then Function.update (σ.relay passes mine).requests id
        (some (req, outcome.stage.relay)) else (σ.relay passes mine).requests := by
    funext other
    by_cases same : other = id
    · subst same
      by_cases own : mine other = true <;> simp [relay, World.settle, own]
    · by_cases own : mine id = true <;> simp [relay, World.settle, own, same]
  have sent : ((σ.settle id req outcome).relay passes mine).sent =
      (σ.relay passes mine).sent ++ outcome.effects.filterMap (Effect.relay mine) := by
    cases spawned : outcome.spawned <;> simp [relay, World.settle, spawned, Effect.relay]
  have answers : ((σ.settle id req outcome).relay passes mine).answers =
      (σ.relay passes mine).answers ++ if passes req then
        (outcome.answer.bind fun answer => answer.response.map (req, ·)).toList else [] := by
    cases given : outcome.answer with
    | none => simp [relay, World.settle, given]
    | some answer =>
        cases made : answer.response <;> by_cases pass : passes req = true <;>
          simp [relay, World.settle, given, made, pass]
  exact congr (congrArg₂ Relay.mk requests sent) answers

end

/-! ## Who passes by -/

section

variable {sizeMb : UInt64} {ttl : Duration} {mine : Nat → Bool} {σ σ₀ : World}

theorem Configured.enabled (configured : Configured sizeMb ttl σ) :
    σ.store.enabled = (Store.new sizeMb ttl).enabled := by
  rw [Store.enabled, configured.ttl_eq, configured.maxEntry]
  rfl

/-- A request that passes by finds nothing. -/
theorem fromCache_passing [UriSyntax] (base : OriginUrl) {store : Store} {req : HttpRequest}
    (pass : passes sizeMb ttl req = true)
    (empty : (Store.new sizeMb ttl).enabled = false → ∀ primary, store.index primary = none)
    (use : FreshUse) (now : Instant) :
    fromCache base store req use now = (.nothing, store, none) := by
  simp only [passes, Bool.or_eq_true, Bool.not_eq_true'] at pass
  rcases pass with disabled | unserved
  · have nothing : store.find req.cacheKey req.headers = none := by
      simp [Store.find, empty disabled]
    simp [fromCache, lookupPanics, Store.lookup, nothing]
  · simp [fromCache, unserved]

/-- A request that passes by joins no flight. -/
theorem joinFlight_passing {store : Store} {req : HttpRequest}
    (pass : passes sizeMb ttl req = true)
    (same : store.enabled = (Store.new sizeMb ttl).enabled) (flights : Flights FlightKey) :
    joinFlight store flights req = (.alone, flights) := by
  simp only [passes, Bool.or_eq_true, Bool.not_eq_true'] at pass
  rcases pass with disabled | unserved
  · simp [joinFlight, Store.flightKey, same, disabled]
  · simp [joinFlight, RequestPolicy.mayCoalesce, unserved]

/-- The relay's requests are those that pass by, and none of them has to do
with the cache. -/
structure Passing (sizeMb : UInt64) (ttl : Duration) (mine : Nat → Bool) (σ : World) : Prop where
  mine_eq : ∀ id request, σ.requests id = some request → mine id = passes sizeMb ttl request.req
  bare : ∀ id request, σ.requests id = some request → mine id = true → request.stage.Bare

theorem Passing.settle (passing : Passing sizeMb ttl mine σ) (requests : σ₀.requests = σ.requests)
    {id : Nat} {req : HttpRequest} {outcome : Outcome} (pass : mine id = passes sizeMb ttl req)
    (bare : mine id = true → outcome.stage.Bare) :
    Passing sizeMb ttl mine (σ₀.settle id req outcome) where
  mine_eq other request h := by
    obtain ⟨rfl, rfl⟩ | ⟨-, before⟩ := Runs.update_cases h
    · exact pass
    · exact passing.mine_eq other request (requests ▸ before)
  bare other request h := by
    obtain ⟨rfl, rfl⟩ | ⟨-, before⟩ := Runs.update_cases h
    · exact bare
    · exact passing.bare other request (requests ▸ before)

theorem Passing.aside (passing : Passing sizeMb ttl mine σ) (requests : σ₀.requests = σ.requests) :
    Passing sizeMb ttl mine σ₀ :=
  ⟨fun id request h => passing.mine_eq id request (requests ▸ h),
    fun id request h => passing.bare id request (requests ▸ h)⟩

/-- What the relay does when a request that passes by takes a step without an
answer. -/
theorem relay_moved {passes : HttpRequest → Bool} (aside : Aside σ σ₀) {id : Nat}
    (own : mine id = true) (req : HttpRequest) {outcome : Outcome}
    (silent : outcome.effects.filter Effect.isSent = []) (none : outcome.answer = none) :
    (σ₀.settle id req outcome).relay passes mine =
      (σ.relay passes mine).moved id req outcome.stage.relay := by
  rw [relay_settle, relay_aside aside, relay_silent silent, none, own]
  simp [Relay.moved]

/-- A lookup or a join is none of the relay's business. -/
theorem relay_still {passes : HttpRequest → Bool} (aside : Aside σ σ₀) {id : Nat}
    {request : Request} (here : σ.requests id = some request) (own : mine id = true)
    {outcome : Outcome} (silent : outcome.effects.filter Effect.isSent = [])
    (none : outcome.answer = none) (same : outcome.stage.relay = request.stage.relay) :
    (σ₀.settle id request.req outcome).relay passes mine = σ.relay passes mine := by
  rw [relay_moved aside own request.req silent none, same]
  have stands : (σ.relay passes mine).requests id = some (request.req, request.stage.relay) := by
    simp [relay, own, here]
  rw [Relay.moved, ← stands, Function.update_eq_self]

theorem relay_answered {passes : HttpRequest → Bool} (aside : Aside σ σ₀) {id : Nat}
    (own : mine id = true) {req : HttpRequest} (pass : passes req = true) {outcome : Outcome}
    (silent : outcome.effects.filter Effect.isSent = []) {cause : Cause} {response : HttpResponse}
    (given : outcome.answer = some ⟨cause, some response⟩)
    (done : outcome.stage.relay = .done) :
    (σ₀.settle id req outcome).relay passes mine =
      (σ.relay passes mine).answer id req response := by
  rw [relay_settle, relay_aside aside, relay_silent silent, given, own, pass, done]
  simp [Relay.answer, Relay.moved]

theorem relay_others_settle {passes : HttpRequest → Bool} (aside : Aside σ σ₀) {id : Nat}
    (others : mine id = false) {req : HttpRequest} (pass : passes req = false) {stage : Stage}
    {outcome : Outcome} (spends : Spends id stage outcome) :
    (σ₀.settle id req outcome).relay passes mine = σ.relay passes mine := by
  rw [relay_settle, relay_aside aside, relay_others spends others, others, pass]
  simp

variable [UriSyntax] {base : OriginUrl} {event : Event}

/-- The relay follows a step: it takes the step that it is told of, if any. -/
def Followed (base : OriginUrl) (passes : HttpRequest → Bool) (mine : Nat → Bool) (σ : World)
    (event : Event) (σ' : World) : Prop :=
  Runs.run (Relay.step base) (σ.relay passes mine) (event.relay mine).toList =
    some (σ'.relay passes mine)

theorem Followed.told {passes : HttpRequest → Bool} {σ' : World} {e : Relay.Event}
    (tells : event.relay mine = some e)
    (h : Relay.step base (σ.relay passes mine) e = some (σ'.relay passes mine)) :
    Followed base passes mine σ event σ' := by
  rw [Followed, tells]
  exact Runs.run_cons.mpr ⟨_, h, rfl⟩

theorem Followed.untold {passes : HttpRequest → Bool} {σ' : World}
    (tells : event.relay mine = none) (h : σ'.relay passes mine = σ.relay passes mine) :
    Followed base passes mine σ event σ' := by
  rw [Followed, tells, h]
  rfl

/-- A step of a request, which may be one that passes by or another. -/
theorem Passing.turn (passing : Passing sizeMb ttl mine σ) (aside : Aside σ σ₀) {id : Nat}
    {request : Request} (here : σ.requests id = some request) {outcome : Outcome}
    (spends : Spends id request.stage outcome) (theirs : mine id = false → event.relay mine = none)
    (own : mine id = true → passes sizeMb ttl request.req = true → request.stage.Bare →
      outcome.stage.Bare ∧ Followed base (passes sizeMb ttl) mine σ event
        (σ₀.settle id request.req outcome)) :
    Passing sizeMb ttl mine (σ₀.settle id request.req outcome) ∧
      Followed base (passes sizeMb ttl) mine σ event (σ₀.settle id request.req outcome) := by
  have same := passing.mine_eq id request here
  have passed (whose : mine id = true) : passes sizeMb ttl request.req = true := same ▸ whose
  refine ⟨passing.settle aside.requests same fun whose =>
    (own whose (passed whose) (passing.bare id request here whose)).1, ?_⟩
  cases whose : mine id with
  | true => exact (own whose (passed whose) (passing.bare id request here whose)).2
  | false => exact .untold (theirs whose) (relay_others_settle aside whose (same ▸ whose) spends)

/-- Whether the request can be built and its body can be read is the same to
the relay. -/
theorem relay_prepare {id : Nat} {req : HttpRequest}
    (waits : (σ.relay (passes sizeMb ttl) mine).requests id = some (req, .waits))
    (own : mine id = true) (pass : passes sizeMb ttl req = true) (body : BodyStart) :
    (prepare base id σ.store req ⟨none, none⟩ body).stage.Bare ∧
      Followed base (passes sizeMb ttl) mine σ (.prepare id body)
        (σ.settle id req (prepare base id σ.store req ⟨none, none⟩ body)) := by
  have now : Aside σ σ := ⟨rfl, rfl, [], (List.append_nil _).symm, rfl⟩
  have tells : (Event.prepare id body).relay mine = some (.prepare id body) := by
    simp [Event.relay, own]
  cases upstream : req.upstream base with
  | none =>
      simp only [prepare, upstream]
      refine ⟨trivial, .told tells ?_⟩
      rw [relay_answered now own pass rfl rfl rfl]
      simp [Relay.step, waits, upstream]
  | some sent =>
      cases body with
      | ready =>
          simp only [prepare, upstream, Option.filter_none, Option.elim_none, Option.isSome_none]
          refine ⟨rfl, .told tells ?_⟩
          rw [relay_settle]
          simp [Relay.step, waits, upstream, goesOn, Relay.moved, own, Effect.relay, Stage.relay]
      | failed | refused =>
          simp only [prepare, upstream]
          refine ⟨trivial, .told tells ?_⟩
          rw [relay_answered now own pass rfl rfl rfl]
          simp [Relay.step, waits, upstream]

variable [HttpDate]

/-- A step of a request that passes by is its step in the relay, and every
other step is none. -/
theorem Happens.relay {σ' : World} (happens : Happens base σ event σ')
    (configured : Configured sizeMb ttl σ) (passing : Passing sizeMb ttl mine σ)
    (known : ∀ id req, event = .arrive id req → mine id = passes sizeMb ttl req) :
    Passing sizeMb ttl mine σ' ∧ Followed base (passes sizeMb ttl) mine σ event σ' := by
  have now : Aside σ σ := ⟨rfl, rfl, [], (List.append_nil _).symm, rfl⟩
  have ticked (instant : Instant) : Aside σ (σ.tick instant) :=
    ⟨rfl, rfl, [], (List.append_nil _).symm, rfl⟩
  have stands {id : Nat} {request : Request} {stage : Stage}
      (here : σ.requests id = some request) (stage_eq : request.stage = stage)
      (own : mine id = true) : (σ.relay (passes sizeMb ttl) mine).requests id =
        some (request.req, stage.relay) := by
    simp [World.relay, own, here, stage_eq]
  cases happens with
  | @arrive id req new =>
      have same := known id req rfl
      refine ⟨passing.settle rfl same fun _ => trivial, ?_⟩
      cases whose : mine id with
      | true =>
          have unknown : (σ.relay (passes sizeMb ttl) mine).requests id = none := by
            simp [World.relay, new]
          refine .told (e := .arrive id req) (by simp [Event.relay, whose]) ?_
          rw [relay_moved now whose req rfl rfl]
          simp [Relay.step, unknown, goesOn, Stage.relay]
      | false =>
          have spends : Spends id .first (goesOn σ.store [] .first) :=
            .nothing rfl rfl (fun _ h => by cases h) fun h => h
          exact .untold (by simp [Event.relay, whose])
            (relay_others_settle now whose (same ▸ whose) spends)
  | @look id now' request flight next use later here looks =>
      refine passing.turn (ticked _) here (look_spends base id _ request.req looks now'.instant)
        (fun _ => rfl) fun own pass bare => ?_
      have empty (disabled : (Store.new sizeMb ttl).enabled = false) (primary : PrimaryKey) :
          (σ.tick now'.instant).store.index primary = none :=
        (configured.empty disabled).index primary
      rw [fromCache_passing base pass empty]
      generalize stage : request.stage = stage at looks bare
      cases looks with
      | first => exact ⟨rfl, .untold rfl (relay_still (ticked _) here own rfl rfl (stage ▸ rfl))⟩
      | again => exact bare.elim
  | @join id request stale here stage =>
      have joined (flights : Flights FlightKey) : Aside σ { σ with flights := flights } :=
        ⟨rfl, rfl, [], (List.append_nil _).symm, rfl⟩
      refine passing.turn (joined _) here (stage ▸ join_spends ..) (fun _ => rfl)
        fun own pass bare => ?_
      rw [stage] at bare
      obtain rfl : stale = none := bare
      rw [joinFlight_passing pass configured.enabled]
      exact ⟨rfl, .untold rfl (relay_still now here own rfl rfl (stage ▸ rfl))⟩
  | @wake id request channel here stage _ | @timeOut id request channel here stage =>
      have spends : Spends id request.stage (goesOn σ.store [] (.again none .coalesced)) :=
        .nothing rfl rfl (fun _ h => by cases h) fun _ => stage ▸ trivial
      refine passing.turn now here spends (fun _ => rfl) fun own pass bare => ?_
      rw [stage] at bare
      exact bare.elim
  | @prepare id body request toOrigin here stage =>
      refine passing.turn now here (stage ▸ prepare_spends ..)
        (fun theirs => by simp [Event.relay, theirs]) fun own pass bare => ?_
      rw [stage] at bare
      obtain rfl : toOrigin = ⟨none, none⟩ := bare
      exact relay_prepare (stands here stage own) own pass body
  | @answered id head now' request exchange later here stage =>
      refine passing.turn (ticked _) here (stage ▸ answered_spends ..)
        (fun theirs => by simp [Event.relay, theirs]) fun own pass bare => ?_
      rw [stage] at bare
      obtain rfl : exchange = ⟨none, false, none⟩ := bare
      have silent := Exchange.forwarded_silent ⟨none, false, none⟩ id (σ.tick now'.instant).store
        request.req head now'
      refine ⟨trivial, .told (e := .answered id head) (by simp [Event.relay, own]) ?_⟩
      rw [Exchange.answered, relay_answered (ticked _) own pass silent rfl rfl]
      simp [Relay.step, stands here stage own, Stage.relay]
  | @failed id timedOut now' request exchange later here stage =>
      refine passing.turn (ticked _) here (stage ▸ failed_spends ..)
        (fun theirs => by simp [Event.relay, theirs]) fun own pass bare => ?_
      rw [stage] at bare
      obtain rfl : exchange = ⟨none, false, none⟩ := bare
      refine ⟨trivial, .told (e := .failed id timedOut) (by simp [Event.relay, own]) ?_⟩
      rw [Exchange.failed, relay_answered (ticked _) own pass rfl rfl rfl]
      simp [Relay.step, stands here stage own, Stage.relay]
  | @body id item now' request tee later here stage =>
      have silent := tee.poll_silent id (σ.tick now'.instant).store item now'
      exact passing.turn (ticked _) here (.quiet silent rfl (fun _ h => by cases h) fun h => h)
        (fun _ => rfl) fun own _ _ =>
          ⟨trivial, .untold rfl (relay_still (ticked _) here own silent rfl (stage ▸ rfl))⟩
  | @disconnect id request outcome here hangs =>
      obtain ⟨silent, done, -, none⟩ := hangUp_gone hangs
      refine passing.turn now here (hangUp_spends hangs)
        (fun theirs => by simp [Event.relay, theirs]) fun own _ _ =>
          ⟨done ▸ trivial, .told (e := .disconnect id) (by simp [Event.relay, own]) ?_⟩
      rw [relay_moved now own request.req silent none, done]
      simp [Relay.step, stands here rfl own, Stage.relay]
  | @refreshed id head now' task later here stage =>
      exact ⟨passing.aside (by rfl), .untold rfl (relay_aside ⟨rfl, rfl, _, rfl,
        task.refresh_silent id (σ.tick now'.instant).store head now'⟩)⟩
  | @refreshFailed id task here stage =>
      exact ⟨passing.aside rfl, .untold rfl (relay_aside ⟨rfl, rfl, _, rfl, List.filter_nil⟩)⟩
  | @refreshBody id body now' task storing head later here stage =>
      exact ⟨passing.aside (by rfl), .untold rfl (relay_aside ⟨rfl, rfl, _, rfl,
        Task.collected_silent id (σ.tick now'.instant).store storing head body now'⟩)⟩
  | insertAsset | evictIndex | evictEntry => exact ⟨passing.aside rfl, .untold rfl rfl⟩

/-! ## Whole runs -/

/-- A request is there from its arrival on. -/
theorem arrived_asked {events : List Event}
    (hrun : Runs.run (step base) (World.start sizeMb ttl) events = some σ) {id : Nat}
    {req : HttpRequest} (there : .arrive id req ∈ events) :
    σ.asked (.request id) = some req := by
  refine (Runs.invariant_history (I := fun events σ => Unspawned σ ∧ ∀ id req,
    .arrive id req ∈ events → σ.asked (.request id) = some req)
    ⟨.start sizeMb ttl, fun _ _ h => by cases h⟩ ?_ hrun).2 id req there
  rintro before event middle next - ⟨unspawned, asked⟩ h
  obtain ⟨-, happens⟩ := happens_of_step h
  refine ⟨unspawned.step happens, fun id req there => ?_⟩
  obtain earlier | last := List.mem_append.mp there
  · exact happens.asked unspawned (asked id req earlier)
  · obtain rfl := List.mem_singleton.mp last
    cases happens with
    | arrive => simp [World.asked, World.settle]

/-- Without a store there is nothing to revalidate. -/
theorem no_tasks {events : List Event} (disabled : (Store.new sizeMb ttl).enabled = false)
    (hrun : Runs.run (step base) (World.start sizeMb ttl) events = some σ) : σ.spawned = 0 := by
  refine Runs.invariant_history (I := fun _ σ => σ.spawned = 0) rfl ?_ hrun
  rintro before event σ₁ σ₂ hbefore none h
  have empty := (kept_run hbefore).2.empty disabled
  cases (step_cases h).2 with
  | arrive | insertAsset | evictIndex | evictEntry => exact none
  | join =>
      cases (joinFlight _ _ _).1 <;> exact none
  | task time => rcases time with rfl | ⟨now, -, rfl⟩ <;> exact none
  | @request σ₀ id request outcome time here moves =>
      have same : σ₀.spawned = σ₁.spawned ∧ σ₀.store.index = σ₁.store.index := by
        rcases time with rfl | ⟨now, -, rfl⟩ <;> exact ⟨rfl, rfl⟩
      show σ₀.spawned + outcome.spawned.toList.length = 0
      cases spawned : outcome.spawned with
      | none => exact same.1.trans none
      | some pair =>
          obtain ⟨index, known, -⟩ := Store.find_eq_some.mp (moves.found.2 _ _ spawned).1.found
          rw [same.2, empty.index] at known
          cases known

omit [UriSyntax] [HttpDate] in
theorem relay_start (mine : Nat → Bool) :
    (World.start sizeMb ttl).relay (passes sizeMb ttl) mine = .start := by
  have nobody : ((World.start sizeMb ttl).relay (passes sizeMb ttl) mine).requests =
      fun _ => none := by
    funext id
    exact ite_self none
  exact congrArg (Relay.mk · [] []) nobody

/-- The relay's run, for requests that are known to pass by. -/
theorem relay_run {events : List Event} (known : ∀ event ∈ events, ∀ id req,
      event = .arrive id req → mine id = passes sizeMb ttl req)
    (hrun : Runs.run (step base) (World.start sizeMb ttl) events = some σ) :
    Runs.run (Relay.step base) .start (events.filterMap (Event.relay mine)) =
      some (σ.relay (passes sizeMb ttl) mine) := by
  have start : (Kept (World.start sizeMb ttl) ∧ Configured sizeMb ttl (World.start sizeMb ttl)) ∧
      Passing sizeMb ttl mine (World.start sizeMb ttl) :=
    ⟨⟨kept_start sizeMb ttl, rfl, rfl, fun _ => ⟨fun _ => rfl, fun _ => rfl⟩⟩,
      fun _ _ h => (by cases h), fun _ _ h => (by cases h)⟩
  rw [← relay_start mine]
  refine Runs.projected_run (relay (passes sizeMb ttl) mine) (Event.relay mine)
    (I := fun σ => (Kept σ ∧ Configured sizeMb ttl σ) ∧ Passing sizeMb ttl mine σ)
    (Q := fun event => ∀ id req, event = .arrive id req → mine id = passes sizeMb ttl req)
    ?_ ?_ start known hrun
  · rintro σ₁ event σ₂ ⟨⟨kept, configured⟩, passing⟩ known h
    have change := (step_cases h).2
    exact ⟨⟨kept.step change, configured.step kept change⟩,
      ((happens_of_step h).2.relay configured passing known).1⟩
  · rintro σ₁ event σ₂ ⟨⟨-, configured⟩, passing⟩ known h
    exact ((happens_of_step h).2.relay configured passing known).2

/-- In every run the requests that no stored response may answer, and all of
them when the store keeps nothing, are treated as by a proxy without a cache:
what they send to the origin and what they are answered, in order, is what that
proxy does on their own events. -/
theorem passing_is_relayed {events : List Event}
    (hrun : Runs.run (step base) (World.start sizeMb ttl) events = some σ) :
    Runs.run (Relay.step base) .start
        (events.filterMap (Event.relay (σ.passing (passes sizeMb ttl)))) =
      some (σ.relay (passes sizeMb ttl) (σ.passing (passes sizeMb ttl))) ∧
    ((Store.new sizeMb ttl).enabled = false → σ.spawned = 0) := by
  refine ⟨relay_run (fun event there id req arrives => ?_) hrun,
    fun disabled => no_tasks disabled hrun⟩
  subst arrives
  obtain ⟨request, here, same⟩ := Option.map_eq_some_iff.mp (arrived_asked hrun there)
  rw [passing, here, Option.any_some, same]

end

/-- A request that asks for no stored response. -/
def uncachedRequest : HttpRequest :=
  germanRequest [(header.cacheControl, ⟨ascii "no-cache", by decide⟩)]

/-- It is answered while another one misses. -/
def besideMissEvents : List Event :=
  [.arrive 0 (germanRequest []), .look 0 exampleClock, .arrive 1 uncachedRequest,
    .look 1 exampleClock, .join 0, .join 1, .prepare 1 .ready, .look 0 exampleClock,
    .answered 1 ⟨.ok, []⟩ exampleClock]

theorem passing_is_relayed_example : ∃ (_ : HttpDate) (_ : UriSyntax) (σ : World),
    Runs.run (step exampleOrigin) (World.start 1 (Duration.fromSecs 300)) besideMissEvents =
        some σ ∧
      passes 1 (Duration.fromSecs 300) uncachedRequest = true ∧ σ.answers.length = 1 ∧
      Runs.run (Relay.step exampleOrigin) .start
          (besideMissEvents.filterMap
            (Event.relay (σ.passing (passes 1 (Duration.fromSecs 300))))) =
        some (σ.relay (passes 1 (Duration.fromSecs 300))
          (σ.passing (passes 1 (Duration.fromSecs 300)))) := by
  let dates : HttpDate := ⟨fun _ => none⟩
  let uris : UriSyntax := ⟨fun _ => true, fun _ => true⟩
  have evaluated : ((Runs.run (step exampleOrigin) (World.start 1 (Duration.fromSecs 300))
      besideMissEvents).map fun σ => σ.answers.length) = some 1 := by
    decide +kernel
  obtain ⟨σ, hrun, one⟩ := Option.map_eq_some_iff.mp evaluated
  exact ⟨dates, uris, σ, hrun, by decide +kernel, one, (passing_is_relayed hrun).1⟩

end World

end Shadowstep
