import Shadowstep.Proxy.Allowed
import Shadowstep.Proxy.Assets

/-!
# What `/health` counts

`health_check` adds up counters of two kinds: `observe` counts every response
once, by its `X-Shadowstep-Cache` value, and `revalidation` counts every 304
that freshens a stored response, in the foreground or in the background. The
304 of a background task belongs to no response.

* `Metrics` — the counters that `cache_counts` reads, and who counts;
* `Counted` — the proxy, asset requests and the counters;
* `Tallied` — what each counter has counted in a run;
* `health_counts_once_iff` — when `/health` counts each response once.
-/

namespace Shadowstep

open Rust

/-! ## Counters -/

/-- The handler a request reached. -/
inductive Route where
  | proxy
  | asset
deriving DecidableEq

def statusClass (status : StatusCode) : Text :=
  match status.code / 100 with
  | 1 => "1xx".toList
  | 2 => "2xx".toList
  | 3 => "3xx".toList
  | 4 => "4xx".toList
  | 5 => "5xx".toList
  | _ => "other".toList

/-- The counters behind `cache_counts`, and `responses`, which `observe`
counts too. -/
structure Metrics where
  requests : Route → CacheStatus → UInt64
  responses : Route → Text → UInt64
  revalidations : UInt64
  backgroundRefreshes : UInt64

/-- The counts `/health` reports. -/
structure CacheCounts where
  hits : UInt64
  misses : UInt64
  revalidations : UInt64
  stale : UInt64
  coalesced : UInt64
  backgroundRefreshes : UInt64

namespace Metrics

def new : Metrics := ⟨fun _ _ => 0, fun _ _ => 0, 0, 0⟩

/-- Counts a response to a proxied or asset request. -/
def observe (metrics : Metrics) (route : Route) (cache : CacheStatus) (status : StatusCode) :
    Metrics :=
  { metrics with
    requests := fun r c => metrics.requests r c + if r = route ∧ c = cache then 1 else 0
    responses := fun r c =>
      metrics.responses r c + if r = route ∧ c = statusClass status then 1 else 0 }

/-- A 304 that freshened a stored response, in the foreground or the
background. -/
def revalidation (metrics : Metrics) : Metrics :=
  { metrics with revalidations := metrics.revalidations + 1 }

def backgroundRefresh (metrics : Metrics) : Metrics :=
  { metrics with backgroundRefreshes := metrics.backgroundRefreshes + 1 }

def bothRoutes (metrics : Metrics) (cache : CacheStatus) : UInt64 :=
  metrics.requests .proxy cache + metrics.requests .asset cache

/-- The counts for `/health`. Its misses are the responses that came from the
origin, bypass or not, and asset misses. -/
def cacheCounts (metrics : Metrics) : CacheCounts where
  hits := metrics.bothRoutes .hit
  misses := metrics.bothRoutes .miss + metrics.requests .proxy .bypass
  revalidations := metrics.revalidations
  stale := metrics.bothRoutes .stale
  coalesced := metrics.bothRoutes .coalesced
  backgroundRefreshes := metrics.backgroundRefreshes

end Metrics

/-- The share of responses whose body came from the cache: `hit_ratio`'s
numerator. -/
def CacheCounts.fromCache (counts : CacheCounts) : UInt64 :=
  counts.hits + counts.revalidations + counts.stale + counts.coalesced

/-- `hit_ratio`'s denominator. -/
def CacheCounts.total (counts : CacheCounts) : UInt64 := counts.fromCache + counts.misses

/-! ## Who counts -/

/-- How `forward_to_upstream` counts a response. An error carries no
`X-Shadowstep-Cache`, and counts as a miss. -/
def requestLabel (given : Given) : CacheStatus :=
  if (RequestPolicy.new given.req.method given.req.headers).bypassesCache then .bypass
  else (cacheLabel given.response).getD .miss

/-- How `serve_asset` counts a response. -/
def assetLabel (given : AssetGiven) : CacheStatus := (cacheLabel given.response).getD .bypass

def Cause.isRevalidated : Cause → Bool
  | .revalidated _ => true
  | _ => false

/-- Whether an answer is a stored response. -/
def Cause.fromCache : Cause → Bool
  | .fresh .. | .whileRevalidating _ | .onError .. | .revalidated _ => true
  | .forwarded | .failed => false

/-- The counting of `forward_to_upstream`, and before it of
`Exchange::revalidated` where that made the answer. -/
def Metrics.forwarded (metrics : Metrics) (given : Given) : Metrics :=
  let counted := if given.cause.isRevalidated then metrics.revalidation else metrics
  counted.observe .proxy (requestLabel given) given.response.status

def Metrics.served (metrics : Metrics) (given : AssetGiven) : Metrics :=
  metrics.observe .asset (assetLabel given) given.response.status

/-- The origin answers a background task with a 304. -/
def background304 : World.Event → Bool
  | .refreshed _ head _ => head.status = .notModified
  | _ => false

/-! ## The machine -/

/-- The proxy, its asset requests and its counters. -/
structure Counted where
  world : World
  metrics : Metrics
  assets : Nat → Option (AssetRequest × AssetStage)
  /-- the answers to asset requests -/
  served : List AssetGiven

namespace Counted

inductive Event where
  | proxy (event : World.Event)
  | assetArrive (id : Nat) (request : AssetRequest)
  | asset (id : Nat) (step : AssetStep)

/-- The event is a 304 to a background task. -/
def Event.background304 : Event → Bool
  | .proxy event => Shadowstep.background304 event
  | _ => false

def start (sizeMb : UInt64) (ttl : Duration) : Counted where
  world := .start sizeMb ttl
  metrics := .new
  assets := fun _ => none
  served := []

/-- The counters after a step of the proxy: a task counts its 304, the start
of a task is counted, and each answer. -/
def counting (σ : Counted) (event : World.Event) (world : World) : Metrics :=
  let revalidated :=
    if Shadowstep.background304 event then σ.metrics.revalidation else σ.metrics
  let refreshing :=
    if σ.world.spawned < world.spawned then revalidated.backgroundRefresh else revalidated
  (world.answers.drop σ.world.answers.length).foldl Metrics.forwarded refreshing

section

variable [HttpDate] [UriSyntax] [AssetCrates] (base : OriginUrl)

/-- `insert_asset`, of what has been read. -/
def storeAsset (world : World) : Option (Path × Bytes × SystemTime) → Option World
  | some (path, content, modified) =>
    World.step base world (.insertAsset path content (assetEtag content) modified)
  | none => some world

def step (σ : Counted) : Event → Option Counted
  | .proxy event => (World.step base σ.world event).map fun world =>
    { σ with world := world, metrics := σ.counting event world }
  | .assetArrive id request =>
    if σ.world.aborted || (σ.assets id).isSome then none
    else some { σ with assets := Function.update σ.assets id (some (request, .resolves)) }
  | .asset id step =>
    if σ.world.aborted then none
    else do
      let (request, stage) ← σ.assets id
      let outcome ← stage.next σ.world.store request step
      let world ← storeAsset base σ.world outcome.stores
      some
        { world := world
          metrics := outcome.answer.elim σ.metrics σ.metrics.served
          assets := Function.update σ.assets id (some (request, outcome.stage))
          served := σ.served ++ outcome.answer.toList }

end

/-! ## What should be counted -/

/-- The responses to proxied requests, and to asset requests that found a
file. -/
def responses (σ : Counted) : Nat :=
  σ.world.answers.length + σ.served.countP fun given => given.cause ≠ .missing

/-- Those of them that came from the cache. -/
def responsesFromCache (σ : Counted) : Nat :=
  (σ.world.answers.countP fun given => given.cause.fromCache) +
    σ.served.countP fun given => given.cause = .stored

/-! ## What has been counted -/

/-- Each counter, after a run with that many 304s to background tasks. -/
structure Tallied (σ : Counted) (inBackground : Nat) : Prop where
  proxy : ∀ label, σ.metrics.requests .proxy label =
    UInt64.ofNat (σ.world.answers.countP fun given => requestLabel given = label)
  asset : ∀ label, σ.metrics.requests .asset label =
    UInt64.ofNat (σ.served.countP fun given => assetLabel given = label)
  revalidations : σ.metrics.revalidations = UInt64.ofNat
    ((σ.world.answers.countP fun given => given.cause.isRevalidated) + inBackground)
  labels : ∀ given ∈ σ.served, cacheLabel given.response = given.cause.label

theorem tallied_start (sizeMb : UInt64) (ttl : Duration) : Tallied (start sizeMb ttl) 0 where
  proxy _ := rfl
  asset _ := rfl
  revalidations := rfl
  labels _ h := by cases h

end Counted

theorem Metrics.forwarded_requests (metrics : Metrics) (given : Given) (label : CacheStatus) :
    (metrics.forwarded given).requests .proxy label =
        metrics.requests .proxy label + (if requestLabel given = label then 1 else 0) ∧
      (metrics.forwarded given).requests .asset label = metrics.requests .asset label ∧
      (metrics.forwarded given).revalidations =
        metrics.revalidations + (if given.cause.isRevalidated then 1 else 0) := by
  cases revalidated : given.cause.isRevalidated <;>
    simp [forwarded, observe, revalidation, revalidated, eq_comm]

/-- One more of them. -/
theorem ofNat_countP_cons {α : Type} (p : α → Bool) (x : α) (list : List α) (n : UInt64) :
    n + (if p x then 1 else 0) + UInt64.ofNat (list.countP p) =
      n + UInt64.ofNat ((x :: list).countP p) := by
  rw [List.countP_cons, UInt64.ofNat_add, UInt64.add_assoc, UInt64.add_comm (if p x then 1 else 0)]
  cases p x <;> rfl

/-- Every answer is counted once. -/
theorem Metrics.foldl_forwarded (metrics : Metrics) (answers : List Given) :
    (∀ label, (answers.foldl forwarded metrics).requests .proxy label =
        metrics.requests .proxy label +
          UInt64.ofNat (answers.countP fun given => requestLabel given = label)) ∧
      (∀ label, (answers.foldl forwarded metrics).requests .asset label =
        metrics.requests .asset label) ∧
      (answers.foldl forwarded metrics).revalidations = metrics.revalidations +
        UInt64.ofNat (answers.countP fun given => given.cause.isRevalidated) := by
  induction answers generalizing metrics with
  | nil => exact ⟨fun _ => (UInt64.add_zero _).symm, fun _ => rfl, (UInt64.add_zero _).symm⟩
  | cons given rest ih =>
    rcases ih (metrics.forwarded given) with ⟨proxy, asset, revalidations⟩
    have counted := metrics.forwarded_requests given
    refine ⟨fun label => ?_, fun label => ?_, ?_⟩
    · rw [List.foldl_cons, proxy, (counted label).1, ← ofNat_countP_cons]
      simp only [decide_eq_true_eq]
    · rw [List.foldl_cons, asset, (counted label).2.1]
    · rw [List.foldl_cons, revalidations, (counted .hit).2.2, ← ofNat_countP_cons]

theorem World.answers_step [HttpDate] [UriSyntax] {base : OriginUrl} {σ σ' : World}
    {event : World.Event} (h : World.step base σ event = some σ') :
    ∃ new, σ'.answers = σ.answers ++ new := by
  have unchanged : ∃ new, σ.answers = σ.answers ++ new := ⟨[], (List.append_nil _).symm⟩
  cases (World.step_cases h).2 with
  | request time =>
    rcases time with rfl | ⟨_, -, rfl⟩
    · exact ⟨_, rfl⟩
    · exact ⟨_, rfl⟩
  | task time =>
    rcases time with rfl | ⟨_, -, rfl⟩
    · exact unchanged
    · exact unchanged
  | arrive => exact ⟨_, rfl⟩
  | join => exact ⟨_, rfl⟩
  | insertAsset => exact unchanged
  | evictIndex => exact unchanged
  | evictEntry => exact unchanged

namespace Counted

/-- The counters after a step of the proxy. -/
theorem counting_spec (σ : Counted) (event : World.Event) {world : World} {new : List Given}
    (answers : world.answers = σ.world.answers ++ new) :
    (∀ label, (σ.counting event world).requests .proxy label = σ.metrics.requests .proxy label +
        UInt64.ofNat (new.countP fun given => requestLabel given = label)) ∧
      (∀ label, (σ.counting event world).requests .asset label =
        σ.metrics.requests .asset label) ∧
      (σ.counting event world).revalidations = σ.metrics.revalidations +
        (if Shadowstep.background304 event then 1 else 0) +
        UInt64.ofNat (new.countP fun given => given.cause.isRevalidated) := by
  have fresh : world.answers.drop σ.world.answers.length = new := by
    rw [answers, List.drop_left]
  unfold counting
  rw [fresh]
  cases inBackground : Shadowstep.background304 event <;>
    by_cases spawned : σ.world.spawned < world.spawned <;>
    simp [spawned, Metrics.foldl_forwarded, Metrics.revalidation, Metrics.backgroundRefresh]

/-- A step for an asset request, or its arrival. -/
structure AssetStepped (σ σ' : Counted) (given : Option AssetGiven) : Prop where
  answers : σ'.world.answers = σ.world.answers
  metrics : σ'.metrics = given.elim σ.metrics σ.metrics.served
  served : σ'.served = σ.served ++ given.toList
  label : ∀ g, given = some g → cacheLabel g.response = g.cause.label

section

variable [HttpDate] [UriSyntax] [AssetCrates] {base : OriginUrl}

/-- Storing an asset is at most one step of the proxy, and answers nothing. -/
theorem storeAsset_spec {world world' : World} {stores : Option (Path × Bytes × SystemTime)}
    (h : storeAsset base world stores = some world') :
    world'.answers = world.answers ∧
      (world' = world ∨ ∃ event, World.step base world event = some world') := by
  cases stores with
  | none =>
    obtain rfl := Option.some.inj h
    exact ⟨rfl, .inl rfl⟩
  | some stored =>
    rcases stored with ⟨path, content, modified⟩
    refine ⟨?_, .inr ⟨.insertAsset path content (assetEtag content) modified, h⟩⟩
    simp only [storeAsset, World.step] at h
    split at h
    · cases h
    · obtain rfl := Option.some.inj h
      rfl

/-- What a step is. Either way it is at most one step of the proxy. -/
theorem step_cases {σ σ' : Counted} {event : Event} (h : step base σ event = some σ') :
    (σ'.world = σ.world ∨ ∃ worldEvent, World.step base σ.world worldEvent = some σ'.world) ∧
      ((∃ worldEvent, event = .proxy worldEvent ∧
          World.step base σ.world worldEvent = some σ'.world ∧
          σ'.metrics = σ.counting worldEvent σ'.world ∧ σ'.served = σ.served) ∨
        event.background304 = false ∧ ∃ given, AssetStepped σ σ' given) := by
  cases event with
  | proxy worldEvent =>
    rcases Option.map_eq_some_iff.mp h with ⟨world, hworld, rfl⟩
    exact ⟨.inr ⟨worldEvent, hworld⟩, .inl ⟨worldEvent, rfl, hworld, rfl, rfl⟩⟩
  | assetArrive id request =>
    simp only [step] at h
    split at h
    case isTrue => cases h
    case isFalse =>
      obtain rfl := Option.some.inj h
      exact ⟨.inl rfl, .inr ⟨rfl, none, rfl, rfl, (List.append_nil _).symm, fun _ h => by cases h⟩⟩
  | asset id assetStep =>
    simp only [step] at h
    split at h
    case isTrue => cases h
    case isFalse =>
      rcases Option.bind_eq_some_iff.mp h with ⟨⟨request, stage⟩, -, h⟩
      rcases Option.bind_eq_some_iff.mp h with ⟨outcome, next, h⟩
      rcases Option.bind_eq_some_iff.mp h with ⟨world, hworld, h⟩
      obtain rfl := Option.some.inj h
      rcases storeAsset_spec hworld with ⟨answers, steps⟩
      exact ⟨steps, .inr ⟨rfl, outcome.answer, answers, rfl, rfl, fun _ answered =>
        AssetStage.next_label next answered⟩⟩

omit [HttpDate] [UriSyntax] [AssetCrates] in
/-- An asset request counts its answer, and nothing else. -/
theorem Tallied.asset_step {σ σ' : Counted} {given : Option AssetGiven} {inBackground : Nat}
    (tallied : Tallied σ inBackground) (asset : AssetStepped σ σ' given) :
    Tallied σ' inBackground := by
  cases given with
  | none =>
    constructor
    · intro label
      rw [asset.metrics, asset.answers]
      exact tallied.proxy label
    · intro label
      rw [asset.metrics, asset.served, Option.toList_none, List.append_nil]
      exact tallied.asset label
    · rw [asset.metrics, asset.answers]
      exact tallied.revalidations
    · rw [asset.served, Option.toList_none, List.append_nil]
      exact tallied.labels
  | some given =>
    constructor
    · intro label
      rw [asset.metrics, asset.answers, ← tallied.proxy label]
      simp [Metrics.served, Metrics.observe]
    · intro label
      have counted : σ'.metrics.requests .asset label = σ.metrics.requests .asset label +
          if assetLabel given = label then 1 else 0 := by
        rw [asset.metrics]
        simp [Metrics.served, Metrics.observe, eq_comm]
      rw [counted, tallied.asset, asset.served, Option.toList_some, List.countP_append,
        UInt64.ofNat_add, List.countP_singleton]
      simp only [decide_eq_true_eq]
      split <;> rfl
    · rw [asset.metrics, asset.answers]
      exact tallied.revalidations
    · intro other member
      rw [asset.served] at member
      rcases List.mem_append.mp member with before | new
      · exact tallied.labels other before
      · exact asset.label other (congrArg some (List.mem_singleton.mp new).symm)

theorem Tallied.step {σ σ' : Counted} {event : Event} {inBackground : Nat}
    (tallied : Tallied σ inBackground) (h : Counted.step base σ event = some σ') :
    Tallied σ' (inBackground + if event.background304 then 1 else 0) := by
  rcases (step_cases h).2 with ⟨worldEvent, rfl, hworld, metrics, served⟩ | ⟨other, given, asset⟩
  · -- the answers that are new in this step are counted in it
    rcases World.answers_step hworld with ⟨new, answers⟩
    rcases σ.counting_spec worldEvent answers with ⟨proxy, assets, revalidations⟩
    constructor
    · intro label
      rw [metrics, proxy, tallied.proxy, answers, List.countP_append, UInt64.ofNat_add]
    · intro label
      rw [metrics, assets, tallied.asset, served]
    · rw [metrics, revalidations, tallied.revalidations, answers, List.countP_append]
      have one : UInt64.ofNat (if (Event.proxy worldEvent).background304 then 1 else 0) =
          if Shadowstep.background304 worldEvent then 1 else 0 := by
        show UInt64.ofNat (if Shadowstep.background304 worldEvent then 1 else 0) = _
        split <;> rfl
      simp only [UInt64.ofNat_add, one]
      ac_rfl
    · rw [served]
      exact tallied.labels
  · rw [other]
    exact tallied.asset_step asset

theorem tallied_run {σ σ' : Counted} {events : List Event} {inBackground : Nat}
    (tallied : Tallied σ inBackground)
    (run : Runs.run (Counted.step base) σ events = some σ') :
    Tallied σ' (inBackground + events.countP Event.background304) := by
  induction events generalizing σ inBackground with
  | nil =>
    obtain rfl := Option.some.inj run
    exact tallied
  | cons event rest ih =>
    rcases Runs.run_cons.mp run with ⟨next, h, hrest⟩
    have later := ih (tallied.step h) hrest
    have order : inBackground + (event :: rest).countP Event.background304 =
        inBackground + (if event.background304 then 1 else 0) +
          rest.countP Event.background304 := by
      rw [List.countP_cons]
      omega
    rwa [order]

/-- Every proxied answer of a run kept to its rules. -/
theorem obeys_run {sizeMb : UInt64} {ttl : Duration} {events : List Event} {σ : Counted}
    (run : Runs.run (Counted.step base) (start sizeMb ttl) events = some σ) :
    World.Obeys σ.world := by
  have both : World.Kept σ.world ∧ World.Obeys σ.world := by
    refine Runs.invariant_run (I := fun σ : Counted => World.Kept σ.world ∧ World.Obeys σ.world)
      ?_ ⟨World.kept_start sizeMb ttl, World.obeys_start sizeMb ttl⟩ run
    rintro σ event σ' ⟨kept, obeys⟩ h
    rcases (step_cases h).1 with same | ⟨worldEvent, hworld⟩
    · rw [same]
      exact ⟨kept, obeys⟩
    · have change := (World.step_cases hworld).2
      exact ⟨kept.step change, obeys.step kept change⟩
  exact both.2

end

end Counted

/-! ## Labels -/

/-- Whether a response with this value is a stored one. -/
def CacheStatus.fromCache : CacheStatus → Bool
  | .hit | .revalidated | .stale | .coalesced => true
  | .miss | .bypass => false

/-- What the label of an answer says of its cause. -/
structure Tells (given : Given) : Prop where
  revalidated : given.cause.isRevalidated = decide (requestLabel given = .revalidated)
  fromCache : given.cause.fromCache = (requestLabel given).fromCache

theorem tells_of {given : Given} {label : CacheStatus} (h : requestLabel given = label)
    (revalidated : given.cause.isRevalidated = decide (label = .revalidated))
    (fromCache : given.cause.fromCache = label.fromCache) : Tells given := by
  rw [← h] at revalidated fromCache
  exact ⟨revalidated, fromCache⟩

theorem Allowed.tells [HttpDate] {cap : Duration} {log : List Effect} {given : Given}
    (allowed : Allowed cap log given) : Tells given := by
  rcases given with ⟨id, req, now, cause, response⟩
  have stored {status : CacheStatus} (servable : Servable req.method req.headers)
      (label : cacheLabel response = some status) :
      requestLabel ⟨id, req, now, cause, response⟩ = status := by
    simp [requestLabel, servable.bypassesCache, label]
  have origin (label : (cacheLabel response).getD .miss = .miss) :
      requestLabel ⟨id, req, now, cause, response⟩ = .miss ∨
        requestLabel ⟨id, req, now, cause, response⟩ = .bypass := by
    simp only [requestLabel, label]
    split
    · exact .inr rfl
    · exact .inl rfl
  cases cause with
  | fresh arc use =>
    rcases allowed with ⟨made, actor, judged, -, fresh⟩
    have label := stored fresh.servable (cacheLabel_cachedResponse made)
    cases use with
    | hit => exact tells_of label rfl rfl
    | coalesced => exact tells_of label rfl rfl
  | whileRevalidating arc =>
    rcases allowed with ⟨made, actor, judged, -, stale⟩
    exact tells_of (stored stale.servable (cacheLabel_cachedResponse made)) rfl rfl
  | onError arc status =>
    rcases allowed with ⟨made, -, actor, judged, -, stale⟩
    exact tells_of (stored stale.servable (cacheLabel_cachedResponse made)) rfl rfl
  | revalidated fresh =>
    rcases allowed with ⟨made, revalidated⟩
    exact tells_of (stored revalidated.servable (cacheLabel_cachedResponse made)) rfl rfl
  | forwarded =>
    have label : cacheLabel response = some .miss := allowed
    rcases origin (by rw [label]; rfl) with miss | bypass
    · exact tells_of miss rfl rfl
    · exact tells_of bypass rfl rfl
  | failed =>
    have label : cacheLabel response = none := allowed
    rcases origin (by rw [label]; rfl) with miss | bypass
    · exact tells_of miss rfl rfl
    · exact tells_of bypass rfl rfl

/-! ## Sums -/

/-- Every answer has one label. -/
theorem countP_labels {α : Type} (label : α → CacheStatus) (list : List α) :
    list.countP (label · = .hit) + list.countP (label · = .revalidated) +
        list.countP (label · = .stale) + list.countP (label · = .coalesced) =
      (list.countP fun x => (label x).fromCache) ∧
    (list.countP fun x => (label x).fromCache) + list.countP (label · = .miss) +
        list.countP (label · = .bypass) = list.length := by
  induction list with
  | nil => exact ⟨rfl, rfl⟩
  | cons x rest ih =>
    rcases ih with ⟨cached, all⟩
    simp only [List.countP_cons, List.length_cons]
    generalize (rest.countP fun x => (label x).fromCache) = tail at cached all ⊢
    cases label x <;> simp only [reduceCtorEq, decide_false, decide_true, CacheStatus.fromCache,
      if_true, Bool.false_eq_true, if_false] <;> omega

namespace Counted

/-- What the counts of asset requests come to. -/
theorem asset_counts {served : List AssetGiven}
    (labels : ∀ given ∈ served, cacheLabel given.response = given.cause.label) :
    served.countP (assetLabel · = .hit) = (served.countP fun given => given.cause = .stored) ∧
      served.countP (assetLabel · = .hit) + served.countP (assetLabel · = .miss) =
        (served.countP fun given => given.cause ≠ .missing) ∧
      served.countP (assetLabel · = .stale) = 0 ∧
      served.countP (assetLabel · = .coalesced) = 0 := by
  induction served with
  | nil => exact ⟨rfl, rfl, rfl, rfl⟩
  | cons given rest ih =>
    rcases ih fun other member => labels other (List.mem_cons_of_mem _ member) with
      ⟨stored, found, stale, coalesced⟩
    have label : assetLabel given = given.cause.label.getD .bypass := by
      rw [assetLabel, labels given List.mem_cons_self]
    simp only [List.countP_cons, label, stale, coalesced]
    generalize (rest.countP fun given => given.cause ≠ .missing) = tail at found ⊢
    cases given.cause <;> simp only [AssetCause.label, Option.getD_none, Option.getD_some,
      reduceCtorEq, decide_false, decide_true, if_true, Bool.false_eq_true, if_false, ne_eq,
      not_true, not_false_eq_true, and_true] <;> omega

/-- What `/health` adds up, in a run with that many 304s to background tasks. -/
theorem Tallied.sums [HttpDate] {σ : Counted} {inBackground : Nat}
    (tallied : Tallied σ inBackground) (tells : ∀ given ∈ σ.world.answers, Tells given) :
    σ.metrics.cacheCounts.fromCache = UInt64.ofNat (σ.responsesFromCache + inBackground) ∧
      σ.metrics.cacheCounts.total = UInt64.ofNat (σ.responses + inBackground) := by
  have revalidated : (σ.world.answers.countP fun given => given.cause.isRevalidated) =
      σ.world.answers.countP (requestLabel · = .revalidated) :=
    List.countP_congr fun given member => by rw [(tells given member).revalidated]
  have cached : (σ.world.answers.countP fun given => given.cause.fromCache) =
      σ.world.answers.countP fun given => (requestLabel given).fromCache :=
    List.countP_congr fun given member => by rw [(tells given member).fromCache]
  rcases countP_labels requestLabel σ.world.answers with ⟨fromCache, all⟩
  rcases asset_counts tallied.labels with ⟨stored, found, stale, coalesced⟩
  have numerator : σ.metrics.cacheCounts.fromCache =
      UInt64.ofNat (σ.responsesFromCache + inBackground) := by
    simp only [CacheCounts.fromCache, Metrics.cacheCounts, Metrics.bothRoutes, tallied.proxy,
      tallied.asset, tallied.revalidations, ← UInt64.ofNat_add, responsesFromCache]
    congr 1
    omega
  refine ⟨numerator, ?_⟩
  rw [CacheCounts.total, numerator]
  simp only [Metrics.cacheCounts, Metrics.bothRoutes, tallied.proxy, tallied.asset,
    ← UInt64.ofNat_add, responsesFromCache, responses]
  congr 1
  omega

theorem responsesFromCache_le (σ : Counted) : σ.responsesFromCache ≤ σ.responses := by
  have found : (σ.served.countP fun given => given.cause = .stored) ≤
      σ.served.countP fun given => given.cause ≠ .missing :=
    List.countP_mono_left fun given _ stored => by
      rw [of_decide_eq_true stored]
      rfl
  exact Nat.add_le_add List.countP_le_length found

/-- The ratio of `/health` is of responses, each counted once, exactly in the
runs without a 304 to a background task (or with a multiple of 2^64 of them,
where the counter is back), and until the counters wrap. -/
theorem health_counts_once_iff [HttpDate] [UriSyntax] [AssetCrates] {base : OriginUrl}
    {sizeMb : UInt64} {ttl : Duration} {events : List Event} {σ : Counted}
    (run : Runs.run (step base) (start sizeMb ttl) events = some σ) :
    (σ.metrics.cacheCounts.total.toNat = σ.responses ∧
        σ.metrics.cacheCounts.fromCache.toNat = σ.responsesFromCache) ↔
      2 ^ 64 ∣ events.countP Event.background304 ∧ σ.responses < 2 ^ 64 := by
  have tallied := tallied_run (tallied_start sizeMb ttl) run
  have tells : ∀ given ∈ σ.world.answers, Tells given :=
    fun given member => ((obeys_run run).answers given member).tells
  rcases tallied.sums tells with ⟨fromCache, total⟩
  rw [fromCache, total, UInt64.toNat_ofNat', UInt64.toNat_ofNat', Nat.zero_add]
  have le := σ.responsesFromCache_le
  generalize events.countP Event.background304 = inBackground
  omega

/-! ## A 304 that belongs to no response -/

/-- A minute of freshness, and another in which it may be served stale. -/
def staleMinute : HeaderMap :=
  [(header.cacheControl, ⟨ascii "max-age=60, stale-while-revalidate=60", by decide⟩)]

/-- A page is stored, and answers a second request when it is stale. -/
def staleEvents : List Event :=
  (World.missEvents ⟨.ok, staleMinute⟩).map .proxy ++
    [.proxy (.arrive 1 (germanRequest [])), .proxy (.look 1 nextMinute)]

theorem health_counts_once_iff_example : ∃ (_ : HttpDate) (_ : UriSyntax) (_ : AssetCrates)
    (σ : Counted),
    Runs.run (step exampleOrigin) (start 1 (Duration.fromSecs 300)) staleEvents = some σ ∧
      σ.responses = 2 ∧ σ.metrics.cacheCounts.total.toNat = σ.responses ∧
      σ.metrics.cacheCounts.fromCache.toNat = σ.responsesFromCache := by
  let dates : HttpDate := ⟨fun _ => none⟩
  let uris : UriSyntax := ⟨fun _ => true, fun _ => true⟩
  let crates : AssetCrates := ⟨fun _ => [], fun _ => []⟩
  have counted : (Runs.run (step exampleOrigin) (start 1 (Duration.fromSecs 300))
      staleEvents).map responses = some 2 := by decide +kernel
  rcases Option.map_eq_some_iff.mp counted with ⟨σ, run, two⟩
  refine ⟨dates, uris, crates, σ, run, two, (health_counts_once_iff run).mpr ⟨?_, ?_⟩⟩
  · decide
  · rw [two]
    decide

/-- What `/health` has counted, and what there was to count. -/
def healthAndResponses (σ : Counted) : UInt64 × Nat × UInt64 × Nat :=
  (σ.metrics.cacheCounts.total, σ.responses, σ.metrics.cacheCounts.fromCache,
    σ.responsesFromCache)

/-- The background 304 is a third response to `/health`, of which there were
two. -/
theorem background_304_is_counted : ∃ (_ : HttpDate) (_ : UriSyntax) (_ : AssetCrates)
    (σ : Counted),
    Runs.run (step exampleOrigin) (start 1 (Duration.fromSecs 300))
        (staleEvents ++ [.proxy (.refreshed 0 ⟨.notModified, []⟩ nextMinute)]) = some σ ∧
      σ.metrics.cacheCounts.total = 3 ∧ σ.responses = 2 ∧
      σ.metrics.cacheCounts.fromCache = 2 ∧ σ.responsesFromCache = 1 := by
  let dates : HttpDate := ⟨fun _ => none⟩
  let uris : UriSyntax := ⟨fun _ => true, fun _ => true⟩
  let crates : AssetCrates := ⟨fun _ => [], fun _ => []⟩
  have counted : (Runs.run (step exampleOrigin) (start 1 (Duration.fromSecs 300))
      (staleEvents ++ [.proxy (.refreshed 0 ⟨.notModified, []⟩ nextMinute)])).map
        healthAndResponses = some (3, 2, 2, 1) := by decide +kernel
  rcases Option.map_eq_some_iff.mp counted with ⟨σ, run, same⟩
  simp only [healthAndResponses, Prod.mk.injEq] at same
  exact ⟨dates, uris, crates, σ, run, same⟩

end Counted

end Shadowstep
