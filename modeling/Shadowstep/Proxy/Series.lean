import Shadowstep.Proxy.Health

/-!
# What `/metrics` exports

A counter of `prometheus` is a vector of series, one for each list of label
values that somebody has asked for. `initialise_series` asks for all that are
expected, so that a rate sees their first increment. To read a counter is to
ask for its series too, and `cache_counts` reads the asset counters of two
labels that no asset has.

* `Series` — the labelled counters, and who counts;
* `Exported` — the proxy, asset requests and the labelled counters;
* `Series.Agrees` — the vectors hold what `Metrics` says;
* `Exported.exported_series` — which series there are, and what they say.
-/

namespace Shadowstep

open Rust

/-! ## Vectors -/

/-- `IntCounterVec`: a counter for each list of label values that has been
asked for. -/
abbrev CounterVec := List Text → Option UInt64

namespace CounterVec

def empty : CounterVec := fun _ => none

/-- `with_label_values`, which makes a new series start at 0. -/
def withLabelValues (vec : CounterVec) (labels : List Text) : CounterVec :=
  Function.update vec labels (some ((vec labels).getD 0))

/-- `with_label_values` and then `inc`. -/
def inc (vec : CounterVec) (labels : List Text) : CounterVec :=
  Function.update vec labels (some ((vec labels).getD 0 + 1))

/-- `with_label_values` and then `get`. -/
def get (labels : List Text) : StateM CounterVec UInt64 := fun vec =>
  ((vec labels).getD 0, vec.withLabelValues labels)

/-- The series there are. -/
def Known (vec : CounterVec) (labels : List Text) : Prop := (vec labels).isSome = true

theorem known_withLabelValues {vec : CounterVec} {labels other : List Text} :
    (vec.withLabelValues labels).Known other ↔ other = labels ∨ vec.Known other := by
  by_cases same : other = labels <;> simp [Known, withLabelValues, same]

theorem known_inc {vec : CounterVec} {labels other : List Text} :
    (vec.inc labels).Known other ↔ other = labels ∨ vec.Known other := by
  by_cases same : other = labels <;> simp [Known, inc, same]

theorem getD_withLabelValues (vec : CounterVec) (labels other : List Text) :
    ((vec.withLabelValues labels) other).getD 0 = (vec other).getD 0 := by
  by_cases same : other = labels <;> simp [withLabelValues, same]

theorem getD_inc (vec : CounterVec) (labels other : List Text) :
    ((vec.inc labels) other).getD 0 = (vec other).getD 0 + if other = labels then 1 else 0 := by
  by_cases same : other = labels <;> simp [inc, same]

end CounterVec

/-! ## Labels -/

def Route.label : Route → Text
  | .proxy => "proxy".toList
  | .asset => "asset".toList

/-- Whether an origin request answers a client or revalidates a stale response
in the background. -/
inductive OriginKind where
  | foreground
  | background
deriving DecidableEq

def OriginKind.label : OriginKind → Text
  | .foreground => "foreground".toList
  | .background => "background".toList

/-- Why an origin request ended without response headers. -/
inductive OriginFailure where
  | error
  | timeout

def OriginFailure.outcome : OriginFailure → Text
  | .error => "error".toList
  | .timeout => "timeout".toList

/-- `ASSET_CACHE_LABELS`. -/
def assetCacheLabels : List CacheStatus := [.hit, .miss, .bypass]

/-- `STATUS_CLASSES`. -/
def statusClasses : List Text :=
  ["1xx".toList, "2xx".toList, "3xx".toList, "4xx".toList, "5xx".toList]

/-- Whether an answer is the origin's. -/
def Cause.isForwarded : Cause → Bool
  | .forwarded => true
  | _ => false

/-! ## The counters -/

/-- The counters that have labels. -/
structure Series where
  requests : CounterVec
  responses : CounterVec
  originRequests : CounterVec
  originBodyIdleTimeouts : CounterVec

namespace Series

/-- `initialise_series`: each expected series, at 0. -/
def new : Series where
  requests :=
    let proxied := cacheLabels.foldl
      (fun vec cache => vec.withLabelValues [Route.proxy.label, cache.value.text]) .empty
    assetCacheLabels.foldl
      (fun vec cache => vec.withLabelValues [Route.asset.label, cache.value.text]) proxied
  responses := [Route.proxy, Route.asset].foldl (fun vec route => statusClasses.foldl
    (fun vec status => vec.withLabelValues [route.label, status]) vec) .empty
  originRequests := [OriginKind.foreground, OriginKind.background].foldl (fun vec kind =>
    (statusClasses ++ ["error".toList, "timeout".toList]).foldl
      (fun vec outcome => vec.withLabelValues [kind.label, outcome]) vec) .empty
  originBodyIdleTimeouts := [OriginKind.foreground, OriginKind.background].foldl
    (fun vec kind => vec.withLabelValues [kind.label]) .empty

/-- Counts a response to a proxied or asset request. -/
def observe (series : Series) (route : Route) (cache : CacheStatus) (status : StatusCode) :
    Series :=
  { series with
    requests := series.requests.inc [route.label, cache.value.text]
    responses := series.responses.inc [route.label, statusClass status] }

/-- Counts an origin request whose response headers arrived. -/
def originResponded (series : Series) (kind : OriginKind) (status : StatusCode) : Series :=
  { series with originRequests := series.originRequests.inc [kind.label, statusClass status] }

/-- Counts an origin request that ended without response headers. -/
def originFailed (series : Series) (kind : OriginKind) (failure : OriginFailure) : Series :=
  { series with originRequests := series.originRequests.inc [kind.label, failure.outcome] }

/-- `body_idle_timeouts`: an origin body takes the counter of its kind along. -/
def bodyIdleTimeouts (series : Series) (kind : OriginKind) : Series :=
  { series with
    originBodyIdleTimeouts := series.originBodyIdleTimeouts.withLabelValues [kind.label] }

/-- An origin body is given up for going idle. -/
def bodyWentIdle (series : Series) (kind : OriginKind) : Series :=
  { series with originBodyIdleTimeouts := series.originBodyIdleTimeouts.inc [kind.label] }

/-- What `send_to_origin` counts when an exchange ends. `failure` is how that
of a background task has failed. -/
def sentToOrigin (series : Series) (failure : OriginFailure) : World.Event → Series
  | .answered _ head _ => series.originResponded .foreground head.status
  | .failed _ timedOut _ => series.originFailed .foreground (if timedOut then .timeout else .error)
  | .refreshed _ head _ => series.originResponded .background head.status
  | .refreshFailed _ => series.originFailed .background failure
  | _ => series

/-- What `refresh` and the bodies of both kinds count: the task whose body is
to be stored takes its counter, and a body that fails may have gone idle. -/
def originBody (series : Series) (idle : Bool) (tasks : Nat → Option Task) :
    World.Event → Series
  | .refreshed id _ _ =>
    match (tasks id).map Task.stage with
    | some (.collects ..) => series.bodyIdleTimeouts .background
    | _ => series
  | .body _ .failed _ => if idle then series.bodyWentIdle .foreground else series
  | .refreshBody _ none _ => if idle then series.bodyWentIdle .background else series
  | _ => series

/-- The kind of the origin body that goes idle in an event. -/
def idleIn (idle : Bool) : World.Event → Option OriginKind
  | .body _ .failed _ => if idle then some .foreground else none
  | .refreshBody _ none _ => if idle then some .background else none
  | _ => none

/-- The counting of `forward_to_upstream`, and before it of
`Exchange::answered` where that passes on the origin's body. -/
def forwarded (series : Series) (given : Given) : Series :=
  let passed := if given.cause.isForwarded then series.bodyIdleTimeouts .foreground else series
  passed.observe .proxy (requestLabel given) given.response.status

/-- The counting of `serve_asset`. -/
def served (series : Series) (given : AssetGiven) : Series :=
  series.observe .asset (assetLabel given) given.response.status

def requestsOf (route : Route) (cache : CacheStatus) : StateM CounterVec UInt64 :=
  CounterVec.get [route.label, cache.value.text]

def bothRoutes (cache : CacheStatus) : StateM CounterVec UInt64 := do
  return (← requestsOf .proxy cache) + (← requestsOf .asset cache)

/-- `cache_counts`, over the vector of `requests`. -/
def cacheCounts (metrics : Metrics) : StateM CounterVec CacheCounts := do
  return {
    hits := ← bothRoutes .hit
    misses := (← bothRoutes .miss) + (← requestsOf .proxy .bypass)
    revalidations := metrics.revalidations
    stale := ← bothRoutes .stale
    coalesced := ← bothRoutes .coalesced
    backgroundRefreshes := metrics.backgroundRefreshes }

end Series

/-! ## The machine -/

/-- The proxy, its asset requests and the counters that have labels. -/
structure Exported where
  counted : Counted
  series : Series

namespace Exported

inductive Event where
  /-- `failure` is how the exchange of a background task fails, and `idle`
  whether a body that fails went idle, when that is the event -/
  | counted (event : Counted.Event) (failure : OriginFailure) (idle : Bool)
  /-- a request for `/health` -/
  | health

def Event.isHealth : Event → Bool
  | .health => true
  | _ => false

/-- What happens to the proxy or to an asset request. -/
def Event.inner : Event → Option Counted.Event
  | .counted event .. => some event
  | .health => none

/-- An origin body of this kind goes idle. -/
def Event.idles (kind : OriginKind) : Event → Bool
  | .counted (.proxy event) _ idle => Series.idleIn idle event = some kind
  | _ => false

def start (sizeMb : UInt64) (ttl : Duration) : Exported := ⟨.start sizeMb ttl, .new⟩

def sent (σ : Exported) (failure : OriginFailure) (idle : Bool) (counted : Counted) :
    Counted.Event → Series
  | .proxy event => (σ.series.sentToOrigin failure event).originBody idle counted.world.tasks event
  | _ => σ.series

/-- The end of an exchange or of a body is counted, and then each answer. -/
def counting (σ : Exported) (event : Counted.Event) (failure : OriginFailure) (idle : Bool)
    (counted : Counted) : Series :=
  let forwarded := (counted.world.answers.drop σ.counted.world.answers.length).foldl
    Series.forwarded (σ.sent failure idle counted event)
  (counted.served.drop σ.counted.served.length).foldl Series.served forwarded

/-- What `/health` answers from. -/
def health (σ : Exported) : CacheCounts × Exported :=
  let (counts, requests) := Series.cacheCounts σ.counted.metrics σ.series.requests
  (counts, { σ with series := { σ.series with requests := requests } })

def step [HttpDate] [UriSyntax] [AssetCrates] (base : OriginUrl) (σ : Exported) :
    Event → Option Exported
  | .counted event failure idle => (Counted.step base σ.counted event).map fun counted =>
    ⟨counted, σ.counting event failure idle counted⟩
  | .health => if σ.counted.world.aborted then none else some σ.health.2

end Exported

/-! ## Which series there are -/

theorem known_foldl {α : Type} (labels : α → List Text) (list : List α) (vec : CounterVec)
    (other : List Text) :
    (list.foldl (fun vec x => vec.withLabelValues (labels x)) vec).Known other ↔
      (∃ x ∈ list, other = labels x) ∨ vec.Known other := by
  induction list generalizing vec with
  | nil => simp
  | cons x rest ih =>
      rw [List.foldl_cons, ih, CounterVec.known_withLabelValues]
      simp only [List.mem_cons, exists_eq_or_imp]
      exact or_left_comm.trans or_assoc.symm

theorem known_foldl_foldl {α β : Type} (labels : α → β → List Text) (list : List α)
    (inner : List β) (vec : CounterVec) (other : List Text) :
    (list.foldl (fun vec x =>
        inner.foldl (fun vec y => vec.withLabelValues (labels x y)) vec) vec).Known other ↔
      (∃ x ∈ list, ∃ y ∈ inner, other = labels x y) ∨ vec.Known other := by
  induction list generalizing vec with
  | nil => simp
  | cons x rest ih =>
      rw [List.foldl_cons, ih, known_foldl]
      simp only [List.mem_cons, exists_eq_or_imp]
      exact or_left_comm.trans or_assoc.symm

/-- A series that is made starts at 0. -/
theorem getD_foldl {α : Type} (labels : α → List Text) (list : List α) (vec : CounterVec)
    (other : List Text) :
    ((list.foldl (fun vec x => vec.withLabelValues (labels x)) vec) other).getD 0 =
      (vec other).getD 0 := by
  induction list generalizing vec with
  | nil => rfl
  | cons x rest ih => rw [List.foldl_cons, ih, CounterVec.getD_withLabelValues]

theorem getD_foldl_foldl {α β : Type} (labels : α → β → List Text) (list : List α)
    (inner : List β) (vec : CounterVec) (other : List Text) :
    ((list.foldl (fun vec x =>
        inner.foldl (fun vec y => vec.withLabelValues (labels x y)) vec) vec) other).getD 0 =
      (vec other).getD 0 := by
  induction list generalizing vec with
  | nil => rfl
  | cons x rest ih => rw [List.foldl_cons, ih, getD_foldl]

/-- The values of `cache` that a route's responses can have. -/
def Route.cacheLabels : Route → List CacheStatus
  | .proxy => Shadowstep.cacheLabels
  | .asset => assetCacheLabels

/-- The outcomes that are expected of a request to the origin. -/
def expectedOutcomes : List Text := statusClasses ++ ["error".toList, "timeout".toList]

/-- The class of a status that HTTP does not define. -/
def otherClass : Text := "other".toList

namespace Series

theorem known_requests (labels : List Text) : new.requests.Known labels ↔
    ∃ route : Route, ∃ cache ∈ route.cacheLabels, labels = [route.label, cache.value.text] := by
  have none : ¬ CounterVec.empty.Known labels := Bool.false_ne_true
  rw [new, known_foldl, known_foldl]
  constructor
  · rintro (⟨cache, known, same⟩ | ⟨cache, known, same⟩ | known)
    · exact ⟨.asset, cache, known, same⟩
    · exact ⟨.proxy, cache, known, same⟩
    · exact absurd known none
  · rintro ⟨route, cache, known, same⟩
    cases route with
    | proxy => exact .inr (.inl ⟨cache, known, same⟩)
    | asset => exact .inl ⟨cache, known, same⟩

theorem known_responses (labels : List Text) : new.responses.Known labels ↔
    ∃ route : Route, ∃ status ∈ statusClasses, labels = [route.label, status] := by
  have none : ¬ CounterVec.empty.Known labels := Bool.false_ne_true
  rw [new, known_foldl_foldl (fun (route : Route) status => [route.label, status])]
  constructor
  · rintro (⟨route, -, status, known, same⟩ | known)
    · exact ⟨route, status, known, same⟩
    · exact absurd known none
  · rintro ⟨route, status, known, same⟩
    exact .inl ⟨route, by cases route <;> decide, status, known, same⟩

theorem known_originRequests (labels : List Text) : new.originRequests.Known labels ↔
    ∃ kind : OriginKind, ∃ outcome ∈ expectedOutcomes, labels = [kind.label, outcome] := by
  have none : ¬ CounterVec.empty.Known labels := Bool.false_ne_true
  rw [new, known_foldl_foldl (fun (kind : OriginKind) outcome => [kind.label, outcome])]
  constructor
  · rintro (⟨kind, -, outcome, known, same⟩ | known)
    · exact ⟨kind, outcome, known, same⟩
    · exact absurd known none
  · rintro ⟨kind, outcome, known, same⟩
    exact .inl ⟨kind, by cases kind <;> decide, outcome, known, same⟩

theorem known_originBodyIdleTimeouts (labels : List Text) :
    new.originBodyIdleTimeouts.Known labels ↔ ∃ kind : OriginKind, labels = [kind.label] := by
  have none : ¬ CounterVec.empty.Known labels := Bool.false_ne_true
  rw [new, known_foldl (fun (kind : OriginKind) => [kind.label]), or_iff_left none]
  constructor
  · rintro ⟨kind, -, same⟩
    exact ⟨kind, same⟩
  · rintro ⟨kind, same⟩
    exact ⟨kind, by cases kind <;> decide, same⟩

theorem kind_label_inj {left right : OriginKind} : left.label = right.label ↔ left = right := by
  cases left <;> cases right <;> decide

/-- The labels `cache_counts` reads. -/
def healthReads : List (Route × CacheStatus) :=
  [(.proxy, .hit), (.asset, .hit), (.proxy, .miss), (.asset, .miss), (.proxy, .bypass),
    (.proxy, .stale), (.asset, .stale), (.proxy, .coalesced), (.asset, .coalesced)]

/-- Those of them that no asset has. -/
def neverAssets : List CacheStatus := [.stale, .coalesced]

theorem cacheCounts_vec (metrics : Metrics) (vec : CounterVec) : (cacheCounts metrics vec).2 =
    healthReads.foldl
      (fun vec read => vec.withLabelValues [read.1.label, read.2.value.text]) vec := rfl

/-- The series are those there were at the start, perhaps some for a status
that HTTP does not define, and two more once somebody has `asked` for
`/health`. -/
structure Expected (series : Series) (asked : Bool) : Prop where
  requests : ∀ labels, series.requests.Known labels ↔ new.requests.Known labels ∨
    asked = true ∧ ∃ cache ∈ neverAssets, labels = [Route.asset.label, cache.value.text]
  responses : ∀ labels, series.responses.Known labels → new.responses.Known labels ∨
    ∃ route : Route, labels = [route.label, otherClass]
  originRequests : ∀ labels, series.originRequests.Known labels →
    new.originRequests.Known labels ∨ ∃ kind : OriginKind, labels = [kind.label, otherClass]
  originBodyIdleTimeouts : ∀ labels, series.originBodyIdleTimeouts.Known labels ↔
    new.originBodyIdleTimeouts.Known labels
  /-- none of them goes away -/
  kept : ∀ labels, (new.responses.Known labels → series.responses.Known labels) ∧
    (new.originRequests.Known labels → series.originRequests.Known labels)

theorem expected_new : Expected new false :=
  ⟨fun _ => (or_iff_left fun h => Bool.false_ne_true h.1).symm, fun _ => .inl, fun _ => .inl,
    fun _ => Iff.rfl, fun _ => ⟨id, id⟩⟩

theorem statusClass_cases (status : StatusCode) :
    statusClass status ∈ statusClasses ∨ statusClass status = otherClass := by
  unfold statusClass
  split <;> decide

variable {series : Series} {asked : Bool}

theorem Expected.observe (expected : Expected series asked) {route : Route} {cache : CacheStatus}
    (known : cache ∈ route.cacheLabels) (status : StatusCode) :
    Expected (series.observe route cache status) asked where
  requests labels := by
    rw [Series.observe, CounterVec.known_inc, expected.requests]
    refine or_iff_right_of_imp ?_
    rintro rfl
    exact .inl ((known_requests _).mpr ⟨route, cache, known, rfl⟩)
  responses labels h := by
    obtain rfl | before := CounterVec.known_inc.mp h
    · obtain defined | other := statusClass_cases status
      · exact .inl ((known_responses _).mpr ⟨route, _, defined, rfl⟩)
      · exact .inr ⟨route, other ▸ rfl⟩
    · exact expected.responses labels before
  originRequests := expected.originRequests
  originBodyIdleTimeouts := expected.originBodyIdleTimeouts
  kept labels := ⟨fun h => CounterVec.known_inc.mpr (.inr ((expected.kept labels).1 h)),
    (expected.kept labels).2⟩

/-- One more request to the origin, of this outcome. -/
def ended (series : Series) (kind : OriginKind) (outcome : Text) : Series :=
  { series with originRequests := series.originRequests.inc [kind.label, outcome] }

theorem Expected.ended (expected : Expected series asked) {kind : OriginKind} {outcome : Text}
    (known : outcome ∈ expectedOutcomes ∨ outcome = otherClass) :
    Expected (series.ended kind outcome) asked where
  requests := expected.requests
  responses := expected.responses
  originRequests labels h := by
    obtain rfl | before := CounterVec.known_inc.mp h
    · obtain defined | rfl := known
      · exact .inl ((known_originRequests _).mpr ⟨kind, _, defined, rfl⟩)
      · exact .inr ⟨kind, rfl⟩
    · exact expected.originRequests labels before
  originBodyIdleTimeouts := expected.originBodyIdleTimeouts
  kept labels := ⟨(expected.kept labels).1,
    fun h => CounterVec.known_inc.mpr (.inr ((expected.kept labels).2 h))⟩

/-- How an event ends a request to the origin, and of which kind. -/
def outcomeOf (failure : OriginFailure) : World.Event → Option (OriginKind × Text)
  | .answered _ head _ => some (.foreground, statusClass head.status)
  | .failed _ timedOut _ =>
    some (.foreground, (if timedOut then OriginFailure.timeout else .error).outcome)
  | .refreshed _ head _ => some (.background, statusClass head.status)
  | .refreshFailed _ => some (.background, failure.outcome)
  | _ => none

theorem sentToOrigin_eq (series : Series) (failure : OriginFailure) (event : World.Event) :
    series.sentToOrigin failure event =
      (outcomeOf failure event).elim series fun outcome => series.ended outcome.1 outcome.2 := by
  cases event <;> rfl

theorem outcomeOf_known {failure : OriginFailure} {event : World.Event} {kind : OriginKind}
    {outcome : Text} (h : outcomeOf failure event = some (kind, outcome)) :
    outcome ∈ expectedOutcomes ∨ outcome = otherClass := by
  have failed (failure : OriginFailure) : failure.outcome ∈ expectedOutcomes := by
    cases failure <;> decide
  have responded (status : StatusCode) :
      statusClass status ∈ expectedOutcomes ∨ statusClass status = otherClass :=
    (statusClass_cases status).imp_left (List.mem_append_left _)
  cases event <;> cases h <;> first | exact responded _ | exact .inl (failed _)

/-- The counters of idle bodies have been there from the start. -/
theorem Expected.bodyIdleTimeouts (expected : Expected series asked) (kind : OriginKind) :
    Expected (series.bodyIdleTimeouts kind) asked where
  requests := expected.requests
  responses := expected.responses
  originRequests := expected.originRequests
  originBodyIdleTimeouts labels := by
    rw [Series.bodyIdleTimeouts, CounterVec.known_withLabelValues, expected.originBodyIdleTimeouts]
    refine or_iff_right_of_imp ?_
    rintro rfl
    exact (known_originBodyIdleTimeouts _).mpr ⟨kind, rfl⟩
  kept := expected.kept

theorem Expected.bodyWentIdle (expected : Expected series asked) (kind : OriginKind) :
    Expected (series.bodyWentIdle kind) asked where
  requests := expected.requests
  responses := expected.responses
  originRequests := expected.originRequests
  originBodyIdleTimeouts labels := by
    rw [Series.bodyWentIdle, CounterVec.known_inc, expected.originBodyIdleTimeouts]
    refine or_iff_right_of_imp ?_
    rintro rfl
    exact (known_originBodyIdleTimeouts _).mpr ⟨kind, rfl⟩
  kept := expected.kept

/-- What an event does to the counters of idle bodies. -/
inductive Bodied (series : Series) : Option OriginKind → Series → Prop
  | same : Bodied series none series
  | takes (kind : OriginKind) : Bodied series none (series.bodyIdleTimeouts kind)
  | idle (kind : OriginKind) : Bodied series (some kind) (series.bodyWentIdle kind)

theorem originBody_cases (series : Series) (idle : Bool) (tasks : Nat → Option Task)
    (event : World.Event) :
    Bodied series (idleIn idle event) (series.originBody idle tasks event) := by
  cases event with
  | refreshed id =>
      simp only [originBody]
      split
      · exact .takes .background
      · exact .same
  | body id item =>
      cases item with
      | failed =>
          cases idle with
          | true => exact .idle .foreground
          | false => exact .same
      | _ => exact .same
  | refreshBody id body =>
      cases body with
      | none =>
          cases idle with
          | true => exact .idle .background
          | false => exact .same
      | some body => exact .same
  | _ => exact .same

theorem Expected.bodied (expected : Expected series asked) {idle : Option OriginKind}
    {series' : Series} (bodied : Bodied series idle series') : Expected series' asked := by
  cases bodied with
  | same => exact expected
  | takes kind => exact expected.bodyIdleTimeouts kind
  | idle kind => exact expected.bodyWentIdle kind

/-- A body that goes idle counts once, for its kind. -/
theorem Bodied.counted {idle : Option OriginKind} {series' : Series}
    (bodied : Bodied series idle series') (kind : OriginKind) :
    (series'.originBodyIdleTimeouts [kind.label]).getD 0 =
      (series.originBodyIdleTimeouts [kind.label]).getD 0 + if idle = some kind then 1 else 0 := by
  cases bodied with
  | same => simp
  | takes other => simp [bodyIdleTimeouts, CounterVec.getD_withLabelValues]
  | idle other =>
      simp only [bodyWentIdle, CounterVec.getD_inc, List.cons.injEq, and_true, kind_label_inj,
        Option.some.injEq, eq_comm]

/-- The counters of idle bodies are apart from the others. -/
theorem Bodied.others {idle : Option OriginKind} {series' : Series}
    (bodied : Bodied series idle series') :
    series'.requests = series.requests ∧ series'.responses = series.responses ∧
      series'.originRequests = series.originRequests := by
  cases bodied <;> exact ⟨rfl, rfl, rfl⟩

/-- An answer that passes on the origin's body. -/
theorem forwarded_eq (series : Series) (given : Given) : ∃ passed, Bodied series none passed ∧
    series.forwarded given =
      passed.observe .proxy (requestLabel given) given.response.status := by
  refine ⟨_, ?_, rfl⟩
  split
  · exact .takes .foreground
  · exact .same

theorem Expected.forwarded (expected : Expected series asked) (answers : List Given) :
    Expected (answers.foldl Series.forwarded series) asked := by
  induction answers generalizing series with
  | nil => exact expected
  | cons given rest ih =>
      have known : requestLabel given ∈ Route.proxy.cacheLabels := by
        cases requestLabel given <;> decide
      obtain ⟨passed, bodied, eq⟩ := series.forwarded_eq given
      refine ih ?_
      rw [eq]
      exact (expected.bodied bodied).observe known given.response.status

/-- An asset is found in the store or on the disk, or it is not found. -/
theorem Expected.served (expected : Expected series asked) {served : List AssetGiven}
    (labels : ∀ given ∈ served, cacheLabel given.response = given.cause.label) :
    Expected (served.foldl Series.served series) asked := by
  induction served generalizing series with
  | nil => exact expected
  | cons given rest ih =>
      have known : assetLabel given ∈ Route.asset.cacheLabels := by
        rw [assetLabel, labels given List.mem_cons_self]
        cases given.cause <;> decide
      exact ih (expected.observe known given.response.status) fun other member =>
        labels other (List.mem_cons_of_mem _ member)

/-- Who asks for `/health` makes two series, unless they are there. -/
theorem Expected.health (expected : Expected series asked) (metrics : Metrics) :
    Expected { series with requests := (cacheCounts metrics series.requests).2 } true where
  requests labels := by
    have reads : ∀ read ∈ healthReads, read.2 ∈ read.1.cacheLabels ∨
        read.1 = .asset ∧ read.2 ∈ neverAssets := by decide
    have never : ∀ cache ∈ neverAssets, (Route.asset, cache) ∈ healthReads := by decide
    rw [cacheCounts_vec, known_foldl, expected.requests]
    constructor
    · rintro (⟨⟨route, cache⟩, member, rfl⟩ | known | ⟨-, extra⟩)
      · obtain known | ⟨rfl, known⟩ := reads _ member
        · exact .inl ((known_requests _).mpr ⟨route, cache, known, rfl⟩)
        · exact .inr ⟨rfl, cache, known, rfl⟩
      · exact .inl known
      · exact .inr ⟨rfl, extra⟩
    · rintro (known | ⟨-, cache, member, same⟩)
      · exact .inr (.inl known)
      · exact .inl ⟨(.asset, cache), never cache member, same⟩
  responses := expected.responses
  originRequests := expected.originRequests
  originBodyIdleTimeouts := expected.originBodyIdleTimeouts
  kept := expected.kept

/-! ## What the series say -/

/-- The vectors hold the counters that `Metrics` counts by route and label. -/
structure Agrees (series : Series) (metrics : Metrics) : Prop where
  requests : ∀ route cache, (series.requests [Route.label route, cache.value.text]).getD 0 =
    metrics.requests route cache
  responses : ∀ route status, (series.responses [Route.label route, status]).getD 0 =
    metrics.responses route status

theorem route_label_inj {left right : Route} : left.label = right.label ↔ left = right := by
  cases left <;> cases right <;> decide

theorem cache_text_inj {left right : CacheStatus} :
    left.value.text = right.value.text ↔ left = right := by
  cases left <;> cases right <;> decide

theorem agrees_new : Agrees new .new where
  requests route cache := by
    rw [new, getD_foldl, getD_foldl]
    rfl
  responses route status := by
    rw [new, getD_foldl_foldl (fun (route : Route) status => [route.label, status])]
    rfl

theorem new_originRequests (labels : List Text) : (new.originRequests labels).getD 0 = 0 := by
  rw [new, getD_foldl_foldl (fun (kind : OriginKind) outcome => [kind.label, outcome])]
  rfl

theorem new_originBodyIdleTimeouts (labels : List Text) :
    (new.originBodyIdleTimeouts labels).getD 0 = 0 := by
  rw [new, getD_foldl (fun (kind : OriginKind) => [kind.label])]
  rfl

theorem sentToOrigin_idle (series : Series) (failure : OriginFailure) (event : World.Event) :
    (series.sentToOrigin failure event).originBodyIdleTimeouts =
      series.originBodyIdleTimeouts := by
  cases event <;> rfl

/-- An answer counts no idle body. -/
theorem forwarded_idle (series : Series) (answers : List Given) (kind : OriginKind) :
    ((answers.foldl forwarded series).originBodyIdleTimeouts [kind.label]).getD 0 =
      (series.originBodyIdleTimeouts [kind.label]).getD 0 := by
  induction answers generalizing series with
  | nil => rfl
  | cons given rest ih =>
      obtain ⟨passed, bodied, eq⟩ := series.forwarded_eq given
      rw [List.foldl_cons, ih, eq]
      exact (bodied.counted kind).trans (UInt64.add_zero _)

theorem served_idle (series : Series) (answers : List AssetGiven) :
    (answers.foldl served series).originBodyIdleTimeouts = series.originBodyIdleTimeouts := by
  induction answers generalizing series with
  | nil => rfl
  | cons given rest ih => exact ih (series.served given)

variable {metrics : Metrics}

theorem Agrees.observe (agrees : Agrees series metrics) (route : Route) (cache : CacheStatus)
    (status : StatusCode) :
    Agrees (series.observe route cache status) (metrics.observe route cache status) where
  requests other label := by
    rw [Series.observe, CounterVec.getD_inc, agrees.requests]
    simp only [List.cons.injEq, and_true, route_label_inj, cache_text_inj]
    rfl
  responses other label := by
    rw [Series.observe, CounterVec.getD_inc, agrees.responses]
    simp only [List.cons.injEq, and_true, route_label_inj]
    rfl

/-- The other counters do not matter. -/
theorem Agrees.of_same (agrees : Agrees series metrics) {series' : Series} {metrics' : Metrics}
    (requests : series'.requests = series.requests) (responses : series'.responses = series.responses)
    (same : metrics'.requests = metrics.requests ∧ metrics'.responses = metrics.responses) :
    Agrees series' metrics' where
  requests route cache := by rw [requests, same.1, agrees.requests]
  responses route status := by rw [responses, same.2, agrees.responses]

theorem Agrees.forwarded (agrees : Agrees series metrics) (answers : List Given) :
    Agrees (answers.foldl Series.forwarded series) (answers.foldl Metrics.forwarded metrics) := by
  induction answers generalizing series metrics with
  | nil => exact agrees
  | cons given rest ih =>
      refine ih ?_
      obtain ⟨passed, bodied, eq⟩ := series.forwarded_eq given
      have counted : Agrees passed
          (if given.cause.isRevalidated then metrics.revalidation else metrics) := by
        refine agrees.of_same bodied.others.1 bodied.others.2.1 ?_
        cases given.cause.isRevalidated <;> exact ⟨rfl, rfl⟩
      rw [eq]
      exact counted.observe .proxy (requestLabel given) given.response.status

/-- This vector of `requests` holds what `Metrics` counts. -/
def Reads (vec : CounterVec) (metrics : Metrics) : Prop :=
  ∀ (route : Route) (cache : CacheStatus),
    (vec [route.label, cache.value.text]).getD 0 = metrics.requests route cache

theorem Reads.requestsOf {vec : CounterVec} (reads : Reads vec metrics) (route : Route)
    (cache : CacheStatus) : (requestsOf route cache vec).1 = metrics.requests route cache ∧
      Reads (Series.requestsOf route cache vec).2 metrics :=
  ⟨reads route cache, fun route cache =>
    (CounterVec.getD_withLabelValues ..).trans (reads route cache)⟩

theorem Reads.bothRoutes {vec : CounterVec} (reads : Reads vec metrics) (cache : CacheStatus) :
    (bothRoutes cache vec).1 = metrics.bothRoutes cache ∧
      Reads (Series.bothRoutes cache vec).2 metrics := by
  obtain ⟨proxied, between⟩ := reads.requestsOf .proxy cache
  obtain ⟨asset, after⟩ := between.requestsOf .asset cache
  refine ⟨?_, after⟩
  show (Series.requestsOf .proxy cache vec).1 +
    (Series.requestsOf .asset cache (Series.requestsOf .proxy cache vec).2).1 = _
  rw [proxied, asset, Metrics.bothRoutes]

/-- What `/health` reads from the vectors is what `Metrics` counts, and the
series it makes are at 0. -/
theorem Agrees.health (agrees : Agrees series metrics) :
    (cacheCounts metrics series.requests).1 = metrics.cacheCounts ∧
      Agrees { series with requests := (cacheCounts metrics series.requests).2 } metrics := by
  have reads : Reads series.requests metrics := agrees.requests
  obtain ⟨hits, reads₁⟩ := reads.bothRoutes .hit
  obtain ⟨misses, reads₂⟩ := reads₁.bothRoutes .miss
  obtain ⟨bypasses, reads₃⟩ := reads₂.requestsOf .proxy .bypass
  obtain ⟨stale, reads₄⟩ := reads₃.bothRoutes .stale
  obtain ⟨coalesced, reads₅⟩ := reads₄.bothRoutes .coalesced
  refine ⟨?_, reads₅, agrees.responses⟩
  rw [Metrics.cacheCounts, ← hits, ← misses, ← bypasses, ← stale, ← coalesced]
  rfl

end Series

namespace Exported

section

variable [HttpDate] [UriSyntax] [AssetCrates] {base : OriginUrl}

/-- A run of the counters is one of the proxy and its asset requests. -/
theorem counted_run {sizeMb : UInt64} {ttl : Duration} {events : List Event} {σ : Exported}
    (hrun : Runs.run (step base) (start sizeMb ttl) events = some σ) :
    Runs.run (Counted.step base) (.start sizeMb ttl) (events.filterMap Event.inner) =
      some σ.counted := by
  refine Runs.projected_run Exported.counted Event.inner
    (I := fun _ => True) (Q := fun _ => True) (fun _ _ _ _ _ _ => trivial) ?_ trivial
    (fun _ _ => trivial) hrun
  rintro σ event σ' - - h
  cases event with
  | counted event failure idle =>
      obtain ⟨counted, hstep, rfl⟩ := Option.map_eq_some_iff.mp h
      exact Runs.run_cons.mpr ⟨counted, hstep, rfl⟩
  | health =>
      simp only [step] at h
      split at h
      case isTrue => cases h
      case isFalse =>
        obtain rfl := Option.some.inj h
        rfl

omit [HttpDate] [UriSyntax] [AssetCrates] in
/-- The end of an exchange or of a body is no answer. -/
theorem sent_same (σ : Exported) (failure : OriginFailure) (idle : Bool) (counted : Counted)
    (event : Counted.Event) :
    (σ.sent failure idle counted event).requests = σ.series.requests ∧
      (σ.sent failure idle counted event).responses = σ.series.responses := by
  cases event with
  | proxy worldEvent =>
      obtain ⟨requests, responses, -⟩ := ((σ.series.sentToOrigin failure worldEvent).originBody_cases
        idle counted.world.tasks worldEvent).others
      rw [sent, requests, responses, Series.sentToOrigin_eq]
      cases Series.outcomeOf failure worldEvent <;> exact ⟨rfl, rfl⟩
  | assetArrive | asset => exact ⟨rfl, rfl⟩

theorem counting_agrees {σ : Exported} {event : Counted.Event} {failure : OriginFailure}
    {idle : Bool} {counted : Counted} (h : Counted.step base σ.counted event = some counted)
    (agrees : σ.series.Agrees σ.counted.metrics) :
    (σ.counting event failure idle counted).Agrees counted.metrics := by
  obtain ⟨requests, responses⟩ := σ.sent_same failure idle counted event
  obtain ⟨worldEvent, -, -, metrics, served⟩ | ⟨-, given, asset⟩ := (Counted.step_cases h).2
  · -- the answers of proxied requests are counted in the same order
    have nobody : counted.served.drop σ.counted.served.length = [] := by
      rw [served, List.drop_length]
    rw [counting, nobody, metrics]
    refine (agrees.of_same requests responses ?_).forwarded _
    cases background304 worldEvent <;>
      by_cases spawned : σ.counted.world.spawned < counted.world.spawned <;>
      simp [spawned, Metrics.revalidation, Metrics.backgroundRefresh]
  · have nobody : counted.world.answers.drop σ.counted.world.answers.length = [] := by
      rw [asset.answers, List.drop_length]
    have new : counted.served.drop σ.counted.served.length = given.toList := by
      rw [asset.served, List.drop_left]
    rw [counting, nobody, new, asset.metrics]
    have same : (σ.sent failure idle counted event).Agrees σ.counted.metrics :=
      agrees.of_same requests responses ⟨rfl, rfl⟩
    cases given with
    | none => exact same
    | some given => exact same.observe .asset (assetLabel given) given.response.status

omit [HttpDate] [UriSyntax] [AssetCrates] in
theorem counting_expected {σ : Exported} {event : Counted.Event} {failure : OriginFailure}
    {idle : Bool} {counted : Counted} {asked : Bool} (expected : σ.series.Expected asked)
    (labels : ∀ given ∈ counted.served, cacheLabel given.response = given.cause.label) :
    (σ.counting event failure idle counted).Expected asked := by
  refine .served (.forwarded ?_ _) fun given member => labels given (List.mem_of_mem_drop member)
  cases event with
  | proxy worldEvent =>
      refine .bodied ?_ (Series.originBody_cases _ idle counted.world.tasks worldEvent)
      rw [Series.sentToOrigin_eq]
      cases ends : Series.outcomeOf failure worldEvent with
      | none => exact expected
      | some outcome => exact expected.ended (Series.outcomeOf_known ends)
  | assetArrive | asset => exact expected

omit [HttpDate] [UriSyntax] [AssetCrates] in
/-- Of the counters of idle bodies, a step counts in that of the body that goes
idle. -/
theorem counting_idle (σ : Exported) (event : Counted.Event) (failure : OriginFailure)
    (idle : Bool) (counted : Counted) (kind : OriginKind) :
    ((σ.counting event failure idle counted).originBodyIdleTimeouts [kind.label]).getD 0 =
      (σ.series.originBodyIdleTimeouts [kind.label]).getD 0 +
        UInt64.ofNat (if (Event.counted event failure idle).idles kind then 1 else 0) := by
  rw [counting, Series.served_idle, Series.forwarded_idle]
  cases event with
  | proxy event =>
      have bodied := (σ.series.sentToOrigin failure event).originBody_cases idle
        counted.world.tasks event
      rw [sent, bodied.counted, Series.sentToOrigin_idle]
      by_cases went : Series.idleIn idle event = some kind <;> simp [Event.idles, went]
  | assetArrive | asset => exact (UInt64.add_zero _).symm

/-- The counters of idle bodies say how many went idle, by kind. -/
theorem idle_counted {sizeMb : UInt64} {ttl : Duration} {events : List Event} {σ : Exported}
    (hrun : Runs.run (step base) (start sizeMb ttl) events = some σ) (kind : OriginKind) :
    (σ.series.originBodyIdleTimeouts [kind.label]).getD 0 =
      UInt64.ofNat (events.countP (Event.idles kind)) := by
  refine Runs.invariant_history (I := fun events σ =>
    (σ.series.originBodyIdleTimeouts [kind.label]).getD 0 =
      UInt64.ofNat (events.countP (Event.idles kind)))
    (Series.new_originBodyIdleTimeouts _) ?_ hrun
  rintro before event σ₁ σ₂ - counted h
  rw [List.countP_append, List.countP_singleton, UInt64.ofNat_add, ← counted]
  cases event with
  | counted event failure idle =>
      obtain ⟨counted, -, rfl⟩ := Option.map_eq_some_iff.mp h
      exact σ₁.counting_idle event failure idle counted kind
  | health =>
      simp only [step] at h
      split at h
      case isTrue => cases h
      case isFalse =>
        obtain rfl := Option.some.inj h
        exact (UInt64.add_zero _).symm

/-- In every run `/metrics` exports the series that have been there from the
start, perhaps some for a status that HTTP does not define, and the two that
the first request for `/health` makes. They say what `Metrics` counts and how
many bodies went idle, and those two stay at 0. So `/health` may read them. -/
theorem exported_series {sizeMb : UInt64} {ttl : Duration} {events : List Event} {σ : Exported}
    (hrun : Runs.run (step base) (start sizeMb ttl) events = some σ) :
    σ.series.Expected (events.any Event.isHealth) ∧ σ.series.Agrees σ.counted.metrics ∧
      (∀ kind, (σ.series.originBodyIdleTimeouts [OriginKind.label kind]).getD 0 =
        UInt64.ofNat (events.countP (Event.idles kind))) ∧
      σ.health.1 = σ.counted.metrics.cacheCounts ∧ ∀ cache ∈ Series.neverAssets,
        (σ.series.requests [Route.asset.label, cache.value.text]).getD 0 = 0 := by
  have run : σ.series.Expected (events.any Event.isHealth) ∧
      σ.series.Agrees σ.counted.metrics := by
    refine Runs.invariant_history
      (I := fun events σ => σ.series.Expected (events.any Event.isHealth) ∧
        σ.series.Agrees σ.counted.metrics)
      ⟨Series.expected_new, Series.agrees_new⟩ ?_ hrun
    rintro before event σ₁ σ₂ hbefore ⟨expected, agrees⟩ h
    rw [List.any_append]
    cases event with
    | counted event failure idle =>
        obtain ⟨counted, hstep, rfl⟩ := Option.map_eq_some_iff.mp h
        have tallied := Counted.tallied_run (Counted.tallied_start sizeMb ttl)
          (counted_run hbefore)
        refine ⟨?_, counting_agrees hstep agrees⟩
        rw [show [Event.counted event failure idle].any Event.isHealth = false from rfl, Bool.or_false]
        exact counting_expected expected (tallied.step hstep).labels
    | health =>
        simp only [step] at h
        split at h
        case isTrue => cases h
        case isFalse =>
          obtain rfl := Option.some.inj h
          rw [show [Event.health].any Event.isHealth = true from rfl, Bool.or_true]
          exact ⟨expected.health σ₁.counted.metrics, agrees.health.2⟩
  refine ⟨run.1, run.2, idle_counted hrun, run.2.health.1, fun cache never => ?_⟩
  obtain ⟨-, asset, -, labels⟩ := Counted.tallied_run (Counted.tallied_start sizeMb ttl)
    (counted_run hrun)
  have none : (σ.counted.served.countP fun given => assetLabel given = cache) = 0 := by
    refine List.countP_eq_zero.mpr fun given member same => ?_
    rw [decide_eq_true_eq, assetLabel, labels given member] at same
    have unasked (cause : AssetCause) : cause.label.getD .bypass ∉ Series.neverAssets := by
      cases cause <;> decide
    exact unasked given.cause (same ▸ never)
  rw [run.2.requests, asset, none]
  rfl

end

/-- A stale page answers while it is revalidated, and then somebody asks for
`/health`. -/
def watchedEvents : List Event :=
  Counted.staleEvents.map (Event.counted · .error false) ++
    [.counted (.proxy (.refreshed 0 ⟨.notModified, []⟩ nextMinute)) .error false, .health]

/-- A series of each kind. -/
def staleAssets (σ : Exported) : Option UInt64 × Option UInt64 :=
  (σ.series.requests [Route.asset.label, CacheStatus.stale.value.text],
    σ.series.originRequests [OriginKind.background.label, statusClass .notModified])

theorem exported_series_example : ∃ (_ : HttpDate) (_ : UriSyntax) (_ : AssetCrates)
    (σ : Exported),
    Runs.run (step exampleOrigin) (start 1 (Duration.fromSecs 300)) watchedEvents = some σ ∧
      σ.staleAssets = (some 0, some 1) ∧ σ.series.Expected true ∧
      σ.health.1 = σ.counted.metrics.cacheCounts := by
  let dates : HttpDate := ⟨fun _ => none⟩
  let uris : UriSyntax := ⟨fun _ => true, fun _ => true⟩
  let crates : AssetCrates := ⟨fun _ => [], fun _ => []⟩
  have evaluated : (Runs.run (step exampleOrigin) (start 1 (Duration.fromSecs 300))
      watchedEvents).map staleAssets = some (some 0, some 1) := by decide +kernel
  obtain ⟨σ, run, series⟩ := Option.map_eq_some_iff.mp evaluated
  obtain ⟨expected, -, -, health, -⟩ := exported_series run
  exact ⟨dates, uris, crates, σ, run, series, expected, health⟩

end Exported

end Shadowstep
