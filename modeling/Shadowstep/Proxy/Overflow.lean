import Shadowstep.Proxy.Allowed

/-!
# Where the age of a response overflows

`age` adds two `Duration`s with `+`, which panics out of range, and a panic
ends the process. A fresh use is safe: the age is below the lifetime the
origin gave. A stale use is as far past the lifetime as the origin's stale
windows allow, and nothing bounds the sum: `Bounded` is what the origin must
have sent for no moment of use to overflow.

* `bounded_iff` — the condition is exact;
* `World.no_age_overflows` — runs in which every stored response is bounded;
* `World.stale_window_aborts` — a run that ends in the panic.
-/

namespace Shadowstep

open Rust

/-! ## The condition -/

namespace StoredResponse

/-- How long after it was stored a response may still answer a request: the
entry is served while revalidating until moka drops it, and in place of an
error for as long as the request has held it. -/
def lastUse (response : StoredResponse) : Nat :=
  response.ttl.nanos + max (min response.stale.whileRevalidate.nanos response.grace.nanos)
    response.stale.ifError.nanos

/-- No stale use overflows: the age stays in range up to the last use, or up
to the last `Instant`. -/
def Bounded (response : StoredResponse) : Prop :=
  response.stale.mustRevalidate = true ∨
    response.initialAge.nanos +
        min response.lastUse (2 ^ 63 * nanosPerSec - response.storedAt.nanos) ≤
      2 ^ 64 * nanosPerSec

/-- The ways to use a response that is no longer fresh. -/
def StaleUse (response : StoredResponse) (now : Instant) : Prop :=
  response.mayServeWhileRevalidating now = true ∧
      response.elapsed now < response.ttl.saturatingAdd response.grace ∨
    response.mayServeOnError now = true

instance (response : StoredResponse) : Decidable response.Bounded :=
  inferInstanceAs (Decidable (_ ∨ _))

theorem age_isSome {response : StoredResponse} {now : Instant} :
    (response.age now).isSome ↔
      response.initialAge.nanos + (response.elapsed now).nanos < 2 ^ 64 * nanosPerSec :=
  Duration.checkedAdd_isSome

theorem elapsed_nanos (response : StoredResponse) (now : Instant) :
    (response.elapsed now).nanos = now.nanos - response.storedAt.nanos := rfl

theorem staleWithin_nanos {response : StoredResponse} {window : Duration} {now : Instant} :
    response.staleWithin window now = true ↔ response.stale.mustRevalidate = false ∧
      response.ttl.nanos ≤ (response.elapsed now).nanos ∧
      (response.elapsed now).nanos < response.ttl.nanos + window.nanos := by
  rw [staleWithin_iff]
  refine and_congr_right fun _ => ?_
  constructor
  · rintro ⟨stale, hstale, below⟩
    obtain ⟨past, nanos⟩ := staleness_eq_some.mp hstale
    rw [Duration.le_iff] at past
    rw [Duration.lt_iff] at below
    omega
  · rintro ⟨past, below⟩
    have inside := (response.elapsed now).inRange
    refine ⟨⟨(response.elapsed now).nanos - response.ttl.nanos, by omega⟩,
      staleness_eq_some.mpr ⟨past, rfl⟩, ?_⟩
    rw [Duration.lt_iff]
    change (response.elapsed now).nanos - response.ttl.nanos < window.nanos
    omega

theorem lt_saturatingAdd {a b c : Duration} (h : c.nanos < a.nanos + b.nanos)
    (below : c.nanos + 1 < 2 ^ 64 * nanosPerSec) : c < a.saturatingAdd b := by
  rw [Duration.lt_iff, Duration.saturatingAdd]
  cases sum : a.checkedAdd b with
  | none =>
      change c.nanos < 2 ^ 64 * nanosPerSec - 1
      omega
  | some total => rwa [Option.getD_some, ← Duration.checkedAdd_eq_some.mp sum]

theorem lt_of_lt_saturatingAdd {a b c : Duration} (h : c < a.saturatingAdd b) :
    c.nanos < a.nanos + b.nanos := by
  rw [Duration.lt_iff, Duration.saturatingAdd] at h
  cases sum : a.checkedAdd b with
  | none =>
      have := c.inRange
      have := Duration.checkedAdd_isSome.not.mp (by rw [sum]; simp)
      omega
  | some total => rwa [sum, Option.getD_some, ← Duration.checkedAdd_eq_some.mp sum] at h

/-- Of a response whose lifetime is in range, every stale use has an age in
range exactly when the response is bounded. -/
theorem bounded_iff {response : StoredResponse}
    (lifetime : response.initialAge.nanos + response.ttl.nanos < 2 ^ 64 * nanosPerSec) :
    response.Bounded ↔ ∀ now, response.StaleUse now → (response.age now).isSome := by
  have stored := response.storedAt.inRange
  simp only [age_isSome, StaleUse, mayServeWhileRevalidating, mayServeOnError, staleWithin_nanos]
  constructor
  · rintro bounded now use
    have inside := now.inRange
    have allowed : response.stale.mustRevalidate = false := by
      obtain ⟨⟨allowed, -⟩, -⟩ | ⟨allowed, -⟩ := use <;> exact allowed
    obtain must | bounded := bounded
    · rw [allowed] at must
      cases must
    · have below : (response.elapsed now).nanos < response.lastUse := by
        unfold lastUse
        obtain ⟨⟨-, -, window⟩, kept⟩ | ⟨-, -, window⟩ := use
        · have := lt_of_lt_saturatingAdd kept
          omega
        · omega
      have := elapsed_nanos response now
      omega
  · intro inRange
    by_contra unbounded
    simp only [Bounded, not_or, Bool.not_eq_true, not_le] at unbounded
    obtain ⟨allowed, beyond⟩ := unbounded
    -- the last moment at which the response may be used
    let last := min response.lastUse (2 ^ 63 * nanosPerSec - response.storedAt.nanos) - 1
    have now_lt : response.storedAt.nanos + last < 2 ^ 63 * nanosPerSec := by
      simp only [last]
      omega
    have elapsed : (response.elapsed ⟨_, now_lt⟩).nanos = last := by
      rw [elapsed_nanos]
      exact Nat.add_sub_cancel_left ..
    have use := inRange ⟨_, now_lt⟩
    rw [elapsed] at use
    have past : response.ttl.nanos ≤ last := by
      simp only [last]
      omega
    have overflows : ¬ response.initialAge.nanos + last < 2 ^ 64 * nanosPerSec := by
      simp only [last]
      omega
    refine overflows (use ?_)
    have below : last < response.lastUse := by
      simp only [last]
      omega
    unfold lastUse at below
    by_cases onError : last < response.ttl.nanos + response.stale.ifError.nanos
    · exact .inr ⟨allowed, past, onError⟩
    · refine .inl ⟨⟨allowed, past, by omega⟩, lt_saturatingAdd ?_ ?_⟩
      · rw [elapsed]
        omega
      · have : 0 < nanosPerSec := by decide
        rw [elapsed]
        omega

end StoredResponse

/-! ## One step -/

/-- What a use of a response relies on. -/
structure Usable (response : StoredResponse) : Prop where
  lifetime : response.initialAge.nanos + response.ttl.nanos < 2 ^ 64 * nanosPerSec
  bounded : response.Bounded

theorem Usable.fresh {response : StoredResponse} (usable : Usable response) {now : Instant}
    (fresh : response.isFresh now = true) : (response.age now).isSome := by
  have below := StoredResponse.isFresh_iff.mp fresh
  rw [Duration.lt_iff] at below
  rw [StoredResponse.age_isSome]
  have := usable.lifetime
  omega

theorem Usable.stale {response : StoredResponse} (usable : Usable response) {now : Instant}
    (use : response.StaleUse now) : (response.age now).isSome :=
  (StoredResponse.bounded_iff usable.lifetime).mp usable.bounded now use

theorem cachedResponse_isSome {stored : StoredResponse} {status : CacheStatus} {now : Instant} :
    (cachedResponse stored status now).isSome = (stored.age now).isSome :=
  Option.isSome_map

theorem reply_panics (id : Nat) (store : Store) (effects : List Effect) (flight : Option Flight)
    {answer : Answer} (made : answer.response.isSome = true) :
    (reply id store effects flight answer).panics = false := by
  obtain ⟨response, h⟩ := Option.isSome_iff_exists.mp made
  simp [reply, h]

namespace World

theorem or_panics {store after : Store} {req : HttpRequest} {use : FreshUse} {now : Instant}
    {cached : Cached} {spawned : Option (Task × UpstreamRequest)}
    (h : FromCache store req use now cached spawned)
    (usable : Stores (fun arc => Usable arc.val) store)
    (unexpired : Stores (fun arc => expired now (.response arc) = false) store)
    (id : Nat) (flight : Option Flight) (next : Option StaleEntry → Stage) :
    (Cached.or id flight next (cached, after, spawned)).panics = false := by
  have here {entry : StaleEntry} (found : store.find req.cacheKey req.headers = some entry) :
      Usable entry.response.val ∧ expired now (.response entry.response) = false := by
    obtain ⟨index, -, -, at_key⟩ := Store.find_eq_some.mp found
    exact ⟨usable _ _ at_key, unexpired _ _ at_key⟩
  cases h with
  | @fresh entry mayServe found mayAnswer =>
      have made := (here found).1.fresh (Bool.and_eq_true_iff.mp mayAnswer).1
      exact reply_panics id after [] flight (cachedResponse_isSome.trans made)
  | @whileRevalidating entry spawned mayServe isGet mayServeStale found within task =>
      obtain ⟨usable, kept⟩ := here found
      have kept : entry.response.val.elapsed now <
          entry.response.val.ttl.saturatingAdd entry.response.val.grace :=
        not_le.mp (of_decide_eq_false kept)
      exact reply_panics id after [] flight
        (cachedResponse_isSome.trans (usable.stale (.inl ⟨within, kept⟩)))
  | @panics entry found fresh overflow =>
      have := (here found).1.fresh fresh
      rw [overflow] at this
      cases this
  | _ => rfl

end World

section

variable [HttpDate]

theorem Sound.usable {cap : Duration} {maxEntry : Nat} {judged : Judgement}
    {stored : StoredResponse} (sound : Sound cap maxEntry judged stored)
    (bounded : stored.Bounded) : Usable stored := by
  obtain ⟨lifetime, -, within⟩ := sound.lifetime
  exact ⟨within.trans_lt lifetime.inRange, bounded⟩

/-- The response of `freshen` has just been stored. -/
theorem Store.freshen_storedAt (store : Store) (entry : StaleEntry)
    (requestPolicy : RequestPolicy) (request : HeaderMap) (update : Fields)
    (age : Option HeaderValue) (now : Clock) :
    (store.freshen entry requestPolicy request update age now).1.storedAt = now.instant := by
  unfold freshen
  simp only
  split
  case h_1 policy vary accepted =>
    split
    case isTrue =>
      cases admits : store.admits entry.response.val.body with
      | true =>
          obtain ⟨after, inserted, -⟩ := insertResponse_of_admits admits entry.key.primary vary
            policy entry.response.val.status (updatedFields entry.response.val.headers update) now
          rw [inserted]
          rfl
      | false =>
          rw [insertResponse_of_not_admits admits]
          rfl
    case isFalse => rfl
  case h_2 =>
    split <;> rfl

theorem freshenFrom_age (actor : Actor) (store : Store) (entry : StaleEntry) (req : HttpRequest)
    (head : Head) (now : Clock) :
    ((freshenFrom actor store entry req head now).1.age now.instant).isSome := by
  have stored : (freshenFrom actor store entry req head now).1.storedAt = now.instant :=
    Store.freshen_storedAt ..
  rw [StoredResponse.age_isSome, StoredResponse.elapsed_nanos, stored, Nat.sub_self]
  exact Duration.inRange _

namespace World

theorem Moves.panics {σ : World} {id : Nat} {req : HttpRequest} {stage : Stage}
    {outcome : Outcome} (moves : Moves σ id req stage outcome)
    (usable : Stores (fun arc => Usable arc.val) σ.store)
    (held : ∀ entry, stage.stale = some entry → Usable entry.response.val) :
    outcome.panics = false := by
  cases moves with
  | lookFirst unexpired found => exact or_panics found usable unexpired id none .joins
  | lookAgain unexpired found =>
      exact or_panics found usable unexpired id _ fun stale => .prepares ⟨stale, _⟩
  | @revalidated exchange stale head now clock =>
      exact reply_panics _ _ _ _ (cachedResponse_isSome.trans (freshenFrom_age (.request id) ..))
  | @onError exchange stale status found error mayServe =>
      rw [Exchange.mayServeOnError, Bool.and_eq_true] at mayServe
      have made := (held stale found).stale (.inr mayServe.2)
      exact reply_panics _ _ _ _ (cachedResponse_isSome.trans made)
  | hangUp h => cases stage <;> cases h <;> rfl
  | _ => rfl

/-! ## Runs -/

/-- Every response in the store is bounded. -/
def BoundedStore (σ : World) : Prop := Stores (fun arc => arc.val.Bounded) σ.store

theorem Kept.usable {σ : World} (kept : Kept σ) (bounded : BoundedStore σ) :
    Stores (fun arc => Usable arc.val) σ.store := by
  intro key arc here
  obtain ⟨actor, judged, -, sound⟩ := kept.stores key arc here
  exact sound.usable (bounded key arc here)

theorem Change.aborted {σ σ' : World} (change : Change σ σ') (running : σ.aborted = false)
    (usable : Stores (fun arc => Usable arc.val) σ.store)
    (held : Holds (fun arc => Usable arc.val) σ) : σ'.aborted = false := by
  cases change with
  | arrive => rfl
  | @request σ₀ id request outcome time here moves =>
      exact Moves.panics moves ((at_reading time).stores usable) fun entry =>
        held.requests id request entry here
  | join => cases (joinFlight σ.store σ.flights _).1 <;> rfl
  | task time => exact (at_reading time).aborted.trans running
  | _ => exact running

/-- In every run in which each step finds only bounded responses in the
store, no age overflows. -/
theorem no_age_overflows [UriSyntax] {base : OriginUrl} {sizeMb : UInt64} {ttl : Duration}
    {events : List Event} {σ : World}
    (along : Runs.Along (step base) (fun σ _ => BoundedStore σ) (start sizeMb ttl) events)
    (hrun : Runs.run (step base) (start sizeMb ttl) events = some σ) : σ.aborted = false := by
  obtain ⟨running, -, -⟩ : σ.aborted = false ∧ Kept σ ∧ Holds (fun arc => Usable arc.val) σ := by
    refine Runs.invariant_along
      (I := fun σ => σ.aborted = false ∧ Kept σ ∧ Holds (fun arc => Usable arc.val) σ)
      (fun σ event σ' invariant bounded h => ?_)
      ⟨rfl, kept_start sizeMb ttl, Holds.start ..⟩ along hrun
    obtain ⟨running, kept, held⟩ := invariant
    have usable := kept.usable bounded
    have change := (step_cases h).2
    exact ⟨change.aborted running usable held, kept.step change, held.change usable change⟩
  exact running

end World

end

namespace World

/-! ## Two runs -/

/-- An origin response with a second of freshness left, at the age of
`u64::MAX - 1` seconds. -/
def oldest : Head :=
  ⟨.ok, [(header.cacheControl,
      ⟨ascii "max-age=18446744073709551615, stale-while-revalidate=60", by decide⟩),
    (header.age, ⟨ascii "18446744073709551614", by decide⟩)]⟩

def clockAt (seconds : Nat) (h : seconds * nanosPerSec < 2 ^ 63 * nanosPerSec) : Clock :=
  ⟨⟨seconds * nanosPerSec, h⟩, exampleClock.system⟩

/-- The response is stored, and asked for again after two seconds. -/
def laterEvents (head : Head) : List World.Event :=
  missEvents head ++ [.arrive 1 (germanRequest []), .look 1 (clockAt 2 (by decide))]

theorem boundedStore_of_empty {σ : World} (empty : σ.store.entries = fun _ => none) :
    BoundedStore σ := by
  intro key arc h
  simp [Store.responseAt, empty] at h

theorem boundedStore_of_single {σ : World} {key : ResponseKey} {arc : Arc StoredResponse}
    (single : σ.store.entries = Function.update (fun _ => none) (.response key)
      (some (.response arc)))
    (bounded : arc.val.Bounded) : BoundedStore σ := by
  intro other found h
  rw [Store.responseAt, single] at h
  by_cases same : other = key
  · subst same
    simp only [Function.update_self, Option.some.injEq] at h
    exact h ▸ bounded
  · simp [Function.update_of_ne, same] at h

set_option maxRecDepth 4000 in
theorem no_age_overflows_example : ∃ (_ : HttpDate) (_ : UriSyntax) (σ : World),
    Runs.run (step exampleOrigin) (start 1 (Duration.fromSecs 300))
        (laterEvents ⟨.ok, byLanguage⟩) = some σ ∧
      σ.aborted = false := by
  let dates : HttpDate := ⟨fun _ => none⟩
  let uris : UriSyntax := ⟨fun _ => true, fun _ => true⟩
  have along : Runs.Along (step exampleOrigin) (fun σ _ => BoundedStore σ)
      (start 1 (Duration.fromSecs 300)) (laterEvents ⟨.ok, byLanguage⟩) := by
    refine (Runs.along_cons rfl).mpr ⟨boundedStore_of_empty rfl, ?_⟩
    refine (Runs.along_cons rfl).mpr ⟨boundedStore_of_empty rfl, ?_⟩
    refine (Runs.along_cons rfl).mpr ⟨boundedStore_of_empty rfl, ?_⟩
    refine (Runs.along_cons rfl).mpr ⟨boundedStore_of_empty rfl, ?_⟩
    refine (Runs.along_cons rfl).mpr ⟨boundedStore_of_empty rfl, ?_⟩
    refine (Runs.along_cons rfl).mpr ⟨boundedStore_of_empty rfl, ?_⟩
    refine (Runs.along_cons rfl).mpr ⟨boundedStore_of_empty rfl, ?_⟩
    refine (Runs.along_cons rfl).mpr ⟨boundedStore_of_empty rfl, ?_⟩
    refine (Runs.along_cons rfl).mpr ⟨boundedStore_of_single rfl (by decide), ?_⟩
    refine (Runs.along_cons rfl).mpr ⟨boundedStore_of_single rfl (by decide), trivial⟩
  obtain ⟨σ, hrun⟩ : ∃ σ, Runs.run (step exampleOrigin) (start 1 (Duration.fromSecs 300))
      (laterEvents ⟨.ok, byLanguage⟩) = some σ := ⟨_, rfl⟩
  exact ⟨dates, uris, σ, hrun, no_age_overflows along hrun⟩

set_option maxRecDepth 4000 in
/-- The response has been stale for a second and is within its window, and
its age is past the last `Duration`. -/
theorem stale_window_aborts : ∃ (_ : HttpDate) (_ : UriSyntax) (σ : World),
    Runs.run (step exampleOrigin) (start 1 (Duration.fromSecs 300)) (laterEvents oldest) =
        some σ ∧
      σ.aborted = true := by
  let dates : HttpDate := ⟨fun _ => none⟩
  let uris : UriSyntax := ⟨fun _ => true, fun _ => true⟩
  exact ⟨dates, uris, _, rfl, by decide +kernel⟩

end World

end Shadowstep
