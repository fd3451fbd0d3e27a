import Shadowstep.Cache.Store

/-!
# Expiry and the rules for use

`entry_ttl` says when the store drops a response, from its lifetime and its
grace; what may be done with a response is decided elsewhere, from the stale
windows, the validators and the cap. `response_expiry` says that no response
is dropped while one of those uses is left, that its index record outlives
it, and that a response with no use past its lifetime is not kept past it.
-/

namespace Shadowstep

open Rust

/-! ## The retention time -/

/-- The lifetime `Store::new` gives an index record. -/
def Store.indexTtl (store : Store) : Duration :=
  max (store.ttl.saturatingMul 2) (Duration.fromSecs 1)

namespace StaleRules

/-- The windows in which a stale response may be served unvalidated. -/
def windows (rules : StaleRules) : Duration :=
  if rules.mustRevalidate then Duration.zero else max rules.whileRevalidate rules.ifError

theorem grace_nanos (rules : StaleRules) (hasValidator : Bool) (cap : Duration) :
    (rules.grace hasValidator cap).nanos =
      min (max rules.windows.nanos (if hasValidator then cap.nanos else 0)) cap.nanos := by
  rw [grace, Duration.min_nanos, Duration.max_nanos]
  cases hasValidator <;> rfl

/-- A window that is open is one of `windows`. -/
theorem le_windows {rules : StaleRules} (free : rules.mustRevalidate = false) :
    rules.whileRevalidate.nanos ≤ rules.windows.nanos ∧
      rules.ifError.nanos ≤ rules.windows.nanos := by
  simp only [windows, free, Bool.false_eq_true, if_false, Duration.max_nanos]
  omega

theorem windows_eq_zero {rules : StaleRules}
    (none : rules.mustRevalidate = true ∨
      rules.whileRevalidate = Duration.zero ∧ rules.ifError = Duration.zero) :
    rules.windows = Duration.zero := by
  rcases none with must | ⟨stale, error⟩
  · simp [windows, must]
  · simp [windows, stale, error]

end StaleRules

namespace StoredResponse

theorem validators_cons (key : HeaderName) (value : HeaderValue) (rest : Fields) :
    validators ((key, value) :: rest) =
      if key = header.etag then (header.ifNoneMatch, value) :: validators rest
      else if key = header.lastModified then (header.ifModifiedSince, value) :: validators rest
      else validators rest := by
  by_cases tag : key = header.etag
  · simp [validators, tag]
  · by_cases modified : key = header.lastModified
    · have other : header.lastModified ≠ header.etag := modified ▸ tag
      simp [validators, modified, other]
    · simp [validators, tag, modified]

/-- A response has validators when it has an `ETag` or a `Last-Modified`. -/
theorem validators_isEmpty (headers : Fields) :
    (validators headers).isEmpty = true ↔
      HeaderMap.containsKey headers header.etag = false ∧
        HeaderMap.containsKey headers header.lastModified = false := by
  induction headers with
  | nil => simp [validators, HeaderMap.containsKey]
  | cons field rest ih =>
      obtain ⟨key, value⟩ := field
      have named (name : HeaderName) : HeaderMap.containsKey ((key, value) :: rest) name =
          (decide (key = name) || HeaderMap.containsKey rest name) := rfl
      rw [validators_cons, named, named]
      by_cases tag : key = header.etag
      · rw [if_pos tag, decide_eq_true tag]
        simp
      · by_cases modified : key = header.lastModified
        · rw [if_neg tag, if_pos modified, decide_eq_true modified]
          simp
        · -- a field of any other name gives no validator
          rw [if_neg tag, if_neg modified, ih, decide_eq_false tag, decide_eq_false modified]
          simp

end StoredResponse

namespace Store

variable (store : Store) (policy : Storable) (status : StatusCode) (headers : Fields)
  (body : Bytes) (stored : Clock)

/-- What the store keeps of a response, in nanoseconds. -/
theorem entryTtl_response (ptr : Nat) (double : store.ttl.nanos * 2 < 2 ^ 64 * nanosPerSec) :
    (entryTtl (.response ⟨ptr, store.response policy status headers body stored⟩)).nanos =
      min policy.ttl.nanos store.ttl.nanos +
        min (max policy.stale.windows.nanos
          (if (StoredResponse.validators headers).isEmpty then 0 else store.ttl.nanos))
          store.ttl.nanos := by
  have grace := policy.stale.grace_nanos (!(StoredResponse.validators headers).isEmpty) store.ttl
  have ttl := Duration.min_nanos policy.ttl store.ttl
  rw [entryTtl, Duration.saturatingAdd_nanos]
  · show (min policy.ttl store.ttl).nanos + (policy.stale.grace _ _).nanos = _
    rw [grace, ttl]
    cases (StoredResponse.validators headers).isEmpty <;> rfl
  · show (min policy.ttl store.ttl).nanos + (policy.stale.grace _ _).nanos < _
    omega

end Store

/-! ## The uses left -/

/-- What the rules still allow at a reading of the clock: a fresh use, a
stale one in a window that the cap does not cut short, or a revalidation. -/
def StoredResponse.Usable (response : StoredResponse) (cap : Duration) (now : Instant) : Prop :=
  response.isFresh now = true ∨
  ((response.staleness now).any (· < cap) = true ∧
    (response.mayServeWhileRevalidating now = true ∨ response.mayServeOnError now = true)) ∨
  ((HeaderMap.containsKey response.headers header.etag = true ∨
      HeaderMap.containsKey response.headers header.lastModified = true) ∧
    (response.elapsed now).nanos < response.ttl.nanos + cap.nanos)

/-- A response that may be served stale is within its windows. -/
theorem StoredResponse.staleWithin_windows {response : StoredResponse} {now : Instant}
    (allowed : response.mayServeWhileRevalidating now = true ∨
      response.mayServeOnError now = true) :
    (response.elapsed now).nanos < response.ttl.nanos + response.stale.windows.nanos := by
  rcases allowed with allowed | allowed
  all_goals
    obtain ⟨free, stale, past, inside⟩ := staleWithin_iff.mp allowed
    have past := (staleness_eq_some.mp past).2
    have bound := StaleRules.le_windows free
    rw [Duration.lt_iff] at inside
    omega

namespace Store

/-- The store keeps a response for as long as the rules allow a use of it,
and no longer than twice the cap or than its index record. One that has no
use past its lifetime is kept for its lifetime. -/
theorem response_expiry (store : Store) (policy : Storable) (status : StatusCode)
    (headers : Fields) (body : Bytes) (stored : Clock) (ptr : Nat)
    (double : store.ttl.nanos * 2 < 2 ^ 64 * nanosPerSec) :
    let response := store.response policy status headers body stored
    let retention := entryTtl (.response ⟨ptr, response⟩)
    (∀ now, response.Usable store.ttl now → response.elapsed now < retention) ∧
    (∀ now, retention ≤ response.elapsed now → ¬ response.Usable store.ttl now) ∧
    retention.nanos ≤ store.ttl.nanos * 2 ∧
    retention ≤ store.indexTtl ∧
    (HeaderMap.containsKey headers header.etag = false →
      HeaderMap.containsKey headers header.lastModified = false →
      (policy.stale.mustRevalidate = true ∨
        policy.stale.whileRevalidate = Duration.zero ∧ policy.stale.ifError = Duration.zero) →
      retention = response.ttl) := by
  intro response retention
  have kept : retention.nanos = _ :=
    entryTtl_response store policy status headers body stored ptr double
  have ttl : response.ttl.nanos = min policy.ttl.nanos store.ttl.nanos :=
    Duration.min_nanos policy.ttl store.ttl
  have used : ∀ now, response.Usable store.ttl now → response.elapsed now < retention := by
    rintro now (fresh | ⟨capped, allowed⟩ | ⟨validator, inside⟩) <;> rw [Duration.lt_iff, kept]
    · have fresh := StoredResponse.isFresh_iff.mp fresh
      rw [Duration.lt_iff] at fresh
      omega
    · -- the open window is in the grace, and the cap does not cut it short here
      obtain ⟨stale, past, inside⟩ := (Option.any_eq_true _ _).mp capped
      have inside := of_decide_eq_true inside
      have past := (StoredResponse.staleness_eq_some.mp past).2
      have window : _ < response.ttl.nanos + policy.stale.windows.nanos :=
        StoredResponse.staleWithin_windows allowed
      rw [Duration.lt_iff] at inside
      omega
    · -- with a validator the grace is the whole cap
      have validators : (StoredResponse.validators headers).isEmpty = false := by
        rw [← Bool.not_eq_true, StoredResponse.validators_isEmpty]
        rintro ⟨noTag, noModified⟩
        rcases validator with tag | modified
        · exact absurd (tag.symm.trans noTag) (by simp)
        · exact absurd (modified.symm.trans noModified) (by simp)
      rw [validators, if_neg (by simp)]
      omega
  refine ⟨used, fun now past usable => not_lt.mpr past (used now usable), ?_, ?_, ?_⟩
  · omega
  · have twice : (store.ttl.saturatingMul 2).nanos = store.ttl.nanos * 2 :=
      Duration.saturatingMul_nanos double
    rw [Duration.le_iff, indexTtl, Duration.max_nanos, twice]
    omega
  · intro noTag noModified noWindow
    have validators := (StoredResponse.validators_isEmpty headers).mpr ⟨noTag, noModified⟩
    have windows := StaleRules.windows_eq_zero noWindow
    refine Duration.ext ?_
    rw [kept, ttl, validators, windows]
    simp

/-- A response that is fresh for a minute and may stand in for an error for
half a minute more, kept in the last of those seconds. -/
theorem response_expiry_example : ∃ (store : Store) (policy : Storable) (stored : Clock)
    (now : Instant), store.ttl.nanos * 2 < 2 ^ 64 * nanosPerSec ∧
      (store.response policy .ok [] [] stored).isFresh now = false ∧
      (store.response policy .ok [] [] stored).mayServeOnError now = true ∧
      (store.response policy .ok [] [] stored).elapsed now <
        entryTtl (.response ⟨0, store.response policy .ok [] [] stored⟩) := by
  refine ⟨Store.new 64 (Duration.fromSecs 86400),
    ⟨Duration.fromSecs 60, Duration.zero, ⟨Duration.zero, Duration.fromSecs 30, false⟩⟩,
    ⟨Instant.zero, ⟨0, by decide, by decide⟩⟩, ⟨89 * nanosPerSec, by decide⟩,
    by decide, by decide +kernel, by decide +kernel, ?_⟩
  exact (response_expiry _ _ _ _ _ _ 0 (by decide)).1 _
    (.inr (.inl ⟨by decide +kernel, .inr (by decide +kernel)⟩))

end Store

end Shadowstep
