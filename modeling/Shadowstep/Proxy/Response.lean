import Shadowstep.Proxy.Client
import Shadowstep.Proxy.Fields

/-!
# The client's response

What the proxy answers: a stored response, an error of its own, or the head
of the origin's response. Every answer but an error carries
`X-Shadowstep-Cache`, which the origin cannot set.

* `cacheLabel_cachedResponse`, `cacheLabel_clientHead` — the field says how
  the proxy came by the response.
-/

namespace Shadowstep

open Rust

namespace header

def contentType : HeaderName := ⟨"content-type".toList, by decide⟩

end header

/-- The `X-Shadowstep-Cache` values, plus `bypass` for a request that could
neither be answered from the cache nor stored in it. -/
inductive CacheStatus where
  | hit
  | miss
  | revalidated
  | stale
  | coalesced
  | bypass
deriving DecidableEq

def CacheStatus.value : CacheStatus → VisibleText
  | .hit => ⟨"HIT".toList, by decide⟩
  | .miss => ⟨"MISS".toList, by decide⟩
  | .revalidated => ⟨"REVALIDATED".toList, by decide⟩
  | .stale => ⟨"STALE".toList, by decide⟩
  | .coalesced => ⟨"COALESCED".toList, by decide⟩
  | .bypass => ⟨"BYPASS".toList, by decide⟩

/-- `CACHE_LABELS`. -/
def cacheLabels : List CacheStatus := [.hit, .miss, .revalidated, .stale, .coalesced, .bypass]

/-- How a fresh stored response came to answer a request. -/
inductive FreshUse where
  /-- found on the request's own lookup -/
  | hit
  /-- stored by the flight this request waited for -/
  | coalesced
deriving DecidableEq

/-- The use's `X-Shadowstep-Cache` value. -/
def FreshUse.cacheStatus : FreshUse → CacheStatus
  | .hit => .hit
  | .coalesced => .coalesced

structure HttpResponse where
  status : StatusCode
  headers : HeaderMap
  /-- `none` for the origin's body, which streams -/
  body : Option Bytes

/-- The response's `X-Shadowstep-Cache` value, if it is one the proxy sets. -/
def cacheLabel (response : HttpResponse) : Option CacheStatus :=
  (response.headers.get cacheStatusName).bind fun value =>
    cacheLabels.find? fun status => value.bytes = status.value.toValue.bytes

/-- The client's response from a stored one (RFC 9111 section 4), marked with
`status`. `none` is where `age` panics. -/
def cachedResponse (stored : StoredResponse) (status : CacheStatus) (now : Instant) :
    Option HttpResponse :=
  (stored.age now).map fun age =>
    { status := stored.status
      headers := HeaderMap.insert
        (HeaderMap.insert stored.headers header.age (VisibleText.decimal age.asSecs).toValue)
        cacheStatusName status.value.toValue
      body := some stored.body }

/-- `StatusCode::canonical_reason`, of the statuses the proxy makes. -/
def canonicalReason (status : StatusCode) : Text :=
  if status = .badRequest then "Bad Request".toList
  else if status = .internalServerError then "Internal Server Error".toList
  else if status = .badGateway then "Bad Gateway".toList
  else if status = .gatewayTimeout then "Gateway Timeout".toList
  else []

/-- A plain error response, such as "bad gateway" for a 502. -/
def errorResponse (status : StatusCode) : HttpResponse where
  status := status
  headers := []
  body := some ((toAsciiLowercase (canonicalReason status)).map Char.toUInt8)

/-- The length that the origin declares. -/
def contentLength (head : Head) : Option Nat :=
  (((head.map.get header.contentLength).bind HeaderValue.toStr).bind parseU64).map UInt64.toNat

/-- What `HttpResponseBuilder::streaming` makes of the fields of a body that
has no known length. -/
def streaming (headers : HeaderMap) : HeaderMap :=
  if headers.containsKey header.contentType then headers
  else headers.insert header.contentType ⟨ascii "application/octet-stream", by decide⟩

/-- The head of the client's response to one from the origin. -/
def clientHead (head : Head) : HttpResponse where
  status := head.status
  headers :=
    let marked := HeaderMap.insert (forwardableFields head) cacheStatusName
      CacheStatus.miss.value.toValue
    match contentLength head with
    | some _ => marked
    | none => streaming marked
  body := none

/-! ## Labels -/

theorem cacheLabel_of_get {response : HttpResponse} {status : CacheStatus}
    (value : response.headers.get cacheStatusName = some status.value.toValue) :
    cacheLabel response = some status := by
  simp only [cacheLabel, value, Option.bind_some]
  cases status <;> decide

theorem cacheLabel_inserted (status : CacheStatus) (code : StatusCode) (headers : HeaderMap)
    (body : Option Bytes) :
    cacheLabel ⟨code, headers.insert cacheStatusName status.value.toValue, body⟩ =
      some status :=
  cacheLabel_of_get (by simp [HeaderMap.get, HeaderMap.getAll_insert])

theorem cacheLabel_cachedResponse {stored : StoredResponse} {status : CacheStatus}
    {now : Instant} {response : HttpResponse}
    (h : cachedResponse stored status now = some response) :
    cacheLabel response = some status := by
  obtain ⟨age, -, rfl⟩ := Option.map_eq_some_iff.mp h
  exact cacheLabel_inserted ..

/-- A media type is all that is added. -/
theorem get_streaming {name : HeaderName} (other : name ≠ header.contentType)
    (headers : HeaderMap) : (streaming headers).get name = headers.get name := by
  unfold streaming
  split
  · rfl
  · rw [HeaderMap.get, HeaderMap.getAll_insert, if_neg other, HeaderMap.get]

theorem cacheLabel_clientHead (head : Head) : cacheLabel (clientHead head) = some .miss := by
  have marked : HeaderMap.get (HeaderMap.insert (forwardableFields head) cacheStatusName
      CacheStatus.miss.value.toValue) cacheStatusName = some CacheStatus.miss.value.toValue := by
    simp [HeaderMap.get, HeaderMap.getAll_insert]
  refine cacheLabel_of_get ?_
  rw [clientHead]
  cases contentLength head with
  | some _ => exact marked
  | none => exact (get_streaming (by decide) _).trans marked

theorem cacheLabel_errorResponse (status : StatusCode) :
    cacheLabel (errorResponse status) = none := rfl

end Shadowstep
