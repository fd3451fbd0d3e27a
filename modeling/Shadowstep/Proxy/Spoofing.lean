import Shadowstep.Proxy.Upstream

/-!
# Forwarding fields of the client

A client may send any of the fields in `CLIENT_FORWARDING_HEADERS` and
`URL_OVERRIDE_HEADERS`. Nothing that the proxy works out of a request depends
on them: two requests that differ in nothing else are one request to the rest
of the proxy and to the origin. The fields of these names in the origin's
request are the proxy's own, and `OriginFields` says where each value is from.
The one value among them that a client chooses freely is its `Host`, which is
shown to the origin as `X-Forwarded-Host` when the target names no authority.
-/

namespace Shadowstep

open Rust

/-- A field that is only ever the proxy's own on the way to the origin. -/
def spoofable (name : HeaderName) : Bool :=
  clientForwardingHeaders.contains name || urlOverrideHeaders.contains name

theorem passesOn_of_spoofable {name : HeaderName} (spoofed : spoofable name = true)
    (options : List Text) : passesOn options name = false := by
  unfold passesOn
  rcases Bool.or_eq_true_iff.mp spoofed with forwarding | override
  · rw [forwarding, Bool.not_true, Bool.and_false, Bool.false_and, Bool.false_and]
  · rw [override, Bool.not_true, Bool.and_false, Bool.false_and]

/-- Two requests on one connection that differ in spoofable fields only. -/
structure SameButSpoofed (left right : HttpRequest) : Prop where
  method : left.method = right.method
  authority : left.authority = right.authority
  pathAndQuery : left.pathAndQuery = right.pathAndQuery
  peerAddr : left.peerAddr = right.peerAddr
  secure : left.secure = right.secure
  listenerHost : left.listenerHost = right.listenerHost
  fields : ∀ name, spoofable name = false →
    left.headers.getAll name = right.headers.getAll name

namespace SameButSpoofed

variable {left right : HttpRequest}

/-! ## What the proxy reads of a request -/

theorem get (same : SameButSpoofed left right) {name : HeaderName}
    (plain : spoofable name = false) : left.headers.get name = right.headers.get name := by
  rw [HeaderMap.get, same.fields name plain, HeaderMap.get]

theorem containsKey (same : SameButSpoofed left right) {name : HeaderName}
    (plain : spoofable name = false) :
    left.headers.containsKey name = right.headers.containsKey name := by
  rw [HeaderMap.containsKey_eq_getAll, same.fields name plain, HeaderMap.containsKey_eq_getAll]

theorem any_containsKey (same : SameButSpoofed left right) {names : List HeaderName}
    (plain : ∀ name ∈ names, spoofable name = false) :
    names.any left.headers.containsKey = names.any right.headers.containsKey := by
  induction names with
  | nil => rfl
  | cons name names ih =>
    rw [List.any_cons, List.any_cons, same.containsKey (plain name List.mem_cons_self),
      ih fun other h => plain other (List.mem_cons_of_mem _ h)]

theorem client (same : SameButSpoofed left right) :
    ClientInfo.fromRequest left = ClientInfo.fromRequest right := by
  simp only [ClientInfo.fromRequest, same.peerAddr, same.secure, same.authority,
    same.listenerHost, same.get (show spoofable header.host = false by decide)]

theorem cacheKey (same : SameButSpoofed left right) : left.cacheKey = right.cacheKey := by
  simp only [HttpRequest.cacheKey, same.client, HttpRequest.path, same.pathAndQuery]

theorem policy (same : SameButSpoofed left right) :
    RequestPolicy.new left.method left.headers = RequestPolicy.new right.method right.headers := by
  simp only [RequestPolicy.new, same.method, same.fields header.cacheControl (by decide),
    same.containsKey (show spoofable header.authorization = false by decide),
    same.containsKey (show spoofable header.cookie = false by decide),
    same.any_containsKey (show ∀ name ∈ methodOverrideHeaders, spoofable name = false by decide),
    same.any_containsKey (show ∀ name ∈ preconditionHeaders, spoofable name = false by decide)]

/-! ## What the origin is sent -/

theorem options (same : SameButSpoofed left right) : left.options = right.options := by
  rw [HttpRequest.options, same.fields header.connection (by decide), HttpRequest.options]

theorem passed (same : SameButSpoofed left right) (name : HeaderName) :
    (if passesOn left.options name then left.headers.getAll name else []) =
      if passesOn right.options name then right.headers.getAll name else [] := by
  rw [same.options]
  cases spoofed : spoofable name with
  | false => rw [same.fields name spoofed]
  | true =>
    -- a spoofable field is never passed on
    rw [passesOn_of_spoofable spoofed, if_neg Bool.false_ne_true, if_neg Bool.false_ne_true]

theorem upstreamHeaders_eq (same : SameButSpoofed left right) (base : OriginUrl)
    (name : HeaderName) :
    (upstreamHeaders left base (ClientInfo.fromRequest left)).getAll name =
      (upstreamHeaders right base (ClientInfo.fromRequest right)).getAll name := by
  rw [getAll_upstreamHeaders, getAll_upstreamHeaders, same.passed, same.client]

end SameButSpoofed

/-- Two origin requests with the same fields, each in its own order. -/
structure SameUpstream (left right : UpstreamRequest) : Prop where
  method : left.method = right.method
  target : left.target = right.target
  headers : ∀ name, left.headers.getAll name = right.headers.getAll name

theorem SameButSpoofed.upstream [UriSyntax] {left right : HttpRequest}
    (same : SameButSpoofed left right) (base : OriginUrl) :
    Option.Rel SameUpstream (left.upstream base) (right.upstream base) := by
  have path : left.path = right.path := by
    rw [HttpRequest.path, same.pathAndQuery, HttpRequest.path]
  simp only [HttpRequest.upstream, upstreamRequest, path]
  split
  · exact .some ⟨same.method, rfl, same.upstreamHeaders_eq base⟩
  · exact .none

/-- The fields of the origin's request that a client could not set, and where
their values come from. -/
structure OriginFields (req : HttpRequest) (base : OriginUrl) (headers : HeaderMap) : Prop where
  host : headers.getAll header.host = ((upstreamHost base).map VisibleText.toValue).toList
  forwardedFor : headers.getAll header.xForwardedFor =
    (req.peerAddr.map fun ip => ip.toVisible.toValue).toList
  forwardedProto : headers.getAll header.xForwardedProto =
    [(if req.secure then ⟨"https".toList, by decide⟩ else ⟨"http".toList, by decide⟩ :
      VisibleText).toValue]
  /-- the target's authority, else the client's `Host`, else the listener's -/
  forwardedHost : headers.getAll header.xForwardedHost =
    [((req.authority.or ((req.headers.get header.host).bind HeaderValue.toVisible)).getD
      req.listenerHost).toValue]
  others : ∀ name, spoofable name = true → name ∉ ownNames → headers.getAll name = []

theorem originFields (req : HttpRequest) (base : OriginUrl) :
    OriginFields req base (upstreamHeaders req base (ClientInfo.fromRequest req)) where
  host := upstream_host req base _
  forwardedFor := upstream_forwardedFor req base _
  forwardedProto := upstream_forwardedProto req base _
  forwardedHost := upstream_forwardedHost req base _
  others := by
    intro name spoofed other
    rw [upstream_other req base _ other, passesOn_of_spoofable spoofed,
      if_neg Bool.false_ne_true]

/-- Spoofable fields change nothing that the proxy works out of a request, and
none of the client's reaches the origin. -/
theorem spoofed_fields_have_no_influence [UriSyntax] {left right : HttpRequest}
    (same : SameButSpoofed left right) (base : OriginUrl) :
    ClientInfo.fromRequest left = ClientInfo.fromRequest right ∧
      left.cacheKey = right.cacheKey ∧
      RequestPolicy.new left.method left.headers = .new right.method right.headers ∧
      Option.Rel SameUpstream (left.upstream base) (right.upstream base) ∧
      ∀ sent, left.upstream base = some sent → OriginFields left base sent.headers := by
  refine ⟨same.client, same.cacheKey, same.policy, same.upstream base, ?_⟩
  intro sent sends
  rw [upstream_headers sends]
  exact originFields left base

/-! ## A spoofing client -/

/-- A request that claims another host, another path and another client. -/
def spoofedRequest : HttpRequest :=
  germanRequest [(header.xForwardedHost, ⟨ascii "evil.example", by decide⟩),
    (header.xOriginalUrl, ⟨ascii "/admin", by decide⟩),
    (header.xForwardedFor, ⟨ascii "1.2.3.4", by decide⟩)]

theorem sameButSpoofed_example : SameButSpoofed spoofedRequest (germanRequest []) where
  method := rfl
  authority := rfl
  pathAndQuery := rfl
  peerAddr := rfl
  secure := rfl
  listenerHost := rfl
  fields := by
    intro name plain
    have skip {spoofed : HeaderName} (h : spoofable spoofed = true) (value : HeaderValue)
        (rest : HeaderMap) :
        HeaderMap.getAll ((spoofed, value) :: rest) name = HeaderMap.getAll rest name := by
      rw [HeaderMap.getAll_cons, if_neg]
      rintro rfl
      rw [h] at plain
      cases plain
    rw [spoofedRequest, germanRequest, germanRequest, HeaderMap.getAll_cons, skip (by decide),
      skip (by decide), skip (by decide), ← HeaderMap.getAll_cons]

theorem spoofed_fields_have_no_influence_example : ∃ (_ : UriSyntax) (sent : UpstreamRequest),
    spoofedRequest.upstream exampleOrigin = some sent ∧
      spoofedRequest.cacheKey = (germanRequest []).cacheKey ∧
      OriginFields spoofedRequest exampleOrigin sent.headers := by
  let uris : UriSyntax := ⟨fun _ => true, fun _ => true⟩
  rcases spoofed_fields_have_no_influence sameButSpoofed_example exampleOrigin with
    ⟨-, key, -, -, own⟩
  exact ⟨uris, _, rfl, key, own _ rfl⟩

/-- The values that the connection, the request target and the configuration
give. -/
def HttpRequest.outside (req : HttpRequest) (base : OriginUrl) : List HeaderValue :=
  (req.peerAddr.map fun ip => ip.toVisible.toValue).toList ++
    [(ClientInfo.fromRequest req).scheme.toValue, req.listenerHost.toValue] ++
    (req.authority.map VisibleText.toValue).toList ++
    ((upstreamHost base).map VisibleText.toValue).toList

/-- The client's `Host` reaches the origin as `X-Forwarded-Host`. -/
theorem host_is_forwarded : ∃ (_ : UriSyntax) (req : HttpRequest) (sent : UpstreamRequest)
    (value : HeaderValue), req.upstream exampleOrigin = some sent ∧
      req.headers.get header.host = some value ∧
      sent.headers.getAll header.xForwardedHost = [value] ∧
      value ∉ req.outside exampleOrigin := by
  let uris : UriSyntax := ⟨fun _ => true, fun _ => true⟩
  exact ⟨uris, germanRequest [(header.host, ⟨ascii "shop.example", by decide⟩)], _,
    ⟨ascii "shop.example", by decide⟩, rfl, rfl, by decide, by decide⟩

end Shadowstep
