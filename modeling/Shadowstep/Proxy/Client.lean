import Shadowstep.Cache.Store

/-!
# The client's request

A request as actix hands it to the proxy, and `forwarded.rs`: what the proxy
believes of the client's address, scheme and host, and the request headers
through which a client could claim another.
-/

namespace Shadowstep

open Rust

/-- An `IpAddr`, as it prints: digits, letters and separators, no blanks. -/
@[ext]
structure IpAddr where
  printed : Text
  plain : ∀ c ∈ printed, 0x2e ≤ c.toNat ∧ c.toNat < 0x67
deriving DecidableEq

/-- `ip.to_string()`. -/
def IpAddr.toVisible (ip : IpAddr) : VisibleText :=
  ⟨ip.printed, fun c hc => by
    have := ip.plain c hc
    omega⟩

/-- `HttpRequest`, with the listener's `AppConfig`. -/
structure HttpRequest where
  method : Method
  /-- the target's authority, in absolute form or over HTTP/2 -/
  authority : Option VisibleText
  pathAndQuery : Option Text
  headers : HeaderMap
  /-- the TCP peer -/
  peerAddr : Option IpAddr
  /-- `AppConfig::secure` -/
  secure : Bool
  /-- `AppConfig::host` -/
  listenerHost : VisibleText

/-- `req.uri().path_and_query().map_or("", ..)`. -/
def HttpRequest.path (req : HttpRequest) : Text := req.pathAndQuery.getD []

/-- `HeaderValue::to_str().ok()`, with what it has checked. -/
def HeaderValue.toVisible (value : HeaderValue) : Option VisibleText :=
  if h : ∀ b ∈ value.bytes, isVisibleAscii b = true then
    some ⟨value.bytes.map fun b => Char.ofNat b.toNat, by
      intro c hc
      obtain ⟨b, hb, rfl⟩ := List.mem_map.mp hc
      have visible := h b hb
      have same : (Char.ofNat b.toNat).toNat = b.toNat := by
        rw [Char.ofNat, dif_pos (.inl (by have := b.toNat_lt; omega))]
        rfl
      simp only [isVisibleAscii, Bool.or_eq_true, Bool.and_eq_true, beq_iff_eq,
        decide_eq_true_eq, ← UInt8.toNat_inj, UInt8.le_iff_toNat_le, UInt8.lt_iff_toNat_lt]
        at visible
      rw [same]
      simpa using visible⟩
  else none

/-! ## Headers a client may not set -/

namespace header

def xForwardedFor : HeaderName := ⟨"x-forwarded-for".toList, by decide⟩
def xForwardedHost : HeaderName := ⟨"x-forwarded-host".toList, by decide⟩
def xForwardedProto : HeaderName := ⟨"x-forwarded-proto".toList, by decide⟩
def xOriginalUrl : HeaderName := ⟨"x-original-url".toList, by decide⟩

end header

/-- Request headers through which a client can claim a different address,
host, scheme or path prefix. -/
def clientForwardingHeaders : List HeaderName :=
  [header.forwarded, header.xForwardedFor, header.xForwardedHost, header.xForwardedProto,
    ⟨"x-forwarded-port".toList, by decide⟩, ⟨"x-forwarded-server".toList, by decide⟩,
    ⟨"x-forwarded-prefix".toList, by decide⟩, ⟨"x-forwarded-uri".toList, by decide⟩,
    ⟨"x-host".toList, by decide⟩, ⟨"x-forwarded-scheme".toList, by decide⟩,
    ⟨"x-original-host".toList, by decide⟩, ⟨"front-end-https".toList, by decide⟩,
    ⟨"x-real-ip".toList, by decide⟩]

/-- Request headers that override the request path in some origin frameworks. -/
def urlOverrideHeaders : List HeaderName :=
  [header.xOriginalUrl, ⟨"x-rewrite-url".toList, by decide⟩]

/-! ## The client -/

/-- The client's address, scheme and host, taken only from the connection and
the request target. -/
structure ClientInfo where
  ip : Option IpAddr
  scheme : VisibleText
  host : VisibleText

def ClientInfo.fromRequest (req : HttpRequest) : ClientInfo where
  ip := req.peerAddr
  scheme := if req.secure then ⟨"https".toList, by decide⟩ else ⟨"http".toList, by decide⟩
  -- the authority of the target goes before `Host` (RFC 9112 section 3.2.2)
  host := (req.authority.or ((req.headers.get header.host).bind HeaderValue.toVisible)).getD
    req.listenerHost

/-- The key of a request: scheme and host are the ones the origin is told. -/
def HttpRequest.cacheKey (req : HttpRequest) : PrimaryKey :=
  let client := ClientInfo.fromRequest req
  .new client.scheme.text client.host.text req.path

end Shadowstep
