import Shadowstep.Proxy.Client
import Shadowstep.Proxy.Fields
import Shadowstep.Cache.Sequence

/-!
# The origin's request

`upstream_request`: the fields of the client's request that go on to the
origin, and those the proxy puts in their place. The cache key is computed
from the client's own fields, so a `Vary` name can be one whose value the
origin is shown otherwise.

* `upstream_values_agree_iff` — when two requests with one cache key show
  the origin the same `Vary` values.
-/

namespace Shadowstep

open Rust

/-! ## The request -/

/-- What the proxy reads of the origin's `Url`. -/
structure OriginUrl where
  /-- `url[..Position::AfterPath]` -/
  upToPath : Text
  hostStr : Option VisibleText
  portOrKnownDefault : Option Nat

/-- The Host header for the origin: its host, and its port unless that is 80
or 443. -/
def upstreamHost (base : OriginUrl) : Option VisibleText :=
  base.hostStr.map fun host =>
    match base.portOrKnownDefault with
    | some 80 | some 443 | none => host
    | some port => (host.append ⟨":".toList, by decide⟩).append (.decimal port)

structure UpstreamRequest where
  method : Method
  target : Text
  headers : HeaderMap

/-- What other crates make of a request to the origin. -/
class UriSyntax where
  /-- whether `Uri::try_from` accepts a text -/
  isUri : Text → Bool
  /-- whether hyper builds the request once it has its body -/
  builds : UpstreamRequest → Bool

/-- Whether the client's fields of a name go on to the origin, with
`options` the names that the client's `Connection` lists. -/
def passesOn (options : List Text) (name : HeaderName) : Bool :=
  name ≠ header.host && !clientForwardingHeaders.contains name &&
    !urlOverrideHeaders.contains name && isEndToEnd name options

/-- The options that a request's `Connection` lists. -/
def HttpRequest.options (req : HttpRequest) : List Text :=
  connectionOptions (req.headers.getAll header.connection)

/-- The fields of the origin's request. -/
def upstreamHeaders (req : HttpRequest) (base : OriginUrl) (client : ClientInfo) : HeaderMap :=
  req.headers.filter (fun (name, _) => passesOn req.options name) ++
    ((upstreamHost base).map fun host => (header.host, host.toValue)).toList ++
    (client.ip.map fun ip => (header.xForwardedFor, ip.toVisible.toValue)).toList ++
    [(header.xForwardedProto, client.scheme.toValue)] ++
    [(header.xForwardedHost, client.host.toValue)]

/-- The origin request for `req`, without its body. `none` when the target
URI is invalid. -/
def upstreamRequest [UriSyntax] (req : HttpRequest) (base : OriginUrl) (client : ClientInfo)
    (pathAndQuery : Text) : Option UpstreamRequest :=
  let target := base.upToPath.rdropWhile (· = '/') ++ pathAndQuery
  if UriSyntax.isUri target then
    some ⟨req.method, target, upstreamHeaders req base client⟩
  else none

/-! ## The values of one name -/

theorem varyValue_congr {left right : HeaderMap} {name : HeaderName}
    (h : left.getAll name = right.getAll name) : varyValue left name = varyValue right name := by
  simp only [varyValue, h]

theorem varyValue_eq_none {map : HeaderMap} {name : HeaderName} :
    varyValue map name = none ↔ map.getAll name = [] := by
  simp [varyValue]

/-- The value of a field that the proxy has set. -/
theorem varyValue_of_text {map : HeaderMap} {name : HeaderName} {text : VisibleText}
    (h : map.getAll name = [text.toValue]) : varyValue map name = some (trim text.text) := by
  have ascii : fromUtf8Lossy text.toValue.bytes = text.text :=
    fromUtf8Lossy_ascii fun c hc => by
      have := text.visible c hc
      omega
  simp [varyValue, h, ascii, List.intercalate]

theorem getAll_toList {α : Type} (value : Option α) (f : α → HeaderValue)
    (set name : HeaderName) :
    HeaderMap.getAll (value.map fun a => (set, f a)).toList name =
      if set = name then (value.map f).toList else [] := by
  cases value <;> simp [HeaderMap.getAll_cons]

/-- The values of a name in the origin's request: the client's when the name
is passed on, and the proxy's own. -/
theorem getAll_upstreamHeaders (req : HttpRequest) (base : OriginUrl) (client : ClientInfo)
    (name : HeaderName) :
    (upstreamHeaders req base client).getAll name =
      (if passesOn req.options name then req.headers.getAll name else []) ++
        (if header.host = name then ((upstreamHost base).map VisibleText.toValue).toList else []) ++
        (if header.xForwardedFor = name then
          (client.ip.map fun ip => ip.toVisible.toValue).toList else []) ++
        (if header.xForwardedProto = name then [client.scheme.toValue] else []) ++
        (if header.xForwardedHost = name then [client.host.toValue] else []) := by
  have passed := HeaderMap.getAll_filter req.headers (passesOn req.options) name
  simp only [upstreamHeaders, HeaderMap.getAll_append, getAll_toList, HeaderMap.getAll_cons,
    HeaderMap.getAll_nil]
  rw [passed]

theorem upstream_host (req : HttpRequest) (base : OriginUrl) (client : ClientInfo) :
    (upstreamHeaders req base client).getAll header.host =
      ((upstreamHost base).map VisibleText.toValue).toList := by
  have dropped : passesOn req.options header.host = false := by
    simp [passesOn]
  rw [getAll_upstreamHeaders, dropped, if_neg Bool.false_ne_true, if_pos rfl, if_neg (by decide),
    if_neg (by decide), if_neg (by decide)]
  simp

theorem upstream_forwardedFor (req : HttpRequest) (base : OriginUrl) (client : ClientInfo) :
    (upstreamHeaders req base client).getAll header.xForwardedFor =
      (client.ip.map fun ip => ip.toVisible.toValue).toList := by
  have dropped : passesOn req.options header.xForwardedFor = false := by
    simp [passesOn, clientForwardingHeaders]
  rw [getAll_upstreamHeaders, dropped, if_neg Bool.false_ne_true, if_neg (by decide), if_pos rfl,
    if_neg (by decide), if_neg (by decide)]
  simp

theorem upstream_forwardedProto (req : HttpRequest) (base : OriginUrl) (client : ClientInfo) :
    (upstreamHeaders req base client).getAll header.xForwardedProto =
      [client.scheme.toValue] := by
  have dropped : passesOn req.options header.xForwardedProto = false := by
    simp [passesOn, clientForwardingHeaders]
  rw [getAll_upstreamHeaders, dropped, if_neg Bool.false_ne_true, if_neg (by decide), if_neg (by decide),
    if_pos rfl, if_neg (by decide)]
  simp

theorem upstream_forwardedHost (req : HttpRequest) (base : OriginUrl) (client : ClientInfo) :
    (upstreamHeaders req base client).getAll header.xForwardedHost = [client.host.toValue] := by
  have dropped : passesOn req.options header.xForwardedHost = false := by
    simp [passesOn, clientForwardingHeaders]
  rw [getAll_upstreamHeaders, dropped, if_neg Bool.false_ne_true, if_neg (by decide), if_neg (by decide),
    if_neg (by decide), if_pos rfl]
  simp

/-- The names that the proxy sets itself. -/
def ownNames : List HeaderName :=
  [header.host, header.xForwardedFor, header.xForwardedProto, header.xForwardedHost]

theorem upstream_other (req : HttpRequest) (base : OriginUrl) (client : ClientInfo)
    {name : HeaderName} (other : name ∉ ownNames) :
    (upstreamHeaders req base client).getAll name =
      if passesOn req.options name then req.headers.getAll name else [] := by
  simp only [ownNames, List.mem_cons, List.not_mem_nil, or_false, not_or] at other
  obtain ⟨host, for', proto, host'⟩ := other
  rw [getAll_upstreamHeaders]
  simp [Ne.symm host, Ne.symm for', Ne.symm proto, Ne.symm host']

/-! ## Two requests with one key -/

/-- Whether a request's `Connection` lists a name. -/
def HttpRequest.lists (req : HttpRequest) (name : HeaderName) : Bool :=
  req.options.any fun option => option = name.asStr

theorem passesOn_eq (req : HttpRequest) (name : HeaderName) :
    passesOn req.options name = (passesOn [] name && !req.lists name) := by
  simp [passesOn, isEndToEnd, HttpRequest.lists, Bool.and_assoc]

/-- What the cache key does not cover of a `Vary` name: the peer's address,
blanks and letter case of the host, and whether `Connection` takes the
client's fields out. -/
structure Covered (r₁ r₂ : HttpRequest) (name : HeaderName) : Prop where
  address : name = header.xForwardedFor → r₁.peerAddr = r₂.peerAddr
  host : name = header.xForwardedHost → trim (ClientInfo.fromRequest r₁).host.text =
    trim (ClientInfo.fromRequest r₂).host.text
  listed : passesOn [] name = true → r₁.headers.containsKey name = true →
    r₁.lists name = r₂.lists name

theorem scheme_eq_of_key {r₁ r₂ : HttpRequest} (h : r₁.cacheKey = r₂.cacheKey) :
    (ClientInfo.fromRequest r₁).scheme = (ClientInfo.fromRequest r₂).scheme := by
  have schemes : toAsciiLowercase (ClientInfo.fromRequest r₁).scheme.text =
      toAsciiLowercase (ClientInfo.fromRequest r₂).scheme.text := congrArg PrimaryKey.scheme h
  have different : toAsciiLowercase "https".toList ≠ toAsciiLowercase "http".toList := by decide
  simp only [ClientInfo.fromRequest] at schemes ⊢
  cases first : r₁.secure <;> cases second : r₂.secure
  · rfl
  · simp only [first, second, Bool.false_eq_true, ↓reduceIte] at schemes
    exact absurd schemes.symm different
  · simp only [first, second, Bool.false_eq_true, ↓reduceIte] at schemes
    exact absurd schemes different
  · rfl

theorem trim_printed (ip : IpAddr) : trim ip.printed = ip.printed :=
  trim_eq_self fun c hc => by
    have := ip.plain c hc
    simp only [isWhitespace, Bool.or_eq_false_iff, Bool.and_eq_false_iff, beq_eq_false_iff_ne,
      decide_eq_false_iff_not]
    omega

/-- The address the origin is shown is the peer's. -/
theorem forwardedFor_value (req : HttpRequest) (base : OriginUrl) :
    varyValue (upstreamHeaders req base (ClientInfo.fromRequest req)) header.xForwardedFor =
      req.peerAddr.map IpAddr.printed := by
  have shown := upstream_forwardedFor req base (ClientInfo.fromRequest req)
  cases peer : req.peerAddr with
  | none =>
      refine varyValue_eq_none.mpr ?_
      rw [shown, ClientInfo.fromRequest, peer]
      rfl
  | some ip =>
      have value : (upstreamHeaders req base (ClientInfo.fromRequest req)).getAll
          header.xForwardedFor = [ip.toVisible.toValue] := by
        rw [shown, ClientInfo.fromRequest, peer]
        rfl
      rw [varyValue_of_text value]
      exact congrArg some (trim_printed ip)

/-- Two requests that differ in what `Connection` lists show the origin the
same only when neither has the field. -/
theorem ordinary_value_agrees_iff {r₁ r₂ : HttpRequest} (base : OriginUrl) {name : HeaderName}
    (ordinary : name ∉ ownNames)
    (values : varyValue r₁.headers name = varyValue r₂.headers name) :
    varyValue (upstreamHeaders r₁ base (ClientInfo.fromRequest r₁)) name =
        varyValue (upstreamHeaders r₂ base (ClientInfo.fromRequest r₂)) name ↔
      (passesOn [] name = true → r₁.headers.containsKey name = true →
        r₁.lists name = r₂.lists name) := by
  have shown (req : HttpRequest) :
      varyValue (upstreamHeaders req base (ClientInfo.fromRequest req)) name =
        if passesOn [] name && !req.lists name then varyValue req.headers name else none := by
    have all := upstream_other req base (ClientInfo.fromRequest req) ordinary
    rw [passesOn_eq] at all
    split at all
    case isTrue kept => rw [if_pos kept, varyValue_congr all]
    case isFalse dropped => rw [if_neg dropped, varyValue_eq_none.mpr all]
  have absent : varyValue r₁.headers name = none ↔ ¬ r₁.headers.containsKey name = true := by
    rw [varyValue_eq_none, HeaderMap.containsKey_iff, not_exists, List.eq_nil_iff_forall_not_mem]
    simp only [HeaderMap.mem_getAll]
  rw [shown r₁, shown r₂, ← values]
  cases passesOn [] name with
  | false => simp
  | true => cases r₁.lists name <;> cases r₂.lists name <;> simp [absent, @eq_comm _ none]

/-- The values of one name that two requests with one key show the origin. -/
theorem upstream_value_agrees_iff {r₁ r₂ : HttpRequest} (base : OriginUrl) {name : HeaderName}
    (key : r₁.cacheKey = r₂.cacheKey)
    (values : varyValue r₁.headers name = varyValue r₂.headers name) :
    varyValue (upstreamHeaders r₁ base (ClientInfo.fromRequest r₁)) name =
        varyValue (upstreamHeaders r₂ base (ClientInfo.fromRequest r₂)) name ↔
      Covered r₁ r₂ name := by
  by_cases own : name ∈ ownNames
  · -- the proxy sets these itself, and passes on none of the client's
    have all : ∀ set ∈ ownNames, passesOn [] set = false := by decide
    have dropped := all name own
    have unlisted : passesOn [] name = true → r₁.headers.containsKey name = true →
        r₁.lists name = r₂.lists name := fun passes => by simp [dropped] at passes
    simp only [ownNames, List.mem_cons, List.not_mem_nil, or_false] at own
    obtain rfl | rfl | rfl | rfl := own
    · refine iff_of_true (varyValue_congr ?_)
        ⟨fun h => absurd h (by decide), fun h => absurd h (by decide), unlisted⟩
      rw [upstream_host, upstream_host]
    · rw [forwardedFor_value, forwardedFor_value]
      constructor
      · intro h
        refine ⟨fun _ => ?_, fun h => absurd h (by decide), unlisted⟩
        exact Option.map_injective (fun _ _ => IpAddr.ext) h
      · intro covered
        rw [covered.address rfl]
    · refine iff_of_true (varyValue_congr ?_)
        ⟨fun h => absurd h (by decide), fun h => absurd h (by decide), unlisted⟩
      rw [upstream_forwardedProto, upstream_forwardedProto, scheme_eq_of_key key]
    · rw [varyValue_of_text (upstream_forwardedHost ..),
        varyValue_of_text (upstream_forwardedHost ..), Option.some.injEq]
      exact ⟨fun h => ⟨fun h => absurd h (by decide), fun _ => h, unlisted⟩,
        fun covered => covered.host rfl⟩
  · rw [ordinary_value_agrees_iff base own values]
    refine ⟨fun listed => ⟨?_, ?_, listed⟩, fun covered => covered.listed⟩
    · rintro rfl
      exact absurd (by decide) own
    · rintro rfl
      exact absurd (by decide) own

/-- The origin request of a client request, as `forward` builds it. -/
def HttpRequest.upstream [UriSyntax] (req : HttpRequest) (base : OriginUrl) :
    Option UpstreamRequest :=
  upstreamRequest req base (ClientInfo.fromRequest req) req.path

theorem upstream_headers [UriSyntax] {req : HttpRequest} {base : OriginUrl}
    {sent : UpstreamRequest} (h : req.upstream base = some sent) :
    sent.headers = upstreamHeaders req base (ClientInfo.fromRequest req) := by
  simp only [HttpRequest.upstream, upstreamRequest] at h
  split at h
  · rw [← Option.some.inj h]
  · cases h

/-- A lookup for `r₂` is answered with the response to `r₁`. The origin was
shown the values that it would be shown for `r₂` when the key covers each of
the `Vary` names. -/
theorem upstream_values_agree_iff [HttpDate] [UriSyntax] {r₁ r₂ : HttpRequest} {base : OriginUrl}
    {status : StatusCode} {response : HeaderMap} {now : Clock} {policy : Storable} {vary : Vary}
    {sent₁ sent₂ : UpstreamRequest} (key : r₁.cacheKey = r₂.cacheKey)
    (accepted : storable (.new r₁.method r₁.headers) r₁.headers status response now =
      some (policy, vary))
    (values : vary.values = varyValues vary.names r₂.headers)
    (sends₁ : r₁.upstream base = some sent₁) (sends₂ : r₂.upstream base = some sent₂) :
    varyValues vary.names sent₁.headers = varyValues vary.names sent₂.headers ↔
      ∀ name ∈ vary.names, Covered r₁ r₂ name := by
  obtain ⟨_, _, accepted⟩ := storable_spec accepted
  rw [accepted.values] at values
  simp only [varyValues, List.map_inj_left] at values ⊢
  rw [upstream_headers sends₁, upstream_headers sends₂]
  exact forall₂_congr fun name hname => upstream_value_agrees_iff base key (values name hname)

/-! ## Two clients -/

def acceptLanguage : HeaderName := ⟨"accept-language".toList, by decide⟩

/-- A request for the page in German. -/
def germanRequest (rest : HeaderMap) : HttpRequest where
  method := .get
  authority := none
  pathAndQuery := some "/".toList
  headers := (acceptLanguage, ⟨ascii "de", by decide⟩) :: rest
  peerAddr := none
  secure := false
  listenerHost := ⟨"a".toList, by decide⟩

/-- A response that the origin chooses by language. -/
def byLanguage : HeaderMap :=
  [(header.cacheControl, maxAgeMinute),
    (header.vary, ⟨ascii "accept-language", by decide⟩)]

def keepsAlive : HeaderMap := [(header.connection, ⟨ascii "keep-alive", by decide⟩)]

/-- `Connection: accept-language`. -/
def listsLanguage : HeaderMap := [(header.connection, ⟨ascii "accept-language", by decide⟩)]

def exampleOrigin : OriginUrl := ⟨"http://o".toList, some ⟨"o".toList, by decide⟩, some 80⟩

/-- Two clients that ask alike, one of them with `Connection: keep-alive`. -/
theorem upstream_values_agree_iff_example : ∃ (_ : HttpDate) (_ : UriSyntax) (policy : Storable)
    (vary : Vary) (sent₁ sent₂ : UpstreamRequest),
    storable (.new .get (germanRequest keepsAlive).headers) (germanRequest keepsAlive).headers .ok
        byLanguage exampleClock = some (policy, vary) ∧
      (germanRequest keepsAlive).upstream exampleOrigin = some sent₁ ∧
      (germanRequest []).upstream exampleOrigin = some sent₂ ∧
      (varyValues vary.names sent₁.headers = varyValues vary.names sent₂.headers ↔
        ∀ name ∈ vary.names, Covered (germanRequest keepsAlive) (germanRequest []) name) := by
  let dates : HttpDate := ⟨fun _ => none⟩
  let uris : UriSyntax := ⟨fun _ => true, fun _ => true⟩
  obtain ⟨policy, vary, sent₁, sent₂, accepted, values, sends₁, sends₂⟩ :
      ∃ policy vary sent₁ sent₂,
        storable (.new .get (germanRequest keepsAlive).headers)
          (germanRequest keepsAlive).headers .ok byLanguage exampleClock =
            some (policy, vary) ∧
          vary.values = varyValues vary.names (germanRequest []).headers ∧
          (germanRequest keepsAlive).upstream exampleOrigin = some sent₁ ∧
          (germanRequest []).upstream exampleOrigin = some sent₂ :=
    ⟨_, _, _, _, rfl, rfl, rfl, rfl⟩
  exact ⟨dates, uris, policy, vary, sent₁, sent₂, accepted, sends₁, sends₂,
    upstream_values_agree_iff rfl accepted values sends₁ sends₂⟩

/-- The first client lists its own `Accept-Language` in `Connection`, so the
origin never sees it, and the response is stored for clients that ask for
German. -/
theorem connection_option_poisons_variant : ∃ (_ : HttpDate) (_ : UriSyntax) (policy : Storable)
    (vary : Vary) (sent₁ sent₂ : UpstreamRequest),
    (germanRequest listsLanguage).cacheKey = (germanRequest []).cacheKey ∧
      storable (.new .get (germanRequest listsLanguage).headers)
        (germanRequest listsLanguage).headers .ok byLanguage exampleClock =
          some (policy, vary) ∧
      vary.values = varyValues vary.names (germanRequest []).headers ∧
      (germanRequest listsLanguage).upstream exampleOrigin = some sent₁ ∧
      (germanRequest []).upstream exampleOrigin = some sent₂ ∧
      varyValues vary.names sent₁.headers = [none] ∧
      varyValues vary.names sent₂.headers = [some "de".toList] := by
  let dates : HttpDate := ⟨fun _ => none⟩
  let uris : UriSyntax := ⟨fun _ => true, fun _ => true⟩
  exact ⟨dates, uris, _, _, _, _, rfl, rfl, rfl, rfl, rfl, rfl, rfl⟩

end Shadowstep
