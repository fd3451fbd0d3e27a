import Shadowstep.Cache.Store

/-!
# Fields that cross the proxy

Which fields `proxy.rs` passes on: `connection_options` and `is_end_to_end`
for both directions, and the two filters for a response on its way to the
client and to the store.
-/

namespace Shadowstep

open Rust

/-- `CACHE_STATUS`, the field that says how the proxy came by a response. -/
def cacheStatusName : HeaderName := ⟨"x-shadowstep-cache".toList, by decide⟩

/-- The lowercased names that a `Connection` header lists, which are
hop-by-hop for this message (RFC 9110 section 7.6.1). -/
def connectionOptions (values : List HeaderValue) : List Text :=
  (((values.filterMap HeaderValue.toStr).flatMap fun value => value.splitOn ',').map fun token =>
    toAsciiLowercase (trim token)).filter (· ≠ [])

/-- The names that are hop-by-hop in every message. -/
def hopByHop : List Text :=
  ["connection".toList, "keep-alive".toList, "proxy-connection".toList, "te".toList,
    "trailer".toList, "transfer-encoding".toList, "upgrade".toList, "proxy-authenticate".toList,
    "proxy-authorization".toList]

/-- Whether a proxy forwards `name`. -/
def isEndToEnd (name : HeaderName) (options : List Text) : Bool :=
  !hopByHop.contains name.asStr && !options.any fun option => option = name.asStr

/-- The origin response's status, and its fields in the order the origin
sent them. -/
structure Head where
  status : StatusCode
  fields : Fields

/-- The fields as a header map. -/
def Head.map (head : Head) : HeaderMap := head.fields

/-- The origin response's fields that go to the client. -/
def forwardableFields (head : Head) : Fields :=
  let options := connectionOptions (head.map.getAll header.connection)
  head.fields.filter fun (name, _) =>
    name ≠ header.contentLength && name ≠ cacheStatusName && isEndToEnd name options

/-- Forwardable fields without `Age`, which the store works out on each use. -/
def storedFields (fields : Fields) : Fields := fields.filter fun (name, _) => name ≠ header.age

end Shadowstep
