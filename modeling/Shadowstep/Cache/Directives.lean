import Shadowstep.Http.Fields
import Shadowstep.Rust.Time

/-!
# Cache-Control directives

The parser of `cache.rs`: field values are split on the commas outside
quoted strings, each piece gives a lowercased name and an optional argument
without its quotes, and a value that is not visible ASCII only sets
`malformed`.
-/

namespace Shadowstep

open Rust

/-- The pieces from a position on. `part` is the piece read so far. -/
def splitOutsideQuotesFrom (quoted escaped : Bool) (part : Text) : Text → List Text
  | [] => [part]
  | c :: rest =>
    if escaped then splitOutsideQuotesFrom quoted false (part ++ [c]) rest
    else if c = '\\' ∧ quoted then splitOutsideQuotesFrom quoted true (part ++ [c]) rest
    else if c = '"' then splitOutsideQuotesFrom (!quoted) false (part ++ [c]) rest
    else if c = ',' ∧ ¬ quoted then part :: splitOutsideQuotesFrom quoted false [] rest
    else splitOutsideQuotesFrom quoted false (part ++ [c]) rest

/-- Splits a field value on commas that are not inside a quoted string. -/
def splitOutsideQuotes (value : Text) : List Text :=
  splitOutsideQuotesFrom false false [] value

/-- `Cache-Control` directives (RFC 9111 section 5.2), with lowercased names. -/
structure Directives where
  list : List (Text × Option Text)
  /-- a field value that is not visible ASCII -/
  malformed : Bool

namespace Directives

/-- One piece of a field value: its name and argument, unless the name is
empty. -/
def parsePart (part : Text) : Option (Text × Option Text) :=
  let (name, argument) := match splitOnce '=' part with
    | some (name, argument) =>
      let argument := trim argument
      (name, some ((stripAround '"' argument).getD argument))
    | none => (part, none)
  let name := toAsciiLowercase (trim name)
  if name ≠ [] then some (name, argument) else none

/-- The directives of one field value. -/
def parseValue (value : HeaderValue) : List (Text × Option Text) :=
  match value.toStr with
  | some text => (splitOutsideQuotes text).filterMap parsePart
  | none => []

def parse (values : List HeaderValue) : Directives where
  list := values.flatMap parseValue
  malformed := values.any fun value => value.toStr.isNone

def has (directives : Directives) (name : String) : Bool :=
  directives.list.any fun directive => directive.1 = name.toList

/-- The first occurrence's delta-seconds (RFC 9111 section 4.2.1). An invalid
value reads as 0, so the response is stale. A value too large to hold
saturates (section 1.2.2). -/
def seconds (directives : Directives) (name : String) : Option Duration :=
  (directives.list.find? fun directive => directive.1 = name.toList).map fun directive =>
    let argument := directive.2.getD []
    if argument = [] ∨ ¬ argument.all Char.isDigit then Duration.zero
    else Duration.fromSecs ((parseU64 argument).getD (UInt64.ofNat (2 ^ 64 - 1)))

/-- Exactly the absent directives have no delta-seconds. -/
theorem seconds_eq_none {directives : Directives} {name : String} :
    directives.seconds name = none ↔ directives.has name = false := by
  simp only [seconds, has, Option.map_eq_none_iff, List.find?_eq_none, List.any_eq_false]

end Directives

end Shadowstep
