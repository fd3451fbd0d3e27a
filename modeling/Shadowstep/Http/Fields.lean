import Shadowstep.Lib.Multimap
import Shadowstep.Rust.Text

/-!
# Header fields, methods and statuses

What the proxy reads of HTTP through the `http` crates. Names and values
carry the validity that the crates check on construction, so a field that
could not be sent cannot be built. A `HeaderMap` is kept as its fields in
insertion order: the proxy only ever asks for the fields of one name, whose
order the map keeps.
-/

namespace Shadowstep

open Rust

/-! ## Names -/

/-- What `HeaderName::from_bytes` takes, less upper case letters, which it
lowers: the `tchar`s of RFC 9110, the last of them the backtick, and the double
quote. -/
def isNameChar (c : Char) : Bool :=
  c.isDigit || ('a' ≤ c && c ≤ 'z') || "!#$%&'*+-.^_|~".toList.contains c || c.toNat == 0x60 ||
    c.toNat == 0x22

/-- What a `HeaderName` may hold. -/
def IsFieldName (text : Text) : Prop :=
  text ≠ [] ∧ text.length ≤ 65535 ∧ ∀ c ∈ text, isNameChar c = true

instance (text : Text) : Decidable (IsFieldName text) := by
  unfold IsFieldName
  infer_instance

/-- A field name, in lower case. -/
@[ext]
structure HeaderName where
  asStr : Text
  valid : IsFieldName asStr
deriving DecidableEq

/-- `HeaderName::from_bytes`, on the text of a header value. -/
def HeaderName.fromText (text : Text) : Option HeaderName :=
  if h : IsFieldName (toAsciiLowercase text) then some ⟨_, h⟩ else none

namespace header

def age : HeaderName := ⟨"age".toList, by decide⟩
def authorization : HeaderName := ⟨"authorization".toList, by decide⟩
def cacheControl : HeaderName := ⟨"cache-control".toList, by decide⟩
def connection : HeaderName := ⟨"connection".toList, by decide⟩
def contentLength : HeaderName := ⟨"content-length".toList, by decide⟩
def cookie : HeaderName := ⟨"cookie".toList, by decide⟩
def date : HeaderName := ⟨"date".toList, by decide⟩
def etag : HeaderName := ⟨"etag".toList, by decide⟩
def expires : HeaderName := ⟨"expires".toList, by decide⟩
def forwarded : HeaderName := ⟨"forwarded".toList, by decide⟩
def host : HeaderName := ⟨"host".toList, by decide⟩
def ifMatch : HeaderName := ⟨"if-match".toList, by decide⟩
def ifModifiedSince : HeaderName := ⟨"if-modified-since".toList, by decide⟩
def ifNoneMatch : HeaderName := ⟨"if-none-match".toList, by decide⟩
def ifRange : HeaderName := ⟨"if-range".toList, by decide⟩
def ifUnmodifiedSince : HeaderName := ⟨"if-unmodified-since".toList, by decide⟩
def lastModified : HeaderName := ⟨"last-modified".toList, by decide⟩
def setCookie : HeaderName := ⟨"set-cookie".toList, by decide⟩
def vary : HeaderName := ⟨"vary".toList, by decide⟩

end header

/-! ## Values -/

/-- The bytes a header value admits: a tab, and everything from the space
upwards but DEL. -/
def isValueByte (b : UInt8) : Bool := b == 9 || (32 ≤ b && b != 127)

/-- A field value. -/
@[ext]
structure HeaderValue where
  bytes : Bytes
  valid : ∀ b ∈ bytes, isValueByte b = true
deriving DecidableEq

/-- The bytes `HeaderValue::to_str` reads as text. -/
def isVisibleAscii (b : UInt8) : Bool := b == 9 || (32 ≤ b && b < 127)

/-- `HeaderValue::to_str().ok()`. -/
def HeaderValue.toStr (value : HeaderValue) : Option Text :=
  if value.bytes.all isVisibleAscii then some (value.bytes.map fun b => Char.ofNat b.toNat)
  else none

/-- Text that is a field value as it stands: a URI's authority, a header
value read with `to_str`, an address or a number in print. -/
@[ext]
structure VisibleText where
  text : Text
  visible : ∀ c ∈ text, c.toNat = 9 ∨ (32 ≤ c.toNat ∧ c.toNat < 127)
deriving DecidableEq

theorem visible_of_isDigit {c : Char} (digit : c.isDigit = true) :
    c.toNat = 9 ∨ (32 ≤ c.toNat ∧ c.toNat < 127) := by
  simp only [Char.isDigit, Bool.and_eq_true, decide_eq_true_eq, UInt32.le_iff_toNat_le,
    ge_iff_le, Char.toNat_val] at digit
  have low : '0'.toNat = 48 := rfl
  have high : '9'.toNat = 57 := rfl
  omega

/-- `n.to_string()`. -/
def VisibleText.decimal (n : Nat) : VisibleText where
  text := toDecimal n
  visible _ hc := visible_of_isDigit (Nat.isDigit_of_mem_toDigits (by decide) (by decide) hc)

/-- A number as a header value has it, in any number of digits. -/
def VisibleText.ofNumeral (numeral : Numeral) : VisibleText where
  text := numeral.digits
  visible _ hc := visible_of_isDigit (numeral.decimal _ hc)

/-- Two texts, one after the other. -/
def VisibleText.append (left right : VisibleText) : VisibleText where
  text := left.text ++ right.text
  visible := by
    intro c hc
    obtain hc | hc := List.mem_append.mp hc
    · exact left.visible c hc
    · exact right.visible c hc

/-- The header value with a given visible text. -/
def VisibleText.toValue (t : VisibleText) : HeaderValue :=
  ⟨t.text.map Char.toUInt8, by
    intro b hb
    obtain ⟨c, hc, rfl⟩ := List.mem_map.mp hb
    have hval : c.toUInt8.toNat = c.toNat % 256 := by
      rw [Char.toUInt8, UInt32.toNat_toUInt8, Char.toNat_val]
    have := t.visible c hc
    simp only [isValueByte, Bool.or_eq_true, Bool.and_eq_true, beq_iff_eq, bne_iff_ne,
      decide_eq_true_eq, ← UInt8.toNat_inj, ne_eq, UInt8.le_iff_toNat_le, hval]
    simp
    omega⟩

theorem VisibleText.toStr_toValue (t : VisibleText) : t.toValue.toStr = some t.text := by
  have byte : ∀ c ∈ t.text, c.toUInt8.toNat = c.toNat := by
    intro c hc
    have := t.visible c hc
    rw [Char.toUInt8, UInt32.toNat_toUInt8, Char.toNat_val]
    omega
  have visible : t.toValue.bytes.all isVisibleAscii = true := by
    rw [List.all_eq_true]
    intro b hb
    rcases List.mem_map.mp hb with ⟨c, hc, rfl⟩
    have := t.visible c hc
    simp only [isVisibleAscii, Bool.or_eq_true, Bool.and_eq_true, beq_iff_eq, decide_eq_true_eq,
      ← UInt8.toNat_inj, UInt8.le_iff_toNat_le, UInt8.lt_iff_toNat_lt, byte c hc]
    simp
    omega
  rw [HeaderValue.toStr, if_pos visible]
  show some ((t.text.map Char.toUInt8).map fun b => Char.ofNat b.toNat) = some t.text
  rw [List.map_map, Option.some.injEq]
  conv => rhs; rw [← List.map_id t.text]
  refine List.map_congr_left fun c hc => ?_
  show Char.ofNat c.toUInt8.toNat = c
  rw [byte c hc, Char.ofNat_toNat]

/-! ## Fields and header maps -/

/-- Response header fields in the order the origin sent them. -/
abbrev Fields := List (HeaderName × HeaderValue)

/-- A header map, as its fields in insertion order. -/
abbrev HeaderMap := Fields

namespace HeaderMap

/-- `HeaderMap::get_all`. -/
def getAll (map : HeaderMap) (name : HeaderName) : List HeaderValue :=
  (map.filter (·.1 = name)).map (·.2)

/-- `HeaderMap::get`: the first value. -/
def get (map : HeaderMap) (name : HeaderName) : Option HeaderValue := (map.getAll name).head?

/-- `HeaderMap::contains_key`. -/
def containsKey (map : HeaderMap) (name : HeaderName) : Bool := map.any (·.1 = name)

/-- `HeaderMap::append`. -/
def append (map : HeaderMap) (name : HeaderName) (value : HeaderValue) : HeaderMap :=
  map ++ [(name, value)]

/-- `HeaderMap::insert`, which replaces every value of the name. -/
def insert (map : HeaderMap) (name : HeaderName) (value : HeaderValue) : HeaderMap :=
  map.filter (·.1 ≠ name) ++ [(name, value)]

@[simp] theorem getAll_nil (name : HeaderName) : getAll [] name = [] := rfl

theorem getAll_cons (field : HeaderName × HeaderValue) (map : HeaderMap) (name : HeaderName) :
    getAll (field :: map) name =
      if field.1 = name then field.2 :: map.getAll name else map.getAll name :=
  Multimap.values_cons field map name

@[simp] theorem getAll_append (left right : HeaderMap) (name : HeaderName) :
    getAll (left ++ right) name = left.getAll name ++ right.getAll name :=
  Multimap.values_append left right name

theorem containsKey_iff {map : HeaderMap} {name : HeaderName} :
    map.containsKey name = true ↔ ∃ value, (name, value) ∈ map :=
  Multimap.contains_iff

theorem containsKey_eq_false {map : HeaderMap} {name : HeaderName} :
    map.containsKey name = false ↔ ∀ value, (name, value) ∉ map := by
  rw [← Bool.not_eq_true, containsKey_iff]
  simp

theorem mem_getAll {map : HeaderMap} {name : HeaderName} {value : HeaderValue} :
    value ∈ map.getAll name ↔ (name, value) ∈ map := by
  simp [getAll]

theorem containsKey_eq_getAll (map : HeaderMap) (name : HeaderName) :
    map.containsKey name = !(map.getAll name).isEmpty :=
  Multimap.contains_eq_values map name

/-- Filtering by name keeps all values of a name or none. -/
theorem getAll_filter (map : HeaderMap) (keep : HeaderName → Bool) (name : HeaderName) :
    getAll (map.filter fun field => keep field.1) name =
      if keep name then map.getAll name else [] :=
  Multimap.values_filter map keep name

/-- Inserting a field leaves the values of every other name. -/
theorem getAll_insert (map : HeaderMap) (name other : HeaderName) (value : HeaderValue) :
    getAll (map.insert name value) other = if other = name then [value] else map.getAll other := by
  rw [insert, getAll_append, getAll_filter map (fun n => decide (n ≠ name)) other, getAll_cons]
  by_cases h : other = name
  · simp [h]
  · simp [h, Ne.symm h]

end HeaderMap

/-! ## Methods and statuses -/

/-- `http::Method`. -/
inductive Method where
  | get
  | head
  | options
  | trace
  | post
  | put
  | delete
  | connect
  | patch
  | extension (name : Text)
deriving DecidableEq

/-- `Method::is_safe`. -/
def Method.isSafe : Method → Bool
  | .get | .head | .options | .trace => true
  | _ => false

/-- `http::StatusCode`. -/
@[ext]
structure StatusCode where
  code : Nat
  inRange : 100 ≤ code ∧ code < 1000
deriving DecidableEq

namespace StatusCode

/-- `StatusCode::is_success`. -/
def isSuccess (status : StatusCode) : Bool := 200 ≤ status.code && status.code < 300

/-- `StatusCode::is_redirection`. -/
def isRedirection (status : StatusCode) : Bool := 300 ≤ status.code && status.code < 400

def ok : StatusCode := ⟨200, by decide⟩
def notModified : StatusCode := ⟨304, by decide⟩
def badRequest : StatusCode := ⟨400, by decide⟩
def internalServerError : StatusCode := ⟨500, by decide⟩
def badGateway : StatusCode := ⟨502, by decide⟩
def serviceUnavailable : StatusCode := ⟨503, by decide⟩
def gatewayTimeout : StatusCode := ⟨504, by decide⟩

end StatusCode

end Shadowstep
