import Shadowstep.Http.Lists
import Shadowstep.Proxy.Spoofing

/-!
# Which fields stay on one connection

`connection_options` reads a `Connection` value as text and skips it when a
byte of it is not visible ASCII. The names in such a value are then forwarded
as any other. `Confined` is what RFC 9110 section 7.6.1 asks of a message,
with the list read byte for byte; both filters have it exactly for the
messages that are `Readable`.

* `listedIn_iff` — a readable list, as text;
* `mem_connectionOptions` — what the options are of readable values;
* `confined_iff` — one message and the filter on it;
* `hop_by_hop_iff` — both directions.
-/

namespace Shadowstep

open Rust

/-! ## The list, byte for byte -/

/-- `u8::to_ascii_lowercase`. -/
def lowerByte (b : UInt8) : UInt8 := if 65 ≤ b ∧ b ≤ 90 then b + 32 else b

/-- A `Connection` value lists a name: an element between commas equals it, but
for blanks around and letter case. -/
def listedIn (value : HeaderValue) (name : HeaderName) : Prop :=
  ∃ element ∈ value.bytes.splitOn 44, (strip element).map lowerByte = name.asStr.map Char.toUInt8

/-- A message's `Connection` lists a name. -/
def Listed (fields : HeaderMap) (name : HeaderName) : Prop :=
  ∃ value ∈ fields.getAll header.connection, listedIn value name

/-- The fields that a filter lets through are those that may cross: no
hop-by-hop one, and every other one but the `dropped`. -/
structure Confined (dropped : HeaderName → Bool) (fields passed : HeaderMap) : Prop where
  kept_back : ∀ name value, (name, value) ∈ passed →
    name.asStr ∉ hopByHop ∧ ¬ Listed fields name
  let_through : ∀ name, name.asStr ∉ hopByHop → ¬ Listed fields name → dropped name = false →
    passed.getAll name = fields.getAll name

/-! ## One value -/

theorem toLower_asChar {b : UInt8} (visible : isVisibleAscii b = true) :
    (asChar b).toLower = asChar (lowerByte b) := by
  have all : ∀ n < 128, (asChar (UInt8.ofNat n)).toLower =
      asChar (lowerByte (UInt8.ofNat n)) := by decide
  have here := all b.toNat (visible_lt visible)
  rwa [UInt8.ofNat_toNat] at here

/-- What one element of a readable list says. -/
theorem option_of_element {element : Bytes} (visible : ∀ b ∈ element, isVisibleAscii b = true) :
    toAsciiLowercase (trim (element.map asChar)) = ((strip element).map lowerByte).map asChar := by
  rw [trim_map_asChar visible, toAsciiLowercase, List.map_map, List.map_map]
  refine List.map_congr_left fun b hb => ?_
  have inside : b ∈ element :=
    (List.dropWhile_suffix _).subset ((List.rdropWhile_prefix _ _).subset hb)
  exact toLower_asChar (visible b inside)

theorem nameChar_lt {c : Char} (h : isNameChar c = true) : c.toNat < 128 := by
  have marks : ∀ c ∈ "!#$%&'*+-.^_|~".toList, c.toNat < 128 := by decide
  simp only [isNameChar, Bool.or_eq_true, Bool.and_eq_true, decide_eq_true_eq, beq_iff_eq,
    List.contains_iff_mem] at h
  rcases h with (((digit | ⟨-, letter⟩) | mark) | backtick) | quote
  · have := visible_of_isDigit digit
    omega
  · have letter : c.toNat ≤ 'z'.toNat := letter
    have : 'z'.toNat = 122 := rfl
    omega
  · exact marks c mark
  · omega
  · omega

/-- A name is ASCII, so its bytes are its characters. -/
theorem asStr_map (name : HeaderName) :
    (name.asStr.map Char.toUInt8).map asChar = name.asStr := by
  rw [List.map_map]
  conv => rhs; rw [← List.map_id name.asStr]
  refine List.map_congr_left fun c hc => ?_
  have small := nameChar_lt (name.valid.2.2 c hc)
  have byte : c.toUInt8.toNat = c.toNat := by
    rw [Char.toUInt8, UInt32.toNat_toUInt8, Char.toNat_val]
    omega
  show Char.ofNat c.toUInt8.toNat = c
  rw [byte, Char.ofNat_toNat]

/-- What a readable value lists are the trimmed pieces between its commas. -/
theorem listedIn_iff {value : HeaderValue} {text : Text} (read : value.toStr = some text)
    {name : HeaderName} :
    listedIn value name ↔
      ∃ token ∈ text.splitOn ',', toAsciiLowercase (trim token) = name.asStr := by
  obtain ⟨visible, rfl⟩ := toStr_eq_some read
  have comma : ',' = asChar 44 := by decide
  have said (element : Bytes) : ((strip element).map lowerByte).map asChar = name.asStr ↔
      (strip element).map lowerByte = name.asStr.map Char.toUInt8 := by
    conv => lhs; rhs; rw [← asStr_map name]
    exact (List.map_injective_iff.mpr asChar_injective).eq_iff
  rw [listedIn, comma, splitOn_map asChar_injective]
  simp only [List.mem_map, exists_exists_and_eq_and]
  refine exists_congr fun element => and_congr_right fun part => ?_
  rw [option_of_element fun b hb => visible b (mem_of_mem_splitOn part hb), said]

/-- The options are what the readable values list. -/
theorem mem_connectionOptions {values : List HeaderValue} {name : HeaderName} :
    name.asStr ∈ connectionOptions values ↔
      ∃ value ∈ values, value.toStr.isSome = true ∧ listedIn value name := by
  rw [connectionOptions, List.mem_filter, List.mem_map]
  simp only [List.mem_flatMap, List.mem_filterMap]
  constructor
  · rintro ⟨⟨token, ⟨text, ⟨value, member, read⟩, split⟩, same⟩, -⟩
    exact ⟨value, member, Option.isSome_iff_exists.mpr ⟨_, read⟩,
      (listedIn_iff read).mpr ⟨token, split, same⟩⟩
  · rintro ⟨value, member, readable, listed⟩
    obtain ⟨text, read⟩ := Option.isSome_iff_exists.mp readable
    obtain ⟨token, split, same⟩ := (listedIn_iff read).mp listed
    exact ⟨⟨token, ⟨text, ⟨value, member, read⟩, split⟩, same⟩, by simp [name.valid.1]⟩

theorem isEndToEnd_iff {name : HeaderName} {options : List Text} :
    isEndToEnd name options = true ↔ name.asStr ∉ hopByHop ∧ name.asStr ∉ options := by
  simp only [isEndToEnd, Bool.and_eq_true, Bool.not_eq_true', List.contains_eq_mem,
    decide_eq_false_iff_not, List.any_eq_false, decide_eq_true_eq]
  exact and_congr_right fun _ => ⟨fun h member => h _ member rfl, fun h _ member same =>
    h (same ▸ member)⟩

/-! ## One message -/

/-- Every name that is only listed in values that cannot be read is one that
stays back in any case, or that the message does not have. -/
def Readable (dropped : HeaderName → Bool) (fields : HeaderMap) : Prop :=
  ∀ value ∈ fields.getAll header.connection, value.toStr = none → ∀ name, listedIn value name →
    fields.containsKey name = true → dropped name = true ∨ name.asStr ∈ hopByHop ∨
      ∃ other ∈ fields.getAll header.connection, other.toStr.isSome = true ∧ listedIn other name

/-- The fields of a message that its filter lets through. -/
def crossing (dropped : HeaderName → Bool) (fields : HeaderMap) : HeaderMap :=
  fields.filter fun (name, _) =>
    !dropped name && isEndToEnd name (connectionOptions (fields.getAll header.connection))

theorem confined_iff (dropped : HeaderName → Bool) (fields : HeaderMap) :
    Confined dropped fields (crossing dropped fields) ↔ Readable dropped fields := by
  have crosses {name : HeaderName} {value : HeaderValue} :
      (name, value) ∈ crossing dropped fields ↔ (name, value) ∈ fields ∧ dropped name = false ∧
        name.asStr ∉ hopByHop ∧
        name.asStr ∉ connectionOptions (fields.getAll header.connection) := by
    simp only [crossing, List.mem_filter, Bool.and_eq_true, Bool.not_eq_true', isEndToEnd_iff]
  constructor
  · intro confined value listing unread name listed present
    -- a listed name that the filter does not know of crosses
    by_contra wrong
    simp only [not_or, Bool.not_eq_true] at wrong
    rcases HeaderMap.containsKey_iff.mp present with ⟨found, member⟩
    have crossed : (name, found) ∈ crossing dropped fields :=
      crosses.mpr ⟨member, wrong.1, wrong.2.1, fun option =>
        wrong.2.2 (mem_connectionOptions.mp option)⟩
    exact (confined.kept_back name found crossed).2 ⟨value, listing, listed⟩
  · intro readable
    constructor
    · intro name found crossed
      rcases crosses.mp crossed with ⟨member, kept, endToEnd, unlisted⟩
      refine ⟨endToEnd, ?_⟩
      rintro ⟨value, listing, listed⟩
      cases read : value.toStr with
      | some text =>
        -- the filter reads this value, and drops the field
        exact unlisted (mem_connectionOptions.mpr ⟨value, listing, by simp [read], listed⟩)
      | none =>
        have present := HeaderMap.containsKey_iff.mpr ⟨found, member⟩
        rcases readable value listing read name listed present with gone | hop | other
        · rw [kept] at gone
          cases gone
        · exact endToEnd hop
        · exact unlisted (mem_connectionOptions.mpr other)
    · intro name endToEnd unlisted kept
      have option : name.asStr ∉ connectionOptions (fields.getAll header.connection) := by
        intro option
        rcases mem_connectionOptions.mp option with ⟨value, listing, -, listed⟩
        exact unlisted ⟨value, listing, listed⟩
      have all := HeaderMap.getAll_filter fields (fun name => !dropped name &&
        isEndToEnd name (connectionOptions (fields.getAll header.connection))) name
      refine all.trans (if_pos ?_)
      rw [kept, isEndToEnd_iff.mpr ⟨endToEnd, option⟩]
      rfl

/-! ## Both directions -/

/-- The client's fields that `upstream_request` replaces or leaves out. -/
def replacedUpstream (name : HeaderName) : Bool := name = header.host || spoofable name

/-- The client's fields that `upstream_request` copies. -/
def copiedFields (req : HttpRequest) : HeaderMap :=
  req.headers.filter fun (name, _) => passesOn req.options name

/-- The origin's fields that `forwardable_fields` leaves out. -/
def replacedDownstream (name : HeaderName) : Bool :=
  name = header.contentLength || name = cacheStatusName

theorem copiedFields_eq (req : HttpRequest) :
    copiedFields req = crossing replacedUpstream req.headers := by
  refine List.filter_congr fun field _ => ?_
  simp [passesOn, replacedUpstream, spoofable, HttpRequest.options, Bool.and_assoc]

theorem forwardableFields_eq (head : Head) :
    forwardableFields head = crossing replacedDownstream head.map := by
  refine List.filter_congr fun field _ => ?_
  simp [replacedDownstream, Bool.and_assoc]

/-- A name that neither filter replaces is stored unless `Connection` lists
it. -/
theorem getAll_stored (head : Head) {name : HeaderName} (endToEnd : name.asStr ∉ hopByHop)
    (kept : replacedDownstream name = false) (other : name ≠ header.age) :
    HeaderMap.getAll (storedFields (forwardableFields head)) name =
      if name.asStr ∈ connectionOptions (head.map.getAll header.connection) then []
      else head.map.getAll name := by
  have stored := HeaderMap.getAll_filter (forwardableFields head)
    (fun name => decide (name ≠ header.age)) name
  have crossed := HeaderMap.getAll_filter head.map (fun name => !replacedDownstream name &&
    isEndToEnd name (connectionOptions (head.map.getAll header.connection))) name
  refine stored.trans ((if_pos (decide_eq_true other)).trans ?_)
  rw [forwardableFields_eq]
  refine crossed.trans ?_
  by_cases listed : name.asStr ∈ connectionOptions (head.map.getAll header.connection)
  · have stays : isEndToEnd name (connectionOptions (head.map.getAll header.connection)) ≠ true :=
      fun crosses => (isEndToEnd_iff.mp crosses).2 listed
    simp [kept, listed, stays]
  · simp [kept, listed, isEndToEnd_iff.mpr ⟨endToEnd, listed⟩]

/-- The origin's request is the copied fields and the proxy's own. -/
theorem upstreamHeaders_copied (req : HttpRequest) (base : OriginUrl) (client : ClientInfo) :
    ∃ own, upstreamHeaders req base client = copiedFields req ++ own ∧
      ∀ field ∈ own, field.1 ∈ ownNames := by
  refine ⟨_, by simp only [upstreamHeaders, List.append_assoc]; rfl, ?_⟩
  intro field member
  simp only [List.mem_append, Option.mem_toList, Option.map_eq_some_iff,
    List.mem_singleton] at member
  rcases member with ⟨host, -, rfl⟩ | ⟨ip, -, rfl⟩ | rfl | rfl <;> simp [ownNames]

/-- Fields stay on their connection, and no others, for exactly the messages
whose `Connection` can be read where it matters. -/
theorem hop_by_hop_iff (req : HttpRequest) (head : Head) :
    (Confined replacedUpstream req.headers (copiedFields req) ↔
        Readable replacedUpstream req.headers) ∧
      (Confined replacedDownstream head.map (forwardableFields head) ↔
        Readable replacedDownstream head.map) := by
  rw [copiedFields_eq, forwardableFields_eq]
  exact ⟨confined_iff _ _, confined_iff _ _⟩

/-- The second element cannot be read, and the first is forwarded with it. -/
def unreadableList : HeaderMap :=
  [(header.connection, ⟨ascii "x-secret, " ++ [0x80], by decide⟩),
    (⟨"x-secret".toList, by decide⟩, ⟨ascii "1", by decide⟩)]

theorem unreadable_list_is_forwarded :
    ¬ Confined replacedUpstream (germanRequest unreadableList).headers
        (copiedFields (germanRequest unreadableList)) ∧
      ¬ Confined replacedDownstream unreadableList (forwardableFields ⟨.ok, unreadableList⟩) := by
  have listed : listedIn ⟨ascii "x-secret, " ++ [0x80], by decide⟩
      ⟨"x-secret".toList, by decide⟩ := ⟨ascii "x-secret", by decide, by decide⟩
  constructor
  · intro confined
    refine (confined.kept_back ⟨"x-secret".toList, by decide⟩ ⟨ascii "1", by decide⟩ ?_).2
      ⟨_, ?_, listed⟩
    · decide
    · decide
  · intro confined
    refine (confined.kept_back ⟨"x-secret".toList, by decide⟩ ⟨ascii "1", by decide⟩ ?_).2
      ⟨_, ?_, listed⟩
    · decide
    · decide

end Shadowstep
