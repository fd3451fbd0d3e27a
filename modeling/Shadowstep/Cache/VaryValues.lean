import Shadowstep.Cache.Store
import Shadowstep.Http.Lists

/-!
# When `Vary` values tell requests apart

`vary_values` reads each field line as text with `from_utf8_lossy`, and trims
it of Unicode whitespace. Field lines that are not UTF-8 are read alike, and
so are lines that differ in a no-break space at an end. For `Plain` values the
comparison is the one of RFC 9110: line by line without the spaces and tabs
around, byte for byte. No larger set of values has that.

* `readLine_strip` — the blanks around a line are never read;
* `asBytes_readLine_iff` — the plain values are those that are read in full;
* `vary_values_faithful_iff` — the comparison is faithful on a set of values
  exactly when they are plain.
-/

namespace Shadowstep

open Rust

/-! ## Field lines -/

/-- What `vary_values` reads of a line. -/
def readLine (line : Bytes) : Text := trim (fromUtf8Lossy line)

/-- A request's value for a field name, byte for byte. -/
def varyBytes (request : HeaderMap) (name : HeaderName) : Option Bytes :=
  let lines := (request.getAll name).map fun value => strip value.bytes
  if lines = [] then none else some ((ascii ", ").intercalate lines)

/-- The key tells two requests apart exactly when their values differ. -/
def Faithful (names : List HeaderName) (left right : HeaderMap) : Prop :=
  varyValues names left = varyValues names right ↔
    ∀ name ∈ names, varyBytes left name = varyBytes right name

/-- A value that is UTF-8, with no other whitespace at its ends than spaces
and tabs. -/
def Plain (value : HeaderValue) : Prop :=
  ∃ text, trim text = text ∧ strip value.bytes = asBytes text

/-! ## What is read of a line -/

theorem blank_ascii {b : UInt8} (blank : isBlank b = true) :
    b.toNat < 0x80 ∧ isWhitespace (Char.ofNat b.toNat) = true := by
  simp only [isBlank, Bool.or_eq_true, beq_iff_eq] at blank
  rcases blank with rfl | rfl <;> decide

theorem readLine_cons {b : UInt8} (blank : isBlank b = true) (line : Bytes) :
    readLine (b :: line) = readLine line := by
  rcases blank_ascii blank with ⟨small, white⟩
  have split := fromUtf8Lossy_between [] small line
  rw [List.nil_append] at split
  rw [readLine, split]
  exact trim_cons white _

theorem readLine_concat {b : UInt8} (blank : isBlank b = true) (line : Bytes) :
    readLine (line ++ [b]) = readLine line := by
  rcases blank_ascii blank with ⟨small, white⟩
  rw [readLine, fromUtf8Lossy_between line small []]
  exact trim_concat white _

/-- The blanks around a line are never read. -/
theorem readLine_strip (line : Bytes) : readLine (strip line) = readLine line := by
  have back (line : Bytes) : readLine (line.rdropWhile isBlank) = readLine line := by
    induction line using List.reverseRecOn with
    | nil => rfl
    | append_singleton line b ih =>
      cases blank : isBlank b with
      | true => rw [List.rdropWhile_concat_pos _ _ _ blank, ih, readLine_concat blank]
      | false => rw [List.rdropWhile_concat_neg _ _ _ (by simp [blank])]
  have front (line : Bytes) : readLine (line.dropWhile isBlank) = readLine line := by
    induction line with
    | nil => rfl
    | cons b line ih =>
      cases blank : isBlank b with
      | true => rw [List.dropWhile_cons_of_pos blank, ih, readLine_cons blank]
      | false => rw [List.dropWhile_cons_of_neg (by simp [blank])]
  rw [strip, back, front]

theorem readLine_asBytes (text : Text) : readLine (asBytes text) = trim text := by
  rw [readLine, fromUtf8Lossy_asBytes]

/-- The plain values are those that are read in full. -/
theorem asBytes_readLine_iff {value : HeaderValue} :
    asBytes (readLine value.bytes) = strip value.bytes ↔ Plain value := by
  constructor
  · intro full
    exact ⟨readLine value.bytes, trim_trim _, full.symm⟩
  · rintro ⟨text, trimmed, same⟩
    rw [← readLine_strip, same, readLine_asBytes, trimmed]

/-! ## Plain values -/

theorem varyValue_asBytes {request : HeaderMap} {name : HeaderName}
    (plain : ∀ value ∈ request.getAll name, Plain value) :
    (varyValue request name).map asBytes = varyBytes request name := by
  have lines : ((request.getAll name).map fun value => readLine value.bytes).map asBytes =
      (request.getAll name).map fun value => strip value.bytes := by
    rw [List.map_map]
    exact List.map_congr_left fun value h => asBytes_readLine_iff.mpr (plain value h)
  have separator : asBytes ", ".toList = ascii ", " := by decide
  show (if (request.getAll name).map (fun value => readLine value.bytes) = [] then none
    else some (", ".toList.intercalate _)).map asBytes = _
  rw [varyBytes, ← lines]
  split
  case isTrue empty => simp [empty]
  case isFalse some_line =>
    rw [if_neg (by simpa using some_line), Option.map_some, asBytes_intercalate, separator]
    rfl

theorem faithful_of_plain {names : List HeaderName} {left right : HeaderMap}
    (plainLeft : ∀ name ∈ names, ∀ value ∈ left.getAll name, Plain value)
    (plainRight : ∀ name ∈ names, ∀ value ∈ right.getAll name, Plain value) :
    Faithful names left right := by
  unfold Faithful
  rw [varyValues, varyValues, List.map_inj_left]
  refine forall₂_congr fun name member => ?_
  rw [← varyValue_asBytes (plainLeft name member), ← varyValue_asBytes (plainRight name member)]
  exact (Option.map_injective asBytes_injective).eq_iff.symm

/-! ## Other values -/

theorem readLine_length_le (line : Bytes) : (readLine line).length ≤ (fromUtf8Lossy line).length :=
  (trim_sublist _).length_le

/-- A trimmed text has no blank at either end of its bytes. -/
theorem strip_asBytes {text : Text} (trimmed : trim text = text) :
    strip (asBytes text) = asBytes text := by
  have read : readLine (asBytes text) = fromUtf8Lossy (asBytes text) := by
    rw [readLine_asBytes, fromUtf8Lossy_asBytes, trimmed]
  generalize asBytes text = bytes at read
  have front : bytes.dropWhile isBlank = bytes := by
    cases bytes with
    | nil => rfl
    | cons b rest =>
      cases blank : isBlank b with
      | false => rw [List.dropWhile_cons_of_neg (by simp [blank])]
      | true =>
        have split := fromUtf8Lossy_between [] (blank_ascii blank).1 rest
        have short := readLine_length_le rest
        rw [← readLine_cons blank, read, ← List.nil_append (b :: rest), split] at short
        simp [fromUtf8Lossy, utf8From] at short
  rw [strip, front, List.rdropWhile_eq_self_iff]
  intro nonempty blank
  have short := readLine_length_le bytes.dropLast
  rw [← readLine_concat blank, List.dropLast_append_getLast nonempty, read] at short
  rw [← List.dropLast_append_getLast nonempty,
    fromUtf8Lossy_between _ (blank_ascii blank).1 []] at short
  simp at short

theorem valid_readLine (value : HeaderValue) :
    ∀ b ∈ asBytes (readLine value.bytes), isValueByte b := by
  intro b hb
  by_cases high : 0x80 ≤ b.toNat
  · simp only [isValueByte, Bool.or_eq_true, Bool.and_eq_true, beq_iff_eq, bne_iff_ne,
      decide_eq_true_eq, ← UInt8.toNat_inj, ne_eq, UInt8.le_iff_toNat_le]
    refine .inr ⟨?_, ?_⟩
    · show 32 ≤ _
      omega
    · show ¬ _ = 127
      omega
  · -- an ASCII byte of the text is one of the value's own
    rcases (mem_asBytes hb).resolve_left high with ⟨c, hc, same⟩
    rcases exists_byte_of_mem_fromUtf8Lossy ((trim_sublist _).subset hc) (by omega) with
      ⟨found, member, equal⟩
    have here : found = b := UInt8.toNat_inj.mp (equal.trans same)
    exact here ▸ value.valid found member

/-- The plain value that is read as a value is. -/
def plainValue (value : HeaderValue) : HeaderValue :=
  ⟨asBytes (readLine value.bytes), valid_readLine value⟩

theorem plain_plainValue (value : HeaderValue) : Plain (plainValue value) :=
  ⟨readLine value.bytes, trim_trim _, strip_asBytes (trim_trim _)⟩

theorem readLine_plainValue (value : HeaderValue) :
    readLine (plainValue value).bytes = readLine value.bytes := by
  show readLine (asBytes (readLine value.bytes)) = _
  rw [readLine_asBytes]
  exact trim_trim _

/-- Two requests with one line each, which are read alike. -/
theorem not_faithful_of_not_plain {value : HeaderValue} (notPlain : ¬ Plain value)
    (name : HeaderName) :
    ¬ Faithful [name] [(name, value)] [(name, plainValue value)] := by
  intro faithful
  have alike : varyValues [name] [(name, value)] = varyValues [name] [(name, plainValue value)] := by
    have read := readLine_plainValue value
    simp only [readLine] at read
    simp [varyValues, varyValue, HeaderMap.getAll, read]
  have equal := faithful.mp alike name (List.mem_singleton.mpr rfl)
  have line (v : HeaderValue) : varyBytes [(name, v)] name = some (strip v.bytes) := by
    simp [varyBytes, HeaderMap.getAll]
  rw [line, line, Option.some.injEq] at equal
  refine notPlain (asBytes_readLine_iff.mp ?_)
  rw [equal]
  exact (strip_asBytes (trim_trim _)).symm

/-- The comparison is faithful for requests whose values are plain, or in
another set, exactly when that set has only plain values. -/
theorem vary_values_faithful_iff (others : Set HeaderValue) :
    (∀ names left right,
        (∀ name ∈ names, ∀ value ∈ HeaderMap.getAll left name ++ HeaderMap.getAll right name,
          Plain value ∨ value ∈ others) → Faithful names left right) ↔
      ∀ value ∈ others, Plain value := by
  constructor
  · intro faithful value other
    by_contra notPlain
    refine not_faithful_of_not_plain notPlain header.vary (faithful _ _ _ ?_)
    rintro name named found member
    rw [List.mem_append, HeaderMap.mem_getAll, HeaderMap.mem_getAll, List.mem_singleton,
      List.mem_singleton] at member
    rcases member with same | same
    · exact .inr ((Prod.mk.inj same).2 ▸ other)
    · exact .inl ((Prod.mk.inj same).2 ▸ plain_plainValue value)
  · intro plain names left right values
    have allPlain : ∀ name ∈ names, ∀ value ∈ HeaderMap.getAll left name ++
        HeaderMap.getAll right name, Plain value :=
      fun name named value member => (values name named value member).elim id (plain value)
    exact faithful_of_plain
      (fun name named value member => allPlain name named value (List.mem_append_left _ member))
      fun name named value member => allPlain name named value (List.mem_append_right _ member)

/-- Two values that are not UTF-8 give two requests one key. -/
theorem undecodable_values_collide :
    ¬ Faithful [header.cookie] [(header.cookie, ⟨[0x80], by decide⟩)]
      [(header.cookie, ⟨[0x81], by decide⟩)] := by
  intro faithful
  have alike := faithful.mp (by decide)
  revert alike
  decide

end Shadowstep
