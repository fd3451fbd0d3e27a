import Mathlib.Algebra.Group.Nat.Defs
import Mathlib.Data.List.DropRight
import Mathlib.Data.List.TakeDrop

/-!
# Text and bytes as Rust's standard library reads them

The string operations the proxy uses, over plain lists: a `Text` is a
`str` or `String` as its list of `char`s, and `Bytes` are a `[u8]`. Nothing
here names the proxy.

* **blanks** — `str::trim` strips the Unicode `White_Space` property, which
  is wider than the space and tab of HTTP's own whitespace;
* **decoding** — `String::from_utf8_lossy` replaces every maximal invalid
  piece by one U+FFFD, so distinct byte strings can decode alike;
* **numbers** — `str::parse::<u64>` takes an optional `+` and at least one
  digit, and fails above `u64::MAX`.
-/

namespace Rust

/-- A `str` or `String`, as its characters. -/
abbrev Text := List Char

/-- A `[u8]`. -/
abbrev Bytes := List UInt8

/-- The bytes of an ASCII literal, such as `b"HIT"`. -/
def ascii (literal : String) : Bytes := literal.toList.map Char.toUInt8

/-- A statement about every element of a list is decided on its elements, also
where the type is finite. -/
instance (priority := high) decidableForallMem {α : Type} (list : List α) (p : α → Prop)
    [DecidablePred p] : Decidable (∀ a ∈ list, p a) :=
  List.decidableBAll p list

/-! ## Blanks -/

/-- `char::is_whitespace`: the Unicode `White_Space` property. -/
def isWhitespace (c : Char) : Bool :=
  let n := c.toNat
  (9 ≤ n && n ≤ 13) || n == 0x20 || n == 0x85 || n == 0xA0 || n == 0x1680 ||
    (0x2000 ≤ n && n ≤ 0x200A) || n == 0x2028 || n == 0x2029 || n == 0x202F ||
    n == 0x205F || n == 0x3000

/-- `str::trim`. -/
def trim (text : Text) : Text :=
  (text.dropWhile isWhitespace).rdropWhile isWhitespace

theorem dropWhile_map_of_agree {α β : Type} {f : α → β} {p : β → Bool} {q : α → Bool}
    {list : List α} (agree : ∀ x ∈ list, p (f x) = q x) :
    (list.map f).dropWhile p = (list.dropWhile q).map f := by
  induction list with
  | nil => rfl
  | cons x rest ih =>
    have here := agree x List.mem_cons_self
    have later := ih fun y hy => agree y (List.mem_cons_of_mem _ hy)
    cases h : q x with
    | true => rw [List.map_cons, List.dropWhile_cons_of_pos (here.trans h), later,
        List.dropWhile_cons_of_pos h]
    | false => rw [List.map_cons, List.dropWhile_cons_of_neg (by simp [here, h]),
        List.dropWhile_cons_of_neg (by simp [h]), List.map_cons]

/-- A text without whitespace is its own trimming. -/
theorem trim_eq_self {text : Text} (h : ∀ c ∈ text, isWhitespace c = false) :
    trim text = text := by
  have front : text.dropWhile isWhitespace = text := by
    cases text with
    | nil => rfl
    | cons c rest => simp [List.dropWhile, h c List.mem_cons_self]
  rw [trim, front, List.rdropWhile_eq_self_iff]
  intro hne
  simp [h _ (List.getLast_mem hne)]

theorem trim_cons {c : Char} (white : isWhitespace c = true) (text : Text) :
    trim (c :: text) = trim text := by
  rw [trim, List.dropWhile_cons_of_pos white, trim]

theorem trim_concat {c : Char} (white : isWhitespace c = true) (text : Text) :
    trim (text ++ [c]) = trim text := by
  unfold trim
  rw [List.dropWhile_append]
  cases h : text.dropWhile isWhitespace with
  | nil => simp [white]
  | cons first rest =>
    rw [List.isEmpty_cons, if_neg Bool.false_ne_true]
    exact List.rdropWhile_concat_pos _ _ _ white

theorem trim_append_left {before : Text} (white : ∀ c ∈ before, isWhitespace c = true)
    (text : Text) : trim (before ++ text) = trim text := by
  induction before with
  | nil => rfl
  | cons c rest ih =>
    rw [List.cons_append, trim_cons (white c List.mem_cons_self)]
    exact ih fun d hd => white d (List.mem_cons_of_mem _ hd)

theorem trim_append_right {after : Text} (white : ∀ c ∈ after, isWhitespace c = true)
    (text : Text) : trim (text ++ after) = trim text := by
  induction after generalizing text with
  | nil => rw [List.append_nil]
  | cons c rest ih =>
    rw [List.append_cons, ih fun d hd => white d (List.mem_cons_of_mem _ hd),
      trim_concat (white c List.mem_cons_self)]

/-- A text between two characters that are not whitespace is trimmed already. -/
theorem trim_between {first last : Char} (hfirst : isWhitespace first = false)
    (hlast : isWhitespace last = false) (text : Text) :
    trim (first :: text ++ [last]) = first :: text ++ [last] := by
  rw [trim, List.cons_append, List.dropWhile_cons_of_neg (by simp [hfirst]), ← List.cons_append,
    List.rdropWhile_concat_neg _ _ _ (by simp [hlast])]

theorem trim_sublist (text : Text) : (trim text).Sublist text :=
  (List.rdropWhile_prefix _ _).sublist.trans (List.dropWhile_suffix _).sublist

/-- A trimmed text has no whitespace at its ends. -/
theorem trim_trim (text : Text) : trim (trim text) = trim text := by
  have front : (trim text).dropWhile isWhitespace = trim text := by
    cases h : trim text with
    | nil => rfl
    | cons c rest =>
      -- the first character is the one at which the front trimming stopped
      rcases List.rdropWhile_prefix isWhitespace (text.dropWhile isWhitespace) with ⟨after, split⟩
      change trim text ++ after = text.dropWhile isWhitespace at split
      have stopped := List.dropWhile_idempotent isWhitespace text
      rw [← split, h, List.cons_append] at stopped
      cases white : isWhitespace c with
      | false => rw [List.dropWhile_cons_of_neg (by simp [white])]
      | true =>
        rw [List.dropWhile_cons_of_pos white] at stopped
        have shorter := (List.dropWhile_suffix isWhitespace (l := rest ++ after)).length_le
        rw [stopped, List.length_cons] at shorter
        omega
  rw [trim, front, trim, List.rdropWhile_idempotent]

/-! ## Letter case -/

/-- `str::to_ascii_lowercase`. -/
def toAsciiLowercase (text : Text) : Text := text.map Char.toLower

/-! ## Decoding -/

/-- Where the decoder stands: between characters, or inside one with
`owed + 1` continuation bytes to come, the scalar bits read so far, and the
least and greatest byte the next one may be. -/
inductive Utf8State where
  | start
  | inside (owed : Nat) (bits : Nat) (low high : UInt8)

/-- U+FFFD, which stands for an invalid piece. -/
def replacement : Char := '\uFFFD'

/-- The first byte of a character: a finished character, the state inside a
longer one, or an invalid byte. -/
def utf8First (b : UInt8) : List Char × Utf8State :=
  if b < 0x80 then ([Char.ofNat b.toNat], .start)
  else if 0xC2 ≤ b ∧ b ≤ 0xDF then ([], .inside 0 (b.toNat % 0x20) 0x80 0xBF)
  else if b = 0xE0 then ([], .inside 1 0 0xA0 0xBF)
  else if b = 0xED then ([], .inside 1 0xD 0x80 0x9F)
  else if 0xE1 ≤ b ∧ b ≤ 0xEF then ([], .inside 1 (b.toNat % 0x10) 0x80 0xBF)
  else if b = 0xF0 then ([], .inside 2 0 0x90 0xBF)
  else if 0xF1 ≤ b ∧ b ≤ 0xF3 then ([], .inside 2 (b.toNat % 8) 0x80 0xBF)
  else if b = 0xF4 then ([], .inside 2 4 0x80 0x8F)
  else ([replacement], .start)

/-- One byte. A byte that cannot continue the character ends the invalid
piece and is then read as a first byte. -/
def utf8Step : Utf8State → UInt8 → List Char × Utf8State
  | .start, b => utf8First b
  | .inside owed bits low high, b =>
    if low ≤ b ∧ b ≤ high then
      let bits := bits * 0x40 + b.toNat % 0x40
      match owed with
      | 0 => ([Char.ofNat bits], .start)
      | owed + 1 => ([], .inside owed bits 0x80 0xBF)
    else
      let next := utf8First b
      (replacement :: next.1, next.2)

/-- The characters of the bytes to come, from a decoder state. -/
def utf8From : Utf8State → Bytes → Text
  | .start, [] => []
  | .inside .., [] => [replacement]
  | state, b :: rest => (utf8Step state b).1 ++ utf8From (utf8Step state b).2 rest

/-- `String::from_utf8_lossy`. -/
def fromUtf8Lossy (bytes : Bytes) : Text := utf8From .start bytes

/-- ASCII text decodes to itself. -/
theorem fromUtf8Lossy_ascii {text : Text} (h : ∀ c ∈ text, c.toNat < 0x80) :
    fromUtf8Lossy (text.map Char.toUInt8) = text := by
  unfold fromUtf8Lossy
  induction text with
  | nil => rfl
  | cons c rest ih =>
    have hc : c.toNat < 0x80 := h c List.mem_cons_self
    have hval : c.toUInt8.toNat = c.toNat := by
      rw [Char.toUInt8, UInt32.toNat_toUInt8, Char.toNat_val]
      omega
    have hlt : c.toUInt8 < 0x80 := by
      rw [UInt8.lt_iff_toNat_lt, hval]
      exact hc
    have hfirst : utf8Step .start c.toUInt8 = ([c], .start) := by
      simp [utf8Step, utf8First, hlt, hval]
    rw [List.map_cons, utf8From, hfirst]
    simp [ih fun d hd => h d (List.mem_cons_of_mem _ hd)]

/-! ## Numbers -/

/-- The value of a run of decimal digits. -/
def decimalValue (digits : Text) : Nat :=
  digits.foldl (fun n c => n * 10 + (c.toNat - '0'.toNat)) 0

/-- `str::parse::<u64>().ok()`. -/
def parseU64 (text : Text) : Option UInt64 :=
  let digits := match text with
    | '+' :: rest => rest
    | _ => text
  if digits ≠ [] ∧ digits.all Char.isDigit ∧ decimalValue digits < 2 ^ 64 then
    some (UInt64.ofNat (decimalValue digits))
  else none

/-- Decimal digits of a number, as `to_string` writes them. -/
def toDecimal (n : Nat) : Text := Nat.toDigits 10 n

/-- A number written in decimal, of any length. -/
structure Numeral where
  digits : Text
  nonempty : digits ≠ []
  decimal : ∀ c ∈ digits, c.isDigit = true

namespace Numeral

def value (numeral : Numeral) : Nat := decimalValue numeral.digits

/-- The shortest numeral of a number. -/
def ofNat (n : Nat) : Numeral where
  digits := toDecimal n
  nonempty := Nat.toDigits_ne_nil
  decimal _ hc := Nat.isDigit_of_mem_toDigits (by decide) (by decide) hc

@[simp] theorem value_ofNat (n : Nat) : (ofNat n).value = n := by
  show decimalValue (Nat.toDigits 10 n) = n
  have fold : decimalValue (Nat.toDigits 10 n) = Nat.ofDigitChars 10 (Nat.toDigits 10 n) 0 := by
    rw [decimalValue, Nat.ofDigitChars_eq_foldl]
    simp only [Nat.mul_comm]
  rw [fold, Nat.ofDigitChars_ten_toDigits]

/-- A numeral has no sign, so it parses unless its value is too large. -/
theorem parseU64_digits (numeral : Numeral) :
    parseU64 numeral.digits =
      if numeral.value < 2 ^ 64 then some (UInt64.ofNat numeral.value) else none := by
  obtain ⟨digits, nonempty, decimal⟩ := numeral
  have noSign : ∀ rest, digits ≠ '+' :: rest := by
    rintro rest rfl
    exact absurd (decimal '+' List.mem_cons_self) (by decide)
  have all : digits.all Char.isDigit = true := List.all_eq_true.mpr decimal
  show parseU64 digits =
    if decimalValue digits < 2 ^ 64 then some (UInt64.ofNat (decimalValue digits)) else none
  unfold parseU64
  dsimp only
  split
  · exact absurd rfl (noSign _)
  · by_cases small : decimalValue digits < 2 ^ 64
    · rw [if_pos small]
      exact if_pos ⟨nonempty, all, small⟩
    · rw [if_neg small]
      exact if_neg fun ⟨_, _, fits⟩ => small fits

end Numeral

/-! ## Collecting -/

/-- A `collect` into an `Option` that gives a result met no `None`. -/
theorem mapM_isSome {α β : Type} {f : α → Option β} {list : List α} {result : List β}
    (h : list.mapM f = some result) : ∀ a ∈ list, (f a).isSome := by
  induction list generalizing result with
  | nil => simp
  | cons first rest ih =>
      simp only [List.mapM_cons, Option.bind_eq_bind, Option.bind_eq_some_iff,
        Option.pure_def] at h
      obtain ⟨b, hfirst, bs, hrest, -⟩ := h
      intro a ha
      obtain rfl | ha := List.mem_cons.mp ha
      · rw [hfirst]
        rfl
      · exact ih hrest a ha

/-- It gives one when it meets no `None`. -/
theorem exists_mapM {α β : Type} {f : α → Option β} {list : List α}
    (all : ∀ a ∈ list, (f a).isSome) : ∃ result, list.mapM f = some result := by
  induction list with
  | nil => exact ⟨[], rfl⟩
  | cons first rest ih =>
      obtain ⟨b, here⟩ := Option.isSome_iff_exists.mp (all first List.mem_cons_self)
      obtain ⟨bs, there⟩ := ih fun a ha => all a (List.mem_cons_of_mem _ ha)
      exact ⟨b :: bs, by rw [List.mapM_cons, here, there]; rfl⟩

theorem mem_mapM {α β : Type} {f : α → Option β} {list : List α} {result : List β}
    (h : list.mapM f = some result) {b : β} : b ∈ result ↔ ∃ a ∈ list, f a = some b := by
  induction list generalizing result with
  | nil =>
      obtain rfl := Option.some.inj h
      simp
  | cons first rest ih =>
      simp only [List.mapM_cons, Option.bind_eq_bind, Option.bind_eq_some_iff,
        Option.pure_def, Option.some.injEq] at h
      obtain ⟨c, hfirst, cs, hrest, rfl⟩ := h
      rw [List.mem_cons, ih hrest, List.exists_mem_cons_iff, hfirst, Option.some.injEq]
      exact or_congr_left eq_comm

/-! ## Pieces -/

/-- `str::split_once`: the text before and after the first `separator`. -/
def splitOnce (separator : Char) (text : Text) : Option (Text × Text) :=
  match text.span (· != separator) with
  | (before, _ :: after) => some (before, after)
  | (_, []) => none

theorem splitOnce_eq_none {separator : Char} {text : Text} (absent : separator ∉ text) :
    splitOnce separator text = none := by
  have all : ∀ c ∈ text, (c != separator) = true := by
    intro c hc
    rw [bne_iff_ne]
    rintro rfl
    exact absent hc
  rw [splitOnce, List.span_eq_takeWhile_dropWhile, List.dropWhile_eq_nil_iff.mpr all]

theorem splitOnce_append {separator : Char} {before : Text} (absent : separator ∉ before)
    (after : Text) : splitOnce separator (before ++ separator :: after) = some (before, after) := by
  have all : ∀ c ∈ before, (c != separator) = true := by
    intro c hc
    rw [bne_iff_ne]
    rintro rfl
    exact absent hc
  rw [splitOnce, List.span_eq_takeWhile_dropWhile, List.takeWhile_append_of_pos all,
    List.dropWhile_append_of_pos all]
  simp

/-- Splitting commutes with a renaming. -/
theorem splitOn_map {α β : Type} [DecidableEq α] [DecidableEq β] {f : α → β}
    (injective : Function.Injective f) (separator : α) (list : List α) :
    (list.map f).splitOn (f separator) = (list.splitOn separator).map (List.map f) := by
  induction list with
  | nil => simp
  | cons x rest ih =>
    rw [List.map_cons, List.splitOn_cons_eq_if_modifyHead, List.splitOn_cons_eq_if_modifyHead, ih]
    by_cases here : x = separator
    · simp [here]
    · have there : f x ≠ f separator := fun same => here (injective same)
      cases h : rest.splitOn separator <;> simp [here, there]

/-- Splitting makes no elements up. -/
theorem mem_of_mem_splitOn {α : Type} [DecidableEq α] {separator x : α} {list part : List α}
    (h : part ∈ list.splitOn separator) (member : x ∈ part) : x ∈ list := by
  induction list generalizing part with
  | nil =>
    rw [List.splitOn_nil, List.mem_singleton] at h
    exact h ▸ member
  | cons y rest ih =>
    rw [List.splitOn_cons_eq_if_modifyHead] at h
    split at h
    · rcases List.mem_cons.mp h with rfl | later
      · cases member
      · exact List.mem_cons_of_mem _ (ih later member)
    · cases hsplit : rest.splitOn separator with
      | nil => exact absurd hsplit (List.splitOn_ne_nil _ _)
      | cons first others =>
        rw [hsplit, List.modifyHead_cons] at h
        rcases List.mem_cons.mp h with rfl | later
        · rcases List.mem_cons.mp member with rfl | inside
          · exact List.mem_cons_self
          · exact List.mem_cons_of_mem _ (ih (hsplit ▸ List.mem_cons_self) inside)
        · exact List.mem_cons_of_mem _ (ih (hsplit ▸ List.mem_cons_of_mem _ later) member)

/-- No separator is left in the pieces. -/
theorem not_mem_of_mem_splitOn {α : Type} [DecidableEq α] {separator : α} {list part : List α}
    (h : part ∈ list.splitOn separator) : separator ∉ part := by
  induction list generalizing part with
  | nil =>
    rw [List.splitOn_nil, List.mem_singleton] at h
    exact h ▸ List.not_mem_nil
  | cons y rest ih =>
    rw [List.splitOn_cons_eq_if_modifyHead] at h
    split at h
    · rcases List.mem_cons.mp h with rfl | later
      · exact List.not_mem_nil
      · exact ih later
    · rename_i other
      cases hsplit : rest.splitOn separator with
      | nil => exact absurd hsplit (List.splitOn_ne_nil _ _)
      | cons first others =>
        rw [hsplit, List.modifyHead_cons] at h
        rcases List.mem_cons.mp h with rfl | later
        · intro member
          rcases List.mem_cons.mp member with rfl | inside
          · exact other (beq_self_eq_true _)
          · exact ih (hsplit ▸ List.mem_cons_self) inside
        · exact ih (hsplit ▸ List.mem_cons_of_mem _ later)

/-- `strip_prefix` and `strip_suffix` by one character, one after the other. -/
def stripAround (c : Char) (text : Text) : Option Text :=
  match text with
  | first :: rest =>
    if first = c ∧ rest.getLast? = some c then some rest.dropLast else none
  | [] => none

theorem stripAround_around (c : Char) (text : Text) :
    stripAround c (c :: text ++ [c]) = some text := by
  simp [stripAround]

theorem stripAround_eq_none {c : Char} {text : Text} (absent : c ∉ text) :
    stripAround c text = none := by
  cases text with
  | nil => rfl
  | cons first rest =>
    have other : first ≠ c := fun same => absent (same ▸ List.mem_cons_self)
    rw [stripAround, if_neg fun both => other both.1]

end Rust
