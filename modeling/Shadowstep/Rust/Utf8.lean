import Shadowstep.Rust.Text

/-!
# What decoding keeps of the bytes

`str::as_bytes` and `String::from_utf8_lossy`, against each other. A text is
what its own bytes decode to, so two texts are equal when their bytes are. The
other way round `from_utf8_lossy` loses what is not UTF-8; but an ASCII
character stands in the result exactly where its byte stood.

* `fromUtf8Lossy_asBytes` — decoding undoes encoding;
* `fromUtf8Lossy_between` — an ASCII byte splits the decoding in two;
* `exists_byte_of_mem_fromUtf8Lossy` — no ASCII character comes from elsewhere.
-/

namespace Rust

/-- `str::as_bytes`. -/
def asBytes (text : Text) : Bytes := text.flatMap String.utf8EncodeChar

@[simp] theorem asBytes_nil : asBytes [] = [] := rfl

theorem asBytes_cons (c : Char) (text : Text) :
    asBytes (c :: text) = String.utf8EncodeChar c ++ asBytes text := List.flatMap_cons

@[simp] theorem asBytes_append (left right : Text) :
    asBytes (left ++ right) = asBytes left ++ asBytes right := List.flatMap_append

theorem asBytes_intercalate (separator : Text) (parts : List Text) :
    asBytes (separator.intercalate parts) =
      (asBytes separator).intercalate (parts.map asBytes) := by
  induction parts with
  | nil => rfl
  | cons part rest ih =>
    cases rest with
    | nil => simp
    | cons next rest =>
      rw [List.intercalate_cons_cons, asBytes_append, asBytes_append, ih]
      simp only [List.map_cons, List.intercalate_cons_cons]

/-! ## One byte -/

theorem utf8From_cons (state : Utf8State) (b : UInt8) (rest : Bytes) :
    utf8From state (b :: rest) =
      (utf8Step state b).1 ++ utf8From (utf8Step state b).2 rest := by
  cases state <;> rfl

/-- A continuation byte in the range that the state asks for. -/
theorem utf8Step_inside {owed bits : Nat} {low high b : UInt8} (above : low.toNat ≤ b.toNat)
    (below : b.toNat ≤ high.toNat) :
    utf8Step (.inside owed bits low high) b =
      match owed with
      | 0 => ([Char.ofNat (bits * 0x40 + b.toNat % 0x40)], .start)
      | owed + 1 => ([], .inside owed (bits * 0x40 + b.toNat % 0x40) 0x80 0xBF) :=
  if_pos ⟨UInt8.le_iff_toNat_le.mpr above, UInt8.le_iff_toNat_le.mpr below⟩

/-- The first byte of a character, by its number. -/
theorem utf8First_eq (b : UInt8) :
    utf8First b =
      if b.toNat < 0x80 then ([Char.ofNat b.toNat], .start)
      else if 0xC2 ≤ b.toNat ∧ b.toNat ≤ 0xDF then ([], .inside 0 (b.toNat % 0x20) 0x80 0xBF)
      else if b.toNat = 0xE0 then ([], .inside 1 0 0xA0 0xBF)
      else if b.toNat = 0xED then ([], .inside 1 0xD 0x80 0x9F)
      else if 0xE1 ≤ b.toNat ∧ b.toNat ≤ 0xEF then ([], .inside 1 (b.toNat % 0x10) 0x80 0xBF)
      else if b.toNat = 0xF0 then ([], .inside 2 0 0x90 0xBF)
      else if 0xF1 ≤ b.toNat ∧ b.toNat ≤ 0xF3 then ([], .inside 2 (b.toNat % 8) 0x80 0xBF)
      else if b.toNat = 0xF4 then ([], .inside 2 4 0x80 0x8F)
      else ([replacement], .start) := by
  simp only [utf8First, UInt8.lt_iff_toNat_lt, UInt8.le_iff_toNat_le, ← UInt8.toNat_inj]
  rfl

theorem toNat_ofNat_of_valid {n : Nat} (valid : n.isValidChar) : (Char.ofNat n).toNat = n := by
  rw [Char.ofNat, dif_pos valid]
  rfl

/-! ## Encoding, then decoding -/

/-- A first byte that begins a longer character. -/
theorem utf8From_first {b : UInt8} {state : Utf8State} {rest : Bytes}
    (first : utf8First b = ([], state)) :
    utf8From .start (b :: rest) = utf8From state rest := by
  rw [utf8From_cons]
  show (utf8First b).1 ++ utf8From (utf8First b).2 rest = _
  rw [first]
  rfl

/-- A byte of the encoder, whose number is in range. -/
theorem toNat_byte {n : Nat} (h : n < 256) : (UInt8.ofNat n).toNat = n :=
  UInt8.toNat_ofNat_of_lt' h

/-- A continuation byte with six bits of a number, and more to come. -/
theorem utf8From_continue {owed bits k : Nat} {low high : UInt8} {rest : Bytes}
    (above : low.toNat ≤ k % 0x40 + 0x80) (below : k % 0x40 + 0x80 ≤ high.toNat) :
    utf8From (.inside (owed + 1) bits low high) (UInt8.ofNat (k % 0x40 + 0x80) :: rest) =
      utf8From (.inside owed (bits * 0x40 + k % 0x40) 0x80 0xBF) rest := by
  have byte := toNat_byte (n := k % 0x40 + 0x80) (by omega)
  rw [utf8From_cons, utf8Step_inside (by rwa [byte]) (by rwa [byte]), byte,
    show (k % 0x40 + 0x80) % 0x40 = k % 0x40 by omega]
  rfl

/-- The last continuation byte. -/
theorem utf8From_finish {bits k : Nat} {low high : UInt8} {rest : Bytes}
    (above : low.toNat ≤ k % 0x40 + 0x80) (below : k % 0x40 + 0x80 ≤ high.toNat) :
    utf8From (.inside 0 bits low high) (UInt8.ofNat (k % 0x40 + 0x80) :: rest) =
      Char.ofNat (bits * 0x40 + k % 0x40) :: utf8From .start rest := by
  have byte := toNat_byte (n := k % 0x40 + 0x80) (by omega)
  rw [utf8From_cons, utf8Step_inside (by rwa [byte]) (by rwa [byte]), byte,
    show (k % 0x40 + 0x80) % 0x40 = k % 0x40 by omega]
  rfl

/-- The first of three bytes. The range of the second one keeps out what two
bytes can say, and the surrogates. -/
theorem utf8First_of_three {n : Nat} (above : 0x7FF < n) (below : n ≤ 0xFFFF)
    (valid : n < 0xD800 ∨ 0xDFFF < n) : ∃ low high : UInt8,
    utf8First (UInt8.ofNat (n / 4096 % 0x10 + 0xE0)) = ([], .inside 1 (n / 4096) low high) ∧
      low.toNat ≤ n / 64 % 0x40 + 0x80 ∧ n / 64 % 0x40 + 0x80 ≤ high.toNat := by
  have lead := toNat_byte (n := n / 4096 % 0x10 + 0xE0) (by omega)
  rw [utf8First_eq, lead, if_neg (by omega), if_neg (by omega)]
  -- E0 goes on from A0
  by_cases zero : n / 4096 = 0
  · refine ⟨0xA0, 0xBF, ?_, ?_, ?_⟩
    · rw [if_pos (by omega), zero]
    · show 0xA0 ≤ _
      omega
    · show _ ≤ 0xBF
      omega
  rw [if_neg (by omega)]
  -- ED goes on up to 9F
  by_cases surrogates : n / 4096 = 0xD
  · refine ⟨0x80, 0x9F, ?_, ?_, ?_⟩
    · rw [if_pos (by omega), surrogates]
    · show 0x80 ≤ _
      omega
    · show _ ≤ 0x9F
      omega
  refine ⟨0x80, 0xBF, ?_, ?_, ?_⟩
  · rw [if_neg (by omega), if_pos (by omega),
      show (n / 4096 % 0x10 + 0xE0) % 0x10 = n / 4096 by omega]
  · show 0x80 ≤ _
    omega
  · show _ ≤ 0xBF
    omega

/-- The first of four bytes. The range of the second one keeps out what three
bytes can say, and what is past the last character. -/
theorem utf8First_of_four {n : Nat} (above : 0xFFFF < n) (below : n < 0x110000) :
    ∃ low high : UInt8,
      utf8First (UInt8.ofNat (n / 262144 % 0x08 + 0xF0)) =
        ([], .inside 2 (n / 262144) low high) ∧
      low.toNat ≤ n / 4096 % 0x40 + 0x80 ∧ n / 4096 % 0x40 + 0x80 ≤ high.toNat := by
  have lead := toNat_byte (n := n / 262144 % 0x08 + 0xF0) (by omega)
  rw [utf8First_eq, lead, if_neg (by omega), if_neg (by omega), if_neg (by omega),
    if_neg (by omega), if_neg (by omega)]
  -- F0 goes on from 90
  by_cases zero : n / 262144 = 0
  · refine ⟨0x90, 0xBF, ?_, ?_, ?_⟩
    · rw [if_pos (by omega), zero]
    · show 0x90 ≤ _
      omega
    · show _ ≤ 0xBF
      omega
  rw [if_neg (by omega)]
  -- F4 goes on up to 8F
  by_cases last : n / 262144 = 4
  · refine ⟨0x80, 0x8F, ?_, ?_, ?_⟩
    · rw [if_neg (by omega), if_pos (by omega), last]
    · show 0x80 ≤ _
      omega
    · show _ ≤ 0x8F
      omega
  refine ⟨0x80, 0xBF, ?_, ?_, ?_⟩
  · rw [if_pos (by omega), show (n / 262144 % 0x08 + 0xF0) % 8 = n / 262144 by omega]
  · show 0x80 ≤ _
    omega
  · show _ ≤ 0xBF
    omega

/-- The bytes of one character decode to it. -/
theorem utf8From_encodeChar (c : Char) (rest : Bytes) :
    utf8From .start (String.utf8EncodeChar c ++ rest) = c :: utf8From .start rest := by
  have valid : c.toNat < 0xD800 ∨ 0xDFFF < c.toNat ∧ c.toNat < 0x110000 := c.valid
  have same : Char.ofNat c.toNat = c := Char.ofNat_toNat c
  have val : c.val.toNat = c.toNat := Char.toNat_val
  have tail (k : Nat) : (0x80 : UInt8).toNat ≤ k % 0x40 + 0x80 := Nat.le_add_left _ _
  have tail' (k : Nat) : k % 0x40 + 0x80 ≤ (0xBF : UInt8).toNat := by
    show _ ≤ 0xBF
    omega
  unfold String.utf8EncodeChar
  simp only [val]
  generalize c.toNat = n at valid same
  split
  case isTrue one =>
    have first : utf8First (UInt8.ofNat n) = ([c], .start) := by
      rw [utf8First_eq, toNat_byte (by omega), if_pos (by omega), same]
    show (utf8First (UInt8.ofNat n)).1 ++ utf8From (utf8First (UInt8.ofNat n)).2 rest = _
    rw [first]
    rfl
  case isFalse =>
  split
  case isTrue two =>
    have lead := toNat_byte (n := n / 64 % 0x20 + 0xC0) (by omega)
    have first : utf8First (UInt8.ofNat (n / 64 % 0x20 + 0xC0)) =
        ([], .inside 0 (n / 64) 0x80 0xBF) := by
      rw [utf8First_eq, lead, if_neg (by omega), if_pos (by omega),
        show (n / 64 % 0x20 + 0xC0) % 0x20 = n / 64 by omega]
    rw [List.cons_append, utf8From_first first, List.cons_append,
      utf8From_finish (tail n) (tail' n), show n / 64 * 0x40 + n % 0x40 = n by omega, same,
      List.nil_append]
  case isFalse =>
  split
  case isTrue three =>
    rcases utf8First_of_three (n := n) (by omega) three (by omega) with
      ⟨low, high, first, above, below⟩
    rw [List.cons_append, utf8From_first first, List.cons_append, utf8From_continue above below,
      List.cons_append, utf8From_finish (tail n) (tail' n),
      show (n / 4096 * 0x40 + n / 64 % 0x40) * 0x40 + n % 0x40 = n by omega, same,
      List.nil_append]
  case isFalse four =>
    rcases utf8First_of_four (n := n) (by omega) (by omega) with ⟨low, high, first, above, below⟩
    rw [List.cons_append, utf8From_first first, List.cons_append, utf8From_continue above below,
      List.cons_append, utf8From_continue (tail _) (tail' _), List.cons_append,
      utf8From_finish (tail n) (tail' n),
      show ((n / 262144 * 0x40 + n / 4096 % 0x40) * 0x40 + n / 64 % 0x40) * 0x40 + n % 0x40 = n by
        omega, same, List.nil_append]

/-- A text is what its bytes decode to. -/
theorem fromUtf8Lossy_asBytes (text : Text) : fromUtf8Lossy (asBytes text) = text := by
  induction text with
  | nil => rfl
  | cons c rest ih =>
    rw [fromUtf8Lossy, asBytes_cons, utf8From_encodeChar]
    exact congrArg _ ih

theorem asBytes_injective : Function.Injective asBytes :=
  Function.LeftInverse.injective fromUtf8Lossy_asBytes

/-- An ASCII byte of a text is one of its characters. -/
theorem mem_asBytes {text : Text} {b : UInt8} (h : b ∈ asBytes text) :
    0x80 ≤ b.toNat ∨ ∃ c ∈ text, c.toNat = b.toNat := by
  rcases List.mem_flatMap.mp h with ⟨c, hc, hb⟩
  have valid : c.toNat < 0xD800 ∨ 0xDFFF < c.toNat ∧ c.toNat < 0x110000 := c.valid
  have val : c.val.toNat = c.toNat := Char.toNat_val
  unfold String.utf8EncodeChar at hb
  simp only [val] at hb
  split at hb
  case isTrue one =>
    refine .inr ⟨c, hc, ?_⟩
    rw [List.mem_singleton.mp hb, toNat_byte (by omega)]
  all_goals
    left
    repeat' split at hb
    all_goals
      simp only [List.mem_cons, List.not_mem_nil, or_false] at hb
      rcases hb with rfl | rfl | rfl | rfl <;> rw [toNat_byte (by omega)] <;> omega

/-! ## ASCII bytes in any bytes -/

/-- With so many continuation bytes to come, the bits read so far become a
character past ASCII. -/
def Completes : Nat → Nat → Prop
  | 0, bits => 0x80 ≤ bits ∧ bits.isValidChar
  | owed + 1, bits => ∀ k < 0x40, Completes owed (bits * 0x40 + k)

/-- A state that the decoder can be in. -/
def Utf8State.Reading : Utf8State → Prop
  | .start => True
  | .inside owed bits low high => 0x80 ≤ low.toNat ∧ ∀ b : UInt8, low.toNat ≤ b.toNat →
      b.toNat ≤ high.toNat → Completes owed (bits * 0x40 + b.toNat % 0x40)

theorem completes_zero {bits : Nat} (above : 0x80 ≤ bits)
    (valid : bits < 0xD800 ∨ 0xDFFF < bits ∧ bits < 0x110000) : Completes 0 bits :=
  ⟨above, valid⟩

theorem reading_first (b : UInt8) : (utf8First b).2.Reading := by
  rw [utf8First_eq]
  split
  · trivial
  split
  case isTrue two =>
    exact ⟨le_refl 0x80, fun _ _ _ => completes_zero (by omega) (by omega)⟩
  split
  case isTrue =>
    refine ⟨by decide, fun second above below k hk => completes_zero ?_ ?_⟩ <;>
      change 0xA0 ≤ _ at above <;> change _ ≤ 0xBF at below <;> omega
  split
  case isTrue =>
    refine ⟨by decide, fun second above below k hk => completes_zero ?_ ?_⟩ <;>
      change 0x80 ≤ _ at above <;> change _ ≤ 0x9F at below <;> omega
  split
  case isTrue three =>
    refine ⟨by decide, fun second above below k hk => completes_zero ?_ ?_⟩ <;>
      change 0x80 ≤ _ at above <;> change _ ≤ 0xBF at below <;> omega
  split
  case isTrue =>
    refine ⟨by decide, fun second above below k hk l hl => completes_zero ?_ ?_⟩ <;>
      change 0x90 ≤ _ at above <;> change _ ≤ 0xBF at below <;> omega
  split
  case isTrue four =>
    refine ⟨by decide, fun second above below k hk l hl => completes_zero ?_ ?_⟩ <;>
      change 0x80 ≤ _ at above <;> change _ ≤ 0xBF at below <;> omega
  split
  case isTrue =>
    refine ⟨by decide, fun second above below k hk l hl => completes_zero ?_ ?_⟩ <;>
      change 0x80 ≤ _ at above <;> change _ ≤ 0x8F at below <;> omega
  · trivial

theorem reading_step {state : Utf8State} (reading : state.Reading) (b : UInt8) :
    (utf8Step state b).2.Reading := by
  cases state with
  | start => exact reading_first b
  | inside owed bits low high =>
    by_cases inRange : low ≤ b ∧ b ≤ high
    · have above := UInt8.le_iff_toNat_le.mp inRange.1
      have below := UInt8.le_iff_toNat_le.mp inRange.2
      rw [utf8Step_inside above below]
      cases owed with
      | zero => trivial
      | succ owed =>
        exact ⟨le_refl 0x80, fun next _ _ => reading.2 b above below _ (Nat.mod_lt _ (by decide))⟩
    · rw [utf8Step, if_neg inRange]
      exact reading_first b

/-- The first byte gives itself or a replacement, if anything. -/
theorem mem_first {b : UInt8} {c : Char} (h : c ∈ (utf8First b).1) :
    b.toNat < 0x80 ∧ c = Char.ofNat b.toNat ∨ c = replacement := by
  rw [utf8First_eq] at h
  split at h
  case isTrue ascii => exact .inl ⟨ascii, List.mem_singleton.mp h⟩
  case isFalse =>
    right
    repeat' split at h
    all_goals first | cases List.not_mem_nil h | exact List.mem_singleton.mp h

/-- An ASCII character that a step gives is the byte of the step. -/
theorem ascii_of_mem_step {state : Utf8State} (reading : state.Reading) {b : UInt8} {c : Char}
    (h : c ∈ (utf8Step state b).1) (ascii : c.toNat < 0x80) :
    b.toNat < 0x80 ∧ c = Char.ofNat b.toNat := by
  have notReplacement : c ≠ replacement := by
    rintro rfl
    exact absurd ascii (by decide)
  cases state with
  | start => exact (mem_first h).resolve_right notReplacement
  | inside owed bits low high =>
    by_cases inRange : low ≤ b ∧ b ≤ high
    · have above := UInt8.le_iff_toNat_le.mp inRange.1
      have below := UInt8.le_iff_toNat_le.mp inRange.2
      have completes := reading.2 b above below
      rw [utf8Step_inside above below] at h
      cases owed with
      | zero =>
        -- a completed character is past ASCII
        have value : c.toNat = bits * 0x40 + b.toNat % 0x40 := by
          rw [List.mem_singleton.mp h, toNat_ofNat_of_valid completes.2]
        exact absurd completes.1 (by omega)
      | succ owed => cases h
    · rw [utf8Step, if_neg inRange] at h
      rcases List.mem_cons.mp h with rfl | h
      · exact absurd rfl notReplacement
      · exact (mem_first h).resolve_right notReplacement

theorem exists_byte_of_mem_utf8From {state : Utf8State} (reading : state.Reading) {bytes : Bytes}
    {c : Char} (h : c ∈ utf8From state bytes) (ascii : c.toNat < 0x80) :
    ∃ b ∈ bytes, b.toNat = c.toNat := by
  induction bytes generalizing state with
  | nil =>
    cases state with
    | start => cases h
    | inside =>
      rw [List.mem_singleton.mp h] at ascii
      exact absurd ascii (by decide)
  | cons b rest ih =>
    rw [utf8From_cons, List.mem_append] at h
    rcases h with here | later
    · rcases ascii_of_mem_step reading here ascii with ⟨small, same⟩
      refine ⟨b, List.mem_cons_self, ?_⟩
      rw [same, toNat_ofNat_of_valid (.inl (by omega))]
    · rcases ih (reading_step reading b) later with ⟨found, member, same⟩
      exact ⟨found, List.mem_cons_of_mem _ member, same⟩

/-- An ASCII character of the decoding is one of the bytes. -/
theorem exists_byte_of_mem_fromUtf8Lossy {bytes : Bytes} {c : Char}
    (h : c ∈ fromUtf8Lossy bytes) (ascii : c.toNat < 0x80) :
    ∃ b ∈ bytes, b.toNat = c.toNat :=
  exists_byte_of_mem_utf8From (show Utf8State.start.Reading from trivial) h ascii

/-- An ASCII byte ends whatever came before it. -/
theorem utf8From_between {state : Utf8State} (reading : state.Reading) (before : Bytes) {b : UInt8}
    (ascii : b.toNat < 0x80) (rest : Bytes) :
    utf8From state (before ++ b :: rest) =
      utf8From state before ++ Char.ofNat b.toNat :: utf8From .start rest := by
  have first : utf8First b = ([Char.ofNat b.toNat], .start) := by
    rw [utf8First_eq, if_pos ascii]
  induction before generalizing state with
  | nil =>
    rw [List.nil_append, utf8From_cons]
    cases state with
    | start =>
      show (utf8First b).1 ++ utf8From (utf8First b).2 rest = _
      rw [first]
      rfl
    | inside owed bits low high =>
      have outside : ¬ (low ≤ b ∧ b ≤ high) := by
        rintro ⟨above, -⟩
        have := UInt8.le_iff_toNat_le.mp above
        have := reading.1
        omega
      rw [utf8Step, if_neg outside, first]
      rfl
  | cons c before ih =>
    rw [List.cons_append, utf8From_cons, utf8From_cons, ih (reading_step reading c),
      List.append_assoc]

theorem fromUtf8Lossy_between (before : Bytes) {b : UInt8} (ascii : b.toNat < 0x80)
    (rest : Bytes) :
    fromUtf8Lossy (before ++ b :: rest) =
      fromUtf8Lossy before ++ Char.ofNat b.toNat :: fromUtf8Lossy rest :=
  utf8From_between (show Utf8State.start.Reading from trivial) before ascii rest

end Rust
