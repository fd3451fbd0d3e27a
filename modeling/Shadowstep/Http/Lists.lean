import Shadowstep.Http.Fields
import Shadowstep.Rust.Utf8

/-!
# Field lines that are lists

A line that is a list (RFC 9110 section 5.6.1) has its elements between
commas, with spaces and tabs around them and any of them empty. The proxy
reads such a line with `to_str`, `split` and `trim`, which is the same for
every line that `to_str` reads at all.

* `toStr_eq_some` — a line that is read is read byte for byte;
* `trim_map_asChar` — the wider whitespace of `trim` makes no difference;
* `pieces_of_toStr` — the pieces are the elements.
-/

namespace Shadowstep

open Rust

/-! ## Elements -/

/-- The whitespace that may stand around a field value. -/
def isBlank (b : UInt8) : Bool := b == 0x20 || b == 9

/-- A field line without the spaces and tabs around it. -/
def strip (line : Bytes) : Bytes := (line.dropWhile isBlank).rdropWhile isBlank

/-- A byte of a readable value, as a character. -/
def asChar (b : UInt8) : Char := Char.ofNat b.toNat

/-- The elements of a line, empty ones included. -/
def listElements (value : HeaderValue) : List Text :=
  (value.bytes.splitOn 44).map fun element => (strip element).map asChar

/-! ## What is read of a line -/

theorem visible_lt {b : UInt8} (visible : isVisibleAscii b = true) : b.toNat < 128 := by
  simp only [isVisibleAscii, Bool.or_eq_true, Bool.and_eq_true, beq_iff_eq, decide_eq_true_eq,
    ← UInt8.toNat_inj, UInt8.lt_iff_toNat_lt] at visible
  rcases visible with tab | ⟨-, below⟩
  · have : (9 : UInt8).toNat = 9 := rfl
    omega
  · have : (127 : UInt8).toNat = 127 := rfl
    omega

theorem asChar_toNat (b : UInt8) : (asChar b).toNat = b.toNat :=
  toNat_ofNat_of_valid (.inl (by have := b.toNat_lt; omega))

theorem asChar_injective : Function.Injective asChar := by
  intro a b same
  rw [← UInt8.toNat_inj, ← asChar_toNat, same, asChar_toNat]

/-- Visible whitespace is blank. -/
theorem isWhitespace_asChar {b : UInt8} (visible : isVisibleAscii b = true) :
    isWhitespace (asChar b) = isBlank b := by
  have all : ∀ n < 128, isVisibleAscii (UInt8.ofNat n) = true →
      isWhitespace (asChar (UInt8.ofNat n)) = isBlank (UInt8.ofNat n) := by decide
  have here := all b.toNat (visible_lt visible)
  rw [UInt8.ofNat_toNat] at here
  exact here visible

/-- Trimming visible text strips its bytes. -/
theorem trim_map_asChar {bytes : Bytes} (visible : ∀ b ∈ bytes, isVisibleAscii b = true) :
    trim (bytes.map asChar) = (strip bytes).map asChar := by
  have front : (bytes.map asChar).dropWhile isWhitespace = (bytes.dropWhile isBlank).map asChar :=
    dropWhile_map_of_agree fun b hb => isWhitespace_asChar (visible b hb)
  have back : ((bytes.dropWhile isBlank).map asChar).reverse.dropWhile isWhitespace =
      ((bytes.dropWhile isBlank).reverse.dropWhile isBlank).map asChar := by
    rw [← List.map_reverse]
    refine dropWhile_map_of_agree fun b hb => isWhitespace_asChar (visible b ?_)
    exact (List.dropWhile_suffix _).subset (List.mem_reverse.mp hb)
  rw [trim, front, strip, List.rdropWhile, List.rdropWhile, back, List.map_reverse]

/-- A readable value is read as its bytes are. -/
theorem toStr_eq_some {value : HeaderValue} {text : Text} (h : value.toStr = some text) :
    (∀ b ∈ value.bytes, isVisibleAscii b = true) ∧ text = value.bytes.map asChar := by
  unfold HeaderValue.toStr at h
  split at h
  case isTrue visible => exact ⟨List.all_eq_true.mp visible, (Option.some.inj h).symm⟩
  case isFalse => cases h

/-- Splitting and trimming a line that is read gives its elements. -/
theorem pieces_of_toStr {value : HeaderValue} {text : Text} (read : value.toStr = some text) :
    (text.splitOn ',').map trim = listElements value := by
  obtain ⟨visible, rfl⟩ := toStr_eq_some read
  have comma : ',' = asChar 44 := by decide
  rw [comma, splitOn_map asChar_injective, List.map_map, listElements]
  exact List.map_congr_left fun element part =>
    trim_map_asChar fun b hb => visible b (mem_of_mem_splitOn part hb)

end Shadowstep
