import Mathlib.Order.Basic
import Mathlib.Order.Lattice
import Mathlib.Tactic.NormNum

/-!
# Durations and moments as Rust's `std::time` holds them

A `Duration` is a `u64` of seconds with a nanosecond part below one second,
so it is kept here as its nanoseconds together with the proof that they are
in range: a sum that leaves the range cannot be built, and `checkedAdd` is
where Rust's `+` panics. An `Instant` counts from an unspecified epoch in an
`i64` of seconds, and a `SystemTime` counts from 1970 in one.
-/

namespace Rust

/-- Nanoseconds in a second. -/
def nanosPerSec : Nat := 1000000000

/-- `std::time::Duration`, in nanoseconds. -/
@[ext]
structure Duration where
  nanos : Nat
  inRange : nanos < 2 ^ 64 * nanosPerSec
deriving DecidableEq

namespace Duration

theorem nanos_injective : Function.Injective nanos :=
  fun _ _ h => Duration.ext h

instance : LinearOrder Duration := LinearOrder.lift' nanos nanos_injective

theorem le_iff {a b : Duration} : a ≤ b ↔ a.nanos ≤ b.nanos := Iff.rfl

theorem lt_iff {a b : Duration} : a < b ↔ a.nanos < b.nanos := Iff.rfl

/-- `Duration::ZERO`, which is also `Duration::default()`. -/
def zero : Duration := ⟨0, by decide⟩

/-- `Duration::MAX`. -/
def maxValue : Duration := ⟨2 ^ 64 * nanosPerSec - 1, by decide⟩

/-- `Duration::from_secs`. -/
def fromSecs (secs : UInt64) : Duration :=
  ⟨secs.toNat * nanosPerSec, Nat.mul_lt_mul_of_pos_right secs.toNat_lt (by decide)⟩

/-- `Duration::is_zero`. -/
def isZero (d : Duration) : Bool := d.nanos == 0

/-- `Duration::as_secs`. -/
def asSecs (d : Duration) : Nat := d.nanos / nanosPerSec

/-- `Duration::checked_add`. `none` is where `+` panics. -/
def checkedAdd (a b : Duration) : Option Duration :=
  if h : a.nanos + b.nanos < 2 ^ 64 * nanosPerSec then some ⟨_, h⟩ else none

/-- `Duration::checked_sub`. -/
def checkedSub (a b : Duration) : Option Duration :=
  if b.nanos ≤ a.nanos then some ⟨a.nanos - b.nanos, (Nat.sub_le _ _).trans_lt a.inRange⟩
  else none

/-- `Duration::saturating_add`. -/
def saturatingAdd (a b : Duration) : Duration := (a.checkedAdd b).getD maxValue

/-- `Duration::saturating_mul`. -/
def saturatingMul (d : Duration) (n : UInt32) : Duration :=
  if h : d.nanos * n.toNat < 2 ^ 64 * nanosPerSec then ⟨_, h⟩ else maxValue

theorem saturatingMul_nanos {d : Duration} {n : UInt32}
    (h : d.nanos * n.toNat < 2 ^ 64 * nanosPerSec) :
    (d.saturatingMul n).nanos = d.nanos * n.toNat := by
  rw [saturatingMul, dif_pos h]

theorem checkedAdd_eq_some {a b c : Duration} :
    a.checkedAdd b = some c ↔ a.nanos + b.nanos = c.nanos := by
  unfold checkedAdd
  split
  · simp [Duration.ext_iff]
  · have := c.inRange
    simp
    omega

theorem checkedAdd_isSome {a b : Duration} :
    (a.checkedAdd b).isSome ↔ a.nanos + b.nanos < 2 ^ 64 * nanosPerSec := by
  unfold checkedAdd
  split
  case isTrue h => exact ⟨fun _ => h, fun _ => rfl⟩
  case isFalse h => exact ⟨fun none => absurd none (by simp), fun inside => absurd inside h⟩

theorem checkedSub_eq_some {a b c : Duration} :
    a.checkedSub b = some c ↔ b.nanos ≤ a.nanos ∧ c.nanos = a.nanos - b.nanos := by
  unfold checkedSub
  split <;> simp_all [Duration.ext_iff, eq_comm]

theorem saturatingAdd_nanos {a b : Duration} (h : a.nanos + b.nanos < 2 ^ 64 * nanosPerSec) :
    (a.saturatingAdd b).nanos = a.nanos + b.nanos := by
  rw [saturatingAdd, checkedAdd, dif_pos h]
  rfl

theorem isZero_eq_false {d : Duration} : d.isZero = false ↔ 0 < d.nanos := by
  simp [isZero, Nat.pos_iff_ne_zero]

@[simp] theorem zero_nanos : zero.nanos = 0 := rfl

theorem min_nanos (a b : Duration) : (min a b).nanos = min a.nanos b.nanos :=
  Monotone.map_min (f := nanos) (fun _ _ h => h)

theorem max_nanos (a b : Duration) : (max a b).nanos = max a.nanos b.nanos :=
  Monotone.map_max (f := nanos) (fun _ _ h => h)

end Duration

/-- `std::time::Instant`, in nanoseconds from the clock's own epoch. The
seconds are an `i64`. -/
@[ext]
structure Instant where
  nanos : Nat
  inRange : nanos < 2 ^ 63 * nanosPerSec
deriving DecidableEq

namespace Instant

/-- The first reading of the monotonic clock. -/
def zero : Instant := ⟨0, by decide⟩

theorem nanos_injective : Function.Injective nanos :=
  fun _ _ h => Instant.ext h

instance : LinearOrder Instant := LinearOrder.lift' nanos nanos_injective

theorem le_iff {a b : Instant} : a ≤ b ↔ a.nanos ≤ b.nanos := Iff.rfl

/-- `Instant::duration_since`, which is zero for a later `earlier`. -/
def durationSince (now earlier : Instant) : Duration :=
  ⟨now.nanos - earlier.nanos, by
    have := now.inRange
    simp only [nanosPerSec] at *
    omega⟩

/-- `Instant::checked_add`. `none` is where `+` panics. -/
def checkedAdd (now : Instant) (d : Duration) : Option Instant :=
  if h : now.nanos + d.nanos < 2 ^ 63 * nanosPerSec then some ⟨_, h⟩ else none

theorem checkedAdd_eq_some {now later : Instant} {d : Duration} :
    now.checkedAdd d = some later ↔ now.nanos + d.nanos = later.nanos := by
  unfold checkedAdd
  split
  · simp [Instant.ext_iff]
  · have := later.inRange
    simp
    omega

theorem checkedAdd_eq_none {now : Instant} {d : Duration} :
    now.checkedAdd d = none ↔ ¬ now.nanos + d.nanos < 2 ^ 63 * nanosPerSec := by
  unfold checkedAdd
  split
  case isTrue inside => exact ⟨fun none => absurd none (by simp), fun beyond => absurd inside beyond⟩
  case isFalse beyond => exact ⟨fun _ => beyond, fun _ => rfl⟩

@[simp] theorem durationSince_nanos (now earlier : Instant) :
    (now.durationSince earlier).nanos = now.nanos - earlier.nanos := rfl

@[simp] theorem durationSince_self (now : Instant) : now.durationSince now = Duration.zero :=
  Duration.ext (Nat.sub_self _)

end Instant

/-- `std::time::SystemTime`, in nanoseconds from 1970. The seconds are an
`i64`. -/
structure SystemTime where
  nanos : Int
  above : -(2 ^ 63 * nanosPerSec : Int) ≤ nanos
  below : nanos < 2 ^ 63 * nanosPerSec
deriving DecidableEq

namespace SystemTime

/-- `SystemTime::duration_since`. `none` stands for the error when `earlier`
is the later one. -/
def durationSince (now earlier : SystemTime) : Option Duration :=
  if earlier.nanos ≤ now.nanos then
    some ⟨(now.nanos - earlier.nanos).toNat, by
      have := now.below
      have := earlier.above
      simp only [nanosPerSec] at *
      omega⟩
  else none

/-- The time since an earlier moment, where an error counts as none. -/
theorem durationSince_getD (now earlier : SystemTime) :
    ((now.durationSince earlier).getD Duration.zero).nanos = (now.nanos - earlier.nanos).toNat := by
  unfold durationSince
  split
  case isTrue => rfl
  case isFalse later =>
    show 0 = _
    omega

end SystemTime

/-- One reading of the clocks: `Instant::now()` and `SystemTime::now()`. -/
structure Clock where
  instant : Instant
  system : SystemTime

end Rust
