import LuaLift.Number.Decimal
import LuaLift.Number.Power
import Mathlib.Data.Int.Log
import Mathlib.Data.Rat.Floor
import Mathlib.Tactic.Linarith
import Mathlib.Tactic.Ring

/-! Rounding to significant digits. The unit of the last digit comes from the number itself, and the
number becomes the nearest multiple of its unit. It never leaves the range between two powers of
ten, so larger numbers become no smaller ones, also where their units differ. -/
namespace LuaLift

/-- The multiple of the unit that is nearest to the value, the even one of two equally near ones. -/
structure NearestEven (unit value : Rat) (count : Int) : Prop where
  nearest : ∀ other : Int, |value - count * unit| ≤ |value - other * unit|
  even : ∀ other : Int, |value - other * unit| = |value - count * unit| → other = count ∨ Even count

namespace NearestEven

variable {unit value : Rat} {count : Int}

/-- Two multiples are at least a unit apart. -/
theorem unit_le_add {other : Int} (positive : 0 < unit) (differs : other ≠ count) (value : Rat) :
    unit ≤ |value - count * unit| + |value - other * unit| := by
  have apart : (1 : Rat) ≤ |((other - count : Int) : Rat)| := by
    exact_mod_cast Int.one_le_abs (sub_ne_zero.mpr differs)
  calc unit
    _ ≤ |((other - count : Int) : Rat)| * unit := le_mul_of_one_le_left positive.le apart
    _ = |((other - count : Int) : Rat) * unit| := by rw [abs_mul, abs_of_pos positive]
    _ = |(value - count * unit) - (value - other * unit)| := by
      congr 1
      push_cast
      ring
    _ ≤ |value - count * unit| + |value - other * unit| := abs_sub _ _

private theorem of_half (positive : 0 < unit) (close : |value - count * unit| ≤ unit / 2)
    (tie : |value - count * unit| = unit / 2 → Even count) : NearestEven unit value count where
  nearest other := by
    by_cases same : other = count
    · rw [same]
    · have apart := unit_le_add positive same value
      linarith
  even other equal := by
    by_cases same : other = count
    · exact .inl same
    · have apart := unit_le_add positive same value
      right
      apply tie
      linarith

private theorem of_lt_half (close : |value - count * unit| < unit / 2) :
    NearestEven unit value count := by
  have positive : 0 < unit := by
    have least := abs_nonneg (value - count * unit)
    linarith
  exact of_half positive close.le fun tie => absurd tie close.ne

/-- A multiple stays as it is. -/
theorem self (positive : 0 < unit) (count : Int) : NearestEven unit (count * unit) count := by
  apply of_lt_half
  rw [sub_self, abs_zero]
  exact half_pos positive

/-- A multiple of one may be scaled to any unit. -/
theorem scale (positive : 0 < unit) (counted : NearestEven 1 (value / unit) count) :
    NearestEven unit value count := by
  have distance (other : Int) : |value - other * unit| = |value / unit - other * 1| * unit := by
    rw [← abs_of_pos positive, ← abs_mul, abs_of_pos positive, mul_one, sub_mul,
      div_mul_cancel₀ value positive.ne']
  constructor
  · intro other
    rw [distance, distance]
    exact mul_le_mul_of_nonneg_right (counted.nearest other) positive.le
  · intro other equal
    rw [distance, distance] at equal
    exact counted.even other (mul_right_cancel₀ positive.ne' equal)

variable (counted : NearestEven unit value count)

include counted

private theorem neg : NearestEven unit (-value) (-count) := by
  have distance (other : Int) : |-value - other * unit| = |value - (-other : Int) * unit| := by
    rw [← abs_neg]
    congr 1
    push_cast
    ring
  constructor
  · intro other
    rw [distance, distance, neg_neg]
    exact counted.nearest (-other)
  · intro other equal
    rw [distance, distance, neg_neg] at equal
    rcases counted.even (-other) equal with same | even
    · left
      omega
    · exact .inr even.neg

private theorem within (positive : 0 < unit) : |value - count * unit| ≤ unit / 2 := by
  have above := counted.nearest (count + 1)
  have below := counted.nearest (count - 1)
  push_cast [add_mul, sub_mul, one_mul] at above below
  by_contra far
  rw [not_le] at far
  rcases lt_abs.mp far with high | low
  · have nearer : |value - (count * unit + unit)| < |value - count * unit| := by
      rw [abs_of_pos (a := value - count * unit) (by linarith), abs_lt]
      constructor <;> linarith
    exact absurd above (not_le.mpr nearer)
  · have nearer : |value - (count * unit - unit)| < |value - count * unit| := by
      rw [abs_of_neg (a := value - count * unit) (by linarith), abs_lt]
      constructor <;> linarith
    exact absurd below (not_le.mpr nearer)

/-- A larger value has no smaller count: at a tie both would be even, one behind the other. -/
theorem le {other : Rat} {next : Int} (positive : 0 < unit) (also : NearestEven unit other next)
    (smaller : value ≤ other) : count ≤ next := by
  by_contra above
  rw [not_le] at above
  have first := abs_le.mp (counted.within positive)
  have second := abs_le.mp (also.within positive)
  have adjacent : count = next + 1 := by
    have bound : (count : Rat) * unit ≤ (next + 1) * unit := by linarith
    have close : count ≤ next + 1 := by exact_mod_cast le_of_mul_le_mul_right bound positive
    omega
  have step : (count : Rat) * unit = next * unit + unit := by
    rw [adjacent]
    push_cast
    ring
  have middle : value = next * unit + unit / 2 := by linarith
  have same : other = value := by linarith
  have tie : |value - next * unit| = |value - count * unit| := by
    have half : value - next * unit = unit / 2 := by linarith
    have short : value - count * unit = -(unit / 2) := by linarith
    rw [half, short, abs_neg]
  have even := (counted.even next tie).resolve_left (by omega)
  have after := (also.even count (by rw [same, tie])).resolve_left (by omega)
  rw [adjacent] at even
  exact Int.not_even_iff_odd.mpr after.add_one even

end NearestEven

theorem nearestEven_roundEven (value : Rat) : NearestEven 1 value (roundEven value) := by
  have floor : (value.floor : Rat) ≤ value := Int.floor_le value
  have next : value < value.floor + 1 := Int.lt_floor_add_one value
  have lower : |value - value.floor * 1| = value - value.floor := by
    rw [mul_one, abs_of_nonneg (sub_nonneg.mpr floor)]
  have upper : |value - ((value.floor + 1 : Int) : Rat) * 1| = 1 - (value - value.floor) := by
    push_cast
    rw [mul_one, abs_of_neg (sub_neg.mpr next)]
    ring
  unfold roundEven
  dsimp only
  generalize value.floor = below at *
  split
  · apply NearestEven.of_lt_half
    rwa [lower]
  split
  · apply NearestEven.of_lt_half
    rw [upper]
    linarith
  split
  · rename_i even
    refine .of_half one_pos ?_ fun _ => Int.even_iff.mpr even
    rw [lower]
    linarith
  · rename_i odd
    refine .of_half one_pos ?_ fun _ => (Int.not_even_iff_odd.mp (mt Int.even_iff.mp odd)).add_one
    rw [upper]
    linarith

/-! ### Significant digits -/

/-- The place of the last of some significant digits of a number. -/
def lastPlace (digits : Nat) (value : Rat) : Int := Int.log 10 |value| - digits + 1

@[simp] theorem lastPlace_neg (digits : Nat) (value : Rat) :
    lastPlace digits (-value) = lastPlace digits value := by
  rw [lastPlace, abs_neg, lastPlace]

/-- The nearest number with so many significant digits, the one whose last digit is even of two. -/
def RoundsTo (digits : Nat) (value rounded : Rat) : Prop :=
  ∃ count : Int, NearestEven (10 ^ lastPlace digits value) value count ∧
    rounded = count * 10 ^ lastPlace digits value

theorem tenPow_pos (exponent : Int) : (0 : Rat) < 10 ^ exponent := zpow_pos (by norm_num) exponent

theorem tenPow_add (first second : Int) :
    (10 : Rat) ^ (first + second) = 10 ^ first * 10 ^ second := zpow_add₀ (by norm_num) first second

/-- The exponent of a number from the powers of ten around it. -/
theorem log_eq {value : Rat} {exponent : Int} (low : 10 ^ exponent ≤ value)
    (high : value < 10 ^ (exponent + 1)) : Int.log 10 value = exponent := by
  have positive : 0 < value := (tenPow_pos exponent).trans_le low
  have least : exponent ≤ Int.log 10 value :=
    (Int.zpow_le_iff_le_log (by decide) positive).mp (by exact_mod_cast low)
  have most : Int.log 10 value < exponent + 1 :=
    (Int.lt_zpow_iff_log_lt (by decide) positive).mp (by exact_mod_cast high)
  omega

private theorem log_bounds {value : Rat} (positive : 0 < value) :
    10 ^ Int.log 10 value ≤ value ∧ value < 10 ^ (Int.log 10 value + 1) := by
  constructor
  · exact_mod_cast Int.zpow_log_le_self (by decide : 1 < 10) positive
  · exact_mod_cast Int.lt_zpow_succ_log_self (by decide : 1 < 10) value

namespace RoundsTo

variable {digits : Nat} {value rounded : Rat}

theorem zero (digits : Nat) : RoundsTo digits 0 0 := by
  refine ⟨0, ?_, by simp⟩
  simpa using NearestEven.self (tenPow_pos (lastPlace digits 0)) 0

variable (rounds : RoundsTo digits value rounded)

include rounds

theorem neg : RoundsTo digits (-value) (-rounded) := by
  obtain ⟨count, nearest, rfl⟩ := rounds
  rw [RoundsTo, lastPlace_neg]
  refine ⟨-count, nearest.neg, ?_⟩
  push_cast
  ring

/-- What lies on the grid of the last digit is not rounded past. -/
theorem le_of_le (count : Int) (smaller : value ≤ count * 10 ^ lastPlace digits value) :
    rounded ≤ count * 10 ^ lastPlace digits value := by
  obtain ⟨own, nearest, rfl⟩ := rounds
  have positive := tenPow_pos (lastPlace digits value)
  have counts : own ≤ count := nearest.le positive (.self positive count) smaller
  exact mul_le_mul_of_nonneg_right (by exact_mod_cast counts) positive.le

private theorem le_of_ge (count : Int) (larger : count * 10 ^ lastPlace digits value ≤ value) :
    count * 10 ^ lastPlace digits value ≤ rounded := by
  have opposite : -value ≤ (-count : Int) * 10 ^ lastPlace digits (-value) := by
    rw [lastPlace_neg]
    push_cast
    linarith
  have mirrored := rounds.neg.le_of_le (-count) opposite
  rw [lastPlace_neg] at mirrored
  push_cast at mirrored
  linarith

private theorem nonneg (sign : 0 ≤ value) : 0 ≤ rounded := by
  simpa using rounds.le_of_ge 0 (by simpa using sign)

theorem abs : RoundsTo digits |value| |rounded| := by
  rcases le_total 0 value with positive | negative
  · rwa [abs_of_nonneg positive, abs_of_nonneg (rounds.nonneg positive)]
  · have opposite := rounds.neg.nonneg (neg_nonneg.mpr negative)
    rw [abs_of_nonpos negative, abs_of_nonpos (neg_nonneg.mp opposite)]
    exact rounds.neg

/-- Rounding may reach the next power of ten, but does not go past it. -/
theorem bounds (least : 0 < digits) (positive : 0 < value) :
    10 ^ Int.log 10 value ≤ rounded ∧ rounded ≤ 10 ^ (Int.log 10 value + 1) := by
  obtain ⟨low, high⟩ := log_bounds positive
  have whole (power : Nat) : ((10 ^ power : Int) : Rat) * 10 ^ lastPlace digits value =
      10 ^ (Int.log 10 value - digits + 1 + power) := by
    rw [lastPlace, abs_of_pos positive, tenPow_add _ power, mul_comm]
    push_cast
    rw [zpow_natCast]
  have first : Int.log 10 value - digits + 1 + (digits - 1 : Nat) = Int.log 10 value := by omega
  have second : Int.log 10 value - digits + 1 + digits = Int.log 10 value + 1 := by omega
  constructor
  · have reaches := rounds.le_of_ge (10 ^ (digits - 1))
    rw [whole, first] at reaches
    exact reaches low
  · have stays := rounds.le_of_le (10 ^ digits)
    rw [whole, second] at stays
    exact stays high.le

private theorem le_of_pos {other next : Rat} (least : 0 < digits) (positive : 0 < value)
    (also : RoundsTo digits other next) (smaller : value ≤ other) : rounded ≤ next := by
  have larger : 0 < other := positive.trans_le smaller
  rcases (Int.log_mono_right (b := 10) positive smaller).lt_or_eq with below | same
  · calc rounded
      _ ≤ 10 ^ (Int.log 10 value + 1) := (rounds.bounds least positive).2
      _ ≤ 10 ^ Int.log 10 other := zpow_le_zpow_right₀ (by norm_num) below
      _ ≤ next := (also.bounds least larger).1
  · have place : lastPlace digits value = lastPlace digits other := by
      rw [lastPlace, lastPlace, abs_of_pos positive, abs_of_pos larger, same]
    obtain ⟨count, nearest, rfl⟩ := rounds
    obtain ⟨more, near, rfl⟩ := also
    rw [place] at nearest ⊢
    have unit := tenPow_pos (lastPlace digits other)
    have counts : count ≤ more := nearest.le unit near smaller
    exact mul_le_mul_of_nonneg_right (by exact_mod_cast counts) unit.le

/-- Rounding keeps the order. -/
theorem le {other next : Rat} (least : 0 < digits) (also : RoundsTo digits other next)
    (smaller : value ≤ other) : rounded ≤ next := by
  rcases lt_or_ge 0 value with positive | below
  · exact rounds.le_of_pos least positive also smaller
  rcases lt_or_ge other 0 with negative | above
  · have mirrored := also.neg.le_of_pos least (neg_pos.mpr negative) rounds.neg (neg_le_neg smaller)
    linarith
  · have first := rounds.neg.nonneg (neg_nonneg.mpr below)
    have second := also.nonneg above
    linarith

/-- The unit may as well be taken from the rounded number. Where that has reached the next power of
ten, the number is nearest to it by any larger unit. -/
theorem nearestEven (least : 0 < digits) (present : value ≠ 0) :
    ∃ count : Int, NearestEven (10 ^ lastPlace digits rounded) value count ∧
      rounded = count * 10 ^ lastPlace digits rounded := by
  wlog positive : 0 < value generalizing value rounded
  · have negative : 0 < -value := neg_pos.mpr (lt_of_le_of_ne (not_lt.mp positive) present)
    obtain ⟨count, nearest, same⟩ := this rounds.neg (neg_ne_zero.mpr present) negative
    rw [lastPlace_neg] at nearest same
    refine ⟨-count, by simpa using nearest.neg, ?_⟩
    push_cast
    linarith
  obtain ⟨low, high⟩ := rounds.bounds least positive
  have above : 0 < rounded := (tenPow_pos _).trans_le low
  rcases high.lt_or_eq with inside | carried
  · have place : lastPlace digits rounded = lastPlace digits value := by
      rw [lastPlace, lastPlace, abs_of_pos above, abs_of_pos positive, log_eq low inside]
    rw [place]
    exact rounds
  · have place : lastPlace digits rounded = lastPlace digits value + 1 := by
      have next : Int.log 10 rounded = Int.log 10 value + 1 := by
        rw [carried]
        exact_mod_cast Int.log_zpow (R := Rat) (by decide : 1 < 10) (Int.log 10 value + 1)
      rw [lastPlace, lastPlace, abs_of_pos above, abs_of_pos positive, next]
      omega
    have whole : rounded = ((10 ^ (digits - 1) : Int) : Rat) * 10 ^ lastPlace digits rounded := by
      push_cast
      rw [place, lastPlace, abs_of_pos positive, ← zpow_natCast, ← tenPow_add, carried]
      congr 1
      omega
    refine ⟨10 ^ (digits - 1), ?_, whole⟩
    apply NearestEven.of_lt_half
    rw [← whole, place, tenPow_add, zpow_one]
    have unit := tenPow_pos (lastPlace digits value)
    obtain ⟨count, nearest, rfl⟩ := rounds
    have close := nearest.within unit
    linarith

end RoundsTo

/-! ### The exponent of a number -/

theorem length_toDigits {value : Nat} (present : value ≠ 0) :
    (Nat.toDigits 10 value).length = Nat.log 10 value + 1 := by
  have power (count : Nat) :
      (Nat.toDigits 10 value).length ≤ count + 1 ↔ Nat.log 10 value ≤ count := by
    rw [Nat.length_toDigits_le_iff (by decide) count.succ_pos,
      ← Nat.log_lt_iff_lt_pow (by decide) present, Nat.lt_succ_iff]
  have least := Nat.length_toDigits_pos (b := 10) (n := value)
  have above := (power (Nat.log 10 value)).mpr le_rfl
  have below := (power ((Nat.toDigits 10 value).length - 1)).mp (by omega)
  omega

private theorem clog_eq {value : Nat} (several : 1 < value) :
    Nat.clog 10 value = Nat.log 10 (value - 1) + 1 := by
  apply le_antisymm
  · rw [Nat.clog_le_iff_le_pow (by decide)]
    have below := Nat.lt_pow_succ_log_self (by decide : 1 < 10) (value - 1)
    omega
  · rw [Nat.succ_le_iff, Nat.lt_clog_iff_pow_lt (by decide)]
    have above := Nat.pow_log_le_self 10 (x := value - 1) (by omega)
    omega

/-- The place of the first digit is the greatest power of ten that is not above the number. -/
theorem decimalExponent_eq {value : Rat} (positive : 0 < value) :
    decimalExponent value = Int.log 10 value := by
  rw [decimalExponent]
  split
  · rename_i large
    have floor : value.floor.toNat = ⌊value⌋₊ := Int.floor_toNat value
    have present : ⌊value⌋₊ ≠ 0 := (Nat.floor_pos.mpr large).ne'
    rw [Int.log_of_one_le_right 10 large, floor, length_toDigits present]
    omega
  · rename_i small
    rw [not_le] at small
    have ceil : value⁻¹.ceil.toNat = ⌈value⁻¹⌉₊ := by
      rw [← Int.ceil_toNat, Rat.ceil_eq_neg_floor_neg]
      rfl
    have several : 1 < ⌈value⁻¹⌉₊ := Nat.lt_ceil.mpr (by simpa using (one_lt_inv₀ positive).mpr small)
    rw [Int.log_of_right_le_one 10 small.le, ceil, length_toDigits (by omega), clog_eq several]

end LuaLift
