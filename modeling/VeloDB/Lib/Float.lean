import Mathlib.Tactic.Ring
import Mathlib.Tactic.NormNum
import Mathlib.Order.Compare

/-!
# Binary64 numbers as bit patterns

An `f64` is modelled by its 64 bits. Comparison, the classification into infinities and NaNs and
the conversion of an integral value to an integer are exact computations on the bits; printing and
parsing are not modelled here. The conversion of an integer is `ofInt`, which gives the integral
value that the nearest `f64` has.

Every number that is not a NaN is ordered by its `rank`: the magnitude bits read as a natural
number, negated when the sign bit is set. Both zeros have rank `0`, so they compare equal, as they
do in IEEE 754.
-/

/-- An `f64`. -/
structure F64 where
  /-- The IEEE 754 bit pattern. -/
  bits : UInt64
  deriving DecidableEq, Repr

namespace F64

/-- The exponent and mantissa fields together. -/
def magnitude (d : F64) : ℕ := d.bits.toNat % 2 ^ 63

/-- Whether the sign bit is set. -/
def negative (d : F64) : Bool := 2 ^ 63 ≤ d.bits.toNat

/-- The exponent field all ones and the mantissa zero. -/
def isInfinite (d : F64) : Bool := d.magnitude = 0x7FF * 2 ^ 52

/-- The exponent field all ones and the mantissa not zero. -/
def isNaN (d : F64) : Bool := 0x7FF * 2 ^ 52 < d.magnitude

/-- The place of a number in the order of all numbers. -/
def rank (d : F64) : ℤ := if d.negative then -(d.magnitude : ℤ) else d.magnitude

/-- `f64::partial_cmp`. -/
def partialCmp (a b : F64) : Option Ordering :=
  if a.isNaN ∨ b.isNaN then none else some (compare a.rank b.rank)

/-- `a == b`. -/
def eq (a b : F64) : Bool := a.partialCmp b = some .eq

/-- `a < b`. -/
def lt (a b : F64) : Bool := a.partialCmp b = some .lt

/-- `a <= b`. -/
def le (a b : F64) : Bool := a.lt b || a.eq b

section Order

variable {a b : F64}

theorem partialCmp_eq (ha : a.isNaN = false) (hb : b.isNaN = false) :
    a.partialCmp b = some (compare a.rank b.rank) := by
  rw [partialCmp, if_neg (by simp [ha, hb])]

theorem lt_iff (ha : a.isNaN = false) (hb : b.isNaN = false) : a.lt b = true ↔ a.rank < b.rank := by
  rw [lt, partialCmp_eq ha hb, decide_eq_true_iff, Option.some_inj, compare_lt_iff_lt]

theorem eq_iff (ha : a.isNaN = false) (hb : b.isNaN = false) : a.eq b = true ↔ a.rank = b.rank := by
  rw [eq, partialCmp_eq ha hb, decide_eq_true_iff, Option.some_inj, compare_eq_iff_eq]

theorem le_iff (ha : a.isNaN = false) (hb : b.isNaN = false) : a.le b = true ↔ a.rank ≤ b.rank := by
  rw [le, Bool.or_eq_true, lt_iff ha hb, eq_iff ha hb, le_iff_lt_or_eq]

/-- What compares at all is not a NaN. -/
theorem isNaN_of_le (h : a.le b = true) : a.isNaN = false ∧ b.isNaN = false := by
  by_contra hnan
  have hnone : a.partialCmp b = none := by
    rw [partialCmp, if_pos]
    by_contra hnot
    rw [not_or, Bool.not_eq_true, Bool.not_eq_true] at hnot
    exact hnan hnot
  rw [le, lt, eq, hnone] at h
  cases h

end Order

/-- `f64::INFINITY`. -/
def infinity : F64 := ⟨0x7FF0000000000000⟩

/-- `f64::NEG_INFINITY`. -/
def negInfinity : F64 := ⟨0xFFF0000000000000⟩

/-- The number `2 ^ 63`. -/
def twoPow63 : F64 := ⟨0x43E0000000000000⟩

/-- The value of a finite number as `mantissa * 2 ^ (exponent - 1075)`, without its sign. -/
def mantissaExponent (d : F64) : ℕ × ℕ :=
  let e := d.magnitude / 2 ^ 52
  let m := d.magnitude % 2 ^ 52
  if e = 0 then (m, 1) else (2 ^ 52 + m, e)

/-- The integer a finite number equals, if it is integral: `d == d.trunc()`, with the value of
`d as i64` when that does not saturate. -/
def toInt? (d : F64) : Option ℤ :=
  if d.isNaN ∨ d.isInfinite then none
  else
    let (m, e) := d.mantissaExponent
    if 1075 ≤ e then
      some (if d.negative then -(m * 2 ^ (e - 1075) : ℤ) else m * 2 ^ (e - 1075))
    else if m % 2 ^ (1075 - e) = 0 then
      some (if d.negative then -(m / 2 ^ (1075 - e) : ℕ) else (m / 2 ^ (1075 - e) : ℕ))
    else none

example : (⟨0x4008000000000000⟩ : F64).toInt? = some 3 := by decide +kernel
example : (⟨0x400C000000000000⟩ : F64).toInt? = none := by decide +kernel

/-! ### Integers -/

/-- The nearest number with 53 binary digits, the even one of two. -/
def nearest (n : ℕ) : ℕ :=
  let unit := 2 ^ (n.log2 - 52)
  let up := unit < 2 * (n % unit) ∨ unit = 2 * (n % unit) ∧ n / unit % 2 = 1
  (n / unit + if up then 1 else 0) * unit

/-- The value of `n as f64`. -/
def ofInt (n : ℤ) : ℤ := n.sign * nearest n.natAbs

/-- The integer has at most 53 binary digits, apart from zeros at the end. -/
def Exact (n : ℤ) : Prop := ∃ (m : ℤ) (e : ℕ), m.natAbs ≤ 2 ^ 53 ∧ n = m * 2 ^ e

theorem div_unit_lt (n : ℕ) : n / 2 ^ (n.log2 - 52) < 2 ^ 53 := by
  refine Nat.div_lt_of_lt_mul (n.lt_log2_self.trans_le ?_)
  rw [← pow_add]
  exact Nat.pow_le_pow_right two_pos (by omega)

theorem nearest_of_dvd {n : ℕ} (h : 2 ^ (n.log2 - 52) ∣ n) : nearest n = n := by
  have hpos : 0 < 2 ^ (n.log2 - 52) := Nat.two_pow_pos _
  rw [nearest, Nat.mod_eq_zero_of_dvd h, if_neg (by omega), Nat.add_zero, Nat.div_mul_cancel h]

/-- **The numbers that are their own nearest.** -/
theorem nearest_eq_iff (n : ℕ) : nearest n = n ↔ ∃ m e, m ≤ 2 ^ 53 ∧ n = m * 2 ^ e := by
  constructor
  · intro h
    refine ⟨_, n.log2 - 52, ?_, h.symm⟩
    have hlt := div_unit_lt n
    split <;> omega
  · rintro ⟨m, e, hm, hn⟩
    refine nearest_of_dvd ?_
    by_cases he : n.log2 - 52 ≤ e
    · exact ((pow_dvd_pow 2 he).trans (dvd_mul_left _ m)).trans hn.symm.dvd
    · -- a number with as many digits is the power of two
      have hzero : n ≠ 0 := by
        rintro rfl
        exact he (Nat.zero_le e)
      have hle : n ≤ 2 ^ n.log2 := by
        rw [hn]
        refine (Nat.mul_le_mul_right _ hm).trans ?_
        rw [← pow_add, ← hn]
        exact Nat.pow_le_pow_right two_pos (by omega)
      have hpow : 2 ^ n.log2 = n := le_antisymm (Nat.log2_self_le hzero) hle
      exact (pow_dvd_pow 2 (Nat.sub_le _ _)).trans hpow.dvd

/-- **The integers that an `f64` can be.** -/
theorem ofInt_eq_iff (n : ℤ) : ofInt n = n ↔ Exact n := by
  have hnat : ofInt n = n ↔ nearest n.natAbs = n.natAbs := by
    constructor
    · intro h
      have habs := congrArg Int.natAbs h
      rw [ofInt, Int.natAbs_mul, Int.natAbs_natCast] at habs
      by_cases hn : n = 0
      · rw [hn]
        rfl
      · rwa [Int.natAbs_sign_of_ne_zero hn, Nat.one_mul] at habs
    · intro h
      rw [ofInt, h, Int.sign_mul_natAbs]
  rw [hnat, nearest_eq_iff]
  constructor
  · rintro ⟨m, e, hm, hn⟩
    refine ⟨n.sign * m, e, ?_, ?_⟩
    · rw [Int.natAbs_mul, Int.natAbs_natCast, Int.natAbs_sign]
      split_ifs <;> omega
    · rw [mul_assoc]
      conv_lhs => rw [← Int.sign_mul_natAbs n, hn]
      push_cast
      rfl
  · rintro ⟨m, e, hm, hn⟩
    exact ⟨m.natAbs, e, hm, by rw [hn, Int.natAbs_mul, Int.natAbs_pow]; rfl⟩

example : ofInt (2 ^ 53 + 1) = 2 ^ 53 := by decide +kernel
example : ofInt (2 ^ 63 - 1) = 2 ^ 63 := by decide +kernel

end F64
