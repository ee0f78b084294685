import VeloDB.Store.Lists
import VeloDB.Lib.Positions

/-!
# Ranges of indices

How the index arithmetic of `lrange`, `ltrim` and `zrange` compares with the positions that are
asked for. An index before the beginning is clamped to position zero, also when it is the last one
of a range: a range that ends before the list then still has its first element.

## Main results

* `slice_of_not_endsBefore`, `slice_of_endsBefore` — what a range gives, against what is asked for
-/

namespace VeloDB

open Rust Positions

/-! ### Signed indices -/

theorem asUsize_eq (x : Int64) : (asUsize x : ℤ) = x.toInt % 2 ^ 64 := by
  have hnat : x.toUInt64.toNat = x.toBitVec.toNat := rfl
  have hlt := x.toBitVec.isLt
  rw [asUsize, hnat, Int64.toInt, BitVec.toInt_eq_toNat_cond]
  split <;> omega

theorem toInt_max (a b : Int64) : (max a b).toInt = max a.toInt b.toInt := by
  by_cases h : a ≤ b
  · rw [max_eq_right (Int64.le_iff_toInt_le.mp h)]
    exact congrArg Int64.toInt (if_pos h)
  · have hle : b.toInt ≤ a.toInt := le_of_not_ge (Int64.le_iff_toInt_le.not.mp h)
    rw [max_eq_left hle]
    exact congrArg Int64.toInt (if_neg h)

theorem toInt_min (a b : Int64) : (min a b).toInt = min a.toInt b.toInt := by
  by_cases h : a ≤ b
  · rw [min_eq_left (Int64.le_iff_toInt_le.mp h)]
    exact congrArg Int64.toInt (if_pos h)
  · have hle : b.toInt ≤ a.toInt := le_of_not_ge (Int64.le_iff_toInt_le.not.mp h)
    rw [min_eq_right hle]
    exact congrArg Int64.toInt (if_neg h)

theorem zero_le_iff (a : Int64) : 0 ≤ a ↔ 0 ≤ a.toInt := Int64.le_iff_toInt_le

theorem lt_zero_iff (a : Int64) : a < 0 ↔ a.toInt < 0 := Int64.lt_iff_toInt_lt

theorem asUsize_of_nonneg {a : Int64} (h : 0 ≤ a.toInt) : asUsize a = a.toInt.toNat := by
  have hhigh := a.toInt_lt
  have hcast := asUsize_eq a
  omega

/-- The negation wraps at the least `i64`, and the cast gives its absolute value there, too. -/
theorem asUsize_neg {a : Int64} (h : a.toInt < 0) : (asUsize (-a) : ℤ) = -a.toInt := by
  have hlow := a.le_toInt
  have hmod : (-a.toInt).bmod (2 ^ 64) % 2 ^ 64 = -a.toInt % 2 ^ 64 := Int.bmod_emod
  rw [asUsize_eq, Int64.toInt_neg, hmod]
  omega

section Length

variable {len : ℕ} (hlen : len < 2 ^ 63)

include hlen

/-- `len + idx` does not overflow when the index is negative. -/
theorem toInt_len_add {idx : Int64} (hneg : idx.toInt < 0) :
    (Int64.ofNat len + idx).toInt = len + idx.toInt := by
  have hlow := idx.le_toInt
  rw [Int64.toInt_add, Int64.toInt_ofNat_of_lt hlen]
  exact Int.bmod_eq_of_le (by omega) (by omega)

theorem toInt_len_sub_one : (Int64.ofNat len - 1).toInt = len - 1 := by
  rw [Int64.toInt_sub, Int64.toInt_ofNat_of_lt hlen, Int64.toInt_one]
  exact Int.bmod_eq_of_le (by omega) (by omega)

theorem rangeStart_eq (start : Int64) : (rangeStart len start : ℤ)
    = if start.toInt < 0 then max (len + start.toInt) 0 else min start.toInt len := by
  have hhigh := start.toInt_lt
  rw [rangeStart, asUsize_eq]
  by_cases hneg : start.toInt < 0
  · rw [if_pos ((lt_zero_iff _).mpr hneg), if_pos hneg, toInt_max, toInt_len_add hlen hneg,
      Int64.toInt_zero]
    omega
  · rw [if_neg (mt (lt_zero_iff _).mp hneg), if_neg hneg, toInt_min, Int64.toInt_ofNat_of_lt hlen]
    omega

theorem rangeStop_eq (hpos : 0 < len) (stop : Int64) : (rangeStop len stop : ℤ)
    = if stop.toInt < 0 then max (len + stop.toInt) 0 else min stop.toInt (len - 1) := by
  have hhigh := stop.toInt_lt
  rw [rangeStop, asUsize_eq]
  by_cases hneg : stop.toInt < 0
  · rw [if_pos ((lt_zero_iff _).mpr hneg), if_pos hneg, toInt_max, toInt_len_add hlen hneg,
      Int64.toInt_zero]
    omega
  · rw [if_neg (mt (lt_zero_iff _).mp hneg), if_neg hneg, toInt_min, toInt_len_sub_one hlen]
    omega

end Length

/-! ### Lists and sorted sets -/

/-- The range ends before the beginning and starts at it, or before it. -/
def EndsBefore (len : ℕ) (start stop : Int64) : Prop :=
  0 < len ∧ stop.toInt < -len ∧ (start.toInt = 0 ∨ start.toInt ≤ -len)

instance (len : ℕ) (start stop : Int64) : Decidable (EndsBefore len start stop) :=
  inferInstanceAs (Decidable (_ ∧ _))

section Slice

variable {α : Type} {l : List α} {start stop : Int64}

theorem slice_eq_drop_take (l : List α) (start stop : Int64) :
    slice l start stop = (l.take (rangeStop l.length stop + 1)).drop (rangeStart l.length start) := by
  rw [slice, List.drop_take]
  split
  · next h =>
    rcases h with h | h
    · rw [show rangeStop l.length stop + 1 - rangeStart l.length start = 0 by omega, List.take_zero]
    · rw [List.drop_of_length_le h, List.take_nil]
  · next h =>
    rw [show rangeStop l.length stop + 1 - rangeStart l.length start
      = rangeStop l.length stop - rangeStart l.length start + 1 by omega]

/-- The positions that are asked for. -/
theorem slice_of_not_endsBefore (hlen : l.length < 2 ^ 63) (h : ¬EndsBefore l.length start stop) :
    slice l start stop = between l (low l.length start.toInt) (high l.length stop.toInt) := by
  rcases Nat.eq_zero_or_pos l.length with hnil | hpos
  · rw [List.length_eq_zero_iff.mp hnil, slice_eq_drop_take, between_eq, List.take_nil,
      List.take_nil, List.drop_nil, List.drop_nil]
  · have hs := rangeStart_eq hlen start
    have he := rangeStop_eq hlen hpos stop
    rw [EndsBefore] at h
    rw [slice_eq_drop_take, between_eq, low, high]
    by_cases hout : stop.toInt < -l.length
    · -- both are empty: nothing is asked for, and the code starts behind the first element
      have hlate : 1 ≤ rangeStart l.length start := by
        split at hs <;> omega
      have hend : rangeStop l.length stop = 0 := by
        split at he <;> omega
      have htake : (high l.length stop.toInt + 1).toNat = 0 := by
        rw [high]
        split <;> omega
      rw [high] at htake
      rw [htake, hend, List.take_zero, List.drop_nil]
      exact List.drop_of_length_le (by rw [List.length_take]; omega)
    · refine drop_take_congr ?_ ?_
      · split at hs <;> split <;> omega
      · split at he <;> split <;> omega

/-- Nothing is asked for, and the first element is there. -/
theorem slice_of_endsBefore (hlen : l.length < 2 ^ 63) (h : EndsBefore l.length start stop) :
    between l (low l.length start.toInt) (high l.length stop.toInt) = [] ∧
      slice l start stop ≠ [] := by
  obtain ⟨hpos, hout, hstart⟩ := h
  have hs := rangeStart_eq hlen start
  have he := rangeStop_eq hlen hpos stop
  have hs' : rangeStart l.length start = 0 := by
    split at hs <;> omega
  have he' : rangeStop l.length stop = 0 := by
    split at he <;> omega
  constructor
  · have htake : (high l.length stop.toInt + 1).toNat = 0 := by
      rw [high]
      split <;> omega
    rw [between_eq, htake, List.take_zero, List.drop_nil]
  · rw [slice_eq_drop_take, hs', he', List.drop_zero, ← List.length_pos_iff, List.length_take]
    omega

end Slice

end VeloDB
