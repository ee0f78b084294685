import Mathlib.Algebra.Order.Ring.Int

/-!
# Positions of a list

An index counts from the front of a list or, when it is negative, from its end. `between` are the
elements at the positions between two numbers, which need not be positions themselves: what lies
outside the list is clipped. It is a `take` and a `drop` (`between_eq`), which is the form in which
programs compute it.
-/

namespace Positions

variable {α : Type}

/-- The elements at the positions from `lo` to `hi`, in their order. -/
def between (l : List α) (lo hi : ℤ) : List α :=
  (l.zipIdx.filter fun p => decide (lo ≤ p.2 ∧ (p.2 : ℤ) ≤ hi)).map Prod.fst

/-- The first position of a range: `start`, counted from the end when it is negative. -/
def low (len : ℕ) (start : ℤ) : ℤ := if start < 0 then max (len + start) 0 else start

/-- The last position of a range: `stop`, counted from the end when it is negative. It may lie
before the beginning. -/
def high (len : ℕ) (stop : ℤ) : ℤ := if stop < 0 then len + stop else stop

/-- With the positions counted from `n`. -/
theorem between_from (l : List α) (lo hi : ℤ) (n : ℕ) :
    ((l.zipIdx n).filter fun p => decide (lo ≤ p.2 ∧ (p.2 : ℤ) ≤ hi)).map Prod.fst
      = (l.take (hi + 1 - n).toNat).drop (lo - n).toNat := by
  induction l generalizing n with
  | nil => simp
  | cons a l ih =>
    rw [List.zipIdx_cons, List.filter_cons]
    by_cases hhi : (n : ℤ) ≤ hi
    · have htake : (hi + 1 - n).toNat = (hi + 1 - (n + 1 : ℕ)).toNat + 1 := by omega
      rw [htake, List.take_succ_cons]
      by_cases hlo : lo ≤ n
      · have hdrop : (lo - n).toNat = 0 := by omega
        have hdrop' : (lo - (n + 1 : ℕ)).toNat = 0 := by omega
        rw [if_pos (by simp [hlo, hhi]), List.map_cons, ih (n + 1), hdrop, hdrop']
        rfl
      · have hdrop : (lo - n).toNat = (lo - (n + 1 : ℕ)).toNat + 1 := by omega
        rw [if_neg (by simp [hlo]), ih (n + 1), hdrop, List.drop_succ_cons]
    · have htake : (hi + 1 - n).toNat = 0 := by omega
      have htake' : (hi + 1 - (n + 1 : ℕ)).toNat = 0 := by omega
      rw [if_neg (by simp [hhi]), ih (n + 1), htake, htake', List.take_zero, List.take_zero,
        List.drop_nil, List.drop_nil]

theorem between_eq (l : List α) (lo hi : ℤ) :
    between l lo hi = (l.take (hi + 1).toNat).drop lo.toNat := by
  have h := between_from l lo hi 0
  rwa [Nat.cast_zero, sub_zero, sub_zero] at h

/-- A list cut at both ends in two ways. -/
theorem drop_take_congr {l : List α} {a b s t : ℕ} (hs : min s l.length = min t l.length)
    (ha : min a l.length = min b l.length) : (l.take a).drop s = (l.take b).drop t := by
  have hdrop : ∀ n, l.drop n = l.drop (min n l.length) := by
    intro n
    rcases Nat.le_total n l.length with h | h
    · rw [Nat.min_eq_left h]
    · rw [Nat.min_eq_right h, List.drop_of_length_le h, List.drop_length]
  have htake : l.take a = l.take b := by rw [List.take_eq_take_min, ha, ← List.take_eq_take_min]
  rw [htake, List.drop_take, List.drop_take, hdrop s, hdrop t, hs]
  refine List.take_eq_take_iff.mpr ?_
  rw [List.length_drop]
  omega

end Positions
