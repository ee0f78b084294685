import Mathlib.Data.List.Count

/-!
# Removing occurrences

A list without the first, or without the last `n` occurrences of a value. Removing the first
occurrence again and again does the former (`removeFirst_succ`); the latter is the same from behind.
-/

namespace Occurrences

variable {α : Type} [DecidableEq α] (v : α)

/-- The list without the first `n` occurrences of `v`. -/
def removeFirst : ℕ → List α → List α
  | 0, l => l
  | _ + 1, [] => []
  | n + 1, a :: l => if a = v then removeFirst n l else a :: removeFirst (n + 1) l

/-- The list without the last `n` occurrences of `v`. -/
def removeLast (n : ℕ) (l : List α) : List α := (removeFirst v n l.reverse).reverse

variable {v}

theorem removeFirst_zero (l : List α) : removeFirst v 0 l = l := by
  cases l <;> rfl

theorem removeFirst_of_notMem {l : List α} (h : v ∉ l) (n : ℕ) : removeFirst v n l = l := by
  cases n with
  | zero => exact removeFirst_zero l
  | succ n =>
    induction l with
    | nil => rfl
    | cons a l ih =>
      obtain ⟨hne, hnot⟩ := not_or.mp (mt List.mem_cons.mpr h)
      rw [removeFirst, if_neg fun heq => hne heq.symm, ih hnot]

/-- The first occurrence, then the rest of them. -/
theorem removeFirst_succ [BEq α] [LawfulBEq α] (n : ℕ) (l : List α) :
    removeFirst v (n + 1) l = removeFirst v n (l.erase v) := by
  induction l with
  | nil => cases n <;> rfl
  | cons a l ih =>
    rw [removeFirst]
    by_cases ha : a = v
    · rw [if_pos ha, ha, List.erase_cons_head]
    · rw [if_neg ha, List.erase_cons_tail (by simpa using ha), ih]
      cases n with
      | zero => rw [removeFirst_zero, removeFirst_zero]
      | succ n => rw [removeFirst, if_neg ha]

/-- With enough turns, all occurrences. -/
theorem removeFirst_of_count_le [BEq α] [LawfulBEq α] {n : ℕ} {l : List α} (h : l.count v ≤ n) :
    removeFirst v n l = l.filter fun a => decide (a ≠ v) := by
  induction l generalizing n with
  | nil => cases n <;> rfl
  | cons a l ih =>
    by_cases ha : a = v
    · subst ha
      rw [List.count_cons_self] at h
      obtain ⟨n, rfl⟩ : ∃ m, n = m + 1 := ⟨n - 1, by omega⟩
      rw [removeFirst, if_pos rfl, ih (by omega), List.filter_cons_of_neg (by simp)]
    · rw [List.count_cons_of_ne ha] at h
      rw [List.filter_cons_of_pos (by simpa using ha)]
      cases n with
      | zero =>
        rw [removeFirst_zero, ← ih h, removeFirst_zero]
      | succ n => rw [removeFirst, if_neg ha, ih h]

/-- The other elements stay, in their order. -/
theorem filter_removeFirst (n : ℕ) (l : List α) :
    (removeFirst v n l).filter (fun a => decide (a ≠ v)) = l.filter fun a => decide (a ≠ v) := by
  induction n generalizing l with
  | zero => rw [removeFirst_zero]
  | succ n ih =>
    rw [removeFirst_succ, ih]
    induction l with
    | nil => rfl
    | cons a l ih' =>
      by_cases ha : a = v
      · rw [ha, List.erase_cons_head, List.filter_cons_of_neg (by simp)]
      · rw [List.erase_cons_tail (by simpa using ha), List.filter_cons_of_pos (by simpa using ha),
          List.filter_cons_of_pos (by simpa using ha), ih']

theorem filter_removeLast (n : ℕ) (l : List α) :
    (removeLast v n l).filter (fun a => decide (a ≠ v)) = l.filter fun a => decide (a ≠ v) := by
  rw [removeLast, List.filter_reverse, filter_removeFirst, List.filter_reverse, List.reverse_reverse]

theorem removeLast_zero (l : List α) : removeLast v 0 l = l := by
  rw [removeLast, removeFirst_zero, List.reverse_reverse]

/-- The last element is an occurrence. -/
theorem removeLast_concat_self (n : ℕ) (l : List α) :
    removeLast v (n + 1) (l ++ [v]) = removeLast v n l := by
  rw [removeLast, List.reverse_append, List.reverse_singleton, List.singleton_append, removeFirst,
    if_pos rfl, removeLast]

/-- The last element is another one. -/
theorem removeLast_concat_of_ne {a : α} (ha : a ≠ v) (n : ℕ) (l : List α) :
    removeLast v n (l ++ [a]) = removeLast v n l ++ [a] := by
  cases n with
  | zero => rw [removeLast_zero, removeLast_zero]
  | succ n =>
    rw [removeLast, List.reverse_append, List.reverse_singleton, List.singleton_append, removeFirst,
      if_neg ha, List.reverse_cons, removeLast]

end Occurrences
