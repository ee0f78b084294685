import Mathlib.Algebra.Order.BigOperators.Group.List
import Mathlib.Algebra.Ring.Nat
import Mathlib.Data.Nat.ModEq
import Mathlib.Logic.Function.Basic

/-!
# Checksums that are folds

A checksum that takes one letter after the other is a fold. If its step loses nothing, neither of
the state nor of the letter, then two words that differ in one letter have different checksums. Two
neighbouring letters that change places are another matter: there the step must not commute.
-/

namespace Checksum

variable {α σ : Type}

/-- The two words are the same but for one letter. -/
def ChangedOnce (x y : List α) : Prop :=
  ∃ l a b r, a ≠ b ∧ x = l ++ a :: r ∧ y = l ++ b :: r

theorem ChangedOnce.length_eq {x y : List α} (h : ChangedOnce x y) : x.length = y.length := by
  obtain ⟨l, a, b, r, -, rfl, rfl⟩ := h
  simp

theorem ChangedOnce.ne {x y : List α} (h : ChangedOnce x y) : x ≠ y := by
  obtain ⟨l, a, b, r, hab, rfl, rfl⟩ := h
  intro heq
  exact hab (List.cons.inj (List.append_cancel_left heq)).1

/-- The letter is in the one part or in the other. -/
theorem ChangedOnce.of_append {x x' y : List α} (h : ChangedOnce (x ++ x') y) :
    (∃ z, ChangedOnce x z ∧ y = z ++ x') ∨ ∃ z, ChangedOnce x' z ∧ y = x ++ z := by
  obtain ⟨l, a, b, r, hab, heq, rfl⟩ := h
  rcases List.append_eq_append_iff.mp heq with ⟨m, rfl, rfl⟩ | ⟨m, rfl, hm⟩
  · exact Or.inr ⟨m ++ b :: r, ⟨m, a, b, r, hab, rfl, rfl⟩, by simp⟩
  · rcases List.cons_eq_append_iff.mp hm with ⟨rfl, rfl⟩ | ⟨m', rfl, rfl⟩
    · exact Or.inr ⟨b :: r, ⟨[], a, b, r, hab, rfl, rfl⟩, by simp⟩
    · exact Or.inl ⟨l ++ b :: m', ⟨l, a, b, m', hab, rfl, rfl⟩, by simp⟩

section Lossless

variable {f : σ → α → σ} (hstate : ∀ a, Function.Injective fun s => f s a)
include hstate

/-- A step that loses nothing of the state loses nothing of it over a whole word. -/
theorem foldl_injective (r : List α) : Function.Injective fun s => r.foldl f s := by
  induction r with
  | nil => exact fun _ _ h => h
  | cons c r ih => exact fun s t h => hstate c (ih h)

/-- **A step that loses nothing detects the change of one letter.** -/
theorem ChangedOnce.foldl_ne (hletter : ∀ s, Function.Injective (f s)) {x y : List α}
    (h : ChangedOnce x y) (s : σ) : x.foldl f s ≠ y.foldl f s := by
  obtain ⟨l, a, b, r, hab, rfl, rfl⟩ := h
  rw [List.foldl_append, List.foldl_append, List.foldl_cons, List.foldl_cons]
  exact fun heq => hab (hletter _ (foldl_injective hstate r heq))

/-- **The exchange of two neighbours** is missed where the two steps commute. -/
theorem foldl_swap_iff (l r : List α) (a b : α) (s : σ) :
    (l ++ a :: b :: r).foldl f s = (l ++ b :: a :: r).foldl f s ↔
      f (f (l.foldl f s) a) b = f (f (l.foldl f s) b) a := by
  simp only [List.foldl_append, List.foldl_cons]
  exact (foldl_injective hstate r).eq_iff

end Lossless

/-- A step that adds to the state modulo `m` adds up the letters. -/
theorem foldl_modEq_sum {m : ℕ} {f : σ → α → σ} {num : σ → ℕ} {weight : α → ℕ}
    (hf : ∀ s a, num (f s a) ≡ num s + weight a [MOD m]) (x : List α) (s : σ) :
    num (x.foldl f s) ≡ num s + (x.map weight).sum [MOD m] := by
  induction x generalizing s with
  | nil => exact Nat.ModEq.refl _
  | cons a x ih =>
    rw [List.foldl_cons, List.map_cons, List.sum_cons, ← Nat.add_assoc]
    exact (ih _).trans ((hf s a).add_right _)

end Checksum
