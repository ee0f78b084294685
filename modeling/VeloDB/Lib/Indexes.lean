import Mathlib.Data.List.Basic
import Mathlib.Order.Basic

/-!
# Removing elements by index

Elements are found in one pass, which notes their indexes, and removed in another, from the highest
index to the lowest, so that no removal moves an element that is still to be removed. That is right
as long as the noted indexes still point at elements that were to be removed: `removeEach_spec` asks
for no more, so the list may have grown in between.
-/

namespace Indexes

variable {α : Type}

/-- The indexes of the elements that satisfy `p`, from the lowest to the highest. -/
def positions (p : α → Bool) (l : List α) : List ℕ :=
  (l.zipIdx.filter fun x => p x.1).map Prod.snd

/-- Remove the elements at some indexes, one index after the other, until one is out of range. -/
def removeEach : List ℕ → List α → Bool × List α
  | [], l => (true, l)
  | i :: is, l => if i < l.length then removeEach is (l.eraseIdx i) else (false, l)

theorem removeEach_subset (is : List ℕ) (l : List α) : (removeEach is l).2 ⊆ l := by
  induction is generalizing l with
  | nil => exact List.Subset.refl l
  | cons i is ih =>
    rw [removeEach]
    split
    · exact fun a ha => (List.eraseIdx_sublist l i).subset (ih _ ha)
    · exact List.Subset.refl l

/-- An index points at an element that satisfies `p`. -/
def PointsAt (p : α → Bool) (l : List α) (i : ℕ) : Prop := ∃ a, l[i]? = some a ∧ p a = true

theorem PointsAt.lt {p : α → Bool} {l : List α} {i : ℕ} (h : PointsAt p l i) : i < l.length := by
  obtain ⟨a, ha, -⟩ := h
  exact (List.getElem?_eq_some_iff.mp ha).1

/-- More elements behind a list do not matter. -/
theorem PointsAt.mono {p q : α → Bool} {l l' : List α} {i : ℕ} (h : PointsAt p l i)
    (hl : l <+: l') (hpq : ∀ a ∈ l, p a = true → q a = true) : PointsAt q l' i := by
  obtain ⟨a, ha, hp⟩ := h
  obtain ⟨r, rfl⟩ := hl
  have hi := (List.getElem?_eq_some_iff.mp ha).1
  exact ⟨a, by rwa [List.getElem?_append_left hi], hpq a (List.mem_of_getElem? ha) hp⟩

theorem positions_pointsAt {p : α → Bool} {l : List α} {i : ℕ} (hi : i ∈ positions p l) :
    PointsAt p l i := by
  obtain ⟨⟨a, i⟩, hx, rfl⟩ := List.mem_map.mp hi
  obtain ⟨hmem, hp⟩ := List.mem_filter.mp hx
  exact ⟨a, List.mem_zipIdx_iff_getElem?.mp hmem, hp⟩

theorem positions_ascending (p : α → Bool) (l : List α) : (positions p l).Pairwise (· < ·) := by
  have hsub : (positions p l).Sublist (l.zipIdx.map Prod.snd) := List.filter_sublist.map Prod.snd
  rw [List.zipIdx_map_snd] at hsub
  have hasc : (List.range' 0 l.length).Pairwise (· < ·) := List.pairwise_lt_range'
  exact hasc.sublist hsub

theorem length_positions (p : α → Bool) (l : List α) :
    (positions p l).length = (l.filter p).length := by
  have hfst : (l.zipIdx.filter fun x => p x.1).map Prod.fst = l.filter p := by
    have hmap := List.filter_map (f := Prod.fst) (p := p) (l := l.zipIdx)
    rw [List.zipIdx_map_fst] at hmap
    exact hmap.symm
  rw [positions, List.length_map, ← hfst, List.length_map]

/-- An element removed that is not to be kept. -/
theorem filter_eraseIdx {p : α → Bool} {l : List α} {i : ℕ} (h : PointsAt p l i) :
    (l.eraseIdx i).filter (fun a => !p a) = l.filter fun a => !p a := by
  obtain ⟨a, ha, hp⟩ := h
  induction l generalizing i with
  | nil => cases ha
  | cons b l ih =>
    cases i with
    | zero =>
      obtain rfl := Option.some.inj ha
      rw [List.eraseIdx_cons_zero, List.filter_cons_of_neg (by simp [hp])]
    | succ i =>
      rw [List.eraseIdx_cons_succ, List.filter_cons, List.filter_cons, ih ha]

/-- **Removing from the highest index to the lowest.** When every index points at an element that is
not to be kept, none is out of range, and what is to be kept stays. -/
theorem removeEach_spec {p : α → Bool} {is : List ℕ} {l : List α}
    (hdesc : is.Pairwise fun i j => j < i) (hpoints : ∀ i ∈ is, PointsAt p l i) :
    (removeEach is l).1 = true ∧
      (removeEach is l).2.filter (fun a => !p a) = l.filter (fun a => !p a) ∧
      (removeEach is l).2.length + is.length = l.length := by
  induction is generalizing l with
  | nil => exact ⟨rfl, rfl, rfl⟩
  | cons i is ih =>
    have hi := hpoints i List.mem_cons_self
    obtain ⟨hhead, htail⟩ := List.pairwise_cons.mp hdesc
    -- the indexes that are left are below the one removed
    have hleft : ∀ j ∈ is, PointsAt p (l.eraseIdx i) j := by
      intro j hj
      obtain ⟨a, ha, hp⟩ := hpoints j (List.mem_cons_of_mem _ hj)
      exact ⟨a, by rwa [List.getElem?_eraseIdx_of_lt (hhead j hj)], hp⟩
    obtain ⟨hok, hkept, hlen⟩ := ih htail hleft
    rw [removeEach, if_pos hi.lt]
    refine ⟨hok, hkept.trans (filter_eraseIdx hi), ?_⟩
    have hpos := hi.lt
    rw [List.length_eraseIdx, if_pos hpos] at hlen
    rw [List.length_cons]
    omega

/-- Right after they have been noted, the removals leave exactly the other elements. -/
theorem removeEach_positions (p : α → Bool) (l : List α) :
    removeEach (positions p l).reverse l = (true, l.filter fun a => !p a) := by
  obtain ⟨hok, hkept, hlen⟩ := removeEach_spec (p := p) (l := l)
    (List.pairwise_reverse.mpr (positions_ascending p l))
    (fun i hi => positions_pointsAt (List.mem_reverse.mp hi))
  rw [List.length_reverse, length_positions] at hlen
  have hcount := List.length_eq_length_filter_add (l := l) p
  have hall : (removeEach (positions p l).reverse l).2.filter (fun a => !p a)
      = (removeEach (positions p l).reverse l).2 := by
    refine List.filter_sublist.eq_of_length ?_
    rw [hkept]
    omega
  exact Prod.ext hok (hall.symm.trans hkept)

end Indexes
