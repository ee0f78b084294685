import Mathlib.Data.List.Basic
import Mathlib.Data.Nat.ModEq

/-!
# A ring buffer and the stream written to it

A ring of capacity `c` is a list of `c` cells and a write position. Writing goes round; the ring is
right for a stream `st` when the last `c` elements of `st` stand at their position modulo `c`
(`Holds`). Writing keeps it right for the longer stream and reading from an offset inside the
window gives the rest of the stream.
-/

namespace Ring

variable {α : Type}

/-- Write one element and advance. Writing outside the cells is an error. -/
def put (c : ℕ) (r : List α × ℕ) (a : α) : Option (List α × ℕ) :=
  if r.2 < r.1.length then some (r.1.set r.2 a, (r.2 + 1) % c) else none

/-- Write a run of elements. -/
def putAll (c : ℕ) : List α × ℕ → List α → Option (List α × ℕ)
  | r, [] => some r
  | r, a :: as => put c r a >>= fun r' => putAll c r' as

/-- The cells hold the window of the stream that ends at its last element. -/
structure Holds (c : ℕ) (r : List α × ℕ) (st : List α) : Prop where
  /-- There are `c` cells. -/
  length : r.1.length = c
  /-- The write position is the length of the stream, wrapped. -/
  pos : r.2 = st.length % c
  /-- Every element of the window is in its cell. -/
  cell : ∀ k < st.length, st.length ≤ k + c → r.1[k % c]? = st[k]?

theorem holds_empty (c : ℕ) (cells : List α) (h : cells.length = c) :
    Holds c (cells, 0) [] :=
  ⟨h, (Nat.zero_mod c).symm, fun _ hk => absurd hk (Nat.not_lt_zero _)⟩

/-- Two different positions of one window have different cells. -/
theorem mod_ne_mod {c k n : ℕ} (hk : k < n) (hw : n < k + c) : k % c ≠ n % c := by
  intro h
  have hdvd : c ∣ n - k := (Nat.modEq_iff_dvd' hk.le).mp h
  have hle := Nat.le_of_dvd (by omega) hdvd
  omega

theorem Holds.put {c : ℕ} {r r' : List α × ℕ} {st : List α} (h : Holds c r st) {a : α}
    (hput : put c r a = some r') : Holds c r' (st ++ [a]) := by
  rw [Ring.put] at hput
  split_ifs at hput with hlt
  obtain rfl := Option.some.inj hput
  have hlen : (st ++ [a]).length = st.length + 1 := by simp
  refine ⟨by simpa using h.length, ?_, fun k hk hw => ?_⟩
  · rw [h.pos, hlen, Nat.mod_add_mod]
  · rw [hlen] at hk hw
    rcases Nat.lt_or_ge k st.length with hlast | hlast
    · have hne : r.2 ≠ k % c := by
        rw [h.pos]
        exact (mod_ne_mod hlast (by omega)).symm
      rw [List.getElem?_set_ne hne, h.cell k hlast (by omega), List.getElem?_append_left hlast]
    · have hkeq : k = st.length := by omega
      subst hkeq
      rw [← h.pos, List.getElem?_set_self hlt, List.getElem?_append_right le_rfl, Nat.sub_self]
      rfl

theorem Holds.putAll {c : ℕ} {r r' : List α × ℕ} {st as : List α} (h : Holds c r st)
    (hput : putAll c r as = some r') : Holds c r' (st ++ as) := by
  induction as generalizing r st with
  | nil =>
    obtain rfl := Option.some.inj hput
    rwa [List.append_nil]
  | cons a as ih =>
    obtain ⟨t, ht, hrest⟩ := Option.bind_eq_some_iff.mp hput
    have h' := ih (h.put ht) hrest
    rwa [List.append_assoc, List.singleton_append] at h'

/-- With room for one element, writing never fails. -/
theorem Holds.putAll_isSome {c : ℕ} (hc : 1 ≤ c) {r : List α × ℕ} {st : List α}
    (h : Holds c r st) (as : List α) : (Ring.putAll c r as).isSome := by
  induction as generalizing r st with
  | nil => rfl
  | cons a as ih =>
    have hlt : r.2 < r.1.length := by
      rw [h.length, h.pos]
      exact Nat.mod_lt _ hc
    have hput : Ring.put c r a = some (r.1.set r.2 a, (r.2 + 1) % c) := if_pos hlt
    rw [Ring.putAll, hput]
    exact ih (h.put hput)

/-- **Reading the window.** From an offset that the ring still holds, the cells give the stream
from there on. -/
theorem Holds.read {c : ℕ} {r : List α × ℕ} {st : List α} (h : Holds c r st) {o : ℕ}
    (ho : o ≤ st.length) (hw : st.length ≤ o + c) :
    (List.range (st.length - o)).mapM (fun i => r.1[(o + i) % c]?) = some (st.drop o) := by
  have hcell : ∀ n, n ≤ st.length - o →
      (List.range n).mapM (fun i => r.1[(o + i) % c]?) = some ((st.drop o).take n) := by
    intro n hn
    induction n with
    | zero => rfl
    | succ n ih =>
      have hlt : o + n < st.length := by omega
      have hk := h.cell (o + n) hlt (by omega)
      rw [List.getElem?_eq_getElem hlt] at hk
      rw [List.range_succ, List.mapM_append, ih (by omega)]
      simp [hk, List.take_add_one, List.getElem?_drop, List.getElem?_eq_getElem hlt]
  have hall := hcell _ le_rfl
  rwa [List.take_of_length_le (by rw [List.length_drop])] at hall

end Ring
