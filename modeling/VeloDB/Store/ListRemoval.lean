import VeloDB.Store.IndexRanges
import VeloDB.Lib.Occurrences

/-!
# `LREM`

From the front, `lrem` searches the list again after each removal. From the back, it walks down the
positions that the list had before the first removal, and the list shrinks behind it: what it has
passed moves, what is in front of it does not. `lremBackChecked` is this walk with the checks that
indexing makes, and none of them fails.

## Main results

* `lremFront_eq`, `lremBack_append` — the loops against the occurrences
* `lremBackChecked_eq` — the checks
* `lrem_removes` — the method
-/

namespace VeloDB

open Rust Occurrences

namespace Keyspace

/-- The search from the front removes the first occurrences. -/
theorem lremFront_eq (value : Bytes) (n : ℕ) (l : List Bytes) (removed : ℕ) :
    lremFront value n l removed
      = (removed + min n (l.count value), removeFirst value n l) := by
  induction n generalizing l removed with
  | zero => rw [lremFront, Nat.zero_min, Nat.add_zero, removeFirst_zero]
  | succ n ih =>
    rw [lremFront]
    by_cases hmem : value ∈ l
    · have hpos : 0 < l.count value := List.count_pos_iff.mpr hmem
      rw [if_pos hmem, ih, List.count_erase_self, removeFirst_succ]
      congr 1
      omega
    · rw [if_neg hmem, ih, List.count_eq_zero.mpr hmem, removeFirst_of_notMem hmem,
        removeFirst_of_notMem hmem, Nat.min_zero, Nat.min_zero]

/-- The walk from the back, over the positions of `l`. What stands behind them does not matter. -/
theorem lremBack_append (value : Bytes) {limit removed : ℕ} (h : removed < limit) (l s : List Bytes) :
    lremBack value limit l.length (l ++ s) removed
      = (removed + min (limit - removed) (l.count value),
        removeLast value (limit - removed) l ++ s) := by
  induction l using List.reverseRecOn generalizing removed s with
  | nil =>
    have hnil : removeLast value (limit - removed) ([] : List Bytes) = [] := by
      rw [removeLast, List.reverse_nil, removeFirst_of_notMem List.not_mem_nil, List.reverse_nil]
    rw [List.length_nil, lremBack, hnil, List.count_nil, Nat.min_zero, Nat.add_zero]
  | append_singleton l a ih =>
    have hget : (l ++ [a] ++ s)[l.length]? = some a := by
      rw [List.append_assoc, List.getElem?_append_right le_rfl, Nat.sub_self]
      rfl
    have herase : (l ++ [a] ++ s).eraseIdx l.length = l ++ s := by
      rw [List.append_assoc, List.eraseIdx_append_of_length_le le_rfl, Nat.sub_self]
      rfl
    obtain ⟨m, hm⟩ : ∃ m, limit - removed = m + 1 := ⟨limit - removed - 1, by omega⟩
    rw [List.length_append, List.length_singleton, lremBack, hget, herase]
    by_cases ha : a = value
    · subst ha
      rw [if_pos rfl, List.count_append, List.count_singleton_self, hm, removeLast_concat_self]
      by_cases hlast : limit ≤ removed + 1
      · have hzero : m = 0 := by omega
        rw [if_pos hlast, hzero, removeLast_zero, Nat.zero_add, Nat.min_eq_left (by omega)]
      · have hrest : limit - (removed + 1) = m := by omega
        rw [if_neg hlast, ih (by omega), hrest]
        congr 1
        omega
    · rw [if_neg fun heq => ha (Option.some.inj heq), List.append_assoc, ih h,
        removeLast_concat_of_ne ha, List.count_append, List.count_singleton, if_neg (by simpa using ha),
        Nat.add_zero, List.append_assoc]

/-- The walk from the back with the checks of `list[idx]` and `list.remove(idx)`: `none` is an index
outside the list. -/
def lremBackChecked (value : Bytes) (limit : ℕ) : ℕ → List Bytes → ℕ → Option (ℕ × List Bytes)
  | 0, l, removed => some (removed, l)
  | n + 1, l, removed =>
    match l[n]? with
    | none => none
    | some v =>
      if v = value then
        if limit ≤ removed + 1 then some (removed + 1, l.eraseIdx n)
        else lremBackChecked value limit n (l.eraseIdx n) (removed + 1)
      else lremBackChecked value limit n l removed

/-- No check fails: a removal takes away less than what has been passed. -/
theorem lremBackChecked_eq (value : Bytes) (limit : ℕ) {n : ℕ} {l : List Bytes} (h : n ≤ l.length)
    (removed : ℕ) :
    lremBackChecked value limit n l removed = some (lremBack value limit n l removed) := by
  induction n generalizing l removed with
  | zero => rfl
  | succ n ih =>
    have hlt : n < l.length := h
    have herase : n ≤ (l.eraseIdx n).length := by
      rw [List.length_eraseIdx_of_lt hlt]
      omega
    rw [lremBackChecked, lremBack, List.getElem?_eq_getElem hlt]
    dsimp only
    by_cases hv : l[n] = value
    · rw [if_pos hv, if_pos (congrArg some hv)]
      split
      · rfl
      · exact ih herase _
    · rw [if_neg hv, if_neg fun heq => hv (Option.some.inj heq)]
      exact ih (Nat.le_of_lt hlt) _

variable {dbs : Databases} {now : UInt64} {i : ℕ} {k : Bytes} {e : Entry} {l : List Bytes}
  (he : dbs.liveEntry now i k = some e) (hv : e.value = .list l)

include he hv

theorem lrem_run (count : Int64) (value : Bytes) (notified : List Bytes) :
    lrem now i k count value ⟨dbs, notified⟩
      = let r := if 0 ≤ count then lremFront value (if count = 0 then l.length else asUsize count) l 0
          else lremBack value (asUsize (-count)) l.length l 0
        (.ok r.1, ⟨dbs.put i k { e with value := .list r.2 }, notified⟩) := by
  have hunwrap : Kind.list.unwrap e.value = some l := by
    rw [hv]
    rfl
  rw [lrem, updateAs_run .list he hunwrap]
  rfl

/-- **`lrem`** removes the first `count` occurrences, all of them, or the last ones, and reports how
many; the other elements stay in their order, and no index is outside the list. -/
theorem lrem_removes (count : Int64) (value : Bytes)
    (notified : List Bytes) :
    ∃ removed l', lrem now i k count value ⟨dbs, notified⟩
        = (.ok removed, ⟨dbs.put i k { e with value := .list l' }, notified⟩) ∧
      (0 < count.toInt → removed = min count.toInt.toNat (l.count value) ∧
        l' = removeFirst value count.toInt.toNat l) ∧
      (count.toInt = 0 → removed = l.count value ∧ l' = l.filter fun v => decide (v ≠ value)) ∧
      (count.toInt < 0 → removed = min (-count.toInt).toNat (l.count value) ∧
        l' = removeLast value (-count.toInt).toNat l) ∧
      (l'.filter fun v => decide (v ≠ value)) = l.filter (fun v => decide (v ≠ value)) ∧
      lremBackChecked value (asUsize (-count)) l.length l 0
        = some (lremBack value (asUsize (-count)) l.length l 0) := by
  have hchecked := lremBackChecked_eq value (asUsize (-count)) le_rfl (l := l) 0
  have hrun := lrem_run he hv count value notified
  by_cases hneg : count.toInt < 0
  · have hlimit := asUsize_neg hneg
    have hpos : 0 < asUsize (-count) := by omega
    have hback := lremBack_append value hpos l []
    rw [List.append_nil, List.append_nil, Nat.zero_add, Nat.sub_zero] at hback
    have hcast : asUsize (-count) = (-count.toInt).toNat := by omega
    rw [if_neg (mt (zero_le_iff count).mp (by omega)), hback, hcast] at hrun
    exact ⟨_, _, hrun, fun h => absurd h (by omega), fun h => absurd h (by omega),
      fun _ => ⟨rfl, rfl⟩, filter_removeLast _ l, hchecked⟩
  · have hnonneg : 0 ≤ count.toInt := by omega
    rw [if_pos ((zero_le_iff count).mpr hnonneg), lremFront_eq, Nat.zero_add] at hrun
    refine ⟨_, _, hrun, ?_, ?_, fun h => absurd h hneg, filter_removeFirst _ l, hchecked⟩
    · intro hpos
      have hne : count ≠ 0 := by
        rintro rfl
        exact absurd hpos (by decide)
      rw [if_neg hne, asUsize_of_nonneg hnonneg]
      exact ⟨rfl, rfl⟩
    · intro hzero
      have heq : count = 0 := Int64.toInt_inj.mp hzero
      have hcount := List.count_le_length (a := value) (l := l)
      rw [if_pos heq, Nat.min_eq_right hcount]
      exact ⟨rfl, removeFirst_of_count_le hcount⟩

end Keyspace

/-- `LREM l -2 a` on the list `a b a a`. -/
theorem lrem_removes_last :
    let dbs := (Store.new 1).databases.put 0 [108] { value := .list [[97], [98], [97], [97]] }
    ∃ removed l', Keyspace.lrem 0 0 [108] (-2) [97] ⟨dbs, []⟩
        = (.ok removed, ⟨dbs.put 0 [108] { value := .list l' }, []⟩) ∧
      removed = 2 ∧ l' = [[97], [98]] := by
  intro dbs
  have he : dbs.liveEntry 0 0 [108] = some { value := .list [[97], [98], [97], [97]] } := rfl
  obtain ⟨removed, l', hrun, -, -, hback, -⟩ := Keyspace.lrem_removes he rfl (-2) [97] []
  obtain ⟨hremoved, hl'⟩ := hback (by decide)
  exact ⟨removed, l', hrun, hremoved.trans (by decide), hl'.trans (by decide)⟩

end VeloDB
