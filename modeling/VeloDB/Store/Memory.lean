import VeloDB.Store.Keyspace

/-!
# The memory estimate

`estimated_memory` adds up what the entries of all databases weigh. It is one of the sums over the
entries, like the number of keys, and what a change of one key does to such a sum is said once for
all of them. The sums are natural numbers: every byte that is counted lies in memory, so they stay
far below `2 ^ 64`.
-/

namespace VeloDB

open Rust

/-- What an entry counts for in `estimated_memory`. -/
def entrySize (k : Bytes) (e : Entry) : ℕ := k.length + e.value.estimatedSize + 64

namespace Databases

/-- The sum of what the entries of all databases weigh. -/
def weigh (w : Bytes → Entry → ℕ) (dbs : Databases) : ℕ := (dbs.map (HashMap.weight w)).sum

/-- `Store::estimated_memory`. -/
def estimatedMemory (dbs : Databases) : ℕ := dbs.weigh entrySize

/-- The number of keys in all databases. -/
def keyCount (dbs : Databases) : ℕ := dbs.weigh fun _ _ => 1

variable (w : Bytes → Entry → ℕ) (dbs : Databases) (i : ℕ) (k : Bytes)

theorem weigh_modify (f : Db → Db) :
    weigh w (dbs.modify i f) + (dbs[i]?.map (HashMap.weight w)).getD 0
      = dbs.weigh w + (dbs[i]?.map fun d => HashMap.weight w (f d)).getD 0 := by
  induction dbs generalizing i with
  | nil => rw [List.modify_nil, List.getElem?_nil, Option.map_none, Option.map_none]
  | cons d dbs ih =>
    cases i with
    | zero =>
      simp only [weigh, List.modify_zero_cons, List.map_cons, List.sum_cons,
        List.getElem?_cons_zero, Option.map_some, Option.getD_some]
      omega
    | succ i =>
      have hrest := ih i
      simp only [weigh, List.modify_succ_cons, List.map_cons, List.sum_cons,
        List.getElem?_cons_succ] at hrest ⊢
      omega

/-- A database that does not become heavier. -/
theorem weigh_modify_le {f : Db → Db}
    (hf : ∀ d, dbs[i]? = some d → HashMap.weight w (f d) ≤ HashMap.weight w d) :
    weigh w (dbs.modify i f) ≤ dbs.weigh w := by
  have hmodify := weigh_modify w dbs i f
  cases hd : dbs[i]? with
  | none =>
    rw [hd] at hmodify
    exact Nat.le_of_eq hmodify
  | some d =>
    have hle := hf d hd
    rw [hd, Option.map_some, Option.map_some, Option.getD_some, Option.getD_some] at hmodify
    omega

theorem weigh_map_empty : weigh w (dbs.map fun _ => ∅) = 0 := by
  induction dbs with
  | nil => rfl
  | cons d dbs ih =>
    rw [weigh, List.map_cons, List.map_cons, List.sum_cons]
    rw [weigh] at ih
    rw [ih]
    rfl

/-- **What is put weighs, and what it replaces no longer does.** -/
theorem weigh_put {i : ℕ} (hi : i < dbs.length) (e : Entry) :
    (dbs.put i k e).weigh w + ((dbs.find i k).map (w k)).getD 0 = dbs.weigh w + w k e := by
  have hmodify := weigh_modify w dbs i fun d => d.insert k e
  have hinsert := HashMap.weight_insert w dbs[i] k e
  have hfind : dbs.find i k = dbs[i].lookup k := by
    rw [find, List.getElem?_eq_getElem hi]
    rfl
  rw [List.getElem?_eq_getElem hi, Option.map_some, Option.map_some, Option.getD_some,
    Option.getD_some] at hmodify
  rw [put, hfind]
  omega

/-- **What is removed no longer weighs.** -/
theorem weigh_remove :
    (dbs.remove i k).weigh w + ((dbs.find i k).map (w k)).getD 0 = dbs.weigh w := by
  have hmodify := weigh_modify w dbs i fun d => d.erase k
  rw [remove, find]
  cases hd : dbs[i]? with
  | none =>
    rw [hd] at hmodify
    exact hmodify
  | some d =>
    rw [hd, Option.map_some, Option.map_some, Option.getD_some, Option.getD_some] at hmodify
    have herase := HashMap.weight_erase w d k
    have hbind : (some d >>= fun d => d.lookup k) = d.lookup k := rfl
    rw [hbind]
    omega

theorem weigh_remove_some {e : Entry} (he : dbs.find i k = some e) :
    (dbs.remove i k).weigh w + w k e = dbs.weigh w := by
  have h := weigh_remove w dbs i k
  rwa [he] at h

end Databases

end VeloDB
