import Mathlib.Data.Finmap
import VeloDB.Lib.HashMap

/-!
# Hash maps as finite maps

Forgetting the order of a hash map leaves a finite map, and of a hash set a finite set. Beside a
loop of insertions or deletions a program keeps count of what is new, or of what was there; the
counts are cardinalities of differences and intersections.
-/

namespace Rust.HashMap

open Finset

variable {κ α β : Type} [DecidableEq κ]

/-- The map that a hash map stands for. -/
def toFinmap (m : HashMap κ α) : Finmap fun _ : κ => α := AList.toFinmap m

@[simp] theorem lookup_toFinmap (m : HashMap κ α) (k : κ) : m.toFinmap.lookup k = m.lookup k :=
  Finmap.lookup_toFinmap k m

@[simp] theorem toFinmap_insert (m : HashMap κ α) (k : κ) (v : α) :
    toFinmap (m.insert k v) = m.toFinmap.insert k v :=
  (Finmap.insert_toFinmap (β := fun _ => α) k v m).symm

@[simp] theorem toFinmap_erase (m : HashMap κ α) (k : κ) :
    toFinmap (m.erase k) = m.toFinmap.erase k := (Finmap.erase_toFinmap k m).symm

omit [DecidableEq κ] in
theorem keys_toFinmap_val (m : HashMap κ α) : m.toFinmap.keys.val = m.keys := Finmap.keys_val m

theorem toFinset_keys (m : HashMap κ α) : m.keys.toFinset = m.toFinmap.keys := by
  ext k
  rw [List.mem_toFinset, ← mem_val, keys_toFinmap_val, Multiset.mem_coe]

omit [DecidableEq κ] in
theorem card_keys (m : HashMap κ α) : m.toFinmap.keys.card = m.size := by
  rw [card_def, keys_toFinmap_val, Multiset.coe_card, AList.keys, List.keys, List.length_map, size]

theorem lookup_isSome_iff (m : HashMap κ α) (k : κ) :
    (m.lookup k).isSome ↔ k ∈ m.toFinmap.keys := by
  rw [Finmap.mem_keys, ← Finmap.lookup_isSome, lookup_toFinmap]

theorem keys_insert (f : Finmap fun _ : κ => α) (k : κ) (v : α) :
    (f.insert k v).keys = Insert.insert k f.keys := by
  ext k'
  rw [Finmap.mem_keys, Finmap.mem_insert, mem_insert, Finmap.mem_keys]

/-- Inserting an element that may be there. -/
theorem card_insert_erase (s : Finset κ) (k : κ) :
    (Insert.insert k s).card = (s.erase k).card + 1 := by
  rw [← card_insert_of_notMem (notMem_erase k s)]
  congr 1
  ext k'
  simp only [mem_insert, mem_erase]
  tauto

/-- Insertions, with a count of the keys that are new. -/
theorem foldl_insert (key : β → κ) (value : β → α) (l : List β) (n : ℕ) (m : HashMap κ α) :
    l.foldl (fun (r : ℕ × HashMap κ α) x =>
        (if (r.2.lookup (key x)).isSome then r.1 else r.1 + 1, r.2.insert (key x) (value x))) (n, m)
      = (n + ((l.map key).toFinset \ m.toFinmap.keys).card,
        l.foldl (fun m x => m.insert (key x) (value x)) m) := by
  induction l generalizing n m with
  | nil => simp
  | cons x l ih =>
    have hcard : (if (m.lookup (key x)).isSome then n else n + 1)
        + ((l.map key).toFinset \ Insert.insert (key x) m.toFinmap.keys).card
        = n + (Insert.insert (key x) (l.map key).toFinset \ m.toFinmap.keys).card := by
      by_cases hx : key x ∈ m.toFinmap.keys
      · rw [if_pos ((m.lookup_isSome_iff _).mpr hx), insert_sdiff_of_mem _ hx, insert_eq_of_mem hx]
      · rw [if_neg fun h => hx ((m.lookup_isSome_iff _).mp h), insert_sdiff_of_notMem _ hx,
          card_insert_erase, ← sdiff_insert]
        omega
    rw [List.foldl_cons, ih, toFinmap_insert, keys_insert, hcard, List.map_cons,
      List.toFinset_cons, List.foldl_cons]

/-- Deletions, with a count of the keys that were there. -/
theorem foldl_erase (l : List κ) (n : ℕ) (m : HashMap κ α) :
    l.foldl (fun (r : ℕ × HashMap κ α) k =>
        (if (r.2.lookup k).isSome then r.1 + 1 else r.1, r.2.erase k)) (n, m)
      = (n + (l.toFinset ∩ m.toFinmap.keys).card, l.foldl (fun m k => m.erase k) m) := by
  induction l generalizing n m with
  | nil => simp
  | cons k l ih =>
    have hcard : (if (m.lookup k).isSome then n + 1 else n)
        + (l.toFinset ∩ m.toFinmap.keys.erase k).card
        = n + (Insert.insert k l.toFinset ∩ m.toFinmap.keys).card := by
      by_cases hk : k ∈ m.toFinmap.keys
      · rw [if_pos ((m.lookup_isSome_iff _).mpr hk), insert_inter_of_mem hk, card_insert_erase,
          inter_erase]
        omega
      · rw [if_neg fun h => hk ((m.lookup_isSome_iff _).mp h), insert_inter_of_notMem hk,
          erase_eq_of_notMem hk]
    rw [List.foldl_cons, ih, toFinmap_erase, Finmap.keys_erase, hcard, List.toFinset_cons,
      List.foldl_cons]

theorem toFinmap_foldl_insert (key : β → κ) (value : β → α) (l : List β) (m : HashMap κ α) :
    toFinmap (l.foldl (fun m x => m.insert (key x) (value x)) m)
      = l.foldl (fun f x => f.insert (key x) (value x)) m.toFinmap :=
  (List.foldl_hom toFinmap fun m x => (toFinmap_insert m (key x) (value x)).symm).symm

theorem toFinmap_foldl_erase (l : List κ) (m : HashMap κ α) :
    toFinmap (l.foldl (fun m k => m.erase k) m) = l.foldl (fun f k => f.erase k) m.toFinmap :=
  (List.foldl_hom toFinmap fun m k => (toFinmap_erase m k).symm).symm

theorem keys_foldl_insert (key : β → κ) (value : β → α) (l : List β) (m : HashMap κ α) :
    (toFinmap (l.foldl (fun m x => m.insert (key x) (value x)) m)).keys
      = m.toFinmap.keys ∪ (l.map key).toFinset := by
  induction l generalizing m with
  | nil => simp
  | cons x l ih =>
    rw [List.foldl_cons, ih, toFinmap_insert, keys_insert, List.map_cons, List.toFinset_cons,
      insert_union, union_insert]

theorem keys_foldl_erase (l : List κ) (m : HashMap κ α) :
    (toFinmap (l.foldl (fun m k => m.erase k) m)).keys = m.toFinmap.keys \ l.toFinset := by
  induction l generalizing m with
  | nil => simp
  | cons k l ih =>
    rw [List.foldl_cons, ih, toFinmap_erase, Finmap.keys_erase, List.toFinset_cons, sdiff_insert,
      erase_sdiff_comm]

end Rust.HashMap
