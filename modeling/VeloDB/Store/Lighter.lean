import Mathlib.Algebra.Order.BigOperators.Group.List
import VeloDB.Store.Hashes
import VeloDB.Store.Lists
import VeloDB.Store.Memory
import VeloDB.Store.Sets
import VeloDB.Store.Streams
import VeloDB.Store.Zsets

/-!
# What does not make the store heavier

A method that takes something out of a value puts back a value of the same kind that is no larger.
The methods that remove keys, and those that change nothing but an expiry, do not add to the memory
estimate either.

## Main results

* `lighter_updateAs` — a value that does not become larger
-/

namespace VeloDB

open Rust Proc

/-- The estimate does not increase. -/
def Lighter (s s' : Keyspace) : Prop :=
  s'.databases.estimatedMemory ≤ s.databases.estimatedMemory

instance : Std.Refl Lighter := ⟨fun _ => Nat.le_refl _⟩

instance : IsTrans Keyspace Lighter := ⟨fun _ _ _ h h' => Nat.le_trans h' h⟩

namespace Keyspace

variable {i : ℕ} {k : Bytes}

/-! ### The steps -/

/-- A value takes the place of one that is as large. -/
theorem lighter_put {s : Keyspace} {e e' : Entry} (he : s.databases.find i k = some e)
    (hsize : e'.value.estimatedSize ≤ e.value.estimatedSize) :
    Lighter s { s with databases := s.databases.put i k e' } := by
  refine Databases.weigh_modify_le entrySize s.databases i fun d hd => ?_
  rw [Databases.find, hd] at he
  refine HashMap.weight_insert_le (v := e) he ?_
  rw [entrySize, entrySize]
  omega

theorem lighter_remove (i : ℕ) (k : Bytes) : Moves Lighter (remove i k) := fun s =>
  Databases.weigh_modify_le entrySize s.databases i fun d _ => HashMap.weight_erase_le entrySize d k

theorem lighter_del : Moves Lighter (del i k) :=
  (moves_read _).bind fun _ => (lighter_remove i k).bind fun _ => moves_pure _

theorem lighter_dbsize (now : UInt64) : Moves Lighter (dbsize now i) :=
  (moves_read _).bind fun _ => (moves_each fun p _ => lighter_remove i p.1).bind fun _ =>
    moves_pure _

theorem lighter_flushdb : Moves Lighter (flushdb i) :=
  (moves_read _).bind fun _ => fun s =>
    Databases.weigh_modify_le entrySize s.databases i fun _ _ => Nat.zero_le _

theorem lighter_flushall : Moves Lighter flushall := by
  intro s
  have hzero : (flushall s).2.databases.estimatedMemory = 0 :=
    Databases.weigh_map_empty entrySize s.databases
  rw [Lighter, hzero]
  exact Nat.zero_le _

theorem lighter_changeExpire (at_ : Option UInt64) : Moves Lighter (changeExpire i k at_) := by
  rintro ⟨dbs, notified⟩
  by_cases hi : i < dbs.length
  · cases he : dbs.find i k with
    | none =>
      rw [changeExpire_missing hi he]
      exact refl_of Lighter _
    | some e =>
      rw [changeExpire_run hi he]
      exact lighter_put he (Nat.le_refl _)
  · obtain ⟨e, he⟩ := read_db_error (Nat.le_of_not_lt hi) notified
    rw [changeExpire, Proc.bind_error he]
    exact refl_of Lighter _

/-- **A value that does not become larger.** -/
theorem lighter_updateAs {α β : Type} (kind : Kind α) [kind.Exact] (now : UInt64) (i : ℕ)
    (k : Bytes) (missing : Except Failure β) {f : α → Except Failure β × α}
    (hf : ∀ a, (kind.wrap (f a).2).estimatedSize ≤ (kind.wrap a).estimatedSize) :
    Moves Lighter (updateAs kind now i k missing f) := by
  intro s
  rcases updateAs_cases kind now i k missing f s with ⟨e, hrun⟩ | ⟨-, -, hrun⟩ |
    ⟨e, a, -, hlive, ha, hrun⟩
  · rw [hrun]
    exact refl_of Lighter s
  · rw [hrun]
    exact refl_of Lighter s
  · rw [hrun]
    refine lighter_put (Option.filter_eq_some_iff.mp hlive).1 ?_
    have hle := hf a
    rwa [Kind.Exact.wrap_unwrap ha] at hle

/-! ### The methods -/

theorem sum_map_le {α : Type} (size : α → ℕ) {l l' : List α} (h : l'.Sublist l) :
    (l'.map size).sum ≤ (l.map size).sum :=
  (h.map size).sum_le_sum fun _ _ => Nat.zero_le _

/-- A loop that takes something out in each turn. -/
theorem foldl_size_le {α β γ : Type} (size : α → ℕ) (turn : γ × α → β → γ × α)
    (hturn : ∀ r b, size (turn r b).2 ≤ size r.2) (l : List β) (r : γ × α) :
    size (l.foldl turn r).2 ≤ size r.2 := by
  induction l generalizing r with
  | nil => exact Nat.le_refl _
  | cons b l ih => exact Nat.le_trans (ih (turn r b)) (hturn r b)

section Methods

variable (now : UInt64) (i : ℕ) (k : Bytes)

/-- Some elements of a list. -/
theorem lighter_list {β : Type} (missing : Except Failure β)
    {f : List Bytes → Except Failure β × List Bytes} (hf : ∀ l, (f l).2.Sublist l) :
    Moves Lighter (updateAs .list now i k missing f) :=
  lighter_updateAs .list now i k missing fun l => sum_map_le (fun v : Bytes => v.length + 24) (hf l)

theorem lighter_lpopOne : Moves Lighter (lpopOne now i k) :=
  lighter_list now i k _ List.tail_sublist

theorem lighter_rpopOne : Moves Lighter (rpopOne now i k) :=
  lighter_list now i k _ List.dropLast_sublist

theorem lighter_ltrim (start stop : Int64) : Moves Lighter (ltrim now i k start stop) := by
  refine lighter_list now i k _ fun l => ?_
  dsimp only
  split
  · exact List.nil_sublist l
  · exact (List.take_sublist _ _).trans (List.drop_sublist _ _)

theorem lremFront_sublist (value : Bytes) (n : ℕ) (l : List Bytes) (removed : ℕ) :
    (lremFront value n l removed).2.Sublist l := by
  induction n generalizing l removed with
  | zero => exact List.Sublist.refl l
  | succ n ih =>
    rw [lremFront]
    split
    · exact (ih _ _).trans List.erase_sublist
    · exact ih _ _

theorem lremBack_sublist (value : Bytes) (limit n : ℕ) (l : List Bytes) (removed : ℕ) :
    (lremBack value limit n l removed).2.Sublist l := by
  induction n generalizing l removed with
  | zero => exact List.Sublist.refl l
  | succ n ih =>
    rw [lremBack]
    split
    · split
      · exact List.eraseIdx_sublist l n
      · exact (ih _ _).trans (List.eraseIdx_sublist l n)
    · exact ih _ _

theorem lighter_lrem (count : Int64) (value : Bytes) :
    Moves Lighter (lrem now i k count value) := by
  refine lighter_list now i k _ fun l => ?_
  dsimp only
  split
  · exact lremFront_sublist value _ l 0
  · exact lremBack_sublist value _ _ l 0

theorem setSize_eq (s : HashSet Bytes) :
    (StorageValue.set s).estimatedSize = HashMap.weight (fun v _ => v.length + 48) s := by
  rw [StorageValue.estimatedSize, HashMap.weight, ← HashMap.map_fst_pairs, List.map_map]
  rfl

theorem lighter_srem (members : List Bytes) : Moves Lighter (srem now i k members) := by
  refine lighter_updateAs .set now i k _ fun s => ?_
  have hle := foldl_size_le (HashMap.weight fun v _ => v.length + 48)
    (fun (r : ℕ × HashSet Bytes) m =>
      (if (r.2.lookup m).isSome then r.1 + 1 else r.1, r.2.erase m))
    (fun r m => HashMap.weight_erase_le _ r.2 m) members (0, s)
  rw [← setSize_eq, ← setSize_eq] at hle
  exact hle

theorem lighter_spop (count : Option ℕ) : Moves Lighter (spop now i k count) := by
  refine lighter_updateAs .set now i k _ fun s => ?_
  have hle := HashMap.weight_foldl_erase_le (fun v _ => v.length + 48) s
    (s.keys.take (min (count.getD 1) s.size))
  rw [← setSize_eq, ← setSize_eq] at hle
  exact hle

theorem lighter_hdel (fields : List Bytes) : Moves Lighter (hdel now i k fields) :=
  lighter_updateAs .hash now i k _ fun m =>
    foldl_size_le (HashMap.weight fun (f v : Bytes) => f.length + v.length + 48)
      (fun (r : ℕ × HashMap Bytes Bytes) f =>
        (if (r.2.lookup f).isSome then r.1 + 1 else r.1, r.2.erase f))
      (fun r f => HashMap.weight_erase_le _ r.2 f) fields (0, m)

theorem lighter_zrem (members : List Bytes) : Moves Lighter (zrem now i k members) := by
  refine lighter_updateAs .zset now i k _ fun z => ?_
  refine foldl_size_le (fun z : HashMap Bytes F64 × Scores =>
    HashMap.weight (fun m _ => m.length * 2 + 64) z.1) zremOne (fun r m => ?_) members (0, z)
  rw [zremOne]
  split
  · exact HashMap.weight_erase_le _ _ _
  · exact Nat.le_refl _

/-- Some entries of a stream. -/
theorem lighter_stream {β : Type} (missing : Except Failure β)
    {f : List StreamEntry × StreamId → Except Failure β × (List StreamEntry × StreamId)}
    (hf : ∀ s, (f s).2.1.Sublist s.1) : Moves Lighter (updateAs .stream now i k missing f) :=
  lighter_updateAs .stream now i k missing fun s => sum_map_le (fun e : StreamEntry =>
    16 + (e.fields.map fun p => p.1.length + p.2.length + 48).sum) (hf s)

theorem lighter_xdel (ids : List String) : Moves Lighter (xdel now i k ids) :=
  lighter_stream now i k _ fun s => sublist_foldl_xdelOne ids (0, s.1)

theorem lighter_xtrim (maxlen : ℕ) : Moves Lighter (xtrim now i k maxlen) :=
  lighter_stream now i k _ fun _ => List.drop_sublist _ _

/-- What a field of a nested hash counts for. -/
def nestedSize (field : Bytes) (inner : HashMap Bytes Bytes) : ℕ :=
  field.length + 48 + HashMap.weight (fun g v => g.length + v.length + 48) inner

theorem lighter_nhdel (field : Bytes) (subfield : Option Bytes) :
    Moves Lighter (nhdel now i k field subfield) := by
  refine lighter_updateAs .nestedHash now i k _ fun m => ?_
  have hfield : HashMap.weight nestedSize (m.erase field) ≤ HashMap.weight nestedSize m :=
    HashMap.weight_erase_le nestedSize m field
  cases subfield with
  | none => exact hfield
  | some sf =>
    dsimp only
    cases hinner : m.lookup field with
    | none => exact Nat.le_refl _
    | some inner =>
      dsimp only
      split
      · split
        · exact hfield
        · have hle : nestedSize field (inner.erase sf) ≤ nestedSize field inner :=
            Nat.add_le_add_left (HashMap.weight_erase_le _ inner sf) _
          have hput : HashMap.weight nestedSize (m.insert field (inner.erase sf))
              ≤ HashMap.weight nestedSize m := HashMap.weight_insert_le hinner hle
          exact hput
      · exact Nat.le_refl _

end Methods

end Keyspace

end VeloDB
