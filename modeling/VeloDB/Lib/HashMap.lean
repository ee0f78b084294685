import Mathlib.Algebra.Ring.Nat
import Mathlib.Data.List.AList

/-!
# Hash maps and hash sets

A hash map is an association list without duplicate keys. The order of the list stands for the
order in which the map happens to iterate, which the program can neither choose nor rely on; what a
map *means* is its lookup function. `lookup_insertAll_perm` is the fact that matters for every
encoder: writing out the pairs in any order and inserting them one by one gives the same map.
-/

namespace Rust

/-- `HashMap`, and `DashMap`. -/
abbrev HashMap (κ α : Type) := AList fun _ : κ => α

/-- `HashSet`. -/
abbrev HashSet (κ : Type) := HashMap κ Unit

namespace HashMap

variable {κ α : Type}

/-- The pairs, in iteration order. -/
def pairs (m : HashMap κ α) : List (κ × α) := m.entries.map fun e => (e.1, e.2)

/-- `len`. -/
def size (m : HashMap κ α) : ℕ := m.entries.length

/-- The sum of what the pairs weigh. -/
def weight (w : κ → α → ℕ) (m : HashMap κ α) : ℕ := (m.pairs.map fun p => w p.1 p.2).sum

theorem length_pairs (m : HashMap κ α) : m.pairs.length = m.size := List.length_map _

theorem map_fst_pairs (m : HashMap κ α) : m.pairs.map Prod.fst = m.keys := by
  rw [pairs, List.map_map]
  rfl

theorem nodup_pairs (m : HashMap κ α) : (m.pairs.map Prod.fst).Nodup := by
  rw [map_fst_pairs]
  exact m.keys_nodup

variable [DecidableEq κ]

theorem mem_pairs {m : HashMap κ α} {k : κ} {v : α} : (k, v) ∈ m.pairs ↔ m.lookup k = some v := by
  have hsig : (k, v) ∈ m.pairs ↔ (⟨k, v⟩ : Sigma fun _ : κ => α) ∈ m.entries := by
    constructor
    · intro h
      obtain ⟨⟨k', v'⟩, he, heq⟩ := List.mem_map.mp h
      obtain ⟨rfl, rfl⟩ := Prod.mk.inj heq
      exact he
    · intro h
      exact List.mem_map.mpr ⟨_, h, rfl⟩
  rw [hsig]
  exact AList.mem_lookup_iff.symm

theorem exists_lookup_of_size {m : HashMap κ α} (h : m.size ≠ 0) : ∃ k v, m.lookup k = some v := by
  have hne : m.pairs ≠ [] := fun hnil => h (by rw [← length_pairs, hnil, List.length_nil])
  obtain ⟨p, ps, hp⟩ := List.exists_cons_of_ne_nil hne
  exact ⟨p.1, p.2, mem_pairs.mp (hp ▸ List.mem_cons_self)⟩

theorem lookup_of_size {m : HashMap κ α} (h : m.size = 0) (k : κ) : m.lookup k = none := by
  cases hk : m.lookup k with
  | none => rfl
  | some v =>
    have hmem := mem_pairs.mpr hk
    rw [List.eq_nil_of_length_eq_zero (m.length_pairs.trans h)] at hmem
    exact absurd hmem List.not_mem_nil

/-- Two maps with the same lookups at every key. -/
def Same (m m' : HashMap κ α) : Prop := ∀ k, m.lookup k = m'.lookup k

/-- Two maps with related values at every key. -/
def SameBy (r : α → α → Prop) (m m' : HashMap κ α) : Prop :=
  ∀ k, Option.Rel r (m.lookup k) (m'.lookup k)

theorem SameBy.refl {r : α → α → Prop} (hr : ∀ a, r a a) (m : HashMap κ α) : SameBy r m m := by
  intro k
  cases m.lookup k with
  | none => exact .none
  | some a => exact .some (hr a)

theorem SameBy.trans {r : α → α → Prop} (hr : ∀ {a b c}, r a b → r b c → r a c)
    {m m' m'' : HashMap κ α} (h : SameBy r m m') (h' : SameBy r m' m'') : SameBy r m m'' := by
  have hrel : ∀ {o o' o'' : Option α}, Option.Rel r o o' → Option.Rel r o' o'' →
      Option.Rel r o o'' := by
    rintro _ _ _ (hab | _) (hbc | _)
    · exact .some (hr hab hbc)
    · exact .none
  exact fun k => hrel (h k) (h' k)

/-- Inserting pairs one after the other. -/
def insertAll (m : HashMap κ α) (l : List (κ × α)) : HashMap κ α :=
  l.foldl (fun m p => m.insert p.1 p.2) m

theorem lookup_insertAll_of_notMem {m : HashMap κ α} {l : List (κ × α)} {k : κ}
    (hk : k ∉ l.map Prod.fst) : (m.insertAll l).lookup k = m.lookup k := by
  induction l generalizing m with
  | nil => rfl
  | cons p l ih =>
    rw [List.map_cons, List.mem_cons, not_or] at hk
    rw [insertAll, List.foldl_cons, ← insertAll, ih hk.2, AList.lookup_insert_ne hk.1]

theorem lookup_insertAll_of_mem {m : HashMap κ α} {l : List (κ × α)} (hnd : (l.map Prod.fst).Nodup)
    {k : κ} {v : α} (hk : (k, v) ∈ l) : (m.insertAll l).lookup k = some v := by
  induction l generalizing m with
  | nil => cases hk
  | cons p l ih =>
    rw [List.map_cons] at hnd
    obtain ⟨hnot, hnd'⟩ := List.nodup_cons.mp hnd
    rw [insertAll, List.foldl_cons, ← insertAll]
    rcases List.mem_cons.mp hk with rfl | hmem
    · rw [lookup_insertAll_of_notMem hnot, AList.lookup_insert]
    · exact ih hnd' hmem

/-- The last pair with a key is the one that stays. -/
theorem lookup_insertAll_last {m : HashMap κ α} {before after : List (κ × α)} {k : κ} {v : α}
    (hk : k ∉ after.map Prod.fst) :
    (m.insertAll (before ++ (k, v) :: after)).lookup k = some v := by
  rw [insertAll, List.foldl_append, List.foldl_cons, ← insertAll, lookup_insertAll_of_notMem hk,
    AList.lookup_insert]

/-- A count kept beside a fold does not change the fold. -/
theorem snd_foldl {σ β : Type} (g : ℕ × σ → β → ℕ) (h : σ → β → σ) (l : List β) (r : ℕ × σ) :
    (l.foldl (fun r x => (g r x, h r.2 x)) r).2 = l.foldl h r.2 :=
  (List.foldl_hom Prod.snd fun _ _ => rfl).symm

/-- **Rebuilding a map from its pairs**, in whatever order they come. -/
theorem lookup_insertAll_perm {m : HashMap κ α} {l : List (κ × α)} (hl : l.Perm m.pairs) :
    Same (insertAll ∅ l) m := by
  intro k
  have hnd : (l.map Prod.fst).Nodup := (hl.map Prod.fst).nodup_iff.mpr m.nodup_pairs
  by_cases hk : k ∈ l.map Prod.fst
  · obtain ⟨⟨k', v⟩, hp, rfl⟩ := List.mem_map.mp hk
    rw [lookup_insertAll_of_mem hnd hp, mem_pairs.mp (hl.mem_iff.mp hp)]
  · rw [lookup_insertAll_of_notMem hk, AList.lookup_empty]
    refine (AList.lookup_eq_none (a := k) (s := m)).mpr (fun hmem => hk ?_) |>.symm
    rw [(hl.map Prod.fst).mem_iff, map_fst_pairs]
    exact hmem

/-! ### Erasing -/

theorem lookup_foldl_erase (ks : List κ) (m : HashMap κ α) (k : κ) :
    AList.lookup k (ks.foldl (fun m k => m.erase k) m) = if k ∈ ks then none else m.lookup k := by
  induction ks generalizing m with
  | nil => simp
  | cons k' ks ih =>
    rw [List.foldl_cons, ih]
    by_cases hk : k = k'
    · subst hk
      simp
    · rw [AList.lookup_erase_ne hk]
      simp [hk]

section Weight

variable (w : κ → α → ℕ) (m : HashMap κ α) (k : κ)

omit [DecidableEq κ] in
theorem weight_eq : weight w m = (m.entries.map fun e => w e.1 e.2).sum := by
  rw [weight, pairs, List.map_map]
  rfl

/-- What is erased no longer weighs. -/
theorem weight_erase :
    weight w (m.erase k) + ((m.lookup k).map (w k)).getD 0 = weight w m := by
  rw [weight_eq, weight_eq]
  by_cases hk : k ∈ m
  · obtain ⟨v, l₁, l₂, -, hm, herase⟩ := List.exists_of_kerase hk
    have hlookup : m.lookup k = some v := by
      rw [← Option.mem_def, AList.mem_lookup_iff, hm]
      exact List.mem_append_right _ List.mem_cons_self
    have hentries : (m.erase k).entries = l₁ ++ l₂ := herase
    rw [hentries, hm, hlookup]
    simp only [List.map_append, List.map_cons, List.sum_append, List.sum_cons, Option.map_some,
      Option.getD_some]
    omega
  · rw [AList.lookup_eq_none.mpr hk]
    exact congrArg (fun l => (l.map fun e => w e.1 e.2).sum) (List.kerase_of_notMem_keys hk)

theorem weight_insert (v : α) :
    weight w (m.insert k v) + ((m.lookup k).map (w k)).getD 0 = weight w m + w k v := by
  have hsplit : weight w (m.insert k v) = w k v + weight w (m.erase k) := by
    rw [weight_eq, weight_eq, AList.entries_insert, List.map_cons, List.sum_cons]
    rfl
  rw [hsplit, Nat.add_assoc, weight_erase, Nat.add_comm]

theorem weight_erase_le : weight w (m.erase k) ≤ weight w m :=
  Nat.le.intro (weight_erase w m k)

theorem weight_foldl_erase_le (ks : List κ) :
    weight w (ks.foldl (fun m k => m.erase k) m) ≤ weight w m := by
  induction ks generalizing m with
  | nil => exact le_rfl
  | cons k ks ih => exact Nat.le_trans (ih (m.erase k)) (weight_erase_le w m k)

variable {w m k}

/-- A value is replaced by one that does not weigh more. -/
theorem weight_insert_le {v v' : α} (hk : m.lookup k = some v) (hle : w k v' ≤ w k v) :
    weight w (m.insert k v') ≤ weight w m := by
  have h := weight_insert w m k v'
  rw [hk, Option.map_some, Option.getD_some] at h
  omega

end Weight

/-! ### Counting -/

/-- The sum of the values. -/
def total (m : HashMap κ ℕ) : ℕ := (m.pairs.map Prod.snd).sum

theorem total_insert (m : HashMap κ ℕ) (k : κ) (v : ℕ) :
    total (m.insert k v) + (m.lookup k).getD 0 = total m + v := by
  have h := weight_insert (fun _ n => n) m k v
  rwa [Option.map_id'] at h

/-- Count one for the key of each element, from left to right. -/
def tally {β : Type} (key : β → κ) (l : List β) (m : HashMap κ ℕ) : HashMap κ ℕ :=
  l.foldl (fun m x => m.insert (key x) ((m.lookup (key x)).getD 0 + 1)) m

theorem total_tally {β : Type} (key : β → κ) (l : List β) (m : HashMap κ ℕ) :
    total (tally key l m) = total m + l.length := by
  induction l generalizing m with
  | nil => rfl
  | cons x l ih =>
    have hone := total_insert m (key x) ((m.lookup (key x)).getD 0 + 1)
    rw [tally, List.foldl_cons, ← tally, ih, List.length_cons]
    omega

/-- **What is counted for a key.** -/
theorem lookup_tally {β : Type} (key : β → κ) (l : List β) (m : HashMap κ ℕ) (k : κ) :
    ((tally key l m).lookup k).getD 0
      = (m.lookup k).getD 0 + (l.filter fun x => key x = k).length := by
  induction l generalizing m with
  | nil => rfl
  | cons x l ih =>
    rw [tally, List.foldl_cons, ← tally, ih]
    by_cases hk : key x = k
    · subst hk
      simp [AList.lookup_insert]
      omega
    · rw [AList.lookup_insert_ne (Ne.symm hk), List.filter_cons_of_neg (by simpa using hk)]

end HashMap

end Rust
