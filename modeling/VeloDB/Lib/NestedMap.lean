import VeloDB.Lib.HashMap

/-!
# Maps of maps

A map from fields to maps from subfields, read as one flat map from pairs. The flat map has no
place for a field without a subfield, so the reading determines the fields only as long as no inner
map is empty; `Flattens` carries both facts, and the three changes at the end keep it.

## Main results

* `Flattens.insert`, `Flattens.erasePair`, `Flattens.eraseField` — the changes
* `Flattens.mem_keys`, `Flattens.mem_keys_inner`, `Flattens.values` — what the two sides list
-/

namespace Rust

namespace HashMap

variable {κ ι α : Type} [DecidableEq κ] [DecidableEq ι]

/-- The value of a pair in a map of maps. -/
def lookup₂ (m : HashMap κ (HashMap ι α)) (f : κ) (s : ι) : Option α :=
  m.lookup f >>= fun inner => inner.lookup s

/-- The pairs of a map of maps with their values, field by field. -/
def pairs₂ (m : HashMap κ (HashMap ι α)) : List ((κ × ι) × α) :=
  m.pairs.flatMap fun p => p.2.pairs.map fun q => ((p.1, q.1), q.2)

/-- Take out one pair, and its field with the last of its pairs. -/
def erasePair (m : HashMap κ (HashMap ι α)) (f : κ) (s : ι) : HashMap κ (HashMap ι α) :=
  match m.lookup f with
  | some inner =>
    if (inner.lookup s).isSome then
      let inner' : HashMap ι α := inner.erase s
      if inner'.size = 0 then m.erase f else m.insert f inner'
    else m
  | none => m

/-- A flat map without the pairs of a field. -/
def eraseField (flat : HashMap (κ × ι) α) (f : κ) : HashMap (κ × ι) α where
  entries := flat.entries.filter fun e => e.1.1 ≠ f
  nodupKeys := flat.nodupKeys.sublist List.filter_sublist

/-- The pairs of a field in a flat map. -/
def pairsOf (flat : HashMap (κ × ι) α) (f : κ) : List ((κ × ι) × α) :=
  flat.pairs.filter fun p => p.1.1 = f

/-- A map of maps without empty inner maps, and the flat map it stands for. -/
structure Flattens (m : HashMap κ (HashMap ι α)) (flat : HashMap (κ × ι) α) : Prop where
  lookup : ∀ f s, m.lookup₂ f s = flat.lookup (f, s)
  inner : ∀ f inner, m.lookup f = some inner → inner.size ≠ 0

/-! ### Looking up -/

theorem lookup_eraseField (flat : HashMap (κ × ι) α) (f f' : κ) (s : ι) :
    (flat.eraseField f).lookup (f', s) = if f' = f then none else flat.lookup (f', s) := by
  refine Option.ext fun v => ?_
  have hmem := AList.mem_lookup_iff (a := (f', s)) (b := v) (s := flat.eraseField f)
  rw [Option.mem_def] at hmem
  rw [hmem, eraseField, List.mem_filter, ← AList.mem_lookup_iff, Option.mem_def]
  by_cases hf : f' = f
  · simp [hf]
  · simp [hf]

theorem lookup₂_insert (m : HashMap κ (HashMap ι α)) (f : κ) (inner : HashMap ι α) (f' : κ)
    (s : ι) : lookup₂ (m.insert f inner) f' s
      = if f' = f then inner.lookup s else m.lookup₂ f' s := by
  by_cases hf : f' = f
  · subst hf
    rw [if_pos rfl, lookup₂, AList.lookup_insert]
    rfl
  · rw [if_neg hf, lookup₂, AList.lookup_insert_ne hf, lookup₂]

theorem lookup₂_erase (m : HashMap κ (HashMap ι α)) (f f' : κ) (s : ι) :
    lookup₂ (m.erase f) f' s = if f' = f then none else m.lookup₂ f' s := by
  by_cases hf : f' = f
  · subst hf
    rw [if_pos rfl, lookup₂, AList.lookup_erase]
    rfl
  · rw [if_neg hf, lookup₂, AList.lookup_erase_ne hf, lookup₂]

theorem mem_pairs₂ {m : HashMap κ (HashMap ι α)} {f : κ} {s : ι} {v : α} :
    ((f, s), v) ∈ m.pairs₂ ↔ m.lookup₂ f s = some v := by
  rw [pairs₂, List.mem_flatMap, lookup₂, Option.bind_eq_bind, Option.bind_eq_some_iff]
  constructor
  · rintro ⟨⟨f', inner⟩, hp, hq⟩
    obtain ⟨⟨s', v'⟩, hs, heq⟩ := List.mem_map.mp hq
    simp only [Prod.mk.injEq] at heq
    obtain ⟨⟨rfl, rfl⟩, rfl⟩ := heq
    exact ⟨inner, mem_pairs.mp hp, mem_pairs.mp hs⟩
  · rintro ⟨inner, hf, hs⟩
    exact ⟨(f, inner), mem_pairs.mpr hf, List.mem_map.mpr ⟨(s, v), mem_pairs.mpr hs, rfl⟩⟩

theorem mem_pairsOf {flat : HashMap (κ × ι) α} {f f' : κ} {s : ι} {v : α} :
    ((f', s), v) ∈ flat.pairsOf f ↔ flat.lookup (f', s) = some v ∧ f' = f := by
  rw [pairsOf, List.mem_filter, mem_pairs, decide_eq_true_eq]

theorem pairsOf_ne_nil {flat : HashMap (κ × ι) α} {f : κ} :
    flat.pairsOf f ≠ [] ↔ ∃ s v, flat.lookup (f, s) = some v := by
  constructor
  · intro hne
    obtain ⟨⟨⟨f', s⟩, v⟩, hp⟩ := List.exists_mem_of_ne_nil _ hne
    obtain ⟨hl, rfl⟩ := mem_pairsOf.mp hp
    exact ⟨s, v, hl⟩
  · rintro ⟨s, v, hl⟩
    exact List.ne_nil_of_mem (mem_pairsOf.mpr ⟨hl, rfl⟩)

omit [DecidableEq κ] [DecidableEq ι] in
theorem nodup_pairs₂ (m : HashMap κ (HashMap ι α)) : m.pairs₂.Nodup := by
  have hpairs : ∀ {β γ : Type} (m : HashMap β γ), m.pairs.Nodup := fun m => m.nodup_pairs.of_map _
  rw [pairs₂, List.nodup_flatMap]
  refine ⟨fun p _ => (hpairs p.2).map fun q q' h => ?_, ?_⟩
  · simp only [Prod.mk.injEq, true_and] at h
    exact Prod.ext h.1 h.2
  · refine (List.pairwise_map.mp m.nodup_pairs).imp fun {p p'} hne x hx hx' => hne ?_
    obtain ⟨q, -, rfl⟩ := List.mem_map.mp hx
    obtain ⟨q', -, h⟩ := List.mem_map.mp hx'
    simp only [Prod.mk.injEq] at h
    exact h.1.1.symm

/-! ### The changes -/

namespace Flattens

variable {m : HashMap κ (HashMap ι α)} {flat : HashMap (κ × ι) α}

theorem empty : Flattens (∅ : HashMap κ (HashMap ι α)) ∅ where
  lookup f s := by rw [lookup₂, AList.lookup_empty, AList.lookup_empty]; rfl
  inner f inner h := by rw [AList.lookup_empty] at h; cases h

/-- What the field of a pair looks up to, when it may be missing. -/
theorem lookup_getD (h : Flattens m flat) (f : κ) (s : ι) :
    ((m.lookup f).getD ∅).lookup s = flat.lookup (f, s) := by
  rw [← h.lookup, lookup₂]
  cases m.lookup f with
  | none => exact AList.lookup_empty s
  | some inner => rfl

/-- **A pair is set.** -/
theorem insert (h : Flattens m flat) (f : κ) (s : ι) (v : α) :
    Flattens (m.insert f (((m.lookup f).getD ∅).insert s v)) (flat.insert (f, s) v) where
  lookup f' s' := by
    rw [lookup₂_insert]
    by_cases hf : f' = f
    · subst hf
      rw [if_pos rfl]
      by_cases hs : s' = s
      · rw [hs, AList.lookup_insert, AList.lookup_insert]
      · rw [AList.lookup_insert_ne hs, h.lookup_getD, AList.lookup_insert_ne]
        simpa using hs
    · rw [if_neg hf, h.lookup, AList.lookup_insert_ne]
      simp [hf]
  inner f' inner hinner := by
    by_cases hf : f' = f
    · subst hf
      rw [AList.lookup_insert] at hinner
      obtain rfl := Option.some.inj hinner
      exact Nat.succ_ne_zero _
    · rw [AList.lookup_insert_ne hf] at hinner
      exact h.inner f' inner hinner

/-- **A field is taken out.** -/
theorem eraseField (h : Flattens m flat) (f : κ) : Flattens (m.erase f) (flat.eraseField f) where
  lookup f' s := by rw [lookup₂_erase, lookup_eraseField, h.lookup]
  inner f' inner hinner := by
    by_cases hf : f' = f
    · rw [hf, AList.lookup_erase] at hinner
      cases hinner
    · rw [AList.lookup_erase_ne hf] at hinner
      exact h.inner f' inner hinner

/-- The flat map without a pair, by the inner map without its subfield. -/
theorem lookup_erase (h : Flattens m flat) {f : κ} {inner : HashMap ι α}
    (hm : m.lookup f = some inner) (s : ι) (f' : κ) (s' : ι) :
    (flat.erase (f, s)).lookup (f', s')
      = if f' = f then (inner.erase s).lookup s' else m.lookup₂ f' s' := by
  by_cases hf : f' = f
  · subst hf
    rw [if_pos rfl]
    by_cases hs : s' = s
    · rw [hs, AList.lookup_erase, AList.lookup_erase]
    · rw [AList.lookup_erase_ne hs, AList.lookup_erase_ne (by simpa using hs), ← h.lookup, lookup₂,
        hm]
      rfl
  · rw [if_neg hf, AList.lookup_erase_ne (by simp [hf]), h.lookup]

/-- A pair that is not there. -/
theorem erase_absent (h : Flattens m flat) {f : κ} {s : ι} (hnone : flat.lookup (f, s) = none) :
    Flattens m (flat.erase (f, s)) where
  lookup f' s' := by
    rw [h.lookup]
    by_cases hp : (f', s') = (f, s)
    · rw [hp, hnone, AList.lookup_erase]
    · rw [AList.lookup_erase_ne hp]
  inner := h.inner

/-- **A pair is taken out.** The field goes exactly when nothing is left in it. -/
theorem erasePair (h : Flattens m flat) (f : κ) (s : ι) :
    Flattens (m.erasePair f s) (flat.erase (f, s)) := by
  rw [HashMap.erasePair]
  cases hm : m.lookup f with
  | none => exact h.erase_absent (by rw [← h.lookup, lookup₂, hm]; rfl)
  | some inner =>
    dsimp only
    split_ifs with hs hsize
    · refine ⟨fun f' s' => ?_, fun f' inner' h' => ?_⟩
      · rw [lookup₂_erase, h.lookup_erase hm]
        split_ifs
        · exact (lookup_of_size hsize s').symm
        · rfl
      · by_cases hf : f' = f
        · rw [hf, AList.lookup_erase] at h'
          cases h'
        · rw [AList.lookup_erase_ne hf] at h'
          exact h.inner f' inner' h'
    · refine ⟨fun f' s' => ?_, fun f' inner' h' => ?_⟩
      · rw [lookup₂_insert, h.lookup_erase hm]
      · by_cases hf : f' = f
        · rw [hf, AList.lookup_insert] at h'
          exact Option.some.inj h' ▸ hsize
        · rw [AList.lookup_insert_ne hf] at h'
          exact h.inner f' inner' h'
    · refine h.erase_absent ?_
      rw [← h.lookup, lookup₂, hm]
      exact Option.not_isSome_iff_eq_none.mp hs

/-! ### What is listed -/

/-- The fields are those of the pairs. -/
theorem mem_keys (h : Flattens m flat) {f : κ} :
    f ∈ m.keys ↔ ∃ s v, flat.lookup (f, s) = some v := by
  rw [← AList.mem_keys, ← AList.lookup_isSome, Option.isSome_iff_exists]
  constructor
  · rintro ⟨inner, hf⟩
    obtain ⟨s, v, hs⟩ := exists_lookup_of_size (h.inner f inner hf)
    refine ⟨s, v, ?_⟩
    rw [← h.lookup, lookup₂, hf]
    exact hs
  · rintro ⟨s, v, hs⟩
    rw [← h.lookup, lookup₂, Option.bind_eq_bind, Option.bind_eq_some_iff] at hs
    exact ⟨hs.choose, hs.choose_spec.1⟩

/-- The subfields of a field are those of its pairs. -/
theorem mem_keys_inner (h : Flattens m flat) {f : κ} {s : ι} :
    s ∈ ((m.lookup f).getD ∅).keys ↔ (flat.lookup (f, s)).isSome := by
  rw [← AList.mem_keys, ← AList.lookup_isSome, h.lookup_getD]

/-- The pairs of a field. -/
theorem perm_pairsOf (h : Flattens m flat) (f : κ) :
    (((m.lookup f).getD ∅).pairs.map fun q => ((f, q.1), q.2)).Perm (flat.pairsOf f) := by
  have hinj : Function.Injective fun q : ι × α => ((f, q.1), q.2) := fun q q' h => by
    simp only [Prod.mk.injEq, true_and] at h
    exact Prod.ext h.1 h.2
  refine (List.perm_ext_iff_of_nodup ((nodup_pairs _).of_map _ |>.map hinj)
    ((flat.nodup_pairs.of_map _).filter _)).mpr ?_
  rintro ⟨⟨f', s⟩, v⟩
  rw [List.mem_map, ← pairsOf, mem_pairsOf]
  constructor
  · rintro ⟨⟨s', v'⟩, hq, heq⟩
    simp only [Prod.mk.injEq] at heq
    obtain ⟨⟨rfl, rfl⟩, rfl⟩ := heq
    exact ⟨by rw [← h.lookup_getD]; exact mem_pairs.mp hq, rfl⟩
  · rintro ⟨hl, rfl⟩
    exact ⟨(s, v), mem_pairs.mpr (by rw [h.lookup_getD]; exact hl), rfl⟩

/-- All pairs. -/
theorem perm_pairs (h : Flattens m flat) : m.pairs₂.Perm flat.pairs := by
  refine (List.perm_ext_iff_of_nodup m.nodup_pairs₂ (flat.nodup_pairs.of_map _)).mpr ?_
  rintro ⟨⟨f, s⟩, v⟩
  rw [mem_pairs₂, mem_pairs, h.lookup]

end Flattens

end HashMap

end Rust
