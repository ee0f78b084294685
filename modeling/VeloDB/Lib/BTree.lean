import Mathlib.Order.Compare
import Mathlib.Order.Lattice
import Mathlib.Data.List.Nodup
import Mathlib.Logic.Basic

/-!
# Ordered maps

An ordered map is the list of its pairs in ascending order of the keys, searched with the
comparison of the key type. The comparison may be anything; the facts below hold on keys where it
agrees with the order of some `rank`. Keys of the same rank are one key to the map.
-/

namespace BTree

variable {κ α : Type} (cmp : κ → κ → Ordering)

/-- `get`. -/
def get? (k : κ) : List (κ × α) → Option α
  | [] => none
  | (k', v) :: r =>
    match cmp k k' with
    | .lt => none
    | .eq => some v
    | .gt => get? k r

/-- Change what the map has at a key: insert, update or remove. An update keeps the key that is
there. -/
def alter (k : κ) (f : Option α → Option α) : List (κ × α) → List (κ × α)
  | [] => (f none).toList.map fun v => (k, v)
  | (k', v) :: r =>
    match cmp k k' with
    | .lt => ((f none).toList.map fun w => (k, w)) ++ (k', v) :: r
    | .eq => ((f (some v)).toList.map fun w => (k', w)) ++ r
    | .gt => (k', v) :: alter k f r

/-- Up to an upper bound, inclusive. -/
def upTo (hi : κ) : List (κ × α) → List (κ × α)
  | [] => []
  | p :: r =>
    match cmp hi p.1 with
    | .lt => []
    | .eq => [p]
    | .gt => p :: upTo hi r

/-- `range(lo..=hi)`. -/
def range (lo hi : κ) (m : List (κ × α)) : List (κ × α) :=
  upTo cmp hi (m.dropWhile fun p => cmp lo p.1 == .gt)

variable {cmp} {ρ : Type} [LinearOrder ρ] {rank : κ → ρ} {Good : κ → Prop}

/-- The keys are good and strictly ascending. -/
def Sorted (rank : κ → ρ) (Good : κ → Prop) (m : List (κ × α)) : Prop :=
  (∀ p ∈ m, Good p.1) ∧ m.Pairwise fun p q => rank p.1 < rank q.1

theorem sorted_nil : Sorted rank Good ([] : List (κ × α)) :=
  ⟨fun _ h => absurd h List.not_mem_nil, List.Pairwise.nil⟩

theorem Sorted.sublist {m m' : List (κ × α)} (h : Sorted rank Good m) (hsub : m'.Sublist m) :
    Sorted rank Good m' :=
  ⟨fun p hp => h.1 p (hsub.subset hp), h.2.sublist hsub⟩

theorem Sorted.tail {p : κ × α} {m : List (κ × α)} (h : Sorted rank Good (p :: m)) :
    Sorted rank Good m :=
  ⟨fun q hq => h.1 q (List.mem_cons_of_mem _ hq), h.2.of_cons⟩

/-- There is one pair of each rank. -/
theorem Sorted.eq_of_rank {m : List (κ × α)} (h : Sorted rank Good m) {p q : κ × α} (hp : p ∈ m)
    (hq : q ∈ m) (hpq : rank p.1 = rank q.1) : p = q := by
  have hnd : (m.map fun p => rank p.1).Nodup :=
    List.pairwise_map.mpr (h.2.imp fun hlt => hlt.ne)
  exact List.inj_on_of_nodup_map hnd hp hq hpq

/-- The first key is the least. -/
theorem Sorted.head?_eq_some_iff {m : List (κ × α)} (h : Sorted rank Good m)
    (hinj : Function.Injective rank) {k : κ} : m.head?.map Prod.fst = some k ↔
      k ∈ m.map Prod.fst ∧ ∀ c ∈ m.map Prod.fst, rank k ≤ rank c := by
  cases m with
  | nil => simp
  | cons p m =>
    have hleast : ∀ c ∈ (p :: m).map Prod.fst, rank p.1 ≤ rank c := by
      intro c hc
      obtain ⟨q, hq, rfl⟩ := List.mem_map.mp hc
      rcases List.mem_cons.mp hq with rfl | hq
      · exact le_rfl
      · exact ((List.pairwise_cons.mp h.2).1 q hq).le
    rw [List.head?_cons, Option.map_some, Option.some_inj]
    constructor
    · rintro rfl
      exact ⟨List.mem_cons_self, hleast⟩
    · rintro ⟨hk, hle⟩
      exact hinj ((hleast k hk).antisymm (hle p.1 List.mem_cons_self))

/-- The last key is the greatest. -/
theorem Sorted.getLast?_eq_some_iff {m : List (κ × α)} (h : Sorted rank Good m)
    (hinj : Function.Injective rank) {k : κ} : m.getLast?.map Prod.fst = some k ↔
      k ∈ m.map Prod.fst ∧ ∀ c ∈ m.map Prod.fst, rank c ≤ rank k := by
  cases hlast : m.getLast? with
  | none =>
    rw [List.getLast?_eq_none_iff.mp hlast]
    simp
  | some p =>
    obtain ⟨init, rfl⟩ := List.getLast?_eq_some_iff.mp hlast
    have hmem : p.1 ∈ (init ++ [p]).map Prod.fst := by simp
    have hgreatest : ∀ c ∈ (init ++ [p]).map Prod.fst, rank c ≤ rank p.1 := by
      intro c hc
      obtain ⟨q, hq, rfl⟩ := List.mem_map.mp hc
      rcases List.mem_append.mp hq with hq | hq
      · exact ((List.pairwise_append.mp h.2).2.2 q hq p List.mem_cons_self).le
      · rw [List.mem_singleton.mp hq]
    rw [Option.map_some, Option.some_inj]
    constructor
    · rintro rfl
      exact ⟨hmem, hgreatest⟩
    · rintro ⟨hk, hle⟩
      exact hinj ((hle p.1 hmem).antisymm (hgreatest k hk))

/-- Every key of the changed map has the rank of the key changed or was there before. -/
theorem rank_of_mem_alter {k : κ} {f : Option α → Option α} {m : List (κ × α)} {p : κ × α}
    (h : p ∈ alter cmp k f m) : p.1 = k ∨ ∃ v, (p.1, v) ∈ m := by
  induction m with
  | nil =>
    obtain ⟨v, -, rfl⟩ := List.mem_map.mp h
    exact Or.inl rfl
  | cons q m ih =>
    obtain ⟨k', w⟩ := q
    rw [alter] at h
    split at h
    · rcases List.mem_append.mp h with hnew | hold
      · obtain ⟨v, -, rfl⟩ := List.mem_map.mp hnew
        exact Or.inl rfl
      · exact Or.inr ⟨p.2, hold⟩
    · rcases List.mem_append.mp h with hnew | hold
      · obtain ⟨v, -, rfl⟩ := List.mem_map.mp hnew
        exact Or.inr ⟨w, List.mem_cons_self⟩
      · exact Or.inr ⟨p.2, List.mem_cons_of_mem _ hold⟩
    · rcases List.mem_cons.mp h with rfl | hold
      · exact Or.inr ⟨w, List.mem_cons_self⟩
      · rcases ih hold with hk | ⟨v, hv⟩
        · exact Or.inl hk
        · exact Or.inr ⟨v, List.mem_cons_of_mem _ hv⟩

/-- An update of what is there keeps the keys. -/
theorem map_fst_alter {k : κ} {f : Option α → Option α} {m : List (κ × α)} {v w : α}
    (h : get? cmp k m = some v) (hf : f (some v) = some w) :
    (alter cmp k f m).map Prod.fst = m.map Prod.fst := by
  induction m with
  | nil => cases h
  | cons q m ih =>
    obtain ⟨k', u⟩ := q
    rw [get?] at h
    rw [alter]
    cases hcmp : cmp k k' with
    | lt =>
      rw [hcmp] at h
      cases h
    | eq =>
      rw [hcmp] at h
      obtain rfl := Option.some.inj h
      rw [hf]
      rfl
    | gt =>
      rw [hcmp] at h
      rw [List.map_cons, List.map_cons, ih h]

/-- Every pair of the changed map comes from the change or was there before. -/
theorem mem_alter {k : κ} {f : Option α → Option α} {m : List (κ × α)} {p : κ × α}
    (h : p ∈ alter cmp k f m) : (∃ o, f o = some p.2) ∨ p ∈ m := by
  have hnew : ∀ {o : Option α} {c : κ}, p ∈ (f o).toList.map (fun v => (c, v)) →
      ∃ o, f o = some p.2 := by
    intro o c hp
    obtain ⟨v, hv, rfl⟩ := List.mem_map.mp hp
    exact ⟨o, Option.mem_toList.mp hv⟩
  induction m with
  | nil => exact Or.inl (hnew h)
  | cons q m ih =>
    obtain ⟨k', w⟩ := q
    rw [alter] at h
    split at h
    · exact (List.mem_append.mp h).imp hnew id
    · exact (List.mem_append.mp h).imp hnew (List.mem_cons_of_mem _)
    · rcases List.mem_cons.mp h with rfl | hold
      · exact Or.inr List.mem_cons_self
      · exact (ih hold).imp id (List.mem_cons_of_mem _)

section Ranked

variable (hcmp : ∀ a b, Good a → Good b → cmp a b = compare (rank a) (rank b))

include hcmp

/-- Below the first key there is nothing. -/
theorem get?_eq_none_of_lt {k : κ} (hk : Good k) {m : List (κ × α)} (hm : ∀ p ∈ m, Good p.1)
    (hlt : ∀ p ∈ m, rank k < rank p.1) : get? cmp k m = none := by
  cases m with
  | nil => rfl
  | cons q m =>
    have hq := hlt q List.mem_cons_self
    rw [get?, hcmp _ _ hk (hm q List.mem_cons_self), compare_lt_iff_lt.mpr hq]

theorem Sorted.alter {k : κ} (hk : Good k) (f : Option α → Option α) {m : List (κ × α)}
    (hm : Sorted rank Good m) : Sorted rank Good (alter cmp k f m) := by
  induction m with
  | nil =>
    rw [BTree.alter]
    cases f none with
    | none => exact sorted_nil
    | some v => exact ⟨by simpa using hk, by simp⟩
  | cons q m ih =>
    obtain ⟨k', w⟩ := q
    have hk' : Good k' := hm.1 _ List.mem_cons_self
    have hhead := (List.pairwise_cons.mp hm.2).1
    rw [BTree.alter, hcmp _ _ hk hk']
    split
    · next hlt =>
      have hlt := compare_lt_iff_lt.mp hlt
      cases f none with
      | none => exact hm
      | some v =>
        refine ⟨fun p hp => ?_, List.pairwise_cons.mpr ⟨fun p hp => ?_, hm.2⟩⟩
        · rcases List.mem_cons.mp hp with rfl | hp
          · exact hk
          · exact hm.1 p hp
        · rcases List.mem_cons.mp hp with rfl | hp
          · exact hlt
          · exact hlt.trans (hhead p hp)
    · cases f (some w) with
      | none => exact hm.tail
      | some v =>
        refine ⟨fun p hp => ?_, List.pairwise_cons.mpr ⟨hhead, hm.tail.2⟩⟩
        rcases List.mem_cons.mp hp with rfl | hp
        · exact hk'
        · exact hm.tail.1 p hp
    · next hgt =>
      have hgt := compare_gt_iff_gt.mp hgt
      have ih := ih hm.tail
      refine ⟨fun p hp => ?_, List.pairwise_cons.mpr ⟨fun p hp => ?_, ih.2⟩⟩
      · rcases List.mem_cons.mp hp with rfl | hp
        · exact hk'
        · exact ih.1 p hp
      · rcases rank_of_mem_alter hp with hpk | ⟨v, hv⟩
        · rw [hpk]
          exact hgt
        · exact hhead (p.1, v) hv

/-- **What a changed map answers.** -/
theorem get?_alter {k k' : κ} (hk : Good k) (hk' : Good k') (f : Option α → Option α)
    {m : List (κ × α)} (hm : Sorted rank Good m) :
    get? cmp k' (BTree.alter cmp k f m)
      = if rank k' = rank k then f (get? cmp k m) else get? cmp k' m := by
  induction m with
  | nil =>
    rw [BTree.alter, get?, get?]
    cases f none with
    | none => simp [get?]
    | some v =>
      simp only [Option.toList_some, List.map_cons, List.map_nil, get?, hcmp _ _ hk' hk]
      rcases lt_trichotomy (rank k') (rank k) with h | h | h
      · rw [compare_lt_iff_lt.mpr h, if_neg h.ne]
      · rw [compare_eq_iff_eq.mpr h, if_pos h]
      · rw [compare_gt_iff_gt.mpr h, if_neg h.ne']
  | cons q m ih =>
    obtain ⟨c, w⟩ := q
    have hc : Good c := hm.1 _ List.mem_cons_self
    have hhead := (List.pairwise_cons.mp hm.2).1
    have hnone : ∀ a, Good a → rank a ≤ rank c → get? cmp a m = none := by
      intro a ha hle
      exact get?_eq_none_of_lt hcmp ha hm.tail.1 fun p hp => lt_of_le_of_lt hle (hhead p hp)
    rw [BTree.alter, hcmp _ _ hk hc]
    rcases lt_trichotomy (rank k) (rank c) with h | h | h
    · rw [compare_lt_iff_lt.mpr h, get?, hcmp _ _ hk hc, compare_lt_iff_lt.mpr h]
      dsimp only
      cases f none with
      | none =>
        simp only [Option.toList_none, List.map_nil, List.nil_append]
        split_ifs with heq
        · rw [get?, hcmp _ _ hk' hc, heq, compare_lt_iff_lt.mpr h]
        · rfl
      | some v =>
        simp only [Option.toList_some, List.map_cons, List.map_nil, List.singleton_append, get?,
          hcmp _ _ hk' hk, hcmp _ _ hk' hc]
        rcases lt_trichotomy (rank k') (rank k) with h' | h' | h'
        · rw [compare_lt_iff_lt.mpr h', if_neg h'.ne, compare_lt_iff_lt.mpr (h'.trans h)]
        · rw [compare_eq_iff_eq.mpr h', if_pos h']
        · rw [compare_gt_iff_gt.mpr h', if_neg h'.ne']
    · rw [compare_eq_iff_eq.mpr h, get?, hcmp _ _ hk hc, compare_eq_iff_eq.mpr h]
      dsimp only
      cases f (some w) with
      | none =>
        simp only [Option.toList_none, List.map_nil, List.nil_append, get?, hcmp _ _ hk' hc]
        rcases lt_trichotomy (rank k') (rank c) with h' | h' | h'
        · rw [compare_lt_iff_lt.mpr h', if_neg (h ▸ h'.ne), hnone k' hk' h'.le]
        · rw [compare_eq_iff_eq.mpr h', if_pos (h'.trans h.symm), hnone k' hk' h'.le]
        · rw [compare_gt_iff_gt.mpr h', if_neg (h ▸ h'.ne')]
      | some v =>
        simp only [Option.toList_some, List.map_cons, List.map_nil, List.singleton_append, get?,
          hcmp _ _ hk' hc]
        rcases lt_trichotomy (rank k') (rank c) with h' | h' | h'
        · rw [compare_lt_iff_lt.mpr h', if_neg (h ▸ h'.ne)]
        · rw [compare_eq_iff_eq.mpr h', if_pos (h'.trans h.symm)]
        · rw [compare_gt_iff_gt.mpr h', if_neg (h ▸ h'.ne')]
    · rw [compare_gt_iff_gt.mpr h, get?, hcmp _ _ hk' hc, get?, get?, hcmp _ _ hk hc, hcmp _ _ hk' hc,
        compare_gt_iff_gt.mpr h]
      dsimp only
      rcases lt_trichotomy (rank k') (rank c) with h' | h' | h'
      · rw [compare_lt_iff_lt.mpr h', if_neg (h'.trans h).ne]
      · rw [compare_eq_iff_eq.mpr h', if_neg (h' ▸ h.ne)]
      · rw [compare_gt_iff_gt.mpr h']
        exact ih hm.tail

/-- What is found is a pair of the map. -/
theorem exists_mem_of_get? {k : κ} (hk : Good k) {m : List (κ × α)} (hm : Sorted rank Good m)
    {v : α} (h : get? cmp k m = some v) : ∃ p ∈ m, rank p.1 = rank k ∧ p.2 = v := by
  induction m with
  | nil => cases h
  | cons q m ih =>
    obtain ⟨c, w⟩ := q
    rw [get?, hcmp _ _ hk (hm.1 _ List.mem_cons_self)] at h
    split at h
    · cases h
    · next heq =>
      exact ⟨(c, w), List.mem_cons_self, (compare_eq_iff_eq.mp heq).symm, Option.some.inj h⟩
    · obtain ⟨p, hp, hrank, hv⟩ := ih hm.tail h
      exact ⟨p, List.mem_cons_of_mem _ hp, hrank, hv⟩

/-- Keys of the same rank find the same. -/
theorem get?_of_rank {k : κ} (hk : Good k) {m : List (κ × α)} (hm : Sorted rank Good m)
    {p : κ × α} (hp : p ∈ m) (hrank : rank p.1 = rank k) : get? cmp k m = some p.2 := by
  induction m with
  | nil => cases hp
  | cons q m ih =>
    obtain ⟨c, w⟩ := q
    rw [get?, hcmp _ _ hk (hm.1 _ List.mem_cons_self), ← hrank]
    rcases List.mem_cons.mp hp with rfl | hp
    · rw [compare_eq_iff_eq.mpr rfl]
    · rw [compare_gt_iff_gt.mpr ((List.pairwise_cons.mp hm.2).1 p hp)]
      exact ih hm.tail hp

/-- A pair of the map is found. -/
theorem get?_of_mem {m : List (κ × α)} (hm : Sorted rank Good m) {p : κ × α} (hp : p ∈ m) :
    get? cmp p.1 m = some p.2 :=
  get?_of_rank hcmp (hm.1 p hp) hm hp rfl

/-- When keys of the same rank are the same key, the pairs are what is found. -/
theorem mem_iff_get? (hinj : Function.Injective rank) {k : κ} (hk : Good k) {m : List (κ × α)}
    (hm : Sorted rank Good m) {v : α} : (k, v) ∈ m ↔ get? cmp k m = some v := by
  constructor
  · exact fun h => get?_of_mem hcmp hm h
  · intro h
    obtain ⟨⟨k', v'⟩, hp, hrank, rfl⟩ := exists_mem_of_get? hcmp hk hm h
    rwa [← hinj hrank]

theorem upTo_eq_filter {hi : κ} (hhi : Good hi) {m : List (κ × α)} (hm : Sorted rank Good m) :
    upTo cmp hi m = m.filter fun p => rank p.1 ≤ rank hi := by
  induction m with
  | nil => rfl
  | cons p m ih =>
    have hhead := (List.pairwise_cons.mp hm.2).1
    rw [upTo, hcmp _ _ hhi (hm.1 p List.mem_cons_self)]
    -- from the first key above the bound on, all keys are above it
    have hnone : rank hi ≤ rank p.1 → m.filter (fun q => rank q.1 ≤ rank hi) = [] := by
      intro hle
      refine List.filter_eq_nil_iff.mpr fun q hq => ?_
      simpa using lt_of_le_of_lt hle (hhead q hq)
    rcases lt_trichotomy (rank hi) (rank p.1) with h | h | h
    · rw [compare_lt_iff_lt.mpr h, List.filter_cons_of_neg (by simpa using h), hnone h.le]
    · rw [compare_eq_iff_eq.mpr h, List.filter_cons_of_pos (by simpa using h.ge), hnone h.le]
    · rw [compare_gt_iff_gt.mpr h, List.filter_cons_of_pos (by simpa using h.le), ih hm.tail]

/-- **A range is the keys between its bounds.** -/
theorem range_eq_filter {lo hi : κ} (hlo : Good lo) (hhi : Good hi) {m : List (κ × α)}
    (hm : Sorted rank Good m) :
    range cmp lo hi m = m.filter fun p => rank lo ≤ rank p.1 ∧ rank p.1 ≤ rank hi := by
  induction m with
  | nil => rfl
  | cons p m ih =>
    have hp := hcmp _ _ hlo (hm.1 p List.mem_cons_self)
    by_cases hlt : rank p.1 < rank lo
    · have hdrop : range cmp lo hi (p :: m) = range cmp lo hi m := by
        rw [range, List.dropWhile_cons_of_pos, range]
        rw [hp, compare_gt_iff_gt.mpr hlt]
        rfl
      rw [hdrop, ih hm.tail, List.filter_cons_of_neg (by simp [hlt.not_ge])]
    · have hge : ∀ q ∈ p :: m, rank lo ≤ rank q.1 := by
        intro q hq
        rcases List.mem_cons.mp hq with rfl | hq
        · exact not_lt.mp hlt
        · exact (not_lt.mp hlt).trans ((List.pairwise_cons.mp hm.2).1 q hq).le
      have hkeep : range cmp lo hi (p :: m) = upTo cmp hi (p :: m) := by
        rw [range, List.dropWhile_cons_of_neg]
        rw [hp]
        simpa [compare_gt_iff_gt] using hlt
      rw [hkeep, upTo_eq_filter hcmp hhi hm]
      refine List.filter_congr fun q hq => ?_
      simp [hge q hq]

end Ranked

end BTree
