import VeloDB.Store.Types
import Mathlib.Data.List.Sort

/-!
# The score index of a sorted set

A sorted set keeps its members twice: by name with their score, and by score with their names. The
two are changed together, one member at a time; `ScoreIndex` is the invariant between them, and the
lemmas here say that both changes keep it. The two zeros are one score to the index, because it
compares by `rank`.

An index that is filled member by member depends on their order only through the scores of one rank:
the first of them is the key of the bucket. So a stable sort by score does not show.

## Main definitions

* `Scores.ofMembers` — the index of members that come one after the other
* `SameIndex` — the same buckets in the same order

## Main results

* `ScoreIndex.insert`, `ScoreIndex.remove` — one member more or less
* `sameIndex_ofMembers` — members in two orders
-/

namespace VeloDB

open Rust

/-- `scores.entry(score).or_insert_with(HashSet::new).insert(member)`. -/
def Scores.insert (scores : Scores) (score : F64) (member : Bytes) : Scores :=
  BTree.alter orderedCmp score (fun b => some ((b.getD ∅).insert member ())) scores

/-- Take a member out of the bucket of a score, and the bucket out of the index when that leaves
it empty. -/
def Scores.remove (scores : Scores) (score : F64) (member : Bytes) : Scores :=
  BTree.alter orderedCmp score
    (fun b => b.bind fun s =>
      if HashMap.size (s.erase member) = 0 then none else some (s.erase member))
    scores

theorem orderedCmp_eq (a b : F64) (ha : a.isNaN = false) (hb : b.isNaN = false) :
    orderedCmp a b = compare a.rank b.rank := by
  simp [orderedCmp, F64.partialCmp, ha, hb]

theorem HashSet.exists_mem_of_size {s : HashSet Bytes} (h : HashMap.size s ≠ 0) :
    ∃ m, m ∈ s := by
  obtain ⟨m, v, hm⟩ := HashMap.exists_lookup_of_size h
  exact ⟨m, AList.lookup_isSome.mp (Option.isSome_iff_exists.mpr ⟨v, hm⟩)⟩

theorem HashSet.notMem_of_size {s : HashSet Bytes} (h : HashMap.size s = 0) (m : Bytes) :
    m ∉ s :=
  AList.lookup_eq_none.mp (HashMap.lookup_of_size h m)

namespace ScoreIndex

variable {members : HashMap Bytes F64} {scores : Scores} {m : Bytes} {s : F64}

theorem empty : ScoreIndex ∅ [] where
  sorted := BTree.sorted_nil
  nonempty := fun _ h => absurd h List.not_mem_nil
  bucket := fun s m _ => by
    constructor
    · rintro ⟨b, hb, -⟩
      cases hb
    · rintro ⟨s', hs', -⟩
      cases hs'

/-- Only what the members look up to matters. -/
theorem congr (h : ScoreIndex members scores) {members' : HashMap Bytes F64}
    (hm : HashMap.Same members members') : ScoreIndex members' scores where
  sorted := h.sorted
  nonempty := h.nonempty
  bucket := fun s m hs => by rw [h.bucket s m hs, hm m]

/-- What the changed index answers. -/
theorem get?_alter (h : ScoreIndex members scores) (hs : s.isNaN = false)
    (f : Option (HashSet Bytes) → Option (HashSet Bytes)) {s' : F64} (hs' : s'.isNaN = false) :
    BTree.get? orderedCmp s' (BTree.alter orderedCmp s f scores)
      = if s'.rank = s.rank then f (BTree.get? orderedCmp s scores)
        else BTree.get? orderedCmp s' scores :=
  BTree.get?_alter orderedCmp_eq hs hs' f h.sorted

/-- A change of one bucket that leaves no empty bucket behind, seen through the buckets. -/
theorem alter (h : ScoreIndex members scores) (hs : s.isNaN = false)
    {f : Option (HashSet Bytes) → Option (HashSet Bytes)} {members' : HashMap Bytes F64}
    (hne : ∀ b c, f b = some c → ∃ m, m ∈ c)
    (hat : ∀ m, (∃ b, f (BTree.get? orderedCmp s scores) = some b ∧ m ∈ b) ↔
      ∃ s', members'.lookup m = some s' ∧ s'.rank = s.rank)
    (hoff : ∀ m r, r ≠ s.rank → ((∃ s', members'.lookup m = some s' ∧ s'.rank = r) ↔
      ∃ s', members.lookup m = some s' ∧ s'.rank = r)) :
    ScoreIndex members' (BTree.alter orderedCmp s f scores) where
  sorted := BTree.Sorted.alter orderedCmp_eq hs f h.sorted
  nonempty := fun p hp => by
    rcases BTree.mem_alter hp with ⟨b, hb⟩ | hold
    · exact hne b p.2 hb
    · exact h.nonempty p hold
  bucket := fun s' m hs' => by
    rw [h.get?_alter hs f hs']
    by_cases hr : s'.rank = s.rank
    · rw [if_pos hr, hr]
      exact hat m
    · rw [if_neg hr, h.bucket s' m hs']
      exact (hoff m s'.rank hr).symm

/-- **A new member.** -/
theorem insert (h : ScoreIndex members scores) (hs : s.isNaN = false)
    (hm : members.lookup m = none) :
    ScoreIndex (members.insert m s) (scores.insert s m) := by
  refine h.alter hs ?_ (fun m' => ?_) (fun m' r hr => ?_)
  · rintro b c ⟨⟩
    exact ⟨m, AList.mem_insert _ |>.mpr (Or.inl rfl)⟩
  · have hold := h.bucket s m' hs
    by_cases hmm : m' = m
    · subst hmm
      simp [AList.lookup_insert]
    · rw [AList.lookup_insert_ne hmm, ← hold]
      cases BTree.get? orderedCmp s scores <;> simp [hmm, AList.mem_insert, -AList.insert_empty]
  · by_cases hmm : m' = m
    · subst hmm
      simp [AList.lookup_insert, hm, hr.symm]
    · rw [AList.lookup_insert_ne hmm]

/-- **A member less.** -/
theorem remove (h : ScoreIndex members scores) (hs : s.isNaN = false)
    (hm : members.lookup m = some s) :
    ScoreIndex (members.erase m) (scores.remove s m) := by
  refine h.alter hs ?_ (fun m' => ?_) (fun m' r hr => ?_)
  · rintro b c hc
    obtain ⟨b, -, hb⟩ := Option.bind_eq_some_iff.mp hc
    split at hb
    · cases hb
    · next hsize =>
      cases hb
      exact HashSet.exists_mem_of_size hsize
  · have hold := h.bucket s m' hs
    by_cases hmm : m' = m
    · subst hmm
      rw [AList.lookup_erase]
      constructor
      · rintro ⟨c, hc, hmem⟩
        obtain ⟨b, -, hc⟩ := Option.bind_eq_some_iff.mp hc
        split at hc
        · cases hc
        · cases hc
          exact absurd rfl (AList.mem_erase.mp hmem).1
      · rintro ⟨s', hs', -⟩
        cases hs'
    · rw [AList.lookup_erase_ne hmm, ← hold]
      constructor
      · rintro ⟨c, hc, hmem⟩
        obtain ⟨b, hb, hc⟩ := Option.bind_eq_some_iff.mp hc
        split at hc
        · cases hc
        · cases hc
          exact ⟨b, hb, (AList.mem_erase.mp hmem).2⟩
      · rintro ⟨b, hb, hmem⟩
        have hmem' : m' ∈ AList.erase m b := AList.mem_erase.mpr ⟨hmm, hmem⟩
        refine ⟨AList.erase m b, ?_, hmem'⟩
        rw [hb, Option.bind_some, if_neg fun h0 => HashSet.notMem_of_size h0 m' hmem']
  · by_cases hmm : m' = m
    · subst hmm
      simp [AList.lookup_erase, hm, hr.symm]
    · rw [AList.lookup_erase_ne hmm]

end ScoreIndex

/-! ### The order of the members -/

/-- The index of members that come one after the other. -/
def Scores.ofMembers (l : List (Bytes × F64)) : Scores :=
  l.foldl (fun scores p => scores.insert p.2 p.1) []

/-- The same buckets, with the same keys, in the same order. -/
def SameIndex (scores scores' : Scores) : Prop :=
  List.Forall₂ (fun p q => p.1 = q.1 ∧ HashMap.Same p.2 q.2) scores scores'

theorem sameIndex_refl (scores : Scores) : SameIndex scores scores :=
  List.forall₂_same.mpr fun _ _ => ⟨rfl, fun _ => rfl⟩

/-- The members whose scores have one rank. -/
def ofRank (r : ℤ) (l : List (Bytes × F64)) : List (Bytes × F64) := l.filter fun p => p.2.rank = r

theorem ofRank_concat (r : ℤ) (l : List (Bytes × F64)) (p : Bytes × F64) :
    ofRank r (l ++ [p]) = ofRank r l ++ if p.2.rank = r then [p] else [] := by
  rw [ofRank, List.filter_append, List.filter_singleton]
  by_cases h : p.2.rank = r <;> simp [ofRank, h]

/-- There is a bucket for every rank. Its key is the score that came first. -/
structure Buckets (l : List (Bytes × F64)) (scores : Scores) : Prop where
  sorted : BTree.Sorted F64.rank (fun s => s.isNaN = false) scores
  covers : ∀ p ∈ l, ∃ b ∈ scores, b.1.rank = p.2.rank
  key : ∀ b ∈ scores, (ofRank b.1.rank l).head?.map Prod.snd = some b.1
  members : ∀ b ∈ scores, ∀ m, m ∈ b.2 ↔ m ∈ (ofRank b.1.rank l).map Prod.fst

namespace Buckets

variable {l : List (Bytes × F64)} {scores : Scores}

theorem nil : Buckets [] [] where
  sorted := BTree.sorted_nil
  covers := List.forall_mem_nil _
  key := List.forall_mem_nil _
  members := List.forall_mem_nil _

theorem ofRank_ne_nil (h : Buckets l scores) {b : F64 × HashSet Bytes} (hb : b ∈ scores) :
    ofRank b.1.rank l ≠ [] := by
  intro hnil
  have hkey := h.key b hb
  rw [hnil] at hkey
  cases hkey

/-- The ranks of the buckets are those of the scores. -/
theorem rank_mem_iff (h : Buckets l scores) (r : ℤ) :
    r ∈ scores.map (fun b => b.1.rank) ↔ ofRank r l ≠ [] := by
  constructor
  · intro hr
    obtain ⟨b, hb, rfl⟩ := List.mem_map.mp hr
    exact h.ofRank_ne_nil hb
  · intro hne
    obtain ⟨p, hp⟩ := List.exists_mem_of_ne_nil _ hne
    obtain ⟨hmem, hrank⟩ := List.mem_filter.mp hp
    obtain ⟨b, hb, hbr⟩ := h.covers p hmem
    exact List.mem_map.mpr ⟨b, hb, hbr.trans (of_decide_eq_true hrank)⟩

/-- A bucket of another rank than that of the new member is what it was. -/
theorem of_insert (h : Buckets l scores) {p : Bytes × F64} (hp : p.2.isNaN = false)
    {b : F64 × HashSet Bytes} (hb : b ∈ scores.insert p.2 p.1) (hne : b.1.rank ≠ p.2.rank) :
    b ∈ scores := by
  have hsorted : BTree.Sorted F64.rank (fun s => s.isNaN = false) (scores.insert p.2 p.1) :=
    BTree.Sorted.alter orderedCmp_eq hp _ h.sorted
  have hget := BTree.get?_of_mem orderedCmp_eq hsorted hb
  rw [Scores.insert, BTree.get?_alter orderedCmp_eq hp (hsorted.1 b hb) _ h.sorted,
    if_neg hne] at hget
  rcases BTree.rank_of_mem_alter hb with hkey | ⟨v, hv⟩
  · exact absurd (congrArg F64.rank hkey) hne
  · rw [BTree.get?_of_mem orderedCmp_eq h.sorted hv] at hget
    rwa [show b = (b.1, v) from Prod.ext rfl (Option.some.inj hget).symm]

/-- The bucket of the rank of the new member: the key is the old one, if there is one. -/
theorem bucket_insert (h : Buckets l scores) {p : Bytes × F64} (hp : p.2.isNaN = false)
    {b : F64 × HashSet Bytes} (hb : b ∈ scores.insert p.2 p.1) (hr : b.1.rank = p.2.rank) :
    (ofRank p.2.rank l = [] ∧ b.1 = p.2 ∧ b.2 = (∅ : HashSet Bytes).insert p.1 ()) ∨
      ∃ v, (b.1, v) ∈ scores ∧ b.2 = v.insert p.1 () := by
  have hsorted : BTree.Sorted F64.rank (fun s => s.isNaN = false) (scores.insert p.2 p.1) :=
    BTree.Sorted.alter orderedCmp_eq hp _ h.sorted
  have hget := BTree.get?_of_mem orderedCmp_eq hsorted hb
  rw [Scores.insert, BTree.get?_alter orderedCmp_eq hp (hsorted.1 b hb) _ h.sorted,
    if_pos hr] at hget
  cases hold : BTree.get? orderedCmp p.2 scores with
  | none =>
    rw [hold] at hget
    have hnone : ∀ q ∈ scores, q.1.rank ≠ p.2.rank := by
      intro q hq hrank
      rw [BTree.get?_of_rank orderedCmp_eq hp h.sorted hq hrank] at hold
      cases hold
    refine Or.inl ⟨?_, ?_, (Option.some.inj hget).symm⟩
    · by_contra hne
      obtain ⟨q, hq, hqr⟩ := List.mem_map.mp ((h.rank_mem_iff _).mpr hne)
      exact hnone q hq hqr
    · rcases BTree.rank_of_mem_alter hb with hkey | ⟨v, hv⟩
      · exact hkey
      · exact absurd hr (hnone (b.1, v) hv)
  | some v =>
    rw [hold] at hget
    have hkeys := BTree.map_fst_alter (f := fun b => some ((b.getD ∅).insert p.1 ())) hold rfl
    obtain ⟨q, hq, hqb⟩ := List.mem_map.mp (hkeys ▸ List.mem_map_of_mem hb : b.1 ∈ _)
    have hfound := BTree.get?_of_rank orderedCmp_eq hp h.sorted hq (hqb ▸ hr)
    rw [hold] at hfound
    refine Or.inr ⟨v, ?_, (Option.some.inj hget).symm⟩
    rwa [← hqb, Option.some.inj hfound]

/-- **One member more.** -/
theorem insert (h : Buckets l scores) {p : Bytes × F64} (hp : p.2.isNaN = false) :
    Buckets (l ++ [p]) (scores.insert p.2 p.1) where
  sorted := BTree.Sorted.alter orderedCmp_eq hp _ h.sorted
  covers := by
    have hfind : ∀ s : F64, s.isNaN = false →
        (s.rank = p.2.rank ∨ ∃ b ∈ scores, b.1.rank = s.rank) →
        ∃ b ∈ scores.insert p.2 p.1, b.1.rank = s.rank := by
      intro s hs hor
      have hget := BTree.get?_alter orderedCmp_eq hp hs
        (fun b : Option (HashSet Bytes) => some ((b.getD ∅).insert p.1 ())) h.sorted
      obtain ⟨v, hv⟩ : ∃ v, BTree.get? orderedCmp s (scores.insert p.2 p.1) = some v := by
        rw [Scores.insert, hget]
        split_ifs with hr
        · exact ⟨_, rfl⟩
        · obtain ⟨b, hb, hbr⟩ := hor.resolve_left hr
          exact ⟨b.2, BTree.get?_of_rank orderedCmp_eq hs h.sorted hb hbr⟩
      obtain ⟨b, hb, hbr, -⟩ := BTree.exists_mem_of_get? orderedCmp_eq hs
        (BTree.Sorted.alter orderedCmp_eq hp _ h.sorted) hv
      exact ⟨b, hb, hbr⟩
    intro q hq
    rcases List.mem_append.mp hq with hq | hq
    · obtain ⟨b, hb, hbr⟩ := h.covers q hq
      obtain ⟨c, hc, hcr⟩ := hfind b.1 (h.sorted.1 b hb) (Or.inr ⟨b, hb, rfl⟩)
      exact ⟨c, hc, hcr.trans hbr⟩
    · obtain rfl := List.mem_singleton.mp hq
      exact hfind q.2 hp (Or.inl rfl)
  key := fun b hb => by
    rw [ofRank_concat]
    by_cases hr : b.1.rank = p.2.rank
    · rw [if_pos hr.symm, hr]
      rcases h.bucket_insert hp hb hr with ⟨hnil, hkey, -⟩ | ⟨v, hv, -⟩
      · rw [hnil, hkey]
        rfl
      · rw [← hr, List.head?_append_of_ne_nil _ (h.ofRank_ne_nil hv)]
        exact h.key _ hv
    · rw [if_neg (Ne.symm hr), List.append_nil]
      exact h.key b (h.of_insert hp hb hr)
  members := fun b hb m => by
    rw [ofRank_concat]
    by_cases hr : b.1.rank = p.2.rank
    · rw [if_pos hr.symm, List.map_append, List.mem_append, List.map_singleton,
        List.mem_singleton]
      rcases h.bucket_insert hp hb hr with ⟨hnil, -, hset⟩ | ⟨v, hv, hset⟩
      · rw [hset, hr, hnil, AList.mem_insert]
        simp [AList.notMem_empty]
      · rw [hset, AList.mem_insert, ← h.members _ hv m]
        exact or_comm
    · rw [if_neg (Ne.symm hr), List.append_nil]
      exact h.members b (h.of_insert hp hb hr) m

theorem ofMembers (hl : ∀ p ∈ l, p.2.isNaN = false) : Buckets l (Scores.ofMembers l) := by
  induction l using List.reverseRecOn with
  | nil => exact nil
  | append_singleton l p ih =>
    rw [Scores.ofMembers, List.foldl_append, List.foldl_cons, List.foldl_nil]
    exact (ih fun q hq => hl q (List.mem_append_left _ hq)).insert (hl p (by simp))

end Buckets

/-- **Members in two orders** have the same index, if those whose scores have one rank come in the
same order. -/
theorem sameIndex_ofMembers {l l' : List (Bytes × F64)} (hl : ∀ p ∈ l, p.2.isNaN = false)
    (hl' : ∀ p ∈ l', p.2.isNaN = false) (h : ∀ r, ofRank r l = ofRank r l') :
    SameIndex (Scores.ofMembers l) (Scores.ofMembers l') := by
  have hb := Buckets.ofMembers hl
  have hb' := Buckets.ofMembers hl'
  have hranks : (Scores.ofMembers l).map (fun b => b.1.rank)
      = (Scores.ofMembers l').map fun b => b.1.rank := by
    refine List.Pairwise.eq_of_mem_iff (r := (· < ·)) (List.pairwise_map.mpr hb.sorted.2)
      (List.pairwise_map.mpr hb'.sorted.2) fun r => ?_
    rw [hb.rank_mem_iff, hb'.rank_mem_iff, h]
  have hsame : List.Forall₂ (fun p q : F64 × HashSet Bytes => p.1.rank = q.1.rank)
      (Scores.ofMembers l) (Scores.ofMembers l') := by
    rwa [← List.forall₂_eq_eq_eq, List.forall₂_map_left_iff, List.forall₂_map_right_iff] at hranks
  have hleft := (List.forall₂_and_left _ _).mpr ⟨fun p (hp : p ∈ Scores.ofMembers l) => hp, hsame⟩
  have hboth := (List.forall₂_and_left _ _).mpr
    ⟨fun q (hq : q ∈ Scores.ofMembers l') => hq, hleft.flip⟩
  refine hboth.flip.imp fun p q ⟨hq, hp, hr⟩ => ⟨?_, fun m => ?_⟩
  · have hkey := hb.key p hp
    rw [h, hr, hb'.key q hq] at hkey
    exact (Option.some.inj hkey).symm
  · have hmem : m ∈ p.2 ↔ m ∈ q.2 := by
      rw [hb.members p hp, hb'.members q hq, h, hr]
    have hnone : p.2.lookup m = none ↔ q.2.lookup m = none := by
      rw [AList.lookup_eq_none, AList.lookup_eq_none, hmem]
    cases hp' : p.2.lookup m with
    | none => exact (hnone.mp hp').symm
    | some u =>
      cases hq' : q.2.lookup m with
      | none =>
        rw [hnone.mpr hq'] at hp'
        cases hp'
      | some u' => rfl

end VeloDB
