import VeloDB.Store.Zsets

/-!
# The two indexes of a sorted set agree

`ZADD` and `ZREM` change the members and the score index together, one member at a time, so the two
stay in step along every sequence of them. What `ZRANGEBYSCORE` reads off the score index, page by
page, is then what `ZCOUNT` counts among the members.

## Main results

* `allAgree_runZset` — the invariant over sequences of `ZADD` and `ZREM`
* `takeBuckets_eq` — the loop with its limit is `drop` and `take`
* `zrangeByScore_eq` — what a range query answers
-/

namespace VeloDB

open Rust

/-! ### Changing sorted sets -/

/-- The two indexes of a sorted set agree, and no score is a NaN. -/
structure ZsetAgrees (members : HashMap Bytes F64) (scores : Scores) : Prop where
  index : ScoreIndex members scores
  numbers : ∀ m s, members.lookup m = some s → s.isNaN = false

namespace ZsetAgrees

variable {members : HashMap Bytes F64} {scores : Scores}

theorem empty : ZsetAgrees ∅ [] where
  index := ScoreIndex.empty
  numbers := fun m s h => by
    rw [AList.lookup_empty] at h
    cases h

theorem insert (h : ZsetAgrees members scores) {m : Bytes} {s : F64} (hs : s.isNaN = false)
    (hm : members.lookup m = none) :
    ZsetAgrees (members.insert m s) (scores.insert s m) where
  index := h.index.insert hs hm
  numbers := fun m' s' h' => by
    by_cases hmm : m' = m
    · rw [hmm, AList.lookup_insert] at h'
      obtain rfl := Option.some.inj h'
      exact hs
    · rw [AList.lookup_insert_ne hmm] at h'
      exact h.numbers m' s' h'

theorem remove (h : ZsetAgrees members scores) {m : Bytes} {s : F64}
    (hm : members.lookup m = some s) : ZsetAgrees (members.erase m) (scores.remove s m) where
  index := h.index.remove (h.numbers m s hm) hm
  numbers := fun m' s' h' => by
    by_cases hmm : m' = m
    · rw [hmm, AList.lookup_erase] at h'
      cases h'
    · rw [AList.lookup_erase_ne hmm] at h'
      exact h.numbers m' s' h'

theorem congr (h : ZsetAgrees members scores) {members' : HashMap Bytes F64}
    (hm : HashMap.Same members members') : ZsetAgrees members' scores where
  index := h.index.congr hm
  numbers := fun m s hs => h.numbers m s ((hm m).trans hs)

/-- One turn of the loop of `zadd`. A member that is there is taken out before it is put back. -/
theorem zaddOne {r : ℕ × HashMap Bytes F64 × Scores} (h : ZsetAgrees r.2.1 r.2.2)
    {item : F64 × Bytes} (hitem : item.1.isNaN = false) :
    ZsetAgrees (VeloDB.zaddOne r item).2.1 (VeloDB.zaddOne r item).2.2 := by
  obtain ⟨added, members, scores⟩ := r
  obtain ⟨score, member⟩ := item
  cases hm : members.lookup member with
  | none =>
    simp only [VeloDB.zaddOne, hm]
    exact h.insert hitem hm
  | some old =>
    simp only [VeloDB.zaddOne, hm]
    refine ((h.remove hm).insert hitem (AList.lookup_erase member members)).congr fun m => ?_
    by_cases hmm : m = member
    · rw [hmm, AList.lookup_insert, AList.lookup_insert]
    · rw [AList.lookup_insert_ne hmm, AList.lookup_insert_ne hmm, AList.lookup_erase_ne hmm]

/-- One turn of the loop of `zrem`. -/
theorem zremOne {r : ℕ × HashMap Bytes F64 × Scores} (h : ZsetAgrees r.2.1 r.2.2)
    (member : Bytes) :
    ZsetAgrees (VeloDB.zremOne r member).2.1 (VeloDB.zremOne r member).2.2 := by
  obtain ⟨removed, members, scores⟩ := r
  cases hm : members.lookup member with
  | none =>
    simp only [VeloDB.zremOne, hm]
    exact h
  | some score =>
    simp only [VeloDB.zremOne, hm]
    exact h.remove hm

theorem zadd {items : List (F64 × Bytes)} (hitems : ∀ p ∈ items, p.1.isNaN = false)
    {r : ℕ × HashMap Bytes F64 × Scores} (h : ZsetAgrees r.2.1 r.2.2) :
    ZsetAgrees (items.foldl VeloDB.zaddOne r).2.1 (items.foldl VeloDB.zaddOne r).2.2 := by
  induction items generalizing r with
  | nil => exact h
  | cons item items ih =>
    exact ih (fun p hp => hitems p (List.mem_cons_of_mem _ hp))
      (h.zaddOne (hitems item List.mem_cons_self))

theorem zrem (members : List Bytes) {r : ℕ × HashMap Bytes F64 × Scores}
    (h : ZsetAgrees r.2.1 r.2.2) :
    ZsetAgrees (members.foldl VeloDB.zremOne r).2.1 (members.foldl VeloDB.zremOne r).2.2 := by
  induction members generalizing r with
  | nil => exact h
  | cons m members ih => exact ih (h.zremOne m)

end ZsetAgrees

/-- The indexes of a value agree, if it is a sorted set. -/
def StorageValue.Agrees : StorageValue → Prop
  | .zset members scores => ZsetAgrees members scores
  | _ => True

/-- The indexes of every sorted set agree. -/
def Databases.AllAgree (dbs : Databases) : Prop :=
  ∀ i k e, dbs.find i k = some e → e.value.Agrees

/-- `ZADD` and `ZREM`, each on some key and at some time. -/
inductive ZsetOp
  | zadd (i : ℕ) (k : Bytes) (items : List (F64 × Bytes))
  | zrem (now : UInt64) (i : ℕ) (k : Bytes) (members : List Bytes)

/-- No score that is added is a NaN. -/
def ZsetOp.Numbers : ZsetOp → Prop
  | .zadd _ _ items => ∀ p ∈ items, p.1.isNaN = false
  | .zrem _ _ _ _ => True

/-- Run one of them. -/
def ZsetOp.run : ZsetOp → KeyM ℕ
  | .zadd i k items => Keyspace.zadd i k items
  | .zrem now i k members => Keyspace.zrem now i k members

/-- Run them one after the other, whatever each of them answers. -/
def runZset (ops : List ZsetOp) (ks : Keyspace) : Keyspace :=
  ops.foldl (fun ks op => (op.run ks).2) ks

theorem Databases.AllAgree.put {dbs : Databases} (h : dbs.AllAgree) {i : ℕ} {k : Bytes} {e : Entry}
    (he : e.value.Agrees) : (dbs.put i k e).AllAgree := by
  intro j k' e' hfind
  by_cases hjk : j ≠ i ∨ k' ≠ k
  · rw [find_put_of_ne hjk] at hfind
    exact h j k' e' hfind
  · rw [not_or, not_not, not_not] at hjk
    obtain ⟨rfl, rfl⟩ := hjk
    by_cases hj : j < dbs.length
    · rw [find_put_self hj] at hfind
      obtain rfl := Option.some.inj hfind
      exact he
    · have hnone : (dbs.put j k' e).find j k' = none := by
        rw [find, List.getElem?_eq_none (by rw [length_put]; exact Nat.le_of_not_lt hj)]
        rfl
      rw [hnone] at hfind
      cases hfind

theorem zset_of_unwrap {v : StorageValue} {z : HashMap Bytes F64 × Scores}
    (h : Kind.zset.unwrap v = some z) : v = .zset z.1 z.2 := by
  cases v <;> simp only [Kind.zset, reduceCtorEq] at h
  obtain rfl := Option.some.inj h
  rfl

theorem agrees_of_unwrap {v : StorageValue} (hv : v.Agrees) {z : HashMap Bytes F64 × Scores}
    (h : Kind.zset.unwrap v = some z) : ZsetAgrees z.1 z.2 := by
  rw [zset_of_unwrap h] at hv
  exact hv

/-- **One operation.** -/
theorem allAgree_run {op : ZsetOp} (hop : op.Numbers) {ks : Keyspace} (h : ks.databases.AllAgree) :
    (op.run ks).2.databases.AllAgree := by
  cases op with
  | zadd i k items =>
    rcases Keyspace.upsertAs_cases .zset i k (∅, []) (fun z =>
      let r := items.foldl zaddOne (0, z)
      (.ok r.1, r.2)) ks with ⟨e, he, -⟩ | ⟨z, -, hz, hrun⟩
    · rw [ZsetOp.run, Keyspace.zadd, he]
      exact h
    · rw [ZsetOp.run, Keyspace.zadd, hrun]
      refine h.put (ZsetAgrees.zadd hop (agrees_of_unwrap ?_ hz))
      cases hfind : ks.databases.find i k with
      | none => exact ZsetAgrees.empty
      | some e => exact h i k e hfind
  | zrem now i k members =>
    rcases Keyspace.updateAs_cases .zset now i k (.ok 0) (fun z =>
      let r := members.foldl zremOne (0, z)
      (.ok r.1, r.2)) ks with ⟨e, he⟩ | ⟨-, -, hrun⟩ | ⟨e, z, -, hlive, hz, hrun⟩
    · rw [ZsetOp.run, Keyspace.zrem, he]
      exact h
    · rw [ZsetOp.run, Keyspace.zrem, hrun]
      exact h
    · rw [ZsetOp.run, Keyspace.zrem, hrun]
      have hfind := (Option.filter_eq_some_iff.mp hlive).1
      exact h.put (ZsetAgrees.zrem members (agrees_of_unwrap (h i k e hfind) hz))

/-- **Every sequence of `ZADD` and `ZREM`.** -/
theorem allAgree_runZset {ops : List ZsetOp} (hops : ∀ op ∈ ops, op.Numbers) {ks : Keyspace}
    (h : ks.databases.AllAgree) : (runZset ops ks).databases.AllAgree := by
  induction ops generalizing ks with
  | nil => exact h
  | cons op ops ih =>
    exact ih (fun o ho => hops o (List.mem_cons_of_mem _ ho))
      (allAgree_run (hops op List.mem_cons_self) h)

/-! ### Paging -/

/-- What is left of a list behind an offset, up to a count. -/
def page {α : Type} (offset count : ℕ) (l : List α) : List α := (l.drop offset).take count

theorem page_append_of_le {α : Type} {offset count : ℕ} {l : List α}
    (h : count ≤ (page offset count l).length) (l' : List α) :
    page offset count (l ++ l') = page offset count l := by
  rw [page, List.length_take, Nat.le_min] at h
  have hlen : (l.drop offset).length = l.length - offset := List.length_drop
  rcases Nat.eq_zero_or_pos count with rfl | hpos
  · rw [page, page, List.take_zero, List.take_zero]
  · rw [page, List.drop_append_of_le_length (by omega), List.take_append_of_le_length h.2, page]

namespace Databases

/-- The member and the score, if it is asked for. -/
def scored (withscores : Bool) (p : Bytes × F64) : Bytes × Option F64 :=
  (p.1, if withscores then some p.2 else none)

/-- The members of a bucket with the score of the bucket. -/
def bucketItems (p : F64 × HashSet Bytes) : List (Bytes × F64) := p.2.keys.map fun m => (m, p.1)

/-- The inner loop, entered with the page of what it has seen: it leaves with the page of that and
the bucket. How many it has skipped matters only while the page is not full. -/
theorem takeBucket_eq (offset count : ℕ) (score : F64) (withscores : Bool) (set : List Bytes)
    (seen : List (Bytes × Option F64)) :
    let st := takeBucket offset count score withscores set
      (min offset seen.length, page offset count seen)
    let all := seen ++ set.map fun m => scored withscores (m, score)
    st.2 = page offset count all ∧ (st.1 = min offset all.length ∨ count ≤ st.2.length) := by
  induction set generalizing seen with
  | nil =>
    simp only [List.map_nil, List.append_nil]
    exact ⟨rfl, Or.inl rfl⟩
  | cons m set ih =>
    have hall : seen ++ (m :: set).map (fun m => scored withscores (m, score))
        = (seen ++ [scored withscores (m, score)]) ++
            set.map fun m => scored withscores (m, score) := by
      rw [List.map_cons, List.append_assoc, List.singleton_append]
    have hlen : (seen ++ [scored withscores (m, score)]).length = seen.length + 1 := by simp
    dsimp only
    rw [hall, takeBucket]
    by_cases hskip : min offset seen.length < offset
    · have hempty : page offset count seen
          = page offset count (seen ++ [scored withscores (m, score)]) := by
        rw [page, page, List.drop_eq_nil_of_le (by omega), List.drop_eq_nil_of_le (by omega)]
      have hskipped : min offset seen.length + 1
          = min offset (seen ++ [scored withscores (m, score)]).length := by omega
      rw [if_pos hskip, hempty, hskipped]
      exact ih _
    · rw [if_neg hskip]
      by_cases hfull : count ≤ (page offset count seen).length
      · rw [if_pos hfull, List.append_assoc, page_append_of_le hfull]
        exact ⟨rfl, Or.inr hfull⟩
      · have hdrop : (seen.drop offset).length < count := by
          rw [page, List.length_take] at hfull
          omega
        have hnext : page offset count seen ++ [(m, if withscores then some score else none)]
            = page offset count (seen ++ [scored withscores (m, score)]) := by
          rw [page, page, List.take_of_length_le hdrop.le,
            List.drop_append_of_le_length (by omega), List.take_of_length_le]
          · rfl
          · rw [List.length_append, List.length_singleton]
            omega
        have hskipped : min offset seen.length
            = min offset (seen ++ [scored withscores (m, score)]).length := by omega
        rw [if_neg hfull, hnext, hskipped]
        exact ih _

/-- **The loop over the buckets** answers the page of all members of the buckets that are not
excluded. -/
theorem takeBuckets_eq (lo hi : ScoreBound) (offset count : ℕ) (withscores : Bool) (r : Scores)
    (seen : List (Bytes × Option F64)) :
    takeBuckets lo hi offset count withscores r (min offset seen.length, page offset count seen)
      = page offset count (seen ++ ((r.filter fun p => !excludes lo hi p.1).flatMap
          bucketItems).map (scored withscores)) := by
  induction r generalizing seen with
  | nil => simp [takeBuckets]
  | cons p r ih =>
    obtain ⟨score, set⟩ := p
    rw [takeBuckets]
    by_cases hex : excludes lo hi score = true
    · rw [if_pos hex, ih, List.filter_cons_of_neg (by simp [hex])]
    · obtain ⟨hres, hskip⟩ := takeBucket_eq offset count score withscores set.keys seen
      rw [if_neg hex, List.filter_cons_of_pos (by simp [hex]), List.flatMap_cons, List.map_append,
        bucketItems, List.map_map, ← List.append_assoc]
      dsimp only
      split
      · next hfull =>
        rw [hres] at hfull ⊢
        exact (page_append_of_le hfull _).symm
      · next hmore =>
        have hst := hskip.resolve_right hmore
        rw [← ih]
        congr 1
        exact Prod.ext hst hres

end Databases

/-! ### Queries -/

/-- A score lies between two bounds, as `zcount` compares. -/
def inRange (lo hi : ScoreBound) (s : F64) : Bool :=
  (if lo.exclusive then lo.value.lt s else lo.value.le s) &&
    (if hi.exclusive then s.lt hi.value else s.le hi.value)

/-- The members of a range, bucket by bucket. -/
def rangeItems (lo hi : ScoreBound) (scores : Scores) : List (Bytes × F64) :=
  (scores.filter fun p => inRange lo hi p.1).flatMap Databases.bucketItems

section Range

variable {lo hi : ScoreBound} (hlo : lo.value.isNaN = false) (hhi : hi.value.isNaN = false)

include hlo hhi

theorem inRange_iff {s : F64} (hs : s.isNaN = false) :
    inRange lo hi s = true ↔ lo.value.rank ≤ s.rank ∧ s.rank ≤ hi.value.rank ∧
      Databases.excludes lo hi s = false := by
  have hlt := F64.lt_iff hlo hs
  have hle := F64.le_iff hlo hs
  have hlt' := F64.lt_iff hs hhi
  have hle' := F64.le_iff hs hhi
  have heq : s.eq lo.value = false ↔ s.rank ≠ lo.value.rank := by
    rw [← Bool.not_eq_true, F64.eq_iff hs hlo]
  have heq' : s.eq hi.value = false ↔ s.rank ≠ hi.value.rank := by
    rw [← Bool.not_eq_true, F64.eq_iff hs hhi]
  simp only [inRange, Databases.excludes, Bool.and_eq_true, Bool.or_eq_false_iff,
    Bool.and_eq_false_iff, heq, heq']
  cases lo.exclusive <;> cases hi.exclusive <;> simp [hlt, hle, hlt', hle'] <;> omega

/-- Only the place of the score in the order matters. -/
theorem inRange_congr {s s' : F64} (hs : s.isNaN = false) (hs' : s'.isNaN = false)
    (h : s.rank = s'.rank) : inRange lo hi s = inRange lo hi s' := by
  rw [Bool.eq_iff_iff, inRange_iff hlo hhi hs, inRange_iff hlo hhi hs', h]
  have heq : ∀ v : F64, v.isNaN = false → s.eq v = s'.eq v := by
    intro v hv
    rw [Bool.eq_iff_iff, F64.eq_iff hs hv, F64.eq_iff hs' hv, h]
  rw [Databases.excludes, Databases.excludes, heq _ hlo, heq _ hhi]

/-- What the loop goes over is the range. -/
theorem range_filter_eq {scores : Scores}
    (hsorted : BTree.Sorted F64.rank (fun s => s.isNaN = false) scores) :
    ((BTree.range orderedCmp lo.value hi.value scores).filter
      fun p => !Databases.excludes lo hi p.1) = scores.filter fun p => inRange lo hi p.1 := by
  rw [BTree.range_eq_filter orderedCmp_eq hlo hhi hsorted, List.filter_filter]
  refine List.filter_congr fun p hp => ?_
  rw [Bool.eq_iff_iff, inRange_iff hlo hhi (hsorted.1 p hp)]
  simp only [Bool.and_eq_true, Bool.not_eq_true', decide_eq_true_eq]
  tauto

end Range

namespace ZsetAgrees

variable {members : HashMap Bytes F64} {scores : Scores} (h : ZsetAgrees members scores)

include h

/-- A member of a bucket has the score of the bucket. -/
theorem score_of_mem {p : F64 × HashSet Bytes} (hp : p ∈ scores) {m : Bytes} (hm : m ∈ p.2) :
    ∃ s, members.lookup m = some s ∧ s.rank = p.1.rank :=
  (h.index.bucket p.1 m (h.index.sorted.1 p hp)).mp
    ⟨p.2, BTree.get?_of_mem orderedCmp_eq h.index.sorted hp, hm⟩

/-- A member is in the bucket of its score. -/
theorem exists_bucket {m : Bytes} {s : F64} (hm : members.lookup m = some s) :
    ∃ p ∈ scores, p.1.rank = s.rank ∧ m ∈ p.2 := by
  have hs := h.numbers m s hm
  obtain ⟨b, hb, hmem⟩ := (h.index.bucket s m hs).mpr ⟨s, hm, rfl⟩
  obtain ⟨p, hp, hrank, rfl⟩ := BTree.exists_mem_of_get? orderedCmp_eq hs h.index.sorted hb
  exact ⟨p, hp, hrank, hmem⟩

/-- **Every member is in exactly one bucket.** -/
theorem existsUnique_bucket {m : Bytes} {s : F64} (hm : members.lookup m = some s) :
    ∃! p, p ∈ scores ∧ m ∈ p.2 := by
  obtain ⟨p, hp, hrank, hmem⟩ := h.exists_bucket hm
  refine ⟨p, ⟨hp, hmem⟩, ?_⟩
  rintro q ⟨hq, hmem'⟩
  obtain ⟨s', hs', hrank'⟩ := h.score_of_mem hq hmem'
  obtain rfl := Option.some.inj (hm.symm.trans hs')
  exact h.index.sorted.eq_of_rank hq hp (hrank'.symm.trans hrank.symm)

/-- The members of a range are those with a score in the range. -/
theorem mem_rangeItems {lo hi : ScoreBound} (hlo : lo.value.isNaN = false)
    (hhi : hi.value.isNaN = false) {m : Bytes} :
    m ∈ (rangeItems lo hi scores).map Prod.fst ↔
      ∃ s, members.lookup m = some s ∧ inRange lo hi s = true := by
  constructor
  · intro hm
    obtain ⟨⟨m, s⟩, hms, rfl⟩ := List.mem_map.mp hm
    obtain ⟨p, hp, hitem⟩ := List.mem_flatMap.mp hms
    obtain ⟨hp, hin⟩ := List.mem_filter.mp hp
    obtain ⟨m, hmem, heq⟩ := List.mem_map.mp hitem
    obtain ⟨rfl, rfl⟩ := Prod.mk.inj heq
    obtain ⟨s, hs, hrank⟩ := h.score_of_mem hp (AList.mem_keys.mpr hmem)
    refine ⟨s, hs, ?_⟩
    rw [inRange_congr hlo hhi (h.numbers m s hs) (h.index.sorted.1 p hp) hrank]
    exact hin
  · rintro ⟨s, hs, hin⟩
    obtain ⟨p, hp, hrank, hmem⟩ := h.exists_bucket hs
    rw [← inRange_congr hlo hhi (h.index.sorted.1 p hp) (h.numbers m s hs) hrank] at hin
    refine List.mem_map.mpr ⟨(m, p.1), List.mem_flatMap.mpr ⟨p, List.mem_filter.mpr ⟨hp, hin⟩, ?_⟩,
      rfl⟩
    exact List.mem_map.mpr ⟨m, AList.mem_keys.mp hmem, rfl⟩

/-- The scores of a range are those of its members. -/
theorem score_of_mem_rangeItems {lo hi : ScoreBound} {p : Bytes × F64}
    (hp : p ∈ rangeItems lo hi scores) : ∃ s, members.lookup p.1 = some s ∧ s.rank = p.2.rank := by
  obtain ⟨b, hb, hitem⟩ := List.mem_flatMap.mp hp
  obtain ⟨m, hmem, rfl⟩ := List.mem_map.mp hitem
  exact h.score_of_mem (List.mem_of_mem_filter hb) (AList.mem_keys.mpr hmem)

/-- The scores of a range do not descend. -/
theorem pairwise_rangeItems (lo hi : ScoreBound) :
    (rangeItems lo hi scores).Pairwise fun p q => p.2.rank ≤ q.2.rank := by
  refine List.pairwise_flatMap.mpr ⟨fun p hp => ?_, ?_⟩
  · exact List.pairwise_map.mpr (List.pairwise_of_forall fun _ _ => le_rfl)
  · refine (h.index.sorted.2.sublist List.filter_sublist).imp fun {p q} hlt x hx y hy => ?_
    obtain ⟨_, -, rfl⟩ := List.mem_map.mp hx
    obtain ⟨_, -, rfl⟩ := List.mem_map.mp hy
    exact hlt.le

/-- No member comes twice. -/
theorem nodup_rangeItems (lo hi : ScoreBound) :
    ((rangeItems lo hi scores).map Prod.fst).Nodup := by
  rw [List.Nodup, List.pairwise_map]
  refine List.pairwise_flatMap.mpr ⟨fun p hp => ?_, ?_⟩
  · exact List.pairwise_map.mpr p.2.keys_nodup
  · have hmem : ∀ p ∈ scores.filter fun p => inRange lo hi p.1, p ∈ scores :=
      fun p hp => List.mem_of_mem_filter hp
    have hsorted := h.index.sorted.2.sublist
      (List.filter_sublist (l := scores) (p := fun p => inRange lo hi p.1))
    refine List.Pairwise.imp_of_mem (fun {p q} hp hq hlt x hx y hy heq => ?_) hsorted
    obtain ⟨m, hm, rfl⟩ := List.mem_map.mp hx
    obtain ⟨m', hm', rfl⟩ := List.mem_map.mp hy
    obtain rfl : m = m' := heq
    obtain ⟨s, hs, hrank⟩ := h.score_of_mem (hmem p hp) (AList.mem_keys.mpr hm)
    obtain ⟨s', hs', hrank'⟩ := h.score_of_mem (hmem q hq) (AList.mem_keys.mpr hm')
    obtain rfl := Option.some.inj (hs.symm.trans hs')
    exact hlt.ne (hrank.symm.trans hrank')

/-- Counting among the members gives the length of the range. -/
theorem length_rangeItems {lo hi : ScoreBound} (hlo : lo.value.isNaN = false)
    (hhi : hi.value.isNaN = false) :
    (members.pairs.filter fun p => inRange lo hi p.2).length = (rangeItems lo hi scores).length := by
  have hperm : ((members.pairs.filter fun p => inRange lo hi p.2).map Prod.fst).Perm
      ((rangeItems lo hi scores).map Prod.fst) := by
    refine (List.perm_ext_iff_of_nodup
      (members.nodup_pairs.sublist (List.filter_sublist.map _)) (h.nodup_rangeItems lo hi)).mpr
      fun m => ?_
    rw [h.mem_rangeItems hlo hhi]
    constructor
    · intro hm
      obtain ⟨⟨m, s⟩, hp, rfl⟩ := List.mem_map.mp hm
      obtain ⟨hp, hin⟩ := List.mem_filter.mp hp
      exact ⟨s, HashMap.mem_pairs.mp hp, hin⟩
    · rintro ⟨s, hs, hin⟩
      exact List.mem_map.mpr ⟨(m, s), List.mem_filter.mpr ⟨HashMap.mem_pairs.mpr hs, hin⟩, rfl⟩
  have hlen := hperm.length_eq
  rwa [List.length_map, List.length_map] at hlen

end ZsetAgrees

namespace Databases

variable {dbs : Databases} {now : UInt64} {i : ℕ} {k : Bytes} {e : Entry}
  {members : HashMap Bytes F64} {scores : Scores} {lo hi : ScoreBound}

/-- **What a range query answers**, limit and all. -/
theorem zrangeByScore_eq (he : dbs.liveEntry now i k = some e) (hv : e.value = .zset members scores)
    (h : ZsetAgrees members scores) (hle : lo.value.le hi.value = true) (withscores : Bool)
    (limit : Option (ℕ × ℕ)) :
    dbs.zrangeByScore now i k lo hi withscores limit
      = .ok (page (limit.getD (0, usizeMax)).1 (limit.getD (0, usizeMax)).2
          ((rangeItems lo hi scores).map (scored withscores))) := by
  obtain ⟨hlo, hhi⟩ := F64.isNaN_of_le hle
  have hunwrap : Kind.zset.unwrap e.value = some (members, scores) := by rw [hv]; rfl
  have hnlt : hi.value.lt lo.value = false := by
    rw [← Bool.not_eq_true, F64.lt_iff hhi hlo]
    exact not_lt.mpr ((F64.le_iff hlo hhi).mp hle)
  have hloop := takeBuckets_eq lo hi (limit.getD (0, usizeMax)).1 (limit.getD (0, usizeMax)).2
    withscores (BTree.range orderedCmp lo.value hi.value scores) []
  rw [List.length_nil, Nat.min_zero, page, List.drop_nil, List.take_nil, List.nil_append,
    range_filter_eq hlo hhi h.index.sorted] at hloop
  rw [zrangeByScore, readAs_some he hunwrap, hnlt, if_neg Bool.false_ne_true]
  exact congrArg Except.ok hloop

/-- What counting answers. -/
theorem zcount_eq (he : dbs.liveEntry now i k = some e) (hv : e.value = .zset members scores)
    (h : ZsetAgrees members scores) (hle : lo.value.le hi.value = true) :
    dbs.zcount now i k lo hi = .ok (rangeItems lo hi scores).length := by
  obtain ⟨hlo, hhi⟩ := F64.isNaN_of_le hle
  have hunwrap : Kind.zset.unwrap e.value = some (members, scores) := by rw [hv]; rfl
  rw [zcount, readAs_some he hunwrap, ← h.length_rangeItems hlo hhi]
  rfl

end Databases

end VeloDB
