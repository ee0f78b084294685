import VeloDB.Store.ZsetIndex
import Mathlib.Data.List.Flatten

/-!
# Ranks, positions and cardinality

`ZRANK` walks over the buckets of the score index, `ZRANGE` numbers what `ZRANGEBYSCORE` answers,
and `ZCARD` counts the members. All three go by one list: the members of the buckets, bucket after
bucket (`inOrder`). Only `ZRANGE` looks at less of it. The bounds it hands on are the two
infinities, both exclusive, so that a member with an infinite score has a rank but no position.

A bucket is a hash set and iterates in any order. `ZsetBuilt` lets the order change at any moment.

## Main results

* `rankLoop_eq` — a rank is an index in that list
* `zrange_eq` — a position is one in the list without the infinite scores
* `ranks_agree_iff` — the three agree if and only if no score is infinite
-/

namespace VeloDB

open Rust

/-! ### Buckets in another order -/

/-- A bucket with the same members in any order. -/
def SameBucket (p q : F64 × HashSet Bytes) : Prop := p.1 = q.1 ∧ p.2.entries.Perm q.2.entries

namespace SameBucket

variable {p q : F64 × HashSet Bytes} {scores scores' : Scores}

theorem mem_iff (h : SameBucket p q) {m : Bytes} : m ∈ p.2 ↔ m ∈ q.2 := by
  rw [AList.mem_keys, AList.mem_keys]
  exact (h.2.map Sigma.fst).mem_iff

/-- The keys of the index stay what they are. -/
theorem keys_eq (h : List.Forall₂ SameBucket scores scores') :
    scores.map Prod.fst = scores'.map Prod.fst := by
  induction h with
  | nil => rfl
  | cons hpq _ ih => rw [List.map_cons, List.map_cons, hpq.1, ih]

theorem exists_of_mem (h : List.Forall₂ SameBucket scores scores') {q : F64 × HashSet Bytes}
    (hq : q ∈ scores') : ∃ p ∈ scores, SameBucket p q := by
  induction h with
  | nil => cases hq
  | cons hpq _ ih =>
    rcases List.mem_cons.mp hq with rfl | hq
    · exact ⟨_, List.mem_cons_self, hpq⟩
    · obtain ⟨p, hp, hsame⟩ := ih hq
      exact ⟨p, List.mem_cons_of_mem _ hp, hsame⟩

/-- A bucket is found in one index if and only if it is found in the other. -/
theorem get?_iff (h : List.Forall₂ SameBucket scores scores') (s : F64) (m : Bytes) :
    (∃ b, BTree.get? orderedCmp s scores = some b ∧ m ∈ b) ↔
      ∃ b, BTree.get? orderedCmp s scores' = some b ∧ m ∈ b := by
  induction h with
  | nil => rfl
  | @cons p q _ _ hpq _ ih =>
    obtain ⟨score, set⟩ := p
    obtain ⟨score', set'⟩ := q
    obtain rfl : score = score' := hpq.1
    rw [BTree.get?, BTree.get?]
    cases orderedCmp s score with
    | lt => simp
    | eq =>
      have hmem : m ∈ set ↔ m ∈ set' := hpq.mem_iff
      simp [hmem]
    | gt => exact ih

end SameBucket

/-- Agreement does not depend on the order within the buckets. -/
theorem ZsetAgrees.reorder {members : HashMap Bytes F64} {scores scores' : Scores}
    (h : ZsetAgrees members scores) (hsame : List.Forall₂ SameBucket scores scores') :
    ZsetAgrees members scores' where
  numbers := h.numbers
  index := {
    sorted := by
      have hkeys := SameBucket.keys_eq hsame
      have hsorted := h.index.sorted
      refine ⟨fun q hq => ?_, ?_⟩
      · obtain ⟨p, hp, hpq⟩ := SameBucket.exists_of_mem hsame hq
        rw [← hpq.1]
        exact hsorted.1 p hp
      · have hasc : (scores.map Prod.fst).Pairwise fun a b => a.rank < b.rank :=
          List.pairwise_map.mpr hsorted.2
        rw [hkeys, List.pairwise_map] at hasc
        exact hasc
    nonempty := fun q hq => by
      obtain ⟨p, hp, hpq⟩ := SameBucket.exists_of_mem hsame hq
      obtain ⟨m, hm⟩ := h.index.nonempty p hp
      exact ⟨m, hpq.mem_iff.mp hm⟩
    bucket := fun s m hs => by rw [← SameBucket.get?_iff hsame, h.index.bucket s m hs] }

/-- The keyspaces that `ZADD` and `ZREM` lead to, while the buckets iterate in any order. -/
inductive ZsetBuilt : Keyspace → Prop
  | start (n : ℕ) : ZsetBuilt { databases := (Store.new n).databases }
  | run {ks : Keyspace} (h : ZsetBuilt ks) {op : ZsetOp} (hop : op.Numbers) : ZsetBuilt (op.run ks).2
  | reorder {ks : Keyspace} (h : ZsetBuilt ks) {i : ℕ} {k : Bytes} {e : Entry}
    {members : HashMap Bytes F64} {scores scores' : Scores}
    (he : ks.databases.find i k = some e) (hv : e.value = .zset members scores)
    (hsame : List.Forall₂ SameBucket scores scores') :
    ZsetBuilt { ks with databases := ks.databases.put i k { e with value := .zset members scores' } }

theorem Databases.allAgree_new (n : ℕ) : Databases.AllAgree (Store.new n).databases := by
  intro i k e he
  rw [Databases.find_new] at he
  cases he

theorem ZsetBuilt.allAgree {ks : Keyspace} (h : ZsetBuilt ks) : ks.databases.AllAgree := by
  induction h with
  | start n => exact Databases.allAgree_new n
  | run _ hop ih => exact allAgree_run hop ih
  | @reorder ks _ i k e members scores scores' he hv hsame ih =>
    have hagrees := ih i k e he
    rw [hv] at hagrees
    exact ih.put (ZsetAgrees.reorder hagrees hsame)

/-! ### Ranks -/

/-- The members of the buckets, bucket after bucket. -/
def inOrder (scores : Scores) : List Bytes := scores.flatMap fun p => p.2.keys

/-- How far a walk over a set goes that stops at a member. -/
theorem length_takeWhile_ne {m : Bytes} {l : List Bytes} (hm : m ∈ l) :
    (l.takeWhile (· != m)).length = l.idxOf m := by
  induction l with
  | nil => cases hm
  | cons a l ih =>
    by_cases ham : a = m
    · subst ham
      simp
    · have hm' : m ∈ l := (List.mem_cons.mp hm).resolve_left (Ne.symm ham)
      rw [List.takeWhile_cons_of_pos (by simpa using ham), List.length_cons, ih hm',
        List.idxOf_cons_ne l ham]

/-- The walk of `zrank`, over any end of the index in which the member's bucket is. -/
theorem rankLoop_eq {scores : Scores}
    (hsorted : BTree.Sorted F64.rank (fun s => s.isNaN = false) scores) {s : F64}
    (hs : s.isNaN = false) {m : Bytes} (hin : ∃ p ∈ scores, p.1.rank = s.rank ∧ m ∈ p.2)
    (honly : ∀ p ∈ scores, m ∈ p.2 → p.1.rank = s.rank) (n : ℕ) :
    Databases.rankLoop s m scores n = some (n + (inOrder scores).idxOf m) := by
  induction scores generalizing n with
  | nil =>
    obtain ⟨p, hp, -⟩ := hin
    cases hp
  | cons p scores ih =>
    obtain ⟨score, set⟩ := p
    have hscore : score.isNaN = false := hsorted.1 _ List.mem_cons_self
    obtain ⟨q, hq, hqrank, hqm⟩ := hin
    have hhead := (List.pairwise_cons.mp hsorted.2).1
    rw [Databases.rankLoop, inOrder, List.flatMap_cons]
    rcases List.mem_cons.mp hq with rfl | hq
    · have hnlt : score.lt s = false := by
        rw [← Bool.not_eq_true, F64.lt_iff hscore hs]
        exact hqrank.not_lt
      have hmem : m ∈ set.keys := AList.mem_keys.mp hqm
      rw [hnlt, if_neg Bool.false_ne_true, if_pos ((F64.eq_iff hscore hs).mpr hqrank),
        length_takeWhile_ne hmem, List.idxOf_append_of_mem hmem]
    · have hlt : score.rank < s.rank := hqrank ▸ hhead q hq
      have hnot : m ∉ set.keys := fun hmem =>
        hlt.ne (honly _ List.mem_cons_self (AList.mem_keys.mpr hmem))
      have hlen : set.size = set.keys.length := (List.length_map _).symm
      rw [if_pos ((F64.lt_iff hscore hs).mpr hlt),
        ih hsorted.tail ⟨q, hq, hqrank, hqm⟩ (fun p hp => honly p (List.mem_cons_of_mem _ hp)),
        List.idxOf_append_of_notMem hnot, hlen, Nat.add_assoc, inOrder]

namespace ZsetAgrees

variable {members : HashMap Bytes F64} {scores : Scores} (h : ZsetAgrees members scores)

include h

/-- **The rank of a member** is its index in the index. -/
theorem rankLoop {m : Bytes} {s : F64} (hm : members.lookup m = some s) :
    Databases.rankLoop s m scores 0 = some ((inOrder scores).idxOf m) := by
  have hloop := rankLoop_eq h.index.sorted (h.numbers m s hm) (h.exists_bucket hm)
    (fun p hp hmem => by
      obtain ⟨s', hs', hrank⟩ := h.score_of_mem hp hmem
      rw [Option.some.inj (hm.symm.trans hs'), hrank]) 0
  rwa [Nat.zero_add] at hloop

theorem mem_inOrder {m : Bytes} : m ∈ inOrder scores ↔ ∃ s, members.lookup m = some s := by
  rw [inOrder, List.mem_flatMap]
  constructor
  · rintro ⟨p, hp, hm⟩
    obtain ⟨s, hs, -⟩ := h.score_of_mem hp (AList.mem_keys.mpr hm)
    exact ⟨s, hs⟩
  · rintro ⟨s, hs⟩
    obtain ⟨p, hp, -, hm⟩ := h.exists_bucket hs
    exact ⟨p, hp, AList.mem_keys.mp hm⟩

end ZsetAgrees

/-! ### Positions -/

/-- The bounds that `zrange` hands on. -/
def allScores : ScoreBound × ScoreBound := (⟨.negInfinity, true⟩, ⟨.infinity, true⟩)

/-- Only the infinite scores lie outside the bounds of `zrange`. -/
theorem inRange_allScores {s : F64} (hs : s.isNaN = false) :
    inRange allScores.1 allScores.2 s = !s.isInfinite := by
  have hlt : F64.negInfinity.lt s = true ↔ -(0x7FF * 2 ^ 52 : ℤ) < s.rank :=
    F64.lt_iff (by decide) hs
  have hlt' : s.lt F64.infinity = true ↔ s.rank < (0x7FF * 2 ^ 52 : ℤ) := F64.lt_iff hs (by decide)
  have hmag : s.magnitude ≤ 0x7FF * 2 ^ 52 := by
    simpa [F64.isNaN] using hs
  have hrange : inRange allScores.1 allScores.2 s = (F64.negInfinity.lt s && s.lt F64.infinity) :=
    rfl
  rw [hrange, Bool.eq_iff_iff, Bool.and_eq_true, hlt, hlt', F64.rank, Bool.not_eq_true',
    F64.isInfinite, decide_eq_false_iff_not]
  split_ifs <;> omega

namespace ZsetAgrees

variable {members : HashMap Bytes F64} {scores : Scores} (h : ZsetAgrees members scores)

include h

/-- A member has a position if and only if its score is finite. -/
theorem mem_rangeItems_all {m : Bytes} :
    m ∈ (rangeItems allScores.1 allScores.2 scores).map Prod.fst ↔
      ∃ s, members.lookup m = some s ∧ s.isInfinite = false := by
  rw [h.mem_rangeItems (by decide) (by decide)]
  constructor
  · rintro ⟨s, hs, hin⟩
    rw [inRange_allScores (h.numbers m s hs), Bool.not_eq_true'] at hin
    exact ⟨s, hs, hin⟩
  · rintro ⟨s, hs, hfin⟩
    exact ⟨s, hs, by rw [inRange_allScores (h.numbers m s hs), hfin, Bool.not_false]⟩

/-- Without infinite scores the positions are the indices in the index. -/
theorem rangeItems_all (hfin : ∀ m s, members.lookup m = some s → s.isInfinite = false) :
    rangeItems allScores.1 allScores.2 scores = scores.flatMap Databases.bucketItems := by
  rw [rangeItems, List.filter_eq_self.mpr]
  intro p hp
  obtain ⟨m, hm⟩ := h.index.nonempty p hp
  obtain ⟨s, hs, hrank⟩ := h.score_of_mem hp hm
  rw [← inRange_congr (by decide) (by decide) (h.numbers m s hs) (h.index.sorted.1 p hp) hrank,
    inRange_allScores (h.numbers m s hs), hfin m s hs, Bool.not_false]

/-- Without infinite scores there are as many positions as members. -/
theorem length_rangeItems_all (hfin : ∀ m s, members.lookup m = some s → s.isInfinite = false) :
    (rangeItems allScores.1 allScores.2 scores).length = members.size := by
  rw [← h.length_rangeItems (by decide) (by decide), List.filter_eq_self.mpr,
    HashMap.length_pairs]
  rintro ⟨m, s⟩ hp
  have hs := HashMap.mem_pairs.mp hp
  rw [inRange_allScores (h.numbers m s hs), hfin m s hs, Bool.not_false]

/-- There are at most as many positions as members. -/
theorem length_rangeItems_le :
    (rangeItems allScores.1 allScores.2 scores).length ≤ members.size := by
  rw [← h.length_rangeItems (by decide) (by decide), ← HashMap.length_pairs]
  exact List.length_filter_le _ _

end ZsetAgrees

theorem map_fst_bucketItems (scores : Scores) :
    (scores.flatMap Databases.bucketItems).map Prod.fst = inOrder scores := by
  have hbucket : ∀ p : F64 × HashSet Bytes, (Databases.bucketItems p).map Prod.fst = p.2.keys := by
    intro p
    rw [Databases.bucketItems, List.map_map]
    exact List.map_id _
  rw [List.map_flatMap, inOrder]
  exact List.flatMap_congr fun p _ => hbucket p

/-! ### Agreement -/

/-- In a list without repetitions an element has one index. -/
theorem getElem?_eq_some_iff_idxOf {l : List Bytes} (hnd : l.Nodup) {m : Bytes} {n : ℕ} :
    l[n]? = some m ↔ m ∈ l ∧ l.idxOf m = n := by
  constructor
  · intro hget
    obtain ⟨hn, rfl⟩ := List.getElem?_eq_some_iff.mp hget
    exact ⟨List.getElem_mem hn, hnd.idxOf_getElem n hn⟩
  · rintro ⟨hm, rfl⟩
    exact List.getElem?_idxOf hm

section Agreement

variable {now : UInt64} {dbs : Databases} {i : ℕ} {k : Bytes} {e : Entry}
  {members : HashMap Bytes F64} {scores : Scores}
  (he : dbs.liveEntry now i k = some e) (hv : e.value = .zset members scores)
  (h : ZsetAgrees members scores)

include he hv

theorem zcard_eq : dbs.zcard now i k = .ok members.size := by
  have hunwrap : Kind.zset.unwrap e.value = some (members, scores) := by rw [hv]; rfl
  rw [Databases.zcard, Databases.readAs_some he hunwrap]

include h

theorem zrank_eq (m : Bytes) : dbs.zrank now i k m
    = .ok ((members.lookup m).map fun _ => (inOrder scores).idxOf m) := by
  have hunwrap : Kind.zset.unwrap e.value = some (members, scores) := by rw [hv]; rfl
  rw [Databases.zrank, Databases.readAs_some he hunwrap]
  cases hm : members.lookup m with
  | none => rfl
  | some s => exact congrArg Except.ok (h.rankLoop hm)

theorem zrange_eq (hsize : members.size < 2 ^ 63) (start stop : Int64) (withscores : Bool) :
    dbs.zrange now i k start stop withscores
      = .ok (slice ((rangeItems allScores.1 allScores.2 scores).map (Databases.scored withscores))
          start stop) := by
  have hlen := h.length_rangeItems_le
  have hall : dbs.zrangeByScore now i k ⟨.negInfinity, true⟩ ⟨.infinity, true⟩ withscores none
      = .ok ((rangeItems allScores.1 allScores.2 scores).map (Databases.scored withscores)) := by
    rw [Databases.zrangeByScore_eq he hv h (by decide), Option.getD_none, page, List.drop_zero,
      List.take_of_length_le]
    · rfl
    · rw [List.length_map, usizeMax]
      exact hlen.trans (by omega)
  rw [Databases.zrange, hall]
  rfl

/-- The index of a member in the list is its rank. -/
theorem zrank_eq_some_iff {m : Bytes} {n : ℕ} : dbs.zrank now i k m = .ok (some n) ↔
    m ∈ inOrder scores ∧ (inOrder scores).idxOf m = n := by
  rw [zrank_eq he hv h, h.mem_inOrder]
  cases members.lookup m with
  | none => simp
  | some s => simp

/-- Without infinite scores the member at an index is the one at that position. -/
theorem zrange_one_iff (hsize : members.size < 2 ^ 63)
    (hfin : ∀ m s, members.lookup m = some s → s.isInfinite = false) {m : Bytes} {n : ℕ}
    (hn : n < 2 ^ 63) :
    dbs.zrange now i k (Int64.ofNat n) (Int64.ofNat n) false = .ok [(m, none)] ↔
      (inOrder scores)[n]? = some m := by
  have hlen := h.length_rangeItems_le.trans_lt hsize
  have hone : dbs.zrange now i k (Int64.ofNat n) (Int64.ofNat n) false
      = .ok (((inOrder scores)[n]?.map fun m => (m, none)).toList) := by
    rw [zrange_eq he hv h hsize, slice_one (by rwa [List.length_map]) hn, h.rangeItems_all hfin,
      ← map_fst_bucketItems, List.getElem?_map, List.getElem?_map, Option.map_map]
    rfl
  rw [hone]
  cases (inOrder scores)[n]? with
  | none => simp
  | some m' => simp

theorem zrange_all (hsize : members.size < 2 ^ 63) (withscores : Bool) :
    dbs.zrange now i k 0 (-1) withscores
      = .ok ((rangeItems allScores.1 allScores.2 scores).map (Databases.scored withscores)) := by
  have hlen := h.length_rangeItems_le.trans_lt hsize
  rw [zrange_eq he hv h hsize, slice_all (by rwa [List.length_map])]

end Agreement

/-- What `ZRANGE key 0 -1` answers: `items` are the members with their scores. -/
structure RangeLists (now : UInt64) (dbs : Databases) (i : ℕ) (k : Bytes)
    (members : HashMap Bytes F64) (items : List (Bytes × F64)) : Prop where
  answer : ∀ withscores, dbs.zrange now i k 0 (-1) withscores
    = .ok (items.map (Databases.scored withscores))
  nodup : (items.map Prod.fst).Nodup
  mem : ∀ m, m ∈ items.map Prod.fst ↔ m ∈ members
  score : ∀ p ∈ items, ∃ s, members.lookup p.1 = some s ∧ s.rank = p.2.rank
  sorted : items.Pairwise fun p q => p.2.rank ≤ q.2.rank
  card : dbs.zcard now i k = .ok items.length

/-- `ZRANGE`, `ZCARD` and `ZRANK` agree on a sorted set. -/
structure RanksAgree (now : UInt64) (dbs : Databases) (i : ℕ) (k : Bytes)
    (members : HashMap Bytes F64) : Prop where
  all : ∃ items, RangeLists now dbs i k members items
  rank : ∀ (m : Bytes) (n : ℕ), n < 2 ^ 63 → (dbs.zrank now i k m = .ok (some n) ↔
    dbs.zrange now i k (Int64.ofNat n) (Int64.ofNat n) false = .ok [(m, none)])

/-- **Ranks, positions and cardinality.** In every keyspace that `ZADD` and `ZREM` lead to, the
three agree on a sorted set if and only if none of its scores is infinite. A hash map has less than
`2 ^ 63` entries. -/
theorem ranks_agree_iff {ks : Keyspace} (hb : ZsetBuilt ks) {now : UInt64} {i : ℕ} {k : Bytes}
    {e : Entry} (he : ks.databases.liveEntry now i k = some e) {members : HashMap Bytes F64}
    {scores : Scores} (hv : e.value = .zset members scores) (hsize : members.size < 2 ^ 63) :
    RanksAgree now ks.databases i k members ↔
      ∀ m s, members.lookup m = some s → s.isInfinite = false := by
  have h : ZsetAgrees members scores := by
    have hvalue := hb.allAgree i k e (Option.filter_eq_some_iff.mp he).1
    rw [hv] at hvalue
    exact hvalue
  have hall := zrange_all he hv h hsize
  constructor
  · intro hagree m s hs
    obtain ⟨items, hitems⟩ := hagree.all
    have hm : m ∈ items.map Prod.fst := (hitems.mem m).mpr (AList.lookup_isSome.mp (by rw [hs]; rfl))
    have hsame := Except.ok.inj ((hitems.answer false).symm.trans (hall false))
    have hfst : items.map Prod.fst = (rangeItems allScores.1 allScores.2 scores).map Prod.fst := by
      have hmap := congrArg (List.map Prod.fst) hsame
      rwa [List.map_map, List.map_map] at hmap
    rw [hfst, h.mem_rangeItems_all] at hm
    obtain ⟨s', hs', hfin⟩ := hm
    rwa [Option.some.inj (hs.symm.trans hs')]
  · intro hfin
    refine ⟨⟨rangeItems allScores.1 allScores.2 scores, ?_⟩, fun m n hn => ?_⟩
    · exact {
        answer := hall
        nodup := h.nodup_rangeItems _ _
        mem := fun m => by
          rw [h.mem_rangeItems_all, ← AList.lookup_isSome, Option.isSome_iff_exists]
          exact exists_congr fun s => and_iff_left_of_imp (hfin m s)
        score := fun p hp => h.score_of_mem_rangeItems hp
        sorted := h.pairwise_rangeItems _ _
        card := by rw [zcard_eq he hv, h.length_rangeItems_all hfin] }
    · have hnd : (inOrder scores).Nodup := by
        rw [← map_fst_bucketItems, ← h.rangeItems_all hfin]
        exact h.nodup_rangeItems _ _
      rw [zrank_eq_some_iff he hv h, zrange_one_iff he hv h hsize hfin hn,
        getElem?_eq_some_iff_idxOf hnd]

/-- `ZADD z 1 a -1 b 1 c`, with two members of one score. -/
theorem ranks_agree_iff_tied :
    let op := ZsetOp.zadd 0 [122] [(⟨0x3FF0000000000000⟩, [97]), (⟨0xBFF0000000000000⟩, [98]),
      (⟨0x3FF0000000000000⟩, [99])]
    let ks := (op.run { databases := (Store.new 1).databases }).2
    ∃ e members scores, ks.databases.liveEntry 0 0 [122] = some e ∧
      e.value = .zset members scores ∧ (RanksAgree 0 ks.databases 0 [122] members ↔
        ∀ m s, members.lookup m = some s → s.isInfinite = false) := by
  intro op ks
  have hop : op.Numbers := by
    rw [ZsetOp.Numbers]
    decide
  exact ⟨_, _, _, rfl, rfl, ranks_agree_iff (.run (.start 1) hop) rfl rfl (by decide +kernel)⟩

/-- `ZADD z inf a`: the member has a rank and is counted, but it has no position. -/
theorem infinite_score_has_no_position :
    let op := ZsetOp.zadd 0 [122] [(F64.infinity, [97])]
    let ks := (op.run { databases := (Store.new 1).databases }).2
    op.Numbers ∧ ks.databases.zcard 0 0 [122] = .ok 1 ∧
      ks.databases.zrank 0 0 [122] [97] = .ok (some 0) ∧
      ks.databases.zrange 0 0 [122] 0 0 false = .ok [] ∧
      ∃ e members scores, ks.databases.liveEntry 0 0 [122] = some e ∧
        e.value = .zset members scores ∧ ¬ RanksAgree 0 ks.databases 0 [122] members := by
  intro op ks
  have hop : op.Numbers := by
    rw [ZsetOp.Numbers]
    decide
  have hcard : ks.databases.zcard 0 0 [122] = .ok 1 := rfl
  have hrange : ks.databases.zrange 0 0 [122] 0 0 false = .ok [] := by decide +kernel
  have hrank : ks.databases.zrank 0 0 [122] [97] = .ok (some 0) := by decide +kernel
  refine ⟨hop, hcard, hrank, hrange, _, _, _, rfl, rfl, fun hagree => ?_⟩
  have hone := (hagree.rank [97] 0 (by norm_num)).mp hrank
  have hnone := hrange.symm.trans hone
  cases hnone

end VeloDB
