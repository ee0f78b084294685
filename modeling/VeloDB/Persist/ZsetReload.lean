import VeloDB.Persist.RdbRoundTrip
import VeloDB.Store.ZsetIndex

/-!
# Sorted sets along their life

A sorted set comes into being empty, under `ZADD`, or is decoded from a snapshot; from then on it is
changed by `ZADD` and `ZREM`. In all the states this leads to, the two indexes agree and the range
queries answer from both of them alike.

## Main results

* `agrees_decodeEntry` — a decoded sorted set
* `zset_indexes_agree` — every sorted set that can be reached
-/

namespace VeloDB

open Rust Cursor

/-! ### Decoding -/

/-- The loop of the decoder, over members that come once each. -/
theorem agrees_foldl {l : List (Bytes × F64)} (hnd : (l.map Prod.fst).Nodup)
    (hnan : ∀ p ∈ l, p.2.isNaN = false) {z : HashMap Bytes F64 × Scores}
    (hz : ZsetAgrees z.1 z.2) (hfresh : ∀ p ∈ l, z.1.lookup p.1 = none) :
    ZsetAgrees (l.foldl StorageValue.addMember z).1 (l.foldl StorageValue.addMember z).2 :=
  StorageValue.foldl_addMember (fun h hs hm => h.insert hs hm) hnd hnan hz hfresh

/-- The bytes of one member. -/
def writeMember (p : Bytes × F64) : Bytes := writeF64Le p.2 ++ writeBytesLen p.1

/-- What is decoded from a saved sorted set: as many of its members as its count says, which is
written modulo `2 ^ 32`. -/
theorem decodeEntry_zset {key : Bytes} (hkey : Fits key.length) {members : HashMap Bytes F64}
    (hm : ∀ p ∈ members.pairs, Fits p.1.length) (scores : Scores) (rest : Bytes) :
    let l := sortByScore members
    let n := members.size % 2 ^ 32
    let z := (l.take n).foldl StorageValue.addMember (∅, [])
    decodeEntry (encodeEntry key (.zset members scores) ++ rest)
      = .ok ((key, .zset z.1 z.2), (l.drop n).flatMap writeMember ++ rest) := by
  intro l n z
  have hperm := sortByScore_perm members
  have hlen : l.length = members.size := by rw [hperm.length_eq, members.length_pairs]
  have hn : (l.take n).length = n := by
    rw [List.length_take, hlen]
    exact Nat.min_eq_left (Nat.mod_le _ _)
  have hcount : writeU32Be members.size = writeU32Be n := by
    rw [writeU32Be, writeU32Be, Nat.mod_mod]
  have hfits : Fits n := Nat.mod_lt _ (by norm_num)
  have hitem : ∀ (z : HashMap Bytes F64 × Scores), ∀ p ∈ l.take n,
      Cursor.Reads (do
        let score ← readF64Le
        let member ← readBytesLen
        pure (z.1.insert member score, z.2.insert score member)) (writeMember p)
        (StorageValue.addMember z p) := by
    intro z p hp
    have hp := hm p (hperm.mem_iff.mp (List.mem_of_mem_take hp))
    exact (reads_f64Le p.2).bind ((reads_bytesLen hp).map fun m =>
      (z.1.insert m p.2, z.2.insert p.2 m))
  have hloop := reads_loopN hitem ((∅, []) : HashMap Bytes F64 × Scores)
  rw [hn] at hloop
  have hvalue : Cursor.Reads (decodeValue typeZset) (writeU32Be n ++ (l.take n).flatMap writeMember)
      (.zset z.1 z.2) := (reads_u32Be hfits).bind (hloop.map fun z => StorageValue.zset z.1 z.2)
  have hentry : Cursor.Reads decodeEntry
      (typeZset :: (writeBytesLen key ++ (writeU32Be n ++ (l.take n).flatMap writeMember)))
      (key, .zset z.1 z.2) :=
    fun rest => (reads_bytesLen hkey).bind (hvalue.map fun value => (key, value)) rest
  have hsplit : encodeEntry key (.zset members scores) ++ rest
      = (typeZset :: (writeBytesLen key ++ (writeU32Be n ++ (l.take n).flatMap writeMember))) ++
          ((l.drop n).flatMap writeMember ++ rest) := by
    have hall : l.flatMap writeMember
        = (l.take n).flatMap writeMember ++ (l.drop n).flatMap writeMember := by
      rw [← List.flatMap_append, List.take_append_drop]
    have henc : encodeEntry key (.zset members scores)
        = typeZset :: (writeBytesLen key ++ (writeU32Be members.size ++ l.flatMap writeMember)) :=
      rfl
    rw [henc, hcount, hall]
    simp only [List.cons_append, List.append_assoc]
  rw [hsplit, hentry]

/-- **A decoded sorted set.** -/
theorem agrees_decodeEntry {key : Bytes} (hkey : Fits key.length) {members : HashMap Bytes F64}
    (hm : ∀ p ∈ members.pairs, Fits p.1.length ∧ p.2.isNaN = false) {scores : Scores}
    {rest rest' : Bytes} {kv : Bytes × StorageValue}
    (h : decodeEntry (encodeEntry key (.zset members scores) ++ rest) = .ok (kv, rest')) :
    kv.2.Agrees := by
  have hperm := sortByScore_perm members
  have hdecoded := decodeEntry_zset hkey (fun p hp => (hm p hp).1) scores rest
  obtain ⟨rfl, -⟩ := Prod.mk.inj (Except.ok.inj (h.symm.trans hdecoded))
  refine agrees_foldl ?_ (fun p hp => ?_) ZsetAgrees.empty (fun p _ => AList.lookup_empty p.1)
  · have hnd := (hperm.map Prod.fst).nodup_iff.mpr members.nodup_pairs
    exact hnd.sublist ((List.take_sublist _ _).map _)
  · exact (hm p (hperm.mem_iff.mp (List.mem_of_mem_take hp))).2

/-! ### Every reachable sorted set -/

theorem Keyspace.setWithEntry_cases (i : ℕ) (k : Bytes) (v : StorageValue) (at_ : Option UInt64)
    (ks : Keyspace) :
    (setWithEntry i k v at_ ks).2 = ks ∨ ∃ version, (setWithEntry i k v at_ ks).2
      = ⟨ks.databases.put i k { value := v, expireAt := at_, version := version }, ks.notified⟩ := by
  obtain ⟨dbs, notified⟩ := ks
  by_cases hi : i < dbs.length
  · rw [setWithEntry, Proc.bind_ok (read_db hi notified)]
    cases dbs[i].lookup k with
    | none => exact Or.inr ⟨0, rfl⟩
    | some e => exact Or.inr ⟨e.version + 1, rfl⟩
  · obtain ⟨e, he⟩ := read_db_error (Nat.le_of_not_lt hi) notified
    rw [setWithEntry, Proc.bind_error he]
    exact Or.inl rfl

/-- The keyspaces that `ZADD`, `ZREM` and the decoding of saved sorted sets lead to. -/
inductive ZsetReach : Keyspace → Prop
  | start (n : ℕ) : ZsetReach { databases := (Store.new n).databases }
  | run {ks : Keyspace} (h : ZsetReach ks) {op : ZsetOp} (hop : op.Numbers) :
    ZsetReach (op.run ks).2
  | load {ks : Keyspace} (h : ZsetReach ks) (i : ℕ) (at_ : Option UInt64) {key : Bytes}
    (hkey : Fits key.length) {members : HashMap Bytes F64}
    (hm : ∀ p ∈ members.pairs, Fits p.1.length ∧ p.2.isNaN = false) {scores : Scores}
    {rest rest' : Bytes} {kv : Bytes × StorageValue}
    (hdec : decodeEntry (encodeEntry key (.zset members scores) ++ rest) = .ok (kv, rest')) :
    ZsetReach (Keyspace.setWithEntry i kv.1 kv.2 at_ ks).2

theorem ZsetReach.allAgree {ks : Keyspace} (h : ZsetReach ks) : ks.databases.AllAgree := by
  induction h with
  | start n =>
    intro i k e he
    rw [Databases.find_new] at he
    cases he
  | run _ hop ih => exact allAgree_run hop ih
  | @load ks _ i at_ key hkey members hm scores rest rest' kv hdec ih =>
    rcases Keyspace.setWithEntry_cases i kv.1 kv.2 at_ ks with hsame | ⟨version, hput⟩
    · rw [hsame]
      exact ih
    · rw [hput]
      exact ih.put (agrees_decodeEntry hkey hm hdec)

/-- The two indexes of a sorted set say the same: scores are compared by their `rank`, in which the
two zeros are one. -/
structure IndexesAgree (members : HashMap Bytes F64) (scores : Scores) : Prop where
  bucket : ∀ (m : Bytes) (s : F64), (∃ s', members.lookup m = some s' ∧ s'.rank = s.rank) ↔
    ∃ p ∈ scores, p.1.rank = s.rank ∧ m ∈ p.2
  unique : ∀ m s, members.lookup m = some s → ∃! p, p ∈ scores ∧ m ∈ p.2
  nonempty : ∀ p ∈ scores, ∃ m, m ∈ p.2

theorem ZsetAgrees.indexesAgree {members : HashMap Bytes F64} {scores : Scores}
    (h : ZsetAgrees members scores) : IndexesAgree members scores where
  bucket := fun m s => by
    constructor
    · rintro ⟨s', hs', hrank⟩
      obtain ⟨p, hp, hprank, hmem⟩ := h.exists_bucket hs'
      exact ⟨p, hp, hprank.trans hrank, hmem⟩
    · rintro ⟨p, hp, hrank, hmem⟩
      obtain ⟨s', hs', hrank'⟩ := h.score_of_mem hp hmem
      exact ⟨s', hs', hrank'.trans hrank⟩
  unique := fun _ _ hm => h.existsUnique_bucket hm
  nonempty := h.index.nonempty

/-- What the range queries answer at a key: `items` are the members in the range with their
scores. -/
structure RangeAnswers (now : UInt64) (dbs : Databases) (i : ℕ) (k : Bytes)
    (members : HashMap Bytes F64) (lo hi : ScoreBound) (items : List (Bytes × F64)) : Prop where
  sorted : items.Pairwise fun p q => p.2.rank ≤ q.2.rank
  nodup : (items.map Prod.fst).Nodup
  score : ∀ p ∈ items, ∃ s, members.lookup p.1 = some s ∧ s.rank = p.2.rank
  mem : ∀ m, m ∈ items.map Prod.fst ↔ ∃ s, members.lookup m = some s ∧ inRange lo hi s = true
  all : ∀ withscores, dbs.zrangeByScore now i k lo hi withscores none
    = .ok (items.map (Databases.scored withscores))
  count : dbs.zcount now i k lo hi = .ok items.length
  limit : ∀ withscores offset count, dbs.zrangeByScore now i k lo hi withscores
    (some (offset, count)) = .ok (((items.map (Databases.scored withscores)).drop offset).take count)

/-- **Sorted sets.** In every keyspace that can be reached the two indexes of a sorted set agree,
and for all bounds the range queries answer alike. The size of a hash map is a `usize`. -/
theorem zset_indexes_agree {ks : Keyspace} (h : ZsetReach ks) {now : UInt64} {i : ℕ} {k : Bytes}
    {e : Entry} (he : ks.databases.liveEntry now i k = some e) {members : HashMap Bytes F64}
    {scores : Scores} (hv : e.value = .zset members scores) (hsize : members.size ≤ usizeMax) :
    IndexesAgree members scores ∧ ∀ lo hi : ScoreBound, lo.value.le hi.value = true →
      ∃ items, RangeAnswers now ks.databases i k members lo hi items := by
  have hfind := (Option.filter_eq_some_iff.mp he).1
  have hagrees : ZsetAgrees members scores := by
    have hvalue := h.allAgree i k e hfind
    rw [hv] at hvalue
    exact hvalue
  refine ⟨hagrees.indexesAgree, fun lo hi hle => ⟨rangeItems lo hi scores, ?_⟩⟩
  obtain ⟨hlo, hhi⟩ := F64.isNaN_of_le hle
  have hlen : (rangeItems lo hi scores).length ≤ usizeMax := by
    rw [← hagrees.length_rangeItems hlo hhi]
    exact ((List.length_filter_le _ _).trans members.length_pairs.le).trans hsize
  exact {
    sorted := hagrees.pairwise_rangeItems lo hi
    nodup := hagrees.nodup_rangeItems lo hi
    score := fun p hp => hagrees.score_of_mem_rangeItems hp
    mem := fun m => hagrees.mem_rangeItems hlo hhi
    all := fun withscores => by
      rw [Databases.zrangeByScore_eq he hv hagrees hle, Option.getD_none, page, List.drop_zero,
        List.take_of_length_le (by rwa [List.length_map])]
    count := Databases.zcount_eq he hv hagrees hle
    limit := fun withscores offset count => Databases.zrangeByScore_eq he hv hagrees hle _ _ }

/-- `ZADD z 1 a 0 b -0 c`, with the two zeros in one bucket. -/
theorem zset_indexes_agree_zeros :
    let op := ZsetOp.zadd 0 [122] [(⟨0x3FF0000000000000⟩, [97]), (⟨0⟩, [98]),
      (⟨0x8000000000000000⟩, [99])]
    let ks := (op.run { databases := (Store.new 1).databases }).2
    ∃ e members scores, ks.databases.liveEntry 0 0 [122] = some e ∧
      e.value = .zset members scores ∧ members.size = 3 ∧ scores.length = 2 ∧
      IndexesAgree members scores ∧ ∀ lo hi : ScoreBound, lo.value.le hi.value = true →
        ∃ items, RangeAnswers 0 ks.databases 0 [122] members lo hi items := by
  intro op ks
  have hop : op.Numbers := by
    rw [ZsetOp.Numbers]
    decide
  refine ⟨_, _, _, rfl, rfl, by decide +kernel, by decide +kernel, ?_⟩
  exact zset_indexes_agree (.run (.start 1) hop) rfl rfl (by decide +kernel)

end VeloDB
