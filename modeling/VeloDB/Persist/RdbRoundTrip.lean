import VeloDB.Persist.Rdb

/-!
# Snapshots: the round trip

What `save_rdb` writes, `load_rdb` reads back. One entry is followed through the decoder field by
field with `Cursor.Reads`; the loop over the opcodes is followed with `Loads`, which takes the
loader from one state to another over a piece of the file, whatever comes behind it.

## Main results

* `reads_decodeEntry` — one entry, for all seven kinds of values
* `loads_writeDbs` — the sections of the databases, one after the other
* `loadRdb_saveRdb` — a whole snapshot
-/

namespace VeloDB

open Rust Cursor

/-! ### Fields -/

/-- A length that fits its four bytes. -/
abbrev Fits (n : ℕ) : Prop := n < 2 ^ 32

theorem reads_u32Be {n : ℕ} (h : Fits n) : Reads readU32Be (writeU32Be n) n := by
  have hn : n % 2 ^ 32 = n := Nat.mod_eq_of_lt h
  have hread := (reads_takeN LoadError.panic (length_beBytes 4 n)).map fun b => ofLeBytes b.reverse
  rw [ofLeBytes_reverse_beBytes (by simpa using h)] at hread
  rw [writeU32Be, hn]
  exact hread

theorem reads_u64Le (v : UInt64) : Reads readU64Le (writeU64Le v) v := by
  have hread := (reads_takeN LoadError.panic (length_leBytes 8 v.toNat)).map
    fun b => UInt64.ofNat (ofLeBytes b)
  rw [ofLeBytes_leBytes (by simpa using v.toNat_lt), UInt64.ofNat_toNat] at hread
  exact hread

theorem reads_f64Le (d : F64) : Reads readF64Le (writeF64Le d) d := (reads_u64Le d.bits).map F64.mk

theorem reads_bytesLen {b : Bytes} (h : Fits b.length) : Reads readBytesLen (writeBytesLen b) b :=
  (reads_u32Be h).bind (reads_takeN LoadError.panic rfl)

/-- Both halves of a pair fit. -/
def PairFits (p : Bytes × Bytes) : Prop := Fits p.1.length ∧ Fits p.2.length

instance : DecidablePred PairFits := fun _ => inferInstanceAs (Decidable (_ ∧ _))

theorem reads_pair {p : Bytes × Bytes} (h : PairFits p) : Reads readPair (writePair p) p :=
  (reads_bytesLen h.1).bind ((reads_bytesLen h.2).map fun v => (p.1, v))

/-- A loop that appends what it reads. -/
theorem reads_loopN_append {α : Type} {item : RdbM α} {enc : α → Bytes} {xs : List α}
    (h : ∀ x ∈ xs, Reads item (enc x) x) :
    Reads (loopN xs.length [] fun l => do let x ← item; pure (l ++ [x])) (xs.flatMap enc) xs := by
  have hfold : ∀ (ys acc : List α), ys.foldl (fun l x => l ++ [x]) acc = acc ++ ys := by
    intro ys
    induction ys with
    | nil => simp
    | cons y ys ih => simp [ih]
  have hloop := reads_loopN (fun l x hx => (h x hx).map fun x => l ++ [x]) []
  rwa [hfold] at hloop

theorem reads_hash {m : HashMap Bytes Bytes} (hsize : Fits m.size) (h : ∀ p ∈ m.pairs, PairFits p) :
    Reads readHash (writeU32Be m.size ++ m.pairs.flatMap writePair)
      (HashMap.insertAll ∅ m.pairs) := by
  refine (reads_u32Be hsize).bind ?_
  rw [← m.length_pairs]
  exact reads_loopN (fun b p hp => (reads_pair (h p hp)).map fun p => b.insert p.1 p.2) ∅

/-- Every part of a stream entry fits. -/
def StreamEntry.FitsAll (e : StreamEntry) : Prop := Fits e.fields.length ∧ ∀ p ∈ e.fields, PairFits p

instance : DecidablePred StreamEntry.FitsAll := fun _ => inferInstanceAs (Decidable (_ ∧ _))

theorem reads_streamEntry {e : StreamEntry} (h : e.FitsAll) :
    Reads readStreamEntry (writeStreamEntry e) e := by
  refine (reads_u64Le e.idMs).bind ((reads_u64Le e.idSeq).bind ((reads_u32Be h.1).bind ?_))
  exact (reads_loopN_append fun p hp => reads_pair (h.2 p hp)).map fun fields =>
    StreamEntry.mk e.idMs e.idSeq fields

/-! ### Values -/

namespace StorageValue

/-- Every byte string and collection of a value fits its length field. -/
def FitsAll : StorageValue → Prop
  | string v => Fits v.length
  | list l => Fits l.length ∧ ∀ x ∈ l, Fits x.length
  | set s => Fits s.size ∧ ∀ x ∈ s.keys, Fits x.length
  | hash h => Fits h.size ∧ ∀ p ∈ h.pairs, PairFits p
  | zset members _ => Fits members.size ∧ ∀ p ∈ members.pairs, Fits p.1.length
  | stream entries _ _ => Fits entries.length ∧ ∀ e ∈ entries, e.FitsAll
  | nestedHash nh => Fits nh.size ∧
      ∀ p ∈ nh.pairs, Fits p.1.length ∧ Fits p.2.size ∧ ∀ q ∈ p.2.pairs, PairFits q

/-- No score is a NaN. -/
def NoNaN : StorageValue → Prop
  | zset members _ => ∀ p ∈ members.pairs, p.2.isNaN = false
  | _ => True

instance : DecidablePred FitsAll
  | string _ => inferInstanceAs (Decidable (Fits _))
  | list _ | set _ | hash _ | zset _ _ | stream _ _ _ | nestedHash _ =>
    inferInstanceAs (Decidable (_ ∧ _))

instance : DecidablePred NoNaN
  | zset members _ => inferInstanceAs (Decidable (∀ p ∈ members.pairs, p.2.isNaN = false))
  | string _ | list _ | set _ | hash _ | stream _ _ _ | nestedHash _ =>
    inferInstanceAs (Decidable True)

/-- One turn of the decoder's loop over a sorted set. -/
def addMember (z : HashMap Bytes F64 × Scores) (p : Bytes × F64) : HashMap Bytes F64 × Scores :=
  (z.1.insert p.1 p.2, z.2.insert p.2 p.1)

/-- What the decoder builds from an encoded value. -/
def rebuilt : StorageValue → StorageValue
  | set s => .set (s.keys.foldl (fun s m => s.insert m ()) ∅)
  | hash h => .hash (HashMap.insertAll ∅ h.pairs)
  | zset members _ =>
    let z := (sortByScore members).foldl addMember (∅, [])
    .zset z.1 z.2
  | nestedHash nh =>
    .nestedHash (nh.pairs.foldl (fun nh p => nh.insert p.1 (HashMap.insertAll ∅ p.2.pairs)) ∅)
  | v => v

end StorageValue

theorem sortByScore_perm (members : HashMap Bytes F64) :
    (sortByScore members).Perm members.pairs := List.mergeSort_perm ..

/-- The sort is stable: members whose scores have one rank stay in their order. -/
theorem ofRank_sortByScore {members : HashMap Bytes F64}
    (hnan : ∀ p ∈ members.pairs, p.2.isNaN = false) (r : ℤ) :
    ofRank r members.pairs = ofRank r (sortByScore members) := by
  have hsort : sortByScore members
      = members.pairs.mergeSort fun p q => decide (p.2.rank ≤ q.2.rank) := by
    have hmap := List.map_mergeSort (r := fun p q : Bytes × F64 => orderedCmp p.2 q.2 != .gt)
      (s := fun p q => decide (p.2.rank ≤ q.2.rank)) (f := id) (l := members.pairs)
      fun p hp q hq => by
        rw [orderedCmp_eq _ _ (hnan p hp) (hnan q hq), id_eq, id_eq, Bool.eq_iff_iff, bne_iff_ne,
          ne_eq, compare_gt_iff_gt, decide_eq_true_eq, not_lt]
    rwa [List.map_id, List.map_id] at hmap
  have hsub : (ofRank r members.pairs).Sublist (sortByScore members) := by
    rw [hsort]
    refine List.sublist_mergeSort (fun a b c hab hbc => ?_) (fun a b => ?_) ?_ List.filter_sublist
    · rw [decide_eq_true_eq] at hab hbc ⊢
      exact hab.trans hbc
    · rw [Bool.or_eq_true, decide_eq_true_eq, decide_eq_true_eq]
      exact le_total _ _
    · refine List.pairwise_iff_forall_sublist.mpr fun {a b} hab => decide_eq_true ?_
      have hrank : ∀ p ∈ ofRank r members.pairs, p.2.rank = r :=
        fun p hp => of_decide_eq_true (List.mem_filter.mp hp).2
      rw [hrank a (hab.subset List.mem_cons_self), hrank b (hab.subset (by simp))]
  have hfilter := hsub.filter fun p => decide (p.2.rank = r)
  rw [ofRank, List.filter_filter] at hfilter
  simp only [Bool.and_self] at hfilter
  exact hfilter.eq_of_length (((sortByScore_perm members).filter _).length_eq).symm

/-- Members whose scores all compare equal stay in their order. -/
theorem sortByScore_eq_self {members : HashMap Bytes F64}
    (h : ∀ p ∈ members.pairs, ∀ q ∈ members.pairs, orderedCmp p.2 q.2 = .eq) :
    sortByScore members = members.pairs := by
  refine List.mergeSort_of_pairwise (List.pairwise_iff_forall_sublist.mpr fun {p q} hpq => ?_)
  rw [h p (hpq.subset List.mem_cons_self) q (hpq.subset (by simp))]
  rfl

/-- **One entry.** -/
theorem reads_decodeEntry {key : Bytes} (hkey : Fits key.length) {v : StorageValue}
    (hv : v.FitsAll) : Reads decodeEntry (encodeEntry key v) (key, v.rebuilt) := by
  have hentry : ∀ {t : UInt8} {enc : Bytes} {w : StorageValue}, Reads (decodeValue t) enc w →
      Reads decodeEntry (t :: (writeBytesLen key ++ enc)) (key, w) := by
    intro t enc w hw rest
    exact (reads_bytesLen hkey).bind (hw.map fun value => (key, value)) rest
  cases v with
  | string v => exact hentry ((reads_bytesLen hv).map StorageValue.string)
  | list l =>
    refine hentry ((reads_u32Be hv.1).bind ?_)
    exact (reads_loopN_append fun x hx => reads_bytesLen (hv.2 x hx)).map StorageValue.list
  | set s =>
    refine hentry ((reads_u32Be hv.1).bind ?_)
    have hlen : s.size = s.keys.length := (List.length_map _).symm
    rw [hlen]
    exact (reads_loopN (fun b m hm => (reads_bytesLen (hv.2 m hm)).map fun m => b.insert m ())
      ∅).map StorageValue.set
  | hash h => exact hentry ((reads_hash hv.1 hv.2).map StorageValue.hash)
  | zset members scores =>
    refine hentry ((reads_u32Be hv.1).bind ?_)
    have hlen : members.size = (sortByScore members).length := by
      rw [(sortByScore_perm members).length_eq, members.length_pairs]
    rw [hlen]
    refine (reads_loopN (fun z p hp => ?_)
      ((∅, []) : HashMap Bytes F64 × Scores)).map fun z => StorageValue.zset z.1 z.2
    have hp := hv.2 p ((sortByScore_perm members).mem_iff.mp hp)
    exact (reads_f64Le p.2).bind ((reads_bytesLen hp).map fun m =>
      (z.1.insert m p.2, z.2.insert p.2 m))
  | stream entries ms seq =>
    refine hentry ((reads_u32Be hv.1).bind ((reads_u64Le ms).bind ((reads_u64Le seq).bind ?_)))
    exact (reads_loopN_append fun e he => reads_streamEntry (hv.2 e he)).map fun es =>
      StorageValue.stream es ms seq
  | nestedHash nh =>
    refine hentry ((reads_u32Be hv.1).bind ?_)
    rw [← nh.length_pairs]
    refine (reads_loopN (fun b p hp => ?_) ∅).map StorageValue.nestedHash
    obtain ⟨hf, hsize, hpairs⟩ := hv.2 p hp
    exact (reads_bytesLen hf).bind ((reads_hash hsize hpairs).map fun inner => b.insert p.1 inner)

namespace StorageValue

theorem addMember_foldl (l : List (Bytes × F64)) (z : HashMap Bytes F64 × Scores) :
    (l.foldl addMember z).1 = z.1.insertAll l := by
  induction l generalizing z with
  | nil => rfl
  | cons p l ih => exact ih _

theorem addMember_foldl_index (l : List (Bytes × F64)) (z : HashMap Bytes F64 × Scores) :
    (l.foldl addMember z).2 = l.foldl (fun scores p => scores.insert p.2 p.1) z.2 := by
  induction l generalizing z with
  | nil => rfl
  | cons p l ih => exact ih _

/-- What a new member keeps of the members and the index, the loop over members that come once each
keeps. -/
theorem foldl_addMember {R : HashMap Bytes F64 → Scores → Prop}
    (hinsert : ∀ {z : HashMap Bytes F64 × Scores} {p : Bytes × F64}, R z.1 z.2 →
      p.2.isNaN = false → z.1.lookup p.1 = none → R (addMember z p).1 (addMember z p).2)
    {l : List (Bytes × F64)} (hnd : (l.map Prod.fst).Nodup) (hnan : ∀ p ∈ l, p.2.isNaN = false)
    {z : HashMap Bytes F64 × Scores} (hz : R z.1 z.2) (hfresh : ∀ p ∈ l, z.1.lookup p.1 = none) :
    R (l.foldl addMember z).1 (l.foldl addMember z).2 := by
  induction l generalizing z with
  | nil => exact hz
  | cons p l ih =>
    rw [List.map_cons] at hnd
    obtain ⟨hnot, hnd'⟩ := List.nodup_cons.mp hnd
    refine ih hnd' (fun q hq => hnan q (List.mem_cons_of_mem _ hq))
      (hinsert hz (hnan p List.mem_cons_self) (hfresh p List.mem_cons_self)) (fun q hq => ?_)
    have hne : q.1 ≠ p.1 := fun heq => hnot (heq ▸ List.mem_map_of_mem hq)
    show (AList.insert p.1 p.2 z.1).lookup q.1 = none
    rw [AList.lookup_insert_ne hne]
    exact hfresh q (List.mem_cons_of_mem _ hq)

/-- The loop over the members keeps the index in step with them. -/
theorem scoreIndex_foldl {l : List (Bytes × F64)} (hnd : (l.map Prod.fst).Nodup)
    (hnan : ∀ p ∈ l, p.2.isNaN = false) {z : HashMap Bytes F64 × Scores}
    (hz : ScoreIndex z.1 z.2) (hfresh : ∀ p ∈ l, z.1.lookup p.1 = none) :
    ScoreIndex (l.foldl addMember z).1 (l.foldl addMember z).2 :=
  foldl_addMember ScoreIndex.insert hnd hnan hz hfresh

theorem sameNested_foldl (nh : HashMap Bytes (HashMap Bytes Bytes)) :
    SameNested nh
      (nh.pairs.foldl (fun nh p => nh.insert p.1 (HashMap.insertAll ∅ p.2.pairs)) ∅) := by
  let copy : Bytes × HashMap Bytes Bytes → Bytes × HashMap Bytes Bytes :=
    fun p => (p.1, HashMap.insertAll ∅ p.2.pairs)
  have hfold : nh.pairs.foldl (fun nh p => nh.insert p.1 (HashMap.insertAll ∅ p.2.pairs)) ∅
      = HashMap.insertAll ∅ (nh.pairs.map copy) := by
    rw [HashMap.insertAll, List.foldl_map]
  have hkeys : (nh.pairs.map copy).map Prod.fst = nh.pairs.map Prod.fst := by
    rw [List.map_map]
    rfl
  intro f
  rw [hfold]
  cases hf : nh.lookup f with
  | none =>
    rw [HashMap.lookup_insertAll_of_notMem, AList.lookup_empty]
    · exact Option.Rel.none
    · rw [hkeys, HashMap.map_fst_pairs]
      exact AList.lookup_eq_none.mp hf
  | some inner =>
    have hmem : copy (f, inner) ∈ nh.pairs.map copy :=
      List.mem_map_of_mem (HashMap.mem_pairs.mpr hf)
    rw [HashMap.lookup_insertAll_of_mem (hkeys ▸ nh.nodup_pairs) hmem]
    exact Option.Rel.some fun k => (HashMap.lookup_insertAll_perm (List.Perm.refl _) k).symm

/-- The decoder builds the same value. -/
theorem same_rebuilt (v : StorageValue) : v.Same v.rebuilt := by
  cases v with
  | string v => exact .string v
  | list l => exact .list l
  | set s =>
    have hfold : s.keys.foldl (fun s m => s.insert m ()) (∅ : HashSet Bytes)
        = HashMap.insertAll ∅ s.pairs := by
      rw [← s.map_fst_pairs, List.foldl_map]
      rfl
    rw [rebuilt, hfold]
    exact .set fun k => (HashMap.lookup_insertAll_perm (List.Perm.refl _) k).symm
  | hash h => exact .hash fun k => (HashMap.lookup_insertAll_perm (List.Perm.refl _) k).symm
  | zset members scores =>
    refine .zset (fun k => ?_) _ _
    rw [addMember_foldl]
    exact (HashMap.lookup_insertAll_perm (sortByScore_perm members) k).symm
  | stream entries ms seq => exact .stream entries ms seq
  | nestedHash nh => exact .nestedHash (sameNested_foldl nh)

/-- The decoder builds an index that fits. -/
theorem indexed_rebuilt {v : StorageValue} (h : v.NoNaN) : v.rebuilt.Indexed := by
  cases v with
  | zset members scores =>
    have hperm := sortByScore_perm members
    refine scoreIndex_foldl ?_ (fun p hp => h p (hperm.mem_iff.mp hp)) ScoreIndex.empty
      (fun p _ => AList.lookup_empty p.1)
    exact (hperm.map Prod.fst).nodup_iff.mpr members.nodup_pairs
  | string | list | set | hash | stream | nestedHash => trivial

end StorageValue

/-- The same entry, and the index of a sorted set without NaN fits. -/
structure Entry.Restored (e e' : Entry) : Prop where
  same : e.Same e'
  indexed : e.value.NoNaN → e'.value.Indexed

/-! ### The opcodes -/

/-- From `st` the loader gets over `enc` to `st'`, whatever follows. -/
def Loads (st : LoadState) (enc : Bytes) (st' : LoadState) : Prop :=
  ∀ fuel rest, (enc ++ rest).length ≤ fuel →
    ∃ fuel', rest.length ≤ fuel' ∧ loadLoop fuel st (enc ++ rest) = loadLoop fuel' st' rest

theorem loads_nil (st : LoadState) : Loads st [] st := fun fuel _ hle => ⟨fuel, hle, rfl⟩

theorem Loads.append {st st' st'' : LoadState} {enc enc' : Bytes} (h : Loads st enc st')
    (h' : Loads st' enc' st'') : Loads st (enc ++ enc') st'' := by
  intro fuel rest hle
  rw [List.append_assoc] at hle ⊢
  obtain ⟨fuel', hle', heq⟩ := h fuel (enc' ++ rest) hle
  obtain ⟨fuel'', hle'', heq'⟩ := h' fuel' rest hle'
  exact ⟨fuel'', hle'', heq.trans heq'⟩

theorem loadLoop_cons (fuel : ℕ) (st : LoadState) (op : UInt8) (r : Bytes) :
    loadLoop (fuel + 1) st (op :: r) = match loadStep st (op :: r) with
      | .ok (st', r') => loadLoop fuel st' r'
      | .error e => (st.databases, .error e) := rfl

/-- One opcode. -/
theorem loads_step {st st' : LoadState} {op : UInt8} {enc : Bytes}
    (h : ∀ rest, loadStep st (op :: enc ++ rest) = .ok (st', rest)) :
    Loads st (op :: enc) st' := by
  intro fuel rest hle
  cases fuel with
  | zero => exact absurd hle (by simp)
  | succ fuel =>
    refine ⟨fuel, ?_, ?_⟩
    · simp only [List.cons_append, List.length_cons, List.length_append] at hle
      omega
    · rw [List.cons_append, loadLoop_cons, ← List.cons_append, h rest]

/-- The entry a database gets from an entry of the file. -/
def LoadState.put (st : LoadState) (p : Bytes × Entry) : Entry where
  value := p.2.value.rebuilt
  expireAt := p.2.expireAt
  version := ((st.databases.find st.currentDb p.1).map fun e => e.version + 1).getD 0

/-- The loader behind an entry of the file. -/
def LoadState.next (st : LoadState) (p : Bytes × Entry) : LoadState :=
  if p.1 = [] then st
  else { st with
    databases := st.databases.put st.currentDb p.1 (st.put p)
    count := st.count + 1 }

/-- A decoded entry with a key, for a database that is there, is stored. -/
theorem store_of_lt {st : LoadState} {kv : Bytes × StorageValue} (hkey : kv.1 ≠ [])
    (hdb : st.currentDb < st.databases.length) (expireAt : Option UInt64) :
    st.store kv expireAt = .ok { st with
      databases := st.databases.put st.currentDb kv.1
        { value := kv.2, expireAt,
          version := ((st.databases.find st.currentDb kv.1).map fun e => e.version + 1).getD 0 }
      count := st.count + 1 } := by
  have hget : st.databases[st.currentDb]? = some st.databases[st.currentDb] :=
    List.getElem?_eq_getElem hdb
  have hread : Databases.db st.databases st.currentDb = .ok st.databases[st.currentDb] := by
    rw [Databases.db, hget]
  have hfind : st.databases.find st.currentDb kv.1 = st.databases[st.currentDb].lookup kv.1 := by
    rw [Databases.find, hget]
    rfl
  have hrun : Keyspace.read (fun dbs => dbs.db st.currentDb) { databases := st.databases }
      = (.ok st.databases[st.currentDb], { databases := st.databases }) := by
    rw [Keyspace.read, hread]
    rfl
  rw [LoadState.store, if_neg hkey, Keyspace.setWithEntry, Proc.bind_ok hrun]
  cases hl : st.databases[st.currentDb].lookup kv.1 with
  | none =>
    rw [hl] at hfind
    simp [Keyspace.put, hfind]
  | some e =>
    rw [hl] at hfind
    simp [Keyspace.put, hfind]

theorem store_eq {st : LoadState} (hdb : st.currentDb < st.databases.length) (p : Bytes × Entry) :
    st.store (p.1, p.2.value.rebuilt) p.2.expireAt = .ok (st.next p) := by
  rw [LoadState.next]
  by_cases hkey : p.1 = []
  · rw [LoadState.store, if_pos hkey, if_pos hkey]
  · rw [if_neg hkey, store_of_lt hkey hdb]
    rfl

theorem encodeEntry_head (key : Bytes) (v : StorageValue) :
    ∃ op enc, encodeEntry key v = op :: enc ∧ op ≤ typeNh := by
  cases v <;> exact ⟨_, _, rfl, by decide⟩

theorem loadStep_expire (st : LoadState) (r : Bytes) :
    loadStep st (expireTime :: r) = readU64Le r >>= fun a => decodeEntry a.2 >>= fun q =>
      st.store q.1 (some a.1) >>= fun st => .ok (st, q.2) := rfl

theorem loadStep_entry (st : LoadState) {op : UInt8} (hop : op ≤ typeNh) (r : Bytes) :
    loadStep st (op :: r) = decodeEntry (op :: r) >>= fun q =>
      st.store q.1 none >>= fun st => .ok (st, q.2) := by
  have hne : op ≠ dbSelect ∧ op ≠ dbEnd ∧ op ≠ expireTime := by
    refine ⟨?_, ?_, ?_⟩ <;> rintro rfl <;> exact absurd hop (by decide)
  unfold loadStep
  dsimp only
  rw [if_neg hne.1, if_neg hne.2.1, if_neg hne.2.2, if_pos hop]

/-- Reading one entry of the file leads to the store. -/
theorem loadStep_writeEntry (st : LoadState) {p : Bytes × Entry} (hkey : Fits p.1.length)
    (hv : p.2.value.FitsAll) (rest : Bytes) :
    loadStep st (writeEntry p ++ rest)
      = st.store (p.1, p.2.value.rebuilt) p.2.expireAt >>= fun st => .ok (st, rest) := by
  have hread := reads_decodeEntry hkey hv rest
  rw [writeEntry]
  cases hexp : p.2.expireAt with
  | none =>
    obtain ⟨op, enc, henc, hop⟩ := encodeEntry_head p.1 p.2.value
    rw [henc] at hread
    simp only [henc]
    rw [List.cons_append, loadStep_entry st hop, ← List.cons_append, hread]
    rfl
  | some at_ =>
    rw [List.cons_append, loadStep_expire, List.append_assoc, reads_u64Le at_ _]
    show (decodeEntry (encodeEntry p.1 p.2.value ++ rest) >>= fun q =>
      st.store q.1 (some at_) >>= fun st => Except.ok (st, q.2)) = _
    rw [hread]
    rfl

theorem writeEntry_head (p : Bytes × Entry) : ∃ op enc, writeEntry p = op :: enc := by
  rw [writeEntry]
  cases p.2.expireAt with
  | none =>
    obtain ⟨op, enc, henc, -⟩ := encodeEntry_head p.1 p.2.value
    exact ⟨op, enc, henc⟩
  | some at_ => exact ⟨_, _, rfl⟩

/-- **One entry of the file.** -/
theorem loads_writeEntry {st : LoadState} (hdb : st.currentDb < st.databases.length)
    {p : Bytes × Entry} (hkey : Fits p.1.length) (hv : p.2.value.FitsAll) :
    Loads st (writeEntry p) (st.next p) := by
  have hstep := loadStep_writeEntry st hkey hv
  obtain ⟨op, enc, henc⟩ := writeEntry_head p
  rw [store_eq hdb p, henc] at hstep
  rw [henc]
  exact loads_step hstep

@[simp] theorem LoadState.next_currentDb (st : LoadState) (p : Bytes × Entry) :
    (st.next p).currentDb = st.currentDb := by
  rw [next]
  split <;> rfl

@[simp] theorem LoadState.length_next (st : LoadState) (p : Bytes × Entry) :
    (st.next p).databases.length = st.databases.length := by
  rw [next]
  split
  · rfl
  · exact Databases.length_put

/-- What a key holds after loading: what the file has for it, or else what it held before. -/
def Overwritten (written before after : Option Entry) : Prop :=
  match written with
  | some e => ∃ version, after = some { value := e.value.rebuilt, expireAt := e.expireAt, version }
  | none => after = before

theorem find_next {st : LoadState} (hdb : st.currentDb < st.databases.length) (p : Bytes × Entry)
    (i : ℕ) (k : Bytes) :
    Overwritten (if p.1 ≠ [] ∧ i = st.currentDb ∧ k = p.1 then some p.2 else none)
      (st.databases.find i k) ((st.next p).databases.find i k) := by
  rw [LoadState.next]
  by_cases hkey : p.1 = []
  · rw [if_neg (fun h => h.1 hkey), if_pos hkey]
    rfl
  · rw [if_neg hkey]
    by_cases hik : i = st.currentDb ∧ k = p.1
    · obtain ⟨rfl, rfl⟩ := hik
      rw [if_pos ⟨hkey, rfl, rfl⟩]
      exact ⟨_, Databases.find_put_self hdb⟩
    · rw [if_neg fun h => hik h.2]
      exact Databases.find_put_of_ne (not_and_or.mp hik)

theorem Overwritten.trans {w w' a b c : Option Entry} (h : Overwritten w a b)
    (h' : Overwritten w' b c) : Overwritten (w' <|> w) a c := by
  cases w' with
  | some e => exact h'
  | none =>
    obtain rfl : c = b := h'
    exact h

/-- What a list of entries writes at a key: the last of them, and nothing at the empty key. -/
def written : List (Bytes × Entry) → Bytes → Option Entry
  | [], _ => none
  | p :: l, k => written l k <|> if p.1 ≠ [] ∧ k = p.1 then some p.2 else none

theorem written_of_notMem {l : List (Bytes × Entry)} {k : Bytes} (h : k ∉ l.map Prod.fst) :
    written l k = none := by
  induction l with
  | nil => rfl
  | cons p l ih =>
    rw [List.map_cons, List.mem_cons, not_or] at h
    rw [written, ih h.2, if_neg fun hp => h.1 hp.2]
    rfl

theorem written_of_mem {l : List (Bytes × Entry)} (hnd : (l.map Prod.fst).Nodup) {k : Bytes}
    {e : Entry} (h : (k, e) ∈ l) (hk : k ≠ []) : written l k = some e := by
  induction l with
  | nil => cases h
  | cons p l ih =>
    rw [List.map_cons] at hnd
    obtain ⟨hnot, hnd'⟩ := List.nodup_cons.mp hnd
    rcases List.mem_cons.mp h with rfl | hmem
    · rw [written, written_of_notMem hnot, if_pos ⟨hk, rfl⟩]
      rfl
    · rw [written, ih hnd' hmem]
      rfl

theorem written_nil (l : List (Bytes × Entry)) : written l [] = none := by
  induction l with
  | nil => rfl
  | cons p l ih =>
    rw [written, ih, if_neg fun hp => hp.1 hp.2.symm]
    rfl

/-- A section writes the live entries of its database, except at the empty key. -/
theorem written_live {now : UInt64} {d : Db} {k : Bytes} (hk : k ≠ []) :
    written (Databases.live now d) k = (d.lookup k).filter fun e => !e.expired now := by
  by_cases hlive : ∃ e, (k, e) ∈ Databases.live now d
  · obtain ⟨e, he⟩ := hlive
    rw [written_of_mem (Databases.nodup_live now d) he hk]
    obtain ⟨hl, hexp⟩ := Databases.mem_live.mp he
    rw [hl, Option.filter_some, hexp]
    rfl
  · rw [written_of_notMem]
    · cases hl : d.lookup k with
      | none => rfl
      | some e =>
        by_cases hexp : e.expired now = true
        · rw [Option.filter_some, hexp]
          rfl
        · exact absurd ⟨e, Databases.mem_live.mpr ⟨hl, by simpa using hexp⟩⟩ hlive
    · intro hmem
      obtain ⟨⟨k', e⟩, he, rfl⟩ := List.mem_map.mp hmem
      exact hlive ⟨e, he⟩

/-- The loader behind the entries of a section. -/
structure Section (st : LoadState) (l : List (Bytes × Entry)) (st' : LoadState) : Prop where
  currentDb : st'.currentDb = st.currentDb
  length : st'.databases.length = st.databases.length
  count : st'.count = st.count + (l.filter fun p => p.1 ≠ []).length
  find : ∀ i k, Overwritten (if i = st.currentDb then written l k else none)
    (st.databases.find i k) (st'.databases.find i k)

theorem section_foldl (l : List (Bytes × Entry)) {st : LoadState}
    (hdb : st.currentDb < st.databases.length) : Section st l (l.foldl LoadState.next st) := by
  induction l generalizing st with
  | nil => exact ⟨rfl, rfl, rfl, fun i k => by rw [written, ite_self]; rfl⟩
  | cons p l ih =>
    have hdb' : (st.next p).currentDb < (st.next p).databases.length := by simpa using hdb
    have hrest := ih hdb'
    refine ⟨by simpa using hrest.currentDb, by simpa using hrest.length, ?_, fun i k => ?_⟩
    · rw [List.foldl_cons, hrest.count, LoadState.next]
      by_cases hkey : p.1 = []
      · simp [hkey]
      · simp [hkey]
        omega
    · have htrans := (find_next hdb p i k).trans (hrest.find i k)
      rw [LoadState.next_currentDb] at htrans
      by_cases hi : i = st.currentDb
      · simpa [hi, written] using htrans
      · simpa [hi] using htrans

/-! ### The whole file -/

/-- Every live entry of these databases fits its length fields. -/
def FitsLive (now : UInt64) (dbs : Databases) : Prop :=
  ∀ d ∈ dbs, ∀ p ∈ Databases.live now d, Fits p.1.length ∧ p.2.value.FitsAll

/-- What a file of these databases writes at a key. -/
def payload (now : UInt64) (dbs : Databases) (i : ℕ) (k : Bytes) : Option Entry :=
  if k = [] then none else dbs.liveEntry now i k

/-- The number of entries a file of these databases loads. -/
def payloadCount (now : UInt64) (dbs : Databases) : ℕ :=
  (dbs.map fun d => ((Databases.live now d).filter fun p => p.1 ≠ []).length).sum

theorem payload_eq {now : UInt64} {dbs : Databases} {i : ℕ} {d : Db} (hd : dbs[i]? = some d)
    (k : Bytes) : payload now dbs i k = written (Databases.live now d) k := by
  rw [payload]
  by_cases hk : k = []
  · rw [if_pos hk, hk, written_nil]
  · rw [if_neg hk, written_live hk, Databases.liveEntry_eq hd]

theorem loads_entries {l : List (Bytes × Entry)}
    (hfits : ∀ p ∈ l, Fits p.1.length ∧ p.2.value.FitsAll) {st : LoadState}
    (hdb : st.currentDb < st.databases.length) :
    Loads st (l.flatMap writeEntry) (l.foldl LoadState.next st) := by
  induction l generalizing st with
  | nil => exact loads_nil st
  | cons p l ih =>
    obtain ⟨hkey, hv⟩ := hfits p List.mem_cons_self
    exact (loads_writeEntry hdb hkey hv).append
      (ih (fun q hq => hfits q (List.mem_cons_of_mem _ hq)) (by simpa using hdb))

/-- A database whose number does not fit into its byte has nothing to write. -/
def Numbered (now : UInt64) (dbs : Databases) : Prop :=
  ∀ i d, dbs[i]? = some d → i < 256 ∨ Databases.live now d = []

theorem numbered_of_length_le {now : UInt64} {dbs : Databases} (h : dbs.length ≤ 256) :
    Numbered now dbs :=
  fun _ _ hd => Or.inl ((List.getElem?_eq_some_iff.mp hd).1.trans_le h)

theorem loads_select (st : LoadState) (i : ℕ) :
    Loads st [dbSelect, UInt8.ofNat i] { st with currentDb := (UInt8.ofNat i).toNat } :=
  loads_step fun _ => rfl

/-- **One section.** -/
theorem loads_writeDb {now : UInt64} {src : Databases} (hfits : FitsLive now src)
    (hnumbered : Numbered now src) {i : ℕ} {d : Db} (hd : src[i]? = some d) (st : LoadState)
    (hdb : i < st.databases.length) :
    ∃ bytes st', writeDb now src i = .ok bytes ∧ Loads st bytes st' ∧
      st'.databases.length = st.databases.length ∧
      st'.count = st.count + ((Databases.live now d).filter fun p => p.1 ≠ []).length ∧
      ∀ j k, Overwritten (if j = i then written (Databases.live now d) k else none)
        (st.databases.find j k) (st'.databases.find j k) := by
  have hbytes : writeDb now src i = .ok (dbSelect :: UInt8.ofNat i ::
      ((Databases.live now d).flatMap writeEntry ++ [dbEnd])) := by
    rw [writeDb, Databases.iterateDb, Databases.db, hd]
    rfl
  have hend : ∀ st : LoadState, Loads st [dbEnd] st := fun _ => loads_step fun _ => rfl
  rcases hnumbered i d hd with hi | hnone
  · let st₁ : LoadState := { st with currentDb := i }
    have hselect : Loads st [dbSelect, UInt8.ofNat i] st₁ := by
      have h := loads_select st i
      rwa [UInt8.toNat_ofNat', Nat.mod_eq_of_lt hi] at h
    have hbody : Loads st₁ ((Databases.live now d).flatMap writeEntry)
        ((Databases.live now d).foldl LoadState.next st₁) :=
      loads_entries (hfits d (List.mem_of_getElem? hd)) hdb
    have hsec : Section st₁ (Databases.live now d) _ := section_foldl (Databases.live now d) hdb
    exact ⟨_, _, hbytes, hselect.append (hbody.append (hend _)), hsec.length, hsec.count,
      hsec.find⟩
  · rw [hnone] at hbytes ⊢
    refine ⟨_, _, hbytes, (loads_select st i).append (hend _), rfl, rfl, fun j k => ?_⟩
    rw [written, ite_self]
    rfl

/-- The loader behind the sections of `n` databases from `i` on. -/
structure Sections (now : UInt64) (src : Databases) (i n : ℕ) (st st' : LoadState) : Prop where
  length : st'.databases.length = st.databases.length
  count : st'.count = st.count + payloadCount now ((src.drop i).take n)
  find : ∀ j k, Overwritten (if i ≤ j ∧ j < i + n then payload now src j k else none)
    (st.databases.find j k) (st'.databases.find j k)

/-- **Sections one after the other.** -/
theorem loads_writeDbs {now : UInt64} {src : Databases} (hfits : FitsLive now src)
    (hnumbered : Numbered now src) {n i : ℕ} (hsrc : i + n ≤ src.length) (st : LoadState)
    (hdb : i + n ≤ st.databases.length) :
    ∃ bytes st', writeDbs now src i n = .ok bytes ∧ Loads st bytes st' ∧
      Sections now src i n st st' := by
  induction n generalizing i st with
  | zero =>
    refine ⟨[], st, rfl, loads_nil st, rfl, ?_, fun j k => ?_⟩
    · rw [List.take_zero]
      rfl
    · rw [if_neg (by omega)]
      rfl
  | succ n ih =>
    have hi : i < src.length := by omega
    have hd : src[i]? = some src[i] := List.getElem?_eq_getElem hi
    obtain ⟨b, st₁, hb, hload, hlen, hcount, hfind⟩ :=
      loads_writeDb hfits hnumbered hd st (by omega)
    obtain ⟨r, st₂, hr, hloads, hrest⟩ := ih (i := i + 1) (by omega) st₁ (by omega)
    refine ⟨b ++ r, st₂, ?_, hload.append hloads, hrest.length.trans hlen, ?_, fun j k => ?_⟩
    · rw [writeDbs, hb, hr]
      rfl
    · rw [hrest.count, hcount, List.drop_eq_getElem_cons hi, List.take_succ_cons]
      simp only [payloadCount, List.map_cons, List.sum_cons]
      omega
    · have htrans := (hfind j k).trans (hrest.find j k)
      rcases lt_trichotomy i j with h | h | h
      · rw [if_neg h.ne'] at htrans
        have hiff : (i + 1 ≤ j ∧ j < i + 1 + n) ↔ (i ≤ j ∧ j < i + (n + 1)) := by omega
        simp only [hiff] at htrans
        cases hp : if i ≤ j ∧ j < i + (n + 1) then payload now src j k else none with
        | none => simpa [hp] using htrans
        | some e => simpa [hp] using htrans
      · subst h
        rw [if_pos rfl, if_neg (by omega)] at htrans
        rw [if_pos (by omega), payload_eq hd]
        exact htrans
      · rw [if_neg h.ne, if_neg (by omega)] at htrans
        rwa [if_neg (by omega)]

/-- Loading these bytes leaves the databases as they are. -/
def Inert (st : LoadState) (bytes : Bytes) : Prop :=
  ∀ fuel, (loadLoop fuel st bytes).1 = st.databases

theorem inert_nil (st : LoadState) : Inert st [] := by
  intro fuel
  cases fuel <;> rfl

theorem inert_error {st : LoadState} {op : UInt8} {r : Bytes} {e : LoadError}
    (h : loadStep st (op :: r) = .error e) : Inert st (op :: r) := by
  intro fuel
  cases fuel with
  | zero => rfl
  | succ fuel => rw [loadLoop_cons, h]

theorem inert_step {st st' : LoadState} {op : UInt8} {r rest : Bytes}
    (h : loadStep st (op :: r) = .ok (st', rest)) (hdb : st'.databases = st.databases)
    (hrest : Inert st' rest) : Inert st (op :: r) := by
  intro fuel
  cases fuel with
  | zero => rfl
  | succ fuel =>
    rw [loadLoop_cons, h]
    exact (hrest fuel).trans hdb

/-- An entry for a database that is not there is an error, unless it is dropped for its key. -/
theorem inert_writeEntry {st : LoadState} (hdb : st.databases.length ≤ st.currentDb)
    {p : Bytes × Entry} (hkey : Fits p.1.length) (hv : p.2.value.FitsAll) {rest : Bytes}
    (hrest : Inert st rest) : Inert st (writeEntry p ++ rest) := by
  have hstep := loadStep_writeEntry st hkey hv rest
  obtain ⟨op, enc, henc⟩ := writeEntry_head p
  rw [henc, List.cons_append] at hstep ⊢
  rw [LoadState.store] at hstep
  by_cases hnil : p.1 = []
  · rw [if_pos hnil] at hstep
    exact inert_step hstep rfl hrest
  · have hnone : Databases.db st.databases st.currentDb
        = .error (.internal ("db " ++ toString st.currentDb ++ " out of range")) := by
      rw [Databases.db, List.getElem?_eq_none hdb]
    have hrun : Keyspace.setWithEntry st.currentDb p.1 p.2.value.rebuilt p.2.expireAt
        { databases := st.databases } = (.error (.error (.internal _)), { databases := _ }) :=
      Proc.bind_error (by rw [Keyspace.read, hnone]; rfl)
    rw [if_neg hnil, hrun] at hstep
    exact inert_error hstep

/-- Sections of databases that are not there change nothing. -/
theorem inert_writeDbs {now : UInt64} {src : Databases} (hfits : FitsLive now src)
    (hnumbered : Numbered now src) {n i : ℕ} (hsrc : i + n ≤ src.length) (st : LoadState)
    (hdb : st.databases.length ≤ i) :
    ∃ bytes, writeDbs now src i n = .ok bytes ∧ Inert st bytes := by
  induction n generalizing i st with
  | zero => exact ⟨[], rfl, inert_nil st⟩
  | succ n ih =>
    have hi : i < src.length := by omega
    have hd : src[i]? = some src[i] := List.getElem?_eq_getElem hi
    let st₁ : LoadState := { st with currentDb := (UInt8.ofNat i).toNat }
    obtain ⟨r, hr, hrest⟩ := ih (i := i + 1) (by omega) st₁ (Nat.le_succ_of_le hdb)
    have hentries : ∀ l : List (Bytes × Entry), (l ≠ [] → i < 256) →
        (∀ p ∈ l, Fits p.1.length ∧ p.2.value.FitsAll) →
          Inert st₁ (l.flatMap writeEntry ++ dbEnd :: r) := by
      intro l h256 hl
      induction l with
      | nil =>
        have hend : loadStep st₁ (dbEnd :: r) = .ok (st₁, r) := rfl
        exact inert_step hend rfl hrest
      | cons p l ihl =>
        rw [List.flatMap_cons, List.append_assoc]
        obtain ⟨hkey, hv⟩ := hl p List.mem_cons_self
        have hi256 := h256 (List.cons_ne_nil p l)
        have hdb₁ : st₁.databases.length ≤ st₁.currentDb := by
          show st.databases.length ≤ (UInt8.ofNat i).toNat
          rwa [UInt8.toNat_ofNat', Nat.mod_eq_of_lt hi256]
        exact inert_writeEntry hdb₁ hkey hv
          (ihl (fun _ => hi256) fun q hq => hl q (List.mem_cons_of_mem _ hq))
    refine ⟨dbSelect :: UInt8.ofNat i :: ((Databases.live now src[i]).flatMap writeEntry ++ [dbEnd])
      ++ r, ?_, ?_⟩
    · rw [writeDbs, writeDb, Databases.iterateDb, Databases.db, hd, hr]
      rfl
    · have hbody := hentries _ (fun hne => (hnumbered i _ hd).resolve_right hne)
        (hfits _ (List.getElem_mem hi))
      simp only [List.cons_append, List.append_assoc, List.nil_append]
      have hstep : ∀ rest, loadStep st (dbSelect :: UInt8.ofNat i :: rest) = .ok (st₁, rest) :=
        fun _ => rfl
      exact inert_step (hstep _) rfl hbody

theorem writeDbs_add (now : UInt64) (src : Databases) (i m n : ℕ) :
    writeDbs now src i (m + n) = writeDbs now src i m >>= fun b =>
      writeDbs now src (i + m) n >>= fun r => pure (b ++ r) := by
  induction m generalizing i with
  | zero =>
    rw [Nat.zero_add, writeDbs]
    cases writeDbs now src i n <;> rfl
  | succ m ih =>
    rw [Nat.add_right_comm, writeDbs, writeDbs, ih, show i + (m + 1) = i + 1 + m by omega]
    cases writeDb now src i with
    | error e => rfl
    | ok b =>
      cases writeDbs now src (i + 1) m with
      | error e => rfl
      | ok r =>
        cases writeDbs now src (i + 1 + m) n with
        | error e => rfl
        | ok r' => exact congrArg Except.ok (List.append_assoc b r r').symm

/-- A file with the right header and checksum is loaded section by section. -/
theorem loadRdb_file (dst : Databases) (body : Bytes) :
    loadRdb dst (rdbHeader ++ (writeU64Le (crc64 body) ++ body))
      = loadLoop (16 + body.length) { databases := dst } body := by
  have hcrc : (writeU64Le (crc64 body)).length = 8 := length_leBytes ..
  have hbytes : ofLeBytes (writeU64Le (crc64 body)) = (crc64 body).toNat :=
    ofLeBytes_leBytes (by simpa using (crc64 body).toNat_lt)
  generalize writeU64Le (crc64 body) = crc at hcrc hbytes
  have hlen : (rdbHeader ++ (crc ++ body)).length = 16 + body.length := by
    simp only [List.length_append, hcrc]
    have : rdbHeader.length = 8 := rfl
    omega
  have hdrop8 : (rdbHeader ++ (crc ++ body)).drop 8 = crc ++ body := rfl
  have hdrop16 : (rdbHeader ++ (crc ++ body)).drop 16 = body := by
    rw [show (16 : ℕ) = 8 + 8 from rfl, ← List.drop_drop, hdrop8, ← hcrc, List.drop_left]
  have hstored : UInt64.ofNat (ofLeBytes (((rdbHeader ++ (crc ++ body)).drop 8).take 8))
      = crc64 body := by
    rw [hdrop8, ← hcrc, List.take_left, hbytes, UInt64.ofNat_toNat]
  have hmagic : (rdbHeader ++ (crc ++ body)).take 4 = asBytes "VELO" := rfl
  rw [loadRdb, if_neg (by omega), if_neg (not_not_intro hmagic), hstored, hdrop16, hlen]
  dsimp only
  rw [if_neg fun h => h.2 rfl]

/-- **A snapshot loaded over whatever is there.** Every key of a database that is there gets what
the file has for it, and keeps what it had where the file has nothing. -/
theorem loadRdb_onto {now : UInt64} {src : Databases} (hfits : FitsLive now src)
    (hnumbered : Numbered now src) (dst : Databases) :
    ∃ file loaded result, saveRdb now src src.length = .ok file ∧
      loadRdb dst file = (loaded, result) ∧ loaded.length = dst.length ∧
      (src.length ≤ dst.length → result = .ok (payloadCount now src)) ∧
      ∀ i k, Overwritten (if i < dst.length then payload now src i k else none)
        (dst.find i k) (loaded.find i k) := by
  have hmin : min src.length dst.length ≤ src.length := Nat.min_le_left ..
  have hmin' : min src.length dst.length ≤ dst.length := Nat.min_le_right ..
  obtain ⟨b, st, hb, hload, hsec⟩ :=
    loads_writeDbs hfits hnumbered (n := min src.length dst.length) (i := 0) (by omega)
      { databases := dst } (by simp)
  -- what is behind the databases that are there has no effect
  have htail : ∃ r, writeDbs now src (min src.length dst.length)
      (src.length - min src.length dst.length) = .ok r ∧ Inert st r ∧
        (src.length ≤ dst.length → r = []) := by
    by_cases hle : src.length ≤ dst.length
    · rw [Nat.min_eq_left hle, Nat.sub_self]
      exact ⟨[], rfl, inert_nil st, fun _ => rfl⟩
    · have hlen : st.databases.length ≤ min src.length dst.length := by
        rw [hsec.length, Nat.min_eq_right (by omega)]
      obtain ⟨r, hr, hinert⟩ := inert_writeDbs (n := src.length - min src.length dst.length)
        hfits hnumbered (by omega) st hlen
      exact ⟨r, hr, hinert, fun h => absurd h hle⟩
  obtain ⟨r, hr, hinert, hnil⟩ := htail
  have hbody : writeDbs now src 0 src.length = .ok (b ++ r) := by
    have hsplit : src.length
        = min src.length dst.length + (src.length - min src.length dst.length) := by omega
    rw [hsplit, writeDbs_add, hb, Nat.zero_add, hr]
    rfl
  obtain ⟨fuel, -, heq⟩ := hload (16 + (b ++ r).length) r (by omega)
  refine ⟨rdbHeader ++ (writeU64Le (crc64 (b ++ r)) ++ (b ++ r)), st.databases,
    (loadLoop fuel st r).2, ?_, ?_, hsec.length, fun hle => ?_, fun i k => ?_⟩
  · rw [saveRdb, hbody]
    rfl
  · rw [loadRdb_file, heq, ← hinert fuel]
  · rw [hnil hle, loadLoop, hsec.count, Nat.min_eq_left hle, List.drop_zero, List.take_length]
    exact congrArg Except.ok (Nat.zero_add _)
  · have hfind := hsec.find i k
    by_cases hi : i < dst.length
    · rw [if_pos hi]
      by_cases hi' : i < src.length
      · rwa [if_pos (by omega)] at hfind
      · rw [if_neg (by omega)] at hfind
        rwa [payload, Databases.liveEntry_eq_none_of_le (Nat.le_of_not_lt hi'), ite_self]
    · rw [if_neg hi]
      rwa [if_neg (by omega)] at hfind

/-- What the round trip needs of the databases. -/
structure Snapshotable (now : UInt64) (dbs : Databases) : Prop where
  atMost256 : dbs.length ≤ 256
  key_ne_nil : ∀ d ∈ dbs, ∀ p ∈ Databases.live now d, p.1 ≠ []
  noNaN : ∀ d ∈ dbs, ∀ p ∈ Databases.live now d, p.2.value.NoNaN
  fits : FitsLive now dbs

theorem payload_of_key_ne {now : UInt64} {dbs : Databases}
    (h : ∀ d ∈ dbs, ∀ p ∈ Databases.live now d, p.1 ≠ []) (i : ℕ) (k : Bytes) :
    payload now dbs i k = dbs.liveEntry now i k := by
  rw [payload]
  split
  · next hk =>
    cases hl : dbs.liveEntry now i k with
    | none => rfl
    | some e =>
      obtain ⟨d, hd, hp⟩ := Databases.liveEntry_eq_some.mp hl
      exact absurd hk (h d (List.mem_of_getElem? hd) _ hp)
  · rfl

theorem payloadCount_of_key_ne {now : UInt64} {dbs : Databases}
    (h : ∀ d ∈ dbs, ∀ p ∈ Databases.live now d, p.1 ≠ []) :
    payloadCount now dbs = dbs.liveCount now := by
  rw [payloadCount, Databases.liveCount]
  congr 1
  refine List.map_congr_left fun d hd => ?_
  rw [List.filter_eq_self.mpr fun p hp => decide_eq_true (h d hd p hp)]

/-- **The round trip of a snapshot.** -/
theorem loadRdb_saveRdb {now : UInt64} {dbs : Databases} (h : Snapshotable now dbs) :
    ∃ file loaded, saveRdb now dbs dbs.length = .ok file ∧
      loadRdb (Store.new dbs.length).databases file = (loaded, .ok (dbs.liveCount now)) ∧
      loaded.length = dbs.length ∧
      ∀ i k, Option.Rel (fun e e' => Entry.Same e e' ∧ e'.value.Indexed)
        (dbs.liveEntry now i k) (loaded.find i k) := by
  have hnew : (Store.new dbs.length).databases.length = dbs.length := List.length_replicate
  obtain ⟨file, loaded, result, hsave, hload, hlen, hresult, hfind⟩ :=
    loadRdb_onto h.fits (numbered_of_length_le h.atMost256) (Store.new dbs.length).databases
  rw [hresult hnew.ge, payloadCount_of_key_ne h.key_ne_nil] at hload
  refine ⟨file, loaded, hsave, hload, hlen.trans hnew, fun i k => ?_⟩
  have hik := hfind i k
  rw [payload_of_key_ne h.key_ne_nil, hnew] at hik
  have hwritten : (if i < dbs.length then dbs.liveEntry now i k else none)
      = dbs.liveEntry now i k := by
    split
    · rfl
    · next hi => exact (Databases.liveEntry_eq_none_of_le (Nat.le_of_not_lt hi) k).symm
  rw [hwritten] at hik
  cases hl : dbs.liveEntry now i k with
  | none =>
    rw [hl] at hik
    have hnone : loaded.find i k = none := Eq.trans hik (Databases.find_new _ i k)
    rw [hnone]
    exact Option.Rel.none
  | some e =>
    rw [hl] at hik
    obtain ⟨version, hver⟩ := hik
    obtain ⟨d, hd, hp⟩ := Databases.liveEntry_eq_some.mp hl
    rw [hver]
    exact Option.Rel.some ⟨⟨e.value.same_rebuilt, rfl⟩,
      StorageValue.indexed_rebuilt (h.noNaN d (List.mem_of_getElem? hd) _ hp)⟩

/-- A database with a value of every kind; the last key has expired by time 100. -/
def sampleDb : Db := HashMap.insertAll ∅
  [([1], { value := .string [13, 10] }),
   ([2], { value := .list [[7], [], [7]], expireAt := some 200 }),
   ([3], { value := .set (HashMap.insertAll ∅ [([1], ()), ([2], ())]) }),
   ([4], { value := .hash (HashMap.insertAll ∅ [([1], [2])]) }),
   ([5], { value := .zset (HashMap.insertAll ∅ [([1], F64.infinity), ([2], ⟨0⟩)]) [] }),
   ([6], { value := .stream [⟨5, 1, [([1], [2])]⟩] 9 0 }),
   ([7], { value := .nestedHash (HashMap.insertAll ∅ [([1], HashMap.insertAll ∅ [([2], [3])])]) }),
   ([8], { value := .string [], expireAt := some 100 })]

theorem loadRdb_saveRdb_sampleDb :
    ∃ file loaded, saveRdb 100 [∅, sampleDb] 2 = .ok file ∧
      loadRdb (Store.new 2).databases file = (loaded, .ok 7) ∧ loaded.length = 2 ∧
      ∀ i k, Option.Rel (fun e e' => Entry.Same e e' ∧ e'.value.Indexed)
        (Databases.liveEntry 100 [∅, sampleDb] i k) (loaded.find i k) :=
  @loadRdb_saveRdb 100 [∅, sampleDb]
    { atMost256 := by decide
      key_ne_nil := by decide +kernel
      noNaN := by decide +kernel
      fits := by unfold FitsLive; decide +kernel }

end VeloDB
