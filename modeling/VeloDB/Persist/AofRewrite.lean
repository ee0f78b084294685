import VeloDB.Cmd.StreamIds
import VeloDB.Persist.Aof
import VeloDB.Persist.RdbRoundTrip

/-!
# Rewriting the append-only file

What `write_dataset` writes, replayed on an empty store, gives back the live entries. The tables of
the store and the context of the replaying client stay as new all the way, so a replay moves from
one `fresh` state to another; `Builds` says which, for a piece of the log and whatever the clock
shows.

A replayed stream has the same entries, but its last id is that of its last entry.

## Main results

* `builds_value` — the commands for one value build it, for all seven kinds
* `builds_dataset`, `replayAof_dataset` — the commands of a whole dataset, whatever they build
* `replayAof_writeDataset` — a rewritten log
-/

namespace VeloDB

open Rust

/-! ### Pieces of a log -/

/-- A store with new tables, and a client that has only selected a database. -/
def fresh (dbs : Databases) (i : ℕ) : Whole where
  store := { databases := dbs }
  ctx := { dbIndex := i }

/-- Running the commands takes one state to the other. -/
def Builds (H : Host) (w : Whole) (cmds : List (List Bytes)) (w' : Whole) : Prop :=
  ∀ clock n, runCommands H clock n cmds w = (.ok (n + cmds.length), w')

variable {H : Host} {w w' w'' : Whole} {dbs dbs' : Databases} {i : ℕ} {k : Bytes}

theorem builds_nil (w : Whole) : Builds H w [] w := fun _ _ => rfl

theorem builds_cons {name : Bytes} {args : List Bytes} {cmds : List (List Bytes)}
    (h : ∀ env : Env, env.host = H → ∃ r, dispatch env (upper env name) args w = (.ok r, w'))
    (hrest : Builds H w' cmds w'') : Builds H w ((name :: args) :: cmds) w'' := by
  intro clock n
  obtain ⟨r, hr⟩ := h ((clock n).on H) rfl
  rw [runCommands, Proc.bind_ok hr, hrest clock (n + 1), List.length_cons]
  congr 2
  omega

theorem Builds.append {cmds cmds' : List (List Bytes)} (h : Builds H w cmds w')
    (h' : Builds H w' cmds' w'') : Builds H w (cmds ++ cmds') w'' := by
  intro clock n
  rw [runCommands_append (h clock n), h' clock, List.length_append, Nat.add_assoc]

theorem deniesMemory_fresh (dbs : Databases) (i : ℕ) (name : String) :
    (fresh dbs i).store.tables.deniesMemory name = false := rfl

/-- Nobody waits on a fresh store. -/
theorem notify_new (ks : List Bytes) : ks.foldl Tables.notify {} = {} := by
  induction ks with
  | nil => rfl
  | cons k ks ih => exact ih

/-- One writing command whose result is answered. -/
theorem builds_answered {name : String} {arity : ℤ} {f : Env → ℕ → List Bytes → KeyM RespValue}
    (hc : findCommand name = some ⟨name, arity, .write f⟩) {args : List Bytes}
    (hargs : (CommandDef.mk name arity (.write f)).refuses args = false)
    (hrun : ∀ env : Env, env.host = H → ∃ res ks reply,
      f env i args ⟨dbs, []⟩ = (res, ⟨dbs', ks⟩) ∧
        ∀ (m : WholeM RespValue) (w w' : Whole), m w = (res, w') →
          catchError m w = (.ok reply, w')) :
    Builds H (fresh dbs i) [asBytes name :: args] (fresh dbs' i) := by
  obtain ⟨hmem, -⟩ := mem_of_findCommand hc
  refine builds_cons (fun env henv => ?_) (builds_nil _)
  obtain ⟨res, ks, reply, hr, hcaught⟩ := hrun env henv
  have hhandler : (Handler.write f).run (dispatchDepth env env.nesting) env args (fresh dbs i)
      = (res, fresh dbs' i) := by
    show ((f env i args ⟨dbs, []⟩).1, Whole.mk ⟨(f env i args ⟨dbs, []⟩).2.databases,
      (f env i args ⟨dbs, []⟩).2.notified.foldl Tables.notify {}⟩ { dbIndex := i }) = _
    rw [hr, notify_new]
    rfl
  refine ⟨reply, ?_⟩
  rw [upper_name hmem env, dispatch_eq hmem env (deniesMemory_fresh dbs i name) hargs]
  exact hcaught _ _ _ hhandler

/-- One writing command. -/
theorem builds_write {name : String} {arity : ℤ} {f : Env → ℕ → List Bytes → KeyM RespValue}
    (hc : findCommand name = some ⟨name, arity, .write f⟩) {args : List Bytes}
    (hargs : (CommandDef.mk name arity (.write f)).refuses args = false)
    (hrun : ∀ env : Env, env.host = H → ∃ r ks, f env i args ⟨dbs, []⟩ = (.ok r, ⟨dbs', ks⟩)) :
    Builds H (fresh dbs i) [asBytes name :: args] (fresh dbs' i) := by
  refine builds_answered hc hargs fun env henv => ?_
  obtain ⟨r, ks, hr⟩ := hrun env henv
  exact ⟨_, ks, r, hr, fun m w w' hm => by rw [catchError, hm]⟩

/-! ### One key -/

/-- One key of one database has been set. -/
structure Wrote (dbs : Databases) (i : ℕ) (k : Bytes) (e : Entry) (dbs' : Databases) : Prop where
  length : dbs'.length = dbs.length
  self : dbs'.find i k = some e
  other : ∀ j k', j ≠ i ∨ k' ≠ k → dbs'.find j k' = dbs.find j k'

/-- Something has happened to one key of one database. -/
structure Leaves (dbs : Databases) (i : ℕ) (k : Bytes) (o : Option Entry) (dbs' : Databases) :
    Prop where
  length : dbs'.length = dbs.length
  self : dbs'.find i k = o
  other : ∀ j k', j ≠ i ∨ k' ≠ k → dbs'.find j k' = dbs.find j k'

theorem Wrote.leaves {e : Entry} (h : Wrote dbs i k e dbs') : Leaves dbs i k (some e) dbs' :=
  ⟨h.length, h.self, h.other⟩

theorem wrote_put (hi : i < dbs.length) (e : Entry) : Wrote dbs i k e (dbs.put i k e) where
  length := Databases.length_put
  self := Databases.find_put_self hi
  other := fun _ _ h => Databases.find_put_of_ne h

theorem Wrote.trans {e e' : Entry} {dbs'' : Databases} (h : Wrote dbs i k e dbs')
    (h' : Wrote dbs' i k e' dbs'') : Wrote dbs i k e' dbs'' where
  length := h'.length.trans h.length
  self := h'.self
  other := fun j k' hjk => (h'.other j k' hjk).trans (h.other j k' hjk)

/-- The same value, except that the last id of a stream may differ. -/
def StorageValue.SameContents : StorageValue → StorageValue → Prop
  | .stream es _ _, .stream es' _ _ => es = es'
  | v, v' => v.Same v'

/-- The commands for a value build it at a key that was not there. -/
def Rebuilds (H : Host) (k : Bytes) (v : StorageValue) : Prop :=
  ∀ dbs : Databases, ∀ i < dbs.length, dbs.find i k = none → ∃ dbs' v' version,
    Builds H (fresh dbs i) (commandsForValue H k v) (fresh dbs' i) ∧
      Wrote dbs i k { value := v', version } dbs' ∧ v.SameContents v' ∧ v'.Indexed

theorem rebuilds_string (v : Bytes) : Rebuilds H k (.string v) := by
  intro dbs i hi hnone
  refine ⟨dbs.put i k { value := .string v, version := 1 }, .string v, 1,
    builds_write rfl rfl fun env _ => ⟨.ok, [], ?_⟩, wrote_put hi _, .string v, trivial⟩
  show (Keyspace.set i k v none >>= fun _ => pure RespValue.ok) ⟨dbs, []⟩ = _
  rw [Proc.bind_ok (Keyspace.set_run hi v none []), hnone]
  rfl

theorem rpush_new (hi : i < dbs.length) (hnone : dbs.find i k = none) (l : List Bytes) :
    Keyspace.rpush i k l ⟨dbs, []⟩ = (.ok l.length, ⟨dbs.put i k { value := .list l }, [k]⟩) := by
  have hpush : l.foldl (fun l v => l ++ [v]) [] = l := by
    simp [List.foldl_append_eq_append, ← List.flatMap_def]
  rw [Keyspace.rpush, Proc.bind_ok (Keyspace.upsertAs_new .list hi hnone [] _ []), hpush]
  rfl

theorem rebuilds_list {l : List Bytes} (hne : l ≠ []) : Rebuilds H k (.list l) := by
  intro dbs i hi hnone
  refine ⟨dbs.put i k { value := .list l }, .list l, 0, ?_, wrote_put hi _, .list l, trivial⟩
  rw [commandsForValue, if_neg hne]
  exact builds_write rfl rfl fun env _ =>
    ⟨.count l.length, [k], Proc.bind_ok (rpush_new hi hnone l)⟩

theorem sadd_new (hi : i < dbs.length) (hnone : dbs.find i k = none) (l : List Bytes) :
    ∃ n, Keyspace.sadd i k l ⟨dbs, []⟩ = (.ok n, ⟨dbs.put i k
      { value := .set (l.foldl (fun s m => s.insert m ()) ∅) }, []⟩) := by
  have hfold := HashMap.snd_foldl (fun (r : ℕ × HashSet Bytes) m =>
    if (r.2.lookup m).isSome then r.1 else r.1 + 1) (fun s m => s.insert m ()) l (0, ∅)
  rw [Keyspace.sadd, Keyspace.upsertAs_new .set hi hnone]
  dsimp only
  rw [hfold]
  exact ⟨_, rfl⟩

theorem rebuilds_set {s : HashSet Bytes} (hne : s.keys ≠ []) : Rebuilds H k (.set s) := by
  intro dbs i hi hnone
  obtain ⟨n, hrun⟩ := sadd_new hi hnone s.keys
  refine ⟨_, _, 0, ?_, wrote_put hi _, (StorageValue.set s).same_rebuilt, trivial⟩
  rw [commandsForValue, if_neg hne]
  exact builds_write rfl rfl fun env _ => ⟨.count n, [], Proc.bind_ok hrun⟩

theorem hset_new (hi : i < dbs.length) (hnone : dbs.find i k = none) (l : List (Bytes × Bytes)) :
    ∃ n, Keyspace.hset i k l ⟨dbs, []⟩ = (.ok n, ⟨dbs.put i k
      { value := .hash (HashMap.insertAll ∅ l) }, []⟩) := by
  have hfold := HashMap.snd_foldl (fun (r : ℕ × HashMap Bytes Bytes) p =>
    if (r.2.lookup p.1).isSome then r.1 else r.1 + 1) (fun m p => m.insert p.1 p.2) l (0, ∅)
  rw [Keyspace.hset, Keyspace.upsertAs_new .hash hi hnone]
  dsimp only
  rw [hfold]
  exact ⟨_, rfl⟩

theorem parsePairs_flatPairs (l : List (Bytes × Bytes)) : parsePairs (flatPairs l) = l := by
  induction l with
  | nil => rfl
  | cons p l ih =>
    show (p.1, p.2) :: parsePairs (flatPairs l) = _
    rw [ih]

theorem rebuilds_hash {h : HashMap Bytes Bytes} (hne : h.pairs ≠ []) : Rebuilds H k (.hash h) := by
  intro dbs i hi hnone
  obtain ⟨n, hrun⟩ := hset_new hi hnone h.pairs
  refine ⟨_, _, 0, ?_, wrote_put hi _, (StorageValue.hash h).same_rebuilt, trivial⟩
  rw [commandsForValue, if_neg hne]
  refine builds_write rfl rfl fun env _ => ⟨.count n, [], ?_⟩
  simp only [Cmd.hset, argsFrom_cons_succ, argsFrom_zero, lift_ok_bind, parsePairs_flatPairs, hne,
    if_false, arg_cons_zero]
  exact Proc.bind_ok hrun

/-! ### Sorted sets -/

theorem parseScoreMemberPairs_display {l : List (Bytes × F64)}
    (h : ∀ p ∈ l, H.parseF64 (H.displayF64 p.2) = some p.2) :
    Cmd.parseScoreMemberPairs H (l.flatMap fun p => [asBytes (H.displayF64 p.2), p.1])
      = .ok (l.map Prod.swap) := by
  induction l with
  | nil => rfl
  | cons p l ih =>
    have ih := ih fun q hq => h q (List.mem_cons_of_mem _ hq)
    rw [List.flatMap_cons, List.cons_append, List.cons_append, List.nil_append,
      Cmd.parseScoreMemberPairs, fromUtf8Lossy_asBytes, h p List.mem_cons_self, ih]
    rfl

/-- Members that are not there yet are only added. -/
theorem zaddOne_foldl {l : List (Bytes × F64)} (hnd : (l.map Prod.fst).Nodup) (n : ℕ)
    {z : HashMap Bytes F64 × Scores} (hfresh : ∀ p ∈ l, z.1.lookup p.1 = none) :
    ((l.map Prod.swap).foldl zaddOne (n, z)).2 = l.foldl StorageValue.addMember z := by
  induction l generalizing n z with
  | nil => rfl
  | cons p l ih =>
    rw [List.map_cons] at hnd
    obtain ⟨hnot, hnd'⟩ := List.nodup_cons.mp hnd
    have hstep : zaddOne (n, z) p.swap = (n + 1, StorageValue.addMember z p) := by
      simp [zaddOne, StorageValue.addMember, hfresh p List.mem_cons_self]
    rw [List.map_cons, List.foldl_cons, List.foldl_cons, hstep]
    refine ih hnd' (n + 1) fun q hq => ?_
    have hne : q.1 ≠ p.1 := fun heq => hnot (heq ▸ List.mem_map_of_mem hq)
    show (AList.insert p.1 p.2 z.1).lookup q.1 = none
    rw [AList.lookup_insert_ne hne]
    exact hfresh q (List.mem_cons_of_mem _ hq)

theorem zadd_new (hi : i < dbs.length) (hnone : dbs.find i k = none) {l : List (Bytes × F64)}
    (hnd : (l.map Prod.fst).Nodup) :
    ∃ n, Keyspace.zadd i k (l.map Prod.swap) ⟨dbs, []⟩ = (.ok n, ⟨dbs.put i k
      { value := .zset (l.foldl StorageValue.addMember (∅, [])).1
          (l.foldl StorageValue.addMember (∅, [])).2 }, []⟩) := by
  rw [Keyspace.zadd, Keyspace.upsertAs_new .zset hi hnone]
  dsimp only
  rw [zaddOne_foldl hnd 0 fun p _ => AList.lookup_empty p.1]
  exact ⟨_, rfl⟩

theorem rebuilds_zset {members : HashMap Bytes F64} (scores : Scores) (hne : members.pairs ≠ [])
    (hnan : ∀ p ∈ members.pairs, p.2.isNaN = false)
    (hfloat : ∀ p ∈ members.pairs, H.parseF64 (H.displayF64 p.2) = some p.2) :
    Rebuilds H k (.zset members scores) := by
  intro dbs i hi hnone
  obtain ⟨n, hrun⟩ := zadd_new hi hnone members.nodup_pairs
  have hsame : HashMap.Same members
      (members.pairs.foldl StorageValue.addMember (∅, [])).1 := by
    intro m
    rw [StorageValue.addMember_foldl]
    exact (HashMap.lookup_insertAll_perm (List.Perm.refl _) m).symm
  have hindex := StorageValue.scoreIndex_foldl members.nodup_pairs hnan (z := (∅, []))
    ScoreIndex.empty fun p _ => AList.lookup_empty p.1
  refine ⟨_, _, 0, ?_, wrote_put hi _, .zset hsame scores _, hindex⟩
  rw [commandsForValue, if_neg hne]
  refine builds_write rfl rfl fun env henv => ⟨.count n, [], ?_⟩
  simp only [Cmd.zadd, argsFrom_cons_succ, argsFrom_zero, lift_ok_bind, henv,
    parseScoreMemberPairs_display hfloat, arg_cons_zero]
  exact Proc.bind_ok hrun

/-! ### Streams -/

theorem parseU64_toString (v : UInt64) : parseU64 (toString v.toNat) = some v := by
  have hle : v.toNat ≤ 2 ^ 64 - 1 := Nat.le_sub_one_of_lt v.toNat_lt
  rw [parseU64, parseUnsigned_toString hle, Option.map_some, UInt64.ofNat_toNat]

theorem toString_ne_star (n : ℕ) : toString n ≠ "*" := by
  intro heq
  have hmem : '*' ∈ (toString n).toList := by rw [heq]; decide
  rw [toList_toString_nat] at hmem
  exact absurd (isDigit_of_mem_toDigits hmem) (by decide)

/-- An id that is written out is read back. -/
theorem generateStreamId_text (now : UInt64) (dbs : Databases) (i : ℕ) (k : Bytes) (id : StreamId) :
    dbs.generateStreamId now i k (formatId id)
      = if id.1 = 0 ∧ id.2 = 0 then .error .streamIdTooSmall else .ok id := by
  have hminus :
      '-' ∈ (toString id.1.toNat ++ (String.singleton '-' ++ toString id.2.toNat)).toList := by
    simp
  have hstar : toString id.1.toNat ++ (String.singleton '-' ++ toString id.2.toNat) ≠ "*" := by
    intro heq
    rw [heq] at hminus
    exact absurd hminus (by decide)
  rw [Databases.generateStreamId, fromUtf8Lossy_formatId]
  rw [if_neg hstar, splitOnce_append (minus_notMem_toString _)]
  dsimp only
  rw [parseU64_toString]
  dsimp only
  rw [if_neg (toString_ne_star _), parseU64_toString]
  rfl

/-- An id above `0-0` is taken as it is. -/
theorem generateStreamId_formatId (now : UInt64) (dbs : Databases) (i : ℕ) (k : Bytes)
    {id : StreamId} (hid : idAfter id (0, 0) = true) :
    dbs.generateStreamId now i k (formatId id) = .ok id := by
  rw [generateStreamId_text, if_neg]
  rintro ⟨h1, h2⟩
  rw [idAfter, h1, h2] at hid
  exact absurd hid (by decide)

theorem toUpper_of_isDigit {c : Char} (h : c.isDigit = true) : c.toUpper = c := by
  simp only [Char.isDigit, Bool.and_eq_true, decide_eq_true_eq] at h
  have hle : c.val.toNat ≤ 57 := UInt32.le_iff_toNat_le.mp h.2
  refine dif_neg ?_
  rintro ⟨hlow, -⟩
  have : 97 ≤ c.val.toNat := UInt32.le_iff_toNat_le.mp hlow
  omega

/-- An id is not taken for an option. -/
theorem upper_formatId_ne (env : Env) (id : StreamId) : upper env (formatId id) ≠ "MAXLEN" := by
  have hdigits : ∀ n : ℕ, (toString n).toList.all
      (fun c => decide (c.toNat < 0x80) && c.toUpper == c) = true := by
    intro n
    rw [toList_toString_nat, List.all_eq_true]
    intro c hc
    have hd := isDigit_of_mem_toDigits hc
    simp [toNat_lt_of_isDigit hd, toUpper_of_isDigit hd]
  rw [upper, fromUtf8Lossy_formatId, Host.toUppercase_of_upper]
  · intro heq
    have hminus : '-' ∈ "MAXLEN".toList := by
      rw [← heq]
      simp
    exact absurd hminus (by decide)
  · rw [String.toList_append, String.toList_append, List.all_append, List.all_append, hdigits,
      hdigits]
    rfl

theorem xaddOptions_formatId (env : Env) (id : StreamId) (rest : List Bytes) :
    Cmd.xaddOptions env (formatId id :: rest) none = (none, formatId id :: rest) := by
  match rest with
  | [] => rfl
  | [_] => rfl
  | _ :: _ :: _ =>
    rw [Cmd.xaddOptions, if_neg fun h => upper_formatId_ne env id h.1]

/-- What is stored after some entries of a stream have been added. -/
def streamSoFar (es : List StreamEntry) : Option Entry :=
  es.getLast?.map fun e => { value := .stream es e.idMs e.idSeq }

theorem streamLastId?_soFar (hi : i < dbs.length) {es : List StreamEntry}
    (hfind : dbs.find i k = streamSoFar es) (now : UInt64) :
    dbs.streamLastId? now i k = es.getLast?.map StreamEntry.id := by
  have hentry : dbs.entry now i k = .ok (streamSoFar es) := by
    rw [Databases.entry, Databases.db, List.getElem?_eq_getElem hi]
    show Except.ok ((dbs[i].lookup k).filter fun e => !e.expired now) = _
    rw [Keyspace.lookup_eq_find hi, hfind, streamSoFar]
    cases es.getLast? <;> rfl
  rw [Databases.streamLastId?, hentry, streamSoFar]
  cases es.getLast? <;> rfl

/-- One entry more. -/
theorem xadd_run (hi : i < dbs.length) {es : List StreamEntry}
    (hfind : dbs.find i k = streamSoFar es) {e : StreamEntry}
    (hlast : ∀ last ∈ es.getLast?, idAfter e.id last.id = true)
    (hid : idAfter e.id (0, 0) = true) (now : UInt64) :
    Keyspace.xadd now i k (formatId e.id) e.fields none ⟨dbs, []⟩ = (.ok (formatId e.id), ⟨dbs.put i k
      { value := .stream (es ++ [e]) e.idMs e.idSeq }, [k]⟩) := by
  have hgen : Keyspace.read (fun dbs => dbs.generateStreamId now i k (formatId e.id)) ⟨dbs, []⟩
      = (.ok e.id, ⟨dbs, []⟩) := by
    rw [Keyspace.read, generateStreamId_formatId now dbs i k hid]
    rfl
  have hread : Keyspace.read (fun dbs => .ok (dbs.streamLastId? now i k)) ⟨dbs, []⟩
      = (.ok (es.getLast?.map StreamEntry.id), ⟨dbs, []⟩) := by
    rw [Keyspace.read, streamLastId?_soFar hi hfind]
    rfl
  have hold : ∃ last : StreamId, (dbs.find i k).getD { value := Kind.stream.wrap ([], 0, 0) }
      = { value := .stream es last.1 last.2 } := by
    rw [hfind, streamSoFar]
    cases hes : es.getLast? with
    | none =>
      rw [List.getLast?_eq_none_iff.mp hes]
      exact ⟨(0, 0), rfl⟩
    | some last => exact ⟨last.id, rfl⟩
  obtain ⟨last, hold⟩ := hold
  have hunwrap : Kind.stream.unwrap
      ((dbs.find i k).getD { value := Kind.stream.wrap ([], 0, 0) }).value = some (es, last) := by
    rw [hold]
    rfl
  have hadd := Keyspace.upsertAs_run .stream hi hunwrap (fun s => (.ok (formatId e.id),
    (s.1 ++ [e], e.idMs, e.idSeq))) []
  rw [hold] at hadd
  rw [Keyspace.xadd, Proc.bind_ok hgen, Proc.bind_ok hread]
  cases hes : es.getLast? with
  | none => exact Proc.bind_ok hadd
  | some last' =>
    simp only [Option.map_some, hlast last' hes, if_true]
    exact Proc.bind_ok hadd

theorem builds_xadd (hi : i < dbs.length) {es : List StreamEntry}
    (hfind : dbs.find i k = streamSoFar es) {e : StreamEntry}
    (hlast : ∀ last ∈ es.getLast?, idAfter e.id last.id = true)
    (hid : idAfter e.id (0, 0) = true) (hfields : e.fields ≠ []) :
    Builds H (fresh dbs i) [asBytes "XADD" :: k :: formatId e.id :: flatPairs e.fields]
      (fresh (dbs.put i k { value := .stream (es ++ [e]) e.idMs e.idSeq }) i) := by
  refine builds_write rfl rfl fun env _ => ⟨.bulk (formatId e.id), [k], ?_⟩
  simp only [Cmd.xadd, List.drop_succ_cons, List.drop_zero, xaddOptions_formatId,
    parsePairs_flatPairs, hfields, if_false, arg_cons_zero, lift_ok_bind]
  exact Proc.bind_ok (xadd_run hi hfind hlast hid env.now)

theorem streamSoFar_concat (es : List StreamEntry) (e : StreamEntry) :
    streamSoFar (es ++ [e]) = some { value := .stream (es ++ [e]) e.idMs e.idSeq } := by
  rw [streamSoFar, List.getLast?_concat]
  rfl

/-- The entries of a stream, one after the other. -/
theorem builds_stream {es' : List StreamEntry} (hi : i < dbs.length) (es : List StreamEntry)
    (hfind : dbs.find i k = streamSoFar es)
    (hpair : (es ++ es').Pairwise fun a b => idAfter b.id a.id = true)
    (hes : ∀ e ∈ es', idAfter e.id (0, 0) = true ∧ e.fields ≠ []) (hne : es' ≠ []) :
    ∃ dbs' e', Builds H (fresh dbs i)
        (es'.map fun e => asBytes "XADD" :: k :: formatId e.id :: flatPairs e.fields)
        (fresh dbs' i) ∧ streamSoFar (es ++ es') = some e' ∧ Wrote dbs i k e' dbs' := by
  induction es' generalizing dbs es with
  | nil => exact absurd rfl hne
  | cons e es' ih =>
    obtain ⟨hid, hfields⟩ := hes e List.mem_cons_self
    have hlast : ∀ last ∈ es.getLast?, idAfter e.id last.id = true := by
      intro last hmem
      exact (List.pairwise_append.mp hpair).2.2 last (List.mem_of_getLast? hmem) e
        List.mem_cons_self
    have hone := builds_xadd (H := H) hi hfind hlast hid hfields
    have hwrote := wrote_put hi (k := k) { value := .stream (es ++ [e]) e.idMs e.idSeq }
    have hsofar := streamSoFar_concat es e
    have hsplit : es ++ e :: es' = es ++ [e] ++ es' := by simp
    rw [hsplit] at hpair ⊢
    by_cases hrest : es' = []
    · subst hrest
      rw [List.append_nil]
      exact ⟨_, _, hone, hsofar, hwrote⟩
    · obtain ⟨dbs', e', hbuilds, hend, hwrote'⟩ := ih (hwrote.length ▸ hi) (es ++ [e])
        (hwrote.self.trans hsofar.symm) hpair (fun e he => hes e (List.mem_cons_of_mem _ he)) hrest
      exact ⟨dbs', e', hone.append hbuilds, hend, hwrote.trans hwrote'⟩

theorem rebuilds_stream {es : List StreamEntry} (ms seq : UInt64) (hne : es ≠ [])
    (hpair : es.Pairwise fun a b => idAfter b.id a.id = true)
    (hes : ∀ e ∈ es, idAfter e.id (0, 0) = true ∧ e.fields ≠ []) :
    Rebuilds H k (.stream es ms seq) := by
  intro dbs i hi hnone
  obtain ⟨dbs', e', hbuilds, hend, hwrote⟩ := builds_stream (H := H) hi [] hnone hpair hes hne
  obtain ⟨last, hlast⟩ : ∃ last, es.getLast? = some last :=
    ⟨_, List.getLast?_eq_some_getLast hne⟩
  rw [List.nil_append, streamSoFar, hlast] at hend
  obtain rfl := Option.some.inj hend
  exact ⟨dbs', _, 0, hbuilds, hwrote, rfl, trivial⟩

/-! ### Nested hashes -/

/-- What `nhset` does to a nested hash. -/
def nhsetStep (m : HashMap Bytes (HashMap Bytes Bytes)) (t : Bytes × Bytes × Bytes) :
    HashMap Bytes (HashMap Bytes Bytes) :=
  m.insert t.1 (((m.lookup t.1).getD ∅).insert t.2.1 t.2.2)

/-- The fields, subfields and values of a nested hash. -/
def triples (l : List (Bytes × HashMap Bytes Bytes)) : List (Bytes × Bytes × Bytes) :=
  l.flatMap fun p => p.2.pairs.map fun q => (p.1, q)

/-- The subfields, one after the other. -/
theorem builds_nested {l : List (Bytes × Bytes × Bytes)} (hi : i < dbs.length)
    {m : HashMap Bytes (HashMap Bytes Bytes)}
    (hold : (dbs.find i k).getD { value := Kind.nestedHash.wrap ∅ } = { value := .nestedHash m })
    (hne : l ≠ []) :
    ∃ dbs', Builds H (fresh dbs i) (l.map fun t => [asBytes "NHSET", k, t.1, t.2.1, t.2.2])
        (fresh dbs' i) ∧ Wrote dbs i k { value := .nestedHash (l.foldl nhsetStep m) } dbs' := by
  induction l generalizing dbs m with
  | nil => exact absurd rfl hne
  | cons t l ih =>
    have hunwrap : Kind.nestedHash.unwrap
        ((dbs.find i k).getD { value := Kind.nestedHash.wrap ∅ }).value = some m := by
      rw [hold]
      rfl
    have hrun := Keyspace.upsertAs_run .nestedHash hi hunwrap (fun m =>
      let inner : HashMap Bytes Bytes := (m.lookup t.1).getD ∅
      (.ok (if (inner.lookup t.2.1).isSome then 0 else 1),
        m.insert t.1 (inner.insert t.2.1 t.2.2))) []
    rw [hold] at hrun
    have hnhset : findCommand "NHSET" = some ⟨"NHSET", 5, .write Cmd.nhset⟩ := rfl
    have hone : Builds H (fresh dbs i) [[asBytes "NHSET", k, t.1, t.2.1, t.2.2]]
        (fresh (dbs.put i k { value := .nestedHash (nhsetStep m t) }) i) :=
      builds_write hnhset (refuses_of_length rfl (by simp)) fun env _ =>
        ⟨_, [], Proc.bind_ok hrun⟩
    have hwrote := wrote_put hi (k := k) { value := .nestedHash (nhsetStep m t) }
    by_cases hrest : l = []
    · subst hrest
      exact ⟨_, hone, hwrote⟩
    · have hold' : ((dbs.put i k { value := .nestedHash (nhsetStep m t) }).find i k).getD
          { value := Kind.nestedHash.wrap ∅ } = { value := .nestedHash (nhsetStep m t) } := by
        rw [hwrote.self]
        rfl
      obtain ⟨dbs', hbuilds, hwrote'⟩ := ih (hwrote.length ▸ hi) hold' hrest
      exact ⟨dbs', hone.append hbuilds, hwrote.trans hwrote'⟩

/-- Setting the subfields of one field. -/
theorem lookup_nhsetStep_field (f : Bytes) (l : List (Bytes × Bytes))
    (m : HashMap Bytes (HashMap Bytes Bytes)) (f' : Bytes) :
    ((l.map fun q => (f, q)).foldl nhsetStep m).lookup f' = if f' = f ∧ l ≠ []
      then some (HashMap.insertAll ((m.lookup f).getD ∅) l) else m.lookup f' := by
  induction l generalizing m with
  | nil => simp
  | cons q l ih =>
    rw [List.map_cons, List.foldl_cons, ih]
    by_cases hf : f' = f
    · subst hf
      have hself : (nhsetStep m (f', q)).lookup f'
          = some (((m.lookup f').getD ∅).insert q.1 q.2) := AList.lookup_insert _
      rw [hself]
      by_cases hl : l = []
      · subst hl
        rw [if_neg fun h => h.2 rfl, if_pos ⟨rfl, List.cons_ne_nil _ _⟩]
        rfl
      · rw [if_pos ⟨rfl, hl⟩, if_pos ⟨rfl, List.cons_ne_nil _ _⟩]
        rfl
    · rw [if_neg fun h => hf h.1, if_neg fun h => hf h.1, nhsetStep, AList.lookup_insert_ne hf]

/-- Setting all fields. -/
theorem lookup_nhsetStep_triples {l : List (Bytes × HashMap Bytes Bytes)}
    (hnd : (l.map Prod.fst).Nodup) (hne : ∀ p ∈ l, p.2.pairs ≠ [])
    {m : HashMap Bytes (HashMap Bytes Bytes)} (hfresh : ∀ p ∈ l, m.lookup p.1 = none) :
    (∀ p ∈ l, ((triples l).foldl nhsetStep m).lookup p.1
        = some (HashMap.insertAll ∅ p.2.pairs)) ∧
      ∀ f ∉ l.map Prod.fst, ((triples l).foldl nhsetStep m).lookup f = m.lookup f := by
  induction l generalizing m with
  | nil => exact ⟨fun p hp => absurd hp List.not_mem_nil, fun f _ => rfl⟩
  | cons p l ih =>
    rw [List.map_cons] at hnd
    obtain ⟨hnot, hnd'⟩ := List.nodup_cons.mp hnd
    have hstep := lookup_nhsetStep_field p.1 p.2.pairs m
    have hfresh' : ∀ q ∈ l,
        ((p.2.pairs.map fun q => (p.1, q)).foldl nhsetStep m).lookup q.1 = none := by
      intro q hq
      have hqp : q.1 ≠ p.1 := fun heq => hnot (heq ▸ List.mem_map_of_mem hq)
      rw [hstep, if_neg fun h => hqp h.1]
      exact hfresh q (List.mem_cons_of_mem _ hq)
    obtain ⟨hin, hout⟩ := ih hnd' (fun q hq => hne q (List.mem_cons_of_mem _ hq)) hfresh'
    have hsplit : triples (p :: l) = (p.2.pairs.map fun q => (p.1, q)) ++ triples l := rfl
    rw [hsplit, List.foldl_append]
    refine ⟨fun q hq => ?_, fun f hf => ?_⟩
    · rcases List.mem_cons.mp hq with rfl | hmem
      · rw [hout q.1 hnot, hstep, if_pos ⟨rfl, hne q List.mem_cons_self⟩,
          hfresh q List.mem_cons_self]
        rfl
      · exact hin q hmem
    · rw [List.map_cons, List.mem_cons, not_or] at hf
      rw [hout f hf.2, hstep, if_neg fun h => hf.1 h.1]

theorem sameNested_triples {nh : HashMap Bytes (HashMap Bytes Bytes)}
    (hne : ∀ p ∈ nh.pairs, p.2.pairs ≠ []) :
    SameNested nh ((triples nh.pairs).foldl nhsetStep ∅) := by
  obtain ⟨hin, hout⟩ := lookup_nhsetStep_triples nh.nodup_pairs hne
    fun p _ => AList.lookup_empty p.1
  intro f
  cases hf : nh.lookup f with
  | none =>
    have hnot : f ∉ nh.pairs.map Prod.fst := by
      rw [HashMap.map_fst_pairs]
      exact AList.lookup_eq_none.mp hf
    rw [hout f hnot, AList.lookup_empty]
    exact Option.Rel.none
  | some inner =>
    rw [hin (f, inner) (HashMap.mem_pairs.mpr hf)]
    exact Option.Rel.some fun k => (HashMap.lookup_insertAll_perm (List.Perm.refl _) k).symm

theorem rebuilds_nestedHash {nh : HashMap Bytes (HashMap Bytes Bytes)} (hne : nh.pairs ≠ [])
    (hinner : ∀ p ∈ nh.pairs, p.2.pairs ≠ []) : Rebuilds H k (.nestedHash nh) := by
  intro dbs i hi hnone
  have htriples : triples nh.pairs ≠ [] := by
    obtain ⟨p, l, hl⟩ := List.exists_cons_of_ne_nil hne
    have hp := hinner p (hl ▸ List.mem_cons_self)
    rw [hl, triples, List.flatMap_cons]
    exact List.append_ne_nil_of_left_ne_nil (by simpa using hp) _
  have hold : (dbs.find i k).getD { value := Kind.nestedHash.wrap ∅ }
      = { value := .nestedHash ∅ } := by
    rw [hnone]
    rfl
  obtain ⟨dbs', hbuilds, hwrote⟩ := builds_nested (H := H) hi hold htriples
  refine ⟨dbs', _, 0, ?_, hwrote, .nestedHash (sameNested_triples hinner), trivial⟩
  rw [commandsForValue]
  rw [triples, List.map_flatMap] at hbuilds
  simp only [List.map_map] at hbuilds
  exact hbuilds

/-! ### A dataset -/

namespace StorageValue

/-- No container is empty, no score is a NaN, and the ids of a stream increase from above `0-0`,
each with at least one field. -/
def Rewritable : StorageValue → Prop
  | string _ => True
  | list l => l ≠ []
  | set s => s.keys ≠ []
  | hash h => h.pairs ≠ []
  | zset members _ => members.pairs ≠ [] ∧ ∀ p ∈ members.pairs, p.2.isNaN = false
  | stream es _ _ => es ≠ [] ∧ (es.Pairwise fun a b => idAfter b.id a.id = true) ∧
      ∀ e ∈ es, idAfter e.id (0, 0) = true ∧ e.fields ≠ []
  | nestedHash nh => nh.pairs ≠ [] ∧ ∀ p ∈ nh.pairs, p.2.pairs ≠ []

/-- The scores of a value are printed so that they parse to themselves. -/
def Printable (H : Host) : StorageValue → Prop
  | zset members _ => ∀ p ∈ members.pairs, H.parseF64 (H.displayF64 p.2) = some p.2
  | _ => True

end StorageValue

/-- **One value.** -/
theorem builds_value {v : StorageValue} (hv : v.Rewritable) (hfloat : v.Printable H) (k : Bytes) :
    Rebuilds H k v := by
  cases v with
  | string v => exact rebuilds_string v
  | list l => exact rebuilds_list hv
  | set s => exact rebuilds_set hv
  | hash h => exact rebuilds_hash hv
  | zset members scores => exact rebuilds_zset scores hv.1 hv.2 hfloat
  | stream es ms seq => exact rebuilds_stream ms seq hv.1 hv.2.1 hv.2.2
  | nestedHash nh => exact rebuilds_nestedHash hv.1 hv.2

/-- The entry is there again: the same contents, the same expiry, and an index that fits. -/
structure Restored (e e' : Entry) : Prop where
  contents : e.value.SameContents e'.value
  expireAt : e.expireAt = e'.expireAt
  indexed : e'.value.Indexed

theorem argU64_toString (v : UInt64) : argU64 (asBytes (toString v.toNat)) = some v := by
  rw [argU64, fromUtf8Lossy_asBytes, parseU64_toString]

/-- One entry, with its expiry. -/
theorem builds_entry {p : Bytes × Entry} (hv : p.2.value.Rewritable)
    (hfloat : p.2.value.Printable H) (hi : i < dbs.length) (hnone : dbs.find i p.1 = none) :
    ∃ dbs' e', Builds H (fresh dbs i) (commandsForEntry H p) (fresh dbs' i) ∧
      Wrote dbs i p.1 e' dbs' ∧ Restored p.2 e' := by
  obtain ⟨dbs', v', version, hbuilds, hwrote, hsame, hindexed⟩ :=
    builds_value hv hfloat p.1 dbs i hi hnone
  rw [commandsForEntry]
  cases hexp : p.2.expireAt with
  | none =>
    simp only [List.append_nil]
    exact ⟨dbs', _, hbuilds, hwrote, hsame, hexp, hindexed⟩
  | some at_ =>
    have hi' : i < dbs'.length := hwrote.length ▸ hi
    have hpexpireat : findCommand "PEXPIREAT" = some ⟨"PEXPIREAT", 3, .write Cmd.pexpireat⟩ := rfl
    have hone : Builds H (fresh dbs' i) [[asBytes "PEXPIREAT", p.1, asBytes (toString at_.toNat)]]
        (fresh (dbs'.put i p.1 { value := v', expireAt := some at_, version }) i) := by
      refine builds_write hpexpireat (refuses_of_length rfl (by simp)) fun env _ =>
        ⟨flag true, [], ?_⟩
      simp only [Cmd.pexpireat, Cmd.expireWith, arg_cons_succ, arg_cons_zero, lift_ok_bind,
        argU64_toString, Option.getD_some, id_eq, Keyspace.setExpire]
      exact Proc.bind_ok (Keyspace.changeExpire_run hi' hwrote.self (some at_) [])
    exact ⟨_, _, hbuilds.append hone, hwrote.trans (wrote_put hi' _), hsame, hexp, hindexed⟩

/-- Replaying what is written for an entry leaves something that is as `R` says. -/
def Replays (H : Host) (R : Entry → Option Entry → Prop) (p : Bytes × Entry) : Prop :=
  ∀ (dbs : Databases) (i : ℕ), i < dbs.length → dbs.find i p.1 = none → ∃ dbs' o,
    Builds H (fresh dbs i) (commandsForEntry H p) (fresh dbs' i) ∧ Leaves dbs i p.1 o dbs' ∧
      R p.2 o

/-- What the entries of a database look like after they have been replayed. -/
structure Filled (R : Entry → Option Entry → Prop) (l : List (Bytes × Entry)) (i : ℕ)
    (dbs dbs' : Databases) : Prop where
  length : dbs'.length = dbs.length
  written : ∀ p ∈ l, R p.2 (dbs'.find i p.1)
  other : ∀ j k, j ≠ i ∨ k ∉ l.map Prod.fst → dbs'.find j k = dbs.find j k

variable {R : Entry → Option Entry → Prop}

/-- The entries of a database, one after the other. -/
theorem builds_entries {l : List (Bytes × Entry)} (hnd : (l.map Prod.fst).Nodup)
    (hl : ∀ p ∈ l, Replays H R p) (hi : i < dbs.length) (hnone : ∀ p ∈ l, dbs.find i p.1 = none) :
    ∃ dbs', Builds H (fresh dbs i) (l.flatMap (commandsForEntry H)) (fresh dbs' i) ∧
      Filled R l i dbs dbs' := by
  induction l generalizing dbs with
  | nil => exact ⟨dbs, builds_nil _, rfl, fun p hp => absurd hp List.not_mem_nil, fun _ _ _ => rfl⟩
  | cons p l ih =>
    rw [List.map_cons] at hnd
    obtain ⟨hnot, hnd'⟩ := List.nodup_cons.mp hnd
    obtain ⟨dbs₁, o₁, hone, hleaves, hR⟩ :=
      hl p List.mem_cons_self dbs i hi (hnone p List.mem_cons_self)
    have hnone' : ∀ q ∈ l, dbs₁.find i q.1 = none := by
      intro q hq
      have hqp : q.1 ≠ p.1 := fun heq => hnot (heq ▸ List.mem_map_of_mem hq)
      rw [hleaves.other i q.1 (Or.inr hqp)]
      exact hnone q (List.mem_cons_of_mem _ hq)
    obtain ⟨dbs₂, hrest, hfilled⟩ := ih hnd' (fun q hq => hl q (List.mem_cons_of_mem _ hq))
      (hleaves.length ▸ hi) hnone'
    refine ⟨dbs₂, hone.append hrest, hfilled.length.trans hleaves.length, fun q hq => ?_,
      fun j k hjk => ?_⟩
    · rcases List.mem_cons.mp hq with rfl | hmem
      · rwa [hfilled.other i q.1 (Or.inr hnot), hleaves.self]
      · exact hfilled.written q hmem
    · rw [List.map_cons, List.mem_cons, not_or] at hjk
      rw [hfilled.other j k (hjk.imp_right And.right), hleaves.other j k (hjk.imp_right And.left)]

theorem builds_select {n : ℕ} (hn : n ≤ usizeMax) (dbs : Databases) (i : ℕ) :
    Builds H (fresh dbs i) [[asBytes "SELECT", asBytes (toString n)]] (fresh dbs n) := by
  have hselect : findCommand "SELECT" = some ⟨"SELECT", 2, .side Cmd.select⟩ := rfl
  obtain ⟨hmem, -⟩ := mem_of_findCommand hselect
  have hargs : (CommandDef.mk "SELECT" 2 (.side Cmd.select)).refuses [asBytes (toString n)] = false :=
    refuses_of_length rfl (by simp)
  have hparse : argUsize (asBytes (toString n)) = some n := by
    rw [argUsize, fromUtf8Lossy_asBytes, parseUnsigned_toString hn]
  refine builds_cons (fun env _ => ⟨.ok, ?_⟩) (builds_nil _)
  have hrun : (Handler.side Cmd.select).run (dispatchDepth env env.nesting) env
      [asBytes (toString n)] (fresh dbs i) = (.ok .ok, fresh dbs n) := by
    simp only [Handler.run, Cmd.select, arg_cons_zero, lift_ok_bind, hparse, Option.getD_some]
    rfl
  rw [upper_name hmem env, dispatch_eq hmem env (deniesMemory_fresh dbs i "SELECT") hargs,
    catchError, hrun]

variable {now : UInt64} {src : Databases}

/-- What a rewrite needs of the databases it is given. The numbers of databases and of bytes are
bounds of the types that hold them. -/
structure CanRewrite (H : Host) (now : UInt64) (dbs : Databases) : Prop where
  values : ∀ d ∈ dbs, ∀ p ∈ Databases.live now d, p.2.value.Rewritable
  floats : ∀ d ∈ dbs, ∀ p ∈ Databases.live now d, p.2.value.Printable H
  databases : dbs.length ≤ usizeMax
  bytes : (writeDataset H now dbs).length < 2 ^ 63

/-- The databases below `n` have been replayed, the others are empty. -/
structure FilledTo (R : Entry → Option Entry → Prop) (now : UInt64) (src : Databases) (n : ℕ)
    (dbs : Databases) : Prop where
  length : dbs.length = src.length
  done : ∀ i < n, ∀ k e, src.liveEntry now i k = some e → R e (dbs.find i k)
  absent : ∀ i < n, ∀ k, src.liveEntry now i k = none → dbs.find i k = none
  rest : ∀ i, n ≤ i → ∀ k, dbs.find i k = none

/-- One database. The client ends up wherever the last section has put it. -/
theorem builds_db (hv : ∀ d ∈ src, ∀ p ∈ Databases.live now d, Replays H R p)
    (hmax : src.length ≤ usizeMax) {n : ℕ} (hn : n < src.length) {j : ℕ}
    (hj : src.length ≤ 1 → j = 0) (h : FilledTo R now src n dbs) :
    ∃ dbs' j', Builds H (fresh dbs j) (commandsForDb H now src n) (fresh dbs' j') ∧
      (src.length ≤ 1 → j' = 0) ∧ FilledTo R now src (n + 1) dbs' := by
  have hd : src[n]? = some src[n] := List.getElem?_eq_getElem hn
  have hiter : src.iterateDb now n = .ok (Databases.live now src[n]) := by
    rw [Databases.iterateDb, Databases.db, hd]
    rfl
  have hnone := h.rest n le_rfl
  obtain ⟨dbs', hbuilds, hfilled⟩ := builds_entries (H := H) (Databases.nodup_live now src[n])
    (hv _ (List.getElem_mem hn)) (h.length ▸ hn) fun p _ => hnone p.1
  have hnext : FilledTo R now src (n + 1) dbs' := by
    refine ⟨hfilled.length.trans h.length, fun i hi k e he => ?_, fun i hi k he => ?_,
      fun i hi k => ?_⟩
    · rcases Nat.lt_succ_iff_lt_or_eq.mp hi with hlt | rfl
      · rw [hfilled.other i k (Or.inl hlt.ne)]
        exact h.done i hlt k e he
      · obtain ⟨d, hd', hp⟩ := Databases.liveEntry_eq_some.mp he
        obtain rfl := Option.some.inj (hd.symm.trans hd')
        exact hfilled.written (k, e) hp
    · rcases Nat.lt_succ_iff_lt_or_eq.mp hi with hlt | rfl
      · rw [hfilled.other i k (Or.inl hlt.ne)]
        exact h.absent i hlt k he
      · rw [hfilled.other i k (Or.inr fun hmem => ?_)]
        · exact hnone k
        · obtain ⟨⟨k', e⟩, hp, rfl⟩ := List.mem_map.mp hmem
          rw [Databases.liveEntry_eq_some.mpr ⟨_, hd, hp⟩] at he
          cases he
    · rw [hfilled.other i k (Or.inl (Nat.ne_of_gt hi))]
      exact h.rest i (Nat.le_of_succ_le hi) k
  simp only [commandsForDb, hiter]
  by_cases hempty : Databases.live now src[n] = []
  · -- nothing is written, not even the `SELECT`
    rw [hempty] at hbuilds
    have hsame := hbuilds (fun _ => ⟨0, 0, 0, 0⟩) 0
    obtain rfl : dbs = dbs' := congrArg (fun r => r.2.store.databases) hsame
    rw [if_pos hempty]
    exact ⟨dbs, j, builds_nil _, hj, hnext⟩
  · rw [if_neg hempty]
    by_cases hone : 1 < src.length
    · rw [if_pos hone]
      exact ⟨dbs', n, (builds_select (by omega) dbs j).append hbuilds, fun hle => by omega, hnext⟩
    · obtain rfl : n = 0 := by omega
      rw [if_neg hone, hj (by omega)]
      exact ⟨dbs', 0, hbuilds, fun _ => rfl, hnext⟩

/-- **A whole dataset.** -/
theorem builds_dataset (hv : ∀ d ∈ src, ∀ p ∈ Databases.live now d, Replays H R p)
    (hmax : src.length ≤ usizeMax) :
    ∃ dbs' j, Builds H (fresh (Store.new src.length).databases 0) (datasetCommands H now src)
        (fresh dbs' j) ∧ FilledTo R now src src.length dbs' := by
  have hstep : ∀ n ≤ src.length, ∃ dbs' j, Builds H (fresh (Store.new src.length).databases 0)
      ((List.range n).flatMap (commandsForDb H now src)) (fresh dbs' j) ∧
        (src.length ≤ 1 → j = 0) ∧ FilledTo R now src n dbs' := by
    intro n
    induction n with
    | zero =>
      intro _
      exact ⟨_, 0, builds_nil _, fun _ => rfl, List.length_replicate,
        fun i hi => absurd hi (Nat.not_lt_zero i), fun i hi => absurd hi (Nat.not_lt_zero i),
        fun i _ k => Databases.find_new _ i k⟩
    | succ n ih =>
      intro hn
      obtain ⟨dbs₁, j₁, hbuilds, hj, hfilled⟩ := ih (Nat.le_of_succ_le hn)
      obtain ⟨dbs₂, j₂, hdb, hj', hfilled'⟩ := builds_db hv hmax hn hj hfilled
      refine ⟨dbs₂, j₂, ?_, hj', hfilled'⟩
      rw [List.range_succ, List.flatMap_append, List.flatMap_singleton]
      exact hbuilds.append hdb
  obtain ⟨dbs', j, hbuilds, -, hfilled⟩ := hstep src.length le_rfl
  exact ⟨dbs', j, hbuilds, hfilled⟩

theorem commandsForValue_ne_nil (H : Host) (k : Bytes) (v : StorageValue) :
    ∀ c ∈ commandsForValue H k v, c ≠ [] := by
  rintro c hc rfl
  cases v <;> simp [commandsForValue] at hc

theorem datasetCommands_ne_nil (H : Host) (now : UInt64) (dbs : Databases) :
    ∀ c ∈ datasetCommands H now dbs, c ≠ [] := by
  have hentry : ∀ p : Bytes × Entry, [] ∉ commandsForEntry H p := by
    intro p hp
    rcases List.mem_append.mp hp with hv | hexp
    · exact commandsForValue_ne_nil H p.1 p.2.value [] hv rfl
    · cases h : p.2.expireAt <;> simp [h] at hexp
  rintro c hc rfl
  obtain ⟨i, -, hi⟩ := List.mem_flatMap.mp hc
  rw [commandsForDb] at hi
  split at hi
  · exact List.not_mem_nil hi
  · split at hi
    · exact List.not_mem_nil hi
    · rcases List.mem_append.mp hi with hsel | hmem
      · split at hsel <;> simp at hsel
      · obtain ⟨p, -, hp⟩ := List.mem_flatMap.mp hmem
        exact hentry p hp

/-- **A rewritten log, replayed on an empty store**, entry by entry. -/
theorem replayAof_dataset (hv : ∀ d ∈ src, ∀ p ∈ Databases.live now d, Replays H R p)
    (hmax : src.length ≤ usizeMax) (hbytes : (writeDataset H now src).length < 2 ^ 63)
    (clock : ℕ → Moment) :
    ∃ w, replayAof H clock (writeDataset H now src) { store := Store.new src.length, ctx := {} }
        = (.ok (datasetCommands H now src).length, w) ∧
      w.store.databases.length = src.length ∧
      (∀ i k e, src.liveEntry now i k = some e → R e (w.store.databases.find i k)) ∧
      ∀ i k, src.liveEntry now i k = none → w.store.databases.find i k = none := by
  obtain ⟨dbs', j, hbuilds, hfilled⟩ := builds_dataset hv hmax
  refine ⟨fresh dbs' j, ?_, hfilled.length, fun i k e he => ?_, fun i k he => ?_⟩
  · rw [writeDataset, replay_encoded (datasetCommands_ne_nil H now src) hbytes]
    have hrun := hbuilds clock 0
    rwa [Nat.zero_add] at hrun
  · exact hfilled.done i (Databases.lt_of_liveEntry he) k e he
  · by_cases hi : i < src.length
    · exact hfilled.absent i hi k he
    · exact hfilled.rest i (Nat.le_of_not_lt hi) k

/-- **Rewriting the log keeps its meaning.** Replayed on an empty store, at whatever time, it gives
exactly the entries that were live when it was written. -/
theorem replayAof_writeDataset (h : CanRewrite H now src) (clock : ℕ → Moment) :
    ∃ w, replayAof H clock (writeDataset H now src) { store := Store.new src.length, ctx := {} }
        = (.ok (datasetCommands H now src).length, w) ∧
      w.store.databases.length = src.length ∧
      ∀ i k, Option.Rel Restored (src.liveEntry now i k) (w.store.databases.find i k) := by
  have hv : ∀ d ∈ src, ∀ p ∈ Databases.live now d,
      Replays H (fun e o => ∃ e', o = some e' ∧ Restored e e') p := by
    intro d hd p hp dbs i hi hnone
    obtain ⟨dbs', e', hbuilds, hwrote, hrestored⟩ :=
      builds_entry (h.values d hd p hp) (h.floats d hd p hp) hi hnone
    exact ⟨dbs', some e', hbuilds, hwrote.leaves, e', rfl, hrestored⟩
  obtain ⟨w, hreplay, hlen, hsome, hnone⟩ := replayAof_dataset hv h.databases h.bytes clock
  refine ⟨w, hreplay, hlen, fun i k => ?_⟩
  cases he : src.liveEntry now i k with
  | none =>
    rw [hnone i k he]
    exact Option.Rel.none
  | some e =>
    obtain ⟨e', hfind, hrestored⟩ := hsome i k e he
    rw [hfind]
    exact Option.Rel.some hrestored

/-- A host that prints and parses the score zero. -/
def zeroHost : Host := { Host.plain with parseF64 := fun s => if s = "0" then some ⟨0⟩ else none }

/-- A database with a value of every kind. The first key is spelled like an option, and so is a
member; the last key has expired by time 100. -/
def optionsDb : Db := HashMap.insertAll ∅
  [(asBytes "MAXLEN", { value := .string (asBytes "NX") }),
   ([2], { value := .list [[7], [], [13, 10]], expireAt := some 200 }),
   ([3], { value := .set (HashMap.insertAll ∅ [([1], ()), ([], ())]) }),
   ([4], { value := .hash (HashMap.insertAll ∅ [([1], [2])]) }),
   ([5], { value := .zset (HashMap.insertAll ∅ [(asBytes "CH", ⟨0⟩)]) [] }),
   ([6], { value := .stream [⟨0, 1, [([1], [2])]⟩, ⟨5, 0, [([1], []), ([1], [2])]⟩] 9 0 }),
   ([7], { value := .nestedHash (HashMap.insertAll ∅ [([1], HashMap.insertAll ∅ [([2], [3])])]) }),
   ([8], { value := .string [], expireAt := some 100 })]

instance : DecidablePred StorageValue.Rewritable
  | .string _ => inferInstanceAs (Decidable True)
  | .list _ | .set _ | .hash _ => inferInstanceAs (Decidable (_ ≠ _))
  | .zset _ _ | .stream _ _ _ | .nestedHash _ => inferInstanceAs (Decidable (_ ∧ _))

instance (H : Host) : DecidablePred (StorageValue.Printable H)
  | .zset _ _ => inferInstanceAs (Decidable (∀ _ ∈ _, _))
  | .string _ | .list _ | .set _ | .hash _ | .stream _ _ _ | .nestedHash _ =>
    inferInstanceAs (Decidable True)

theorem replayAof_writeDataset_optionsDb :
    ∃ w, replayAof zeroHost (fun _ => ⟨500, 0, 0, 0⟩) (writeDataset zeroHost 100 [∅, optionsDb])
        { store := Store.new 2, ctx := {} } = (.ok 10, w) ∧ w.store.databases.length = 2 ∧
      ∀ i k, Option.Rel Restored (Databases.liveEntry 100 [∅, optionsDb] i k)
        (w.store.databases.find i k) :=
  @replayAof_writeDataset zeroHost 100 [∅, optionsDb]
    { values := by decide +kernel
      floats := by decide +kernel
      databases := by decide +kernel
      bytes := by decide +kernel } fun _ => ⟨500, 0, 0, 0⟩

end VeloDB
