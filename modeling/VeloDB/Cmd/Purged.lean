import VeloDB.Cmd.Generic
import VeloDB.Store.Zsets

/-!
# Expired keys

An entry whose time has come stays in its database until something removes it. `purge` is the store
without these entries, and the methods that look at the expiry cannot tell the two apart. A read
gives the same result; a write gives the same result and leaves the same live values. What is left
of an expired entry is its version, which `set` goes on counting from.

## Main results

* `GuardedRead.eq_purge`, `GuardedWrite.alike` — one method on a store and on the purged store
* `purge_indistinguishable` — all methods that look at the expiry
-/

namespace VeloDB

open Rust

/-! ### The purged store -/

/-- A database without its expired entries. -/
def purgeDb (now : UInt64) (d : Db) : Db where
  entries := d.entries.filter fun e => !e.2.expired now
  nodupKeys := d.nodupKeys.sublist List.filter_sublist

/-- The databases without their expired entries. -/
def purge (now : UInt64) (dbs : Databases) : Databases := dbs.map (purgeDb now)

/-- The same live keys with the very same values and expiries. -/
structure SameVisible (now : UInt64) (dbs dbs' : Databases) : Prop where
  length : dbs.length = dbs'.length
  live : ∀ i k, (dbs.liveEntry now i k).map (fun e => (e.value, e.expireAt))
    = (dbs'.liveEntry now i k).map fun e => (e.value, e.expireAt)

variable {now : UInt64}

theorem lookup_purgeDb (d : Db) (k : Bytes) :
    (purgeDb now d).lookup k = (d.lookup k).filter fun e => !e.expired now := by
  ext e
  rw [Option.filter_eq_some_iff, ← Option.mem_def, ← Option.mem_def, AList.mem_lookup_iff,
    AList.mem_lookup_iff, purgeDb, List.mem_filter]

theorem live_purgeDb (d : Db) : Databases.live now (purgeDb now d) = Databases.live now d := by
  rw [Databases.live, Databases.live, HashMap.pairs, HashMap.pairs, purgeDb, List.filter_map,
    List.filter_map, List.filter_filter]
  simp [Function.comp_def]

@[simp] theorem length_purge (dbs : Databases) : (purge now dbs).length = dbs.length :=
  List.length_map _

theorem getElem?_purge (dbs : Databases) (i : ℕ) :
    (purge now dbs)[i]? = dbs[i]?.map (purgeDb now) := List.getElem?_map

theorem find_purge (dbs : Databases) (i : ℕ) (k : Bytes) :
    (purge now dbs).find i k = dbs.liveEntry now i k := by
  rw [Databases.find, getElem?_purge, Databases.liveEntry, Databases.find]
  cases dbs[i]? with
  | none => rfl
  | some d => exact lookup_purgeDb d k

/-- Purging changes no live entry. -/
theorem liveEntry_purge (dbs : Databases) (i : ℕ) (k : Bytes) :
    (purge now dbs).liveEntry now i k = dbs.liveEntry now i k := by
  rw [Databases.liveEntry, find_purge, Databases.liveEntry, Option.filter_filter]
  simp

theorem db_purge (dbs : Databases) (i : ℕ) :
    (purge now dbs).db i = (dbs.db i).map (purgeDb now) := by
  rw [Databases.db, Databases.db, getElem?_purge]
  cases dbs[i]? <;> rfl

theorem entry_purge (dbs : Databases) (i : ℕ) (k : Bytes) :
    (purge now dbs).entry now i k = dbs.entry now i k := by
  rw [Databases.entry, Databases.entry, db_purge, Databases.db]
  cases dbs[i]? with
  | none => rfl
  | some d =>
    show Except.ok _ = Except.ok _
    rw [lookup_purgeDb, Option.filter_filter]
    simp

/-! ### Reading -/

/-- The reading methods that look at the expiry. -/
inductive GuardedRead (now : UInt64) : {α : Type} → (Databases → α) → Prop
  | get (i k) : GuardedRead now fun dbs => dbs.get now i k
  | existsKey (i k) : GuardedRead now fun dbs => dbs.existsKey now i k
  | getExpire (i k) : GuardedRead now fun dbs => dbs.getExpire now i k
  | getType (i k) : GuardedRead now fun dbs => dbs.getType now i k
  | getVersion (i k) : GuardedRead now fun dbs => dbs.getVersion now i k
  | keys (i pattern) : GuardedRead now fun dbs => dbs.keys now i pattern
  | expiresCount (i) : GuardedRead now fun dbs => dbs.expiresCount now i
  | iterateDb (i) : GuardedRead now fun dbs => dbs.iterateDb now i
  | llen (i k) : GuardedRead now fun dbs => dbs.llen now i k
  | lrange (i k start stop) : GuardedRead now fun dbs => dbs.lrange now i k start stop
  | lindex (i k idx) : GuardedRead now fun dbs => dbs.lindex now i k idx
  | smembers (i k) : GuardedRead now fun dbs => dbs.smembers now i k
  | sismember (i k member) : GuardedRead now fun dbs => dbs.sismember now i k member
  | scard (i k) : GuardedRead now fun dbs => dbs.scard now i k
  | sinter (i ks) : GuardedRead now fun dbs => dbs.sinter now i ks
  | sunion (i ks) : GuardedRead now fun dbs => dbs.sunion now i ks
  | sdiff (i ks) : GuardedRead now fun dbs => dbs.sdiff now i ks
  | srandmember (nano i k count) : GuardedRead now fun dbs => dbs.srandmember now nano i k count
  | sscan (i k) : GuardedRead now fun dbs => dbs.sscan now i k
  | hget (i k field) : GuardedRead now fun dbs => dbs.hget now i k field
  | hexists (i k field) : GuardedRead now fun dbs => dbs.hexists now i k field
  | hgetall (i k) : GuardedRead now fun dbs => dbs.hgetall now i k
  | hkeys (i k) : GuardedRead now fun dbs => dbs.hkeys now i k
  | hvals (i k) : GuardedRead now fun dbs => dbs.hvals now i k
  | hlen (i k) : GuardedRead now fun dbs => dbs.hlen now i k
  | hscan (i k) : GuardedRead now fun dbs => dbs.hscan now i k
  | zscore (i k member) : GuardedRead now fun dbs => dbs.zscore now i k member
  | zrank (i k member) : GuardedRead now fun dbs => dbs.zrank now i k member
  | zrange (i k start stop withscores) :
    GuardedRead now fun dbs => dbs.zrange now i k start stop withscores
  | zrangeByScore (i k lo hi withscores limit) :
    GuardedRead now fun dbs => dbs.zrangeByScore now i k lo hi withscores limit
  | zcard (i k) : GuardedRead now fun dbs => dbs.zcard now i k
  | zcount (i k lo hi) : GuardedRead now fun dbs => dbs.zcount now i k lo hi
  | zscan (i k) : GuardedRead now fun dbs => dbs.zscan now i k
  | xrange (i k start stop count) : GuardedRead now fun dbs => dbs.xrange now i k start stop count
  | xrevrange (i k stop start count) :
    GuardedRead now fun dbs => dbs.xrevrange now i k stop start count
  | xlen (i k) : GuardedRead now fun dbs => dbs.xlen now i k
  | xread (i count ks ids) : GuardedRead now fun dbs => dbs.xread now i count ks ids
  | streamEntriesAfter (i k after count) :
    GuardedRead now fun dbs => dbs.streamEntriesAfter now i k after count
  | xreadgroup (i k group consumer start count noack tables) :
    GuardedRead now fun dbs =>
      Tables.xreadgroup now dbs i k group consumer start count noack tables
  | xclaim (i k group consumer minIdleMs ids justid tables) :
    GuardedRead now fun dbs => Tables.xclaim now dbs i k group consumer minIdleMs ids justid tables
  | nhget (i k field subfield) : GuardedRead now fun dbs => dbs.nhget now i k field subfield
  | nhkeys (i k field) : GuardedRead now fun dbs => dbs.nhkeys now i k field
  | nhvals (i k field) : GuardedRead now fun dbs => dbs.nhvals now i k field
  | nhgetall (i k field) : GuardedRead now fun dbs => dbs.nhgetall now i k field

section Reading

variable (dbs : Databases)

theorem readAs_purge {α β : Type} (kind : Kind α) (i : ℕ) (k : Bytes) (missing : β) (f : α → β) :
    (purge now dbs).readAs kind now i k missing f = dbs.readAs kind now i k missing f := by
  rw [Databases.readAs, Databases.readAs, entry_purge]

theorem getSet_purge (i : ℕ) (k : Bytes) : (purge now dbs).getSet now i k = dbs.getSet now i k :=
  readAs_purge dbs _ i k _ _

theorem streamEntries_purge (i : ℕ) (k : Bytes) :
    (purge now dbs).streamEntries now i k = dbs.streamEntries now i k :=
  readAs_purge dbs _ i k _ _

/-- Whatever is computed from the live pairs of a database. -/
theorem live_purge {β : Type} (i : ℕ) (f : List (Bytes × Entry) → β) :
    ((purge now dbs).db i).map (fun d => f (Databases.live now d))
      = (dbs.db i).map fun d => f (Databases.live now d) := by
  rw [db_purge]
  cases dbs.db i with
  | error e => rfl
  | ok d => exact congrArg (fun l => Except.ok (f l)) (live_purgeDb d)

theorem keys_purge (i : ℕ) (pattern : String) :
    (purge now dbs).keys now i pattern = dbs.keys now i pattern := by
  let f := fun l : List (Bytes × Entry) =>
    (l.filter fun p => simpleMatch (fromUtf8Lossy p.1) pattern).map Prod.fst
  have hkeys : ∀ dbs : Databases,
      dbs.keys now i pattern = (dbs.db i).map fun d => f (Databases.live now d) := by
    intro dbs
    rw [Databases.keys]
    cases dbs.db i <;> rfl
  rw [hkeys, hkeys, live_purge]

theorem expiresCount_purge (i : ℕ) :
    (purge now dbs).expiresCount now i = dbs.expiresCount now i := by
  let f := fun l : List (Bytes × Entry) => (l.filter fun p => p.2.expireAt.isSome).length
  have hcount : ∀ dbs : Databases,
      dbs.expiresCount now i = (dbs.db i).map fun d => f (Databases.live now d) := by
    intro dbs
    rw [Databases.expiresCount]
    cases dbs.db i <;> rfl
  rw [hcount, hcount, live_purge]

theorem iterateDb_purge (i : ℕ) : (purge now dbs).iterateDb now i = dbs.iterateDb now i := by
  have hiterate : ∀ dbs : Databases,
      dbs.iterateDb now i = (dbs.db i).map fun d => id (Databases.live now d) := by
    intro dbs
    rw [Databases.iterateDb]
    cases dbs.db i <;> rfl
  rw [hiterate, hiterate, live_purge]

theorem sinterLoop_purge (i : ℕ) (ks result : List Bytes) :
    (purge now dbs).sinterLoop now i ks result = dbs.sinterLoop now i ks result := by
  induction ks generalizing result with
  | nil => rfl
  | cons k ks ih => simp only [Databases.sinterLoop, getSet_purge, ih]

theorem sunionLoop_purge (i : ℕ) (ks : List Bytes) (result : HashSet Bytes) :
    (purge now dbs).sunionLoop now i ks result = dbs.sunionLoop now i ks result := by
  induction ks generalizing result with
  | nil => rfl
  | cons k ks ih => simp only [Databases.sunionLoop, getSet_purge, ih]

theorem sdiffLoop_purge (i : ℕ) (ks result : List Bytes) :
    (purge now dbs).sdiffLoop now i ks result = dbs.sdiffLoop now i ks result := by
  induction ks generalizing result with
  | nil => rfl
  | cons k ks ih => simp only [Databases.sdiffLoop, getSet_purge, ih]

theorem streamEntriesAfter_purge (i : ℕ) (k : Bytes) (after : StreamId) (count : Option ℕ) :
    (purge now dbs).streamEntriesAfter now i k after count
      = dbs.streamEntriesAfter now i k after count := by
  rw [Databases.streamEntriesAfter, Databases.streamEntriesAfter, streamEntries_purge]

theorem xread_purge (i : ℕ) (count : Option ℕ) (ks : List Bytes) (ids : List StreamId) :
    (purge now dbs).xread now i count ks ids = dbs.xread now i count ks ids := by
  induction ks generalizing ids with
  | nil => rfl
  | cons k ks ih => simp only [Databases.xread, streamEntriesAfter_purge, ih]

theorem zrangeByScore_purge (i : ℕ) (k : Bytes) (lo hi : ScoreBound) (withscores : Bool)
    (limit : Option (ℕ × ℕ)) :
    (purge now dbs).zrangeByScore now i k lo hi withscores limit
      = dbs.zrangeByScore now i k lo hi withscores limit := by
  rw [Databases.zrangeByScore, Databases.zrangeByScore, readAs_purge]

theorem getType_purge (i : ℕ) (k : Bytes) :
    (purge now dbs).getType now i k = dbs.getType now i k := by
  rw [Databases.getType, Databases.getType, entry_purge]

end Reading

/-- **A read cannot tell.** -/
theorem GuardedRead.eq_purge {α : Type} {f : Databases → α} (h : GuardedRead now f)
    (dbs : Databases) : f dbs = f (purge now dbs) := by
  cases h with
  | get | existsKey | getExpire | getVersion =>
    simp only [Databases.get, Databases.existsKey, Databases.getExpire, Databases.getVersion,
      entry_purge]
  | getType i k => exact (getType_purge dbs i k).symm
  | keys i pattern => exact (keys_purge dbs i pattern).symm
  | expiresCount i => exact (expiresCount_purge dbs i).symm
  | iterateDb i => exact (iterateDb_purge dbs i).symm
  | sinter i ks =>
    cases ks with
    | nil => rfl
    | cons k ks => simp only [Databases.sinter, getSet_purge, sinterLoop_purge]
  | sunion i ks => exact (sunionLoop_purge dbs i ks ∅).symm
  | sdiff i ks =>
    cases ks with
    | nil => rfl
    | cons k ks => simp only [Databases.sdiff, getSet_purge, sdiffLoop_purge]
  | srandmember nano i k count => simp only [Databases.srandmember, readAs_purge]
  | zrange | zrangeByScore => simp only [Databases.zrange, zrangeByScore_purge]
  | xrange | xrevrange => simp only [Databases.xrange, Databases.xrevrange, streamEntries_purge]
  | xread i count ks ids => exact (xread_purge dbs i count ks ids).symm
  | streamEntriesAfter i k after count => exact (streamEntriesAfter_purge dbs i k after count).symm
  | xreadgroup =>
    simp only [Tables.xreadgroup, getType_purge, streamEntriesAfter_purge, streamEntries_purge]
  | xclaim => simp only [Tables.xclaim, streamEntries_purge]
  | _ => exact (readAs_purge dbs _ _ _ _ _).symm

/-! ### Writing -/

/-- The writing methods that look at the expiry, and `set`, which overwrites it. -/
inductive GuardedWrite (now : UInt64) : {α : Type} → KeyM α → Prop
  | set (i k v expireMs) : GuardedWrite now (Keyspace.set i k v expireMs)
  | dbsize (i) : GuardedWrite now (Keyspace.dbsize now i)
  | lpopOne (i k) : GuardedWrite now (Keyspace.lpopOne now i k)
  | rpopOne (i k) : GuardedWrite now (Keyspace.rpopOne now i k)
  | lset (i k idx value) : GuardedWrite now (Keyspace.lset now i k idx value)
  | ltrim (i k start stop) : GuardedWrite now (Keyspace.ltrim now i k start stop)
  | lrem (i k count value) : GuardedWrite now (Keyspace.lrem now i k count value)
  | srem (i k members) : GuardedWrite now (Keyspace.srem now i k members)
  | spop (i k count) : GuardedWrite now (Keyspace.spop now i k count)
  | hdel (i k fields) : GuardedWrite now (Keyspace.hdel now i k fields)
  | zrem (i k members) : GuardedWrite now (Keyspace.zrem now i k members)
  | xdel (i k ids) : GuardedWrite now (Keyspace.xdel now i k ids)
  | xtrim (i k maxlen) : GuardedWrite now (Keyspace.xtrim now i k maxlen)
  | nhdel (i k field subfield) : GuardedWrite now (Keyspace.nhdel now i k field subfield)

/-- The same result, and the same live values afterwards. -/
def AlikeOn {α : Type} (now : UInt64) (m : KeyM α) (s s' : Keyspace) : Prop :=
  (m s).1 = (m s').1 ∧ SameVisible now (m s).2.databases (m s').2.databases

theorem sameVisible_purge (dbs : Databases) : SameVisible now dbs (purge now dbs) where
  length := (length_purge dbs).symm
  live i k := by rw [liveEntry_purge]

theorem liveEntry_put_self {dbs : Databases} {i : ℕ} (hi : i < dbs.length) (k : Bytes) (e : Entry) :
    (dbs.put i k e).liveEntry now i k = (some e).filter fun e => !e.expired now := by
  rw [Databases.liveEntry, Databases.find_put_self hi]

theorem liveEntry_put_of_ne {dbs : Databases} {i j : ℕ} {k k' : Bytes} (h : j ≠ i ∨ k' ≠ k)
    (e : Entry) : (dbs.put i k e).liveEntry now j k' = dbs.liveEntry now j k' := by
  rw [Databases.liveEntry, Databases.find_put_of_ne h, Databases.liveEntry]

/-- Storing entries that differ in the version at most. -/
theorem SameVisible.put {dbs dbs' : Databases} (h : SameVisible now dbs dbs') (i : ℕ) (k : Bytes)
    {e e' : Entry} (hvalue : e.value = e'.value) (hexpire : e.expireAt = e'.expireAt) :
    SameVisible now (dbs.put i k e) (dbs'.put i k e') where
  length := by rw [Databases.length_put, Databases.length_put, h.length]
  live := by
    intro j k'
    by_cases hne : j ≠ i ∨ k' ≠ k
    · rw [liveEntry_put_of_ne hne, liveEntry_put_of_ne hne]
      exact h.live j k'
    · obtain ⟨rfl, rfl⟩ := not_or.mp hne |>.imp not_ne_iff.mp not_ne_iff.mp
      by_cases hj : j < dbs.length
      · have hexpired : e.expired now = e'.expired now := by
          rw [Entry.expired, Entry.expired, hexpire]
        rw [liveEntry_put_self hj, liveEntry_put_self (h.length ▸ hj), Option.filter_some,
          Option.filter_some, hexpired]
        split_ifs
        · simp [hvalue, hexpire]
        · rfl
      · have hj := Nat.le_of_not_lt hj
        rw [Databases.put, Databases.put, List.modify_eq_self hj,
          List.modify_eq_self (h.length ▸ hj)]
        exact h.live j k'

/-- Removing a key that has expired. -/
theorem liveEntry_remove {dbs : Databases} {i : ℕ} {k : Bytes}
    (hk : dbs.liveEntry now i k = none) (j : ℕ) (k' : Bytes) :
    (dbs.remove i k).liveEntry now j k' = dbs.liveEntry now j k' := by
  by_cases hne : j ≠ i ∨ k' ≠ k
  · rw [Databases.liveEntry, Databases.find_remove_of_ne hne, Databases.liveEntry]
  · obtain ⟨rfl, rfl⟩ := not_or.mp hne |>.imp not_ne_iff.mp not_ne_iff.mp
    rw [hk, Databases.liveEntry, Databases.find_remove_self]
    rfl

/-- Removing keys that have all expired. -/
theorem sameVisible_each_remove (i : ℕ) {l : List (Bytes × Entry)} {s : Keyspace}
    (hl : ∀ p ∈ l, s.databases.liveEntry now i p.1 = none) :
    (Proc.each l (fun p => Keyspace.remove i p.1) s).1 = .ok () ∧
      SameVisible now (Proc.each l (fun p => Keyspace.remove i p.1) s).2.databases s.databases := by
  induction l generalizing s with
  | nil => exact ⟨rfl, rfl, fun _ _ => rfl⟩
  | cons p l ih =>
    have hlive := liveEntry_remove (hl p List.mem_cons_self)
    obtain ⟨hok, hsame⟩ := @ih { s with databases := s.databases.remove i p.1 } (by
      intro q hq
      rw [hlive]
      exact hl q (List.mem_cons_of_mem _ hq))
    refine ⟨hok, hsame.length.trans Databases.length_remove, fun j k => ?_⟩
    rw [← hlive]
    exact hsame.live j k

/-- The keys that `dbsize` removes have expired. -/
theorem liveEntry_of_expired {dbs : Databases} {i : ℕ} (hi : i < dbs.length) {p : Bytes × Entry}
    (hp : p ∈ dbs[i].pairs.filter fun p => p.2.expired now) :
    dbs.liveEntry now i p.1 = none := by
  obtain ⟨hmem, hexpired⟩ := List.mem_filter.mp hp
  rw [Databases.liveEntry_eq (List.getElem?_eq_getElem hi), HashMap.mem_pairs.mp hmem,
    Option.filter_some, hexpired]
  rfl

/-- An index that is out of range is so on both stores. -/
theorem db_purge_error {dbs : Databases} {i : ℕ} {e : VeloDBError} (h : dbs.db i = .error e)
    {α : Type} (f : Db → KeyM α) (notified : List Bytes) :
    AlikeOn now (Keyspace.read (fun dbs => dbs.db i) >>= f) ⟨dbs, notified⟩
      ⟨purge now dbs, notified⟩ := by
  have hread : Keyspace.read (fun dbs => dbs.db i) ⟨dbs, notified⟩
      = (.error (.error e), ⟨dbs, notified⟩) := by
    rw [Keyspace.read, h]
    rfl
  have hread' : Keyspace.read (fun dbs => dbs.db i) ⟨purge now dbs, notified⟩
      = (.error (.error e), ⟨purge now dbs, notified⟩) := by
    rw [Keyspace.read, db_purge, h]
    rfl
  rw [AlikeOn, Proc.bind_error hread, Proc.bind_error hread']
  exact ⟨rfl, sameVisible_purge dbs⟩

theorem dbsize_purge (dbs : Databases) (i : ℕ) (notified : List Bytes) :
    AlikeOn now (Keyspace.dbsize now i) ⟨dbs, notified⟩ ⟨purge now dbs, notified⟩ := by
  by_cases hi : i < dbs.length
  · have hrun : ∀ {dbs : Databases} (hi : i < dbs.length), ∃ s,
        Keyspace.dbsize now i ⟨dbs, notified⟩ = (.ok (Databases.live now dbs[i]).length, s) ∧
          SameVisible now s.databases dbs := by
      intro dbs hi
      obtain ⟨hok, hsame⟩ := sameVisible_each_remove i (s := ⟨dbs, notified⟩)
        fun p hp => liveEntry_of_expired hi hp
      refine ⟨_, ?_, hsame⟩
      rw [Keyspace.dbsize, Proc.bind_ok (Keyspace.read_db hi notified),
        Proc.bind_ok (Prod.ext hok rfl)]
      rfl
    have hi' : i < (purge now dbs).length := by rwa [length_purge]
    obtain ⟨s, hs, hsame⟩ := hrun hi
    obtain ⟨s', hs', hsame'⟩ := hrun hi'
    have hlive : (purge now dbs)[i] = purgeDb now dbs[i] := List.getElem_map _
    rw [AlikeOn, hs, hs', hlive, live_purgeDb]
    refine ⟨rfl, hsame.length.trans ((length_purge dbs).symm.trans hsame'.length.symm), ?_⟩
    intro j k
    rw [hsame.live, hsame'.live, liveEntry_purge]
  · have he := Databases.db_out (Nat.le_of_not_lt hi)
    exact db_purge_error he _ notified

theorem set_purge (dbs : Databases) (i : ℕ) (k v : Bytes) (expireMs : Option UInt64)
    (notified : List Bytes) :
    AlikeOn now (Keyspace.set i k v expireMs) ⟨dbs, notified⟩ ⟨purge now dbs, notified⟩ := by
  by_cases hi : i < dbs.length
  · have hi' : i < (purge now dbs).length := by rwa [length_purge]
    rw [AlikeOn, Keyspace.set_run hi, Keyspace.set_run hi']
    exact ⟨rfl, (sameVisible_purge dbs).put i k rfl rfl⟩
  · have he := Databases.db_out (Nat.le_of_not_lt hi)
    exact db_purge_error he _ notified

theorem updateAs_purge {α β : Type} (kind : Kind α) (dbs : Databases) (i : ℕ) (k : Bytes)
    (missing : Except Failure β) (f : α → Except Failure β × α) (notified : List Bytes) :
    AlikeOn now (Keyspace.updateAs kind now i k missing f) ⟨dbs, notified⟩
      ⟨purge now dbs, notified⟩ := by
  have hread : ∀ dbs, Keyspace.read (fun dbs => dbs.entry now i k) ⟨dbs, notified⟩
      = (ofResult (dbs.entry now i k), ⟨dbs, notified⟩) := fun _ => rfl
  have hdbs := hread dbs
  have hpurged := hread (purge now dbs)
  rw [entry_purge] at hpurged
  rw [AlikeOn, Keyspace.updateAs]
  cases hentry : dbs.entry now i k with
  | error e =>
    rw [hentry] at hdbs hpurged
    rw [Proc.bind_error hdbs, Proc.bind_error hpurged]
    exact ⟨rfl, sameVisible_purge dbs⟩
  | ok o =>
    rw [hentry] at hdbs hpurged
    rw [Proc.bind_ok hdbs, Proc.bind_ok hpurged]
    cases o with
    | none => exact ⟨rfl, sameVisible_purge dbs⟩
    | some e =>
      dsimp only
      rw [Keyspace.changeAs]
      cases kind.unwrap e.value with
      | none => exact ⟨rfl, sameVisible_purge dbs⟩
      | some a => exact ⟨rfl, (sameVisible_purge dbs).put i k rfl rfl⟩

/-- **A write cannot tell.** -/
theorem GuardedWrite.alike {α : Type} {m : KeyM α} (h : GuardedWrite now m) (dbs : Databases)
    (notified : List Bytes) : AlikeOn now m ⟨dbs, notified⟩ ⟨purge now dbs, notified⟩ := by
  cases h with
  | set i k v expireMs => exact set_purge dbs i k v expireMs notified
  | dbsize i => exact dbsize_purge dbs i notified
  | _ => exact updateAs_purge _ dbs _ _ _ _ notified

/-- **Expired keys are invisible** to the methods that look at the expiry. -/
theorem purge_indistinguishable (now : UInt64) (dbs : Databases) :
    SameVisible now dbs (purge now dbs) ∧
      (∀ {α : Type} {f : Databases → α}, GuardedRead now f → f dbs = f (purge now dbs)) ∧
      ∀ {α : Type} {m : KeyM α}, GuardedWrite now m → ∀ notified,
        AlikeOn now m ⟨dbs, notified⟩ ⟨purge now dbs, notified⟩ :=
  ⟨sameVisible_purge dbs, fun h => h.eq_purge dbs, fun h => h.alike dbs⟩

/-- A store with a list that has expired. -/
def staleList : Databases :=
  (Store.new 1).databases.put 0 [97] { value := .list [[49]], expireAt := some 3 }

theorem purge_indistinguishable_list :
    staleList.llen 5 0 [97] = (purge 5 staleList).llen 5 0 [97] ∧
      AlikeOn 5 (Keyspace.lpopOne 5 0 [97]) ⟨staleList, []⟩ ⟨purge 5 staleList, []⟩ :=
  ⟨(purge_indistinguishable 5 staleList).2.1 (.llen 0 [97]),
    (purge_indistinguishable 5 staleList).2.2 (.lpopOne 0 [97]) []⟩

end VeloDB
