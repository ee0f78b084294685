import VeloDB.Cmd.Stale

/-!
# Replies about keys that have expired

A reading command replies the same on a store and on the purged store, so what is left of a key that
has expired does not show. `RENAME` and `RENAMENX` look at the expiry first. `DEL` and the commands
that change an expiry do not, and reply as if the key were there.

## Main results

* `readsLive_commands` — the reading commands look at live entries only
* `repliesAlike_keyNames` — the commands on keys reply the same without a key that has expired,
  unless they look it up anyway
-/

namespace VeloDB

open Rust Proc

/-! ### Reading -/

/-- The reading handler looks at live entries only. -/
def Handler.ReadsLive : Handler → Prop
  | .read f => ∀ env dbs i args, f env (purge env.now dbs) i args = f env dbs i args
  | _ => True

theorem randomKey_purge {now : UInt64} (nanos : ℕ) (dbs : Databases) (i : ℕ) :
    (purge now dbs).randomKey now nanos i = dbs.randomKey now nanos i := by
  let f := fun l : List (Bytes × Entry) =>
    (l.map Prod.fst)[nanos % (l.map Prod.fst).length]?
  have hrandom : ∀ dbs : Databases,
      dbs.randomKey now nanos i = (dbs.db i).map fun d => f (Databases.live now d) := by
    intro dbs
    rw [Databases.randomKey]
    cases dbs.db i <;> rfl
  rw [hrandom, hrandom, live_purge]

theorem existsKey_purge {now : UInt64} (dbs : Databases) (i : ℕ) (k : Bytes) :
    (purge now dbs).existsKey now i k = dbs.existsKey now i k := by
  simp only [Databases.existsKey, entry_purge]

section Table

open Cmd

/-- **The reading commands** look at live entries only. -/
theorem readsLive_commands : ∀ c ∈ commands, c.handler.ReadsLive := by
  have hstring : ∀ c ∈ stringCommands, c.handler.ReadsLive := by
    have hget : ∀ now (dbs : Databases) i k, (purge now dbs).get now i k = dbs.get now i k := by
      intro now dbs i k
      simp only [Databases.get, entry_purge]
    simp only [stringCommands, List.forall_mem_cons]
    refine ⟨?get, trivial, ?mget, trivial, trivial, trivial, trivial, trivial, trivial, ?strlen,
      ?getrange, trivial, trivial, List.forall_mem_nil _⟩
    case get => exact fun env dbs i args => by simp only [Cmd.get, hget]
    case mget => exact fun env dbs i args => by simp only [mget, hget]
    case strlen => exact fun env dbs i args => by simp only [strlen, hget]
    case getrange => exact fun env dbs i args => by simp only [getrange, hget]
  have hgeneric : ∀ c ∈ genericCommands, c.handler.ReadsLive := by
    have hexpire : ∀ now (dbs : Databases) i k,
        (purge now dbs).getExpire now i k = dbs.getExpire now i k := by
      intro now dbs i k
      simp only [Databases.getExpire, entry_purge]
    simp only [genericCommands, List.forall_mem_cons]
    refine ⟨trivial, ?existsKey, trivial, trivial, trivial, trivial, ?ttl, ?pttl, trivial,
      ?typeName, trivial, trivial, ?keys, trivial, trivial, trivial, ?randomkey, trivial, ?hscan,
      ?sscan, ?zscan, List.forall_mem_nil _⟩
    case existsKey => exact fun env dbs i args => by simp only [existsCmd, existsKey_purge]
    case ttl => exact fun env dbs i args => by simp only [ttl, ttlWith, hexpire]
    case pttl => exact fun env dbs i args => by simp only [pttl, ttlWith, hexpire]
    case typeName => exact fun env dbs i args => by simp only [typeCmd, getType_purge]
    case keys => exact fun env dbs i args => by simp only [keysCmd, keys_purge]
    case randomkey => exact fun env dbs i args => by simp only [randomkeyCmd, randomKey_purge]
    case hscan => exact fun env dbs i args => by simp only [hscanCmd, Databases.hscan, readAs_purge]
    case sscan => exact fun env dbs i args => by simp only [sscanCmd, Databases.sscan, readAs_purge]
    case zscan => exact fun env dbs i args => by simp only [zscanCmd, Databases.zscan, readAs_purge]
  have hlist : ∀ c ∈ listCommands, c.handler.ReadsLive := by
    simp only [listCommands, List.forall_mem_cons]
    refine ⟨trivial, trivial, trivial, trivial, ?llen, ?lrange, ?lindex, trivial, trivial, trivial,
      trivial, trivial, List.forall_mem_nil _⟩
    case llen => exact fun env dbs i args => by simp only [llen, Databases.llen, readAs_purge]
    case lrange => exact fun env dbs i args => by simp only [lrange, Databases.lrange, readAs_purge]
    case lindex => exact fun env dbs i args => by simp only [lindex, Databases.lindex, readAs_purge]
  have hset : ∀ c ∈ setCommands, c.handler.ReadsLive := by
    simp only [setCommands, List.forall_mem_cons]
    refine ⟨trivial, trivial, ?smembers, ?sismember, ?scard, ?sinter, ?sunion, ?sdiff,
      ?srandmember, trivial, List.forall_mem_nil _⟩
    case smembers =>
      exact fun env dbs i args => by simp only [smembers, Databases.smembers, readAs_purge]
    case sismember =>
      exact fun env dbs i args => by simp only [sismember, Databases.sismember, readAs_purge]
    case scard => exact fun env dbs i args => by simp only [scard, Databases.scard, readAs_purge]
    case sinter =>
      intro env dbs i args
      have h : (purge env.now dbs).sinter env.now i args = dbs.sinter env.now i args :=
        ((GuardedRead.sinter i args).eq_purge dbs).symm
      simp only [sinter, h]
    case sunion =>
      intro env dbs i args
      have h : (purge env.now dbs).sunion env.now i args = dbs.sunion env.now i args :=
        ((GuardedRead.sunion i args).eq_purge dbs).symm
      simp only [sunion, h]
    case sdiff =>
      intro env dbs i args
      have h : (purge env.now dbs).sdiff env.now i args = dbs.sdiff env.now i args :=
        ((GuardedRead.sdiff i args).eq_purge dbs).symm
      simp only [Cmd.sdiff, h]
    case srandmember =>
      exact fun env dbs i args => by simp only [srandmember, Databases.srandmember, readAs_purge]
  have hhash : ∀ c ∈ hashCommands, c.handler.ReadsLive := by
    simp only [hashCommands, List.forall_mem_cons]
    refine ⟨trivial, ?hget, trivial, ?hexists, ?hgetall, ?hkeys, ?hvals, ?hlen, trivial,
      List.forall_mem_nil _⟩
    case hget => exact fun env dbs i args => by simp only [hget, Databases.hget, readAs_purge]
    case hexists =>
      exact fun env dbs i args => by simp only [hexists, Databases.hexists, readAs_purge]
    case hgetall =>
      exact fun env dbs i args => by simp only [hgetall, Databases.hgetall, readAs_purge]
    case hkeys => exact fun env dbs i args => by simp only [hkeys, Databases.hkeys, readAs_purge]
    case hvals => exact fun env dbs i args => by simp only [hvals, Databases.hvals, readAs_purge]
    case hlen => exact fun env dbs i args => by simp only [hlen, Databases.hlen, readAs_purge]
  have hzset : ∀ c ∈ zsetCommands, c.handler.ReadsLive := by
    simp only [zsetCommands, List.forall_mem_cons]
    refine ⟨trivial, trivial, ?zscore, ?zrank, ?zrange, ?zrangebyscore, ?zcard, ?zcount,
      List.forall_mem_nil _⟩
    case zscore => exact fun env dbs i args => by simp only [zscore, Databases.zscore, readAs_purge]
    case zrank => exact fun env dbs i args => by simp only [zrank, Databases.zrank, readAs_purge]
    case zrange =>
      exact fun env dbs i args => by simp only [zrange, Databases.zrange, zrangeByScore_purge]
    case zrangebyscore =>
      exact fun env dbs i args => by simp only [zrangebyscore, zrangeByScore_purge]
    case zcard => exact fun env dbs i args => by simp only [zcard, Databases.zcard, readAs_purge]
    case zcount => exact fun env dbs i args => by simp only [zcount, Databases.zcount, readAs_purge]
  have hstream : ∀ c ∈ streamCommands, c.handler.ReadsLive := by
    simp only [streamCommands, List.forall_mem_cons]
    refine ⟨trivial, ?xrange, ?xrevrange, ?xlen, trivial, trivial, ?xread, trivial, trivial,
      trivial, trivial, trivial, List.forall_mem_nil _⟩
    case xrange =>
      exact fun env dbs i args => by simp only [xrange, Databases.xrange, streamEntries_purge]
    case xrevrange =>
      exact fun env dbs i args => by
        simp only [xrevrange, Databases.xrevrange, streamEntries_purge]
    case xlen => exact fun env dbs i args => by simp only [xlen, Databases.xlen, readAs_purge]
    case xread => exact fun env dbs i args => by simp only [xread, xread_purge]
  have hnested : ∀ c ∈ nestedHashCommands, c.handler.ReadsLive := by
    simp only [nestedHashCommands, List.forall_mem_cons]
    refine ⟨trivial, ?nhget, trivial, ?nhkeys, ?nhvals, ?nhgetall, List.forall_mem_nil _⟩
    case nhget => exact fun env dbs i args => by simp only [nhget, Databases.nhget, readAs_purge]
    case nhkeys => exact fun env dbs i args => by simp only [nhkeys, Databases.nhkeys, readAs_purge]
    case nhvals => exact fun env dbs i args => by simp only [nhvals, Databases.nhvals, readAs_purge]
    case nhgetall =>
      exact fun env dbs i args => by simp only [nhgetall, Databases.nhgetall, readAs_purge]
  have hserver : ∀ c ∈ serverCommands, c.handler.ReadsLive := by
    simp only [serverCommands, List.forall_mem_cons]
    exact ⟨fun _ _ _ _ => rfl, fun _ _ _ _ => rfl, fun _ _ _ _ => rfl, trivial, trivial,
      fun _ _ _ _ => rfl, fun _ _ _ _ => rfl, List.forall_mem_nil _⟩
  have hsides : ∀ c ∈ pubsubCommands ++ transactionCommands ++ luaCommands ++ clusterCommands,
      c.handler.ReadsLive := by
    simp only [pubsubCommands, transactionCommands, luaCommands, clusterCommands,
      List.cons_append, List.nil_append, List.forall_mem_cons]
    exact ⟨trivial, trivial, trivial, trivial, trivial, trivial, trivial, trivial, trivial,
      trivial, trivial, trivial, trivial, fun _ _ _ _ => rfl, List.forall_mem_nil _⟩
  exact forall_commands hserver hstring hgeneric hlist hset hhash hzset hstream hnested hsides

end Table

/-! ### The store without the key -/

section Removed

variable {now : UInt64} {dbs : Databases} {i j : ℕ} {k key : Bytes}

theorem filter_eraseP_of_not {α : Type} {p q : α → Bool} {l : List α}
    (h : ∀ x ∈ l, q x = true → p x = false) : (l.eraseP q).filter p = l.filter p := by
  induction l with
  | nil => rfl
  | cons x l ih =>
    cases hq : q x with
    | true =>
      have hp : ¬p x = true := by simp [h x List.mem_cons_self hq]
      rw [List.eraseP_cons_of_pos hq, List.filter_cons_of_neg hp]
    | false =>
      have ih := ih fun y hy => h y (List.mem_cons_of_mem x hy)
      rw [List.eraseP_cons_of_neg (by simp [hq]), List.filter_cons, List.filter_cons, ih]

/-- Purging removes what has expired anyway. -/
theorem purgeDb_erase {d : Db} (h : (d.lookup k).filter (fun e => !e.expired now) = none) :
    purgeDb now (d.erase k) = purgeDb now d := by
  apply AList.ext
  show (List.kerase k d.entries).filter _ = d.entries.filter _
  refine filter_eraseP_of_not fun e he hek => ?_
  have hkey : e.1 = k := (of_decide_eq_true hek).symm
  have hlookup : d.lookup k = some e.2 := by
    subst hkey
    exact AList.mem_lookup_iff.mpr he
  rw [hlookup, Option.filter_eq_none_iff] at h
  simpa using h e.2 rfl

theorem getElem?_remove (n : ℕ) :
    (dbs.remove j k)[n]? = dbs[n]?.map fun d => if j = n then d.erase k else d :=
  List.getElem?_modify ..

/-- **The purged store does not show** whether a key that has expired is still stored. -/
theorem purge_remove (h : dbs.liveEntry now j k = none) :
    purge now (dbs.remove j k) = purge now dbs := by
  refine List.ext_getElem? fun n => ?_
  rw [getElem?_purge, getElem?_purge, getElem?_remove]
  cases hd : dbs[n]? with
  | none => rfl
  | some d =>
    rw [Option.map_some, Option.map_some, Option.map_some]
    by_cases hn : j = n
    · subst hn
      rw [Databases.liveEntry_eq hd] at h
      rw [if_pos rfl, purgeDb_erase h]
    · rw [if_neg hn]

theorem remove_of_find_none (h : dbs.find j k = none) : dbs.remove j k = dbs := by
  refine List.ext_getElem? fun n => ?_
  rw [getElem?_remove]
  cases hd : dbs[n]? with
  | none => rfl
  | some d =>
    rw [Option.map_some]
    by_cases hn : j = n
    · subst hn
      have hlookup : d.lookup k = none := by
        rw [Databases.find, hd] at h
        exact h
      have herase : d.erase k = d := by
        apply AList.ext
        exact List.kerase_of_notMem_keys (AList.lookup_eq_none.mp hlookup)
      rw [if_pos rfl, herase]
    · rw [if_neg hn]

/-- A guarded read is the same without a key that has expired. -/
theorem GuardedRead.eq_remove {α : Type} {f : Databases → α} (hf : GuardedRead now f)
    (h : dbs.liveEntry now j k = none) : f (dbs.remove j k) = f dbs := by
  rw [hf.eq_purge, purge_remove h, ← hf.eq_purge]

/-- A reading command replies the same. -/
theorem Handler.ReadsLive.remove {f : Env → Databases → ℕ → List Bytes → Reply}
    (hf : Handler.ReadsLive (.read f)) {env : Env} (h : dbs.liveEntry env.now j k = none)
    (args : List Bytes) : f env (dbs.remove j k) i args = f env dbs i args := by
  rw [← hf env (dbs.remove j k), purge_remove h, hf env dbs]

end Removed

/-! ### Commands that do not look at the expiry -/

/-- The databases differ in one key at most. -/
structure SameBut (j : ℕ) (k : Bytes) (dbs dbs' : Databases) : Prop where
  length : dbs'.length = dbs.length
  find : ∀ i key, (i ≠ j ∨ key ≠ k) → dbs'.find i key = dbs.find i key

section SameBut

variable {dbs dbs' : Databases} {i j : ℕ} {k key : Bytes}

theorem sameBut_remove (dbs : Databases) (j : ℕ) (k : Bytes) : SameBut j k dbs (dbs.remove j k) :=
  ⟨Databases.length_remove, fun _ _ hoff => Databases.find_remove_of_ne hoff⟩

theorem SameBut.remove (h : SameBut j k dbs dbs') (i : ℕ) (key : Bytes) :
    SameBut j k (dbs.remove i key) (dbs'.remove i key) := by
  have hlength : (dbs'.remove i key).length = (dbs.remove i key).length := by
    rw [Databases.length_remove, Databases.length_remove, h.length]
  refine ⟨hlength, fun i' key' hoff => ?_⟩
  by_cases hne : i' ≠ i ∨ key' ≠ key
  · rw [Databases.find_remove_of_ne hne, Databases.find_remove_of_ne hne, h.find i' key' hoff]
  · obtain ⟨rfl, rfl⟩ := not_or.mp hne |>.imp not_ne_iff.mp not_ne_iff.mp
    rw [Databases.find_remove_self, Databases.find_remove_self]

/-- A read that gives the same, then the rest. -/
theorem bind_read_fst {α β : Type} {g : Databases → Except VeloDBError α} {m : α → KeyM β}
    {n n' : List Bytes} (hg : g dbs = g dbs')
    (hm : ∀ a, g dbs = .ok a → (m a ⟨dbs, n⟩).1 = (m a ⟨dbs', n'⟩).1) :
    ((Keyspace.read g >>= m) ⟨dbs, n⟩).1 = ((Keyspace.read g >>= m) ⟨dbs', n'⟩).1 := by
  have hread : ∀ (dbs : Databases) n, Keyspace.read g ⟨dbs, n⟩ = (ofResult (g dbs), ⟨dbs, n⟩) :=
    fun _ _ => rfl
  have hdbs := hread dbs n
  have hdbs' := hread dbs' n'
  rw [← hg] at hdbs'
  cases ha : g dbs with
  | error e =>
    rw [ha] at hdbs hdbs'
    rw [Proc.bind_error hdbs, Proc.bind_error hdbs']
  | ok a =>
    rw [ha] at hdbs hdbs'
    rw [Proc.bind_ok hdbs, Proc.bind_ok hdbs']
    exact hm a ha

theorem bind_lift_fst {α β : Type} {x : Except Failure α} {m : α → KeyM β} {s s' : Keyspace}
    (hm : ∀ a, x = .ok a → (m a s).1 = (m a s').1) :
    ((lift x >>= m) s).1 = ((lift x >>= m) s').1 := by
  cases x with
  | error e => rfl
  | ok a => exact hm a rfl

theorem bind_pure_fst {α : Type} {m : KeyM α} {s s' : Keyspace} (h : (m s).1 = (m s').1)
    (g : α → RespValue) :
    ((m >>= fun a => pure (g a)) s).1 = ((m >>= fun a => pure (g a)) s').1 := by
  rcases hm : m s with ⟨r, t⟩
  rcases hm' : m s' with ⟨r', t'⟩
  rw [hm, hm'] at h
  obtain rfl : r = r' := h
  cases r with
  | error e => rw [Proc.bind_error hm, Proc.bind_error hm']
  | ok a => rw [Proc.bind_ok hm, Proc.bind_ok hm', Proc.pure_run, Proc.pure_run]

/-- What a step finds of a key that the databases agree on. -/
theorem SameBut.bind_db {α : Type} (h : SameBut j k dbs dbs') {m : Db → KeyM α} {n n' : List Bytes}
    (hm : ∀ (hi : i < dbs.length) (hi' : i < dbs'.length),
      (m dbs[i] ⟨dbs, n⟩).1 = (m dbs'[i] ⟨dbs', n'⟩).1) :
    ((Keyspace.read (fun dbs => dbs.db i) >>= m) ⟨dbs, n⟩).1
      = ((Keyspace.read (fun dbs => dbs.db i) >>= m) ⟨dbs', n'⟩).1 := by
  by_cases hi : i < dbs.length
  · have hi' : i < dbs'.length := h.length.symm ▸ hi
    rw [Proc.bind_ok (Keyspace.read_db hi n), Proc.bind_ok (Keyspace.read_db hi' n')]
    exact hm hi hi'
  · have hge := Nat.le_of_not_lt hi
    have hread : ∀ {dbs : Databases} n, dbs.length ≤ i →
        Keyspace.read (fun dbs => dbs.db i) ⟨dbs, n⟩
          = (.error (.error (.internal ("db " ++ toString i ++ " out of range"))), ⟨dbs, n⟩) := by
      intro dbs n hge
      rw [Keyspace.read, Databases.db_out hge]
      rfl
    rw [Proc.bind_error (hread n hge), Proc.bind_error (hread n' (h.length.symm ▸ hge))]

theorem SameBut.changeExpire (h : SameBut j k dbs dbs') (hoff : i ≠ j ∨ key ≠ k)
    (at_ : Option UInt64) (n n' : List Bytes) :
    (Keyspace.changeExpire i key at_ ⟨dbs, n⟩).1
      = (Keyspace.changeExpire i key at_ ⟨dbs', n'⟩).1 := by
  refine h.bind_db fun hi hi' => ?_
  rw [Keyspace.lookup_eq_find hi, Keyspace.lookup_eq_find hi', h.find i key hoff]
  cases dbs.find i key <;> rfl

theorem SameBut.rename (h : SameBut j k dbs dbs') {old : Bytes} (hoff : i ≠ j ∨ old ≠ k)
    (new : Bytes) (n n' : List Bytes) :
    (Keyspace.rename i old new ⟨dbs, n⟩).1 = (Keyspace.rename i old new ⟨dbs', n'⟩).1 := by
  refine h.bind_db fun hi hi' => ?_
  rw [Keyspace.lookup_eq_find hi, Keyspace.lookup_eq_find hi', h.find i old hoff]
  cases dbs.find i old <;> rfl

/-- `DEL` counts the same, for other keys. -/
theorem SameBut.del (h : SameBut j k dbs dbs') {keys : List Bytes} (hoff : i ≠ j ∨ k ∉ keys)
    (count : ℕ) (n n' : List Bytes) :
    (foldEach keys count (fun c key => do
        let removed ← Keyspace.del i key
        pure (if removed then c + 1 else c)) ⟨dbs, n⟩).1
      = (foldEach keys count (fun c key => do
        let removed ← Keyspace.del i key
        pure (if removed then c + 1 else c)) ⟨dbs', n'⟩).1 := by
  induction keys generalizing dbs dbs' count with
  | nil => rfl
  | cons key keys ih =>
    have hkey : i ≠ j ∨ key ≠ k :=
      hoff.imp_right fun hk heq => hk (heq ▸ List.mem_cons_self)
    rw [foldEach, Proc.bind_assoc, Keyspace.del, Proc.bind_assoc]
    refine h.bind_db fun hi hi' => ?_
    rw [Keyspace.lookup_eq_find hi, Keyspace.lookup_eq_find hi', h.find i key hkey]
    exact ih (h.remove i key) (hoff.imp_right fun hk hmem => hk (List.mem_cons_of_mem _ hmem)) _

end SameBut

/-- The commands on keys that neither read nor store a value. -/
def keyNames : List String :=
  ["DEL", "EXPIRE", "EXPIREAT", "PEXPIRE", "PEXPIREAT", "PERSIST", "RENAME", "RENAMENX"]

/-- The keys that a command looks up whether they have expired or not. -/
def ignoresExpiry (name : String) (args : List Bytes) : List Bytes :=
  if name = "DEL" then args else expiresOf name args

/-- The writing handler replies the same without a key that has expired, unless its command looks
the key up whether it has expired or not. -/
def CommandDef.RepliesAlike (c : CommandDef) : Prop :=
  ∃ f, c.handler = .write f ∧ ∀ (env : Env) (i : ℕ) (args : List Bytes) (dbs : Databases) (j : ℕ)
    (k : Bytes), dbs.liveEntry env.now j k = none → (i ≠ j ∨ k ∉ ignoresExpiry c.name args) →
    (f env i args ⟨dbs, []⟩).1 = (f env i args ⟨dbs.remove j k, []⟩).1

section Alike

variable {env : Env} {i j : ℕ} {k : Bytes} {args : List Bytes} {dbs : Databases}

theorem expireWith_alike (hoff : i ≠ j ∨ k ∉ args.take 1) (time : UInt64 → UInt64) :
    (Cmd.expireWith time i args ⟨dbs, []⟩).1
      = (Cmd.expireWith time i args ⟨dbs.remove j k, []⟩).1 := by
  refine bind_lift_fst fun _ _ => bind_lift_fst fun key hkey => bind_pure_fst ?_ _
  refine (sameBut_remove dbs j k).changeExpire (hoff.imp_right fun hk heq => hk ?_) _ _ _
  exact heq ▸ mem_take_of_arg hkey one_pos

theorem persist_alike (hoff : i ≠ j ∨ k ∉ args.take 1) :
    (Cmd.persist env i args ⟨dbs, []⟩).1 = (Cmd.persist env i args ⟨dbs.remove j k, []⟩).1 := by
  refine bind_lift_fst fun key hkey => bind_pure_fst ?_ _
  refine (sameBut_remove dbs j k).changeExpire (hoff.imp_right fun hk heq => hk ?_) _ _ _
  exact heq ▸ mem_take_of_arg hkey one_pos

theorem del_alike (hoff : i ≠ j ∨ k ∉ args) :
    (Cmd.del env i args ⟨dbs, []⟩).1 = (Cmd.del env i args ⟨dbs.remove j k, []⟩).1 :=
  bind_pure_fst ((sameBut_remove dbs j k).del hoff 0 [] []) _

variable (hdead : dbs.liveEntry env.now j k = none)

include hdead

/-- A key that is there is another one. -/
theorem ne_of_existsKey {old : Bytes} (h : dbs.existsKey env.now i old = .ok true) :
    i ≠ j ∨ old ≠ k := by
  by_contra hnot
  obtain ⟨rfl, rfl⟩ := not_or.mp hnot |>.imp not_ne_iff.mp not_ne_iff.mp
  have hlive := Databases.isSome_of_existsKey h
  rw [hdead] at hlive
  cases hlive

theorem existsKey_remove (old : Bytes) :
    dbs.existsKey env.now i old = (dbs.remove j k).existsKey env.now i old :=
  ((GuardedRead.existsKey i old).eq_remove hdead).symm

theorem rename_alike :
    (Cmd.renameCmd env i args ⟨dbs, []⟩).1
      = (Cmd.renameCmd env i args ⟨dbs.remove j k, []⟩).1 := by
  refine bind_lift_fst fun old _ => bind_read_fst (existsKey_remove hdead old) fun found hfound =>
    ?_
  cases found with
  | false => rfl
  | true =>
    refine bind_lift_fst fun new _ => bind_pure_fst ?_ fun _ => RespValue.ok
    exact (sameBut_remove dbs j k).rename (ne_of_existsKey hdead hfound) new [] []

theorem renamenx_alike :
    (Cmd.renamenx env i args ⟨dbs, []⟩).1
      = (Cmd.renamenx env i args ⟨dbs.remove j k, []⟩).1 := by
  refine bind_lift_fst fun new _ => bind_read_fst (existsKey_remove hdead new) fun taken _ => ?_
  cases taken with
  | true => rfl
  | false =>
    refine bind_lift_fst fun old _ => bind_read_fst (existsKey_remove hdead old) fun found hfound =>
      ?_
    cases found with
    | false => rfl
    | true =>
      refine bind_pure_fst ?_ fun _ => RespValue.integer 1
      exact (sameBut_remove dbs j k).rename (ne_of_existsKey hdead hfound) new [] []

end Alike

theorem repliesAlike_keyNames {c : CommandDef} (hc : c ∈ commands) (hname : c.name ∈ keyNames) :
    c.RepliesAlike := by
  refine of_definitions (P := CommandDef.RepliesAlike) ?_ hc hname
  have hmem : ∀ c ∈ Cmd.genericCommands, c ∈ commands := fun c hc => by
    simp only [commands, List.mem_append]
    tauto
  simp only [keyNames, List.forall_mem_cons]
  refine ⟨⟨⟨"DEL", -2, .write Cmd.del⟩, hmem _ ?_, rfl, _, rfl, fun _ _ _ _ _ _ _ => del_alike⟩,
    ⟨⟨"EXPIRE", 3, .write Cmd.expire⟩, hmem _ ?_, rfl, _, rfl,
      fun _ _ _ _ _ _ _ h => expireWith_alike h _⟩,
    ⟨⟨"EXPIREAT", 3, .write Cmd.expireat⟩, hmem _ ?_, rfl, _, rfl,
      fun _ _ _ _ _ _ _ h => expireWith_alike h _⟩,
    ⟨⟨"PEXPIRE", 3, .write Cmd.pexpire⟩, hmem _ ?_, rfl, _, rfl,
      fun _ _ _ _ _ _ _ h => expireWith_alike h _⟩,
    ⟨⟨"PEXPIREAT", 3, .write Cmd.pexpireat⟩, hmem _ ?_, rfl, _, rfl,
      fun _ _ _ _ _ _ _ h => expireWith_alike h _⟩,
    ⟨⟨"PERSIST", 2, .write Cmd.persist⟩, hmem _ ?_, rfl, _, rfl,
      fun _ _ _ _ _ _ _ h => persist_alike h⟩,
    ⟨⟨"RENAME", 3, .write Cmd.renameCmd⟩, hmem _ ?_, rfl, _, rfl,
      fun _ _ _ _ _ _ hdead _ => rename_alike hdead⟩,
    ⟨⟨"RENAMENX", 3, .write Cmd.renamenx⟩, hmem _ ?_, rfl, _, rfl,
      fun _ _ _ _ _ _ hdead _ => renamenx_alike hdead⟩, List.forall_mem_nil _⟩ <;>
    simp [Cmd.genericCommands]

end VeloDB
