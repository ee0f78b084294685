import VeloDB.Cmd.Table
import VeloDB.Store.Content
import VeloDB.Store.Locality

/-!
# The keys a command works on

Most commands name the keys they work on, and look at and change nothing else. So clients that keep
to keys of their own do not notice each other: whatever the order in which their commands are taken,
one at a time, each one gets the replies that it would get on its own.

Left out are the commands that look at a whole database (`KEYS`, `SCAN`, `DBSIZE`, `RANDOMKEY`,
`INFO`, the two `FLUSH` commands) or at what is not in a database. Clients are compared with
themselves on another store, where the hash maps and hash sets need not iterate in the same order,
so the commands that go by this order are left out there, too. No background task has a turn in
between.

## Main results

* `local_commands` — the commands and their keys
* `clients_undisturbed` — clients with keys of their own
-/

namespace VeloDB

open Rust Proc

/-- The commands that name the keys they work on. -/
def keyedNames : List String :=
  ["GET", "SET", "MGET", "MSET", "INCR", "INCRBY", "DECR", "DECRBY", "APPEND", "STRLEN", "GETRANGE",
    "SETRANGE", "GETSET", "DEL", "EXISTS", "EXPIRE", "EXPIREAT", "PEXPIRE", "PEXPIREAT", "TTL",
    "PTTL", "PERSIST", "TYPE", "RENAME", "RENAMENX", "HSCAN", "SSCAN", "ZSCAN", "LPUSH", "RPUSH",
    "LPOP", "RPOP", "LLEN", "LRANGE", "LINDEX", "LSET", "LTRIM", "LREM", "SADD", "SREM", "SMEMBERS",
    "SISMEMBER", "SCARD", "SINTER", "SUNION", "SDIFF", "SRANDMEMBER", "SPOP", "HSET", "HGET",
    "HDEL", "HEXISTS", "HGETALL", "HKEYS", "HVALS", "HLEN", "HINCRBY", "NHSET", "NHGET", "NHDEL",
    "NHKEYS", "NHVALS", "NHGETALL", "ZADD", "ZREM", "ZSCORE", "ZRANK", "ZRANGE", "ZRANGEBYSCORE",
    "ZCARD", "ZCOUNT", "XADD", "XRANGE", "XREVRANGE", "XLEN", "XDEL", "XTRIM", "XREAD"]

/-- Those of them whose replies or effects go by the order in which a hash map or a hash set
iterates. Two maps with the same contents may iterate in different orders. -/
def hashOrderNames : List String :=
  ["HSCAN", "SSCAN", "ZSCAN", "SMEMBERS", "SINTER", "SUNION", "SDIFF", "SRANDMEMBER", "SPOP",
    "HGETALL", "HKEYS", "HVALS", "NHKEYS", "NHVALS", "NHGETALL", "ZRANK", "ZRANGE", "ZRANGEBYSCORE"]

/-- The commands that name their keys and answer from the contents alone. -/
def settledNames : List String := keyedNames.filter fun name => name ∉ hashOrderNames

/-- The keys of such a command. Which arguments of `XREAD` are keys depends on its options, so all
of them count. -/
def keysOf (name : String) (args : List Bytes) : List Bytes :=
  if name = "MSET" then (parsePairs args).map Prod.fst
  else if name ∈ ["MGET", "DEL", "EXISTS", "SINTER", "SUNION", "SDIFF", "XREAD"] then args
  else if name ∈ ["RENAME", "RENAMENX"] then args.take 2
  else args.take 1

/-! ### Reading -/

section Reading

variable {K : Set (ℕ × Bytes)} {α β : Type}

/-- What is computed depends on the keys in `K` only. -/
def ReadsOn (K : Set (ℕ × Bytes)) (f : Databases → α) : Prop :=
  ∀ dbs dbs', Databases.SameOn K dbs dbs' → f dbs = f dbs'

namespace ReadsOn

theorem const (a : α) : ReadsOn K fun _ => a := fun _ _ _ => rfl

/-- Parsing, then the rest. -/
theorem parsed {x : Except Failure α} {f : α → Databases → Except Failure β}
    (hf : ∀ a, ReadsOn K (f a)) : ReadsOn K fun dbs => x >>= fun a => f a dbs := by
  intro dbs dbs' h
  cases x with
  | error e => rfl
  | ok a => exact hf a dbs dbs' h

/-- The first argument as a key, then the rest. -/
theorem keyed {i : ℕ} {args : List Bytes} {f : Bytes → Databases → Except Failure β}
    (hK : ∀ k ∈ args.take 1, (i, k) ∈ K) (hf : ∀ k, (i, k) ∈ K → ReadsOn K (f k)) :
    ReadsOn K fun dbs => arg args 0 >>= fun k => f k dbs := by
  cases args with
  | nil => exact const _
  | cons k args => exact hf k (hK k List.mem_cons_self)

/-- A method, then the rest. -/
theorem method {m : Databases → Except Failure α} (hm : ReadsOn K m) (g : α → Except Failure β) :
    ReadsOn K fun dbs => m dbs >>= g := by
  intro dbs dbs' h
  dsimp only
  rw [hm dbs dbs' h]

/-- A method of the store, then the rest. -/
theorem replied {m : Databases → Except VeloDBError α} (hm : ReadsOn K m)
    (g : α → Except Failure β) : ReadsOn K fun dbs => ofResult (m dbs) >>= g :=
  method (fun dbs dbs' h => congrArg ofResult (hm dbs dbs' h)) g

/-- A method for each key. -/
theorem mapM {i : ℕ} {ks : List Bytes} (hks : ∀ k ∈ ks, (i, k) ∈ K)
    {m : Bytes → Databases → Except VeloDBError α} (hm : ∀ k, (i, k) ∈ K → ReadsOn K (m k)) :
    ReadsOn K fun dbs => ks.mapM fun k => ofResult (m k dbs) := by
  intro dbs dbs' h
  induction ks with
  | nil => rfl
  | cons k ks ih =>
    rw [List.forall_mem_cons] at hks
    have hrest := ih hks.2
    dsimp only at hrest ⊢
    rw [List.mapM_cons, List.mapM_cons, hm k hks.1 dbs dbs' h, hrest]

end ReadsOn

end Reading

/-! ### Handlers -/

/-- The handler works on the given keys of database `i`. -/
def Handler.LocalTo (K : Set (ℕ × Bytes)) (env : Env) (i : ℕ) (args : List Bytes) :
    Handler → Prop
  | .read f => ReadsOn K fun dbs => f env dbs i args
  | .write f => Local keyView K (f env i args)
  | _ => False

namespace Cmd

section Keyed

variable {K : Set (ℕ × Bytes)} {i : ℕ} {args : List Bytes} {α β : Type}

/-- Parsing, then the rest. -/
theorem local_parsed {x : Except Failure α} {m : α → KeyM β} (hm : ∀ a, Local keyView K (m a)) :
    Local keyView K (lift x >>= m) :=
  (Local.ofExcept x).bind hm

/-- A method, and a reply. -/
theorem local_replied {m : KeyM α} (hm : Local keyView K m) (g : α → RespValue) :
    Local keyView K (m >>= fun a => pure (g a)) :=
  hm.bind fun _ => Local.pure _

/-- The first argument as a key, then the rest. -/
theorem local_keyed (hK : ∀ k ∈ args.take 1, (i, k) ∈ K) {m : Bytes → KeyM β}
    (hm : ∀ k, (i, k) ∈ K → Local keyView K (m k)) :
    Local keyView K (lift (arg args 0) >>= m) := by
  cases args with
  | nil => exact Local.fail _
  | cons k args => exact hm k (hK k List.mem_cons_self)

/-- A check, then the rest. -/
theorem local_check {p : Prop} [Decidable p] {m : KeyM Unit} {f : Unit → KeyM β}
    (hm : Local keyView K m) (hf : ∀ u, Local keyView K (f u)) :
    Local keyView K (if p then m >>= f else f ()) := by
  split
  · exact hm.bind hf
  · exact hf ()

variable (env : Env)

section One

variable (hK : ∀ k ∈ args.take 1, (i, k) ∈ K)

include hK

theorem local_set : Local keyView K (Cmd.set env i args) := by
  refine local_parsed fun flags => local_keyed hK fun k hk => local_parsed fun value => ?_
  split
  · refine (Keyspace.local_existsKey hk env.now).bind fun found => ?_
    split
    · exact Local.pure _
    · exact local_replied (Keyspace.local_set hk _ _) _
  · exact local_replied (Keyspace.local_set hk _ _) _

omit hK in
theorem local_incrFn {k : Bytes} (hk : (i, k) ∈ K) (by_ : Int64) :
    Local keyView K (Cmd.incrFn env i k by_) :=
  (Keyspace.local_get hk env.now).bind fun _ => local_parsed fun _ =>
    local_replied (Keyspace.local_set hk _ _) _

theorem local_append : Local keyView K (Cmd.append env i args) :=
  local_keyed hK fun _ hk => (Keyspace.local_get hk env.now).bind fun _ => local_parsed fun _ =>
    local_replied (Keyspace.local_set hk _ _) _

theorem local_setrange : Local keyView K (Cmd.setrange env i args) := by
  refine local_parsed fun offset => local_keyed hK fun k hk =>
    (Keyspace.local_get hk env.now).bind fun v => local_parsed fun patch => ?_
  split
  · exact local_replied (Keyspace.local_set hk _ _) _
  · exact Local.fail _

theorem local_getset : Local keyView K (Cmd.getset env i args) :=
  local_keyed hK fun _ hk => (Keyspace.local_get hk env.now).bind fun _ => local_parsed fun _ =>
    local_replied (Keyspace.local_set hk _ _) _

theorem local_expireWith (time : UInt64 → UInt64) :
    Local keyView K (Cmd.expireWith time i args) :=
  local_parsed fun _ => local_keyed hK fun _ hk =>
    local_replied (Keyspace.local_changeExpire hk _) _

theorem local_hset : Local keyView K (Cmd.hset env i args) :=
  local_parsed fun _ => local_check (Keyspace.local_throw _) fun _ => local_keyed hK fun _ hk =>
    local_replied (Keyspace.local_upsertAs hk .hash _ _) _

theorem local_xadd : Local keyView K (Cmd.xadd env i args) := by
  rw [Cmd.xadd]
  dsimp only
  split
  · exact Keyspace.local_throw _
  · next id rest _ =>
    refine local_check (Keyspace.local_throw _) fun _ => local_keyed hK fun k hk =>
      local_replied ?_ _
    refine (Keyspace.local_read fun _ _ h => h.generateStreamId hk env.now id).bind fun id =>
      (Keyspace.local_read fun _ _ h => congrArg Except.ok (h.streamLastId hk env.now)).bind
        fun last => ?_
    cases last with
    | none => exact Keyspace.local_push hk .stream _ _
    | some last =>
      dsimp only
      split
      · exact Keyspace.local_push hk .stream _ _
      · exact Keyspace.local_throw _

theorem local_xtrim : Local keyView K (Cmd.xtrim env i args) := by
  rw [Cmd.xtrim]
  dsimp only
  split
  · exact Keyspace.local_throw _
  · exact local_parsed fun _ => local_keyed hK fun _ hk =>
      local_replied (Keyspace.local_updateAs hk .stream _ _ _) _

end One

/-- The keys and ids of `XREAD` are among its arguments. -/
theorem mem_of_xreadOptions (o : ReadOptions) {k : Bytes} (hk : k ∈ (xreadOptions env args o).2) :
    k ∈ args := by
  fun_induction xreadOptions env args o with
  | case1 => cases hk
  | case2 => exact hk
  | case3 => cases hk
  | case4 => exact hk
  | case5 o f v rest _ _ ih => exact List.mem_cons_of_mem _ (List.mem_cons_of_mem _ (ih hk))
  | case6 o f v rest _ _ _ ih => exact List.mem_cons_of_mem _ (List.mem_cons_of_mem _ (ih hk))
  | case7 => exact List.mem_cons_of_mem _ hk
  | case8 o f v rest _ _ _ _ ih => exact List.mem_cons_of_mem _ (ih hk)

theorem reads_xread (hK : ∀ k ∈ args, (i, k) ∈ K) :
    ReadsOn K fun dbs => Cmd.xread env dbs i args := by
  intro dbs dbs' h
  have hkeys : ∀ k ∈ (xreadOptions env args {}).2.take ((xreadOptions env args {}).2.length / 2),
      (i, k) ∈ K :=
    fun k hk => hK k (mem_of_xreadOptions env {} (List.mem_of_mem_take hk))
  dsimp only
  rw [Cmd.xread, Cmd.xread]
  simp only [h.xread hkeys env.now]

theorem local_mset (hK : ∀ k ∈ (parsePairs args).map Prod.fst, (i, k) ∈ K) :
    Local keyView K (Cmd.mset env i args) := by
  have hset : Local keyView K (Proc.each (parsePairs args) fun p => Keyspace.set i p.1 p.2 none) :=
    Local.each fun p hp => Keyspace.local_set (hK p.1 (List.mem_map_of_mem hp)) _ _
  rw [Cmd.mset]
  exact local_check (Keyspace.local_throw _) fun _ => local_replied hset _

theorem local_del (hK : ∀ k ∈ args, (i, k) ∈ K) : Local keyView K (Cmd.del env i args) :=
  local_replied (Local.foldEach (fun _ k hk => (Keyspace.local_del (hK k hk)).bind fun _ =>
    Local.pure _) _) _

section Two

variable (hK : ∀ k ∈ args.take 2, (i, k) ∈ K)

include hK

theorem local_renameCmd : Local keyView K (Cmd.renameCmd env i args) := by
  rcases args with _ | ⟨old, _ | ⟨new, rest⟩⟩
  · exact Local.fail _
  · rw [List.take_succ_cons, List.forall_mem_cons] at hK
    exact (Keyspace.local_existsKey hK.1 env.now).bind fun _ =>
      local_check (Keyspace.local_throw _) fun _ => Local.fail _
  · rw [List.take_succ_cons, List.take_succ_cons, List.forall_mem_cons, List.forall_mem_cons] at hK
    exact (Keyspace.local_existsKey hK.1 env.now).bind fun _ =>
      local_check (Keyspace.local_throw _) fun _ =>
        local_replied (Keyspace.local_rename hK.1 hK.2.1) _

theorem local_renamenx : Local keyView K (Cmd.renamenx env i args) := by
  rcases args with _ | ⟨old, _ | ⟨new, rest⟩⟩
  · exact Local.fail _
  · exact Local.fail _
  · rw [List.take_succ_cons, List.take_succ_cons, List.forall_mem_cons, List.forall_mem_cons] at hK
    refine (Keyspace.local_existsKey hK.2.1 env.now).bind fun taken => ?_
    split
    · exact Local.pure _
    · exact (Keyspace.local_existsKey hK.1 env.now).bind fun _ =>
        local_check (Keyspace.local_throw _) fun _ =>
          local_replied (Keyspace.local_rename hK.1 hK.2.1) _

end Two

end Keyed

end Cmd

/-! ### The table -/

/-- The handler works on the keys of the command. -/
def CommandDef.LocalTo (K : Set (ℕ × Bytes)) (env : Env) (i : ℕ) (args : List Bytes)
    (c : CommandDef) : Prop :=
  c.name ∈ keyedNames → (∀ k ∈ keysOf c.name args, (i, k) ∈ K) → c.handler.LocalTo K env i args

section Table

variable {K : Set (ℕ × Bytes)} {env : Env} {i : ℕ} {args : List Bytes} {name : String} {arity : ℤ}

theorem CommandDef.LocalTo.of {handler : Handler}
    (h : (∀ k ∈ keysOf name args, (i, k) ∈ K) → handler.LocalTo K env i args) :
    CommandDef.LocalTo K env i args ⟨name, arity, handler⟩ :=
  fun _ hK => h hK

theorem CommandDef.LocalTo.keyless {handler : Handler} (h : name ∉ keyedNames) :
    CommandDef.LocalTo K env i args ⟨name, arity, handler⟩ :=
  fun hname => absurd hname h

open CommandDef.LocalTo Cmd ReadsOn

variable (K env i args)

theorem local_stringCommands : ∀ c ∈ Cmd.stringCommands, c.LocalTo K env i args := by
  simp only [Cmd.stringCommands, List.forall_mem_cons]
  refine ⟨of fun hK => ?_, of fun hK => local_set env hK, of fun hK => ?_,
    of fun hK => local_mset env hK, of fun hK => local_keyed hK fun _ hk => local_incrFn env hk 1,
    of fun hK => ?_, of fun hK => local_keyed hK fun _ hk => local_incrFn env hk (-1),
    of fun hK => ?_, of fun hK => local_append env hK, of fun hK => ?_, of fun hK => ?_,
    of fun hK => local_setrange env hK, of fun hK => local_getset env hK, List.forall_mem_nil _⟩
  · exact keyed hK fun k hk => replied (fun _ _ h => h.get hk env.now) _
  · exact method (mapM hK fun k hk _ _ h => h.get hk env.now) _
  · exact local_parsed fun _ => local_parsed fun by_ => local_keyed hK fun _ hk =>
      local_incrFn env hk by_
  · exact local_parsed fun _ => local_parsed fun by_ => local_keyed hK fun _ hk =>
      local_incrFn env hk (-by_)
  · exact keyed hK fun k hk => replied (fun _ _ h => h.get hk env.now) _
  · exact parsed fun _ => parsed fun _ => keyed hK fun k hk =>
      replied (fun _ _ h => h.get hk env.now) _

theorem local_genericCommands : ∀ c ∈ Cmd.genericCommands, c.LocalTo K env i args := by
  have hscan : ∀ {α : Type} (kind : Kind α) {β : Type} (missing : β) (f : α → β)
      (g : Option String × ℕ → β → Except Failure RespValue), (∀ k ∈ args.take 1, (i, k) ∈ K) →
      ReadsOn K fun dbs => arg args 1 >>= fun c => Cmd.parseCursor c >>= fun _ =>
        argsFrom args 2 >>= fun l => Cmd.parseScanOpts env l (none, 10) >>= fun o =>
        arg args 0 >>= fun k => ofResult (dbs.readAs kind env.now i k missing f) >>= g o :=
    fun kind β missing f g hK => parsed fun _ => parsed fun _ => parsed fun _ => parsed fun _ =>
      keyed hK fun k hk => replied (fun _ _ h => h.readAs hk env.now kind missing f) _
  have httl : (∀ k ∈ args.take 1, (i, k) ∈ K) → ∀ scale,
      ReadsOn K fun dbs => Cmd.ttlWith scale env dbs i args := fun hK scale =>
    keyed hK fun k hk => replied (fun _ _ h => h.getExpire hk env.now) _
  simp only [Cmd.genericCommands, List.forall_mem_cons]
  exact ⟨of fun hK => local_del env hK,
    of fun hK => method (mapM hK fun k hk _ _ h => h.existsKey hk env.now) _,
    of fun hK => local_expireWith hK _, of fun hK => local_expireWith hK _,
    of fun hK => local_expireWith hK _, of fun hK => local_expireWith hK _,
    of fun hK => httl hK _, of fun hK => httl hK _,
    of fun hK => local_keyed hK fun _ hk => local_replied (Keyspace.local_changeExpire hk none) _,
    of fun hK => keyed hK fun k hk => replied (fun _ _ h => h.getType hk env.now) _,
    of fun hK => local_renameCmd env hK, of fun hK => local_renamenx env hK,
    keyless (by decide), keyless (by decide), keyless (by decide), keyless (by decide),
    keyless (by decide), keyless (by decide),
    of fun hK => hscan .hash _ _ _ hK, of fun hK => hscan .set _ _ _ hK,
    of fun hK => hscan .zset _ _ _ hK, List.forall_mem_nil _⟩

theorem local_listCommands : ∀ c ∈ Cmd.listCommands, c.LocalTo K env i args := by
  simp only [Cmd.listCommands, List.forall_mem_cons]
  exact ⟨of fun hK => local_keyed hK fun _ hk => local_parsed fun _ =>
      local_replied (Keyspace.local_push hk .list _ _) _,
    of fun hK => local_keyed hK fun _ hk => local_parsed fun _ =>
      local_replied (Keyspace.local_push hk .list _ _) _,
    of fun hK => local_keyed hK fun _ hk =>
      local_replied (Keyspace.local_updateAs hk .list _ _ _) _,
    of fun hK => local_keyed hK fun _ hk =>
      local_replied (Keyspace.local_updateAs hk .list _ _ _) _,
    of fun hK => keyed hK fun k hk => replied (fun _ _ h => h.readAs hk env.now .list _ _) _,
    of fun hK => parsed fun _ => parsed fun _ => keyed hK fun k hk =>
      replied (fun _ _ h => h.readAs hk env.now .list _ _) _,
    of fun hK => parsed fun _ => keyed hK fun k hk =>
      replied (fun _ _ h => h.readAs hk env.now .list _ _) _,
    of fun hK => local_parsed fun _ => local_keyed hK fun _ hk => local_parsed fun _ =>
      local_replied (Keyspace.local_updateAs hk .list _ _ _) _,
    of fun hK => local_parsed fun _ => local_parsed fun _ => local_keyed hK fun _ hk =>
      local_replied (Keyspace.local_updateAs hk .list _ _ _) _,
    of fun hK => local_parsed fun _ => local_keyed hK fun _ hk => local_parsed fun _ =>
      local_replied (Keyspace.local_updateAs hk .list _ _ _) _,
    keyless (by decide), keyless (by decide), List.forall_mem_nil _⟩

theorem local_setCommands : ∀ c ∈ Cmd.setCommands, c.LocalTo K env i args := by
  simp only [Cmd.setCommands, List.forall_mem_cons]
  exact ⟨of fun hK => local_keyed hK fun _ hk => local_parsed fun _ =>
      local_replied (Keyspace.local_upsertAs hk .set _ _) _,
    of fun hK => local_keyed hK fun _ hk => local_parsed fun _ =>
      local_replied (Keyspace.local_updateAs hk .set _ _ _) _,
    of fun hK => keyed hK fun k hk => replied (fun _ _ h => h.readAs hk env.now .set _ _) _,
    of fun hK => keyed hK fun k hk => parsed fun _ =>
      replied (fun _ _ h => h.readAs hk env.now .set _ _) _,
    of fun hK => keyed hK fun k hk => replied (fun _ _ h => h.readAs hk env.now .set _ _) _,
    of fun hK => replied (fun _ _ h => h.sinter hK env.now) _,
    of fun hK => replied (fun _ _ h => h.sunion hK env.now) _,
    of fun hK => replied (fun _ _ h => h.sdiff hK env.now) _,
    of fun hK => keyed hK fun k hk => method (fun _ _ h => h.srandmember hk env.now env.nanos _) _,
    of fun hK => local_keyed hK fun _ hk =>
      local_replied (Keyspace.local_updateAs hk .set _ _ _) _, List.forall_mem_nil _⟩

theorem local_hashCommands : ∀ c ∈ Cmd.hashCommands, c.LocalTo K env i args := by
  simp only [Cmd.hashCommands, List.forall_mem_cons]
  exact ⟨of fun hK => local_hset env hK,
    of fun hK => keyed hK fun k hk => parsed fun _ =>
      replied (fun _ _ h => h.readAs hk env.now .hash _ _) _,
    of fun hK => local_keyed hK fun _ hk => local_parsed fun _ =>
      local_replied (Keyspace.local_updateAs hk .hash _ _ _) _,
    of fun hK => keyed hK fun k hk => parsed fun _ =>
      replied (fun _ _ h => h.readAs hk env.now .hash _ _) _,
    of fun hK => keyed hK fun k hk => replied (fun _ _ h => h.readAs hk env.now .hash _ _) _,
    of fun hK => keyed hK fun k hk => replied (fun _ _ h => h.readAs hk env.now .hash _ _) _,
    of fun hK => keyed hK fun k hk => replied (fun _ _ h => h.readAs hk env.now .hash _ _) _,
    of fun hK => keyed hK fun k hk => replied (fun _ _ h => h.readAs hk env.now .hash _ _) _,
    of fun hK => local_parsed fun _ => local_parsed fun _ => local_keyed hK fun _ hk =>
      local_parsed fun _ => local_replied (Keyspace.local_upsertAs hk .hash _ _) _,
    List.forall_mem_nil _⟩

theorem local_nestedHashCommands : ∀ c ∈ Cmd.nestedHashCommands, c.LocalTo K env i args := by
  simp only [Cmd.nestedHashCommands, List.forall_mem_cons]
  exact ⟨of fun hK => local_keyed hK fun _ hk => local_parsed fun _ => local_parsed fun _ =>
      local_parsed fun _ => local_replied (Keyspace.local_upsertAs hk .nestedHash _ _) _,
    of fun hK => keyed hK fun k hk => parsed fun _ => parsed fun _ =>
      replied (fun _ _ h => h.readAs hk env.now .nestedHash _ _) _,
    of fun hK => local_keyed hK fun _ hk => local_parsed fun _ =>
      local_replied (Keyspace.local_updateAs hk .nestedHash _ _ _) _,
    of fun hK => keyed hK fun k hk => replied (fun _ _ h => h.readAs hk env.now .nestedHash _ _) _,
    of fun hK => keyed hK fun k hk => replied (fun _ _ h => h.readAs hk env.now .nestedHash _ _) _,
    of fun hK => keyed hK fun k hk => replied (fun _ _ h => h.readAs hk env.now .nestedHash _ _) _,
    List.forall_mem_nil _⟩

theorem local_zsetCommands : ∀ c ∈ Cmd.zsetCommands, c.LocalTo K env i args := by
  simp only [Cmd.zsetCommands, List.forall_mem_cons]
  exact ⟨of fun hK => local_parsed fun _ => local_parsed fun _ => local_keyed hK fun _ hk =>
      local_replied (Keyspace.local_upsertAs hk .zset _ _) _,
    of fun hK => local_keyed hK fun _ hk => local_parsed fun _ =>
      local_replied (Keyspace.local_updateAs hk .zset _ _ _) _,
    of fun hK => keyed hK fun k hk => parsed fun _ =>
      replied (fun _ _ h => h.readAs hk env.now .zset _ _) _,
    of fun hK => keyed hK fun k hk => parsed fun _ =>
      replied (fun _ _ h => h.readAs hk env.now .zset _ _) _,
    of fun hK => parsed fun _ => parsed fun _ => keyed hK fun k hk =>
      method (fun _ _ h => h.zrange hk env.now _ _ _) _,
    of fun hK => parsed fun _ => parsed fun _ => parsed fun _ => parsed fun _ =>
      keyed hK fun k hk => method (fun _ _ h => h.zrangeByScore hk env.now _ _ _ _) _,
    of fun hK => keyed hK fun k hk => replied (fun _ _ h => h.readAs hk env.now .zset _ _) _,
    of fun hK => parsed fun _ => parsed fun _ => parsed fun _ => parsed fun _ =>
      keyed hK fun k hk => replied (fun _ _ h => h.readAs hk env.now .zset _ _) _,
    List.forall_mem_nil _⟩

theorem local_streamCommands : ∀ c ∈ Cmd.streamCommands, c.LocalTo K env i args := by
  simp only [Cmd.streamCommands, List.forall_mem_cons]
  refine ⟨of fun hK => local_xadd env hK, of fun hK => ?_, of fun hK => ?_, of fun hK => ?_,
    of fun hK => ?_, of fun hK => local_xtrim env hK, of fun hK => ?_, keyless (by decide),
    keyless (by decide), keyless (by decide), keyless (by decide), keyless (by decide),
    List.forall_mem_nil _⟩
  · exact keyed hK fun k hk => parsed fun _ => parsed fun _ =>
      replied (fun _ _ h => h.xrange hk env.now _ _ _) _
  · exact keyed hK fun k hk => parsed fun _ => parsed fun _ =>
      replied (fun _ _ h => h.xrevrange hk env.now _ _ _) _
  · exact keyed hK fun k hk => replied (fun _ _ h => h.readAs hk env.now .stream _ _) _
  · exact local_parsed fun _ => local_keyed hK fun _ hk =>
      local_replied (Keyspace.local_updateAs hk .stream _ _ _) _
  · exact reads_xread env hK

/-- **The commands work on the keys they name.** -/
theorem local_commands : ∀ c ∈ commands, c.LocalTo K env i args := by
  refine forall_commands ?_ (local_stringCommands K env i args) (local_genericCommands K env i args)
    (local_listCommands K env i args) (local_setCommands K env i args)
    (local_hashCommands K env i args) (local_zsetCommands K env i args)
    (local_streamCommands K env i args) (local_nestedHashCommands K env i args) ?_
  · simp only [Cmd.serverCommands, List.forall_mem_cons]
    exact ⟨keyless (by decide), keyless (by decide), keyless (by decide), keyless (by decide),
      keyless (by decide), keyless (by decide), keyless (by decide), List.forall_mem_nil _⟩
  · intro c hc hname
    have hall : ∀ c ∈ Cmd.pubsubCommands ++ Cmd.transactionCommands ++ Cmd.luaCommands ++
        Cmd.clusterCommands, c.name ∉ keyedNames := by decide +kernel
    exact absurd hname (hall c hc)

end Table

/-! ### Requests -/

/-- The keys of the databases as cells. What every command may look at besides is how many databases
there are, and what the memory gate denies. -/
def storeView : View Store (ℕ × Bytes) (Option Entry) (ℕ × (String → Bool)) where
  cell s c := s.databases.find c.1 c.2
  frame s := (s.databases.length, s.tables.deniesMemory)

theorem deniesMemory_notify (keys : List Bytes) (t : Tables) :
    (keys.foldl Tables.notify t).deniesMemory = t.deniesMemory := by
  induction keys generalizing t with
  | nil => rfl
  | cons k keys ih =>
    rw [List.foldl_cons, ih, Tables.notify]
    split <;> rfl

/-- What a writing handler does to the keys it does to the store. -/
theorem local_run_write {K : Set (ℕ × Bytes)} {m : KeyM RespValue} (h : Local keyView K m) :
    Local storeView K fun s : Store => ((m { databases := s.databases }).1, Store.mk
      (m { databases := s.databases }).2.databases
      ((m { databases := s.databases }).2.notified.foldl Tables.notify s.tables)) := by
  refine ⟨fun s => Prod.ext (h.frame _) (deniesMemory_notify _ _), fun s c hc => h.outside _ c hc,
    fun s s' hs => ?_⟩
  have hlen : s.databases.length = s'.databases.length := congrArg Prod.fst hs.frame
  exact h.agrees { databases := s.databases } { databases := s'.databases } ⟨hlen, hs.cell⟩

/-- A command that a client sends, and everything else that the server looks at then. -/
structure Request where
  client : ℕ
  ctx : ClientContext
  env : Env
  name : String
  args : List Bytes

namespace Request

/-- The command is run. -/
def run (r : Request) (s : Store) : Except Failure RespValue × Whole :=
  dispatch r.env r.name r.args ⟨s, r.ctx⟩

/-- The store afterwards. -/
def next (s : Store) (r : Request) : Store := (r.run s).2.store

/-- Every request with its reply. -/
def answers : Store → List Request → List (Request × Except Failure RespValue) :=
  Run.gathered next fun s r => [(r, (r.run s).1)]

/-- The handler of a command, behind the memory gate and the check of the arity. -/
def handled (r : Request) (c : CommandDef) : Proc Store Failure RespValue := fun s =>
  ((catchError (c.handler.run (dispatchDepth r.env r.env.nesting) r.env r.args) ⟨s, r.ctx⟩).1,
    (catchError (c.handler.run (dispatchDepth r.env r.env.nesting) r.env r.args)
      ⟨s, r.ctx⟩).2.store)

theorem local_handled {K : Set (ℕ × Bytes)} (r : Request) (hname : r.name ∈ keyedNames)
    (hK : ∀ k ∈ keysOf r.name r.args, (r.ctx.dbIndex, k) ∈ K) {c : CommandDef}
    (hc : findCommand r.name = some c) : Local storeView K (r.handled c) := by
  obtain ⟨hmem, hcn⟩ := mem_of_findCommand hc
  have hlocal := local_commands K r.env r.ctx.dbIndex r.args c hmem (hcn ▸ hname) (hcn ▸ hK)
  unfold handled
  simp only [catchError_fst, catchError_snd]
  refine Local.mapResult (m := fun s : Store =>
    ((c.handler.run (dispatchDepth r.env r.env.nesting) r.env r.args ⟨s, r.ctx⟩).1,
      (c.handler.run (dispatchDepth r.env r.env.nesting) r.env r.args ⟨s, r.ctx⟩).2.store)) ?_ shown
  cases hh : c.handler with
  | read f =>
    rw [hh] at hlocal
    refine Local.reads fun s s' hs => hlocal s.databases s'.databases ⟨?_, fun i k hk => ?_⟩
    · exact congrArg Prod.fst hs.frame
    · exact hs.cell (i, k) hk
  | write f =>
    rw [hh] at hlocal
    exact local_run_write hlocal
  | _ =>
    rw [hh] at hlocal
    exact hlocal.elim

/-- What a request does, when the memory gate denies it or not. -/
def gated (r : Request) (denied : Bool) : Proc Store Failure RespValue :=
  if denied then .ofExcept (.ok (.error "OOM command not allowed when used memory > 'maxmemory'."))
  else match findCommand r.name with
    | some c =>
      if c.refuses r.args then .ofExcept (.ok (.error
        ("ERR wrong number of arguments for '" ++ r.env.host.toLowercase c.name ++ "' command")))
      else r.handled c
    | none => .ofExcept (.ok (.error
        ("ERR unknown command '" ++ r.env.host.toLowercase r.name ++ "'")))

theorem run_eq (r : Request) (s : Store) :
    ((r.run s).1, (r.run s).2.store) = r.gated (s.tables.deniesMemory r.name) s := by
  rw [run, dispatch, dispatchDepth, dispatchWith, gated]
  dsimp only
  by_cases hgate : s.tables.deniesMemory r.name
  · rw [if_pos hgate, if_pos hgate]
    rfl
  · rw [if_neg hgate, if_neg hgate]
    cases findCommand r.name with
    | none => rfl
    | some c =>
      dsimp only
      by_cases hargs : c.refuses r.args
      · rw [if_pos hargs, if_pos hargs]
        rfl
      · rw [if_neg hargs, if_neg hargs]
        rfl

/-- **A request works on its keys.** -/
theorem local_run (r : Request) (hname : r.name ∈ keyedNames) :
    Local storeView {c | c.1 = r.ctx.dbIndex ∧ c.2 ∈ keysOf r.name r.args}
      fun s => ((r.run s).1, (r.run s).2.store) := by
  have hrun : (fun s => ((r.run s).1, (r.run s).2.store)) = fun s =>
      r.gated ((storeView.frame s).2 r.name) s := funext (run_eq r)
  rw [hrun]
  refine Local.ofFrame (v := storeView) (m := fun frame => r.gated (frame.2 r.name)) fun frame => ?_
  rw [gated]
  split
  · exact Local.ofExcept _
  · cases hc : findCommand r.name with
    | none => exact Local.ofExcept _
    | some c =>
      dsimp only
      split
      · exact Local.ofExcept _
      · refine local_handled r hname (fun k hk => ?_) hc
        exact ⟨rfl, hk⟩

/-- **Clients with keys of their own do not notice each other.** In whatever order their commands
are taken, a client gets the replies that its own commands get on their own, and its keys end up as
these leave them. -/
theorem clients_undisturbed (owner : ℕ × Bytes → ℕ) (rs : List Request)
    (hsettled : ∀ r ∈ rs, r.name ∈ settledNames)
    (howned : ∀ r ∈ rs, ∀ k ∈ keysOf r.name r.args, owner (r.ctx.dbIndex, k) = r.client)
    (s : Store) (o : ℕ) :
    (answers s rs).filter (fun a => a.1.client = o)
        = answers s (rs.filter fun r => r.client = o) ∧
      ∀ i k, owner (i, k) = o → (rs.foldl next s).databases.find i k
        = ((rs.filter fun r => r.client = o).foldl next s).databases.find i k := by
  obtain ⟨hanswers, hend⟩ := Local.interleaved (v := storeView)
    (fun r s => ((run r s).1, (run r s).2.store))
    (fun r => {c | c.1 = r.ctx.dbIndex ∧ c.2 ∈ keysOf r.name r.args}) client owner
    (fun r hr => local_run r (List.mem_of_mem_filter (hsettled r hr)))
    (fun r hr c hc => by rw [← howned r hr c.2 hc.2, ← hc.1]) o (.refl storeView _ s)
  exact ⟨hanswers, fun i k hk => hend.cell (i, k) hk⟩

/-- A request of a client on the first database. -/
def plain (client : ℕ) (name : String) (args : List Bytes) : Request :=
  ⟨client, {}, Moment.on ⟨0, 0, 0, 1⟩ Host.plain, name, args⟩

/-- One client keeps to `a`, the other to everything else. -/
theorem clients_undisturbed_two :
    (answers (Store.new 1) [plain 0 "SET" [[97], [53]], plain 1 "SET" [[98], [54]],
        plain 0 "INCR" [[97]], plain 1 "DEL" [[98]], plain 0 "GET" [[97]]]).filter
        (fun a => a.1.client = 0)
      = answers (Store.new 1)
          [plain 0 "SET" [[97], [53]], plain 0 "INCR" [[97]], plain 0 "GET" [[97]]] :=
  (clients_undisturbed (fun c => if c.2 = [97] then 0 else 1)
    [plain 0 "SET" [[97], [53]], plain 1 "SET" [[98], [54]], plain 0 "INCR" [[97]],
      plain 1 "DEL" [[98]], plain 0 "GET" [[97]]]
    (by decide +kernel) (by decide +kernel) (Store.new 1) 0).1

end Request

end VeloDB
