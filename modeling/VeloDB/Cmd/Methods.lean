import VeloDB.Cmd.Table

/-!
# The methods of the store behind a writing command

A handler that writes parses its arguments, calls a few methods of the store and replies. What holds
of the methods, of everything that leaves the store alone, and of one procedure after another, holds
of the handlers. It is asked of the methods that store something only under the keys that the
command stores under.

`INFO` and `DBSIZE` are left out: they write by throwing out what has expired, and that is another
matter.

## Main results

* `Keyspace.MethodsHave.commands` — what the methods have, the writing commands have
-/

namespace VeloDB

open Rust Proc

/-- The key that `XGROUP` makes a stream for: `CREATE` does, when it is given `MKSTREAM`. -/
def mkstreamKey (env : Env) : List Bytes → List Bytes
  | sub :: k :: _ :: _ :: opts =>
    if upper env sub = "CREATE" ∧ (opts.any fun a => upper env a = "MKSTREAM") = true then [k] else []
  | _ => []

/-- The keys that a command stores a value under. -/
def storesUnder (env : Env) (name : String) (args : List Bytes) : List Bytes :=
  if name = "MSET" then (parsePairs args).map Prod.fst
  else if name = "XGROUP" then mkstreamKey env args
  else if name ∈ ["RENAME", "RENAMENX"] then (args.drop 1).take 1
  else if name ∈ ["SET", "INCR", "INCRBY", "DECR", "DECRBY", "APPEND", "SETRANGE", "GETSET",
      "LPUSH", "RPUSH", "SADD", "HSET", "HINCRBY", "NHSET", "ZADD", "XADD"] then args.take 1
  else []

/-- The commands that change the expiry of a key. -/
def expiryNames : List String := ["EXPIRE", "EXPIREAT", "PEXPIRE", "PEXPIREAT", "PERSIST"]

/-- The keys whose expiry a command changes. -/
def expiresOf (name : String) (args : List Bytes) : List Bytes :=
  if name ∈ expiryNames then args.take 1 else []

/-- The commands that throw out what has expired. -/
def purgingNames : List String := ["INFO", "DBSIZE"]

/-- The methods of the store have the property `P`, those that store something where it is stored
under a key that is `ok`; so has what does not look at the store; and sequencing keeps it. -/
structure Keyspace.MethodsHave (P : (α : Type) → KeyM α → Prop) (now : UInt64) (i : ℕ)
    (ok : Bytes → Prop) : Prop where
  ofExcept : ∀ {α : Type} (x : Except Failure α), P α (Proc.ofExcept x)
  bind : ∀ {α β : Type} {m : KeyM α} {f : α → KeyM β}, P α m → (∀ a, P β (f a)) → P β (m >>= f)
  get : ∀ k, P _ (Keyspace.read fun dbs => dbs.get now i k)
  existsKey : ∀ k, P _ (Keyspace.read fun dbs => dbs.existsKey now i k)
  generateStreamId : ∀ k idStr, P _ (Keyspace.read fun dbs => dbs.generateStreamId now i k idStr)
  streamLastId : ∀ k, P _ (Keyspace.read fun dbs => .ok (dbs.streamLastId? now i k))
  updateAs : ∀ {α β : Type} (kind : Kind α) (k : Bytes) (missing : Except Failure β)
    (f : α → Except Failure β × α), P β (Keyspace.updateAs kind now i k missing f)
  upsertAs : ∀ {α β : Type} (kind : Kind α) {k : Bytes}, ok k → ∀ (fresh : α)
    (f : α → Except Failure β × α), P β (Keyspace.upsertAs kind i k fresh f)
  set : ∀ {k}, ok k → ∀ v at_, P _ (Keyspace.set i k v at_)
  changeExpire : ∀ {k}, ok k → ∀ at_, P _ (Keyspace.changeExpire i k at_)
  rename : ∀ old {new}, ok new → P _ (Keyspace.rename i old new)
  del : ∀ k, P _ (Keyspace.del i k)
  notify : ∀ k, P _ (Keyspace.notify k)
  flushdb : P _ (Keyspace.flushdb i)
  flushall : P _ Keyspace.flushall

namespace Keyspace.MethodsHave

variable {P : (α : Type) → KeyM α → Prop} {env : Env} {i : ℕ} {ok : Bytes → Prop}
  {args : List Bytes} (h : MethodsHave P env.now i ok)

include h

theorem pure {α : Type} (a : α) : P α (Pure.pure a) := h.ofExcept (.ok a)

theorem fail {α : Type} (e : Failure) : P α (Proc.fail e) := h.ofExcept (.error e)

theorem throw {α : Type} (e : VeloDBError) : P α (Keyspace.throw e) := h.fail (.error e)

/-- A method, and a reply. -/
theorem replied {α : Type} {m : KeyM α} (hm : P α m) (g : α → RespValue) :
    P _ (m >>= fun a => Pure.pure (g a)) :=
  h.bind hm fun a => h.pure (g a)

/-- Parsing, then the rest. -/
theorem parsed {α β : Type} {x : Except Failure α} {m : α → KeyM β} (hm : ∀ a, P β (m a)) :
    P β (lift x >>= m) :=
  h.bind (h.ofExcept x) hm

/-- The first argument as a key, then the rest. -/
theorem keyed {β : Type} {m : Bytes → KeyM β} (hok : ∀ k ∈ args.take 1, ok k)
    (hm : ∀ k, ok k → P β (m k)) : P β (lift (arg args 0) >>= m) := by
  cases args with
  | nil => exact h.fail _
  | cons k rest => exact hm k (hok k List.mem_cons_self)

/-- The second argument as a key, then the rest. -/
theorem keyedSecond {β : Type} {m : Bytes → KeyM β} (hok : ∀ k ∈ (args.drop 1).take 1, ok k)
    (hm : ∀ k, ok k → P β (m k)) : P β (lift (arg args 1) >>= m) := by
  cases args with
  | nil => exact h.fail _
  | cons a args =>
    have hkeyed : P β (lift (arg args 0) >>= m) := h.keyed hok hm
    exact hkeyed

/-- Something is pushed, and a waiting client is told. -/
theorem push {α β : Type} (kind : Kind α) {k : Bytes} (hk : ok k) (fresh : α)
    (f : α → Except Failure β × α) : P β (Keyspace.upsertAs kind i k fresh f >>= fun b =>
      Keyspace.notify k >>= fun _ => Pure.pure b) :=
  h.bind (h.upsertAs kind hk fresh f) fun b => h.bind (h.notify k) fun _ => h.pure b

theorem xadd {k : Bytes} (hk : ok k) (idStr : Bytes) (fields : List (Bytes × Bytes))
    (maxlen : Option ℕ) : P _ (Keyspace.xadd env.now i k idStr fields maxlen) := by
  refine h.bind (h.generateStreamId k idStr) fun id => h.bind (h.streamLastId k) fun last => ?_
  cases last with
  | none => exact h.push .stream hk _ _
  | some last =>
    dsimp only
    split
    · exact h.push .stream hk _ _
    · exact h.throw _

/-! ### Handlers -/

theorem incrFn {k : Bytes} (hk : ok k) (by_ : Int64) : P _ (Cmd.incrFn env i k by_) :=
  h.bind (h.get k) fun _ => h.parsed fun _ => h.replied (h.set hk _ _) _

theorem msetCmd (hok : ∀ k ∈ (parsePairs args).map Prod.fst, ok k) :
    P _ (Cmd.mset env i args) := by
  have hset : ∀ l : List (Bytes × Bytes), (∀ k ∈ l.map Prod.fst, ok k) →
      P _ (each l fun p => Keyspace.set i p.1 p.2 none) := by
    intro l hl
    induction l with
    | nil => exact h.pure ()
    | cons p l ih =>
      rw [List.map_cons, List.forall_mem_cons] at hl
      exact h.bind (h.set hl.1 p.2 none) fun _ => ih hl.2
  rw [Cmd.mset]
  split
  · exact h.bind (h.throw _) fun _ => h.replied (hset _ hok) _
  · exact h.replied (hset _ hok) _

theorem delCmd : P _ (Cmd.del env i args) := by
  refine h.replied ?_ _
  generalize (0 : ℕ) = n
  induction args generalizing n with
  | nil => exact h.pure n
  | cons k args ih => exact h.bind (h.bind (h.del k) fun _ => h.pure _) fun n => ih n

section Stores

variable (hok : ∀ k ∈ args.take 1, ok k)

include hok

theorem setCmd : P _ (Cmd.set env i args) := by
  refine h.parsed fun flags => h.keyed hok fun k hk => h.parsed fun value => ?_
  split
  · refine h.bind (h.existsKey k) fun found => ?_
    split
    · exact h.pure _
    · exact h.replied (h.set hk value _) _
  · exact h.replied (h.set hk value _) _

theorem incrCmd : P _ (Cmd.incr env i args) := h.keyed hok fun _ hk => h.incrFn hk 1

theorem incrbyCmd : P _ (Cmd.incrby env i args) :=
  h.parsed fun _ => h.parsed fun by_ => h.keyed hok fun _ hk => h.incrFn hk by_

theorem decrCmd : P _ (Cmd.decr env i args) := h.keyed hok fun _ hk => h.incrFn hk (-1)

theorem decrbyCmd : P _ (Cmd.decrby env i args) :=
  h.parsed fun _ => h.parsed fun by_ => h.keyed hok fun _ hk => h.incrFn hk (-by_)

theorem appendCmd : P _ (Cmd.append env i args) :=
  h.keyed hok fun k hk => h.bind (h.get k) fun _ => h.parsed fun _ => h.replied (h.set hk _ _) _

theorem setrangeCmd : P _ (Cmd.setrange env i args) := by
  refine h.parsed fun offset => h.keyed hok fun k hk => h.bind (h.get k) fun v =>
    h.parsed fun patch => ?_
  split
  · exact h.replied (h.set hk _ _) _
  · exact h.fail _

theorem getsetCmd : P _ (Cmd.getset env i args) :=
  h.keyed hok fun k hk => h.bind (h.get k) fun _ => h.parsed fun _ => h.replied (h.set hk _ _) _

theorem lpushCmd : P _ (Cmd.lpush env i args) :=
  h.keyed hok fun _ hk => h.parsed fun _ => h.replied (h.push .list hk _ _) _

theorem rpushCmd : P _ (Cmd.rpush env i args) :=
  h.keyed hok fun _ hk => h.parsed fun _ => h.replied (h.push .list hk _ _) _

theorem saddCmd : P _ (Cmd.sadd env i args) :=
  h.keyed hok fun _ hk => h.parsed fun _ => h.replied (h.upsertAs .set hk _ _) _

theorem hsetCmd : P _ (Cmd.hset env i args) := by
  refine h.parsed fun rest => ?_
  dsimp only
  split
  · exact h.throw _
  · exact h.keyed hok fun _ hk => h.replied (h.upsertAs .hash hk _ _) _

theorem hincrbyCmd : P _ (Cmd.hincrby env i args) :=
  h.parsed fun _ => h.parsed fun _ => h.keyed hok fun _ hk => h.parsed fun _ =>
    h.replied (h.upsertAs .hash hk _ _) _

theorem nhsetCmd : P _ (Cmd.nhset env i args) :=
  h.keyed hok fun _ hk => h.parsed fun _ => h.parsed fun _ => h.parsed fun _ =>
    h.replied (h.upsertAs .nestedHash hk _ _) _

theorem zaddCmd : P _ (Cmd.zadd env i args) :=
  h.parsed fun _ => h.parsed fun _ => h.keyed hok fun _ hk => h.replied (h.upsertAs .zset hk _ _) _

theorem xaddCmd : P _ (Cmd.xadd env i args) := by
  rw [Cmd.xadd]
  dsimp only
  split
  · exact h.throw _
  · split
    · exact h.throw _
    · exact h.keyed hok fun _ hk => h.replied (h.xadd hk _ _ _) _

theorem expireWith (time : UInt64 → UInt64) : P _ (Cmd.expireWith time i args) :=
  h.parsed fun _ => h.keyed hok fun _ hk => h.replied (h.changeExpire hk _) _

theorem persistCmd : P _ (Cmd.persist env i args) :=
  h.keyed hok fun _ hk => h.replied (h.changeExpire hk none) _

end Stores

section Renames

variable (hok : ∀ k ∈ (args.drop 1).take 1, ok k)

include hok

theorem renameCmd : P _ (Cmd.renameCmd env i args) := by
  refine h.parsed fun old => h.bind (h.existsKey old) fun found => ?_
  split
  · exact h.throw _
  · exact h.keyedSecond hok fun _ hk => h.replied (h.rename old hk) _

theorem renamenxCmd : P _ (Cmd.renamenx env i args) := by
  refine h.keyedSecond hok fun new hk => h.bind (h.existsKey new) fun taken => ?_
  split
  · exact h.pure _
  · refine h.parsed fun old => h.bind (h.existsKey old) fun found => ?_
    split
    · exact h.throw _
    · exact h.replied (h.rename old hk) _

end Renames

/-- A value of a key is changed, if it is there. -/
theorem updated {α β : Type} (kind : Kind α) (k : Bytes) (missing : Except Failure β)
    (f : α → Except Failure β × α) (g : β → RespValue) :
    P _ (Keyspace.updateAs kind env.now i k missing f >>= fun b => Pure.pure (g b)) :=
  h.replied (h.updateAs kind k missing f) g

theorem xtrimCmd : P _ (Cmd.xtrim env i args) := by
  rw [Cmd.xtrim]
  dsimp only
  split
  · exact h.throw _
  · exact h.parsed fun _ => h.parsed fun k => h.updated .stream k _ _ _

end Keyspace.MethodsHave

/-! ### The table -/

/-- The handler has the property `P`, when the keys of the command are `ok`. -/
def CommandDef.Has (P : (α : Type) → KeyM α → Prop) (env : Env) (i : ℕ) (ok : Bytes → Prop)
    (args : List Bytes) (c : CommandDef) : Prop :=
  c.name ∉ purgingNames → (∀ k ∈ storesUnder env c.name args, ok k) →
    (∀ k ∈ expiresOf c.name args, ok k) → ∀ f, c.handler = .write f → P _ (f env i args)

namespace CommandDef.Has

variable {P : (α : Type) → KeyM α → Prop} {env : Env} {i : ℕ} {ok : Bytes → Prop}
  {args : List Bytes} {name : String} {arity : ℤ}

theorem write {f : Env → ℕ → List Bytes → KeyM RespValue}
    (hf : (∀ k ∈ storesUnder env name args, ok k) → (∀ k ∈ expiresOf name args, ok k) →
      P _ (f env i args)) : Has P env i ok args ⟨name, arity, .write f⟩ := by
  rintro - hs he f' ⟨⟩
  exact hf hs he

theorem of_read {f : Env → Databases → ℕ → List Bytes → Reply} :
    Has P env i ok args ⟨name, arity, .read f⟩ := by
  rintro - - - f' ⟨⟩

theorem of_side {f : Env → Databases → List Bytes → SideM RespValue} :
    Has P env i ok args ⟨name, arity, .side f⟩ := by
  rintro - - - f' ⟨⟩

theorem of_whole {f : Env → List Bytes → WholeM RespValue} :
    Has P env i ok args ⟨name, arity, .whole f⟩ := by
  rintro - - - f' ⟨⟩

/-- A value of a key is changed, if it is there. -/
theorem change {f : Env → ℕ → List Bytes → KeyM RespValue} (hf : P _ (f env i args)) :
    Has P env i ok args ⟨name, arity, .write f⟩ :=
  write fun _ _ => hf

theorem purging {handler : Handler} (hname : name ∈ purgingNames) :
    Has P env i ok args ⟨name, arity, handler⟩ := fun hnot => absurd hname hnot

end CommandDef.Has

open CommandDef.Has in
/-- **What the methods have, the writing commands have.** -/
theorem Keyspace.MethodsHave.commands {P : (α : Type) → KeyM α → Prop} {env : Env} {i : ℕ}
    {ok : Bytes → Prop} (h : MethodsHave P env.now i ok) (args : List Bytes) :
    ∀ c ∈ VeloDB.commands, c.Has P env i ok args := by
  have hstring : ∀ c ∈ Cmd.stringCommands, c.Has P env i ok args := by
    simp only [Cmd.stringCommands, List.forall_mem_cons]
    exact ⟨of_read, write fun hs _ => h.setCmd hs, of_read, write fun hs _ => h.msetCmd hs,
      write fun hs _ => h.incrCmd hs, write fun hs _ => h.incrbyCmd hs,
      write fun hs _ => h.decrCmd hs, write fun hs _ => h.decrbyCmd hs,
      write fun hs _ => h.appendCmd hs, of_read, of_read, write fun hs _ => h.setrangeCmd hs,
      write fun hs _ => h.getsetCmd hs, List.forall_mem_nil _⟩
  have hgeneric : ∀ c ∈ Cmd.genericCommands, c.Has P env i ok args := by
    simp only [Cmd.genericCommands, List.forall_mem_cons]
    exact ⟨change h.delCmd, of_read, write fun _ he => h.expireWith he _,
      write fun _ he => h.expireWith he _, write fun _ he => h.expireWith he _,
      write fun _ he => h.expireWith he _, of_read, of_read, write fun _ he => h.persistCmd he,
      of_read, write fun hs _ => h.renameCmd hs, write fun hs _ => h.renamenxCmd hs, of_read,
      purging (by decide), change (h.replied h.flushdb _), change (h.replied h.flushall _), of_read,
      of_side, of_read, of_read, of_read, List.forall_mem_nil _⟩
  have hlist : ∀ c ∈ Cmd.listCommands, c.Has P env i ok args := by
    simp only [Cmd.listCommands, List.forall_mem_cons]
    exact ⟨write fun hs _ => h.lpushCmd hs, write fun hs _ => h.rpushCmd hs,
      change (h.parsed fun k => h.updated .list k _ _ _),
      change (h.parsed fun k => h.updated .list k _ _ _), of_read, of_read, of_read,
      change (h.parsed fun _ => h.parsed fun k => h.parsed fun _ => h.updated .list k _ _ _),
      change (h.parsed fun _ => h.parsed fun _ => h.parsed fun k => h.updated .list k _ _ _),
      change (h.parsed fun _ => h.parsed fun k => h.parsed fun _ => h.updated .list k _ _ _),
      of_whole, of_whole, List.forall_mem_nil _⟩
  have hset : ∀ c ∈ Cmd.setCommands, c.Has P env i ok args := by
    simp only [Cmd.setCommands, List.forall_mem_cons]
    exact ⟨write fun hs _ => h.saddCmd hs,
      change (h.parsed fun k => h.parsed fun _ => h.updated .set k _ _ _), of_read, of_read,
      of_read, of_read, of_read, of_read, of_read,
      change (h.parsed fun k => h.updated .set k _ _ _), List.forall_mem_nil _⟩
  have hhash : ∀ c ∈ Cmd.hashCommands, c.Has P env i ok args := by
    simp only [Cmd.hashCommands, List.forall_mem_cons]
    exact ⟨write fun hs _ => h.hsetCmd hs, of_read,
      change (h.parsed fun k => h.parsed fun _ => h.updated .hash k _ _ _), of_read, of_read,
      of_read, of_read, of_read, write fun hs _ => h.hincrbyCmd hs, List.forall_mem_nil _⟩
  have hzset : ∀ c ∈ Cmd.zsetCommands, c.Has P env i ok args := by
    simp only [Cmd.zsetCommands, List.forall_mem_cons]
    exact ⟨write fun hs _ => h.zaddCmd hs,
      change (h.parsed fun k => h.parsed fun _ => h.updated .zset k _ _ _), of_read, of_read,
      of_read, of_read, of_read, of_read, List.forall_mem_nil _⟩
  have hstream : ∀ c ∈ Cmd.streamCommands, c.Has P env i ok args := by
    simp only [Cmd.streamCommands, List.forall_mem_cons]
    exact ⟨write fun hs _ => h.xaddCmd hs, of_read, of_read, of_read,
      change (h.parsed fun _ => h.parsed fun k => h.updated .stream k _ _ _), change h.xtrimCmd,
      of_read, of_whole, of_side, of_side, of_side, of_side, List.forall_mem_nil _⟩
  have hnested : ∀ c ∈ Cmd.nestedHashCommands, c.Has P env i ok args := by
    simp only [Cmd.nestedHashCommands, List.forall_mem_cons]
    exact ⟨write fun hs _ => h.nhsetCmd hs, of_read,
      change (h.parsed fun k => h.parsed fun _ => h.updated .nestedHash k _ _ _), of_read,
      of_read, of_read, List.forall_mem_nil _⟩
  have hserver : ∀ c ∈ Cmd.serverCommands, c.Has P env i ok args := by
    simp only [Cmd.serverCommands, List.forall_mem_cons]
    exact ⟨of_read, of_read, of_read, of_side, purging (by decide), of_read, of_read,
      List.forall_mem_nil _⟩
  have hsides : ∀ c ∈ Cmd.pubsubCommands ++ Cmd.transactionCommands ++ Cmd.luaCommands ++
      Cmd.clusterCommands, c.Has P env i ok args := by
    simp only [Cmd.pubsubCommands, Cmd.transactionCommands, Cmd.luaCommands, Cmd.clusterCommands,
      List.cons_append, List.nil_append, List.forall_mem_cons]
    simp [CommandDef.Has]
  exact forall_commands hserver hstring hgeneric hlist hset hhash hzset hstream hnested hsides

/-! ### Commands that see everything -/

/-- The handler may change everything. -/
def Handler.isWhole : Handler → Bool
  | .whole _ => true
  | _ => false

/-- The commands whose handlers may change everything. -/
def wholeNames : List String := ["BLPOP", "BRPOP", "XGROUP"]

theorem wholeNames_of_handler {c : CommandDef} (hc : c ∈ commands)
    (hwhole : c.handler.isWhole = true) : c.name ∈ wholeNames := by
  have hall : (commands.all fun c =>
      !c.handler.isWhole || decide (c.name ∈ wholeNames)) = true := by decide +kernel
  have h := List.all_eq_true.mp hall c hc
  rw [hwhole] at h
  exact of_decide_eq_true h

/-! ### One step after another -/

section Moves

variable {R : Keyspace → Keyspace → Prop} [Std.Refl R] [IsTrans Keyspace R] {env : Env}

/-- Parsing, then the rest. -/
theorem moves_parsed {α β : Type} {x : Except Failure α} {m : α → KeyM β}
    (hm : ∀ a, Moves R (m a)) : Moves R (lift x >>= m) :=
  (moves_ofExcept x).bind hm

/-- A method, and a reply. -/
theorem moves_replied {α : Type} {m : KeyM α} (hm : Moves R m) (g : α → RespValue) :
    Moves R (m >>= fun a => pure (g a)) :=
  hm.bind fun _ => moves_pure _

variable (hdbsize : ∀ j, Moves R (Keyspace.dbsize env.now j))

include hdbsize

theorem moves_infoLines (l : List ℕ) : Moves R (Cmd.infoLines env l) := by
  induction l with
  | nil => exact moves_pure _
  | cons j l ih =>
    exact (hdbsize j).bind fun _ => (Keyspace.moves_read _).bind fun _ => ih.bind fun _ =>
      moves_pure _

theorem moves_info (i : ℕ) (args : List Bytes) : Moves R (Cmd.info env i args) :=
  (Keyspace.moves_read _).bind fun _ => moves_replied (moves_infoLines hdbsize _) _

theorem moves_dbsizeCmd (i : ℕ) (args : List Bytes) : Moves R (Cmd.dbsizeCmd env i args) :=
  moves_replied (hdbsize i) _

/-- **Throwing out what has expired.** -/
theorem moves_purging {c : CommandDef} (hc : c ∈ commands) (hname : c.name ∈ purgingNames) (i : ℕ)
    (args : List Bytes) {f : Env → ℕ → List Bytes → KeyM RespValue} (hf : c.handler = .write f) :
    Moves R (f env i args) := by
  have hinfo : (⟨"INFO", -1, .write Cmd.info⟩ : CommandDef) ∈ commands := by
    simp [commands, Cmd.serverCommands]
  have hdbsizeDef : (⟨"DBSIZE", 1, .write Cmd.dbsizeCmd⟩ : CommandDef) ∈ commands := by
    simp [commands, Cmd.genericCommands]
  refine of_definitions (P := fun c => ∀ f, c.handler = .write f → Moves R (f env i args)) ?_ hc
    hname f hf
  rw [purgingNames]
  simp only [List.forall_mem_cons]
  refine ⟨⟨_, hinfo, rfl, ?_⟩, ⟨_, hdbsizeDef, rfl, ?_⟩, List.forall_mem_nil _⟩
  · rintro _ ⟨⟩
    exact moves_info hdbsize i args
  · rintro _ ⟨⟩
    exact moves_dbsizeCmd hdbsize i args

end Moves

end VeloDB
