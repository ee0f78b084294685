import VeloDB.Cmd.ReplyTable

/-!
# Which handlers reply

What the handlers of connections, transactions, scripts and the cluster reply, and with them the
whole table. A handler that gets the arguments that it indexes ends with a reply or an error, and
what of it is sent as one line is one line. Four handlers have faults of their own besides
(`faultyCommands`), and `CLUSTER` shows a text of its client in an error.

## Main results

* `answersNeeds_commands`, `answers_commands` — every command
-/

namespace VeloDB

open Rust Proc

namespace Cmd

variable (env : Env) (dbs : Databases) (i : ℕ) (args : List Bytes)

/-! ### Publish and subscribe -/

section Subscribing

variable {fault : Prop}

theorem does_modifyPubSub (f : PubSubRegistry → PubSubRegistry) : Does fault (modifyPubSub f) :=
  delivers_modify _

theorem does_modifyCtx (f : ClientContext → ClientContext) : Does fault (modifyCtx f) :=
  delivers_modify _

theorem does_setReceiver (rx : Option ℕ) : Does fault (setReceiver rx) :=
  delivers_get.bind fun _ _ => (does_modifyPubSub _).bind fun _ _ => does_modifyCtx _

theorem does_newReceiver (register : PubSubRegistry → ℕ → PubSubRegistry) :
    Does fault (newReceiver register) :=
  delivers_get.bind fun _ _ => (does_modifyPubSub _).bind fun _ _ => does_setReceiver _

theorem does_leaveSubMode : Does fault leaveSubMode := by
  refine delivers_get.bind fun s _ => ?_
  split
  · exact (does_modifyCtx _).bind fun _ _ => does_setReceiver none
  · exact delivers_pure trivial

theorem noCR_subLine (kind : String) (name : Bytes) (n : ℕ) :
    ∀ v ∈ subLine kind name n, NoCR v := by
  intro v hv
  simp only [subLine, List.mem_cons, List.not_mem_nil, or_false] at hv
  rcases hv with rfl | rfl | rfl <;> trivial

theorem forall_mem_append_subLine {acc : List RespValue} (h : ∀ v ∈ acc, NoCR v) (kind : String)
    (name : Bytes) (n : ℕ) : ∀ v ∈ acc ++ subLine kind name n, NoCR v :=
  List.forall_mem_append.mpr ⟨h, noCR_subLine kind name n⟩

theorem subscribe_replies : Replies False (subscribe env dbs args) := by
  rw [subscribe]
  split
  · exact delivers_pure noCR_ok
  · refine (delivers_foldEach (Q := fun acc => ∀ v ∈ acc, NoCR v) (fun acc ch hacc => ?_)
      (List.forall_mem_nil _)).bind fun result hresult => (does_modifyCtx _).bind fun _ _ =>
        delivers_pure (noCR_array hresult)
    exact (does_modifyCtx _).bind fun _ _ => (does_newReceiver _).bind fun _ _ =>
      delivers_get.bind fun s _ => delivers_pure (forall_mem_append_subLine hacc _ _ _)

theorem psubscribe_replies : Replies False (psubscribe env dbs args) := by
  rw [psubscribe]
  split
  · exact delivers_pure noCR_ok
  · refine (delivers_foldEach (Q := fun acc => ∀ v ∈ acc, NoCR v) (fun acc p hacc => ?_)
      (List.forall_mem_nil _)).bind fun result hresult => (does_modifyCtx _).bind fun _ _ =>
        delivers_pure (noCR_array hresult)
    exact (does_modifyCtx _).bind fun _ _ => (does_newReceiver _).bind fun _ _ =>
      delivers_get.bind fun s _ => delivers_pure (forall_mem_append_subLine hacc _ _ _)

theorem unsubscribe_replies : Replies False (unsubscribe env dbs args) := by
  rw [unsubscribe]
  split
  · exact (does_modifyCtx _).bind fun _ _ => (does_setReceiver none).bind fun _ _ =>
      does_leaveSubMode.bind fun _ _ => delivers_pure (noCR_array (noCR_subLine _ _ _))
  · refine (delivers_foldEach (Q := fun acc => ∀ v ∈ acc, NoCR v) (fun acc ch hacc => ?_)
      (List.forall_mem_nil _)).bind fun result hresult => does_leaveSubMode.bind fun _ _ =>
        delivers_pure (noCR_array hresult)
    exact (does_modifyCtx _).bind fun _ _ => delivers_get.bind fun s _ =>
      delivers_pure (forall_mem_append_subLine hacc _ _ _)

theorem punsubscribe_replies : Replies False (punsubscribe env dbs args) := by
  have hend : Replies False (leaveSubMode >>= fun _ =>
      pure (.array (some (subLine "punsubscribe" [] 0)))) :=
    does_leaveSubMode.bind fun _ _ => delivers_pure (noCR_array (noCR_subLine _ _ _))
  rw [punsubscribe]
  split
  · exact (does_modifyCtx _).bind fun _ _ => (does_setReceiver none).bind fun _ _ => hend
  · exact (does_modifyCtx _).bind fun _ _ => hend

theorem publish_replies : Replies (args.length < 2) (publish env dbs args) :=
  does_index (by decide) fun _ => does_index (by decide) fun _ => delivers_get.bind fun _ _ =>
    does_reply (does_modifyPubSub _) fun _ => trivial

end Subscribing

/-! ### Transactions, the server and scripts -/

theorem multi_replies : Replies False (multi env dbs args) :=
  does_reply (does_modifyCtx _) fun _ => noCR_ok

theorem discard_replies : Replies False (discard env dbs args) :=
  does_reply (does_modifyCtx _) fun _ => noCR_ok

theorem watch_replies : Replies False (watch env dbs args) :=
  does_reply (does_modifyCtx _) fun _ => noCR_ok

theorem unwatch_replies : Replies False (unwatch env dbs args) :=
  does_reply (does_modifyCtx _) fun _ => noCR_ok

theorem ping_replies : OkOr (Blames False) NoCR (ping env dbs i args) := by
  cases args with
  | nil => exact (show '\r' ∉ "PONG".toList by decide)
  | cons a args => trivial

theorem echo_replies : OkOr (Blames (args.length < 1)) NoCR (echo env dbs i args) :=
  reads_index (by decide) fun _ => trivial

theorem select_replies : Replies (args.length < 1) (select env dbs args) :=
  does_index (by decide) fun _ => does_reply (does_modifyCtx _) fun _ => noCR_ok

theorem infoLines_does (l : List ℕ) : Does False (infoLines env l) := by
  induction l with
  | nil => exact delivers_pure trivial
  | cons j l ih =>
    exact (does_dbsize env.now j).bind fun _ _ =>
      (does_read fun dbs => tidy_expiresCount env.now dbs j).bind fun _ _ => ih.bind fun _ _ =>
        delivers_pure trivial

theorem info_replies : Replies False (info env i args) :=
  (does_read (Q := Whatever) fun _ => show OkOr _ _ (.ok _) from trivial).bind fun _ _ =>
    does_reply (infoLines_does env _) fun _ => trivial

theorem configCmd_replies : OkOr (Blames False) NoCR (configCmd env dbs i args) := by
  cases args with
  | nil => exact noCR_ok
  | cons sub rest =>
    rw [configCmd]
    split
    · exact noCR_texts _
    · split
      · exact noCR_ok
      · exact (show VeloDBError.syntaxError.OneLine by decide)

theorem aclCmd_replies : OkOr (Blames False) NoCR (aclCmd env dbs i args) := by
  have hsyntax : VeloDBError.syntaxError.OneLine := by decide
  cases args with
  | nil => exact hsyntax
  | cons sub rest =>
    rw [aclCmd]
    dsimp only
    split
    · trivial
    split
    · exact noCR_texts _
    split
    · exact noCR_texts _
    split
    · exact noCR_texts _
    split
    · split
      · exact ⟨trivial, noCR_texts _, trivial, trivial, trivial, trivial, trivial, trivial, trivial,
          trivial, trivial⟩
      · trivial
    · exact hsyntax

/-- `SCRIPT` waits for shards that are locked, and otherwise replies. -/
theorem scriptCmd_replies : Replies True (scriptCmd env dbs args) := by
  have hscript : (VeloDBError.wrongNumberOfArgs "SCRIPT").OneLine := by decide
  have hload : (VeloDBError.wrongNumberOfArgs "SCRIPT LOAD").OneLine := by decide
  refine delivers_get.bind fun s _ => ?_
  cases args with
  | nil => exact delivers_fail hscript
  | cons sub rest =>
    dsimp only
    split
    · cases rest with
      | nil => exact delivers_fail hload
      | cons script rest =>
        dsimp only
        split
        · exact delivers_fail trivial
        · exact (delivers_modify _).bind fun _ _ => delivers_pure trivial
    split
    · refine delivers_pure (noCR_array fun v hv => ?_)
      obtain ⟨a, -, rfl⟩ := List.mem_map.mp hv
      trivial
    split
    · split
      · exact (delivers_modify _).bind fun _ _ => delivers_pure noCR_ok
      · exact (delivers_modify _).bind fun _ _ => delivers_fail trivial
    · exact delivers_fail (show VeloDBError.syntaxError.OneLine by decide)

/-! ### Cluster -/

/-- The text of a subcommand that `CLUSTER` does not know, as the error shows it. -/
def shownSubcommand (sub : Bytes) : String := env.host.toUppercase ("CLUSTER " ++ upper env sub)

/-- The subcommands that `CLUSTER` knows. -/
def clusterSubcommands : List String :=
  ["SLOTS", "NODES", "INFO", "MYID", "KEYSLOT", "MEET", "RESET", "FORGET", "REPLICATE", "SETSLOT",
    "SAVECONFIG", "GETKEYSINSLOT", "COUNTKEYSINSLOT"]

theorem clusterCmd_replies (h : ∀ sub, args.head? = some sub → upper env sub ∈ clusterSubcommands) :
    OkOr (Blames False) NoCR (clusterCmd env dbs i args) := by
  have hcluster : (VeloDBError.wrongNumberOfArgs "CLUSTER").OneLine := by decide
  have hkeyslot : (VeloDBError.wrongNumberOfArgs "CLUSTER KEYSLOT").OneLine := by decide
  cases args with
  | nil => exact hcluster
  | cons sub rest =>
    have hsub := h sub rfl
    rw [clusterCmd.eq_def]
    dsimp only
    split
    · exact ⟨⟨trivial, trivial, ⟨trivial, trivial, trivial⟩, trivial⟩, trivial⟩
    split
    · trivial
    split
    · trivial
    split
    · trivial
    split
    · cases rest with
      | nil => exact hkeyslot
      | cons key rest => trivial
    split
    · exact noCR_ok
    split
    · trivial
    split
    · trivial
    · simp_all [clusterSubcommands]

/-- A subcommand that `CLUSTER` does not know is shown in the error. -/
theorem clusterCmd_unknown {sub : Bytes} (h : upper env sub ∉ clusterSubcommands)
    (rest : List Bytes) : clusterCmd env dbs i (sub :: rest)
      = .error (.error (.unknownCommand (shownSubcommand env sub))) := by
  simp only [clusterSubcommands, List.mem_cons, List.not_mem_nil, or_false, not_or] at h
  simp [clusterCmd, shownSubcommand, h]

end Cmd

/-! ### The table -/

/-- What the handler answers, with `fault` for the arguments on which it may panic or hang. -/
def Handler.Replies (fault : List Bytes → Prop) : Handler → Prop
  | .read f => ∀ env dbs i args, OkOr (Blames (fault args)) NoCR (f env dbs i args)
  | .write f => ∀ env i args, VeloDB.Replies (fault args) (f env i args)
  | .side f => ∀ env dbs args, VeloDB.Replies (fault args) (f env dbs args)
  | .whole f => ∀ env args, VeloDB.Replies (fault args) (f env args)
  | .exec | .eval | .evalsha => True

theorem Blames.mono {p q : Prop} (h : p → q) : ∀ e, Blames p e → Blames q e
  | .error _, he => he
  | .panic, he => h he
  | .hang, he => h he

theorem Handler.Replies.mono {fault fault' : List Bytes → Prop} {h : Handler}
    (hh : h.Replies fault) (hfault : ∀ args, fault args → fault' args) : h.Replies fault' := by
  cases h with
  | read f => exact fun env dbs i args =>
      (hh env dbs i args).mono (Blames.mono (hfault args)) fun _ h => h
  | write f => exact fun env i args =>
      (hh env i args).mono (Blames.mono (hfault args)) fun _ h => h
  | side f => exact fun env dbs args =>
      (hh env dbs args).mono (Blames.mono (hfault args)) fun _ h => h
  | whole f => exact fun env args => (hh env args).mono (Blames.mono (hfault args)) fun _ h => h
  | exec | eval | evalsha => trivial

/-- The handlers with faults other than a missing argument. -/
def faultyCommands : List String := ["SETRANGE", "SRANDMEMBER", "ZRANGEBYSCORE", "SCRIPT"]

/-- The command answers whenever it gets the arguments that it is declared to take. -/
def CommandDef.Answers (c : CommandDef) : Prop :=
  c.handler.Replies fun args => c.name ∈ faultyCommands ∨ args.length < c.arity.natAbs - 1

/-- How many arguments the handler of a command with a negative arity indexes. -/
def indexedArgs (name : String) : ℕ :=
  if name = "XCLAIM" then 4
  else if name ∈ ["ZRANGE", "XRANGE", "XREVRANGE"] then 3
  else if name ∈ ["SET", "HSCAN", "SSCAN", "ZSCAN", "NHDEL", "ZRANGEBYSCORE", "XACK",
    "XPENDING"] then 2
  else if name ∈ ["SCAN", "LPUSH", "RPUSH", "LPOP", "RPOP", "BLPOP", "BRPOP", "SADD", "SREM",
    "SRANDMEMBER", "SPOP", "HSET", "HDEL", "NHKEYS", "NHVALS", "NHGETALL", "ZADD", "ZREM",
    "XDEL"] then 1
  else 0

/-- How many arguments the handler of a command needs. -/
def CommandDef.needs (c : CommandDef) : ℕ :=
  if 0 < c.arity then c.arity.natAbs - 1 else indexedArgs c.name

/-- The command answers whenever it gets the arguments that its handler needs. -/
def CommandDef.AnswersNeeds (c : CommandDef) : Prop :=
  c.handler.Replies fun args => c.name ∈ faultyCommands ∨ args.length < c.needs

section Table

variable {name : String} {arity : ℤ} {h : Handler}

theorem answers_of_indexed {n : ℕ} (hn : n ≤ CommandDef.needs ⟨name, arity, h⟩)
    (hh : h.Replies fun args => args.length < n) : CommandDef.AnswersNeeds ⟨name, arity, h⟩ :=
  hh.mono fun _ hargs => Or.inr (Nat.lt_of_lt_of_le hargs hn)

theorem answers_of_never (hh : h.Replies fun _ => False) :
    CommandDef.AnswersNeeds ⟨name, arity, h⟩ := hh.mono fun _ hargs => hargs.elim

theorem answers_of_faulty (hname : name ∈ faultyCommands) (hh : h.Replies fun _ => True) :
    CommandDef.AnswersNeeds ⟨name, arity, h⟩ := hh.mono fun _ _ => Or.inl hname

end Table

namespace Cmd

theorem answers_serverCommands : ∀ c ∈ serverCommands, c.AnswersNeeds := by
  simp only [serverCommands, List.forall_mem_cons]
  exact ⟨answers_of_never ping_replies, answers_of_indexed (by decide) echo_replies,
    answers_of_never fun _ _ _ _ => noCR_ok, answers_of_indexed (by decide) select_replies,
    answers_of_never info_replies, answers_of_never configCmd_replies,
    answers_of_never aclCmd_replies, List.forall_mem_nil _⟩

theorem answers_stringCommands : ∀ c ∈ stringCommands, c.AnswersNeeds := by
  simp only [stringCommands, List.forall_mem_cons]
  exact ⟨answers_of_indexed (by decide) get_replies, answers_of_indexed (by decide) set_replies,
    answers_of_never mget_replies, answers_of_never mset_replies,
    answers_of_indexed (by decide) incr_replies, answers_of_indexed (by decide) incrby_replies,
    answers_of_indexed (by decide) decr_replies, answers_of_indexed (by decide) decrby_replies,
    answers_of_indexed (by decide) append_replies, answers_of_indexed (by decide) strlen_replies,
    answers_of_indexed (by decide) getrange_replies, answers_of_faulty (by decide) setrange_replies,
    answers_of_indexed (by decide) getset_replies, List.forall_mem_nil _⟩

theorem answers_genericCommands : ∀ c ∈ genericCommands, c.AnswersNeeds := by
  have hexpire : ∀ time : Env → UInt64 → UInt64, (Handler.write fun env i args =>
      expireWith (time env) i args).Replies fun args => args.length < 2 :=
    fun time env i args => expireWith_replies i args (time env)
  have httl : ∀ scale, (Handler.read (ttlWith scale)).Replies fun args => args.length < 1 :=
    fun scale env dbs i args => ttlWith_replies env dbs i args scale
  simp only [genericCommands, List.forall_mem_cons]
  exact ⟨answers_of_never del_replies, answers_of_never existsCmd_replies,
    answers_of_indexed (by decide) (hexpire fun env seconds => env.now + seconds * 1000),
    answers_of_indexed (by decide) (hexpire fun _ ts => ts * 1000),
    answers_of_indexed (by decide) (hexpire fun env ms => env.now + ms),
    answers_of_indexed (by decide) (hexpire fun _ => id),
    answers_of_indexed (by decide) (httl fun ms => ms / 1000),
    answers_of_indexed (by decide) (httl id), answers_of_indexed (by decide) persist_replies,
    answers_of_indexed (by decide) typeCmd_replies,
    answers_of_indexed (by decide) renameCmd_replies,
    answers_of_indexed (by decide) renamenx_replies,
    answers_of_indexed (by decide) keysCmd_replies, answers_of_never dbsizeCmd_replies,
    answers_of_never flushdbCmd_replies, answers_of_never flushallCmd_replies,
    answers_of_never randomkeyCmd_replies, answers_of_indexed (by decide) scanCmd_replies,
    answers_of_indexed (by decide) hscanCmd_replies,
    answers_of_indexed (by decide) sscanCmd_replies,
    answers_of_indexed (by decide) zscanCmd_replies, List.forall_mem_nil _⟩

theorem answers_listCommands : ∀ c ∈ listCommands, c.AnswersNeeds := by
  simp only [listCommands, List.forall_mem_cons]
  exact ⟨answers_of_indexed (by decide) lpush_replies, answers_of_indexed (by decide) rpush_replies,
    answers_of_indexed (by decide) lpop_replies, answers_of_indexed (by decide) rpop_replies,
    answers_of_indexed (by decide) llen_replies, answers_of_indexed (by decide) lrange_replies,
    answers_of_indexed (by decide) lindex_replies, answers_of_indexed (by decide) lset_replies,
    answers_of_indexed (by decide) ltrim_replies, answers_of_indexed (by decide) lrem_replies,
    answers_of_indexed (by decide) blpop_replies, answers_of_indexed (by decide) brpop_replies,
    List.forall_mem_nil _⟩

theorem answers_setCommands : ∀ c ∈ setCommands, c.AnswersNeeds := by
  simp only [setCommands, List.forall_mem_cons]
  exact ⟨answers_of_indexed (by decide) sadd_replies, answers_of_indexed (by decide) srem_replies,
    answers_of_indexed (by decide) smembers_replies,
    answers_of_indexed (by decide) sismember_replies,
    answers_of_indexed (by decide) scard_replies, answers_of_never sinter_replies,
    answers_of_never sunion_replies, answers_of_never sdiff_replies,
    answers_of_faulty (by decide) srandmember_replies,
    answers_of_indexed (by decide) spop_replies, List.forall_mem_nil _⟩

theorem answers_hashCommands : ∀ c ∈ hashCommands, c.AnswersNeeds := by
  simp only [hashCommands, List.forall_mem_cons]
  exact ⟨answers_of_indexed (by decide) hset_replies, answers_of_indexed (by decide) hget_replies,
    answers_of_indexed (by decide) hdel_replies, answers_of_indexed (by decide) hexists_replies,
    answers_of_indexed (by decide) hgetall_replies, answers_of_indexed (by decide) hkeys_replies,
    answers_of_indexed (by decide) hvals_replies, answers_of_indexed (by decide) hlen_replies,
    answers_of_indexed (by decide) hincrby_replies, List.forall_mem_nil _⟩

theorem answers_nestedHashCommands : ∀ c ∈ nestedHashCommands, c.AnswersNeeds := by
  simp only [nestedHashCommands, List.forall_mem_cons]
  exact ⟨answers_of_indexed (by decide) nhset_replies, answers_of_indexed (by decide) nhget_replies,
    answers_of_indexed (by decide) nhdel_replies, answers_of_indexed (by decide) nhkeys_replies,
    answers_of_indexed (by decide) nhvals_replies,
    answers_of_indexed (by decide) nhgetall_replies, List.forall_mem_nil _⟩

theorem answers_zsetCommands : ∀ c ∈ zsetCommands, c.AnswersNeeds := by
  simp only [zsetCommands, List.forall_mem_cons]
  exact ⟨answers_of_indexed (by decide) zadd_replies, answers_of_indexed (by decide) zrem_replies,
    answers_of_indexed (by decide) zscore_replies, answers_of_indexed (by decide) zrank_replies,
    answers_of_indexed (by decide) zrange_replies,
    answers_of_faulty (by decide) zrangebyscore_replies,
    answers_of_indexed (by decide) zcard_replies, answers_of_indexed (by decide) zcount_replies,
    List.forall_mem_nil _⟩

theorem answers_streamCommands : ∀ c ∈ streamCommands, c.AnswersNeeds := by
  simp only [streamCommands, List.forall_mem_cons]
  exact ⟨answers_of_never xadd_replies, answers_of_indexed (by decide) xrange_replies,
    answers_of_indexed (by decide) xrevrange_replies, answers_of_indexed (by decide) xlen_replies,
    answers_of_indexed (by decide) xdel_replies, answers_of_never xtrim_replies,
    answers_of_never xread_replies, answers_of_never xgroup_replies,
    answers_of_never xreadgroup_replies, answers_of_indexed (by decide) xack_replies,
    answers_of_indexed (by decide) xpending_replies,
    answers_of_indexed (by decide) xclaim_replies, List.forall_mem_nil _⟩

theorem answers_otherCommands : ∀ c ∈ pubsubCommands ++ transactionCommands ++ luaCommands ++
    clusterCommands, c.name ≠ "CLUSTER" → c.AnswersNeeds := by
  simp only [pubsubCommands, transactionCommands, luaCommands, clusterCommands, List.cons_append,
    List.nil_append, List.forall_mem_cons]
  exact ⟨fun _ => answers_of_never subscribe_replies, fun _ => answers_of_never unsubscribe_replies,
    fun _ => answers_of_never psubscribe_replies, fun _ => answers_of_never punsubscribe_replies,
    fun _ => answers_of_indexed (by decide) publish_replies,
    fun _ => answers_of_never multi_replies, fun _ => trivial,
    fun _ => answers_of_never discard_replies, fun _ => answers_of_never watch_replies,
    fun _ => answers_of_never unwatch_replies, fun _ => trivial, fun _ => trivial,
    fun _ => answers_of_faulty (by decide) scriptCmd_replies, fun h => absurd rfl h,
    List.forall_mem_nil _⟩

end Cmd

/-- Every command answers if it gets the arguments that its handler needs. -/
theorem answersNeeds_commands : ∀ c ∈ commands, c.name ≠ "CLUSTER" → c.AnswersNeeds :=
  forall_commands (fun c hc _ => Cmd.answers_serverCommands c hc)
    (fun c hc _ => Cmd.answers_stringCommands c hc)
    (fun c hc _ => Cmd.answers_genericCommands c hc) (fun c hc _ => Cmd.answers_listCommands c hc)
    (fun c hc _ => Cmd.answers_setCommands c hc) (fun c hc _ => Cmd.answers_hashCommands c hc)
    (fun c hc _ => Cmd.answers_zsetCommands c hc) (fun c hc _ => Cmd.answers_streamCommands c hc)
    (fun c hc _ => Cmd.answers_nestedHashCommands c hc) Cmd.answers_otherCommands

/-- What a handler needs is not more than what its command declares. -/
theorem needs_le : ∀ c ∈ commands, c.needs ≤ c.arity.natAbs - 1 := by decide +kernel

/-- **Every command answers**, with one line in each text and without a panic, if it gets the
arguments that it is declared to take. -/
theorem answers_commands : ∀ c ∈ commands, c.name ≠ "CLUSTER" → c.Answers := fun c hc hname =>
  (answersNeeds_commands c hc hname).mono fun _ hargs =>
    hargs.imp_right fun hlt => Nat.lt_of_lt_of_le hlt (needs_le c hc)

end VeloDB
