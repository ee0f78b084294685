import VeloDB.Cmd.Replies

/-!
# The handlers of values and keys

One lemma a handler, in the order of the command tables: what it answers, and on how many missing
arguments it panics. `SETRANGE`, `SRANDMEMBER` and `ZRANGEBYSCORE` have faults that depend on more
than the number of arguments; here they are only said to have some.
-/

namespace VeloDB

open Rust Proc

/-! ### Strings -/

namespace Cmd

variable (env : Env) (dbs : Databases) (i : ℕ) (args : List Bytes)

theorem get_replies : OkOr (Blames (args.length < 1)) NoCR (get env dbs i args) :=
  reads_index (by decide) fun key => (reads_ofResult (tidy_get env.now dbs i key)).bind
    fun v _ => noCR_bulkOrNil v

theorem set_replies : Replies (args.length < 2) (set env i args) := by
  refine does_rest le_rfl fun flags => does_index (by decide) fun key =>
    does_index (by decide) fun value => ?_
  split
  · refine (does_read fun dbs => tidy_existsKey env.now dbs i key).bind fun found _ => ?_
    split
    · exact delivers_pure trivial
    · exact (does_set i key value _).bind fun _ _ => delivers_pure noCR_ok
  · exact (does_set i key value _).bind fun _ _ => delivers_pure noCR_ok

theorem mget_replies : OkOr (Blames False) NoCR (mget env dbs i args) := by
  refine (okOr_mapM (fun key => reads_ofResult (tidy_get env.now dbs i key)) args).bind
    fun results _ => noCR_array fun v hv => ?_
  obtain ⟨o, -, rfl⟩ := List.mem_map.mp hv
  exact noCR_bulkOrNil o

theorem mset_replies : Replies False (mset env i args) := by
  have hset : ∀ p : Bytes × Bytes, Does False (Keyspace.set i p.1 p.2 none) :=
    fun p => does_set i p.1 p.2 none
  rw [mset]
  split
  · exact does_throw (by decide)
  · exact (delivers_each hset).bind fun _ _ => delivers_pure noCR_ok

theorem incrFn_replies {fault : Prop} (key : Bytes) (by_ : Int64) :
    Replies fault (incrFn env i key by_) :=
  (does_read fun dbs => tidy_get env.now dbs i key).bind fun _ _ =>
    (does_lift (reads_orError (by decide))).bind fun _ _ =>
      (does_set i key _ none).bind fun _ _ => delivers_pure trivial

theorem incr_replies : Replies (args.length < 1) (incr env i args) :=
  does_index (by decide) fun key => incrFn_replies env i key 1

theorem incrby_replies : Replies (args.length < 2) (incrby env i args) :=
  does_index (by decide) fun _ => (does_lift (reads_orError (by decide))).bind fun by_ _ =>
    does_index (by decide) fun key => incrFn_replies env i key by_

theorem decr_replies : Replies (args.length < 1) (decr env i args) :=
  does_index (by decide) fun key => incrFn_replies env i key (-1)

theorem decrby_replies : Replies (args.length < 2) (decrby env i args) :=
  does_index (by decide) fun _ => (does_lift (reads_orError (by decide))).bind fun by_ _ =>
    does_index (by decide) fun key => incrFn_replies env i key (-by_)

theorem append_replies : Replies (args.length < 2) (append env i args) :=
  does_index (by decide) fun key =>
    (does_read fun dbs => tidy_get env.now dbs i key).bind fun _ _ =>
      does_index (by decide) fun _ => (does_set i key _ none).bind fun _ _ => delivers_pure trivial

theorem strlen_replies : OkOr (Blames (args.length < 1)) NoCR (strlen env dbs i args) :=
  reads_index (by decide) fun key => (reads_ofResult (tidy_get env.now dbs i key)).bind
    fun _ _ => trivial

theorem getrange_replies : OkOr (Blames (args.length < 3)) NoCR (getrange env dbs i args) :=
  reads_index (by decide) fun _ => reads_index (by decide) fun _ => reads_index (by decide)
    fun key => (reads_ofResult (tidy_get env.now dbs i key)).bind fun _ _ => trivial

theorem getset_replies : Replies (args.length < 2) (getset env i args) :=
  does_index (by decide) fun key =>
    (does_read fun dbs => tidy_get env.now dbs i key).bind fun old _ =>
      does_index (by decide) fun _ =>
        (does_set i key _ none).bind fun _ _ => delivers_pure (noCR_bulkOrNil old)

/-! ### Keys -/

theorem reads_parseCursor {fault : Prop} (raw : Bytes) : Reads fault (parseCursor raw) :=
  reads_orError (by decide)

theorem reads_parseScanOpts {fault : Prop} (o : Option String × ℕ) :
    Reads fault (parseScanOpts env args o) := by
  have hsyntax : VeloDBError.syntaxError.OneLine := by decide
  induction args, o using parseScanOpts.induct env with
  | case1 o => trivial
  | case2 o f => exact hsyntax
  | case3 f v rest o hmatch ih =>
    rw [parseScanOpts, if_pos hmatch]
    exact ih
  | case4 f v rest o hmatch hcount hn =>
    rw [parseScanOpts, if_neg hmatch, if_pos hcount, hn]
    exact hsyntax
  | case5 f v rest o hmatch hcount n hn hzero ih =>
    rw [parseScanOpts, if_neg hmatch, if_pos hcount, hn]
    dsimp only
    rw [if_neg hzero]
    exact ih
  | case6 f v rest o hmatch hcount hn =>
    rw [parseScanOpts, if_neg hmatch, if_pos hcount, hn]
    exact (show VeloDBError.notInteger.OneLine by decide)
  | case7 f v rest o hmatch hcount =>
    rw [parseScanOpts, if_neg hmatch, if_neg hcount]
    exact hsyntax

theorem scanKeys_does {fault : Prop} (now : UInt64) (cursor : UInt64) (pattern : Option String)
    (count : ℕ) : Does fault (Tables.scanKeys now dbs i cursor pattern count) := by
  refine (delivers_ofExcept (reads_ofResult (tidy_db dbs i))).bind fun d _ => ?_
  refine delivers_get.bind fun t _ => ?_
  split
  · exact delivers_pure trivial
  · next after _ =>
    refine (delivers_modify _).bind fun _ _ => ?_
    dsimp only
    by_cases hmore : max count 1 < (keysAfter d after).length
    · rw [if_pos hmore]
      exact delivers_get.bind fun _ _ => (delivers_modify _).bind fun _ _ => delivers_pure trivial
    · rw [if_neg hmore]
      exact delivers_pure trivial

theorem does_onTables {α : Type} {fault : Prop} {m : TableM α} (h : Does fault m) :
    Does fault (onTables m) := fun s => h s.tables

theorem scanCmd_replies : Replies (args.length < 1) (scanCmd env dbs args) := by
  refine does_index (by decide) fun raw => ?_
  refine (does_lift (reads_parseCursor raw)).bind fun cursor _ => does_rest le_rfl fun rest => ?_
  refine (does_lift (reads_parseScanOpts env rest _)).bind fun opts _ => ?_
  refine delivers_get.bind fun s _ => ?_
  refine (does_onTables (scanKeys_does dbs _ env.now cursor opts.1 opts.2)).bind fun r _ => ?_
  refine delivers_pure (noCR_scanReply fun v hv => ?_)
  obtain ⟨b, -, rfl⟩ := List.mem_map.mp hv
  trivial

/-- The arguments of the three commands that scan one value. -/
theorem scanValue_replies {f : Option String × ℕ → Bytes → Reply}
    (hf : ∀ opts k, OkOr (Blames (args.length < 2)) NoCR (f opts k)) :
    OkOr (Blames (args.length < 2)) NoCR (do
      let _ ← parseCursor (← arg args 1)
      let opts ← parseScanOpts env (← argsFrom args 2) (none, 10)
      f opts (← arg args 0)) :=
  reads_index (by decide) fun raw => (reads_parseCursor raw).bind fun _ _ =>
    (reads_argsFrom id).bind fun rest _ => (reads_parseScanOpts env rest _).bind fun opts _ =>
      reads_index (by decide) fun k => hf opts k

theorem hscanCmd_replies : OkOr (Blames (args.length < 2)) NoCR (hscanCmd env dbs i args) := by
  refine scanValue_replies env args fun opts k =>
    (reads_ofResult (tidy_readAs ..)).bind fun r _ => noCR_scanReply fun v hv => ?_
  obtain ⟨q, -, hv⟩ := List.mem_flatMap.mp hv
  rcases List.mem_pair.mp hv with rfl | rfl <;> trivial

theorem sscanCmd_replies : OkOr (Blames (args.length < 2)) NoCR (sscanCmd env dbs i args) := by
  refine scanValue_replies env args fun opts k =>
    (reads_ofResult (tidy_readAs ..)).bind fun r _ => noCR_scanReply fun v hv => ?_
  obtain ⟨b, -, rfl⟩ := List.mem_map.mp hv
  trivial

theorem zscanCmd_replies : OkOr (Blames (args.length < 2)) NoCR (zscanCmd env dbs i args) := by
  refine scanValue_replies env args fun opts k =>
    (reads_ofResult (tidy_readAs ..)).bind fun r _ => noCR_scanReply fun v hv => ?_
  obtain ⟨q, -, hv⟩ := List.mem_flatMap.mp hv
  rcases List.mem_pair.mp hv with rfl | rfl <;> trivial

theorem del_replies : Replies False (del env i args) :=
  (delivers_foldEach (Q := Whatever) (fun _ key _ => (does_del i key).bind fun _ _ =>
    delivers_pure trivial) trivial).bind fun _ _ => delivers_pure trivial

theorem existsCmd_replies : OkOr (Blames False) NoCR (existsCmd env dbs i args) :=
  (okOr_mapM (fun key => reads_ofResult (tidy_existsKey env.now dbs i key)) args).bind
    fun _ _ => trivial

theorem expireWith_replies (time : UInt64 → UInt64) :
    Replies (args.length < 2) (expireWith time i args) :=
  does_index (by decide) fun _ => does_index (by decide) fun key =>
    (does_changeExpire i key _).bind fun _ _ => delivers_pure trivial

theorem ttlWith_replies (scale : UInt64 → UInt64) :
    OkOr (Blames (args.length < 1)) NoCR (ttlWith scale env dbs i args) := by
  refine reads_index (by decide) fun key =>
    (reads_ofResult (tidy_getExpire env.now dbs i key)).bind fun at_ _ => ?_
  cases at_ with
  | none => trivial
  | some at_ =>
    dsimp only
    split <;> trivial

theorem persist_replies : Replies (args.length < 1) (persist env i args) :=
  does_index (by decide) fun key =>
    (does_changeExpire i key none).bind fun _ _ => delivers_pure trivial

theorem typeCmd_replies : OkOr (Blames (args.length < 1)) NoCR (typeCmd env dbs i args) :=
  reads_index (by decide) fun key => (reads_ofResult (okOr_getType env.now dbs i key)).bind
    fun _ h => h

theorem renameCmd_replies : Replies (args.length < 2) (renameCmd env i args) := by
  refine does_index (by decide) fun old =>
    (does_read fun dbs => tidy_existsKey env.now dbs i old).bind fun found _ => ?_
  split
  · exact does_throw (by decide)
  · exact does_index (by decide) fun new =>
      (does_rename i old new).bind fun _ _ => delivers_pure noCR_ok

theorem renamenx_replies : Replies (args.length < 2) (renamenx env i args) := by
  refine does_index (by decide) fun new =>
    (does_read fun dbs => tidy_existsKey env.now dbs i new).bind fun taken _ => ?_
  split
  · exact delivers_pure trivial
  · refine does_index (by decide) fun old =>
      (does_read fun dbs => tidy_existsKey env.now dbs i old).bind fun found _ => ?_
    split
    · exact does_throw (by decide)
    · exact (does_rename i old new).bind fun _ _ => delivers_pure trivial

theorem keysCmd_replies : OkOr (Blames (args.length < 1)) NoCR (keysCmd env dbs i args) :=
  reads_index (by decide) fun _ => (reads_ofResult (tidy_keys env.now dbs i _)).bind
    fun keys _ => noCR_bulks keys

theorem dbsizeCmd_replies : Replies False (dbsizeCmd env i args) :=
  (does_dbsize env.now i).bind fun _ _ => delivers_pure trivial

theorem flushdbCmd_replies : Replies False (flushdbCmd env i args) :=
  (does_flushdb i).bind fun _ _ => delivers_pure noCR_ok

theorem flushallCmd_replies : Replies False (flushallCmd env i args) :=
  (delivers_modify _).bind fun _ _ => delivers_pure noCR_ok

theorem randomkeyCmd_replies : OkOr (Blames False) NoCR (randomkeyCmd env dbs i args) :=
  (reads_ofResult (tidy_randomKey env.now dbs i env.nanos)).bind fun key _ => noCR_bulkOrNil key

/-- What `SETRANGE` does when its sums do not fit is left open here. -/
theorem setrange_replies : Replies True (setrange env i args) := by
  refine (does_lift (reads_arg fun _ => trivial)).bind fun offset _ =>
    (does_lift (reads_arg fun _ => trivial)).bind fun key _ =>
    (does_read fun dbs => tidy_get env.now dbs i key).bind fun v _ =>
    (does_lift (reads_arg fun _ => trivial)).bind fun patch _ => ?_
  split
  · exact (does_set i key _ none).bind fun _ _ => delivers_pure trivial
  · exact delivers_fail trivial

/-! ### Lists -/

theorem lpush_replies : Replies (args.length < 1) (lpush env i args) :=
  does_index (by decide) fun key => does_rest le_rfl fun _ =>
    does_reply (does_push i key .list fun _ => trivial) fun _ => trivial

theorem rpush_replies : Replies (args.length < 1) (rpush env i args) :=
  does_index (by decide) fun key => does_rest le_rfl fun _ =>
    does_reply (does_push i key .list fun _ => trivial) fun _ => trivial

theorem does_lpopOne {fault : Prop} (now : UInt64) (k : Bytes) :
    Does fault (Keyspace.lpopOne now i k) := does_updateAs .list now i k trivial fun _ => trivial

theorem does_rpopOne {fault : Prop} (now : UInt64) (k : Bytes) :
    Does fault (Keyspace.rpopOne now i k) := does_updateAs .list now i k trivial fun _ => trivial

theorem lpop_replies : Replies (args.length < 1) (lpop env i args) :=
  does_index (by decide) fun key => (does_lpopOne i env.now key).bind
    fun v _ => delivers_pure (noCR_bulkOrNil v)

theorem rpop_replies : Replies (args.length < 1) (rpop env i args) :=
  does_index (by decide) fun key => (does_rpopOne i env.now key).bind
    fun v _ => delivers_pure (noCR_bulkOrNil v)

theorem llen_replies : OkOr (Blames (args.length < 1)) NoCR (llen env dbs i args) :=
  reads_index (by decide) fun _ => (reads_ofResult (tidy_readAs ..)).bind fun _ _ => trivial

theorem lrange_replies : OkOr (Blames (args.length < 3)) NoCR (lrange env dbs i args) :=
  reads_index (by decide) fun _ => reads_index (by decide) fun _ => reads_index (by decide)
    fun _ => (reads_ofResult (tidy_readAs ..)).bind fun l _ => noCR_bulks l

theorem lindex_replies : OkOr (Blames (args.length < 2)) NoCR (lindex env dbs i args) :=
  reads_index (by decide) fun _ => reads_index (by decide) fun _ =>
    (reads_ofResult (tidy_readAs ..)).bind fun v _ => noCR_bulkOrNil v

theorem lset_replies : Replies (args.length < 3) (lset env i args) := by
  refine does_index (by decide) fun a => does_index (by decide) fun key =>
    does_index (by decide) fun value => ?_
  refine does_reply (does_updateAs .list env.now i key ?_ fun l => ?_) fun _ => noCR_ok
  · exact (show VeloDBError.keyNotFound.OneLine by decide)
  split
  · trivial
  · exact (show VeloDBError.indexOutOfRange.OneLine by decide)

theorem ltrim_replies : Replies (args.length < 3) (ltrim env i args) := by
  refine does_index (by decide) fun _ => does_index (by decide) fun _ =>
    does_index (by decide) fun key => ?_
  refine does_reply (does_updateAs .list env.now i key trivial fun l => ?_) fun _ => noCR_ok
  dsimp only
  split <;> trivial

theorem lrem_replies : Replies (args.length < 3) (lrem env i args) :=
  does_index (by decide) fun _ => does_index (by decide) fun key => does_index (by decide) fun _ =>
    does_reply (does_updateAs .list env.now i key trivial fun _ => trivial) fun _ => trivial

theorem popFirst_does {fault : Prop} {pop : Bytes → KeyM (Option Bytes)}
    (hpop : ∀ k, Does fault (pop k)) (keys : List Bytes) : Does fault (popFirst pop keys) := by
  induction keys with
  | nil => exact delivers_pure trivial
  | cons k keys ih =>
    refine (hpop k).bind fun v _ => ?_
    cases v with
    | none => exact ih
    | some v => exact delivers_pure trivial

theorem blockingPop_replies {pop : UInt64 → ℕ → Bytes → KeyM (Option Bytes)}
    (hpop : ∀ now i k, Does (args.length < 1) (pop now i k)) (direction : PopDirection) :
    Replies (args.length < 1) (blockingPop pop direction env args) := by
  rw [blockingPop]
  dsimp only
  split
  · next hnone => exact delivers_fail (show args.length < 1 by omega)
  · refine delivers_get.bind fun w _ => ?_
    have hfirst : Does (args.length < 1)
        (onKeyspace (popFirst (pop env.now w.ctx.dbIndex) args.dropLast)) := fun w' =>
      popFirst_does (hpop env.now w.ctx.dbIndex) args.dropLast { databases := w'.store.databases }
    refine hfirst.bind fun o _ => ?_
    cases o with
    | some p => exact delivers_pure (noCR_bulks _)
    | none =>
      dsimp only
      split
      · exact delivers_pure trivial
      · exact (delivers_modify _).bind fun _ _ => delivers_pure noCR_ok

theorem blpop_replies : Replies (args.length < 1) (blpop env args) :=
  blockingPop_replies env args (fun now i k => does_lpopOne i now k) .left

theorem brpop_replies : Replies (args.length < 1) (brpop env args) :=
  blockingPop_replies env args (fun now i k => does_rpopOne i now k) .right

/-! ### Sets -/

theorem sadd_replies : Replies (args.length < 1) (sadd env i args) :=
  does_index (by decide) fun key => does_rest le_rfl fun _ =>
    does_reply (does_upsertAs .set i key fun _ => trivial) fun _ => trivial

theorem srem_replies : Replies (args.length < 1) (srem env i args) :=
  does_index (by decide) fun key => does_rest le_rfl fun _ =>
    does_reply (does_updateAs .set env.now i key trivial fun _ => trivial) fun _ => trivial

theorem smembers_replies : OkOr (Blames (args.length < 1)) NoCR (smembers env dbs i args) :=
  reads_index (by decide) fun _ => (reads_ofResult (tidy_readAs ..)).bind fun l _ => noCR_bulks l

theorem sismember_replies : OkOr (Blames (args.length < 2)) NoCR (sismember env dbs i args) :=
  reads_index (by decide) fun _ => reads_index (by decide) fun _ =>
    (reads_ofResult (tidy_readAs ..)).bind fun _ _ => trivial

theorem scard_replies : OkOr (Blames (args.length < 1)) NoCR (scard env dbs i args) :=
  reads_index (by decide) fun _ => (reads_ofResult (tidy_readAs ..)).bind fun _ _ => trivial

theorem sinter_replies : OkOr (Blames False) NoCR (sinter env dbs i args) :=
  (reads_ofResult (tidy_sinter env.now dbs i args)).bind fun l _ => noCR_bulks l

theorem sunion_replies : OkOr (Blames False) NoCR (sunion env dbs i args) :=
  (reads_ofResult (tidy_sunionLoop env.now dbs i args ∅)).bind fun l _ => noCR_bulks l

theorem sdiff_replies : OkOr (Blames False) NoCR (Cmd.sdiff env dbs i args) :=
  (reads_ofResult (tidy_sdiff env.now dbs i args)).bind fun l _ => noCR_bulks l

/-- An answer of some members, or of one. -/
theorem noCR_members (one : Prop) [Decidable one] (l : List Bytes) :
    NoCR (if one then bulkOrNil l.head? else bulks l) := by
  split
  · exact noCR_bulkOrNil _
  · exact noCR_bulks l

theorem spop_replies : Replies (args.length < 1) (spop env i args) :=
  does_index (by decide) fun key =>
    does_reply (does_updateAs .set env.now i key trivial fun _ => trivial) (noCR_members _)

/-- The loop of `srandmember` may not end. -/
theorem drawDistinct_reads (members : List Bytes) (nano fuel : ℕ) (used : List ℕ)
    (result : List Bytes) : Reads True (Databases.drawDistinct members nano fuel used result) := by
  induction fuel generalizing used result with
  | zero => trivial
  | succ fuel ih =>
    rw [Databases.drawDistinct]
    split
    · trivial
    · split
      · exact ih _ _
      · trivial

theorem drawMembers_reads (members : List Bytes) (nano : ℕ) (count : Option Int64) :
    Reads True (Databases.drawMembers members nano count) := by
  rw [Databases.drawMembers.eq_def]
  split
  · trivial
  split
  · trivial
  split
  · trivial
  split
  · exact drawDistinct_reads members nano _ [] []
  split
  · trivial
  · trivial

theorem reads_flatten {α : Type} {fault : Prop} {x : Except VeloDBError (Except Failure α)}
    (h : OkOr VeloDBError.OneLine (Reads fault) x) : Reads fault (flatten x) := by
  cases x with
  | error e => exact h
  | ok y => exact h

/-- Reading a live value in a way that may fail. -/
theorem okOr_readAs {α β : Type} {kind : Kind α} {now : UInt64} {k : Bytes} {missing : β}
    {f : α → β} {Q : β → Prop} (hmissing : Q missing) (hf : ∀ a, Q (f a)) :
    OkOr VeloDBError.OneLine Q (dbs.readAs kind now i k missing f) := by
  refine (tidy_entry now dbs i k).bind fun e _ => ?_
  cases e with
  | none => exact hmissing
  | some e =>
    dsimp only
    cases kind.unwrap e.value with
    | none => exact (show VeloDBError.wrongType.OneLine by decide)
    | some a => exact hf a

theorem srandmember_replies : OkOr (Blames True) NoCR (srandmember env dbs i args) := by
  refine (reads_arg fun _ => trivial).bind fun key _ => ?_
  have hdraw : Reads True (dbs.srandmember env.now env.nanos i key (args[1]? >>= parseI64)) :=
    reads_flatten (okOr_readAs dbs i trivial fun s => drawMembers_reads s.keys _ _)
  exact hdraw.bind fun l _ => noCR_members _ l

/-! ### Hashes -/

theorem hset_replies : Replies (args.length < 1) (hset env i args) := by
  refine does_rest le_rfl fun rest => ?_
  dsimp only
  split
  · exact does_throw (by decide)
  · exact does_index (by decide) fun key =>
      does_reply (does_upsertAs .hash i key fun _ => trivial) fun _ => trivial

theorem hget_replies : OkOr (Blames (args.length < 2)) NoCR (hget env dbs i args) :=
  reads_index (by decide) fun _ => reads_index (by decide) fun _ =>
    (reads_ofResult (tidy_readAs ..)).bind fun v _ => noCR_bulkOrNil v

theorem hdel_replies : Replies (args.length < 1) (hdel env i args) :=
  does_index (by decide) fun key => does_rest le_rfl fun _ =>
    does_reply (does_updateAs .hash env.now i key trivial fun _ => trivial) fun _ => trivial

theorem hexists_replies : OkOr (Blames (args.length < 2)) NoCR (hexists env dbs i args) :=
  reads_index (by decide) fun _ => reads_index (by decide) fun _ =>
    (reads_ofResult (tidy_readAs ..)).bind fun _ _ => trivial

theorem hgetall_replies : OkOr (Blames (args.length < 1)) NoCR (hgetall env dbs i args) :=
  reads_index (by decide) fun _ => (reads_ofResult (tidy_readAs ..)).bind
    fun l _ => noCR_bulkPairs l

theorem hkeys_replies : OkOr (Blames (args.length < 1)) NoCR (hkeys env dbs i args) :=
  reads_index (by decide) fun _ => (reads_ofResult (tidy_readAs ..)).bind fun l _ => noCR_bulks l

theorem hvals_replies : OkOr (Blames (args.length < 1)) NoCR (hvals env dbs i args) :=
  reads_index (by decide) fun _ => (reads_ofResult (tidy_readAs ..)).bind fun l _ => noCR_bulks l

theorem hlen_replies : OkOr (Blames (args.length < 1)) NoCR (hlen env dbs i args) :=
  reads_index (by decide) fun _ => (reads_ofResult (tidy_readAs ..)).bind fun _ _ => trivial

theorem hincrby_replies : Replies (args.length < 3) (hincrby env i args) := by
  refine does_index (by decide) fun _ => (does_lift (reads_orError (by decide))).bind
    fun increment _ => does_index (by decide) fun key => does_index (by decide) fun field => ?_
  refine does_reply (does_upsertAs .hash i key fun m => ?_) fun _ => trivial
  dsimp only
  split
  · trivial
  · exact (show VeloDBError.overflow.OneLine by decide)

/-! ### Nested hashes -/

theorem nhset_replies : Replies (args.length < 4) (nhset env i args) :=
  does_index (by decide) fun key => does_index (by decide) fun _ => does_index (by decide) fun _ =>
    does_index (by decide) fun _ =>
      does_reply (does_upsertAs .nestedHash i key fun _ => trivial) fun _ => trivial

theorem nhget_replies : OkOr (Blames (args.length < 3)) NoCR (nhget env dbs i args) :=
  reads_index (by decide) fun _ => reads_index (by decide) fun _ => reads_index (by decide)
    fun _ => (reads_ofResult (tidy_readAs ..)).bind fun v _ => noCR_bulkOrNil v

theorem nhdel_replies : Replies (args.length < 2) (nhdel env i args) := by
  refine does_index (by decide) fun key => does_index (by decide) fun field => ?_
  refine does_reply (does_updateAs .nestedHash env.now i key trivial fun m => ?_) fun _ => trivial
  split
  · split
    · split <;> trivial
    · trivial
  · trivial

theorem nhkeys_replies : OkOr (Blames (args.length < 1)) NoCR (nhkeys env dbs i args) :=
  reads_index (by decide) fun _ => (reads_ofResult (tidy_readAs ..)).bind fun l _ => noCR_bulks l

theorem nhvals_replies : OkOr (Blames (args.length < 1)) NoCR (nhvals env dbs i args) :=
  reads_index (by decide) fun _ => (reads_ofResult (tidy_readAs ..)).bind fun l _ => noCR_bulks l

theorem nhgetall_replies : OkOr (Blames (args.length < 1)) NoCR (nhgetall env dbs i args) :=
  reads_index (by decide) fun _ => (reads_ofResult (tidy_readAs ..)).bind
    fun l _ => noCR_bulkPairs l

/-! ### Sorted sets -/

theorem reads_parseScoreMemberPairs {fault : Prop} (H : Host) :
    ∀ l : List Bytes, Reads fault (parseScoreMemberPairs H l)
  | [] => trivial
  | [_] => trivial
  | _ :: _ :: rest => (reads_orError (by decide)).bind fun _ _ =>
      (reads_parseScoreMemberPairs H rest).bind fun _ _ => trivial

theorem zadd_replies : Replies (args.length < 1) (zadd env i args) :=
  does_rest le_rfl fun rest => (does_lift (reads_parseScoreMemberPairs env.host rest)).bind
    fun _ _ => does_index (by decide) fun key =>
      does_reply (does_upsertAs .zset i key fun _ => trivial) fun _ => trivial

theorem zrem_replies : Replies (args.length < 1) (zrem env i args) :=
  does_index (by decide) fun key => does_rest le_rfl fun _ =>
    does_reply (does_updateAs .zset env.now i key trivial fun _ => trivial) fun _ => trivial

theorem zscore_replies : OkOr (Blames (args.length < 2)) NoCR (zscore env dbs i args) :=
  reads_index (by decide) fun _ => reads_index (by decide) fun _ =>
    (reads_ofResult (tidy_readAs ..)).bind fun _ _ => noCR_bulkOrNil _

theorem zrank_replies : OkOr (Blames (args.length < 2)) NoCR (zrank env dbs i args) := by
  refine reads_index (by decide) fun _ => reads_index (by decide) fun _ =>
    (reads_ofResult (tidy_readAs ..)).bind fun r _ => ?_
  cases r <;> trivial

theorem reads_parseScoreBound {fault : Prop} (H : Host) (b : Bytes) :
    Reads fault (parseScoreBound H b) := by
  rw [parseScoreBound]
  split
  · trivial
  split
  · trivial
  split <;> exact (reads_orError (by decide)).bind fun _ _ => trivial

theorem zrangeByScore_reads {fault : Prop} {now : UInt64} {k : Bytes} {lo hi : ScoreBound}
    (h : hi.value.lt lo.value = true → fault) (withscores : Bool) (limit : Option (ℕ × ℕ)) :
    Reads fault (dbs.zrangeByScore now i k lo hi withscores limit) := by
  refine reads_flatten (okOr_readAs dbs i trivial fun z => ?_)
  split
  · next hlt => exact h hlt
  · trivial

/-- The range from minus to plus infinity is not reversed. -/
theorem zrange_replies : OkOr (Blames (args.length < 3)) NoCR (zrange env dbs i args) := by
  refine reads_index (by decide) fun a => reads_index (by decide) fun b => reads_index (by decide)
    fun key => ?_
  have hwhole : F64.infinity.lt F64.negInfinity = true → args.length < 3 :=
    fun h => absurd h (by decide)
  have hall : ∀ start stop withscores, Reads (args.length < 3)
      (dbs.zrange env.now i key start stop withscores) := fun _ _ _ =>
    (zrangeByScore_reads dbs i hwhole _ none).bind fun _ _ => trivial
  exact (hall _ _ _).bind fun items _ => noCR_memberScores env.host items

/-- A reversed range is left open here. -/
theorem zrangebyscore_replies : OkOr (Blames True) NoCR (zrangebyscore env dbs i args) :=
  (reads_arg fun _ => trivial).bind fun a _ => (reads_parseScoreBound _ a).bind
    fun _ _ => (reads_arg fun _ => trivial).bind fun b _ => (reads_parseScoreBound _ b).bind
    fun _ _ => (reads_arg fun _ => trivial).bind fun _ _ =>
      (zrangeByScore_reads dbs i (fun _ => trivial) _ _).bind
        fun items _ => noCR_memberScores env.host items

theorem zcard_replies : OkOr (Blames (args.length < 1)) NoCR (zcard env dbs i args) :=
  reads_index (by decide) fun _ => (reads_ofResult (tidy_readAs ..)).bind fun _ _ => trivial

theorem zcount_replies : OkOr (Blames (args.length < 3)) NoCR (zcount env dbs i args) :=
  reads_index (by decide) fun a => (reads_parseScoreBound _ a).bind fun _ _ =>
    reads_index (by decide) fun b => (reads_parseScoreBound _ b).bind fun _ _ =>
      reads_index (by decide) fun _ => (reads_ofResult (tidy_readAs ..)).bind fun _ _ => trivial

/-! ### Streams -/

theorem xadd_replies : Replies False (xadd env i args) := by
  rw [xadd]
  dsimp only
  split
  · exact does_throw (by decide)
  · next id rest hrest =>
    split
    · exact does_throw (by decide)
    · -- an id was found behind the key
      have hkey : args.length ≤ 0 → False := by
        intro hnone
        rw [List.length_eq_zero_iff.mp (Nat.le_zero.mp hnone)] at hrest
        cases hrest
      exact (does_lift (reads_arg hkey)).bind fun key _ =>
        does_reply (does_xadd env.now i key id _ _) fun _ => trivial

theorem xrange_replies : OkOr (Blames (args.length < 3)) NoCR (xrange env dbs i args) :=
  reads_index (by decide) fun key => reads_index (by decide) fun _ => reads_index (by decide)
    fun _ => (reads_ofResult (tidy_xrange env.now dbs i key _ _ _)).bind
      fun l _ => noCR_serializeEntries l

theorem xrevrange_replies : OkOr (Blames (args.length < 3)) NoCR (xrevrange env dbs i args) :=
  reads_index (by decide) fun key => reads_index (by decide) fun _ => reads_index (by decide)
    fun _ => (reads_ofResult (tidy_xrevrange env.now dbs i key _ _ _)).bind
      fun l _ => noCR_serializeEntries l

theorem xlen_replies : OkOr (Blames (args.length < 1)) NoCR (xlen env dbs i args) :=
  reads_index (by decide) fun _ => (reads_ofResult (tidy_readAs ..)).bind fun _ _ => trivial

theorem xdel_replies : Replies (args.length < 1) (xdel env i args) :=
  does_rest le_rfl fun _ => does_index (by decide) fun key =>
    does_reply (does_updateAs .stream env.now i key trivial fun _ => trivial) fun _ => trivial

theorem xtrim_replies : Replies False (xtrim env i args) := by
  rw [xtrim]
  split
  · exact does_throw (by decide)
  · next hlong =>
    have hlen : ∀ n < 4, args.length ≤ n → False := by
      rintro n hn hle
      exact hlong (Or.inl (Nat.lt_of_le_of_lt hle hn))
    exact (does_lift (reads_arg (hlen 3 (by decide)))).bind fun _ _ =>
      (does_lift (reads_arg (hlen 0 (by decide)))).bind fun key _ =>
        does_reply (does_updateAs .stream env.now i key trivial fun _ => trivial) fun _ => trivial

theorem xread_replies : OkOr (Blames False) NoCR (xread env dbs i args) := by
  rw [xread]
  obtain ⟨o, streams⟩ := xreadOptions env args {}
  dsimp only
  split
  · exact (show VeloDBError.syntaxError.OneLine by decide)
  · refine (reads_ofResult (tidy_xread env.now dbs i o.count _ _)).bind fun result _ => ?_
    split
    · split
      · exact (show '\r' ∉ "__BLOCK__".toList by decide)
      · trivial
    · refine noCR_array fun v hv => ?_
      obtain ⟨p, -, rfl⟩ := List.mem_map.mp hv
      refine noCR_array fun v hv => ?_
      rcases List.mem_pair.mp hv with rfl | rfl
      · trivial
      · exact noCR_serializeEntries p.2

theorem xgroupCreate_does {fault : Prop} (now : UInt64) (k : Bytes) (group : String)
    (startId : Bytes) (mkstream : Bool) :
    Does fault (xgroupCreate now i k group startId mkstream) := by
  have htail : Does fault (do
      let w ← Proc.get
      let start := if startId = asBytes "$" then w.store.databases.getStreamLastId now i k
        else parseStreamId startId true
      Proc.modify fun w => { w with store := { w.store with
        tables := { w.store.tables with
          consumerGroups := w.store.tables.consumerGroups.insert (Tables.cgKey i k group)
            { lastDeliveredMs := start.1, lastDeliveredSeq := start.2 } } } } : WholeM Unit) :=
    delivers_get.bind fun _ _ => delivers_modify _
  refine delivers_get.bind fun w _ => ?_
  refine (does_lift (reads_ofResult ((okOr_getType now w.store.databases i k).mono
    (fun _ h => h) fun _ _ => trivial))).bind fun type _ => ?_
  cases type with
  | none =>
    dsimp only
    split
    · exact delivers_fail (show VeloDBError.OneLine _ by decide +kernel)
    · exact (delivers_modify _).bind fun _ _ => htail
  | some t =>
    dsimp only
    split
    · exact delivers_fail (show VeloDBError.wrongType.OneLine by decide)
    · exact htail

theorem does_updateGroup {α : Type} {fault : Prop} {k : Bytes} {group : String}
    {missing : Except Failure α} (h : Reads fault missing)
    (f : ConsumerGroup → α × ConsumerGroup) :
    Does fault (Tables.updateGroup i k group missing f) := by
  intro t
  rw [Tables.updateGroup]
  split
  · trivial
  · exact h

theorem does_onTablesOfStore {α : Type} {fault : Prop} {m : TableM α} (h : Does fault m) :
    Does fault (onTablesOfStore m) := fun w => h w.store.tables

theorem reads_noGroup {α : Type} {fault : Prop} :
    Reads fault (.error (.error noGroup) : Except Failure α) :=
  show noGroup.OneLine by decide

theorem xgroup_replies : Replies False (xgroup env args) := by
  have hsyntax : Replies False (Proc.fail (.error .syntaxError) : WholeM RespValue) :=
    delivers_fail (show VeloDBError.syntaxError.OneLine by decide)
  refine delivers_get.bind fun w _ => ?_
  dsimp only
  cases args with
  | nil => exact hsyntax
  | cons sub rest =>
    dsimp only
    split
    · split
      · exact (xgroupCreate_does _ env.now _ _ _ _).bind fun _ _ => delivers_pure noCR_ok
      · exact hsyntax
    · split
      · split
        · exact does_reply (does_onTablesOfStore fun _ => trivial) fun _ => trivial
        · exact hsyntax
      · split
        · split
          · exact does_reply (does_onTablesOfStore (does_updateGroup _ reads_noGroup _))
              fun _ => trivial
          · exact hsyntax
        · split
          · split
            · exact does_reply (does_onTablesOfStore (does_updateGroup _ reads_noGroup _))
                fun _ => trivial
            · exact hsyntax
          · exact hsyntax

/-- Nothing but an error, of which the text is known. -/
theorem reads_of_error {α : Type} {fault : Prop} {x : Except Failure α} (h : Reads True x)
    (herror : (∃ e, x = .error (.error e)) ∨ ∃ a, x = .ok a) : Reads fault x := by
  rcases herror with ⟨e, rfl⟩ | ⟨a, rfl⟩
  · exact h
  · trivial

theorem tablesXreadgroup_does {fault : Prop} (now : UInt64) (k : Bytes) (group consumer : String)
    (start : ReadGroupStart) (count : Option ℕ) (noack : Bool) :
    Does fault (Tables.xreadgroup now dbs i k group consumer start count noack) := by
  have hentries : ∀ {fault : Prop}, Does fault (Proc.ofExcept
      (ofResult (dbs.streamEntries now i k)) : TableM (List StreamEntry)) :=
    delivers_ofExcept (reads_ofResult (tidy_streamEntries now dbs i k))
  -- the group is there when it is looked up again
  have hpanics : Does (start = .new)
      (Tables.xreadgroup now dbs i k group consumer start count noack) := by
    refine (delivers_ofExcept (reads_ofResult ((okOr_getType now dbs i k).mono (fun _ h => h)
      fun _ _ => trivial))).bind fun type _ => ?_
    dsimp only
    by_cases htype : type ≠ some "stream" ∧ type.isSome = true
    · rw [if_pos htype]
      exact Proc.Delivers.bind (Q := fun _ => False)
        (delivers_fail (show VeloDBError.wrongType.OneLine by decide)) fun _ h => h.elim
    · rw [if_neg htype]
      refine (does_updateGroup i reads_noGroup _).bind fun g _ => ?_
      cases start with
      | new =>
        refine (delivers_ofExcept (reads_ofResult
          (tidy_streamEntriesAfter now dbs i k _ count))).bind fun entries _ => ?_
        split
        · exact (does_updateGroup i (show Reads _ (.error .panic) from rfl) _).bind
            fun _ _ => delivers_pure trivial
        · exact delivers_pure trivial
      | history after => exact hentries.bind fun _ _ => delivers_pure trivial
  intro t
  cases start with
  | new =>
    refine reads_of_error ((hpanics t).mono (fun e he => ?_) fun _ h => h) ?_
    · cases e with
      | error e => exact he
      | panic => trivial
      | hang => trivial
    · rcases Tables.xreadgroup_new_cases now dbs i k group consumer count noack t with
        ⟨e, h⟩ | ⟨g, all, -, -, h⟩
      · rw [h]
        exact Or.inl ⟨e, rfl⟩
      · rw [h]
        exact Or.inr ⟨_, rfl⟩
  | history after =>
    refine (hpanics t).mono (fun e he => ?_) fun _ h => h
    cases e with
    | error e => exact he
    | panic => cases he
    | hang => cases he

theorem reads_xreadgroupOptions {fault : Prop} (o : Option ℕ × Bool) :
    Reads fault (xreadgroupOptions env args o) := by
  have hsyntax : VeloDBError.syntaxError.OneLine := by decide
  induction args, o using xreadgroupOptions.induct env with
  | case1 o => trivial
  | case2 o f hnoack =>
    rw [xreadgroupOptions, if_pos hnoack]
    trivial
  | case3 o f hnoack hstreams =>
    rw [xreadgroupOptions, if_neg hnoack, if_pos hstreams]
    trivial
  | case4 o f hnoack hstreams =>
    rw [xreadgroupOptions, if_neg hnoack, if_neg hstreams]
    exact hsyntax
  | case5 o f v rest hcount ih =>
    rw [xreadgroupOptions, if_pos hcount]
    exact ih
  | case6 o f v rest hcount hnoack ih =>
    rw [xreadgroupOptions, if_neg hcount, if_pos hnoack]
    exact ih
  | case7 o f v rest hcount hnoack hblock ih =>
    rw [xreadgroupOptions, if_neg hcount, if_neg hnoack, if_pos hblock]
    exact ih
  | case8 o f v rest hcount hnoack hblock hstreams =>
    rw [xreadgroupOptions, if_neg hcount, if_neg hnoack, if_neg hblock, if_pos hstreams]
    trivial
  | case9 o f v rest hcount hnoack hblock hstreams =>
    rw [xreadgroupOptions, if_neg hcount, if_neg hnoack, if_neg hblock, if_neg hstreams]
    exact hsyntax

theorem xreadgroupStreams_does {fault : Prop} (group consumer : String) (o : Option ℕ × Bool)
    (l : List (Bytes × Bytes)) :
    Proc.Delivers (Blames fault) (fun replies : List RespValue => ∀ v ∈ replies, NoCR v)
      (xreadgroupStreams env dbs i group consumer o l) := by
  induction l with
  | nil => exact delivers_pure (List.forall_mem_nil _)
  | cons p l ih =>
    obtain ⟨k, id⟩ := p
    refine (does_onTables (tablesXreadgroup_does dbs i env.now k group consumer _ o.1 o.2)).bind
      fun entries _ => ih.bind fun replies hreplies => delivers_pure ?_
    split
    · refine List.forall_mem_cons.mpr ⟨noCR_array fun v hv => ?_, hreplies⟩
      rcases List.mem_pair.mp hv with rfl | rfl
      · trivial
      · exact noCR_serializeEntries entries
    · exact hreplies

theorem xreadgroup_replies : Replies False (xreadgroup env dbs args) := by
  refine delivers_get.bind fun s _ => ?_
  split
  · exact delivers_fail (show VeloDBError.syntaxError.OneLine by decide)
  · next hlong =>
    have hlen : ∀ n < 6, args.length ≤ n → False := by
      rintro n hn hle
      exact hlong (Or.inl (Nat.lt_of_le_of_lt hle hn))
    refine (does_lift (reads_arg (hlen 1 (by decide)))).bind fun group _ =>
      (does_lift (reads_arg (hlen 2 (by decide)))).bind fun consumer _ =>
      (does_lift (reads_xreadgroupOptions env _ _)).bind fun r _ => ?_
    obtain ⟨o, streams⟩ := r
    dsimp only
    split
    · exact delivers_fail (show VeloDBError.syntaxError.OneLine by decide)
    · refine (xreadgroupStreams_does env dbs _ _ _ o _).bind fun replies hreplies =>
        delivers_pure ?_
      split
      · trivial
      · exact noCR_array hreplies

theorem xack_replies : Replies (args.length < 2) (xack env dbs args) :=
  delivers_get.bind fun s _ => does_index (by decide) fun _ => does_rest le_rfl fun _ =>
    does_index (by decide) fun _ =>
      does_reply (does_onTables (does_updateGroup _ (show Reads _ (.ok 0) from trivial) _))
        fun _ => trivial

theorem noCR_pendingSummaryReply (s : Tables.PendingSummary) :
    NoCR (pendingSummaryReply s) := by
  rw [pendingSummaryReply]
  split
  · exact ⟨trivial, trivial, trivial, trivial, trivial⟩
  · refine ⟨trivial, noCR_bulkOrNil _, noCR_bulkOrNil _, noCR_array fun v hv => ?_, trivial⟩
    obtain ⟨p, -, rfl⟩ := List.mem_map.mp hv
    exact noCR_bulks _

theorem xpending_replies : Replies (args.length < 2) (xpending env dbs args) := by
  refine delivers_get.bind fun s _ => does_index (by decide) fun group =>
    does_index (by decide) fun k => ?_
  split
  · have hsummary : Reads (args.length < 2)
        (Tables.xpendingSummary s.ctx.dbIndex k (fromUtf8Lossy group) s.tables) := by
      rw [Tables.xpendingSummary]
      split
      · trivial
      · exact reads_noGroup
    exact (does_lift hsummary).bind fun summary _ => delivers_pure (noCR_pendingSummaryReply summary)
  · split
    · exact delivers_fail (show VeloDBError.syntaxError.OneLine by decide)
    · next hlong =>
      have hlen : ∀ n < 5, args.length ≤ n → args.length < 2 := by
        intro n hn hle
        omega
      have hdetails : ∀ start stop count consumer, Reads (args.length < 2)
          (Tables.xpendingRange env.now s.ctx.dbIndex k (fromUtf8Lossy group) start stop count
            consumer s.tables) := by
        intro start stop count consumer
        rw [Tables.xpendingRange]
        split
        · trivial
        · exact reads_noGroup
      refine (does_lift (reads_arg (hlen 2 (by decide)))).bind fun _ _ =>
        (does_lift (reads_arg (hlen 3 (by decide)))).bind fun _ _ =>
        (does_lift (reads_arg (hlen 4 (by decide)))).bind fun _ _ =>
        (does_lift (reads_orError (by decide))).bind fun _ _ =>
        (does_lift (hdetails _ _ _ _)).bind fun details _ =>
        delivers_pure (noCR_array fun v hv => ?_)
      obtain ⟨d, -, rfl⟩ := List.mem_map.mp hv
      exact ⟨trivial, trivial, trivial, trivial, trivial⟩

theorem tablesXclaim_does {fault : Prop} (now : UInt64) (k : Bytes) (group consumer : String)
    (minIdleMs : UInt64) (ids : List StreamId) (justid : Bool) :
    Does fault (Tables.xclaim now dbs i k group consumer minIdleMs ids justid) := by
  refine (does_updateGroup i reads_noGroup _).bind fun claimed _ => ?_
  split
  · exact delivers_pure trivial
  · exact (delivers_ofExcept (reads_ofResult (tidy_streamEntries now dbs i k))).bind
      fun _ _ => delivers_pure trivial

theorem xclaim_replies : Replies (args.length < 4) (xclaim env dbs args) := by
  refine delivers_get.bind fun s _ => does_index (by decide) fun group =>
    does_index (by decide) fun consumer => does_index (by decide) fun _ =>
      (does_lift (reads_orError (by decide))).bind fun minIdleMs _ => ?_
  have hclaim : ∀ ids justid, Replies (args.length < 4) (lift (arg args 0) >>= fun k =>
      onTables (Tables.xclaim env.now dbs s.ctx.dbIndex k (fromUtf8Lossy group)
        (fromUtf8Lossy consumer) minIdleMs ids justid) >>= fun claimed =>
      pure (if justid then bulks (claimed.map fun e => formatId e.id)
        else serializeEntries claimed)) := by
    refine fun ids justid => does_index (by decide) fun k =>
      does_reply (does_onTables (tablesXclaim_does dbs _ env.now k _ _ _ _ _)) fun claimed => ?_
    split
    · exact noCR_bulks _
    · exact noCR_serializeEntries claimed
  obtain ⟨ids, justid⟩ := xclaimOptions env (args.drop 4) ([], false)
  dsimp only
  by_cases hids : ids = []
  · rw [if_pos hids]
    exact Proc.Delivers.bind (Q := fun _ => False)
      (delivers_fail (show VeloDBError.syntaxError.OneLine by decide)) fun _ h => h.elim
  · rw [if_neg hids]
    exact hclaim ids justid

end Cmd

end VeloDB
