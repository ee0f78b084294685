import VeloDB.Cmd.Effects

/-!
# Watched keys

`WATCH` remembers the version of a key, and `EXEC` looks whether the key still has it. The version
belongs to the entry. Only `Store::set` counts it up: the other methods that change an entry keep
its version, and an entry that is removed takes it along.

## Main results

* `BySets.version_lt` — what calls of `Store::set` do to the version of an entry
* `keeps_dispatch` — what a command does to the keys its client watches
* `dispatch_exec` — when `EXEC` is refused
-/

namespace VeloDB

open Rust Proc

/-! ### Calls of `Store::set` -/

/-- The version of what is stored at a key; an absent key has version 0. -/
def storedVersion (o : Option Entry) : ℕ := (o.map Entry.version).getD 0

/-- What `Store::set` puts in the place of an entry. -/
def setEntry (v : Bytes) (expireMs : Option UInt64) (o : Option Entry) : Entry :=
  { value := .string v, expireAt := expireMs, version := storedVersion o + 1 }

/-- What is stored at a key has been changed by calls of `Store::set` only. -/
inductive BySets : Option Entry → Option Entry → Prop
  | refl (o : Option Entry) : BySets o o
  | set {o o' : Option Entry} (h : BySets o o') (v : Bytes) (expireMs : Option UInt64) :
    BySets o (some (setEntry v expireMs o'))

theorem BySets.trans {o o' o'' : Option Entry} (h : BySets o o') (h' : BySets o' o'') :
    BySets o o'' := by
  induction h' with
  | refl => exact h
  | set _ v expireMs ih => exact ih.set v expireMs

theorem BySets.version_le {o o' : Option Entry} (h : BySets o o') :
    storedVersion o ≤ storedVersion o' := by
  induction h with
  | refl => exact le_rfl
  | set _ v expireMs ih => exact ih.trans (Nat.le_succ _)

/-- **A change shows in the version.** -/
theorem BySets.version_lt {o o' : Option Entry} (h : BySets o o') (hne : o' ≠ o) :
    storedVersion o < storedVersion o' := by
  cases h with
  | refl => exact absurd rfl hne
  | set h v expireMs => exact Nat.lt_succ_of_le h.version_le

/-- The databases have been changed by calls of `Store::set` only. -/
def OnlySets (dbs dbs' : Databases) : Prop := ∀ i k, BySets (dbs.find i k) (dbs'.find i k)

theorem onlySets_refl (dbs : Databases) : OnlySets dbs dbs := fun _ _ => .refl _

theorem OnlySets.trans {dbs dbs' dbs'' : Databases} (h : OnlySets dbs dbs')
    (h' : OnlySets dbs' dbs'') : OnlySets dbs dbs'' := fun i k => (h i k).trans (h' i k)

/-- `OnlySets`, of a command on databases. -/
def KeyOnlySets (s s' : Keyspace) : Prop := OnlySets s.databases s'.databases

/-- `OnlySets`, of a command on everything. -/
def WholeOnlySets (w w' : Whole) : Prop := OnlySets w.store.databases w'.store.databases

instance : Std.Refl KeyOnlySets := ⟨fun s => onlySets_refl s.databases⟩

instance : IsTrans Keyspace KeyOnlySets := ⟨fun _ _ _ => OnlySets.trans⟩

instance : Std.Refl WholeOnlySets := ⟨fun w => onlySets_refl w.store.databases⟩

instance : IsTrans Whole WholeOnlySets := ⟨fun _ _ _ => OnlySets.trans⟩

theorem onlySets_set (i : ℕ) (k v : Bytes) (expireMs : Option UInt64) :
    Moves KeyOnlySets (Keyspace.set i k v expireMs) := by
  rintro ⟨dbs, notified⟩
  by_cases hi : i < dbs.length
  · rw [Keyspace.set_run hi]
    intro j k'
    by_cases hne : j ≠ i ∨ k' ≠ k
    · rw [Databases.find_put_of_ne hne]
      exact .refl _
    · obtain ⟨rfl, rfl⟩ := not_or.mp hne |>.imp not_ne_iff.mp not_ne_iff.mp
      rw [Databases.find_put_self hi]
      have hentry := (BySets.refl (dbs.find j k')).set v expireMs
      rw [setEntry, storedVersion] at hentry
      cases h : dbs.find j k' with
      | none =>
        rw [h] at hentry
        exact hentry
      | some e =>
        rw [h] at hentry
        exact hentry
  · obtain ⟨e, he⟩ := Keyspace.read_db_error (Nat.le_of_not_lt hi) notified
    rw [Keyspace.set, Proc.bind_error he]
    exact onlySets_refl dbs

/-! ### The commands that call it -/

/-- The names of the commands that write through `Store::set`. -/
def setNames : List String :=
  ["SET", "MSET", "INCR", "INCRBY", "DECR", "DECRBY", "APPEND", "SETRANGE", "GETSET"]

namespace Cmd

variable (env : Env) (i : ℕ) (args : List Bytes)

/-- Parsing, then the rest. -/
theorem onlySets_lift {α β : Type} {x : Except Failure α} {f : α → KeyM β}
    (h : ∀ a, Moves KeyOnlySets (f a)) : Moves KeyOnlySets (lift x >>= f) :=
  (moves_ofExcept x).bind h

/-- Reading, then the rest. -/
theorem onlySets_read {α β : Type} {g : Databases → Except VeloDBError α} {f : α → KeyM β}
    (h : ∀ a, Moves KeyOnlySets (f a)) : Moves KeyOnlySets (Keyspace.read g >>= f) :=
  (Keyspace.moves_read g).bind h

/-- A call of `Store::set`, then a reply. -/
theorem onlySets_reply (k v : Bytes) (expireMs : Option UInt64) (r : RespValue) :
    Moves KeyOnlySets (Keyspace.set i k v expireMs >>= fun _ => pure r) :=
  (onlySets_set i k v expireMs).bind fun _ => moves_pure r

theorem onlySets_setCmd : Moves KeyOnlySets (set env i args) := by
  refine onlySets_lift fun flags => onlySets_lift fun key => onlySets_lift fun value => ?_
  split
  · refine onlySets_read fun found => ?_
    split
    · exact moves_pure _
    · exact onlySets_reply i key value _ _
  · exact onlySets_reply i key value _ _

theorem onlySets_mset : Moves KeyOnlySets (mset env i args) := by
  rw [mset]
  split
  · exact (Keyspace.moves_throw _).bind fun _ => (moves_each fun p _ => onlySets_set i p.1 p.2 _).bind
      fun _ => moves_pure _
  · exact (moves_each fun p _ => onlySets_set i p.1 p.2 _).bind fun _ => moves_pure _

theorem onlySets_incrFn (key : Bytes) (by_ : Int64) : Moves KeyOnlySets (incrFn env i key by_) :=
  onlySets_read fun _ => onlySets_lift fun _ => onlySets_reply i key _ _ _

theorem onlySets_incr : Moves KeyOnlySets (incr env i args) :=
  onlySets_lift fun key => onlySets_incrFn env i key 1

theorem onlySets_incrby : Moves KeyOnlySets (incrby env i args) :=
  onlySets_lift fun _ => onlySets_lift fun by_ => onlySets_lift fun key =>
    onlySets_incrFn env i key by_

theorem onlySets_decr : Moves KeyOnlySets (decr env i args) :=
  onlySets_lift fun key => onlySets_incrFn env i key (-1)

theorem onlySets_decrby : Moves KeyOnlySets (decrby env i args) :=
  onlySets_lift fun _ => onlySets_lift fun by_ => onlySets_lift fun key =>
    onlySets_incrFn env i key (-by_)

theorem onlySets_append : Moves KeyOnlySets (append env i args) :=
  onlySets_lift fun key => onlySets_read fun _ => onlySets_lift fun _ => onlySets_reply i key _ _ _

theorem onlySets_setrange : Moves KeyOnlySets (setrange env i args) := by
  refine onlySets_lift fun offset => onlySets_lift fun key => onlySets_read fun v =>
    onlySets_lift fun patch => ?_
  split
  · exact onlySets_reply i key _ _ _
  · exact moves_fail _

theorem onlySets_getset : Moves KeyOnlySets (getset env i args) :=
  onlySets_lift fun key => onlySets_read fun _ => onlySets_lift fun _ => onlySets_reply i key _ _ _

end Cmd

/-- A handler that changes the databases, if at all, by calls of `Store::set` only. -/
def Handler.OnlySets : Handler → Prop
  | .read _ | .side _ => True
  | .write f => ∀ env i args, Moves KeyOnlySets (f env i args)
  | .whole _ | .exec | .eval | .evalsha => False

/-- The handler has no way to change a database. -/
def Handler.leavesDatabases : Handler → Bool
  | .read _ | .side _ => true
  | _ => false

/-- The command writes through `Store::set`, or not at all. -/
def setsOnly (name : String) : Bool :=
  name ∈ setNames || (findCommand name).all fun c => c.handler.leavesDatabases

theorem onlySets_commands {c : CommandDef} (hc : c ∈ commands) (hname : c.name ∈ setNames) :
    c.handler.OnlySets := by
  have hdefs : ∀ name ∈ setNames, ∃ c ∈ commands, c.name = name ∧ c.handler.OnlySets := by
    simp only [setNames, List.forall_mem_cons]
    refine ⟨⟨⟨"SET", -3, .write Cmd.set⟩, ?_, rfl, Cmd.onlySets_setCmd⟩,
      ⟨⟨"MSET", -3, .write Cmd.mset⟩, ?_, rfl, Cmd.onlySets_mset⟩,
      ⟨⟨"INCR", 2, .write Cmd.incr⟩, ?_, rfl, Cmd.onlySets_incr⟩,
      ⟨⟨"INCRBY", 3, .write Cmd.incrby⟩, ?_, rfl, Cmd.onlySets_incrby⟩,
      ⟨⟨"DECR", 2, .write Cmd.decr⟩, ?_, rfl, Cmd.onlySets_decr⟩,
      ⟨⟨"DECRBY", 3, .write Cmd.decrby⟩, ?_, rfl, Cmd.onlySets_decrby⟩,
      ⟨⟨"APPEND", 3, .write Cmd.append⟩, ?_, rfl, Cmd.onlySets_append⟩,
      ⟨⟨"SETRANGE", 4, .write Cmd.setrange⟩, ?_, rfl, Cmd.onlySets_setrange⟩,
      ⟨⟨"GETSET", 3, .write Cmd.getset⟩, ?_, rfl, Cmd.onlySets_getset⟩,
      List.forall_mem_nil _⟩ <;> simp [commands, Cmd.stringCommands]
  exact of_definitions hdefs hc hname

theorem onlySets_of_setsOnly {c : CommandDef} (hc : findCommand c.name = some c)
    (hname : setsOnly c.name = true) : c.handler.OnlySets := by
  rw [setsOnly, hc, Bool.or_eq_true, decide_eq_true_eq] at hname
  rcases hname with hname | hleaves
  · exact onlySets_commands (mem_of_findCommand hc).1 hname
  · rw [Option.all_some] at hleaves
    cases hh : c.handler with
    | read f | side f => trivial
    | write f | whole f | exec | eval | evalsha =>
      rw [hh] at hleaves
      cases hleaves

/-- **The commands that write through `Store::set`, or not at all.** -/
theorem onlySets_dispatchDepth (env : Env) (depth : ℕ) {name : String}
    (hname : setsOnly name = true) (args : List Bytes) :
    Moves WholeOnlySets (dispatchDepth env depth name args) := by
  intro w
  cases depth with
  | zero => exact onlySets_refl _
  | succ depth =>
    rcases dispatchDepth_snd env depth name args w with h | ⟨c, hc, rfl, h⟩
    · rw [h]
      exact onlySets_refl _
    · rw [h]
      have hsets := onlySets_of_setsOnly (findCommand_of_mem hc) hname
      cases hh : c.handler with
      | read f | side f => exact onlySets_refl _
      | write f =>
        rw [hh] at hsets
        exact hsets env w.ctx.dbIndex args { databases := w.store.databases }
      | whole f | exec | eval | evalsha =>
        rw [hh] at hsets
        exact hsets.elim

/-! ### What a client watches -/

/-- The client watches these keys, for which it has seen these versions. -/
structure Watches (c : ClientContext) (l : List (Bytes × ℕ)) : Prop where
  keys : c.watchedKeys = l.map Prod.fst
  versions : c.watchedVersions = l.map Prod.snd

/-- More keys. -/
theorem Watches.add {c : ClientContext} {l : List (Bytes × ℕ)} (hl : Watches c l)
    (keys : List Bytes) (version : Bytes → ℕ) :
    Watches { c with
      watchedKeys := c.watchedKeys ++ keys
      watchedVersions := c.watchedVersions ++ keys.map version }
      (l ++ keys.map fun key => (key, version key)) where
  keys := by
    have hfst : (keys.map fun key => (key, version key)).map Prod.fst = keys := by
      rw [List.map_map]
      exact List.map_id _
    rw [List.map_append, hfst, hl.keys]
  versions := by
    rw [List.map_append, List.map_map, hl.versions]
    rfl

/-- What the client watches, it still watches. -/
def KeepsWatch (c c' : ClientContext) : Prop := ∀ l, Watches c l → ∃ l', Watches c' (l ++ l')

theorem KeepsWatch.of_eq {c c' : ClientContext} (hkeys : c'.watchedKeys = c.watchedKeys)
    (hversions : c'.watchedVersions = c.watchedVersions) : KeepsWatch c c' := by
  intro l hl
  rw [← List.append_nil l] at hl
  exact ⟨[], hkeys.trans hl.keys, hversions.trans hl.versions⟩

theorem KeepsWatch.trans {c c' c'' : ClientContext} (h : KeepsWatch c c')
    (h' : KeepsWatch c' c'') : KeepsWatch c c'' := by
  intro l hl
  obtain ⟨l', hl'⟩ := h l hl
  obtain ⟨l'', hl''⟩ := h' _ hl'
  exact ⟨l' ++ l'', by rwa [← List.append_assoc]⟩

/-- `KeepsWatch`, of a command on the context. -/
def SideKeepsWatch (s s' : Side) : Prop := KeepsWatch s.ctx s'.ctx

/-- `KeepsWatch`, of a command on everything. -/
def WholeKeepsWatch (w w' : Whole) : Prop := KeepsWatch w.ctx w'.ctx

instance : Std.Refl SideKeepsWatch := ⟨fun _ => .of_eq rfl rfl⟩

instance : IsTrans Side SideKeepsWatch := ⟨fun _ _ _ => KeepsWatch.trans⟩

instance : Std.Refl WholeKeepsWatch := ⟨fun _ => .of_eq rfl rfl⟩

instance : IsTrans Whole WholeKeepsWatch := ⟨fun _ _ _ => KeepsWatch.trans⟩

namespace Cmd

variable (env : Env) (dbs : Databases) (args : List Bytes)

theorem ignoresTables_keepsWatch : IgnoresTables SideKeepsWatch := fun _ _ => .of_eq rfl rfl

theorem ignoresStore_keepsWatch : IgnoresStore WholeKeepsWatch := fun _ _ => .of_eq rfl rfl

theorem tolerant_keepsWatch : Tolerant SideKeepsWatch where
  pubSub _ _ := .of_eq rfl rfl
  scripts _ _ := .of_eq rfl rfl
  cursors _ _ _ := .of_eq rfl rfl
  ctx _ _ := .of_eq

/-- **`WATCH`** watches its arguments, too. -/
theorem keeps_watch : Moves SideKeepsWatch (watch env dbs args) := by
  have hctx : Moves SideKeepsWatch (modifyCtx fun c => if c.multiMode then c else { c with
      watchedKeys := c.watchedKeys ++ args
      watchedVersions := c.watchedVersions ++
        args.map fun key => (versionOf env.now dbs c.dbIndex key).getD 0 }) := by
    intro s l hl
    rw [modifyCtx, Proc.modify_run]
    dsimp only
    split
    · exact ⟨[], by rwa [List.append_nil]⟩
    · exact ⟨_, hl.add args _⟩
  exact hctx.bind fun _ => moves_pure _

theorem keeps_onKeyspace {α : Type} (m : KeyM α) : Moves WholeKeepsWatch (onKeyspace m) :=
  fun _ => .of_eq rfl rfl

theorem keeps_blockingPop (pop : UInt64 → ℕ → Bytes → KeyM (Option Bytes))
    (direction : PopDirection) :
    Moves WholeKeepsWatch (blockingPop pop direction env args) := by
  refine moves_check fun _ => moves_get.bind fun w => (keeps_onKeyspace _).bind fun o => ?_
  cases o with
  | some p => exact moves_pure _
  | none =>
    dsimp only
    split
    · exact moves_pure _
    · exact fun _ => .of_eq rfl rfl

end Cmd

/-! ### The command table -/

/-- A handler after which a client still watches what it has watched. -/
def Handler.KeepsWatch : Handler → Prop
  | .side f => ∀ env dbs args, Moves SideKeepsWatch (f env dbs args)
  | .whole f => ∀ env args, Moves WholeKeepsWatch (f env args)
  | .exec => False
  | .read _ | .write _ | .eval | .evalsha => True

/-- The commands that end a watch. -/
def endNames : List String := ["EXEC", "DISCARD", "UNWATCH"]

section

open Cmd

theorem keeps_serverCommands : ∀ c ∈ serverCommands, c.handler.KeepsWatch := by
  simp only [serverCommands, List.forall_mem_cons]
  exact ⟨trivial, trivial, trivial, tolerant_keepsWatch.select, trivial, trivial, trivial,
    List.forall_mem_nil _⟩

theorem keeps_genericCommands : ∀ c ∈ genericCommands, c.handler.KeepsWatch := by
  simp only [genericCommands, List.forall_mem_cons]
  exact ⟨trivial, trivial, trivial, trivial, trivial, trivial, trivial, trivial, trivial, trivial,
    trivial, trivial, trivial, trivial, trivial, trivial, trivial, tolerant_keepsWatch.scanCmd,
    trivial, trivial, trivial, List.forall_mem_nil _⟩

theorem keeps_listCommands : ∀ c ∈ listCommands, c.handler.KeepsWatch := by
  simp only [listCommands, List.forall_mem_cons]
  exact ⟨trivial, trivial, trivial, trivial, trivial, trivial, trivial, trivial, trivial, trivial,
    fun env args => keeps_blockingPop env args _ _, fun env args => keeps_blockingPop env args _ _,
    List.forall_mem_nil _⟩

theorem keeps_streamCommands : ∀ c ∈ streamCommands, c.handler.KeepsWatch := by
  simp only [streamCommands, List.forall_mem_cons]
  exact ⟨trivial, trivial, trivial, trivial, trivial, trivial, trivial,
    ignoresStore_keepsWatch.xgroup, ignoresTables_keepsWatch.xreadgroup,
    ignoresTables_keepsWatch.xack, IgnoresTables.xpending, ignoresTables_keepsWatch.xclaim,
    List.forall_mem_nil _⟩

theorem keeps_pubsubCommands : ∀ c ∈ pubsubCommands, c.handler.KeepsWatch := by
  simp only [pubsubCommands, List.forall_mem_cons]
  exact ⟨tolerant_keepsWatch.subscribe, tolerant_keepsWatch.unsubscribe,
    tolerant_keepsWatch.psubscribe, tolerant_keepsWatch.punsubscribe, tolerant_keepsWatch.publish,
    List.forall_mem_nil _⟩

theorem keeps_transactionCommands :
    ∀ c ∈ transactionCommands, c.name ∉ endNames → c.handler.KeepsWatch := by
  simp only [transactionCommands, List.forall_mem_cons]
  exact ⟨fun _ => tolerant_keepsWatch.multi, fun h => absurd (by decide) h,
    fun h => absurd (by decide) h, fun _ => keeps_watch, fun h => absurd (by decide) h,
    List.forall_mem_nil _⟩

theorem keeps_luaCommands : ∀ c ∈ luaCommands, c.handler.KeepsWatch := by
  simp only [luaCommands, List.forall_mem_cons]
  exact ⟨trivial, trivial, tolerant_keepsWatch.scriptCmd, List.forall_mem_nil _⟩

/-- All commands but those that end a watch. -/
theorem keeps_commands {c : CommandDef} (hc : c ∈ commands) (hname : c.name ∉ endNames) :
    c.handler.KeepsWatch := by
  have hplain : ∀ c ∈ stringCommands ++ setCommands ++ hashCommands ++ zsetCommands ++
      nestedHashCommands ++ clusterCommands, c.handler.KeepsWatch := by
    simp only [stringCommands, setCommands, hashCommands, zsetCommands, nestedHashCommands,
      clusterCommands, List.cons_append, List.nil_append, List.forall_mem_cons]
    simp [Handler.KeepsWatch]
  simp only [List.mem_append] at hplain
  simp only [commands, List.mem_append, or_assoc] at hc
  rcases hc with hc | hc | hc | hc | hc | hc | hc | hc | hc | hc | hc | hc | hc
  · exact keeps_serverCommands c hc
  · exact hplain c (by simp [hc])
  · exact keeps_genericCommands c hc
  · exact keeps_listCommands c hc
  · exact hplain c (by simp [hc])
  · exact hplain c (by simp [hc])
  · exact hplain c (by simp [hc])
  · exact keeps_streamCommands c hc
  · exact hplain c (by simp [hc])
  · exact keeps_pubsubCommands c hc
  · exact keeps_transactionCommands c hc hname
  · exact keeps_luaCommands c hc
  · exact hplain c (by simp [hc])

end

/-- **A command of a client that watches keys.** -/
theorem keeps_dispatchDepth (env : Env) (depth : ℕ) {name : String} (hname : name ∉ endNames)
    (args : List Bytes) : Moves WholeKeepsWatch (dispatchDepth env depth name args) := by
  intro w
  cases depth with
  | zero => exact .of_eq rfl rfl
  | succ depth =>
    rcases dispatchDepth_snd env depth name args w with h | ⟨c, hc, rfl, h⟩
    · rw [h]
      exact .of_eq rfl rfl
    · rw [h]
      have hkeeps := keeps_commands hc hname
      cases hh : c.handler with
      | read f | write f => exact .of_eq rfl rfl
      | side f =>
        rw [hh] at hkeeps
        exact hkeeps env w.store.databases args { tables := w.store.tables, ctx := w.ctx }
      | whole f =>
        rw [hh] at hkeeps
        exact hkeeps env args w
      | exec =>
        rw [hh] at hkeeps
        exact hkeeps.elim
      | eval => exact Cmd.ignoresStore_keepsWatch.evalCmd env args _ w
      | evalsha => exact Cmd.ignoresStore_keepsWatch.evalshaCmd env args _ w

/-! ### Every command -/

/-- The client watches some keys, each with a version. -/
def Paired (c : ClientContext) : Prop := ∃ l, Watches c l

theorem KeepsWatch.paired {c c' : ClientContext} (h : KeepsWatch c c') (hc : Paired c) :
    Paired c' := by
  obtain ⟨l, hl⟩ := hc
  obtain ⟨l', hl'⟩ := h l hl
  exact ⟨l ++ l', hl'⟩

/-- `Paired`, of a command on everything. -/
def WholePaired (w w' : Whole) : Prop := Paired w.ctx → Paired w'.ctx

instance : Std.Refl WholePaired := ⟨fun _ => id⟩

instance : IsTrans Whole WholePaired := ⟨fun _ _ _ h h' => h' ∘ h⟩

theorem end_commands {c : CommandDef} (hc : c ∈ commands) (hname : c.name ∈ endNames) :
    c.handler = .exec ∨ ∃ f, c.handler = .side f ∧
      ∀ env dbs args s, Paired (f env dbs args s).2.ctx := by
  have hdefs : ∀ name ∈ endNames, ∃ c ∈ commands, c.name = name ∧ (c.handler = .exec ∨
      ∃ f, c.handler = .side f ∧ ∀ env dbs args s, Paired (f env dbs args s).2.ctx) := by
    simp only [endNames, List.forall_mem_cons]
    refine ⟨⟨⟨"EXEC", 1, .exec⟩, ?_, rfl, Or.inl rfl⟩,
      ⟨⟨"DISCARD", 1, .side Cmd.discard⟩, ?_, rfl, Or.inr ⟨_, rfl, fun _ _ _ _ => ⟨[], rfl, rfl⟩⟩⟩,
      ⟨⟨"UNWATCH", 1, .side Cmd.unwatch⟩, ?_, rfl, Or.inr ⟨_, rfl, fun _ _ _ _ => ⟨[], rfl, rfl⟩⟩⟩,
      List.forall_mem_nil _⟩ <;> simp [commands, Cmd.transactionCommands]
  exact of_definitions (P := fun c => c.handler = .exec ∨ ∃ f, c.handler = .side f ∧
    ∀ env dbs args s, Paired (f env dbs args s).2.ctx) hdefs hc hname

/-- **Every command** leaves as many versions as keys, those that run other commands, too. -/
theorem paired_dispatchDepth (env : Env) (depth : ℕ) (name : String) (args : List Bytes) :
    Moves WholePaired (dispatchDepth env depth name args) := by
  induction depth generalizing name args with
  | zero => exact moves_fail _
  | succ depth ih =>
    intro w hw
    by_cases hname : name ∈ endNames
    · rcases dispatchDepth_snd env depth name args w with h | ⟨c, hc, rfl, h⟩
      · rwa [h]
      · rw [h]
        rcases end_commands hc hname with h | ⟨f, h, hpaired⟩
        · rw [h]
          exact Cmd.moves_exec env (fun _ _ => ⟨[], rfl, rfl⟩) ih w hw
        · rw [h]
          exact hpaired env _ args _
    · exact (keeps_dispatchDepth env (depth + 1) hname args w).paired hw

/-! ### `EXEC` -/

/-- The loop of `EXEC` finds every key with the version that `WATCH` has seen. -/
theorem checkWatched_eq (now : UInt64) (dbs : Databases) (i : ℕ) (l : List (Bytes × ℕ)) :
    Cmd.checkWatched now dbs i (l.map Prod.fst) (l.map Prod.snd)
      = .ok (l.all fun p => Cmd.versionOf now dbs i p.1 == some p.2) := by
  induction l with
  | nil => rfl
  | cons p l ih =>
    rw [List.map_cons, List.map_cons, Cmd.checkWatched, List.all_cons]
    cases Cmd.versionOf now dbs i p.1 with
    | none => rfl
    | some current =>
      dsimp only
      rw [ih]
      by_cases hcur : current = p.2
      · simp [hcur]
      · simp [hcur]

/-- **When `EXEC` is refused**: a watched key has another version by now. -/
theorem dispatch_exec_refused (env : Env) {w : Whole} {l : List (Bytes × ℕ)}
    (hl : Watches w.ctx l) (hmulti : w.ctx.multiMode = true) {p : Bytes × ℕ} (hp : p ∈ l)
    (hchanged : Cmd.versionOf env.now w.store.databases w.ctx.dbIndex p.1 ≠ some p.2) :
    dispatch env "EXEC" [] w
      = (.ok (.array none), { w with ctx := Cmd.takeTransaction w.ctx }) := by
  have hmem : (⟨"EXEC", 1, .exec⟩ : CommandDef) ∈ commands := by
    simp [commands, Cmd.transactionCommands]
  have hcheck : (l.all fun p => Cmd.versionOf env.now w.store.databases w.ctx.dbIndex p.1
      == some p.2) = false := by
    rw [List.all_eq_false]
    exact ⟨p, hp, by simpa using hchanged⟩
  have hgate : w.store.tables.deniesMemory "EXEC" = false :=
    w.store.tables.deniesMemory_of_allowed (by decide)
  have hexec : Handler.run (dispatchDepth env env.nesting) env [] .exec w
      = (.ok (.array none), { w with ctx := Cmd.takeTransaction w.ctx }) := by
    rw [Handler.run, Cmd.exec, Proc.get_bind, hl.keys, hl.versions, checkWatched_eq, hcheck, hmulti]
    rfl
  have hrun : dispatch env "EXEC" [] w
      = catchError (Handler.run (dispatchDepth env env.nesting) env [] .exec) w :=
    dispatch_eq hmem env hgate rfl
  rw [hrun, catchError, hexec]

end VeloDB
