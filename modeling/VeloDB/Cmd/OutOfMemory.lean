import VeloDB.Cmd.GroupCalls
import VeloDB.Cmd.Local
import VeloDB.Cmd.Pending
import VeloDB.Cmd.Trace
import VeloDB.Store.Lighter

/-!
# The memory gate

Under `noeviction` a store that is over its limit refuses the commands that are listed as needing
memory. What the gate looks at is changed by no command, so it stays closed through a whole
transaction. Of the commands that it lets through, only `XGROUP CREATE` with `MKSTREAM` can add
anything.

## Main results

* `sameGate_commands` — no command changes what the gate looks at
* `lighter_commands` — what the commands that are let through write makes the store no heavier
* `coversGrowth_iff` — when a command does not increase the estimate
-/

namespace VeloDB

open Rust Proc

/-! ### What the gate looks at -/

/-- The gate is closed. -/
def Tables.Gated (t : Tables) : Prop := t.overMemoryLimit = true ∧ t.evictionPolicy = .noEviction

theorem Tables.Gated.deniesMemory {t : Tables} (h : t.Gated) (name : String) :
    t.deniesMemory name = isDenyOomCommand name := by
  rw [Tables.deniesMemory, h.1, h.2]
  simp

/-- The limit, the policy and the estimate that the gate looks at are as before. -/
structure SameGate (t t' : Tables) : Prop where
  maxmemory : t'.maxmemory = t.maxmemory
  evictionPolicy : t'.evictionPolicy = t.evictionPolicy
  cachedMemoryUsage : t'.cachedMemoryUsage = t.cachedMemoryUsage

namespace SameGate

instance : Std.Refl SameGate := ⟨fun _ => ⟨rfl, rfl, rfl⟩⟩

instance : IsTrans Tables SameGate := ⟨fun _ _ _ h h' => ⟨h'.maxmemory.trans h.maxmemory,
  h'.evictionPolicy.trans h.evictionPolicy, h'.cachedMemoryUsage.trans h.cachedMemoryUsage⟩⟩

theorem gated {t t' : Tables} (h : SameGate t t') (ht : t.Gated) : t'.Gated := by
  rw [Tables.Gated, Tables.overMemoryLimit] at ht ⊢
  rwa [h.maxmemory, h.evictionPolicy, h.cachedMemoryUsage]

theorem looksPast : LooksPast SameGate where
  waits _ _ _ := ⟨rfl, rfl, rfl⟩
  pubSub _ _ := ⟨rfl, rfl, rfl⟩
  scripts _ _ := ⟨rfl, rfl, rfl⟩
  cursors _ _ _ := ⟨rfl, rfl, rfl⟩

theorem updateGroup {α : Type} (i : ℕ) (k : Bytes) (group : String) (missing : Except Failure α)
    (f : ConsumerGroup → α × ConsumerGroup) :
    Moves SameGate (Tables.updateGroup i k group missing f) := by
  intro t
  rcases Tables.updateGroup_cases i k group missing f t with ⟨-, h⟩ | ⟨g, -, h⟩
  · rw [h]
    exact refl_of SameGate t
  · rw [h]
    exact ⟨rfl, rfl, rfl⟩

end SameGate

theorem GroupCall.sameGate (now : UInt64) (i : ℕ) (k : Bytes) (group : String) (s : Store)
    (c : GroupCall) : SameGate s.tables (c.run now i k group s).tables := by
  cases c with
  | create startId mkstream =>
    rcases xgroupCreate_cases now i k group startId mkstream ⟨s, {}⟩ with ⟨e, h⟩ | ⟨dbs, -, h⟩
    · rw [run, h]
      exact refl_of SameGate s.tables
    · rw [run, h]
      exact ⟨rfl, rfl, rfl⟩
  | destroy => exact ⟨rfl, rfl, rfl⟩
  | createConsumer consumer => exact SameGate.updateGroup i k group _ _ s.tables
  | delConsumer consumer => exact SameGate.updateGroup i k group _ _ s.tables
  | read consumer start count noack =>
    rw [run]
    cases start with
    | new =>
      rcases Tables.xreadgroup_new_cases now s.databases i k group consumer count noack s.tables
        with ⟨e, h⟩ | ⟨g, all, -, -, h⟩
      · rw [h]
        exact refl_of SameGate s.tables
      · rw [h]
        exact ⟨rfl, rfl, rfl⟩
    | history after =>
      rcases Tables.xreadgroup_history_cases now s.databases i k group consumer count noack s.tables
        after with h | ⟨g, -, h⟩
      · rw [h]
        exact refl_of SameGate s.tables
      · rw [h]
        exact ⟨rfl, rfl, rfl⟩
  | ack ids => exact SameGate.updateGroup i k group _ _ s.tables
  | claim consumer minIdleMs ids justid =>
    rw [run, Tables.xclaim_snd]
    exact SameGate.updateGroup i k group _ _ s.tables

/-- **No command** changes what the gate looks at. -/
theorem sameGate_commands {c : CommandDef} (hc : c ∈ commands) :
    c.handler.MovesAlong (OnWhole SameGate) := by
  by_cases hname : c.name ∈ groupNames
  · refine of_definitions (P := fun c => c.handler.MovesAlong (OnWhole SameGate)) ?_ hc hname
    simp only [groupNames, List.forall_mem_cons]
    refine ⟨⟨⟨"XGROUP", -2, .whole Cmd.xgroup⟩, ?_, rfl, fun env args w => ?_⟩,
      ⟨⟨"XREADGROUP", -7, .side Cmd.xreadgroup⟩, ?_, rfl, onWhole_side fun env dbs args =>
        Cmd.moves_xreadgroup env dbs args fun i k group consumer start count noack s =>
          GroupCall.sameGate env.now i k group ⟨dbs, s.tables⟩ (.read consumer start count noack)⟩,
      ⟨⟨"XACK", -4, .side Cmd.xack⟩, ?_, rfl, onWhole_side fun env dbs args =>
        Cmd.moves_xack env dbs args fun i k group ids s =>
          GroupCall.sameGate env.now i k group ⟨dbs, s.tables⟩ (.ack ids)⟩,
      ⟨⟨"XCLAIM", -6, .side Cmd.xclaim⟩, ?_, rfl, onWhole_side fun env dbs args =>
        Cmd.moves_xclaim env dbs args fun i k group consumer minIdleMs ids justid s =>
          GroupCall.sameGate env.now i k group ⟨dbs, s.tables⟩
            (.claim consumer minIdleMs ids justid)⟩,
      List.forall_mem_nil _⟩
    · simp [commands, Cmd.streamCommands]
    · rw [OnWhole, Cmd.xgroup_store]
      cases Cmd.xgroupCall env args with
      | none => exact refl_of SameGate _
      | some p => exact GroupCall.sameGate env.now _ _ _ _ _
    all_goals simp [commands, Cmd.streamCommands]
  · exact SameGate.looksPast.along_commands hc hname

/-! ### What is written behind the gate -/

namespace Lighter

open Keyspace

variable (env : Env) (i : ℕ) (args : List Bytes)

theorem del : Moves Lighter (Cmd.del env i args) :=
  moves_replied (moves_foldEach (fun _ _ _ => lighter_del.bind fun _ => moves_pure _) 0) _

theorem expireWith (time : UInt64 → UInt64) : Moves Lighter (Cmd.expireWith time i args) :=
  moves_parsed fun _ => moves_parsed fun _ => moves_replied (lighter_changeExpire _) _

theorem persist : Moves Lighter (Cmd.persist env i args) :=
  moves_parsed fun _ => moves_replied (lighter_changeExpire none) _

theorem xdel : Moves Lighter (Cmd.xdel env i args) :=
  moves_parsed fun _ => moves_parsed fun k => moves_replied (lighter_xdel env.now i k _) _

theorem xtrim : Moves Lighter (Cmd.xtrim env i args) := by
  rw [Cmd.xtrim]
  dsimp only
  split
  · exact moves_throw _
  · exact moves_parsed fun _ => moves_parsed fun k => moves_replied (lighter_xtrim env.now i k _) _

end Lighter

open Lighter Keyspace in
/-- **What is let through makes the store no heavier.** -/
theorem lighter_commands (i : ℕ) : ∀ c ∈ commands, isDenyOomCommand c.name = false →
    c.handler.WritesAlong Lighter i := by
  have hdenied : ∀ {name : String} {h : Handler}, isDenyOomCommand name = true →
      isDenyOomCommand name = false → h.WritesAlong Lighter i := by
    intro name h htrue hfalse
    cases htrue.symm.trans hfalse
  have hserver : ∀ c ∈ Cmd.serverCommands, isDenyOomCommand c.name = false →
      c.handler.WritesAlong Lighter i := by
    simp only [Cmd.serverCommands, List.forall_mem_cons]
    exact ⟨fun _ => trivial, fun _ => trivial, fun _ => trivial, fun _ => trivial,
      fun _ _ args => moves_info (fun _ => lighter_dbsize _) i args, fun _ => trivial,
      fun _ => trivial, List.forall_mem_nil _⟩
  have hstring : ∀ c ∈ Cmd.stringCommands, isDenyOomCommand c.name = false →
      c.handler.WritesAlong Lighter i := by
    simp only [Cmd.stringCommands, List.forall_mem_cons]
    exact ⟨fun _ => trivial, hdenied (by decide), fun _ => trivial, hdenied (by decide),
      hdenied (by decide), hdenied (by decide), hdenied (by decide), hdenied (by decide),
      hdenied (by decide), fun _ => trivial, fun _ => trivial, hdenied (by decide),
      hdenied (by decide), List.forall_mem_nil _⟩
  have hgeneric : ∀ c ∈ Cmd.genericCommands, isDenyOomCommand c.name = false →
      c.handler.WritesAlong Lighter i := by
    simp only [Cmd.genericCommands, List.forall_mem_cons]
    exact ⟨fun _ env args => del env i args, fun _ => trivial, fun _ _ args => expireWith i args _,
      fun _ _ args => expireWith i args _, fun _ _ args => expireWith i args _,
      fun _ _ args => expireWith i args _, fun _ => trivial, fun _ => trivial,
      fun _ env args => persist env i args, fun _ => trivial, hdenied (by decide),
      hdenied (by decide), fun _ => trivial,
      fun _ env _ => moves_replied (lighter_dbsize env.now) _,
      fun _ _ _ => moves_replied lighter_flushdb _, fun _ _ _ => moves_replied lighter_flushall _,
      fun _ => trivial, fun _ => trivial, fun _ => trivial, fun _ => trivial, fun _ => trivial,
      List.forall_mem_nil _⟩
  have hlist : ∀ c ∈ Cmd.listCommands, isDenyOomCommand c.name = false →
      c.handler.WritesAlong Lighter i := by
    simp only [Cmd.listCommands, List.forall_mem_cons]
    exact ⟨hdenied (by decide), hdenied (by decide),
      fun _ env _ => moves_parsed fun k => moves_replied (lighter_lpopOne env.now i k) _,
      fun _ env _ => moves_parsed fun k => moves_replied (lighter_rpopOne env.now i k) _,
      fun _ => trivial, fun _ => trivial, fun _ => trivial, hdenied (by decide),
      fun _ env _ => moves_parsed fun _ => moves_parsed fun _ => moves_parsed fun k =>
        moves_replied (lighter_ltrim env.now i k _ _) _,
      fun _ env _ => moves_parsed fun _ => moves_parsed fun k => moves_parsed fun _ =>
        moves_replied (lighter_lrem env.now i k _ _) _, fun _ => trivial, fun _ => trivial,
      List.forall_mem_nil _⟩
  have hset : ∀ c ∈ Cmd.setCommands, isDenyOomCommand c.name = false →
      c.handler.WritesAlong Lighter i := by
    simp only [Cmd.setCommands, List.forall_mem_cons]
    exact ⟨hdenied (by decide),
      fun _ env _ => moves_parsed fun k => moves_parsed fun _ =>
        moves_replied (lighter_srem env.now i k _) _,
      fun _ => trivial, fun _ => trivial, fun _ => trivial, fun _ => trivial, fun _ => trivial,
      fun _ => trivial, fun _ => trivial,
      fun _ env _ => moves_parsed fun k => moves_replied (lighter_spop env.now i k _) _,
      List.forall_mem_nil _⟩
  have hhash : ∀ c ∈ Cmd.hashCommands, isDenyOomCommand c.name = false →
      c.handler.WritesAlong Lighter i := by
    simp only [Cmd.hashCommands, List.forall_mem_cons]
    exact ⟨hdenied (by decide), fun _ => trivial,
      fun _ env _ => moves_parsed fun k => moves_parsed fun _ =>
        moves_replied (lighter_hdel env.now i k _) _,
      fun _ => trivial, fun _ => trivial, fun _ => trivial, fun _ => trivial, fun _ => trivial,
      hdenied (by decide), List.forall_mem_nil _⟩
  have hzset : ∀ c ∈ Cmd.zsetCommands, isDenyOomCommand c.name = false →
      c.handler.WritesAlong Lighter i := by
    simp only [Cmd.zsetCommands, List.forall_mem_cons]
    exact ⟨hdenied (by decide),
      fun _ env _ => moves_parsed fun k => moves_parsed fun _ =>
        moves_replied (lighter_zrem env.now i k _) _,
      fun _ => trivial, fun _ => trivial, fun _ => trivial, fun _ => trivial, fun _ => trivial,
      fun _ => trivial, List.forall_mem_nil _⟩
  have hstream : ∀ c ∈ Cmd.streamCommands, isDenyOomCommand c.name = false →
      c.handler.WritesAlong Lighter i := by
    simp only [Cmd.streamCommands, List.forall_mem_cons]
    exact ⟨hdenied (by decide), fun _ => trivial, fun _ => trivial, fun _ => trivial,
      fun _ env args => xdel env i args, fun _ env args => xtrim env i args, fun _ => trivial,
      fun _ => trivial, fun _ => trivial, fun _ => trivial, fun _ => trivial, fun _ => trivial,
      List.forall_mem_nil _⟩
  have hnested : ∀ c ∈ Cmd.nestedHashCommands, isDenyOomCommand c.name = false →
      c.handler.WritesAlong Lighter i := by
    simp only [Cmd.nestedHashCommands, List.forall_mem_cons]
    exact ⟨hdenied (by decide), fun _ => trivial,
      fun _ env _ => moves_parsed fun k => moves_parsed fun _ =>
        moves_replied (lighter_nhdel env.now i k _ _) _,
      fun _ => trivial, fun _ => trivial, fun _ => trivial, List.forall_mem_nil _⟩
  have hothers : ∀ c ∈ Cmd.pubsubCommands ++ Cmd.transactionCommands ++ Cmd.luaCommands ++
      Cmd.clusterCommands, isDenyOomCommand c.name = false → c.handler.WritesAlong Lighter i := by
    simp only [Cmd.pubsubCommands, Cmd.transactionCommands, Cmd.luaCommands, Cmd.clusterCommands,
      List.cons_append, List.nil_append, List.forall_mem_cons]
    simp [Handler.WritesAlong]
  exact forall_commands hserver hstring hgeneric hlist hset hhash hzset hstream hnested hothers

theorem lighter_popFirst {pop : Bytes → KeyM (Option Bytes)} (hpop : ∀ k, Moves Lighter (pop k))
    (keys : List Bytes) : Moves Lighter (Cmd.popFirst pop keys) := by
  induction keys with
  | nil => exact moves_pure _
  | cons k keys ih =>
    refine (hpop k).bind fun v => ?_
    cases v with
    | none => exact ih
    | some v => exact moves_pure _

/-- A call on a group makes the store heavier where it makes a stream and nothing is stored. -/
theorem GroupCall.lighter_iff (now : UInt64) (i : ℕ) (k : Bytes) (group : String) (s : Store)
    (c : GroupCall) :
    (c.run now i k group s).databases.estimatedMemory ≤ s.databases.estimatedMemory ↔
      ¬(i < s.databases.length ∧ (∃ startId, c = .create startId true) ∧
        s.databases.find i k = none) := by
  by_cases hmakes : i < s.databases.length ∧ (∃ startId, c = .create startId true) ∧
      s.databases.liveEntry now i k = none
  · obtain ⟨hi, ⟨startId, rfl⟩, hnone⟩ := hmakes
    rw [databases_made hi hnone]
    cases he : s.databases.find i k with
    | none =>
      refine iff_of_false ?_ (not_not.mpr ⟨hi, ⟨startId, rfl⟩, rfl⟩)
      have hput := Databases.weigh_put entrySize s.databases k hi { value := .stream [] 0 0 }
      rw [he, Option.map_none, Option.getD_none, entrySize] at hput
      rw [Databases.estimatedMemory, Databases.estimatedMemory]
      omega
    | some e =>
      -- what has expired there is replaced
      refine iff_of_true ?_ fun h => by cases h.2.2
      have hput : Lighter ⟨s.databases, []⟩ ⟨s.databases.put i k { value := .stream [] 0 0 }, []⟩ :=
        Keyspace.lighter_put he (Nat.zero_le _)
      exact hput
  · rw [databases_kept hmakes]
    refine iff_of_true (Nat.le_refl _) fun h => hmakes ⟨h.1, h.2.1, ?_⟩
    rw [Databases.liveEntry, h.2.2]
    rfl

/-! ### The calls of a command -/

namespace Call

/-- The call adds to the estimate. -/
def Grows (c : Call) : Prop :=
  c.before.store.databases.estimatedMemory < c.after.store.databases.estimatedMemory

/-- The call is an `XGROUP CREATE` with `MKSTREAM` of a key at which nothing is stored. -/
def MakesStream (c : Call) : Prop :=
  c.command.name = "XGROUP" ∧ c.before.ctx.dbIndex < c.before.store.databases.length ∧
    ∃ k group startId, Cmd.xgroupCall c.env c.args = some (k, group, .create startId true) ∧
      c.before.store.databases.find c.before.ctx.dbIndex k = none

/-- The gate stays as it is. -/
theorem gated {c : Call} (hc : c.command ∈ commands) (hleaf : c.command.handler.isLeaf = true)
    (h : c.before.store.tables.Gated) : c.after.store.tables.Gated := by
  have hgate : OnWhole SameGate c.before c.after := along hleaf (sameGate_commands hc)
  exact hgate.gated h

/-- The blocking pops. -/
theorem lighter_blocking {c : CommandDef} (hc : c ∈ commands) (hname : c.name ∈ ["BLPOP", "BRPOP"])
    (args : List Bytes) (env : Env) (w : Whole) : ¬(Call.mk c args env w).Grows := by
  refine of_definitions (P := fun c => ∀ w, ¬(Call.mk c args env w).Grows) ?_ hc hname w
  have hpop : ∀ (pop : UInt64 → ℕ → Bytes → KeyM (Option Bytes)) (direction : PopDirection) w,
      (∀ k, Moves Lighter (pop env.now w.ctx.dbIndex k)) →
      (Cmd.blockingPop pop direction env args w).2.store.databases.estimatedMemory
        ≤ w.store.databases.estimatedMemory := by
    intro pop direction w hpop
    rw [blockingPop_databases]
    exact lighter_popFirst hpop args.dropLast ⟨w.store.databases, []⟩
  simp only [List.forall_mem_cons]
  refine ⟨⟨⟨"BLPOP", -3, .whole Cmd.blpop⟩, ?_, rfl, fun w => Nat.not_lt_of_le ?_⟩,
    ⟨⟨"BRPOP", -3, .whole Cmd.brpop⟩, ?_, rfl, fun w => Nat.not_lt_of_le ?_⟩,
    List.forall_mem_nil _⟩
  · simp [commands, Cmd.listCommands]
  · exact hpop _ _ w fun k => Keyspace.lighter_lpopOne env.now w.ctx.dbIndex k
  · simp [commands, Cmd.listCommands]
  · exact hpop _ _ w fun k => Keyspace.lighter_rpopOne env.now w.ctx.dbIndex k

/-- **The only call that adds anything.** -/
theorem grows_iff {c : Call} (hc : c.command ∈ commands) (hleaf : c.command.handler.isLeaf = true)
    (hallowed : isDenyOomCommand c.command.name = false) : c.Grows ↔ c.MakesStream := by
  obtain ⟨c, args, env, w⟩ := c
  by_cases hname : c.name = "XGROUP"
  · have hhandler : c.handler = .whole Cmd.xgroup := by
      refine of_definitions (P := fun c => c.handler = .whole Cmd.xgroup) ?_ hc
        (List.mem_singleton.mpr hname)
      exact List.forall_mem_singleton.mpr ⟨⟨"XGROUP", -2, .whole Cmd.xgroup⟩,
        by simp [commands, Cmd.streamCommands], rfl, rfl⟩
    have hafter : (Call.mk c args env w).after.store = (Cmd.xgroup env args w).2.store := by
      rw [after, run]
      dsimp only
      rw [hhandler]
      rfl
    rw [Grows, MakesStream, hafter, Cmd.xgroup_store, ← not_le, and_iff_right hname]
    dsimp only
    cases hcall : Cmd.xgroupCall env args with
    | none =>
      refine iff_of_false (not_not.mpr (Nat.le_refl _)) ?_
      rintro ⟨-, k, group, startId, h, -⟩
      cases h
    | some call =>
      obtain ⟨k, group, call⟩ := call
      dsimp only
      rw [GroupCall.lighter_iff, not_not]
      refine and_congr_right fun _ => ⟨?_, ?_⟩
      · rintro ⟨⟨startId, rfl⟩, hnone⟩
        exact ⟨k, group, startId, rfl, hnone⟩
      · rintro ⟨k', group', startId, heq, hnone⟩
        obtain ⟨rfl, h⟩ := Prod.mk.inj (Option.some.inj heq)
        obtain ⟨rfl, rfl⟩ := Prod.mk.inj h
        exact ⟨⟨startId, rfl⟩, hnone⟩
  · refine iff_of_false (Nat.not_lt_of_le ?_) fun h => hname h.1
    have hlighter := lighter_commands w.ctx.dbIndex c hc hallowed
    have hwhole : c.handler.isWhole = true → c.name ∈ ["BLPOP", "BRPOP"] := by
      intro hwhole
      simpa [wholeNames, hname] using wholeNames_of_handler hc hwhole
    rw [after, run]
    dsimp only at hleaf ⊢
    cases hh : c.handler with
    | read f => exact Nat.le_refl _
    | side f => exact Nat.le_refl _
    | exec | eval | evalsha =>
      rw [hh] at hleaf
      cases hleaf
    | write f =>
      rw [hh] at hlighter
      exact hlighter env args ⟨w.store.databases, []⟩
    | whole f =>
      have hpop := Nat.le_of_not_lt (lighter_blocking hc (hwhole (by rw [hh]; rfl)) args env w)
      rw [after, run] at hpop
      dsimp only at hpop
      rwa [hh] at hpop

end Call

/-! ### The commands -/

/-- The commands that only take something away. -/
def deletingNames : List String :=
  ["DEL", "FLUSHDB", "FLUSHALL", "LPOP", "RPOP", "LTRIM", "LREM", "BLPOP", "BRPOP", "SREM", "SPOP",
    "HDEL", "NHDEL", "ZREM", "XDEL", "XTRIM"]

/-- The handler only reads. -/
def Handler.isRead : Handler → Bool
  | .read _ => true
  | _ => false

/-- Neither the command nor one that it runs adds to the estimate, and what only reads or deletes is
executed. -/
structure CoversGrowth (env : Env) (name : String) (args : List Bytes) (w : Whole) : Prop where
  calls : ∀ c ∈ calls env name args w, ¬c.Grows
  total : (dispatch env name args w).2.store.databases.estimatedMemory
    ≤ w.store.databases.estimatedMemory
  executed : ∀ c ∈ commands, c.name = name → c.handler.isRead = true ∨ c.name ∈ deletingNames →
    c.refuses args = false → dispatch env name args w
      = catchError (c.handler.run (dispatchDepth env env.nesting) env args) w

section Covers

variable (env : Env) (name : String) (args : List Bytes) {w : Whole}

/-- Behind the closed gate, what adds anything makes a stream. -/
theorem calls_grow_iff (h : w.store.tables.Gated) :
    ∀ c ∈ calls env name args w, c.Grows ↔ c.MakesStream := by
  have hkeeps : KeepsBy (fun w => w.store.tables.Gated) (fun _ => True)
      (fun c => c.Grows ↔ c.MakesStream) (calls env name args w) w
      (dispatch env name args w).2 := by
    refine keeps_calls ⟨fun _ _ h => h, fun _ _ h => h, fun _ _ h => h⟩
      (fun c hc hleaf _ hallowed _ hgated => ⟨?_, Call.gated hc hleaf hgated⟩) name args w
    rw [Call.Allowed, hgated.deniesMemory] at hallowed
    exact Call.grows_iff hc hleaf hallowed
  exact (hkeeps h fun _ _ => trivial).1

/-- The estimate after a command whose calls add nothing. -/
theorem estimate_le_of_calls (h : ∀ c ∈ calls env name args w, ¬c.Grows) :
    (dispatch env name args w).2.store.databases.estimatedMemory
      ≤ w.store.databases.estimatedMemory := by
  have hkeeps : KeepsBy
      (fun w' => w'.store.databases.estimatedMemory ≤ w.store.databases.estimatedMemory)
      (fun c => ¬c.Grows) (fun _ => True) (calls env name args w) w
      (dispatch env name args w).2 :=
    keeps_calls ⟨fun _ _ h => h, fun _ _ h => h, fun _ _ h => h⟩ (fun c _ _ _ _ hnot hle =>
      ⟨trivial, Nat.le_trans (Nat.le_of_not_lt hnot) hle⟩) name args w
  exact (hkeeps (Nat.le_refl _) h).2

theorem not_denied_of_reads {c : CommandDef} (hc : c ∈ commands)
    (h : c.handler.isRead = true ∨ c.name ∈ deletingNames) : isDenyOomCommand c.name = false := by
  have hall : ∀ c ∈ commands, c.handler.isRead = true ∨ c.name ∈ deletingNames →
      isDenyOomCommand c.name = false := by decide +kernel
  exact hall c hc h

end Covers

/-- **The gate covers all growth** exactly where no call makes a stream: while the store is over its
limit, a command adds to the estimate only through an `XGROUP CREATE` with `MKSTREAM`. -/
theorem coversGrowth_iff (env : Env) (name : String) (args : List Bytes) {w : Whole}
    (h : w.store.tables.Gated) :
    CoversGrowth env name args w ↔ ∀ c ∈ calls env name args w, ¬c.MakesStream := by
  have hgrow := calls_grow_iff env name args h
  constructor
  · exact fun hcovers c hc hmakes => hcovers.calls c hc ((hgrow c hc).mpr hmakes)
  · intro hnone
    have hcalls : ∀ c ∈ calls env name args w, ¬c.Grows :=
      fun c hc hgrows => hnone c hc ((hgrow c hc).mp hgrows)
    refine ⟨hcalls, estimate_le_of_calls env name args hcalls, ?_⟩
    rintro c hc rfl hreads hargs
    refine dispatch_eq hc env ?_ hargs
    rw [h.deniesMemory]
    exact not_denied_of_reads hc hreads

/-- A store that is over its limit of one byte. -/
def overOne : Whole :=
  ⟨⟨(Store.new 1).databases.put 0 [107] { value := .string [118] },
    { maxmemory := 1, cachedMemoryUsage := 66 }⟩, {}⟩

/-- `GET k`. -/
theorem coversGrowth_get :
    CoversGrowth (Moment.on ⟨7, 0, 0, 1⟩ Host.plain) "GET" [[107]] overOne := by
  have hcalls : calls (Moment.on ⟨7, 0, 0, 1⟩ Host.plain) "GET" [[107]] overOne
      = [⟨⟨"GET", 2, .read Cmd.get⟩, [[107]], Moment.on ⟨7, 0, 0, 1⟩ Host.plain, overOne⟩] := rfl
  refine (coversGrowth_iff _ "GET" [[107]] ⟨rfl, rfl⟩).mpr ?_
  rw [hcalls]
  exact List.forall_mem_singleton.mpr fun h => absurd h.1 (by decide)

/-- `XGROUP CREATE s g $ MKSTREAM` makes the stream `s` of 65 bytes. -/
theorem not_coversGrowth_mkstream : overOne.store.tables.Gated ∧
    ¬CoversGrowth (Moment.on ⟨7, 0, 0, 1⟩ Host.plain) "XGROUP"
      (["CREATE", "s", "g", "$", "MKSTREAM"].map asBytes) overOne := by
  refine ⟨⟨rfl, rfl⟩, fun h => ?_⟩
  have hbefore : overOne.store.databases.estimatedMemory = 66 := by decide +kernel
  have hafter : (dispatch (Moment.on ⟨7, 0, 0, 1⟩ Host.plain) "XGROUP"
      (["CREATE", "s", "g", "$", "MKSTREAM"].map asBytes) overOne).2.store.databases.estimatedMemory
      = 131 := by decide +kernel
  have hle := h.total
  rw [hbefore, hafter] at hle
  exact absurd hle (by decide)

end VeloDB
