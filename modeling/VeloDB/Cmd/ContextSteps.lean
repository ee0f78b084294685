import VeloDB.Cmd.Subscriptions

/-!
# What commands do to a context

A command changes the context of its client in one of a few ways, each of which touches fields that
belong together. `ContextStep` lists them. The blocking pops and `EXEC` are apart: the former may
leave a wait for the connection, and the latter runs other commands.

## Main results

* `contextStep_dispatchDepth` — every other command makes one step
* `blockingPop_ctx` — what a blocking pop leaves behind
* `keepsCtx_dispatchDepth` — what every command keeps
-/

namespace VeloDB

open Rust Proc

/-- What a command other than a blocking pop or `EXEC` does to the context of its client. -/
inductive ContextStep : ClientContext → ClientContext → Prop
  | same (c : ClientContext) : ContextStep c c
  | select (c : ClientContext) (n : ℕ) : ContextStep c { c with dbIndex := n }
  | subscribe (c : ClientContext) (channels : List Bytes) (patterns : List String)
    (rx : Option ℕ) (h : channels ≠ [] ∨ patterns ≠ []) : ContextStep c { c with
      subscribedChannels := c.subscribedChannels ++ channels
      subscribedPatterns := c.subscribedPatterns ++ patterns
      pubsubRx := rx
      subMode := true }
  /-- Some channels or patterns are given up, and subscribe mode with the last one. -/
  | unsubscribe (c : ClientContext) {channels : List Bytes} {patterns : List String}
    (rx : Option ℕ) {mode : Bool} (hchannels : channels ⊆ c.subscribedChannels)
    (hpatterns : patterns ⊆ c.subscribedPatterns)
    (hmode : mode = if channels = [] ∧ patterns = [] then false else c.subMode) : ContextStep c
      { c with
        subscribedChannels := channels
        subscribedPatterns := patterns
        pubsubRx := rx
        subMode := mode }
  | multi (c : ClientContext) : ContextStep c { c with multiMode := true, multiQueue := [] }
  | discard (c : ClientContext) : ContextStep c (Cmd.takeTransaction c)
  | watch (c : ClientContext) (l : List (Bytes × ℕ)) : ContextStep c { c with
      watchedKeys := c.watchedKeys ++ l.map Prod.fst
      watchedVersions := c.watchedVersions ++ l.map Prod.snd }
  | unwatch (c : ClientContext) :
    ContextStep c { c with watchedKeys := [], watchedVersions := [] }

namespace ContextStep

variable {c c' : ClientContext}

theorem blockState (h : ContextStep c c') : c'.blockState = c.blockState := by cases h <;> rfl

theorem authenticated (h : ContextStep c c') : c'.authenticated = c.authenticated := by
  cases h <;> rfl

theorem protocol (h : ContextStep c c') : c'.protocol = c.protocol := by cases h <;> rfl

theorem multiQueue (h : ContextStep c c') (hc : c.multiQueue = []) : c'.multiQueue = [] := by
  cases h <;> first | exact hc | rfl

end ContextStep

namespace Cmd

variable (env : Env) (dbs : Databases) (args : List Bytes)

/-! ### The commands that change the context -/

theorem ctx_foldl_subscribeOne (s : Side) : ∃ rx, (args.foldl subscribeOne s).ctx = { s.ctx with
    subscribedChannels := s.ctx.subscribedChannels ++ args
    pubsubRx := rx } := by
  induction args generalizing s with
  | nil => exact ⟨s.ctx.pubsubRx, by simp⟩
  | cons ch args ih =>
    obtain ⟨rx, h⟩ := ih (subscribeOne s ch)
    refine ⟨rx, h.trans ?_⟩
    simp [subscribeOne, withReceiver]

theorem ctx_foldl_psubscribeOne (s : Side) : ∃ rx, (args.foldl psubscribeOne s).ctx = { s.ctx with
    subscribedPatterns := s.ctx.subscribedPatterns ++ args.map fromUtf8Lossy
    pubsubRx := rx } := by
  induction args generalizing s with
  | nil => exact ⟨s.ctx.pubsubRx, by simp⟩
  | cons p args ih =>
    obtain ⟨rx, h⟩ := ih (psubscribeOne s p)
    refine ⟨rx, h.trans ?_⟩
    simp [psubscribeOne, withReceiver]

theorem contextStep_subscribe (s : Side) :
    ContextStep s.ctx (subscribe env dbs args s).2.ctx := by
  by_cases hargs : args = []
  · rw [subscribe, if_pos hargs]
    exact .same _
  · obtain ⟨rx, h⟩ := ctx_foldl_subscribeOne args s
    rw [subscribe_run env dbs args s hargs, enterSubMode, h]
    have hstep := ContextStep.subscribe s.ctx args [] rx (Or.inl hargs)
    rwa [List.append_nil] at hstep

theorem contextStep_psubscribe (s : Side) :
    ContextStep s.ctx (psubscribe env dbs args s).2.ctx := by
  by_cases hargs : args = []
  · rw [psubscribe, if_pos hargs]
    exact .same _
  · obtain ⟨rx, h⟩ := ctx_foldl_psubscribeOne args s
    rw [psubscribe_run env dbs args s hargs, enterSubMode, h]
    have hstep := ContextStep.subscribe s.ctx [] (args.map fromUtf8Lossy) rx
      (Or.inr (List.map_eq_nil_iff.not.mpr hargs))
    rwa [List.append_nil] at hstep

/-- Giving up subscriptions, and then subscribe mode if none is left. -/
theorem contextStep_leftSubMode {s s' : Side} {channels : List Bytes} {patterns : List String}
    (rx : Option ℕ) (hs : s'.ctx = { s.ctx with
      subscribedChannels := channels, subscribedPatterns := patterns, pubsubRx := rx })
    (hchannels : channels ⊆ s.ctx.subscribedChannels)
    (hpatterns : patterns ⊆ s.ctx.subscribedPatterns) :
    ContextStep s.ctx (leftSubMode s').ctx := by
  rw [leftSubMode, hs]
  dsimp only
  split
  · next h =>
    rw [dropReceiver]
    exact .unsubscribe s.ctx none hchannels hpatterns (if_pos h).symm
  · next h =>
    rw [hs]
    exact .unsubscribe s.ctx rx hchannels hpatterns (if_neg h).symm

theorem contextStep_unsubscribe (s : Side) :
    ContextStep s.ctx (unsubscribe env dbs args s).2.ctx := by
  obtain ⟨lines, h⟩ := unsubscribe_run env dbs args s
  rw [h, withoutChannels]
  split
  · exact contextStep_leftSubMode none rfl (List.filter_subset_self _) (List.Subset.refl _)
  · exact contextStep_leftSubMode s.ctx.pubsubRx rfl (List.filter_subset_self _)
      (List.Subset.refl _)

theorem contextStep_punsubscribe (s : Side) :
    ContextStep s.ctx (punsubscribe env dbs args s).2.ctx := by
  rw [punsubscribe_run, withoutPatterns]
  split
  · exact contextStep_leftSubMode none rfl (List.Subset.refl _) (List.filter_subset_self _)
  · exact contextStep_leftSubMode s.ctx.pubsubRx rfl (List.Subset.refl _)
      (List.filter_subset_self _)

theorem contextStep_watch (s : Side) : ContextStep s.ctx (watch env dbs args s).2.ctx := by
  let version := fun key => (versionOf env.now dbs s.ctx.dbIndex key).getD 0
  have hstep := ContextStep.watch s.ctx (args.map fun key => (key, version key))
  rw [List.map_map, List.map_map, show args.map (Prod.fst ∘ fun key => (key, version key)) = args
    from List.map_id args] at hstep
  rw [watch, modifyCtx, modify_bind, pure_run]
  dsimp only
  split
  · exact .same _
  · exact hstep

/-! ### The others -/

/-- A command that leaves the context alone. -/
def SideSameCtx (s s' : Side) : Prop := s'.ctx = s.ctx

instance : Std.Refl SideSameCtx := ⟨fun _ => rfl⟩

instance : IsTrans Side SideSameCtx := ⟨fun _ _ _ h h' => h'.trans h⟩

/-- A command that leaves the context alone. -/
def WholeSameCtx (w w' : Whole) : Prop := w'.ctx = w.ctx

instance : Std.Refl WholeSameCtx := ⟨fun _ => rfl⟩

instance : IsTrans Whole WholeSameCtx := ⟨fun _ _ _ h h' => h'.trans h⟩

theorem ignoresTables_sameCtx : IgnoresTables SideSameCtx := fun _ _ => rfl

theorem ignoresStore_sameCtx : IgnoresStore WholeSameCtx := fun _ _ => rfl

/-! ### The blocking pops -/

/-- The blocking pop finds nothing at its keys, and is to wait. -/
def FindsNothing (pop : UInt64 → ℕ → Bytes → KeyM (Option Bytes)) (env : Env) (args : List Bytes)
    (w : Whole) : Prop :=
  args ≠ [] ∧ (args.getLast? >>= parseI64).getD 0 ≠ 0 ∧
    (popFirst (pop env.now w.ctx.dbIndex) args.dropLast { databases := w.store.databases }).1
      = .ok none

/-- The end of a blocking pop, with what it has found. -/
def popEnd (direction : PopDirection) (args : List Bytes) :
    Option (Bytes × Bytes) → WholeM RespValue
  | some (key, val) => pure (bulks [key, val])
  | none =>
    if (args.getLast? >>= parseI64).getD 0 = 0 then pure .nil
    else
      Proc.modify (fun w => { w with ctx := { w.ctx with
        blockState := some ⟨args.dropLast, (args.getLast? >>= parseI64).getD 0, direction⟩ } }) >>=
        fun _ => pure .ok

theorem blockingPop_eq (pop : UInt64 → ℕ → Bytes → KeyM (Option Bytes)) (direction : PopDirection)
    (hargs : args ≠ []) (w : Whole) : blockingPop pop direction env args w
      = (onKeyspace (popFirst (pop env.now w.ctx.dbIndex) args.dropLast) >>=
          popEnd direction args) w := by
  rw [blockingPop]
  refine (congrFun (if_neg (List.length_eq_zero_iff.not.mpr hargs)) w).trans ?_
  refine congrArg (fun f : Option (Bytes × Bytes) → WholeM RespValue => (onKeyspace
    (popFirst (pop env.now w.ctx.dbIndex) args.dropLast) >>= f) w) (funext fun o => ?_)
  rcases o with _ | ⟨key, val⟩ <;> rfl

/-- **A blocking pop** leaves a wait behind if it finds nothing. -/
theorem blockingPop_ctx (pop : UInt64 → ℕ → Bytes → KeyM (Option Bytes)) (direction : PopDirection)
    (w : Whole) : (FindsNothing pop env args w ∧ ∃ b,
        (blockingPop pop direction env args w).2.ctx = { w.ctx with blockState := some b }) ∨
      (¬FindsNothing pop env args w ∧ (blockingPop pop direction env args w).2.ctx = w.ctx) := by
  by_cases hargs : args = []
  · subst hargs
    exact Or.inr ⟨fun h => h.1 rfl, rfl⟩
  rw [blockingPop_eq env args pop direction hargs]
  rcases hpop : popFirst (pop env.now w.ctx.dbIndex) args.dropLast
    { databases := w.store.databases } with ⟨e | (_ | p), ks⟩
  · refine Or.inr ⟨fun h => ?_, ?_⟩
    · rw [FindsNothing, hpop] at h
      cases h.2.2
    · have hrun : onKeyspace (popFirst (pop env.now w.ctx.dbIndex) args.dropLast) w
          = (.error e, { w with store := { w.store with databases := ks.databases } }) := by
        rw [onKeyspace, hpop]
      rw [bind_error hrun]
  · have hrun : onKeyspace (popFirst (pop env.now w.ctx.dbIndex) args.dropLast) w
        = (.ok none, { w with store := { w.store with databases := ks.databases } }) := by
      rw [onKeyspace, hpop]
    rw [bind_ok hrun, popEnd]
    split
    · next htimeout => exact Or.inr ⟨fun h => h.2.1 htimeout, rfl⟩
    · next htimeout => exact Or.inl ⟨⟨hargs, htimeout, by rw [hpop]⟩, _, rfl⟩
  · have hrun : onKeyspace (popFirst (pop env.now w.ctx.dbIndex) args.dropLast) w
        = (.ok (some p), { w with store := { w.store with databases := ks.databases } }) := by
      rw [onKeyspace, hpop]
    refine Or.inr ⟨fun h => ?_, ?_⟩
    · rw [FindsNothing, hpop] at h
      cases h.2.2
    · rw [bind_ok hrun]
      rfl

end Cmd

/-! ### The table -/

/-- Every run of the handler makes a step on the context. -/
def Handler.StepsContext : Handler → Prop
  | .side f => ∀ env dbs args s, ContextStep s.ctx (f env dbs args s).2.ctx
  | .whole f => ∀ env args w, ContextStep w.ctx (f env args w).2.ctx
  | .exec => False
  | .read _ | .write _ | .eval | .evalsha => True

/-- The commands that do more to the context than a step. -/
def otherNames : List String := ["BLPOP", "BRPOP", "EXEC"]

theorem ContextStep.of_eq {c c' : ClientContext} (h : c' = c) : ContextStep c c' := h ▸ .same c

section

open Cmd

theorem stepsContext_of_sideSameCtx {f : Env → Databases → List Bytes → SideM RespValue}
    (h : ∀ env dbs args, Moves SideSameCtx (f env dbs args)) : (Handler.side f).StepsContext :=
  fun env dbs args s => .of_eq (h env dbs args s)

theorem stepsContext_of_wholeSameCtx {f : Env → List Bytes → WholeM RespValue}
    (h : ∀ env args, Moves WholeSameCtx (f env args)) : (Handler.whole f).StepsContext :=
  fun env args w => .of_eq (h env args w)

theorem stepsContext_pubsubCommands : ∀ c ∈ pubsubCommands, c.handler.StepsContext := by
  simp only [pubsubCommands, List.forall_mem_cons]
  exact ⟨contextStep_subscribe, contextStep_unsubscribe, contextStep_psubscribe,
    contextStep_punsubscribe, stepsContext_of_sideSameCtx ignoresTables_sameCtx.publish,
    List.forall_mem_nil _⟩

theorem stepsContext_transactionCommands :
    ∀ c ∈ transactionCommands, c.name ∉ otherNames → c.handler.StepsContext := by
  simp only [transactionCommands, List.forall_mem_cons]
  exact ⟨fun _ _ _ _ s => .multi s.ctx, fun h => absurd (by decide) h,
    fun _ _ _ _ s => .discard s.ctx, fun _ => contextStep_watch, fun _ _ _ _ s => .unwatch s.ctx,
    List.forall_mem_nil _⟩

theorem stepsContext_select : (Handler.side select).StepsContext := by
  intro env dbs args s
  rw [select]
  cases arg args 0 with
  | error e => exact .same _
  | ok a => exact .select s.ctx _

theorem stepsContext_streamCommands : ∀ c ∈ streamCommands, c.handler.StepsContext := by
  simp only [streamCommands, List.forall_mem_cons]
  exact ⟨trivial, trivial, trivial, trivial, trivial, trivial, trivial,
    stepsContext_of_wholeSameCtx ignoresStore_sameCtx.xgroup,
    stepsContext_of_sideSameCtx ignoresTables_sameCtx.xreadgroup,
    stepsContext_of_sideSameCtx ignoresTables_sameCtx.xack,
    stepsContext_of_sideSameCtx IgnoresTables.xpending,
    stepsContext_of_sideSameCtx ignoresTables_sameCtx.xclaim, List.forall_mem_nil _⟩

theorem stepsContext_listCommands :
    ∀ c ∈ listCommands, c.name ∉ otherNames → c.handler.StepsContext := by
  simp only [listCommands, List.forall_mem_cons]
  exact ⟨fun _ => trivial, fun _ => trivial, fun _ => trivial, fun _ => trivial, fun _ => trivial,
    fun _ => trivial, fun _ => trivial, fun _ => trivial, fun _ => trivial, fun _ => trivial,
    fun h => absurd (by decide) h, fun h => absurd (by decide) h, List.forall_mem_nil _⟩

/-- All commands but the blocking pops and `EXEC`. -/
theorem stepsContext_commands :
    ∀ c ∈ commands, c.name ∉ otherNames → c.handler.StepsContext := by
  have hplain : ∀ c ∈ stringCommands ++ setCommands ++ hashCommands ++ zsetCommands ++
      nestedHashCommands ++ clusterCommands, c.handler.StepsContext := by
    simp only [stringCommands, setCommands, hashCommands, zsetCommands, nestedHashCommands,
      clusterCommands, List.cons_append, List.nil_append, List.forall_mem_cons]
    simp [Handler.StepsContext]
  simp only [List.mem_append] at hplain
  have hserver : ∀ c ∈ serverCommands, c.handler.StepsContext := by
    simp only [serverCommands, List.forall_mem_cons]
    exact ⟨trivial, trivial, trivial, stepsContext_select, trivial, trivial, trivial,
      List.forall_mem_nil _⟩
  have hgeneric : ∀ c ∈ genericCommands, c.handler.StepsContext := by
    simp only [genericCommands, List.forall_mem_cons]
    exact ⟨trivial, trivial, trivial, trivial, trivial, trivial, trivial, trivial, trivial, trivial,
      trivial, trivial, trivial, trivial, trivial, trivial, trivial,
      stepsContext_of_sideSameCtx ignoresTables_sameCtx.scanCmd, trivial, trivial, trivial,
      List.forall_mem_nil _⟩
  have hlua : ∀ c ∈ luaCommands, c.handler.StepsContext := by
    simp only [luaCommands, List.forall_mem_cons]
    exact ⟨trivial, trivial, stepsContext_of_sideSameCtx ignoresTables_sameCtx.scriptCmd,
      List.forall_mem_nil _⟩
  refine forall_commands (fun c hc _ => hserver c hc) (fun c hc _ => hplain c (by simp [hc]))
    (fun c hc _ => hgeneric c hc) stepsContext_listCommands (fun c hc _ => hplain c (by simp [hc]))
    (fun c hc _ => hplain c (by simp [hc])) (fun c hc _ => hplain c (by simp [hc]))
    (fun c hc _ => stepsContext_streamCommands c hc) (fun c hc _ => hplain c (by simp [hc]))
    fun c hc hname => ?_
  simp only [List.mem_append, or_assoc] at hc
  rcases hc with hc | hc | hc | hc
  · exact stepsContext_pubsubCommands c hc
  · exact stepsContext_transactionCommands c hc hname
  · exact hlua c hc
  · exact hplain c (by simp [hc])

end

/-- **Every command but the blocking pops and `EXEC`** makes a step on the context. -/
theorem contextStep_dispatchDepth (env : Env) (depth : ℕ) {name : String}
    (hname : name ∉ otherNames) (args : List Bytes) (w : Whole) :
    ContextStep w.ctx (dispatchDepth env depth name args w).2.ctx := by
  cases depth with
  | zero => exact .same _
  | succ depth =>
    rcases dispatchDepth_snd env depth name args w with h | ⟨c, hc, rfl, h⟩
    · rw [h]
      exact .same _
    · rw [h]
      have hsteps := stepsContext_commands c hc hname
      cases hh : c.handler with
      | read f | write f => exact .same _
      | side f =>
        rw [hh] at hsteps
        exact hsteps env w.store.databases args { tables := w.store.tables, ctx := w.ctx }
      | whole f =>
        rw [hh] at hsteps
        exact hsteps env args w
      | exec =>
        rw [hh] at hsteps
        exact hsteps.elim
      | eval => exact .of_eq (Cmd.ignoresStore_sameCtx.evalCmd env args _ w)
      | evalsha => exact .of_eq (Cmd.ignoresStore_sameCtx.evalshaCmd env args _ w)

/-! ### What every context is like -/

/-- What holds of the context of a connection at any time. -/
structure ClientContext.Sound (c : ClientContext) : Prop where
  watched : c.watchedKeys.length = c.watchedVersions.length
  queue : c.multiMode = false → c.multiQueue = []
  queued : ∀ cmd ∈ c.multiQueue, cmd ≠ []
  subscribed : c.subMode = true ↔ c.subscribedChannels ≠ [] ∨ c.subscribedPatterns ≠ []
  protocol : c.protocol = 2 ∨ c.protocol = 3

namespace ClientContext.Sound

variable {c c' : ClientContext}

/-- **One step.** -/
theorem step (hc : c.Sound) (h : ContextStep c c') : c'.Sound := by
  cases h with
  | same | select => exact ⟨hc.watched, hc.queue, hc.queued, hc.subscribed, hc.protocol⟩
  | subscribe channels patterns rx h =>
    refine ⟨hc.watched, hc.queue, hc.queued, iff_of_true rfl ?_, hc.protocol⟩
    exact h.imp (fun h => List.append_ne_nil_of_right_ne_nil _ h)
      fun h => List.append_ne_nil_of_right_ne_nil _ h
  | unsubscribe rx hchannels hpatterns hmode =>
    refine ⟨hc.watched, hc.queue, hc.queued, ?_, hc.protocol⟩
    dsimp only
    rw [hmode]
    split
    · next h => simp [h]
    · next h =>
      -- what is left was there before, so the client is in subscribe mode
      have hleft := not_and_or.mp h
      refine iff_of_true (hc.subscribed.mpr (hleft.imp (fun h hnil => h ?_) fun h hnil => h ?_)) hleft
      · exact List.subset_nil.mp (hnil ▸ hchannels)
      · exact List.subset_nil.mp (hnil ▸ hpatterns)
  | multi =>
    exact ⟨hc.watched, fun _ => rfl, List.forall_mem_nil _, hc.subscribed, hc.protocol⟩
  | discard => exact ⟨rfl, fun _ => rfl, List.forall_mem_nil _, hc.subscribed, hc.protocol⟩
  | watch l =>
    refine ⟨?_, hc.queue, hc.queued, hc.subscribed, hc.protocol⟩
    simp [hc.watched]
  | unwatch => exact ⟨rfl, hc.queue, hc.queued, hc.subscribed, hc.protocol⟩

theorem block (hc : c.Sound) (b : Option BlockState) :
    ClientContext.Sound { c with blockState := b } :=
  ⟨hc.watched, hc.queue, hc.queued, hc.subscribed, hc.protocol⟩

theorem enqueue (hc : c.Sound) (hmulti : c.multiMode = true) {cmd : List Bytes} (hcmd : cmd ≠ []) :
    ClientContext.Sound { c with multiQueue := c.multiQueue ++ [cmd] } := by
  refine ⟨hc.watched, fun h => ?_, fun cmd' h => ?_, hc.subscribed, hc.protocol⟩
  · cases hmulti.symm.trans h
  · rcases List.mem_append.mp h with h | h
    · exact hc.queued cmd' h
    · rwa [List.mem_singleton.mp h]

theorem authenticate (hc : c.Sound) (b : Bool) :
    ClientContext.Sound { c with authenticated := b } :=
  ⟨hc.watched, hc.queue, hc.queued, hc.subscribed, hc.protocol⟩

theorem negotiate (hc : c.Sound) {v : ℕ} (hv : v = 2 ∨ v = 3) :
    ClientContext.Sound { c with protocol := v } :=
  ⟨hc.watched, hc.queue, hc.queued, hc.subscribed, hv⟩

end ClientContext.Sound

/-! ### What every command keeps -/

theorem other_commands {c : CommandDef} (hc : c ∈ commands) (hname : c.name ∈ otherNames) :
    c.handler = .exec ∨ ∃ pop direction, c.handler = .whole (Cmd.blockingPop pop direction) := by
  have hdefs : ∀ name ∈ otherNames, ∃ c ∈ commands, c.name = name ∧ (c.handler = .exec ∨
      ∃ pop direction, c.handler = .whole (Cmd.blockingPop pop direction)) := by
    simp only [otherNames, List.forall_mem_cons]
    refine ⟨⟨⟨"BLPOP", -3, .whole Cmd.blpop⟩, ?_, rfl, Or.inr ⟨_, _, rfl⟩⟩,
      ⟨⟨"BRPOP", -3, .whole Cmd.brpop⟩, ?_, rfl, Or.inr ⟨_, _, rfl⟩⟩,
      ⟨⟨"EXEC", 1, .exec⟩, ?_, rfl, Or.inl rfl⟩, List.forall_mem_nil _⟩ <;>
      simp [commands, Cmd.listCommands, Cmd.transactionCommands]
  exact of_definitions (P := fun c => c.handler = .exec ∨
    ∃ pop direction, c.handler = .whole (Cmd.blockingPop pop direction)) hdefs hc hname

/-- What the steps and a wait keep of a context, a command keeps. -/
def KeepsCtx (P : ClientContext → Prop) (w w' : Whole) : Prop := P w.ctx → P w'.ctx

instance (P : ClientContext → Prop) : Std.Refl (KeepsCtx P) := ⟨fun _ => id⟩

instance (P : ClientContext → Prop) : IsTrans Whole (KeepsCtx P) := ⟨fun _ _ _ h h' => h' ∘ h⟩

section Keeps

variable {P : ClientContext → Prop} (hstep : ∀ c c', ContextStep c c' → P c → P c')
  (hblock : ∀ c b, P c → P { c with blockState := b })

include hblock in
theorem Cmd.keepsCtx_blockingPop (pop : UInt64 → ℕ → Bytes → KeyM (Option Bytes))
    (direction : PopDirection) (env : Env) (args : List Bytes) :
    Moves (KeepsCtx P) (Cmd.blockingPop pop direction env args) := by
  intro w hw
  rcases Cmd.blockingPop_ctx env args pop direction w with ⟨-, b, h⟩ | ⟨-, h⟩
  · rw [h]
    exact hblock _ _ hw
  · rwa [h]

include hstep hblock in
/-- **What the steps and a wait keep of a context, every command keeps.** -/
theorem keepsCtx_dispatchDepth (env : Env) (depth : ℕ) (name : String) (args : List Bytes) :
    Moves (KeepsCtx P) (dispatchDepth env depth name args) := by
  induction depth generalizing name args with
  | zero => exact moves_fail _
  | succ depth ih =>
    intro w
    by_cases hname : name ∈ otherNames
    · rcases dispatchDepth_snd env depth name args w with h | ⟨c, hc, rfl, h⟩
      · rw [h]
        exact id
      · rw [h]
        rcases other_commands hc hname with h | ⟨pop, direction, h⟩
        · rw [h]
          exact Cmd.moves_exec env (fun w => hstep _ _ (.discard w.ctx)) ih w
        · rw [h]
          exact Cmd.keepsCtx_blockingPop hblock pop direction env args w
    · exact hstep _ _ (contextStep_dispatchDepth env (depth + 1) hname args w)

end Keeps

/-- **Every command** leaves a sound context sound. -/
theorem sound_dispatchDepth (env : Env) (depth : ℕ) (name : String) (args : List Bytes) :
    Moves (KeepsCtx ClientContext.Sound) (dispatchDepth env depth name args) :=
  keepsCtx_dispatchDepth (fun _ _ h hc => hc.step h) (fun _ b hc => hc.block b) env depth name args

end VeloDB
