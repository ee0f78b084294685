import VeloDB.Cmd.Apart
import VeloDB.Cmd.OutOfMemory

/-!
# Loaded scripts

`SCRIPT LOAD` keeps a script under its digest, and `EVALSHA` runs it. Only `SCRIPT` changes what is
kept, so every digest stands for a text that it is the digest of, and a script that has been loaded
stays, until `SCRIPT FLUSH` or another script with the same digest comes. As long as it is there,
`EVALSHA` does what `EVAL` does where the entry of the script is being read. The difference shows
when the script loads or flushes scripts: that waits for the reader, which waits for the script.

## Main results

* `sameScripts_commands` — the commands that do not change the scripts
* `evalsha_is_eval` — a script that has been loaded
* `evalsha_runs_digest` — what stands under a digest
-/

namespace VeloDB

open Rust Proc

/-! ### What changes no script -/

/-- The scripts are the same. -/
def SameScripts (t t' : Tables) : Prop := t'.luaScripts = t.luaScripts

instance : Std.Refl SameScripts := ⟨fun _ => rfl⟩

instance : IsTrans Tables SameScripts := ⟨fun _ _ _ h h' => h'.trans h⟩

namespace Cmd

variable (env : Env) (dbs : Databases) (args : List Bytes)

/-- Changes of the subscribers and of the context. -/
theorem sameScripts_newReceiver (register : PubSubRegistry → ℕ → PubSubRegistry) :
    Moves (OnSide SameScripts) (newReceiver register) := fun _ => rfl

theorem sameScripts_leaveSubMode : Moves (OnSide SameScripts) leaveSubMode := by
  refine moves_get.bind fun s => ?_
  split
  · exact fun _ => rfl
  · exact moves_pure ()

theorem sameScripts_modifyCtx (f : ClientContext → ClientContext) :
    Moves (OnSide SameScripts) (modifyCtx f) := fun _ => rfl

theorem sameScripts_subscribe : Moves (OnSide SameScripts) (subscribe env dbs args) := by
  rw [subscribe]
  split
  · exact moves_pure _
  · refine (moves_foldEach (fun acc ch _ => ?_) []).bind fun _ =>
      (sameScripts_modifyCtx _).bind fun _ => moves_pure _
    exact (sameScripts_modifyCtx _).bind fun _ => (sameScripts_newReceiver _).bind
      fun _ => moves_get.bind fun _ => moves_pure _

theorem sameScripts_psubscribe : Moves (OnSide SameScripts) (psubscribe env dbs args) := by
  rw [psubscribe]
  split
  · exact moves_pure _
  · refine (moves_foldEach (fun acc p _ => ?_) []).bind fun _ =>
      (sameScripts_modifyCtx _).bind fun _ => moves_pure _
    exact (sameScripts_modifyCtx _).bind fun _ => (sameScripts_newReceiver _).bind
      fun _ => moves_get.bind fun _ => moves_pure _

theorem sameScripts_unsubscribe : Moves (OnSide SameScripts) (unsubscribe env dbs args) := by
  have hdrop : Moves (OnSide SameScripts) (setReceiver none) := fun _ => rfl
  rw [unsubscribe]
  split
  · exact (sameScripts_modifyCtx _).bind fun _ => hdrop.bind fun _ => (moves_pure _).bind fun _ =>
      sameScripts_leaveSubMode.bind fun _ => moves_pure _
  · refine (moves_foldEach (fun acc ch _ => ?_) []).bind
      fun _ => sameScripts_leaveSubMode.bind fun _ => moves_pure _
    exact (sameScripts_modifyCtx _).bind fun _ => moves_get.bind fun _ => moves_pure _

theorem sameScripts_punsubscribe : Moves (OnSide SameScripts) (punsubscribe env dbs args) := by
  have hdrop : Moves (OnSide SameScripts) (setReceiver none) := fun _ => rfl
  rw [punsubscribe]
  split
  · exact (sameScripts_modifyCtx _).bind fun _ => hdrop.bind fun _ =>
      sameScripts_leaveSubMode.bind fun _ => moves_pure _
  · exact (sameScripts_modifyCtx _).bind fun _ => sameScripts_leaveSubMode.bind
      fun _ => moves_pure _

theorem sameScripts_blockingPop (pop : UInt64 → ℕ → Bytes → KeyM (Option Bytes))
    (direction : PopDirection) :
    Moves (OnWhole SameScripts) (blockingPop pop direction env args) := by
  have hpop : ∀ {α : Type} (m : KeyM α), Moves (OnWhole SameScripts) (onKeyspace m) :=
    fun m w => rfl
  refine moves_check fun _ => moves_get.bind fun w => (hpop _).bind fun o => ?_
  cases o with
  | some p => exact moves_pure _
  | none =>
    dsimp only
    split
    · exact moves_pure _
    · exact fun w => rfl

end Cmd

theorem sameScripts_foldl_notify (keys : List Bytes) (t : Tables) :
    SameScripts t (keys.foldl Tables.notify t) := by
  induction keys generalizing t with
  | nil => rfl
  | cons key keys ih =>
    refine trans_of SameScripts ?_ (ih (t.notify key))
    rw [Tables.notify]
    split <;> rfl

/-- A call on a group changes groups only. -/
theorem GroupCall.sameScripts (now : UInt64) (i : ℕ) (k : Bytes) (group : String) (s : Store)
    (c : GroupCall) : SameScripts s.tables (c.run now i k group s).tables := by
  have hupdate : ∀ {α : Type} (missing : Except Failure α) (f : ConsumerGroup → α × ConsumerGroup),
      SameScripts s.tables (Tables.updateGroup i k group missing f s.tables).2 := by
    intro α missing f
    rcases Tables.updateGroup_cases i k group missing f s.tables with ⟨-, h⟩ | ⟨g, -, h⟩
    · rw [h]
      rfl
    · rw [h]
      rfl
  cases c with
  | create startId mkstream =>
    rcases xgroupCreate_cases now i k group startId mkstream ⟨s, {}⟩ with ⟨e, h⟩ | ⟨dbs, -, h⟩
    · rw [run, h]
      rfl
    · rw [run, h]
      rfl
  | destroy => rfl
  | createConsumer consumer => exact hupdate _ _
  | delConsumer consumer => exact hupdate _ _
  | read consumer start count noack =>
    rw [run]
    cases start with
    | new =>
      rcases Tables.xreadgroup_new_cases now s.databases i k group consumer count noack s.tables
        with ⟨e, h⟩ | ⟨g, all, -, -, h⟩
      · rw [h]
        rfl
      · rw [h]
        rfl
    | history after =>
      rcases Tables.xreadgroup_history_cases now s.databases i k group consumer count noack s.tables
        after with h | ⟨g, -, h⟩
      · rw [h]
        rfl
      · rw [h]
        rfl
  | ack ids => exact hupdate _ _
  | claim consumer minIdleMs ids justid =>
    rw [run, Tables.xclaim_snd]
    exact hupdate _ _

open Cmd in
/-- **The commands** that do not change the scripts: all others. -/
theorem sameScripts_commands {c : CommandDef} (hc : c ∈ commands) (hname : c.name ≠ "SCRIPT") :
    c.handler.MovesAlong (OnWhole SameScripts) := by
  have hdatabases : ∀ {h : Handler}, h.onDatabases = true → h.MovesAlong (OnWhole SameScripts) := by
    intro h hh
    cases h with
    | read f => trivial
    | write f => exact fun _ env args w => sameScripts_foldl_notify _ w.store.tables
    | side | whole | exec | eval | evalsha => cases hh
  have hplain : ∀ c ∈ stringCommands ++ setCommands ++ hashCommands ++ zsetCommands ++
      nestedHashCommands ++ clusterCommands, c.handler.onDatabases = true := by decide
  have hserver : ∀ c ∈ serverCommands, c.handler.onDatabases = true ∨ c.handler = .side select := by
    simp [serverCommands, Handler.onDatabases]
  have hgeneric : ∀ c ∈ genericCommands,
      c.handler.onDatabases = true ∨ c.handler = .side scanCmd := by
    simp [genericCommands, Handler.onDatabases]
  have hlist : ∀ c ∈ listCommands, c.handler.onDatabases = true ∨ c.handler = .whole blpop ∨
      c.handler = .whole brpop := by
    simp [listCommands, Handler.onDatabases]
  have hstream : ∀ c ∈ Cmd.streamCommands, c.handler.onDatabases = true ∨
      c.handler = .side xpending ∨ c.handler = .whole xgroup ∨ c.handler = .side xreadgroup ∨
      c.handler = .side xack ∨ c.handler = .side xclaim := by
    simp [Cmd.streamCommands, Handler.onDatabases]
  have hpubsub : ∀ c ∈ pubsubCommands, c.handler.MovesAlong (OnWhole SameScripts) := by
    simp only [pubsubCommands, List.forall_mem_cons]
    exact ⟨onWhole_side sameScripts_subscribe, onWhole_side sameScripts_unsubscribe,
      onWhole_side sameScripts_psubscribe, onWhole_side sameScripts_punsubscribe,
      onWhole_side fun env dbs args => moves_publish env dbs args fun _ _ => rfl,
      List.forall_mem_nil _⟩
  have htransaction : ∀ c ∈ transactionCommands, c.handler.MovesAlong (OnWhole SameScripts) := by
    have hctx : ∀ f : Env → Databases → List Bytes → ClientContext → ClientContext,
        (Handler.side fun env dbs args =>
          modifyCtx (f env dbs args) >>= fun _ => pure .ok).MovesAlong (OnWhole SameScripts) :=
      fun f => onWhole_side fun _ _ _ s => rfl
    simp only [transactionCommands, List.forall_mem_cons]
    exact ⟨hctx _, trivial, hctx _, hctx _, hctx _, List.forall_mem_nil _⟩
  have hgroup : ∀ env dbs i k group (c : GroupCall), ∀ s : Side,
      SameScripts s.tables (c.run env i k group ⟨dbs, s.tables⟩).tables :=
    fun env dbs i k group c s => c.sameScripts env i k group ⟨dbs, s.tables⟩
  simp only [List.mem_append] at hplain
  simp only [commands, List.mem_append, or_assoc] at hc
  rcases hc with hc | hc | hc | hc | hc | hc | hc | hc | hc | hc | hc | hc | hc
  · rcases hserver c hc with h | h
    · exact hdatabases h
    · rw [h]
      exact onWhole_side fun _ _ _ => (moves_ofExcept _).bind fun _ =>
        (sameScripts_modifyCtx _).bind fun _ => moves_pure _
  · exact hdatabases (hplain c (by simp [hc]))
  · rcases hgeneric c hc with h | h
    · exact hdatabases h
    · rw [h]
      exact onWhole_side fun env dbs args => moves_scanCmd env dbs args fun _ _ _ => rfl
  · rcases hlist c hc with h | h | h
    · exact hdatabases h
    · rw [h]
      exact fun env args => sameScripts_blockingPop env args _ _
    · rw [h]
      exact fun env args => sameScripts_blockingPop env args _ _
  · exact hdatabases (hplain c (by simp [hc]))
  · exact hdatabases (hplain c (by simp [hc]))
  · exact hdatabases (hplain c (by simp [hc]))
  · rcases hstream c hc with h | h | h | h | h | h
    · exact hdatabases h
    · rw [h]
      exact onWhole_side IgnoresTables.xpending
    · rw [h]
      intro env args w
      rw [OnWhole, xgroup_store]
      cases xgroupCall env args with
      | none => rfl
      | some p => exact GroupCall.sameScripts env.now _ _ _ _ _
    · rw [h]
      exact onWhole_side fun env dbs args => moves_xreadgroup env dbs args
        fun i k group consumer start count noack =>
          hgroup env.now dbs i k group (.read consumer start count noack)
    · rw [h]
      exact onWhole_side fun env dbs args => moves_xack env dbs args
        fun i k group ids => hgroup env.now dbs i k group (.ack ids)
    · rw [h]
      exact onWhole_side fun env dbs args => moves_xclaim env dbs args
        fun i k group consumer minIdleMs ids justid =>
          hgroup env.now dbs i k group (.claim consumer minIdleMs ids justid)
  · exact hdatabases (hplain c (by simp [hc]))
  · exact hpubsub c hc
  · exact htransaction c hc
  · simp only [luaCommands, List.mem_cons, List.not_mem_nil, or_false] at hc
    rcases hc with rfl | rfl | rfl
    · trivial
    · trivial
    · exact absurd rfl hname
  · exact hdatabases (hplain c (by simp [hc]))

/-! ### What `SCRIPT` does -/

/-- The text that a call loads. -/
def Call.loads (c : Call) : Option String :=
  match c.args with
  | sub :: script :: _ =>
    if c.command.name = "SCRIPT" ∧ upper c.env sub = "LOAD" then some (fromUtf8Lossy script)
    else none
  | _ => none

/-- The call throws out all scripts. -/
def Call.Flushes (c : Call) : Prop :=
  c.command.name = "SCRIPT" ∧ ∃ sub ∈ c.args.head?, upper c.env sub = "FLUSH"

instance (c : Call) : Decidable c.Flushes := inferInstanceAs (Decidable (_ ∧ _))

/-- What is left of a list of bindings after some keys have been erased was there before. -/
theorem lookup_foldl_erase {α β : Type} [DecidableEq α] (keys : List α) (m : AList fun _ : α => β)
    {a : α} {b : β} (h : (keys.foldl (fun m k => m.erase k) m).lookup a = some b) :
    m.lookup a = some b := by
  induction keys generalizing m with
  | nil => exact h
  | cons k keys ih =>
    have herased := ih (m.erase k) h
    by_cases hak : a = k
    · rw [hak, AList.lookup_erase] at herased
      cases herased
    · rwa [AList.lookup_erase_ne hak] at herased

/-- A flush that has to wait has thrown out some of the scripts. -/
theorem Cmd.lookup_clearUnlocked {H : Host} {scripts : ScriptMap} {sha text : String}
    (h : (Cmd.clearUnlocked H scripts).entries.lookup sha = some text) :
    scripts.entries.lookup sha = some text :=
  lookup_foldl_erase _ scripts.entries h

/-- **What a call makes of the scripts.** -/
theorem Call.luaScripts_after {c : Call} (hc : c.command ∈ commands)
    (hleaf : c.command.handler.isLeaf = true) :
    (∃ text, c.loads = some text ∧ c.after.store.tables.luaScripts.entries
        = c.before.store.tables.luaScripts.entries.insert (c.env.host.sha1Hex text) text) ∨
      (c.Flushes ∧ ∀ sha text, c.after.store.tables.luaScripts.entries.lookup sha = some text →
        c.before.store.tables.luaScripts.entries.lookup sha = some text) ∨
      c.after.store.tables.luaScripts = c.before.store.tables.luaScripts := by
  by_cases hname : c.command.name = "SCRIPT"
  · obtain ⟨command, args, env, before⟩ := c
    have hdef : (⟨"SCRIPT", -2, .side Cmd.scriptCmd⟩ : CommandDef) ∈ commands := by
      simp [commands, Cmd.luaCommands]
    obtain rfl : ⟨"SCRIPT", -2, .side Cmd.scriptCmd⟩ = command :=
      List.inj_on_of_nodup_map nodup_commands hdef hc hname.symm
    have hafter : (Call.mk ⟨"SCRIPT", -2, .side Cmd.scriptCmd⟩ args env before).after.store.tables
        = (Cmd.scriptCmd env before.store.databases args
          ⟨before.store.tables, before.ctx⟩).2.tables := rfl
    rw [hafter, Cmd.scriptCmd, Proc.get_bind]
    rcases args with _ | ⟨sub, rest⟩
    · exact Or.inr (Or.inr rfl)
    · dsimp only
      by_cases hload : upper env sub = "LOAD"
      · rw [if_pos hload]
        rcases rest with _ | ⟨script, rest⟩
        · exact Or.inr (Or.inr rfl)
        · dsimp only
          split
          · exact Or.inr (Or.inr rfl)
          · refine Or.inl ⟨fromUtf8Lossy script, ?_, rfl⟩
            rw [Call.loads]
            exact if_pos ⟨rfl, hload⟩
      · rw [if_neg hload]
        split
        · exact Or.inr (Or.inr rfl)
        · split
          · next hflush =>
            refine Or.inr (Or.inl ⟨⟨rfl, sub, rfl, hflush⟩, fun sha text h => ?_⟩)
            revert h
            split
            · intro h
              cases h
            · exact Cmd.lookup_clearUnlocked
          · exact Or.inr (Or.inr rfl)
  · have hsame : OnWhole SameScripts c.before c.after :=
      Call.along hleaf (sameScripts_commands hc hname)
    exact Or.inr (Or.inr hsame)

/-- The call does not take the place of a script. -/
def Call.KeepsScript (text : String) (c : Call) : Prop :=
  ¬c.Flushes ∧ ∀ other ∈ c.loads, c.env.host.sha1Hex other = c.env.host.sha1Hex text → other = text

instance (text : String) (c : Call) : Decidable (c.KeepsScript text) :=
  inferInstanceAs (Decidable (_ ∧ _))

/-- The script is kept under its digest. -/
def Tables.HasScript (H : Host) (text : String) (t : Tables) : Prop :=
  t.luaScripts.entries.lookup (H.sha1Hex text) = some text

/-- Every script is kept under its digest. -/
def Tables.Digested (H : Host) (t : Tables) : Prop :=
  ∀ sha text, t.luaScripts.entries.lookup sha = some text → H.sha1Hex text = sha

section Runs

variable {H : Host} {text : String}

/-- A command, all of whose calls spare the script. -/
theorem hasScript_dispatch {env : Env} (henv : env.host = H) (name : String) (args : List Bytes)
    (w : Whole) (hcalls : ∀ c ∈ calls env name args w, c.KeepsScript text)
    (h : w.store.tables.HasScript H text) :
    (dispatch env name args w).2.store.tables.HasScript H text := by
  have hblind : BlindTo fun w : Whole => w.store.tables.HasScript H text :=
    ⟨fun _ _ => id, fun _ _ => id, fun _ _ => id⟩
  have hcall : ∀ c : Call, c.command ∈ commands → c.command.handler.isLeaf = true → c.env = env →
      c.Allowed → c.KeepsScript text → c.before.store.tables.HasScript H text →
        True ∧ c.after.store.tables.HasScript H text := by
    intro c hc hleaf hcenv _ hkeeps h
    refine ⟨trivial, ?_⟩
    have hhost : c.env.host = H := hcenv ▸ henv
    rw [Tables.HasScript]
    rcases Call.luaScripts_after hc hleaf with ⟨other, hloads, hafter⟩ | ⟨hflushes, -⟩ | hafter
    · rw [hafter, hhost]
      have hother := hkeeps.2 other hloads
      rw [hhost] at hother
      by_cases hsha : H.sha1Hex text = H.sha1Hex other
      · rw [hsha, AList.lookup_insert, hother hsha.symm]
      · rw [AList.lookup_insert_ne hsha]
        exact h
    · exact absurd hflushes hkeeps.1
    · rw [hafter]
      exact h
  exact (keeps_calls (Q := fun _ => True) hblind hcall name args w h hcalls).2

theorem digested_dispatch {env : Env} (henv : env.host = H) (name : String) (args : List Bytes)
    (w : Whole) (h : w.store.tables.Digested H) :
    (dispatch env name args w).2.store.tables.Digested H := by
  have hblind : BlindTo fun w : Whole => w.store.tables.Digested H :=
    ⟨fun _ _ => id, fun _ _ => id, fun _ _ => id⟩
  have hcall : ∀ c : Call, c.command ∈ commands → c.command.handler.isLeaf = true → c.env = env →
      c.Allowed → True → c.before.store.tables.Digested H →
        True ∧ c.after.store.tables.Digested H := by
    intro c hc hleaf hcenv _ _ h
    refine ⟨trivial, fun sha text htext => ?_⟩
    rcases Call.luaScripts_after hc hleaf with ⟨other, -, hafter⟩ | ⟨-, hleft⟩ | hafter
    · rw [hafter, hcenv, henv] at htext
      by_cases hsha : sha = H.sha1Hex other
      · rw [hsha, AList.lookup_insert] at htext
        rw [hsha, Option.some.inj htext]
      · rw [AList.lookup_insert_ne hsha] at htext
        exact h sha text htext
    · exact h sha text (hleft sha text htext)
    · rw [hafter] at htext
      exact h sha text htext
  exact (keeps_calls (Q := fun _ => True) hblind hcall name args w h fun _ _ => trivial).2

end Runs

/-! ### `EVALSHA` -/

/-- An error becomes a reply inside or outside of the lock. -/
theorem Cmd.catchError_readingScript (sha : String) (m : WholeM RespValue) (w : Whole) :
    catchError (Cmd.readingScript sha m) w = Cmd.readingScript sha (catchError m) w := by
  rw [catchError, Cmd.readingScript, Cmd.readingScript, catchError]
  rcases m (Cmd.setReaders (sha :: w.store.tables.luaScripts.readers) w) with
    ⟨(e | _ | _) | r, w'⟩ <;> rfl

/-- What is found under a digest is what `EVALSHA` runs. -/
theorem dispatch_evalsha {env : Env} {sha numKeys : Bytes} {rest : List Bytes} {w : Whole}
    {text : String} (h : w.store.tables.luaScripts.entries.lookup (fromUtf8Lossy sha) = some text)
    {script : Bytes} (hscript : fromUtf8Lossy script = text) :
    dispatch env "EVALSHA" (sha :: numKeys :: rest) w = Cmd.readingScript (fromUtf8Lossy sha)
      (dispatch env "EVAL" (script :: numKeys :: rest)) w := by
  have heval : (⟨"EVAL", -3, .eval⟩ : CommandDef) ∈ commands := by
    simp [commands, Cmd.luaCommands]
  have hevalsha : (⟨"EVALSHA", -3, .evalsha⟩ : CommandDef) ∈ commands := by
    simp [commands, Cmd.luaCommands]
  have hdenies : w.store.tables.deniesMemory "EVALSHA" = w.store.tables.deniesMemory "EVAL" := rfl
  let locked := Cmd.setReaders (fromUtf8Lossy sha :: w.store.tables.luaScripts.readers) w
  have hlocked : locked.store.tables.deniesMemory "EVAL"
      = w.store.tables.deniesMemory "EVAL" := rfl
  cases hgate : w.store.tables.deniesMemory "EVAL" with
  | true =>
    have hsha : dispatch env "EVALSHA" (sha :: numKeys :: rest) w = (.ok (.error
        "OOM command not allowed when used memory > 'maxmemory'."), w) :=
      if_pos (hdenies.trans hgate)
    have heval : dispatch env "EVAL" (script :: numKeys :: rest) locked = (.ok (.error
        "OOM command not allowed when used memory > 'maxmemory'."), locked) :=
      if_pos (hlocked.trans hgate)
    rw [hsha, Cmd.readingScript, heval]
    rfl
  | false =>
    have hrun : ∀ d : Dispatch, Cmd.evalshaCmd d env (sha :: numKeys :: rest) w
        = Cmd.readingScript (fromUtf8Lossy sha)
          (Cmd.evalCmd d env (script :: numKeys :: rest)) w := by
      intro d
      rw [Cmd.evalshaCmd, Proc.get_bind]
      dsimp only
      rw [h]
      dsimp only
      rw [Cmd.readingScript, Cmd.readingScript, Cmd.evalCmd, Cmd.evalCmd, Proc.get_bind,
        Proc.get_bind]
      dsimp only
      rw [fromUtf8Lossy_asBytes, hscript]
      rfl
    have hsha : dispatch env "EVALSHA" (sha :: numKeys :: rest) w = _ :=
      dispatch_eq hevalsha env (hdenies.trans hgate) rfl
    have heval : dispatch env "EVAL" (script :: numKeys :: rest) locked = _ :=
      dispatch_eq heval env (hlocked.trans hgate) rfl
    rw [hsha, catchError, Handler.run, hrun, ← catchError, Cmd.catchError_readingScript,
      Cmd.readingScript, Cmd.readingScript, heval]
    rfl

/-- A request that loads a script. -/
def Request.LoadsScript (script : Bytes) (r : Request) : Prop :=
  r.name = "SCRIPT" ∧ ∃ sub rest, r.args = sub :: script :: rest ∧ upper r.env sub = "LOAD"

/-- Once it has been answered, the script is there. -/
theorem hasScript_load {script : Bytes} {r : Request} (hr : r.LoadsScript script) {s : Store}
    (hanswered : (r.run s).1 ≠ .error .hang) :
    (r.next s).tables.HasScript r.env.host (fromUtf8Lossy script) := by
  obtain ⟨client, ctx, env, name, args⟩ := r
  obtain ⟨hname, sub, rest, hargs, hsub⟩ := hr
  dsimp only at hname hargs hsub hanswered ⊢
  subst hname hargs
  have hdef : (⟨"SCRIPT", -2, .side Cmd.scriptCmd⟩ : CommandDef) ∈ commands := by
    simp [commands, Cmd.luaCommands]
  have hgate : s.tables.deniesMemory "SCRIPT" = false :=
    s.tables.deniesMemory_of_allowed (by decide)
  have hrun : dispatch env "SCRIPT" (sub :: script :: rest) ⟨s, ctx⟩ = _ :=
    dispatch_eq hdef env hgate rfl
  have hscript : Cmd.scriptCmd env s.databases (sub :: script :: rest) ⟨s.tables, ctx⟩
      = if Cmd.lockedShard env.host s.tables.luaScripts (env.host.sha1Hex (fromUtf8Lossy script))
        then (.error .hang, ⟨s.tables, ctx⟩)
        else (.ok (.bulk (asBytes (env.host.sha1Hex (fromUtf8Lossy script)))),
          ⟨{ s.tables with luaScripts := { s.tables.luaScripts with
            entries := s.tables.luaScripts.entries.insert
              (env.host.sha1Hex (fromUtf8Lossy script)) (fromUtf8Lossy script) } }, ctx⟩) := by
    rw [Cmd.scriptCmd, Proc.get_bind]
    dsimp only
    rw [if_pos hsub]
    split <;> rfl
  rw [Request.run, hrun, catchError, Handler.run] at hanswered
  rw [Request.next, Request.run, hrun, catchError_snd, Handler.run, Tables.HasScript]
  dsimp only at hanswered ⊢
  rw [hscript] at hanswered ⊢
  by_cases hfree : Cmd.lockedShard env.host s.tables.luaScripts
      (env.host.sha1Hex (fromUtf8Lossy script)) = true
  · rw [if_pos hfree] at hanswered
    exact absurd rfl hanswered
  · rw [if_neg hfree]
    exact AList.lookup_insert _

/-- **A script that has been loaded** is run by `EVALSHA` as by `EVAL` where its entry is being
read, for every client, until `SCRIPT FLUSH` or another script with its digest comes. -/
theorem evalsha_is_eval {H : Host} {script : Bytes} {load : Request}
    (hload : load.LoadsScript script) (hhost : load.env.host = H) {s : Store}
    (hanswered : (load.run s).1 ≠ .error .hang) {rs : List Request}
    (hrs : Run.Along Request.next (fun s r => r.env.host = H ∧
      ∀ c ∈ calls r.env r.name r.args ⟨s, r.ctx⟩, c.KeepsScript (fromUtf8Lossy script))
      (load.next s) rs)
    {env : Env} (henv : env.host = H) (ctx : ClientContext) (numKeys : Bytes) (rest : List Bytes) :
    dispatch env "EVALSHA" (asBytes (H.sha1Hex (fromUtf8Lossy script)) :: numKeys :: rest)
        ⟨rs.foldl Request.next (load.next s), ctx⟩
      = Cmd.readingScript (H.sha1Hex (fromUtf8Lossy script))
        (dispatch env "EVAL" (script :: numKeys :: rest))
        ⟨rs.foldl Request.next (load.next s), ctx⟩ := by
  subst hhost
  have hkept : (rs.foldl Request.next (load.next s)).tables.HasScript load.env.host
      (fromUtf8Lossy script) :=
    hrs.invariant (I := fun s => s.tables.HasScript load.env.host (fromUtf8Lossy script))
      (fun s r h hr => hasScript_dispatch hr.1 r.name r.args ⟨s, r.ctx⟩ hr.2 h)
      (hasScript_load hload hanswered)
  rw [dispatch_evalsha ?_ rfl, fromUtf8Lossy_asBytes]
  rw [fromUtf8Lossy_asBytes]
  exact hkept

/-- **A digest stands for nothing else.** In whatever state a server gets, `EVALSHA` finds nothing,
or runs a text with the digest that it has been given. -/
theorem evalsha_runs_digest {H : Host} {rs : List Request} (hrs : ∀ r ∈ rs, r.env.host = H) (n : ℕ)
    (env : Env) (ctx : ClientContext) (sha numKeys : Bytes) (rest : List Bytes) :
    let w : Whole := ⟨rs.foldl Request.next (Store.new n), ctx⟩
    (∃ text, H.sha1Hex text = fromUtf8Lossy sha ∧
      dispatch env "EVALSHA" (sha :: numKeys :: rest) w
        = Cmd.readingScript (fromUtf8Lossy sha)
          (dispatch env "EVAL" (asBytes text :: numKeys :: rest)) w) ∨
    (w.store.tables.deniesMemory "EVALSHA" = false →
      dispatch env "EVALSHA" (sha :: numKeys :: rest) w
        = (.ok (.error "NOSCRIPT No matching script. Please use EVAL."), w)) := by
  intro w
  have hdigested : w.store.tables.Digested H := by
    have hrun : Run.Along Request.next (fun _ r => r.env.host = H) (Store.new n) rs :=
      Run.along_of_forall hrs
    refine hrun.invariant (I := fun s => s.tables.Digested H)
      (fun s r h hr => digested_dispatch hr r.name r.args ⟨s, r.ctx⟩ h) ?_
    rintro sha text ⟨⟩
  cases hsha : w.store.tables.luaScripts.entries.lookup (fromUtf8Lossy sha) with
  | some text =>
    exact Or.inl ⟨text, hdigested _ _ hsha, dispatch_evalsha hsha (fromUtf8Lossy_asBytes text)⟩
  | none =>
    refine Or.inr fun hgate => ?_
    have hdef : (⟨"EVALSHA", -3, .evalsha⟩ : CommandDef) ∈ commands := by
      simp [commands, Cmd.luaCommands]
    have hrun : dispatch env "EVALSHA" (sha :: numKeys :: rest) w = _ :=
      dispatch_eq hdef env hgate rfl
    rw [hrun, catchError, Handler.run, Cmd.evalshaCmd, Proc.get_bind]
    dsimp only
    rw [hsha]
    rfl

/-! ### A script that returns 1 -/

/-- What SHA-1 and Lua make of `return 1`. -/
def Host.returning : Host := { Host.plain with
  sha1Hex := fun _ => "e0e1f9fabfc9d4800c877a703b823ac0578ff8db"
  lua := fun _ _ _ => .ret (.integer 1) }

/-- A request on that host. -/
def Request.returning (client : ℕ) (name : String) (args : List Bytes) : Request :=
  ⟨client, {}, Moment.on ⟨0, 0, 0, 1⟩ Host.returning, name, args⟩

/-- The request that loads it. -/
def Request.loadReturn : Request :=
  .returning 0 "SCRIPT" [asBytes "load", asBytes "return 1"]

/-- Others set a key, run the script and look for it, in the meantime. -/
def otherRequests : List Request :=
  [.returning 1 "SET" [[97], [53]], .returning 1 "EVAL" [asBytes "return 1", [48]],
    .returning 2 "SCRIPT" [asBytes "EXISTS", [97]]]

theorem evalsha_is_eval_return :
    dispatch (Moment.on ⟨0, 0, 0, 1⟩ Host.returning) "EVALSHA"
        [asBytes "e0e1f9fabfc9d4800c877a703b823ac0578ff8db", [48]]
        ⟨otherRequests.foldl Request.next (Request.loadReturn.next (Store.new 1)), {}⟩
      = Cmd.readingScript "e0e1f9fabfc9d4800c877a703b823ac0578ff8db"
        (dispatch (Moment.on ⟨0, 0, 0, 1⟩ Host.returning) "EVAL" [asBytes "return 1", [48]])
        ⟨otherRequests.foldl Request.next (Request.loadReturn.next (Store.new 1)), {}⟩ := by
  have hload : Request.loadReturn.LoadsScript (asBytes "return 1") :=
    ⟨rfl, asBytes "load", [], rfl, by decide +kernel⟩
  have hrs : Run.Along Request.next (fun s r => r.env.host = Host.returning ∧
      ∀ c ∈ calls r.env r.name r.args ⟨s, r.ctx⟩,
        c.KeepsScript (fromUtf8Lossy (asBytes "return 1")))
      (Request.loadReturn.next (Store.new 1)) otherRequests :=
    ⟨⟨rfl, by decide +kernel⟩, ⟨rfl, by decide +kernel⟩, ⟨rfl, by decide +kernel⟩, trivial⟩
  have hanswered : (Request.loadReturn.run (Store.new 1)).1 ≠ .error .hang :=
    fun h => nomatch h
  exact evalsha_is_eval hload rfl hanswered hrs rfl {} [48] []

/-- Nothing is found under another digest. -/
theorem evalsha_runs_digest_other :
    dispatch (Moment.on ⟨0, 0, 0, 1⟩ Host.returning) "EVALSHA" [[97], [48]]
        ⟨(Request.loadReturn :: otherRequests).foldl Request.next (Store.new 1), {}⟩
      = (.ok (.error "NOSCRIPT No matching script. Please use EVAL."),
        ⟨(Request.loadReturn :: otherRequests).foldl Request.next (Store.new 1), {}⟩) := by
  have hrs : ∀ r ∈ Request.loadReturn :: otherRequests, r.env.host = Host.returning := by
    simp only [otherRequests, List.forall_mem_cons]
    exact ⟨rfl, rfl, rfl, rfl, List.forall_mem_nil _⟩
  rcases evalsha_runs_digest hrs 1 (Moment.on ⟨0, 0, 0, 1⟩ Host.returning) {} [97] [48] [] with
    ⟨text, htext, -⟩ | h
  · have hsha : "e0e1f9fabfc9d4800c877a703b823ac0578ff8db" ≠ fromUtf8Lossy [97] := by decide +kernel
    exact absurd htext hsha
  · exact h (by decide +kernel)

end VeloDB
