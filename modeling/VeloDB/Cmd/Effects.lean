import VeloDB.Cmd.Table

/-!
# What all commands have in common

A relation between the states before and after a command can often be followed through the commands
without looking at what they are for. `Tolerant` relations follow the commands that only change the
context and the tables beside the databases, and `Blind` relations follow `EXEC` and scripts into
the commands that these run.

## Main results

* `Tolerant.subscribe` and the like — the commands of connections and of scripts
* `IgnoresTables.xreadgroup`, `IgnoresStore.xgroup` and the like — the commands that leave the
  context alone
* `Blind.dispatchDepth` — every command, once the handlers are known
-/

namespace VeloDB

open Rust Proc

namespace Cmd

/-! ### Commands on the context -/

/-- A relation that does not mind changes of the subscribers, of the scripts and of the scan
cursors, and changes of the context that leave the watched keys alone. -/
structure Tolerant (R : Side → Side → Prop) : Prop where
  pubSub : ∀ s r, R s { s with tables := { s.tables with pubsubRegistry := r } }
  scripts : ∀ s m, R s { s with tables := { s.tables with luaScripts := m } }
  cursors : ∀ s m n, R s { s with
    tables := { s.tables with scanCursors := m, nextScanCursor := n } }
  ctx : ∀ s c, c.watchedKeys = s.ctx.watchedKeys → c.watchedVersions = s.ctx.watchedVersions →
    R s { s with ctx := c }

/-- Nothing but the scan cursors has been changed. -/
def OnlyCursors (t t' : Tables) : Prop :=
  ∃ m n, t' = { t with scanCursors := m, nextScanCursor := n }

instance : Std.Refl OnlyCursors := ⟨fun t => ⟨t.scanCursors, t.nextScanCursor, rfl⟩⟩

instance : IsTrans Tables OnlyCursors where
  trans := by
    rintro t _ _ ⟨m, n, rfl⟩ ⟨m', n', rfl⟩
    exact ⟨m', n', rfl⟩

theorem onlyCursors_scanKeys (now : UInt64) (dbs : Databases) (i : ℕ) (cursor : UInt64)
    (pattern : Option String) (count : ℕ) :
    Moves OnlyCursors (Tables.scanKeys now dbs i cursor pattern count) := by
  have hmodify : ∀ f : Tables → HashMap ℕ Bytes × ℕ, Moves OnlyCursors (Proc.modify fun t =>
      { t with scanCursors := (f t).1, nextScanCursor := (f t).2 } : TableM Unit) :=
    fun f t => ⟨_, _, rfl⟩
  refine (moves_ofExcept _).bind fun d => moves_get.bind fun t => ?_
  split
  · exact moves_pure _
  · refine (hmodify fun t => (t.scanCursors.erase cursor.toNat, t.nextScanCursor)).bind fun _ => ?_
    dsimp only
    split
    · exact moves_get.bind fun t' => (hmodify fun t => (_, _)).bind fun _ => moves_pure _
    · exact moves_pure _

section Tables

variable {R : Side → Side → Prop} [Std.Refl R] [IsTrans Side R] (env : Env) (dbs : Databases)
  (args : List Bytes)

theorem moves_publish
    (hR : ∀ s r, R s { s with tables := { s.tables with pubsubRegistry := r } }) :
    Moves R (publish env dbs args) :=
  (moves_ofExcept _).bind fun _ => (moves_ofExcept _).bind fun _ => moves_get.bind fun _ =>
    Moves.bind (fun s => hR s _) fun _ => moves_pure _

theorem moves_scriptCmd
    (hR : ∀ s m, R s { s with tables := { s.tables with luaScripts := m } }) :
    Moves R (scriptCmd env dbs args) := by
  have hscripts : ∀ f, Moves R (modifyScripts f) := fun f s => hR s _
  refine moves_get.bind fun s => ?_
  cases args with
  | nil => exact moves_fail _
  | cons sub rest =>
    dsimp only
    split
    · split
      · exact moves_fail _
      · split
        · exact moves_fail _
        · exact (hscripts _).bind fun _ => moves_pure _
    · split
      · exact moves_pure _
      · split
        · split
          · exact (hscripts _).bind fun _ => moves_pure _
          · exact (hscripts _).bind fun _ => moves_fail _
        · exact moves_fail _

theorem moves_scanCmd (hR : ∀ s m n, R s { s with
    tables := { s.tables with scanCursors := m, nextScanCursor := n } }) :
    Moves R (scanCmd env dbs args) := by
  have hscan : ∀ i cursor pattern count,
      Moves R (onTables (Tables.scanKeys env.now dbs i cursor pattern count)) := by
    intro i cursor pattern count s
    obtain ⟨m, n, h⟩ := onlyCursors_scanKeys env.now dbs i cursor pattern count s.tables
    rw [onTables, h]
    exact hR s m n
  exact (moves_ofExcept _).bind fun _ => (moves_ofExcept _).bind fun _ =>
    (moves_ofExcept _).bind fun _ => (moves_ofExcept _).bind fun _ => moves_get.bind fun _ =>
    (hscan _ _ _ _).bind fun _ => moves_pure _

end Tables

namespace Tolerant

variable {R : Side → Side → Prop} [Std.Refl R] [IsTrans Side R] (hR : Tolerant R) (env : Env)
  (dbs : Databases) (args : List Bytes)

include hR

omit [Std.Refl R] [IsTrans Side R] in
theorem modifyPubSub (f : PubSubRegistry → PubSubRegistry) : Moves R (modifyPubSub f) :=
  fun s => hR.pubSub s _

omit [Std.Refl R] in
/-- A change of the context, then the rest. -/
theorem modifyCtx {α : Type} {f : ClientContext → ClientContext}
    (hf : ∀ c, (f c).watchedKeys = c.watchedKeys ∧ (f c).watchedVersions = c.watchedVersions)
    {m : Unit → SideM α} (hm : ∀ u, Moves R (m u)) :
    Moves R (modifyCtx f >>= m) := by
  have hctx : Moves R (Cmd.modifyCtx f) := fun s => hR.ctx s _ (hf s.ctx).1 (hf s.ctx).2
  exact hctx.bind hm

theorem setReceiver (rx : Option ℕ) : Moves R (setReceiver rx) :=
  moves_get.bind fun _ => (hR.modifyPubSub _).bind fun _ => fun s => hR.ctx s _ rfl rfl

theorem newReceiver (register : PubSubRegistry → ℕ → PubSubRegistry) :
    Moves R (newReceiver register) :=
  moves_get.bind fun _ => (hR.modifyPubSub _).bind fun _ => hR.setReceiver _

theorem leaveSubMode : Moves R leaveSubMode := by
  refine moves_get.bind fun s => ?_
  split
  · exact hR.modifyCtx (fun _ => by exact ⟨rfl, rfl⟩) fun _ => hR.setReceiver none
  · exact moves_pure ()

theorem subscribe : Moves R (subscribe env dbs args) := by
  rw [Cmd.subscribe]
  split
  · exact moves_pure _
  · refine (moves_foldEach (fun acc ch _ => ?_) []).bind fun _ =>
      hR.modifyCtx (fun _ => by exact ⟨rfl, rfl⟩) fun _ => moves_pure _
    exact hR.modifyCtx (fun _ => by exact ⟨rfl, rfl⟩) fun _ => (hR.newReceiver _).bind
      fun _ => moves_get.bind fun _ => moves_pure _

theorem psubscribe : Moves R (psubscribe env dbs args) := by
  rw [Cmd.psubscribe]
  split
  · exact moves_pure _
  · refine (moves_foldEach (fun acc p _ => ?_) []).bind fun _ =>
      hR.modifyCtx (fun _ => by exact ⟨rfl, rfl⟩) fun _ => moves_pure _
    exact hR.modifyCtx (fun _ => by exact ⟨rfl, rfl⟩) fun _ => (hR.newReceiver _).bind
      fun _ => moves_get.bind fun _ => moves_pure _

theorem unsubscribe : Moves R (unsubscribe env dbs args) := by
  rw [Cmd.unsubscribe]
  split
  · exact hR.modifyCtx (fun _ => by exact ⟨rfl, rfl⟩) fun _ => (hR.setReceiver none).bind
      fun _ => (moves_pure _).bind fun _ => hR.leaveSubMode.bind fun _ => moves_pure _
  · refine (moves_foldEach (fun acc ch _ => ?_) []).bind
      fun _ => hR.leaveSubMode.bind fun _ => moves_pure _
    exact hR.modifyCtx (fun _ => by exact ⟨rfl, rfl⟩) fun _ => moves_get.bind fun _ => moves_pure _

theorem punsubscribe : Moves R (punsubscribe env dbs args) := by
  rw [Cmd.punsubscribe]
  split
  · exact hR.modifyCtx (fun _ => by exact ⟨rfl, rfl⟩) fun _ => (hR.setReceiver none).bind
      fun _ => hR.leaveSubMode.bind fun _ => moves_pure _
  · exact hR.modifyCtx (fun _ => by exact ⟨rfl, rfl⟩) fun _ => hR.leaveSubMode.bind
      fun _ => moves_pure _

theorem publish : Moves R (publish env dbs args) := moves_publish env dbs args hR.pubSub

theorem multi : Moves R (multi env dbs args) :=
  hR.modifyCtx (fun _ => by exact ⟨rfl, rfl⟩) fun _ => moves_pure _

theorem select : Moves R (select env dbs args) :=
  (moves_ofExcept _).bind fun _ => hR.modifyCtx (fun _ => by exact ⟨rfl, rfl⟩) fun _ => moves_pure _

theorem scriptCmd : Moves R (scriptCmd env dbs args) := moves_scriptCmd env dbs args hR.scripts

theorem scanCmd : Moves R (scanCmd env dbs args) := moves_scanCmd env dbs args hR.cursors

end Tolerant

/-- A check, then the rest. -/
theorem moves_check {σ β : Type} {R : σ → σ → Prop} [Std.Refl R] [IsTrans σ R] {p : Prop}
    [Decidable p] {e : Failure} {m : Unit → Proc σ Failure β} (hm : ∀ u, Moves R (m u)) :
    Moves R (if p then Proc.fail e >>= m else m ()) := by
  split
  · exact (moves_fail e).bind hm
  · exact hm ()

/-! ### Commands that leave the context alone -/

/-- A relation that does not mind changes of the tables. -/
def IgnoresTables (R : Side → Side → Prop) : Prop := ∀ s t, R s { s with tables := t }

namespace IgnoresTables

variable {R : Side → Side → Prop} [Std.Refl R] [IsTrans Side R] (hR : IgnoresTables R) (env : Env)
  (dbs : Databases) (args : List Bytes)

include hR

omit [Std.Refl R] [IsTrans Side R] in
theorem onTables {α : Type} (m : TableM α) : Moves R (onTables m) := fun s => hR s _

theorem xreadgroupStreams (i : ℕ) (group consumer : String) (o : Option ℕ × Bool)
    (streams : List (Bytes × Bytes)) :
    Moves R (xreadgroupStreams env dbs i group consumer o streams) := by
  induction streams with
  | nil => exact moves_pure _
  | cons p streams ih => exact (hR.onTables _).bind fun _ => ih.bind fun _ => moves_pure _

theorem xreadgroup : Moves R (xreadgroup env dbs args) :=
  moves_get.bind fun _ => moves_check fun _ => (moves_ofExcept _).bind fun _ =>
    (moves_ofExcept _).bind fun _ => (moves_ofExcept _).bind fun _ => moves_check fun _ =>
    (hR.xreadgroupStreams env dbs _ _ _ _ _).bind fun _ => moves_pure _

theorem xack : Moves R (xack env dbs args) :=
  moves_get.bind fun _ => (moves_ofExcept _).bind fun _ => (moves_ofExcept _).bind fun _ =>
    (moves_ofExcept _).bind fun _ => (hR.onTables _).bind fun _ => moves_pure _

omit hR in
theorem xpending : Moves R (xpending env dbs args) := by
  refine moves_get.bind fun s => (moves_ofExcept _).bind fun _ => (moves_ofExcept _).bind
    fun _ => ?_
  dsimp only
  split
  · exact (moves_ofExcept _).bind fun _ => moves_pure _
  · exact moves_check fun _ => (moves_ofExcept _).bind fun _ => (moves_ofExcept _).bind fun _ =>
      (moves_ofExcept _).bind fun _ => (moves_ofExcept _).bind fun _ => (moves_ofExcept _).bind
      fun _ => moves_pure _

theorem publish : Moves R (publish env dbs args) := moves_publish env dbs args fun s _ => hR s _

theorem scriptCmd : Moves R (scriptCmd env dbs args) :=
  moves_scriptCmd env dbs args fun s _ => hR s _

theorem scanCmd : Moves R (scanCmd env dbs args) := moves_scanCmd env dbs args fun s _ _ => hR s _

theorem xclaim : Moves R (xclaim env dbs args) :=
  moves_get.bind fun _ => (moves_ofExcept _).bind fun _ => (moves_ofExcept _).bind fun _ =>
    (moves_ofExcept _).bind fun _ => (moves_ofExcept _).bind fun _ => moves_check fun _ =>
    (moves_ofExcept _).bind fun _ => (hR.onTables _).bind fun _ => moves_pure _

end IgnoresTables

/-- A step that reads a script does what it does, for a relation that does not mind the readers. -/
theorem moves_readingScript {R : Whole → Whole → Prop} [IsTrans Whole R]
    (hreaders : ∀ w readers, R w (setReaders readers w)) {α : Type} (sha : String) {m : WholeM α}
    (hm : Moves R m) : Moves R (readingScript sha m) := by
  intro w
  obtain ⟨readers, h⟩ := readingScript_snd sha m w
  rw [h]
  exact trans_of R (hreaders w _) (trans_of R (hm _) (hreaders _ readers))

section Scripts

variable {R : Whole → Whole → Prop} [Std.Refl R] [IsTrans Whole R] (env : Env)
  {dispatch : Dispatch}
  (hcall : ∀ db callArgs, Moves R (redisCall dispatch env db callArgs))

include hcall

/-- What the calls of a script do, the script does. -/
theorem moves_runScript (db : ℕ) (p : LuaProc) : Moves R (runScript dispatch env db p) := by
  induction p with
  | ret v => exact moves_pure _
  | fail msg => exact moves_pure _
  | panic => exact moves_fail _
  | call callArgs k ih => exact (hcall db callArgs).bind ih

theorem moves_evalCmd (args : List Bytes) : Moves R (evalCmd dispatch env args) := by
  refine moves_get.bind fun w => ?_
  split
  · dsimp only
    split
    · exact moves_fail _
    · exact moves_runScript env hcall _ _
  · exact moves_fail _

theorem moves_evalshaCmd (hreaders : ∀ w readers, R w (setReaders readers w))
    (args : List Bytes) : Moves R (evalshaCmd dispatch env args) := by
  refine moves_get.bind fun w => ?_
  split
  · split
    · exact moves_readingScript hreaders _ (moves_evalCmd env hcall _)
    · exact moves_pure _
  · exact moves_fail _

end Scripts

/-- A relation that does not mind changes of the store. -/
def IgnoresStore (R : Whole → Whole → Prop) : Prop := ∀ w s, R w { w with store := s }

namespace IgnoresStore

variable {R : Whole → Whole → Prop} [Std.Refl R] [IsTrans Whole R] (hR : IgnoresStore R) (env : Env)
  (args : List Bytes)

include hR

omit [Std.Refl R] [IsTrans Whole R] in
theorem modify (f : Whole → Store) :
    Moves R (Proc.modify (fun w => { w with store := f w }) : WholeM Unit) := fun w => hR w _

theorem xgroupCreate (now : UInt64) (i : ℕ) (k : Bytes) (group : String) (startId : Bytes)
    (mkstream : Bool) : Moves R (xgroupCreate now i k group startId mkstream) := by
  refine moves_get.bind fun w => (moves_ofExcept _).bind fun type => ?_
  cases type with
  | none =>
    exact moves_check fun _ => (hR.modify _).bind fun _ => moves_get.bind fun _ => hR.modify _
  | some t => exact moves_check fun _ => moves_get.bind fun _ => hR.modify _

theorem onTablesOfStore {α : Type} (m : TableM α) (g : α → RespValue) :
    Moves R (onTablesOfStore m >>= fun a => pure (g a)) := by
  have htables : Moves R (VeloDB.onTablesOfStore m) := fun w => hR w _
  exact htables.bind fun a => moves_pure (g a)

theorem xgroup : Moves R (xgroup env args) := by
  refine moves_get.bind fun w => ?_
  cases args with
  | nil => exact moves_fail _
  | cons sub rest =>
    dsimp only
    split
    · split
      · exact (hR.xgroupCreate _ _ _ _ _ _).bind fun _ => moves_pure _
      · exact moves_fail _
    · split
      · split
        · exact hR.onTablesOfStore _ _
        · exact moves_fail _
      · split
        · split
          · exact hR.onTablesOfStore _ _
          · exact moves_fail _
        · split
          · split
            · exact hR.onTablesOfStore _ _
            · exact moves_fail _
          · exact moves_fail _

omit [Std.Refl R] [IsTrans Whole R] in
/-- A script runs its commands in a context of its own. -/
theorem redisCall (dispatch : Dispatch) (db : ℕ) (callArgs : List LuaValue) :
    Moves R (redisCall dispatch env db callArgs) := by
  have hctx : ∀ w, (Cmd.redisCall dispatch env db callArgs w).2.ctx = w.ctx := by
    intro w
    rw [Cmd.redisCall]
    split
    · rfl
    · rfl
    · next name rest _ =>
      have hctx : (withContext { dbIndex := db } (dispatch (upper env name) rest) w).2.ctx
          = w.ctx := rfl
      split <;> next h => rwa [h] at hctx
  intro w
  have hstore := hR w (Cmd.redisCall dispatch env db callArgs w).2.store
  rwa [← hctx w] at hstore

theorem evalCmd (dispatch : Dispatch) : Moves R (evalCmd dispatch env args) :=
  moves_evalCmd env (hR.redisCall env dispatch) args

theorem evalshaCmd (dispatch : Dispatch) : Moves R (evalshaCmd dispatch env args) :=
  moves_evalshaCmd env (hR.redisCall env dispatch) (fun w _ => hR w _) args

end IgnoresStore

/-! ### Commands that run other commands -/

section Exec

variable {R : Whole → Whole → Prop} [Std.Refl R] [IsTrans Whole R] (env : Env)
  {dispatch : Dispatch}

theorem moves_execQueue (hdispatch : ∀ name args, Moves R (dispatch name args))
    (queue : List (List Bytes)) : Moves R (execQueue dispatch env queue) := by
  induction queue with
  | nil => exact moves_pure _
  | cons c queue ih =>
    exact (moves_ofExcept _).bind fun _ => (hdispatch _ _).bind fun _ => ih.bind
      fun _ => moves_pure _

/-- `EXEC` ends the transaction and runs the commands. -/
theorem moves_exec (htake : ∀ w, R w { w with ctx := takeTransaction w.ctx })
    (hdispatch : ∀ name args, Moves R (dispatch name args)) : Moves R (exec dispatch env) := by
  refine moves_get.bind fun w => ?_
  split
  · exact moves_fail _
  · refine Moves.bind (fun w => htake w) fun _ => (moves_ofExcept _).bind fun unchanged => ?_
    split
    · exact (moves_execQueue env hdispatch _).bind fun _ => moves_pure _
    · exact moves_pure _

end Exec

/-- A relation that does not look at the context, at the subscribers and at who reads the
scripts. -/
structure Blind (R : Whole → Whole → Prop) : Prop where
  ctx : ∀ w c, R w { w with ctx := c }
  pubSub : ∀ w r, R w { w with store := { w.store with
    tables := { w.store.tables with pubsubRegistry := r } } }
  readers : ∀ w readers, R w (setReaders readers w)

namespace Blind

variable {R : Whole → Whole → Prop} [Std.Refl R] [IsTrans Whole R] (hR : Blind R) (env : Env)
  {dispatch : Dispatch} (hdispatch : ∀ name args, Moves R (dispatch name args))

include hR hdispatch

theorem exec : Moves R (exec dispatch env) := moves_exec env (fun w => hR.ctx w _) hdispatch

theorem redisCall (db : ℕ) (callArgs : List LuaValue) :
    Moves R (redisCall dispatch env db callArgs) := by
  intro w
  have hcontext : ∀ name rest,
      R w (withContext { dbIndex := db } (dispatch (upper env name) rest) w).2 := by
    intro name rest
    have hbefore := hR.ctx w { dbIndex := db }
    have hrun := hdispatch (upper env name) rest { w with ctx := { dbIndex := db } }
    have hafter := hR.ctx
      (dispatch (upper env name) rest { w with ctx := { dbIndex := db } }).2 w.ctx
    exact trans_of R (trans_of R hbefore hrun) (trans_of R hafter (hR.pubSub _ _))
  rw [Cmd.redisCall]
  split
  · exact refl_of R w
  · exact refl_of R w
  · next name rest _ =>
    have hw := hcontext name rest
    split <;> next h => rwa [h] at hw

theorem evalCmd (args : List Bytes) : Moves R (evalCmd dispatch env args) :=
  moves_evalCmd env (hR.redisCall env hdispatch) args

theorem evalshaCmd (args : List Bytes) : Moves R (evalshaCmd dispatch env args) :=
  moves_evalshaCmd env (hR.redisCall env hdispatch) hR.readers args

end Blind

end Cmd

/-- Every run of the handler takes the state along `R`, unless the handler runs other commands. -/
def Handler.MovesAlong (R : Whole → Whole → Prop) : Handler → Prop
  | .read _ | .exec | .eval | .evalsha => True
  | .write f => ∀ dispatch env args, Moves R (Handler.run dispatch env args (.write f))
  | .side f => ∀ dispatch env args, Moves R (Handler.run dispatch env args (.side f))
  | .whole f => ∀ env args, Moves R (f env args)

theorem Handler.MovesAlong.mono {R R' : Whole → Whole → Prop} {h : Handler}
    (hh : h.MovesAlong R) (hR : ∀ w w', R w w' → R' w w') : h.MovesAlong R' := by
  cases h with
  | read | exec | eval | evalsha => trivial
  | write f => exact fun dispatch env args w => hR _ _ (hh dispatch env args w)
  | side f => exact fun dispatch env args w => hR _ _ (hh dispatch env args w)
  | whole f => exact fun env args w => hR _ _ (hh env args w)

/-- **Every command** takes the state along a relation that its handlers take it along. -/
theorem Cmd.Blind.dispatchDepth {R : Whole → Whole → Prop} [Std.Refl R] [IsTrans Whole R]
    (hR : Cmd.Blind R) (hhandlers : ∀ c ∈ commands, c.handler.MovesAlong R) (env : Env)
    (depth : ℕ) (name : String) (args : List Bytes) :
    Moves R (dispatchDepth env depth name args) := by
  induction depth generalizing name args with
  | zero => exact moves_fail _
  | succ depth ih =>
    intro w
    rcases dispatchDepth_snd env depth name args w with h | ⟨c, hc, -, h⟩
    · rw [h]
      exact refl_of R w
    · rw [h]
      have hmoves := hhandlers c hc
      cases hh : c.handler with
      | read f => exact refl_of R w
      | write f =>
        rw [hh] at hmoves
        exact hmoves _ env args w
      | side f =>
        rw [hh] at hmoves
        exact hmoves _ env args w
      | whole f =>
        rw [hh] at hmoves
        exact hmoves env args w
      | exec => exact hR.exec env ih w
      | eval => exact hR.evalCmd env ih args w
      | evalsha => exact hR.evalshaCmd env ih args w

end VeloDB
