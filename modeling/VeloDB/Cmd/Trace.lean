import VeloDB.Cmd.Effects
import VeloDB.Lib.Run

/-!
# The commands that a command runs

`EXEC` runs the commands of its queue and a script those that it calls, and each of them may be an
`EXEC` or a script again. `callsDepth` collects, in their order, the calls of the handlers that do
something themselves, each with the state that it found. What each of them keeps, the command keeps.

## Main definitions

* `calls` — the calls of a command
* `Composes` — a property of the calls between two states that goes from one run to the next
* `KeepsBy`, `Switched` — two such properties: an invariant, and something that some calls switch on
  and others off

## Main results

* `composes_calls` — what holds of every call alone holds of the calls of a command
* `keeps_calls` — an invariant of the calls is one of the command
* `switched_calls` — what is on after a command has been switched on by one of its calls, or was on
-/

namespace VeloDB

open Rust Proc

/-- A handler, called. -/
structure Call where
  command : CommandDef
  args : List Bytes
  env : Env
  before : Whole

namespace Call

/-- What the call replies and leaves. The handler runs no other commands. -/
def run (c : Call) : Except Failure RespValue × Whole :=
  c.command.handler.run (fun _ _ => Proc.fail .panic) c.env c.args c.before

/-- The reply. -/
def reply (c : Call) : Except Failure RespValue := c.run.1

/-- The state afterwards. -/
def after (c : Call) : Whole := c.run.2

/-- The memory gate lets the call through. -/
def Allowed (c : Call) : Prop := c.before.store.tables.deniesMemory c.command.name = false

end Call

/-- The handler runs no other commands. -/
def Handler.isLeaf : Handler → Bool
  | .exec | .eval | .evalsha => false
  | _ => true

/-- Which calls a command makes, when others run it. -/
abbrev CallsOf := String → List Bytes → Whole → List Call

namespace Cmd

variable (dispatch : Dispatch) (calls : CallsOf) (env : Env)

/-- The calls of the queue of a transaction. -/
def queueCalls : List (List Bytes) → Whole → List Call
  | [], _ => []
  | args :: queue, w =>
    match arg args 0 with
    | .ok name => calls (upper env name) args.tail w ++
      match dispatch (upper env name) args.tail w with
      | (.ok _, w') => queueCalls queue w'
      | (.error _, _) => []
    | .error _ => []

/-- The calls of `EXEC`. -/
def execCalls (w : Whole) : List Call :=
  if !w.ctx.multiMode then []
  else match checkWatched env.now w.store.databases w.ctx.dbIndex w.ctx.watchedKeys
      w.ctx.watchedVersions with
    | .ok true => queueCalls dispatch calls env w.ctx.multiQueue
        { w with ctx := takeTransaction w.ctx }
    | _ => []

/-- The calls of `redis.call`. -/
def redisCallCalls (db : ℕ) (args : List LuaValue) (w : Whole) : List Call :=
  match callArgs env.host args with
  | .ok (name :: rest) => calls (upper env name) rest { w with ctx := { dbIndex := db } }
  | _ => []

/-- The calls of a script. -/
def scriptCalls (db : ℕ) : LuaProc → Whole → List Call
  | .call args k, w => redisCallCalls calls env db args w ++
    match redisCall dispatch env db args w with
    | (.ok answer, w') => scriptCalls db (k answer) w'
    | (.error _, _) => []
  | _, _ => []

/-- The calls of `EVAL`. -/
def evalCalls (args : List Bytes) (w : Whole) : List Call :=
  match args with
  | script :: numKeys :: rest =>
    let stop := min ((2 + (argUsize numKeys).getD 0) % 2 ^ 64) args.length
    if stop < 2 then []
    else scriptCalls dispatch calls env w.ctx.dbIndex (env.host.lua (fromUtf8Lossy script)
      ((rest.take (stop - 2)).map fromUtf8Lossy) ((rest.drop (stop - 2)).map fromUtf8Lossy)) w
  | _ => []

/-- The calls of `EVALSHA`. -/
def evalshaCalls (args : List Bytes) (w : Whole) : List Call :=
  match args with
  | sha :: numKeys :: rest =>
    match w.store.tables.luaScripts.entries.lookup (fromUtf8Lossy sha) with
    | some script => evalCalls dispatch calls env (asBytes script :: numKeys :: rest)
        (setReaders (fromUtf8Lossy sha :: w.store.tables.luaScripts.readers) w)
    | none => []
  | _ => []

end Cmd

/-- The calls of a handler. -/
def CommandDef.calls (dispatch : Dispatch) (calls : CallsOf) (env : Env) (c : CommandDef)
    (args : List Bytes) (w : Whole) : List Call :=
  match c.handler with
  | .exec => Cmd.execCalls dispatch calls env w
  | .eval => Cmd.evalCalls dispatch calls env args w
  | .evalsha => Cmd.evalshaCalls dispatch calls env args w
  | _ => [⟨c, args, env, w⟩]

/-- The calls of a command, to a given depth of nesting. -/
def callsDepth (env : Env) : ℕ → CallsOf
  | 0 => fun _ _ _ => []
  | depth + 1 => fun name args w =>
    if w.store.tables.deniesMemory name then []
    else match findCommand name with
      | some c => if c.refuses args then []
        else c.calls (dispatchDepth env depth) (callsDepth env depth) env args w
      | none => []

/-- The calls of a command. -/
def calls (env : Env) : CallsOf := callsDepth env (env.nesting + 1)

/-! ### From calls to commands -/

/-- A property of the calls between two states that holds where there are none, also if the context,
the subscribers or the readers of the scripts change, and of one run after another. -/
structure Composes (K : List Call → Whole → Whole → Prop) : Prop where
  refl : ∀ w, K [] w w
  ctx : ∀ w c, K [] w { w with ctx := c }
  pubSub : ∀ w r, K [] w { w with store := { w.store with
    tables := { w.store.tables with pubsubRegistry := r } } }
  readers : ∀ w readers, K [] w (Cmd.setReaders readers w)
  append : ∀ {calls calls' : List Call} {w w' w'' : Whole},
    K calls w w' → K calls' w' w'' → K (calls ++ calls') w w''

section Composes

variable {K : List Call → Whole → Whole → Prop}

theorem Composes.before (hK : Composes K) {calls : List Call} {v w w' : Whole} (hv : K [] v w)
    (h : K calls w w') : K calls v w' := hK.append hv h

theorem Composes.after (hK : Composes K) {calls : List Call} {w w' v : Whole} (h : K calls w w')
    (hv : K [] w' v) : K calls w v := by
  have happend := hK.append h hv
  rwa [List.append_nil] at happend

variable (hK : Composes K) (env : Env) {dispatch : Dispatch} {calls : CallsOf}
  (hcalls : ∀ name args w, K (calls name args w) w (dispatch name args w).2)

include hK hcalls

theorem composes_queueCalls (queue : List (List Bytes)) (w : Whole) :
    K (Cmd.queueCalls dispatch calls env queue w) w (Cmd.execQueue dispatch env queue w).2 := by
  induction queue generalizing w with
  | nil => exact hK.refl w
  | cons args queue ih =>
    rw [Cmd.queueCalls, Cmd.execQueue]
    cases hname : arg args 0 with
    | error e => exact hK.refl w
    | ok name =>
      dsimp only
      have hfirst := hcalls (upper env name) args.tail w
      rw [lift_ok_bind]
      rcases hrun : dispatch (upper env name) args.tail w with ⟨r, w'⟩
      rw [hrun] at hfirst
      cases r with
      | error e =>
        rw [Proc.bind_error hrun]
        exact hK.append hfirst (hK.refl w')
      | ok resp =>
        rw [Proc.bind_ok hrun]
        refine hK.append hfirst ?_
        have hrest := ih w'
        rcases hqueue : Cmd.execQueue dispatch env queue w' with ⟨r, w''⟩
        rw [hqueue] at hrest
        cases r with
        | error e => rwa [Proc.bind_error hqueue]
        | ok results => rwa [Proc.bind_ok hqueue]

theorem composes_execCalls (w : Whole) :
    K (Cmd.execCalls dispatch calls env w) w (Cmd.exec dispatch env w).2 := by
  rw [Cmd.execCalls, Cmd.exec, Proc.get_bind]
  split
  · exact hK.refl w
  · rw [Proc.modify_bind]
    cases hwatched : Cmd.checkWatched env.now w.store.databases w.ctx.dbIndex w.ctx.watchedKeys
      w.ctx.watchedVersions with
    | error e => exact hK.ctx w _
    | ok unchanged =>
      rw [lift_ok_bind]
      cases unchanged with
      | false => exact hK.ctx w _
      | true =>
        have hqueue := composes_queueCalls hK env hcalls w.ctx.multiQueue
          { w with ctx := Cmd.takeTransaction w.ctx }
        rw [if_pos rfl]
        dsimp only
        rcases hrun : Cmd.execQueue dispatch env w.ctx.multiQueue
          { w with ctx := Cmd.takeTransaction w.ctx } with ⟨r, w'⟩
        rw [hrun] at hqueue
        cases r with
        | error e =>
          rw [Proc.bind_error hrun]
          exact hK.before (hK.ctx w _) hqueue
        | ok results =>
          rw [Proc.bind_ok hrun]
          exact hK.before (hK.ctx w _) hqueue

theorem composes_redisCallCalls (db : ℕ) (args : List LuaValue) (w : Whole) :
    K (Cmd.redisCallCalls calls env db args w) w (Cmd.redisCall dispatch env db args w).2 := by
  rw [Cmd.redisCallCalls, Cmd.redisCall]
  cases Cmd.callArgs env.host args with
  | error msg => exact hK.refl w
  | ok l =>
    cases l with
    | nil => exact hK.refl w
    | cons name rest =>
      dsimp only
      have hrun := hcalls (upper env name) rest { w with ctx := { dbIndex := db } }
      have hcontext : K (calls (upper env name) rest { w with ctx := { dbIndex := db } }) w
          (Cmd.withContext { dbIndex := db } (dispatch (upper env name) rest) w).2 :=
        hK.after (hK.before (hK.ctx w _) hrun) (hK.before (hK.pubSub _ _) (hK.ctx _ w.ctx))
      split <;> next h => rwa [h] at hcontext

theorem composes_scriptCalls (db : ℕ) (p : LuaProc) (w : Whole) :
    K (Cmd.scriptCalls dispatch calls env db p w) w (Cmd.runScript dispatch env db p w).2 := by
  induction p generalizing w with
  | ret v => exact hK.refl w
  | fail msg => exact hK.refl w
  | panic => exact hK.refl w
  | call args k ih =>
    have hcall := composes_redisCallCalls hK env hcalls db args w
    rw [Cmd.scriptCalls, Cmd.runScript]
    rcases hrun : Cmd.redisCall dispatch env db args w with ⟨r, w'⟩
    rw [hrun] at hcall
    cases r with
    | error e =>
      rw [Proc.bind_error hrun]
      exact hK.append hcall (hK.refl w')
    | ok answer =>
      rw [Proc.bind_ok hrun]
      exact hK.append hcall (ih answer w')

theorem composes_evalCalls (args : List Bytes) (w : Whole) :
    K (Cmd.evalCalls dispatch calls env args w) w (Cmd.evalCmd dispatch env args w).2 := by
  rw [Cmd.evalCmd, Proc.get_bind]
  rcases args with _ | ⟨script, _ | ⟨numKeys, rest⟩⟩
  · exact hK.refl w
  · exact hK.refl w
  · rw [Cmd.evalCalls]
    dsimp only
    split
    · exact hK.refl w
    · exact composes_scriptCalls hK env hcalls _ _ w

theorem composes_evalshaCalls (args : List Bytes) (w : Whole) :
    K (Cmd.evalshaCalls dispatch calls env args w) w (Cmd.evalshaCmd dispatch env args w).2 := by
  rw [Cmd.evalshaCmd, Proc.get_bind]
  rcases args with _ | ⟨sha, _ | ⟨numKeys, rest⟩⟩
  · exact hK.refl w
  · exact hK.refl w
  · rw [Cmd.evalshaCalls]
    dsimp only
    cases w.store.tables.luaScripts.entries.lookup (fromUtf8Lossy sha) with
    | none => exact hK.refl w
    | some script =>
      obtain ⟨readers, hsnd⟩ := Cmd.readingScript_snd (fromUtf8Lossy sha)
        (Cmd.evalCmd dispatch env (asBytes script :: numKeys :: rest)) w
      dsimp only
      rw [hsnd]
      exact hK.after (hK.before (hK.readers w _) (composes_evalCalls hK env hcalls _ _))
        (hK.readers _ readers)

end Composes

/-- A handler that runs no other commands does what its call does. -/
theorem Call.run_eq {c : CommandDef} (hleaf : c.handler.isLeaf = true) (dispatch : Dispatch)
    (env : Env) (args : List Bytes) (w : Whole) :
    c.handler.run dispatch env args w = (Call.mk c args env w).run := by
  rw [Call.run]
  cases hh : c.handler with
  | exec | eval | evalsha =>
    rw [hh] at hleaf
    cases hleaf
  | read | write | side | whole => rfl

/-- What a handler does to the state, its call does. -/
theorem Call.along {R : Whole → Whole → Prop} [Std.Refl R] {c : Call}
    (hleaf : c.command.handler.isLeaf = true) (h : c.command.handler.MovesAlong R) :
    R c.before c.after := by
  obtain ⟨c, args, env, w⟩ := c
  rw [Call.after, Call.run]
  dsimp only at h hleaf ⊢
  cases hh : c.handler with
  | read f => exact refl_of R w
  | exec | eval | evalsha =>
    rw [hh] at hleaf
    cases hleaf
  | write f | side f =>
    rw [hh] at h
    exact h _ env args w
  | whole f =>
    rw [hh] at h
    exact h env args w

theorem CommandDef.calls_of_leaf {c : CommandDef} (hleaf : c.handler.isLeaf = true)
    (dispatch : Dispatch) (calls : CallsOf) (env : Env) (args : List Bytes) (w : Whole) :
    c.calls dispatch calls env args w = [⟨c, args, env, w⟩] := by
  rw [CommandDef.calls]
  cases hh : c.handler with
  | exec | eval | evalsha =>
    rw [hh] at hleaf
    cases hleaf
  | read | write | side | whole => rfl

section Calls

variable {K : List Call → Whole → Whole → Prop} (hK : Composes K) {env : Env}
  (hleaf : ∀ c : Call, c.command ∈ commands → c.command.handler.isLeaf = true → c.env = env →
    c.Allowed → K [c] c.before c.after)

include hK hleaf

/-- **What holds of every call alone** holds of the calls of a command. -/
theorem composes_callsDepth (depth : ℕ) (name : String) (args : List Bytes) (w : Whole) :
    K (callsDepth env depth name args w) w (dispatchDepth env depth name args w).2 := by
  induction depth generalizing name args w with
  | zero => exact hK.refl w
  | succ depth ih =>
    rw [callsDepth, dispatchDepth, dispatchWith]
    dsimp only
    split
    · exact hK.refl w
    · next hgate =>
      cases hfind : findCommand name with
      | none => exact hK.refl w
      | some c =>
        obtain ⟨hmem, rfl⟩ := mem_of_findCommand hfind
        dsimp only
        split
        · exact hK.refl w
        · rw [catchError_snd]
          by_cases hc : c.handler.isLeaf = true
          · rw [CommandDef.calls_of_leaf hc, Call.run_eq hc]
            exact hleaf ⟨c, args, env, w⟩ hmem hc rfl (Bool.eq_false_of_not_eq_true hgate)
          · rw [CommandDef.calls]
            cases hh : c.handler with
            | exec => exact composes_execCalls hK env ih w
            | eval => exact composes_evalCalls hK env ih args w
            | evalsha => exact composes_evalshaCalls hK env ih args w
            | _ =>
              rw [hh] at hc
              exact absurd rfl hc

theorem composes_calls (name : String) (args : List Bytes) (w : Whole) :
    K (calls env name args w) w (dispatch env name args w).2 :=
  composes_callsDepth hK hleaf _ name args w

end Calls

/-! ### Invariants -/

/-- An invariant that does not look at the context, at the subscribers and at who reads the
scripts. -/
structure BlindTo (I : Whole → Prop) : Prop where
  ctx : ∀ w c, I w → I { w with ctx := c }
  pubSub : ∀ w r, I w → I { w with store := { w.store with
    tables := { w.store.tables with pubsubRegistry := r } } }
  readers : ∀ w readers, I w → I (Cmd.setReaders readers w)

/-- When `P` holds of all the calls and `I` before them, then `Q` holds of them and `I`
afterwards. -/
def KeepsBy (I : Whole → Prop) (P Q : Call → Prop) (calls : List Call) (w w' : Whole) : Prop :=
  I w → (∀ c ∈ calls, P c) → (∀ c ∈ calls, Q c) ∧ I w'

section Keeps

variable {I : Whole → Prop} {P Q : Call → Prop}

theorem composes_keepsBy (hI : BlindTo I) : Composes (KeepsBy I P Q) where
  refl _ hw _ := ⟨List.forall_mem_nil _, hw⟩
  ctx w c hw _ := ⟨List.forall_mem_nil _, hI.ctx w c hw⟩
  pubSub w r hw _ := ⟨List.forall_mem_nil _, hI.pubSub w r hw⟩
  readers w readers hw _ := ⟨List.forall_mem_nil _, hI.readers w readers hw⟩
  append h h' hw hall := by
    obtain ⟨hq, hw'⟩ := h hw fun c hc => hall c (List.mem_append_left _ hc)
    obtain ⟨hq', hw''⟩ := h' hw' fun c hc => hall c (List.mem_append_right _ hc)
    exact ⟨fun c hc => (List.mem_append.mp hc).elim (hq c) (hq' c), hw''⟩

/-- **What each call keeps, the command keeps.** -/
theorem keeps_calls (hI : BlindTo I) {env : Env} (hleaf : ∀ c : Call, c.command ∈ commands →
      c.command.handler.isLeaf = true → c.env = env → c.Allowed → P c → I c.before →
        Q c ∧ I c.after) (name : String) (args : List Bytes) (w : Whole) :
    KeepsBy I P Q (calls env name args w) w (dispatch env name args w).2 := by
  refine composes_calls (composes_keepsBy hI) (fun c hc hone henv hallowed hw hall => ?_) name args w
  exact (hleaf c hc hone henv hallowed (hall c List.mem_cons_self) hw).imp_left
    List.forall_mem_singleton.mpr

end Keeps

/-! ### Switches -/

/-- Something is on after the calls exactly if they have switched it on. -/
def Switched (Q : Whole → Prop) (on off : Call → Prop) (calls : List Call) (w w' : Whole) : Prop :=
  Q w' ↔ Run.SwitchedOn on off (Q w) calls

/-- **What calls switch on and off.** -/
theorem switched_calls {Q : Whole → Prop} {on off : Call → Prop}
    (hctx : ∀ w c, Q { w with ctx := c } ↔ Q w)
    (hpubSub : ∀ w r, Q { w with store := { w.store with
      tables := { w.store.tables with pubsubRegistry := r } } } ↔ Q w)
    (hreaders : ∀ w readers, Q (Cmd.setReaders readers w) ↔ Q w) {env : Env}
    (hleaf : ∀ c : Call, c.command ∈ commands → c.command.handler.isLeaf = true → c.env = env →
      c.Allowed → (Q c.after ↔ on c ∨ Q c.before ∧ ¬off c)) (name : String) (args : List Bytes)
    (w : Whole) : Switched Q on off (calls env name args w) w (dispatch env name args w).2 := by
  have hK : Composes (Switched Q on off) := {
    refl := fun w => Run.switchedOn_nil.symm
    ctx := fun w c => (hctx w c).trans Run.switchedOn_nil.symm
    pubSub := fun w r => (hpubSub w r).trans Run.switchedOn_nil.symm
    readers := fun w readers => (hreaders w readers).trans Run.switchedOn_nil.symm
    append := fun {calls calls' w w' w''} h h' => by
      rw [Switched, Run.switchedOn_append, ← propext (show Q w' ↔ _ from h)]
      exact h' }
  exact composes_calls hK (fun c hc hone henv hallowed =>
    (hleaf c hc hone henv hallowed).trans Run.switchedOn_singleton.symm) name args w

end VeloDB
