import VeloDB.Cmd.OneReply

/-!
# One command, one frame

A reply is read back as one frame if its texts hold no carriage return. Of the texts that
`dispatch` answers, those of the handlers are constants and numbers. Three others come from outside:
an unknown command is shown in the error that refuses it, `CLUSTER` shows a subcommand that it does
not know, and a script that fails brings the text of its error along. `EXEC` passes on the replies
of the commands that it runs.

The main result is `dispatch_oneFrame_iff`.
-/

namespace VeloDB

open Rust Proc

namespace Cmd

/-! ### Scripts that fail -/

/-- The error with which a script ends. -/
def scriptError (dispatch : Dispatch) (env : Env) (db : ℕ) : LuaProc → Whole → Option String
  | .ret _, _ => none
  | .fail msg, _ => some msg
  | .panic, _ => none
  | .call args k, w =>
    match redisCall dispatch env db args w with
    | (.ok answer, w') => scriptError dispatch env db (k answer) w'
    | (.error _, _) => none

/-- The error of the script that `EVAL` runs. -/
def evalError (dispatch : Dispatch) (env : Env) (args : List Bytes) (w : Whole) : Option String :=
  match args with
  | script :: numKeys :: rest =>
    let stop := min ((2 + (argUsize numKeys).getD 0) % 2 ^ 64) args.length
    if stop < 2 then none
    else scriptError dispatch env w.ctx.dbIndex (env.host.lua (fromUtf8Lossy script)
      ((rest.take (stop - 2)).map fromUtf8Lossy) ((rest.drop (stop - 2)).map fromUtf8Lossy)) w
  | _ => none

/-- The error of the script that `EVALSHA` runs. -/
def evalshaError (dispatch : Dispatch) (env : Env) (args : List Bytes) (w : Whole) :
    Option String :=
  match args with
  | sha :: numKeys :: rest =>
    match w.store.tables.luaScripts.entries.lookup (fromUtf8Lossy sha) with
    | some script => evalError dispatch env (asBytes script :: numKeys :: rest)
        (setReaders (fromUtf8Lossy sha :: w.store.tables.luaScripts.readers) w)
    | none => none
  | _ => none

end Cmd

/-! ### What is shown of a command -/

/-- A text of one line. -/
def OneLine (s : String) : Prop := '\r' ∉ s.toList

instance (s : String) : Decidable (OneLine s) := inferInstanceAs (Decidable ('\r' ∉ s.toList))

/-- The queue of `EXEC`: each command, in the state in which it runs. -/
def Cmd.QueueShows (dispatch : Dispatch) (shows : String → List Bytes → Whole → Prop) (env : Env) :
    List (List Bytes) → Whole → Prop
  | (name :: args) :: queue, w => shows (upper env name) args w ∧
      QueueShows dispatch shows env queue (dispatch (upper env name) args w).2
  | _, _ => True

/-- What a handler shows of its arguments, and what it passes on, is in lines of their own. -/
def CommandDef.ShowsLines (dispatch : Dispatch) (shows : String → List Bytes → Whole → Prop)
    (env : Env) (args : List Bytes) (w : Whole) (c : CommandDef) : Prop :=
  match c.handler with
  | .exec => w.ctx.multiMode = true →
      Cmd.checkWatched env.now w.store.databases w.ctx.dbIndex w.ctx.watchedKeys
        w.ctx.watchedVersions = .ok true →
      Cmd.QueueShows dispatch shows env w.ctx.multiQueue
        { w with ctx := Cmd.takeTransaction w.ctx }
  | .eval => ∀ msg, Cmd.evalError dispatch env args w = some msg → OneLine msg
  | .evalsha => ∀ msg, Cmd.evalshaError dispatch env args w = some msg → OneLine msg
  | _ => c.name = "CLUSTER" → ∀ sub, args.head? = some sub →
      upper env sub ∉ Cmd.clusterSubcommands → OneLine (Cmd.shownSubcommand env sub)

/-- What a command shows of what it is given is in lines of their own, down to a given depth of
nesting. -/
def ShowsLines (env : Env) : ℕ → String → List Bytes → Whole → Prop
  | 0, _, _, _ => True
  | depth + 1, name, args, w =>
    (findCommand name = none → OneLine (env.host.toLowercase name)) ∧
    ∀ c, findCommand name = some c → w.store.tables.deniesMemory name = false →
      c.refuses args = false → c.ShowsLines (dispatchDepth env depth) (ShowsLines env depth) env args w

/-! ### Answers -/

/-- An answer whose texts are lines exactly if `lines` holds. -/
abbrev Framed (lines : Prop) (x : Reply) : Prop :=
  OkOr (fun f => ∀ e, f ≠ .error e) (fun r => NoCR r ↔ lines) x

theorem framed_catchError {lines : Prop} {m : WholeM RespValue} {w : Whole}
    (hok : ∀ r, (m w).1 = .ok r → (NoCR r ↔ lines))
    (herror : ∀ e, (m w).1 = .error (.error e) → (e.OneLine ↔ lines)) :
    Framed lines (catchError m w).1 := by
  rw [catchError_fst]
  rcases hm : (m w).1 with (e | _ | _) | r
  · exact herror e hm
  · exact fun e h => nomatch h
  · exact fun e h => nomatch h
  · exact hok r hm

/-- What a procedure with replies of one line answers. -/
theorem framed_of_replies {lines fault : Prop} (hlines : lines) {m : WholeM RespValue} {w : Whole}
    (h : OkOr (Blames fault) NoCR (m w).1) : Framed lines (catchError m w).1 := by
  refine framed_catchError (fun r hr => ?_) fun e he => ?_
  · rw [hr] at h
    exact iff_of_true h hlines
  · rw [he] at h
    exact iff_of_true h hlines

namespace Cmd

section Scripts

variable {dispatch : Dispatch} {env : Env}

theorem noCR_luaToResp (v : LuaValue) : NoCR (luaToResp v) := by
  cases v with
  | integer i => trivial
  | string s => trivial
  | boolean b => trivial
  | nil => exact noCR_ok
  | number d => exact noCR_ok
  | table entries => exact noCR_ok
  | other => exact noCR_ok

theorem oneLine_append {s t : String} (hs : OneLine s) : OneLine (s ++ t) ↔ OneLine t := by
  have h : '\r' ∉ s.toList := hs
  rw [OneLine, OneLine, String.toList_append, List.mem_append, or_iff_right h]

/-- The errors of a call are raised inside the script. -/
theorem redisCall_ne_error (db : ℕ) (args : List LuaValue) (w : Whole) (e : VeloDBError) :
    (redisCall dispatch env db args w).1 ≠ .error (.error e) := by
  rw [redisCall]
  cases callArgs env.host args with
  | error msg => exact fun h => by cases h
  | ok l =>
    cases l with
    | nil => exact fun h => by cases h
    | cons name rest =>
      dsimp only
      rcases withContext { dbIndex := db } (dispatch (upper env name) rest) w with
        ⟨(_ | _ | _) | resp, w'⟩ <;> exact fun h => by cases h

theorem runScript_framed (db : ℕ) (p : LuaProc) (w : Whole) :
    OkOr (fun f => ∀ e, f ≠ .error e)
      (fun r => NoCR r ↔ ∀ msg, scriptError dispatch env db p w = some msg → OneLine msg)
      (runScript dispatch env db p w).1 := by
  induction p generalizing w with
  | ret v => exact iff_of_true (noCR_luaToResp v) fun msg h => nomatch h
  | fail msg =>
    have herr : OneLine "ERR " := by decide
    refine (oneLine_append herr).trans ⟨fun h msg' hmsg => ?_, fun h => h msg rfl⟩
    obtain rfl := Option.some.inj hmsg
    exact h
  | panic => exact fun e h => nomatch h
  | call args k ih =>
    rw [runScript, scriptError]
    rcases hcall : redisCall dispatch env db args w with ⟨f | answer, w'⟩
    · rw [bind_error hcall]
      exact fun e he => redisCall_ne_error db args w e (by rw [hcall, he])
    · rw [bind_ok hcall]
      exact ih answer w'

/-- A script that is given its keys, or a number of keys that wraps. -/
theorem evalCmd_cases (script numKeys : Bytes) (rest : List Bytes) (w : Whole) :
    (evalCmd dispatch env (script :: numKeys :: rest) w = (.error .panic, w) ∧
      evalError dispatch env (script :: numKeys :: rest) w = none) ∨
    ∃ p, evalCmd dispatch env (script :: numKeys :: rest) w
        = runScript dispatch env w.ctx.dbIndex p w ∧
      evalError dispatch env (script :: numKeys :: rest) w
        = scriptError dispatch env w.ctx.dbIndex p w := by
  by_cases hstop : min ((2 + (argUsize numKeys).getD 0) % 2 ^ 64)
      (script :: numKeys :: rest).length < 2
  · refine Or.inl ⟨?_, if_pos hstop⟩
    rw [evalCmd, get_bind]
    exact congrFun (if_pos hstop) w
  · refine Or.inr ⟨_, ?_, if_neg hstop⟩
    rw [evalCmd, get_bind]
    exact congrFun (if_neg hstop) w

theorem evalCmd_framed (args : List Bytes) (w : Whole) :
    Framed (∀ msg, evalError dispatch env args w = some msg → OneLine msg)
      (catchError (evalCmd dispatch env args) w).1 := by
  have hwrong : (VeloDBError.wrongNumberOfArgs "EVAL").OneLine := by decide
  have hfew : Framed (∀ msg, (none : Option String) = some msg → OneLine msg)
      (.ok (.error (VeloDBError.wrongNumberOfArgs "EVAL").display)) :=
    iff_of_true hwrong fun msg h => nomatch h
  rcases args with _ | ⟨script, _ | ⟨numKeys, rest⟩⟩
  · exact hfew
  · exact hfew
  rcases evalCmd_cases script numKeys rest w with ⟨hrun, -⟩ | ⟨p, hrun, herror⟩
  · rw [catchError_fst, hrun]
    exact fun e h => nomatch h
  · have hscript := @runScript_framed dispatch env w.ctx.dbIndex p w
    refine framed_catchError (fun r hr => ?_) fun e he => ?_
    · rw [← hrun, hr, ← herror] at hscript
      exact hscript
    · rw [← hrun, he] at hscript
      exact absurd rfl (hscript e)

theorem evalshaCmd_framed (args : List Bytes) (w : Whole) :
    Framed (∀ msg, evalshaError dispatch env args w = some msg → OneLine msg)
      (catchError (evalshaCmd dispatch env args) w).1 := by
  have hwrong : (VeloDBError.wrongNumberOfArgs "EVALSHA").OneLine := by decide
  have hnoscript : OneLine "NOSCRIPT No matching script. Please use EVAL." := by decide
  have hfew : Framed (∀ msg, (none : Option String) = some msg → OneLine msg)
      (.ok (.error (VeloDBError.wrongNumberOfArgs "EVALSHA").display)) :=
    iff_of_true hwrong fun msg h => nomatch h
  rcases args with _ | ⟨sha, _ | ⟨numKeys, rest⟩⟩
  · exact hfew
  · exact hfew
  rw [evalshaError]
  cases hsha : w.store.tables.luaScripts.entries.lookup (fromUtf8Lossy sha) with
  | none =>
    have hrun : evalshaCmd dispatch env (sha :: numKeys :: rest) w
        = (.ok (.error "NOSCRIPT No matching script. Please use EVAL."), w) := by
      rw [evalshaCmd, get_bind]
      simp only [hsha]
      rfl
    rw [catchError_fst, hrun]
    exact iff_of_true hnoscript fun msg h => nomatch h
  | some script =>
    have hrun : (evalshaCmd dispatch env (sha :: numKeys :: rest) w).1
        = (evalCmd dispatch env (asBytes script :: numKeys :: rest)
          (setReaders (fromUtf8Lossy sha :: w.store.tables.luaScripts.readers) w)).1 := by
      rw [evalshaCmd, get_bind]
      simp only [hsha]
      exact readingScript_fst _ _ w
    rw [catchError_congr hrun]
    exact evalCmd_framed _ _

end Scripts

/-! ### `EXEC` -/

section Exec

variable {dispatch : Dispatch} {shows : String → List Bytes → Whole → Prop} {env : Env}

theorem execQueue_framed (hdispatch : ∀ name args w, Framed (shows name args w)
    (dispatch name args w).1) (queue : List (List Bytes)) (w : Whole) :
    OkOr (fun f => ∀ e, f ≠ .error e)
      (fun rs => (∀ v ∈ rs, NoCR v) ↔ QueueShows dispatch shows env queue w)
      (execQueue dispatch env queue w).1 := by
  induction queue generalizing w with
  | nil => exact iff_of_true (List.forall_mem_nil _) trivial
  | cons c queue ih =>
    cases c with
    | nil => exact fun e h => nomatch h
    | cons name args =>
      have hname := hdispatch (upper env name) args w
      have hqueue := ih (dispatch (upper env name) args w).2
      rw [execQueue, QueueShows, arg_cons_zero, lift_ok_bind, List.tail_cons]
      rcases hrun : dispatch (upper env name) args w with ⟨f | r, w'⟩
      · rw [hrun] at hname
        rw [bind_error hrun]
        exact hname
      · rw [hrun] at hname hqueue
        rw [bind_ok hrun]
        rcases hrest : execQueue dispatch env queue w' with ⟨f | rs, w''⟩
        · rw [hrest] at hqueue
          rw [bind_error hrest]
          exact hqueue
        · rw [hrest] at hqueue
          rw [bind_ok hrest]
          exact List.forall_mem_cons.trans (and_congr hname hqueue)

theorem checkWatched_ne_error (now : UInt64) (dbs : Databases) (i : ℕ) (keys : List Bytes)
    (versions : List ℕ) (e : VeloDBError) :
    checkWatched now dbs i keys versions ≠ .error (.error e) := by
  induction keys generalizing versions with
  | nil => exact fun h => nomatch h
  | cons key keys ih =>
    rw [checkWatched]
    split
    · exact fun h => nomatch h
    · split
      · exact fun h => nomatch h
      · split
        · exact fun h => nomatch h
        · exact ih _

theorem exec_framed (hdispatch : ∀ name args w, Framed (shows name args w)
    (dispatch name args w).1) (w : Whole) :
    Framed (w.ctx.multiMode = true → checkWatched env.now w.store.databases w.ctx.dbIndex
        w.ctx.watchedKeys w.ctx.watchedVersions = .ok true →
        QueueShows dispatch shows env w.ctx.multiQueue { w with ctx := takeTransaction w.ctx })
      (catchError (exec dispatch env) w).1 := by
  have hwithout : (VeloDBError.internal "EXEC without MULTI").OneLine := by decide
  rw [catchError_fst, exec, get_bind]
  cases hmulti : w.ctx.multiMode with
  | false => exact iff_of_true hwithout fun h => nomatch h
  | true =>
    rw [if_neg (by simp), modify_bind]
    cases hwatched : checkWatched env.now w.store.databases w.ctx.dbIndex w.ctx.watchedKeys
        w.ctx.watchedVersions with
    | error f =>
      cases f with
      | error e => exact absurd hwatched (checkWatched_ne_error _ _ _ _ _ e)
      | panic => exact fun e h => nomatch h
      | hang => exact fun e h => nomatch h
    | ok unchanged =>
      rw [lift_ok_bind]
      cases unchanged with
      | false => exact iff_of_true trivial fun _ h => nomatch h
      | true =>
        have hqueue := @execQueue_framed dispatch shows env hdispatch w.ctx.multiQueue
          { w with ctx := takeTransaction w.ctx }
        rw [if_pos rfl]
        rcases hrun : execQueue dispatch env w.ctx.multiQueue
          { w with ctx := takeTransaction w.ctx } with ⟨f | rs, w'⟩
        · rw [hrun] at hqueue
          rw [bind_error hrun]
          cases f with
          | error e => exact absurd rfl (hqueue e)
          | panic => exact fun e h => nomatch h
          | hang => exact fun e h => nomatch h
        · rw [hrun] at hqueue
          rw [bind_ok hrun]
          exact noCRItems_iff.trans (hqueue.trans ⟨fun h _ _ => h, fun h => h rfl rfl⟩)

end Exec

end Cmd

/-! ### Dispatching -/

theorem findCommand_of_deniesMemory {t : Tables} {name : String}
    (h : t.deniesMemory name = true) : findCommand name ≠ none := by
  have hall : ∀ name ∈ ["SET", "SETRANGE", "MSET", "INCR", "INCRBY", "DECR", "DECRBY", "APPEND",
      "GETSET", "LPUSH", "RPUSH", "LSET", "SADD", "HSET", "HINCRBY", "ZADD", "XADD", "NHSET",
      "RENAME", "RENAMENX", "EVAL", "EVALSHA"], (findCommand name).isSome = true := by
    decide +kernel
  have hname : isDenyOomCommand name = true := by
    simp only [Tables.deniesMemory, Bool.and_eq_true] at h
    exact h.2
  have hsome := hall name (of_decide_eq_true hname)
  intro hnone
  rw [hnone] at hsome
  cases hsome

/-- The names of the commands are shown in lower case. -/
theorem oneLine_toLowercase {c : CommandDef} (hc : c ∈ commands) (H : Host) :
    OneLine (H.toLowercase c.name) := by
  have hall : ∀ c ∈ commands, c.name.toList.all (fun c => decide (c.toNat < 0x80)) = true ∧
      '\r' ∉ c.name.toList.map Char.toLower := by
    decide +kernel
  obtain ⟨hascii, hcr⟩ := hall c hc
  rw [Host.toLowercase, if_pos hascii, OneLine, String.toList_ofList]
  exact hcr

theorem oneLine_quoted {s t u : String} (hs : OneLine s) (hu : OneLine u) :
    OneLine (s ++ t ++ u) ↔ OneLine t := by
  have h : '\r' ∉ s.toList := hs
  have h' : '\r' ∉ u.toList := hu
  rw [OneLine, OneLine, String.toList_append, String.toList_append, List.mem_append, List.mem_append,
    or_iff_left h', or_iff_right h]

theorem cluster_mem_commands : ⟨"CLUSTER", -2, .read Cmd.clusterCmd⟩ ∈ commands := by
  simp [commands, Cmd.clusterCommands]

/-- What a handler answers is in lines exactly if what it shows is. -/
theorem CommandDef.framed_run {dispatch : Dispatch} {shows : String → List Bytes → Whole → Prop}
    {env : Env} (hdispatch : ∀ name args w, Framed (shows name args w) (dispatch name args w).1)
    {c : CommandDef} (hc : c ∈ commands) (args : List Bytes) (w : Whole) :
    Framed (c.ShowsLines dispatch shows env args w)
      (catchError (c.handler.run dispatch env args) w).1 := by
  by_cases hname : c.name = "CLUSTER"
  · obtain rfl := List.inj_on_of_nodup_map nodup_commands hc cluster_mem_commands hname
    have hunknown : OneLine "ERR unknown command '" := by decide
    have hquote : OneLine "'" := by decide
    by_cases hknown : ∀ sub, args.head? = some sub → upper env sub ∈ Cmd.clusterSubcommands
    · exact framed_of_replies (fun _ sub hsub h => absurd (hknown sub hsub) h)
        (Cmd.clusterCmd_replies env w.store.databases w.ctx.dbIndex args hknown)
    · push Not at hknown
      obtain ⟨sub, hsub, hnot⟩ := hknown
      obtain ⟨rest, rfl⟩ := List.head?_eq_some_iff.mp hsub
      have hrun := Cmd.clusterCmd_unknown env w.store.databases w.ctx.dbIndex hnot rest
      refine framed_catchError (fun r hr => ?_) fun e he => ?_
      · rw [Handler.run_read, hrun] at hr
        cases hr
      · rw [Handler.run_read, hrun] at he
        cases he
        refine (oneLine_quoted hunknown hquote).trans ⟨fun h _ sub' hsub' _ => ?_,
          fun h => h rfl sub rfl hnot⟩
        obtain rfl := Option.some.inj (hsub.symm.trans hsub')
        exact h
  · have hanswers := answers_commands c hc hname
    rw [CommandDef.Answers] at hanswers
    rw [CommandDef.ShowsLines]
    cases hh : c.handler with
    | exec => exact Cmd.exec_framed hdispatch w
    | eval => exact Cmd.evalCmd_framed args w
    | evalsha => exact Cmd.evalshaCmd_framed args w
    | read f =>
      rw [hh] at hanswers
      exact framed_of_replies (w := w) (m := Handler.run dispatch env args (.read f))
        (fun h => absurd h hname) (hanswers env w.store.databases w.ctx.dbIndex args)
    | write f =>
      rw [hh] at hanswers
      exact framed_of_replies (w := w) (m := Handler.run dispatch env args (.write f))
        (fun h => absurd h hname)
        (hanswers env w.ctx.dbIndex args { databases := w.store.databases })
    | side f =>
      rw [hh] at hanswers
      exact framed_of_replies (w := w) (m := Handler.run dispatch env args (.side f))
        (fun h => absurd h hname)
        (hanswers env w.store.databases args { tables := w.store.tables, ctx := w.ctx })
    | whole f =>
      rw [hh] at hanswers
      exact framed_of_replies (w := w) (m := Handler.run dispatch env args (.whole f))
        (fun h => absurd h hname) (hanswers env args w)

/-- **What is answered** is in lines exactly if what is shown is. -/
theorem framed_dispatchDepth (env : Env) (depth : ℕ) (name : String) (args : List Bytes)
    (w : Whole) :
    Framed (ShowsLines env depth name args w) (dispatchDepth env depth name args w).1 := by
  have hmemory : OneLine "OOM command not allowed when used memory > 'maxmemory'." := by decide
  have hwrong : OneLine "ERR wrong number of arguments for '" := by decide
  have hunknown : OneLine "ERR unknown command '" := by decide
  have hcommand : OneLine "' command" := by decide
  have hquote : OneLine "'" := by decide
  induction depth generalizing name args w with
  | zero => exact fun e h => nomatch h
  | succ depth ih =>
    rw [dispatchDepth, dispatchWith, ShowsLines]
    cases hdenied : w.store.tables.deniesMemory name with
    | true =>
      rw [if_pos rfl]
      refine iff_of_true hmemory ⟨fun hnone => ?_, fun c _ h => ?_⟩
      · exact absurd hnone (findCommand_of_deniesMemory hdenied)
      · cases h
    | false =>
      rw [if_neg (by simp)]
      cases hfind : findCommand name with
      | none =>
        refine (oneLine_quoted hunknown hquote).trans ⟨fun h => ⟨fun _ => h, fun c hc => ?_⟩,
          fun h => h.1 rfl⟩
        cases hc
      | some c =>
        obtain ⟨hc, -⟩ := mem_of_findCommand hfind
        cases hrefuses : c.refuses args with
        | true =>
          dsimp only
          rw [if_pos hrefuses]
          refine iff_of_true ((oneLine_quoted hwrong hcommand).mpr (oneLine_toLowercase hc _))
            ⟨fun hnone => ?_, fun c' hc' _ h => ?_⟩
          · cases hnone
          · obtain rfl := Option.some.inj hc'
            rw [hrefuses] at h
            cases h
        | false =>
          dsimp only
          rw [if_neg (by simp [hrefuses])]
          refine (CommandDef.framed_run ih hc args w).mono (fun _ h => h) fun r hr => hr.trans
            ⟨fun h => ⟨fun hnone => ?_, fun c' hc' _ _ => ?_⟩, fun h => h.2 c rfl rfl hrefuses⟩
          · cases hnone
          · obtain rfl := Option.some.inj hc'
            exact h

/-! ### Answers that are one line -/

/-- An answer is an error, or its texts are lines. -/
def Plain (x : Reply) : Prop := ∀ r, x = .ok r → NoCR r ∨ ∃ s, r = .error s

theorem plain_catchError {m : WholeM RespValue} {w : Whole} (h : Plain (m w).1) :
    Plain (catchError m w).1 := by
  intro r hr
  rw [catchError_fst] at hr
  rcases hm : (m w).1 with (e | _ | _) | r'
  · rw [hm] at hr
    exact Or.inr ⟨_, (Except.ok.inj hr).symm⟩
  · rw [hm] at hr
    cases hr
  · rw [hm] at hr
    cases hr
  · rw [hm] at hr
    exact h r (hm.trans hr)

theorem plain_of_replies {fault : Prop} {x : Reply} (h : OkOr (Blames fault) NoCR x) : Plain x := by
  intro r hr
  rw [hr] at h
  exact Or.inl h

theorem plain_failure (f : Failure) : Plain (.error f) := fun _ h => nomatch h

namespace Cmd

variable {dispatch : Dispatch} {env : Env}

theorem plain_runScript (db : ℕ) (p : LuaProc) (w : Whole) :
    Plain (runScript dispatch env db p w).1 := by
  induction p generalizing w with
  | ret v => exact fun r h => Or.inl (Except.ok.inj h ▸ noCR_luaToResp v)
  | fail msg => exact fun r h => Or.inr ⟨_, (Except.ok.inj h).symm⟩
  | panic => exact plain_failure _
  | call args k ih =>
    rw [runScript]
    rcases hcall : redisCall dispatch env db args w with ⟨f | answer, w'⟩
    · rw [bind_error hcall]
      exact plain_failure f
    · rw [bind_ok hcall]
      exact ih answer w'

theorem plain_evalCmd (args : List Bytes) (w : Whole) :
    Plain (evalCmd dispatch env args w).1 := by
  rcases args with _ | ⟨script, _ | ⟨numKeys, rest⟩⟩
  · exact plain_failure _
  · exact plain_failure _
  rcases evalCmd_cases script numKeys rest w with ⟨hrun, -⟩ | ⟨p, hrun, -⟩
  · rw [hrun]
    exact plain_failure _
  · rw [hrun]
    exact plain_runScript _ p w

theorem plain_evalshaCmd (args : List Bytes) (w : Whole) :
    Plain (evalshaCmd dispatch env args w).1 := by
  rcases args with _ | ⟨sha, _ | ⟨numKeys, rest⟩⟩
  · exact plain_failure _
  · exact plain_failure _
  rw [evalshaCmd, get_bind]
  dsimp only
  cases w.store.tables.luaScripts.entries.lookup (fromUtf8Lossy sha) with
  | none => exact fun r h => Or.inr ⟨_, (Except.ok.inj h).symm⟩
  | some script =>
    dsimp only
    rw [readingScript_fst]
    exact plain_evalCmd _ _

end Cmd

/-- The handler is the one of `EXEC`. -/
def Handler.isExec : Handler → Bool
  | .exec => true
  | _ => false

theorem CommandDef.plain_run {c : CommandDef} (hc : c ∈ commands) (hexec : c.name ≠ "EXEC")
    (dispatch : Dispatch) (env : Env) (args : List Bytes) (w : Whole) :
    Plain (c.handler.run dispatch env args w).1 := by
  by_cases hname : c.name = "CLUSTER"
  · obtain rfl := List.inj_on_of_nodup_map nodup_commands hc cluster_mem_commands hname
    by_cases hknown : ∀ sub, args.head? = some sub → upper env sub ∈ Cmd.clusterSubcommands
    · exact plain_of_replies
        (Cmd.clusterCmd_replies env w.store.databases w.ctx.dbIndex args hknown)
    · push Not at hknown
      obtain ⟨sub, hsub, hnot⟩ := hknown
      obtain ⟨rest, rfl⟩ := List.head?_eq_some_iff.mp hsub
      have hrun := Cmd.clusterCmd_unknown env w.store.databases w.ctx.dbIndex hnot rest
      intro r hr
      rw [Handler.run_read, hrun] at hr
      cases hr
  · have hanswers := answers_commands c hc hname
    rw [CommandDef.Answers] at hanswers
    cases hh : c.handler with
    | exec =>
      refine absurd ?_ hexec
      have hall : ∀ c ∈ commands, c.handler.isExec = true → c.name = "EXEC" := by decide +kernel
      exact hall c hc (by rw [hh]; rfl)
    | eval => exact Cmd.plain_evalCmd args w
    | evalsha => exact Cmd.plain_evalshaCmd args w
    | read f =>
      rw [hh] at hanswers
      exact plain_of_replies (hanswers env w.store.databases w.ctx.dbIndex args)
    | write f =>
      rw [hh] at hanswers
      exact plain_of_replies
        (hanswers env w.ctx.dbIndex args { databases := w.store.databases })
    | side f =>
      rw [hh] at hanswers
      exact plain_of_replies
        (hanswers env w.store.databases args { tables := w.store.tables, ctx := w.ctx })
    | whole f =>
      rw [hh] at hanswers
      exact plain_of_replies (hanswers env args w)

theorem plain_dispatchDepth (env : Env) (depth : ℕ) {name : String} (hexec : name ≠ "EXEC")
    (args : List Bytes) (w : Whole) : Plain (dispatchDepth env depth name args w).1 := by
  have herror : ∀ s, Plain (.ok (.error s)) := fun s r h => Or.inr ⟨s, (Except.ok.inj h).symm⟩
  cases depth with
  | zero => exact plain_failure _
  | succ depth =>
    rw [dispatchDepth, dispatchWith]
    split_ifs
    · exact herror _
    · cases hfind : findCommand name with
      | none => exact herror _
      | some c =>
        obtain ⟨hc, rfl⟩ := mem_of_findCommand hfind
        dsimp only
        split_ifs
        · exact herror _
        · exact plain_catchError (CommandDef.plain_run hc hexec _ env args w)

/-! ### Frames -/

/-- **One command, one frame**: a reply is read back as it is, with nothing left over, exactly if
all that the command shows is in lines. A reply that is not that of `EXEC` is otherwise not even
read as some other value with nothing left over. -/
theorem dispatch_oneFrame_iff (env : Env) (name : String) (args : List Bytes) (w : Whole)
    {r : RespValue} (h : (dispatch env name args w).1 = .ok r)
    (hlen : (serializeResponse env.host r).length < 2 ^ 63) :
    (OneFrame env.host r ↔ ShowsLines env (env.nesting + 1) name args w) ∧
    (name ≠ "EXEC" → ((∃ v, respValue (serializeResponse env.host r) = .ok ([], v)) ↔
      ShowsLines env (env.nesting + 1) name args w)) := by
  have hframed : NoCR r ↔ ShowsLines env (env.nesting + 1) name args w := by
    have hdepth := framed_dispatchDepth env (env.nesting + 1) name args w
    rw [dispatch] at h
    rw [h] at hdepth
    exact hdepth
  refine ⟨(oneFrame_iff hlen).trans hframed, fun hexec => ⟨?_, fun hs =>
    ⟨_, (oneFrame_iff hlen).mpr (hframed.mpr hs)⟩⟩⟩
  rintro ⟨v, hv⟩
  refine hframed.mp ?_
  rcases plain_dispatchDepth env (env.nesting + 1) hexec args w r h with hr | ⟨s, rfl⟩
  · exact hr
  · intro hcr
    exact respValue_error_ne hcr hlen v hv

/-- An environment on a plain host. -/
def plainEnv : Env := Moment.on ⟨7, 0, 0, 1⟩ Host.plain

/-- Nothing stored, and a client that has done nothing. -/
def nothing : Whole := ⟨Store.new 1, {}⟩

/-- `PING` shows nothing of what it is given. -/
theorem dispatch_oneFrame_ping :
    OneFrame Host.plain .pong ∧
      ∃ v, respValue (serializeResponse Host.plain .pong) = .ok ([], v) := by
  have hshows : ShowsLines plainEnv 2 "PING" [] nothing := by
    have hname : findCommand "PING" = some ⟨"PING", -1, .read Cmd.ping⟩ :=
      findCommand_of_mem (c := ⟨"PING", -1, .read Cmd.ping⟩) (by simp [commands, Cmd.serverCommands])
    refine ⟨fun h => ?_, fun c hc _ _ => ?_⟩
    · rw [hname] at h
      cases h
    · obtain rfl := Option.some.inj (hname.symm.trans hc)
      exact fun h => absurd h (by decide)
  obtain ⟨hone, hread⟩ := dispatch_oneFrame_iff plainEnv "PING" [] nothing (r := .pong) rfl
    (by decide)
  exact ⟨hone.mpr hshows, (hread (by decide)).mpr hshows⟩

/-- **A name that ends the frame early.** The error about it is read up to the line break in the
name, and the rest of it as another reply. -/
theorem dispatch_two_frames :
    ∃ r, (dispatch plainEnv "FOO\r\n+OK\r\n" [] nothing).1 = .ok r ∧
      (∀ v, respValue (serializeResponse plainEnv.host r) ≠ .ok ([], v)) ∧
      ∃ rest, respValue (serializeResponse plainEnv.host r)
          = .ok (rest, .error "ERR unknown command 'foo") ∧
        respValue rest = .ok (asBytes "'\r\n", .simpleString "ok") := by
  have hnone : findCommand "FOO\r\n+OK\r\n" = none := by
    have hall : ∀ c ∈ commands, c.name ≠ "FOO\r\n+OK\r\n" := by decide +kernel
    cases h : findCommand "FOO\r\n+OK\r\n" with
    | none => rfl
    | some c =>
      obtain ⟨hc, hname⟩ := mem_of_findCommand h
      exact absurd hname (hall c hc)
  have hlower : "ERR unknown command '" ++ Host.plain.toLowercase "FOO\r\n+OK\r\n" ++ "'"
      = "ERR unknown command 'foo\r\n+ok\r\n'" := by decide +kernel
  have hrun : (dispatch plainEnv "FOO\r\n+OK\r\n" [] nothing).1
      = .ok (.error "ERR unknown command 'foo\r\n+ok\r\n'") := by
    rw [← hlower, dispatch, dispatchDepth, dispatchWith, hnone]
    rfl
  have hfirst : serializeResponse Host.plain (.error "ERR unknown command 'foo\r\n+ok\r\n'")
      = serializeResponse Host.plain (.error "ERR unknown command 'foo") ++
        asBytes "+ok\r\n'\r\n" := by decide +kernel
  have hsecond : asBytes "+ok\r\n'\r\n"
      = serializeResponse Host.plain (.simpleString "ok") ++ asBytes "'\r\n" := by decide +kernel
  have hone : NoCR (.error "ERR unknown command 'foo") :=
    show '\r' ∉ "ERR unknown command 'foo".toList by decide
  have htwo : NoCR (.simpleString "ok") := show '\r' ∉ "ok".toList by decide
  refine ⟨_, hrun, respValue_error_ne (by decide) (by decide +kernel), _,
    (congrArg respValue hfirst).trans (respValue_serializeResponse _ _ hone (by decide +kernel) _),
    (congrArg respValue hsecond).trans (respValue_serializeResponse _ _ htwo (by decide +kernel) _)⟩

end VeloDB
