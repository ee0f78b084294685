import VeloDB.Net.Connection

/-!
# The commands that are logged

What is appended to the log and pushed to the backlog are the commands that `is_write_command`
names. All of them but `SELECT` change the databases and nothing of their client, and what they do
depends only on the databases, on the database that is selected and on the moment: two clients of
two stores that agree on these run them alike.

## Main results

* `ctx_dispatch` — what a logged command does to its client
* `alike_runCommands` — two stores with the same databases go through the same commands alike
-/

namespace VeloDB

open Rust

/-! ### Handlers -/

theorem isWrite_iff {h : Handler} : h.isWrite = true ↔ ∃ f, h = .write f := by
  cases h <;> simp [Handler.isWrite]

/-- The command `SELECT`. -/
def selectDef : CommandDef := ⟨"SELECT", 2, .side Cmd.select⟩

theorem selectDef_mem : selectDef ∈ commands := by
  simp [selectDef, commands, Cmd.serverCommands]

theorem isWrite_of_isWriteCommand {c : CommandDef} (hc : c ∈ commands)
    (hw : isWriteCommand c.name = true) (hs : c.name ≠ "SELECT") : c.handler.isWrite = true := by
  have hall : (commands.all fun c => !isWriteCommand c.name || c.name == "SELECT" ||
    c.handler.isWrite) = true := by decide +kernel
  have h := List.all_eq_true.mp hall c hc
  simpa [hw, hs] using h

/-- **A logged command**: it changes databases, it selects one, or there is no such command. -/
theorem findCommand_of_isWriteCommand {name : String} (hw : isWriteCommand name = true) :
    name = "SELECT" ∧ findCommand name = some selectDef ∨
      name ≠ "SELECT" ∧ ∀ c, findCommand name = some c → ∃ f, c.handler = .write f := by
  by_cases hs : name = "SELECT"
  · subst hs
    exact Or.inl ⟨rfl, findCommand_of_mem selectDef_mem⟩
  · refine Or.inr ⟨hs, fun c hc => ?_⟩
    obtain ⟨hmem, rfl⟩ := mem_of_findCommand hc
    exact isWrite_iff.mp (isWrite_of_isWriteCommand hmem hw hs)

/-! ### The database of a client -/

/-- The database that is selected after a command. -/
def selectedBy (name : String) (args : List Bytes) (i : ℕ) : ℕ :=
  if name = "SELECT" ∧ selectDef.refuses args = false then (argUsize (args.headD [])).getD 0 else i

/-- `SELECT n`. -/
def selectCommand (n : ℕ) : List Bytes := [asBytes "SELECT", asBytes (toString n)]

/-- A command that is not refused has an argument. -/
theorem ne_nil_of_selectDef {args : List Bytes} (h : selectDef.refuses args = false) :
    args ≠ [] := by
  rintro rfl
  cases h

theorem dispatch_select (env : Env) {args : List Bytes} (h : selectDef.refuses args = false)
    (w : Whole) :
    dispatch env "SELECT" args w
      = (.ok .ok, { w with ctx := { w.ctx with dbIndex := (argUsize (args.headD [])).getD 0 } }) := by
  obtain ⟨a, rest, rfl⟩ := List.exists_cons_of_ne_nil (ne_nil_of_selectDef h)
  have hgate : w.store.tables.deniesMemory "SELECT" = false :=
    w.store.tables.deniesMemory_of_allowed (by decide)
  have hhandler : Handler.run (dispatchDepth env env.nesting) env (a :: rest) selectDef.handler w
      = (.ok .ok, { w with ctx := { w.ctx with dbIndex := (argUsize a).getD 0 } }) := rfl
  have hrun : dispatch env "SELECT" (a :: rest) w
      = catchError (selectDef.handler.run (dispatchDepth env env.nesting) env (a :: rest)) w :=
    dispatch_eq selectDef_mem env hgate h
  rw [hrun, catchError, hhandler]
  rfl

theorem dispatch_select_refused (env : Env) {args : List Bytes} (h : selectDef.refuses args = true)
    (w : Whole) : (dispatch env "SELECT" args w).2 = w := by
  have hfind : findCommand "SELECT" = some selectDef := findCommand_of_mem selectDef_mem
  rw [dispatch, dispatchDepth, dispatchWith, hfind]
  simp [h, Tables.deniesMemory, isDenyOomCommand]

/-- A command other than `SELECT` runs its handler on the databases, or is answered with an
error. -/
theorem dispatch_write {name : String} (hw : isWriteCommand name = true) (hs : name ≠ "SELECT")
    (env : Env) (args : List Bytes) :
    (∃ reply, ∀ w, w.store.tables.deniesMemory name = false →
      dispatch env name args w = (.ok reply, w)) ∨
    (∃ f : Env → ℕ → List Bytes → KeyM RespValue, ∀ w,
      w.store.tables.deniesMemory name = false → dispatch env name args w
        = catchError (Handler.run (dispatchDepth env env.nesting) env args (.write f)) w) := by
  have hwrite := ((findCommand_of_isWriteCommand hw).resolve_left fun h => hs h.1).2
  cases hc : findCommand name with
  | none =>
    refine Or.inl ⟨.error ("ERR unknown command '" ++ env.host.toLowercase name ++ "'"), ?_⟩
    intro w hgate
    rw [dispatch, dispatchDepth, dispatchWith, hgate, hc]
    rfl
  | some c =>
    obtain ⟨f, hf⟩ := hwrite c hc
    cases hargs : c.refuses args with
    | true =>
      refine Or.inl ⟨.error ("ERR wrong number of arguments for '" ++
        env.host.toLowercase c.name ++ "' command"), ?_⟩
      intro w hgate
      rw [dispatch, dispatchDepth, dispatchWith, hgate, hc]
      simp [hargs]
    | false =>
      refine Or.inr ⟨f, fun w hgate => ?_⟩
      rw [dispatch, dispatchDepth, dispatchWith, hgate, hc]
      simp [hargs, hf]

/-- **The client of a logged command** has at most another database selected. -/
theorem ctx_dispatch {name : String} (hw : isWriteCommand name = true) (env : Env)
    (args : List Bytes) (w : Whole) :
    (dispatch env name args w).2.ctx
      = { w.ctx with dbIndex := selectedBy name args w.ctx.dbIndex } := by
  by_cases hs : name = "SELECT"
  · subst hs
    cases hargs : selectDef.refuses args with
    | false =>
      rw [dispatch_select env hargs, selectedBy, if_pos ⟨rfl, hargs⟩]
    | true =>
      rw [selectedBy, if_neg (by simp [hargs]), dispatch_select_refused env hargs]
  · rw [selectedBy, if_neg fun h => hs h.1]
    cases hgate : w.store.tables.deniesMemory name with
    | true =>
      rw [dispatch, dispatchDepth, dispatchWith, hgate]
      rfl
    | false =>
      rcases dispatch_write hw hs env args with ⟨reply, h⟩ | ⟨f, h⟩
      · rw [h w hgate]
      · rw [h w hgate, catchError_snd]
        rfl

/-- The database that is selected after commands. -/
def selectedAfter (H : Host) (cmds : List (List Bytes)) (i : ℕ) : ℕ :=
  cmds.foldl (fun i c => selectedBy (H.toUppercase (fromUtf8Lossy (c.headD []))) c.tail i) i

theorem selectedAfter_singleton (H : Host) (m : Moment) (name : Bytes) (args : List Bytes) (i : ℕ) :
    selectedAfter H [name :: args] i = selectedBy (upper (m.on H) name) args i := by
  rw [selectedAfter, List.foldl_cons, List.foldl_nil, List.headD_cons, List.tail_cons]
  rfl

theorem selectedAfter_append (H : Host) (cmds cmds' : List (List Bytes)) (i : ℕ) :
    selectedAfter H (cmds ++ cmds') i = selectedAfter H cmds' (selectedAfter H cmds i) :=
  List.foldl_append

/-- The database that a logged command selects. -/
theorem dbIndex_dispatch {H : Host} {m : Moment} {name : Bytes}
    (hwrite : isWriteCommand (upper (m.on H) name) = true) (args : List Bytes) (w : Whole) :
    (dispatch (m.on H) (upper (m.on H) name) args w).2.ctx.dbIndex
      = selectedAfter H [name :: args] w.ctx.dbIndex := by
  rw [ctx_dispatch hwrite, selectedAfter_singleton]

/-- A command that is logged. -/
def Logged (H : Host) : List Bytes → Prop
  | [] => False
  | name :: _ => isWriteCommand (H.toUppercase (fromUtf8Lossy name)) = true

theorem logged_selectCommand (H : Host) (n : ℕ) : Logged H (selectCommand n) := by
  have hname : H.toUppercase (fromUtf8Lossy (asBytes "SELECT")) = "SELECT" :=
    upper_name selectDef_mem (Moment.on ⟨0, 0, 0, 0⟩ H)
  show isWriteCommand (H.toUppercase (fromUtf8Lossy (asBytes "SELECT"))) = true
  rw [hname]
  decide

theorem ctx_runCommands {H : Host} {clock : ℕ → Moment} {n : ℕ} {cmds : List (List Bytes)}
    (hcmds : ∀ c ∈ cmds, Logged H c) {w : Whole} (h : Returns H clock n cmds w) :
    (runCommands H clock n cmds w).2.ctx
      = { w.ctx with dbIndex := selectedAfter H cmds w.ctx.dbIndex } := by
  induction cmds generalizing n w with
  | nil => rfl
  | cons c cmds ih =>
    have hc := hcmds c List.mem_cons_self
    cases c with
    | nil => exact hc.elim
    | cons name args =>
      have hwrite : isWriteCommand (upper ((clock n).on H) name) = true := hc
      have hctx := ctx_dispatch hwrite ((clock n).on H) args w
      rw [← List.singleton_append] at h
      have hone := h.front.run
      rw [runCommands] at hone ⊢
      rcases hd : dispatch ((clock n).on H) (upper ((clock n).on H) name) args w with ⟨e | r, w₁⟩
      · rw [Proc.bind_error hd] at hone
        cases hone
      · have hctx₁ : w₁.ctx = _ := (congrArg (fun r => r.2.ctx) hd).symm.trans hctx
        have hrun : runCommands H clock n [name :: args] w = (.ok (n + 1), w₁) := by
          rw [runCommands, Proc.bind_ok hd]
          rfl
        have hrest : Returns H clock (n + 1) cmds w₁ := (returns_append hrun).mp h
        have hselected : selectedAfter H ((name :: args) :: cmds) w.ctx.dbIndex
            = selectedAfter H cmds
                (selectedBy (upper ((clock n).on H) name) args w.ctx.dbIndex) := by
          rw [← List.singleton_append, selectedAfter_append, selectedAfter_singleton]
        rw [Proc.bind_ok hd, ih (fun c hc => hcmds c (List.mem_cons_of_mem _ hc)) hrest, hctx₁,
          hselected]

/-! ### Two stores -/

/-- Two clients of two stores that hold the same data, have the same database selected and are not
short of memory. -/
structure Alike (w w' : Whole) : Prop where
  databases : w.store.databases = w'.store.databases
  dbIndex : w.ctx.dbIndex = w'.ctx.dbIndex
  memory : w.store.tables.overMemoryLimit = false
  memory' : w'.store.tables.overMemoryLimit = false

theorem overMemoryLimit_notify (t : Tables) (key : Bytes) :
    (t.notify key).overMemoryLimit = t.overMemoryLimit := by
  rw [Tables.notify]
  split <;> rfl

theorem overMemoryLimit_foldl (keys : List Bytes) (t : Tables) :
    (keys.foldl Tables.notify t).overMemoryLimit = t.overMemoryLimit := by
  induction keys generalizing t with
  | nil => rfl
  | cons key keys ih => rw [List.foldl_cons, ih, overMemoryLimit_notify]

theorem deniesMemory_of_le {t : Tables} (h : t.overMemoryLimit = false) (name : String) :
    t.deniesMemory name = false := by
  rw [Tables.deniesMemory, h]
  rfl

/-- **One command on two stores**, of which neither refuses it for lack of memory. -/
theorem dispatch_congr {name : String} (hw : isWriteCommand name = true) (env : Env)
    (args : List Bytes) {w w' : Whole} (hdbs : w.store.databases = w'.store.databases)
    (hindex : w.ctx.dbIndex = w'.ctx.dbIndex) (hgate : w.store.tables.deniesMemory name = false)
    (hgate' : w'.store.tables.deniesMemory name = false) :
    (dispatch env name args w).1 = (dispatch env name args w').1 ∧
      (dispatch env name args w).2.store.databases
        = (dispatch env name args w').2.store.databases := by
  by_cases hs : name = "SELECT"
  · subst hs
    cases hargs : selectDef.refuses args with
    | false =>
      rw [dispatch_select env hargs, dispatch_select env hargs]
      exact ⟨rfl, hdbs⟩
    | true =>
      refine ⟨?_, ?_⟩
      · have hfind : findCommand "SELECT" = some selectDef := findCommand_of_mem selectDef_mem
        simp only [dispatch, dispatchDepth, dispatchWith, hfind, hgate, hgate', hargs]
        rfl
      · rw [dispatch_select_refused env hargs, dispatch_select_refused env hargs]
        exact hdbs
  · rcases dispatch_write hw hs env args with ⟨reply, hd⟩ | ⟨f, hd⟩
    · rw [hd w hgate, hd w' hgate']
      exact ⟨rfl, hdbs⟩
    · have hrun : f env w.ctx.dbIndex args { databases := w.store.databases }
          = f env w'.ctx.dbIndex args { databases := w'.store.databases } := by
        rw [hdbs, hindex]
      rw [hd w hgate, hd w' hgate', catchError_fst, catchError_fst, catchError_snd, catchError_snd,
        Handler.run]
      simp only [hrun, and_self]

/-- A logged command leaves the memory alone. -/
theorem overMemoryLimit_dispatch {name : String} (hw : isWriteCommand name = true) (env : Env)
    (args : List Bytes) {w : Whole} (hgate : w.store.tables.deniesMemory name = false) :
    (dispatch env name args w).2.store.tables.overMemoryLimit
      = w.store.tables.overMemoryLimit := by
  by_cases hs : name = "SELECT"
  · subst hs
    cases hargs : selectDef.refuses args with
    | false => rw [dispatch_select env hargs]
    | true => rw [dispatch_select_refused env hargs]
  · rcases dispatch_write hw hs env args with ⟨reply, hd⟩ | ⟨f, hd⟩
    · rw [hd w hgate]
    · rw [hd w hgate, catchError_snd, Handler.run]
      exact overMemoryLimit_foldl _ _

theorem alike_dispatch {name : String} (hw : isWriteCommand name = true) (env : Env)
    (args : List Bytes) {w w' : Whole} (h : Alike w w') :
    (dispatch env name args w).1 = (dispatch env name args w').1 ∧
      Alike (dispatch env name args w).2 (dispatch env name args w').2 := by
  have hgate := deniesMemory_of_le h.memory name
  have hgate' := deniesMemory_of_le h.memory' name
  obtain ⟨hres, hdbs⟩ := dispatch_congr hw env args h.databases h.dbIndex hgate hgate'
  refine ⟨hres, hdbs, ?_, ?_, ?_⟩
  · rw [ctx_dispatch hw, ctx_dispatch hw]
    exact congrArg (selectedBy name args) h.dbIndex
  · rw [overMemoryLimit_dispatch hw env args hgate, h.memory]
  · rw [overMemoryLimit_dispatch hw env args hgate', h.memory']

/-- **Commands one after the other on two stores.** -/
theorem alike_runCommands {H : Host} {clock : ℕ → Moment} {cmds : List (List Bytes)}
    (hcmds : ∀ c ∈ cmds, Logged H c) (n : ℕ) {w w' : Whole} (h : Alike w w') :
    (runCommands H clock n cmds w).1 = (runCommands H clock n cmds w').1 ∧
      Alike (runCommands H clock n cmds w).2 (runCommands H clock n cmds w').2 := by
  induction cmds generalizing n w w' with
  | nil => exact ⟨rfl, h⟩
  | cons c cmds ih =>
    have hc := hcmds c List.mem_cons_self
    cases c with
    | nil => exact hc.elim
    | cons name args =>
      have hwrite : isWriteCommand (upper ((clock n).on H) name) = true := hc
      obtain ⟨hres, halike⟩ := alike_dispatch hwrite ((clock n).on H) args h
      rw [runCommands]
      rcases hd : dispatch ((clock n).on H) (upper ((clock n).on H) name) args w with ⟨r, w₁⟩
      rcases hd' : dispatch ((clock n).on H) (upper ((clock n).on H) name) args w' with ⟨r', w₁'⟩
      have hr : r = r' := (congrArg Prod.fst hd).symm.trans (hres.trans (congrArg Prod.fst hd'))
      have hw : Alike w₁ w₁' := by
        have h₁ : _ = w₁ := congrArg Prod.snd hd
        have h₁' : _ = w₁' := congrArg Prod.snd hd'
        rw [← h₁, ← h₁']
        exact halike
      subst hr
      cases r with
      | error e =>
        rw [Proc.bind_error hd, Proc.bind_error hd']
        exact ⟨rfl, hw⟩
      | ok r =>
        rw [Proc.bind_ok hd, Proc.bind_ok hd']
        exact ih (fun c hc => hcmds c (List.mem_cons_of_mem _ hc)) (n + 1) hw

/-! ### Setting a string -/

/-- The command `SET`. -/
def setDef : CommandDef := ⟨"SET", -3, .write Cmd.set⟩

theorem setDef_mem : setDef ∈ commands := by
  simp [setDef, commands, Cmd.stringCommands]

theorem logged_setCommand (H : Host) (k v : Bytes) : Logged H (setCommand k v) := by
  have hname : H.toUppercase (fromUtf8Lossy (asBytes "SET")) = "SET" :=
    upper_name setDef_mem (Moment.on ⟨0, 0, 0, 0⟩ H)
  show isWriteCommand (H.toUppercase (fromUtf8Lossy (asBytes "SET"))) = true
  rw [hname]
  decide

/-- The databases after setting a string. -/
def setString (dbs : Databases) (i : ℕ) (k v : Bytes) : Databases :=
  dbs.put i k { value := .string v,
                version := ((dbs.find i k).getD { value := .string [] }).version + 1 }

/-- Setting a string in the selected database, if there is one, does not depend on the moment. -/
theorem dispatch_set (k v : Bytes) {w : Whole} (hmem : w.store.tables.overMemoryLimit = false) :
    ∃ reply, ∀ env, dispatch env "SET" [k, v] w
      = (.ok reply, ⟨⟨setString w.store.databases w.ctx.dbIndex k v, w.store.tables⟩, w.ctx⟩) := by
  have hrun : ∀ env, dispatch env "SET" [k, v] w
      = catchError (setDef.handler.run (dispatchDepth env env.nesting) env [k, v]) w :=
    fun env => dispatch_eq setDef_mem env (deniesMemory_of_le hmem _) rfl
  have hset : ∀ env, Cmd.set env w.ctx.dbIndex [k, v] { databases := w.store.databases }
      = (Keyspace.set w.ctx.dbIndex k v none >>= fun _ => pure RespValue.ok)
          ⟨w.store.databases, []⟩ := fun env => rfl
  have hhandler : ∀ env, setDef.handler.run (dispatchDepth env env.nesting) env [k, v] w
      = let r := Cmd.set env w.ctx.dbIndex [k, v] { databases := w.store.databases }
        (r.1, ⟨⟨r.2.databases, r.2.notified.foldl Tables.notify w.store.tables⟩, w.ctx⟩) :=
    fun env => rfl
  by_cases hi : w.ctx.dbIndex < w.store.databases.length
  · refine ⟨.ok, fun env => ?_⟩
    rw [hrun, catchError, hhandler, hset, Proc.bind_ok (Keyspace.set_run hi v none [])]
    rfl
  · have hi := Nat.le_of_not_lt hi
    obtain ⟨e, he⟩ := Keyspace.read_db_error hi []
    have hsame : setString w.store.databases w.ctx.dbIndex k v = w.store.databases :=
      List.modify_eq_self hi
    have hfail : Keyspace.set w.ctx.dbIndex k v none ⟨w.store.databases, []⟩
        = (.error (.error e), ⟨w.store.databases, []⟩) := Proc.bind_error he
    refine ⟨.error e.display, fun env => ?_⟩
    rw [hrun, catchError, hhandler, hset, Proc.bind_error hfail, hsame]
    rfl

theorem runCommands_set {H : Host} {clock : ℕ → Moment} (k v : Bytes) {w : Whole}
    (hmem : w.store.tables.overMemoryLimit = false) (n : ℕ) :
    runCommands H clock n [setCommand k v] w
      = (.ok (n + 1), ⟨⟨setString w.store.databases w.ctx.dbIndex k v, w.store.tables⟩, w.ctx⟩) := by
  obtain ⟨reply, hset⟩ := dispatch_set k v hmem
  have hname : upper ((clock n).on H) (asBytes "SET") = "SET" := upper_name setDef_mem _
  rw [setCommand, runCommands, hname, Proc.bind_ok (hset _)]
  rfl

end VeloDB
