import VeloDB.Cmd.Server

/-!
# The command table

`dispatch` runs one command: the memory gate, the lookup by name, the arity check for the commands
that have a fixed one, the handler. `EXEC` and the script commands run other commands through
`dispatch` again, so it is defined for a number of nested levels; a level below the last is a stack
overflow.
-/

namespace VeloDB

open Rust

/-! ### The store as a command sees it -/

/-- `Store::over_memory_limit`. -/
def Tables.overMemoryLimit (t : Tables) : Bool :=
  t.maxmemory ≠ 0 && t.maxmemory < t.cachedMemoryUsage

/-- `BlockRegistry::notify`: wake every client that waits on the key. -/
def Tables.notify (t : Tables) (key : Bytes) : Tables :=
  match t.blockRegistry.waiters.lookup key with
  | some waiters => { t with
      blockRegistry := { t.blockRegistry with
        waiters := t.blockRegistry.waiters.insert key [] }
      woken := t.woken ++ waiters.map Prod.snd }
  | none => t

/-- The receiver of a context goes away with the context. -/
def Tables.dropReceiver (t : Tables) (ctx : ClientContext) : Tables :=
  { t with pubsubRegistry := t.pubsubRegistry.dropMailbox ctx.pubsubRx }

/-- How a command runs other commands. -/
abbrev Dispatch := String → List Bytes → WholeM RespValue

/-! ### `EXEC` -/

namespace Cmd

/-- The loop of `exec` over the watched keys: `true` when none of them has changed. -/
def checkWatched (now : UInt64) (dbs : Databases) (i : ℕ) :
    List Bytes → List ℕ → Except Failure Bool
  | [], _ => .ok true
  | key :: keys, versions =>
    match versionOf now dbs i key with
    | none => .ok false
    | some current =>
      match versions with
      | [] => .error .panic
      | v :: versions =>
        if current ≠ v then .ok false else checkWatched now dbs i keys versions

/-- The loop of `exec` over the queue. -/
def execQueue (dispatch : Dispatch) (env : Env) : List (List Bytes) → WholeM (List RespValue)
  | [] => pure []
  | args :: queue => do
    let name ← lift (arg args 0)
    let resp ← dispatch (upper env name) args.tail
    let results ← execQueue dispatch env queue
    pure (resp :: results)

/-- `std::mem::take` of what belongs to a transaction. -/
def takeTransaction (c : ClientContext) : ClientContext :=
  { c with multiMode := false, multiQueue := [], watchedKeys := [], watchedVersions := [] }

/-- `exec`. -/
def exec (dispatch : Dispatch) (env : Env) : WholeM RespValue := do
  let w ← Proc.get
  if !w.ctx.multiMode then Proc.fail (.error (.internal "EXEC without MULTI"))
  else
    Proc.modify fun w => { w with ctx := takeTransaction w.ctx }
    let unchanged ← lift (checkWatched env.now w.store.databases w.ctx.dbIndex
      w.ctx.watchedKeys w.ctx.watchedVersions)
    if unchanged then
      let results ← execQueue dispatch env w.ctx.multiQueue
      pure (.array (some results))
    else pure (.array none)

/-! ### Scripts -/

/-- The arguments of `redis.call` as command arguments. -/
def callArgs (H : Host) : List LuaValue → Except String (List Bytes)
  | [] => .ok []
  | v :: vs => do
    let a ← match v with
      | .string s => .ok s
      | .integer i => .ok (i64Bytes i)
      | .number d => .ok (asBytes (H.displayF64 d))
      | _ => .error "Lua redis.call() arguments must be strings or numbers"
    let as ← callArgs H vs
    pure (a :: as)

mutual

/-- `resp_to_lua`. The entries of a table are in the order in which they are set. -/
def respToLua : RespValue → LuaValue
  | .integer i => .integer i
  | .simpleString s => .string (asBytes s)
  | .bulkString (some b) => .string b
  | .bulkString none => .boolean false
  | .error e => .string (asBytes e)
  | .array (some items) => .table (itemsToLua 1 items)
  | .array none => .boolean false
  | .map pairs => .table (pairsToLua pairs)
  | .double d => .number d
  | .boolean b => .boolean b
  | .null => .boolean false

/-- The items of an array, numbered from one. -/
def itemsToLua : ℕ → List RespValue → List (LuaValue × LuaValue)
  | _, [] => []
  | n, v :: vs => (.integer (Int64.ofNat n), respToLua v) :: itemsToLua (n + 1) vs

/-- The pairs of a map. -/
def pairsToLua : List (RespValue × RespValue) → List (LuaValue × LuaValue)
  | [] => []
  | (k, v) :: ps => (respToLua k, respToLua v) :: pairsToLua ps

end

/-- `lua_to_resp`. -/
def luaToResp : LuaValue → RespValue
  | .integer i => .integer i
  | .string s => .bulk s
  | .boolean b => .integer (if b then 1 else 0)
  | _ => .ok

/-- Run a step with a context of its own that is dropped afterwards. -/
def withContext {α : Type} (ctx : ClientContext) (m : WholeM α) : WholeM α := fun w =>
  let r := m { w with ctx }
  (r.1, { w with store := { r.2.store with tables := r.2.store.tables.dropReceiver r.2.ctx } })

/-- The body of `redis.call`: what the script gets back. -/
def redisCall (dispatch : Dispatch) (env : Env) (db : ℕ) (args : List LuaValue) :
    WholeM (Except CallFailure LuaValue) := fun w =>
  match callArgs env.host args with
  | .error msg => (.ok (.error (.error msg)), w)
  | .ok [] => (.ok (.error (.error "wrong number of arguments to redis.call()")), w)
  | .ok (name :: rest) =>
    match withContext { dbIndex := db } (dispatch (upper env name) rest) w with
    | (.ok resp, w') => (.ok (.ok (respToLua resp)), w')
    | (.error .hang, w') => (.error .hang, w')
    | (.error _, w') => (.ok (.error .panic), w')

/-- A script from its start, or from the answer of a call, to its end. -/
def runScript (dispatch : Dispatch) (env : Env) (db : ℕ) : LuaProc → WholeM RespValue
  | .ret v => pure (luaToResp v)
  | .fail msg => pure (.error ("ERR " ++ msg))
  | .panic => Proc.fail .panic
  | .call args k => redisCall dispatch env db args >>= fun answer =>
      runScript dispatch env db (k answer)

/-- `eval_cmd`. The sum of two and the number of keys wraps. -/
def evalCmd (dispatch : Dispatch) (env : Env) (args : List Bytes) : WholeM RespValue := do
  let w ← Proc.get
  match args with
  | script :: numKeys :: rest =>
    let stop := min ((2 + (argUsize numKeys).getD 0) % 2 ^ 64) args.length
    if stop < 2 then Proc.fail .panic
    else runScript dispatch env w.ctx.dbIndex (env.host.lua (fromUtf8Lossy script)
      ((rest.take (stop - 2)).map fromUtf8Lossy) ((rest.drop (stop - 2)).map fromUtf8Lossy))
  | _ => Proc.fail (.error (.wrongNumberOfArgs "EVAL"))

/-- The state with other readers of the scripts. -/
def setReaders (readers : List String) (w : Whole) : Whole :=
  { w with store := { w.store with tables := { w.store.tables with
    luaScripts := { w.store.tables.luaScripts with readers } } } }

/-- Run a step while the entry of a script is being read. The lock goes when the step ends, also
when it panics; a step that hangs keeps it. -/
def readingScript {α : Type} (sha : String) (m : WholeM α) : WholeM α := fun w =>
  match m (setReaders (sha :: w.store.tables.luaScripts.readers) w) with
  | (.error .hang, w') => (.error .hang, w')
  | (r, w') => (r, setReaders w.store.tables.luaScripts.readers w')

/-- `evalsha_cmd`. The guard that `lua_scripts.get` returns lives as long as the script runs. -/
def evalshaCmd (dispatch : Dispatch) (env : Env) (args : List Bytes) : WholeM RespValue := do
  let w ← Proc.get
  match args with
  | sha :: numKeys :: rest =>
    match w.store.tables.luaScripts.entries.lookup (fromUtf8Lossy sha) with
    | some script =>
      readingScript (fromUtf8Lossy sha) (evalCmd dispatch env (asBytes script :: numKeys :: rest))
    | none => pure (.error "NOSCRIPT No matching script. Please use EVAL.")
  | _ => Proc.fail (.error (.wrongNumberOfArgs "EVALSHA"))

section Reading

variable {α : Type} (sha : String) (m : WholeM α) (w : Whole)

/-- What a step replies does not change when it ends. -/
theorem readingScript_fst : (readingScript sha m w).1
    = (m (setReaders (sha :: w.store.tables.luaScripts.readers) w)).1 := by
  rw [readingScript]
  rcases m (setReaders (sha :: w.store.tables.luaScripts.readers) w) with ⟨(e | _ | _) | r, w'⟩ <;>
    rfl

/-- It leaves what it has left, but for the readers. -/
theorem readingScript_snd : ∃ readers, (readingScript sha m w).2
    = setReaders readers (m (setReaders (sha :: w.store.tables.luaScripts.readers) w)).2 := by
  rw [readingScript]
  rcases m (setReaders (sha :: w.store.tables.luaScripts.readers) w) with ⟨(e | _ | _) | r, w'⟩
  · exact ⟨_, rfl⟩
  · exact ⟨_, rfl⟩
  · exact ⟨w'.store.tables.luaScripts.readers, rfl⟩
  · exact ⟨_, rfl⟩

end Reading

end Cmd

/-! ### Dispatching -/

/-- Run a handler, on the part of the state that it works on. -/
def Handler.run (dispatch : Dispatch) (env : Env) (args : List Bytes) :
    Handler → WholeM RespValue
  | .read f => fun w => (f env w.store.databases w.ctx.dbIndex args, w)
  | .write f => fun w =>
    let r := f env w.ctx.dbIndex args { databases := w.store.databases }
    (r.1, { w with store := {
      databases := r.2.databases
      tables := r.2.notified.foldl Tables.notify w.store.tables } })
  | .side f => fun w =>
    let r := f env w.store.databases args { tables := w.store.tables, ctx := w.ctx }
    (r.1, { store := { w.store with tables := r.2.tables }, ctx := r.2.ctx })
  | .whole f => f env args
  | .exec => Cmd.exec dispatch env
  | .eval => Cmd.evalCmd dispatch env args
  | .evalsha => Cmd.evalshaCmd dispatch env args

theorem Handler.run_read (dispatch : Dispatch) (env : Env) (args : List Bytes)
    (f : Env → Databases → ℕ → List Bytes → Except Failure RespValue) (w : Whole) :
    Handler.run dispatch env args (.read f) w = (f env w.store.databases w.ctx.dbIndex args, w) := rfl

/-- The commands in the order in which `CommandTable::new` registers them. -/
def commands : List CommandDef :=
  Cmd.serverCommands ++ Cmd.stringCommands ++ Cmd.genericCommands ++ Cmd.listCommands ++
    Cmd.setCommands ++ Cmd.hashCommands ++ Cmd.zsetCommands ++ Cmd.streamCommands ++
    Cmd.nestedHashCommands ++ Cmd.pubsubCommands ++ Cmd.transactionCommands ++ Cmd.luaCommands ++
    Cmd.clusterCommands

/-- `self.commands.get(name)`: the last command registered under a name. -/
def findCommand (name : String) : Option CommandDef :=
  commands.reverse.find? fun c => c.name == name

/-- `is_deny_oom_command`. -/
def isDenyOomCommand (name : String) : Bool :=
  name ∈ ["SET", "SETRANGE", "MSET", "INCR", "INCRBY", "DECR", "DECRBY", "APPEND", "GETSET",
    "LPUSH", "RPUSH", "LSET", "SADD", "HSET", "HINCRBY", "ZADD", "XADD", "NHSET", "RENAME",
    "RENAMENX", "EVAL", "EVALSHA"]

/-- The gate in front of the commands that need memory. -/
def Tables.deniesMemory (t : Tables) (name : String) : Bool :=
  t.overMemoryLimit && t.evictionPolicy = .noEviction && isDenyOomCommand name

theorem Tables.deniesMemory_of_allowed (t : Tables) {name : String}
    (h : isDenyOomCommand name = false) : t.deniesMemory name = false := by
  rw [Tables.deniesMemory, h, Bool.and_false]

/-- `cmd.arity > 0 && args.len() as i32 + 1 != cmd.arity`. -/
def CommandDef.refuses (c : CommandDef) (args : List Bytes) : Bool :=
  0 < c.arity && ((args.length : ℤ) + 1).bmod (2 ^ 32) ≠ c.arity

/-- An error becomes an error reply. -/
def catchError (m : WholeM RespValue) : WholeM RespValue := fun w =>
  match m w with
  | (.error (.error e), w') => (.ok (.error e.display), w')
  | r => r

theorem catchError_fst (m : WholeM RespValue) (w : Whole) :
    (catchError m w).1 = match (m w).1 with
      | .error (.error e) => .ok (.error e.display)
      | r => r := by
  rw [catchError]
  rcases hm : m w with ⟨r, w'⟩
  cases r with
  | ok r => rfl
  | error e => cases e <;> rfl

theorem catchError_snd (m : WholeM RespValue) (w : Whole) : (catchError m w).2 = (m w).2 := by
  rw [catchError]
  split
  · next h => rw [h]
  · rfl

theorem catchError_congr {m m' : WholeM RespValue} {w w' : Whole} (h : (m w).1 = (m' w').1) :
    (catchError m w).1 = (catchError m' w').1 := by
  rw [catchError_fst, catchError_fst, h]

/-- `CommandTable::dispatch`, with what its handlers call when they run other commands. -/
def dispatchWith (dispatch : Dispatch) (env : Env) : Dispatch := fun name args w =>
  if w.store.tables.deniesMemory name then
    (.ok (.error "OOM command not allowed when used memory > 'maxmemory'."), w)
  else match findCommand name with
    | some c =>
      if c.refuses args then
        (.ok (.error ("ERR wrong number of arguments for '" ++ env.host.toLowercase c.name ++
          "' command")), w)
      else catchError (c.handler.run dispatch env args) w
    | none => (.ok (.error ("ERR unknown command '" ++ env.host.toLowercase name ++ "'")), w)

/-- `CommandTable::dispatch`, to a given depth of nesting. -/
def dispatchDepth (env : Env) : ℕ → Dispatch
  | 0 => fun _ _ => Proc.fail .panic
  | depth + 1 => dispatchWith (dispatchDepth env depth) env

/-- `CommandTable::dispatch`. -/
def dispatch (env : Env) : Dispatch := dispatchDepth env (env.nesting + 1)

/-! ### Looking up commands -/

theorem nodup_commands : (commands.map CommandDef.name).Nodup := by decide +kernel

theorem mem_of_findCommand {name : String} {c : CommandDef} (h : findCommand name = some c) :
    c ∈ commands ∧ c.name = name :=
  ⟨List.mem_reverse.mp (List.mem_of_find?_eq_some h), eq_of_beq (List.find?_some h :)⟩

theorem findCommand_of_mem {c : CommandDef} (h : c ∈ commands) : findCommand c.name = some c := by
  cases hf : findCommand c.name with
  | none =>
    have hnot := List.find?_eq_none.mp hf c (List.mem_reverse.mpr h)
    exact absurd (beq_self_eq_true c.name) hnot
  | some c' =>
    obtain ⟨hmem, hname⟩ := mem_of_findCommand hf
    rw [List.inj_on_of_nodup_map nodup_commands hmem h hname]

/-- What holds of the commands of every module holds of all commands. -/
theorem forall_commands {P : CommandDef → Prop} (hserver : ∀ c ∈ Cmd.serverCommands, P c)
    (hstring : ∀ c ∈ Cmd.stringCommands, P c) (hgeneric : ∀ c ∈ Cmd.genericCommands, P c)
    (hlist : ∀ c ∈ Cmd.listCommands, P c) (hset : ∀ c ∈ Cmd.setCommands, P c)
    (hhash : ∀ c ∈ Cmd.hashCommands, P c) (hzset : ∀ c ∈ Cmd.zsetCommands, P c)
    (hstream : ∀ c ∈ Cmd.streamCommands, P c) (hnested : ∀ c ∈ Cmd.nestedHashCommands, P c)
    (hothers : ∀ c ∈ Cmd.pubsubCommands ++ Cmd.transactionCommands ++ Cmd.luaCommands ++
      Cmd.clusterCommands, P c) : ∀ c ∈ commands, P c := by
  intro c hc
  simp only [commands, List.append_assoc, List.mem_append] at hc
  rcases hc with hc | hc | hc | hc | hc | hc | hc | hc | hc | hc
  · exact hserver c hc
  · exact hstring c hc
  · exact hgeneric c hc
  · exact hlist c hc
  · exact hset c hc
  · exact hhash c hc
  · exact hzset c hc
  · exact hstream c hc
  · exact hnested c hc
  · refine hothers c ?_
    simpa only [List.append_assoc, List.mem_append] using hc

/-- What the definitions of some commands say holds of every command with one of these names. -/
theorem of_definitions {P : CommandDef → Prop} {names : List String}
    (hdefs : ∀ name ∈ names, ∃ c ∈ commands, c.name = name ∧ P c) {c : CommandDef}
    (hc : c ∈ commands) (hname : c.name ∈ names) : P c := by
  obtain ⟨c', hc', hsame, hp⟩ := hdefs c.name hname
  obtain rfl := List.inj_on_of_nodup_map nodup_commands hc' hc hsame
  exact hp

/-- **What a command leaves behind**: what it has found, or what its handler leaves behind. -/
theorem dispatchDepth_snd (env : Env) (depth : ℕ) (name : String) (args : List Bytes) (w : Whole) :
    (dispatchDepth env (depth + 1) name args w).2 = w ∨
    ∃ c ∈ commands, c.name = name ∧ (dispatchDepth env (depth + 1) name args w).2
      = (c.handler.run (dispatchDepth env depth) env args w).2 := by
  rw [dispatchDepth, dispatchWith]
  split_ifs
  · exact Or.inl rfl
  · cases hc : findCommand name with
    | none => exact Or.inl rfl
    | some c =>
      obtain ⟨hmem, hname⟩ := mem_of_findCommand hc
      dsimp only
      split_ifs
      · exact Or.inl rfl
      · exact Or.inr ⟨c, hmem, hname, catchError_snd _ w⟩

/-- What a command of the table leaves behind. -/
theorem dispatch_snd {c : CommandDef} (hc : c ∈ commands) (env : Env) (args : List Bytes)
    (w : Whole) : (dispatch env c.name args w).2 = w ∨ (dispatch env c.name args w).2
      = (c.handler.run (dispatchDepth env env.nesting) env args w).2 := by
  rcases dispatchDepth_snd env env.nesting c.name args w with h | ⟨c', hc', hname, h⟩
  · exact Or.inl h
  · obtain rfl := List.inj_on_of_nodup_map nodup_commands hc' hc hname
    exact Or.inr h

/-- The names of the commands are upper case. -/
theorem upper_name {c : CommandDef} (h : c ∈ commands) (env : Env) :
    upper env (asBytes c.name) = c.name := by
  have hall : ∀ c ∈ commands,
      c.name.toList.all (fun x => decide (x.toNat < 0x80) && x.toUpper == x) = true := by
    decide +kernel
  rw [upper, fromUtf8Lossy_asBytes, env.host.toUppercase_of_upper (hall c h)]

/-- The number of arguments that a fixed arity asks for. -/
theorem refuses_of_length {c : CommandDef} {args : List Bytes} (h : c.arity = args.length + 1)
    (hlt : args.length + 1 < 2 ^ 31) : c.refuses args = false := by
  have hmod : ((args.length : ℤ) + 1).bmod (2 ^ 32) = args.length + 1 := by
    apply Int.bmod_eq_of_le <;> omega
  rw [CommandDef.refuses, hmod, h]
  simp

/-- A command that is let through runs its handler. -/
theorem dispatch_eq {c : CommandDef} (hc : c ∈ commands) (env : Env) {args : List Bytes} {w : Whole}
    (hmem : w.store.tables.deniesMemory c.name = false) (hargs : c.refuses args = false) :
    dispatch env c.name args w
      = catchError (c.handler.run (dispatchDepth env env.nesting) env args) w := by
  rw [dispatch, dispatchDepth, dispatchWith, hmem, findCommand_of_mem hc]
  simp [hargs]

end VeloDB
