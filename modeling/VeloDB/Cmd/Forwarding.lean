import VeloDB.Cmd.Scripts

/-!
# A command inside of a script

`return redis.call(unpack(ARGV))` is the shortest detour to a command. It does to the store what the
command does. What it replies is another matter: the reply is turned into a Lua value and back, and
only bulk strings and the integers that a number of Lua can be come back as they were. A status
becomes a bulk string, an array becomes `OK` whatever is in it, null becomes `0`, and an error comes
back as a bulk string with its text, so that a client takes it for a value.

The numbers of LuaJIT are `f64`. An integer beyond `2 ^ 53` is rounded when a script gets it, and
the largest ones come back as `OK`.

## Main definitions

* `LuaValue.carried` — a value that a script has got and returns
* `forwarding` — the run of the script

## Main results

* `throughLua_eq_iff` — the replies that survive a script
* `eval_forwards` — the detour
-/

namespace VeloDB

open Rust Proc

/-! ### There and back -/

/-- A value that a script has got and returns as it is. On the way it is a number of LuaJIT, and a
number that is an `i64` up to `f64::EPSILON` comes back as an integer. -/
def LuaValue.carried : LuaValue → LuaValue
  | .integer i =>
    let d := F64.ofInt i.toInt
    -- rounding leaves the range at its upper end only
    if -2 ^ 63 ≤ d ∧ d < 2 ^ 63 then .integer (Int64.ofInt d) else .number F64.twoPow63
  | .number d =>
    if d.magnitude < 0x3CB * 2 ^ 52 then .integer 0
    else match d.toInt? with
      | some n => if -2 ^ 63 ≤ n ∧ n < 2 ^ 63 then .integer (Int64.ofInt n) else .number d
      | none => .number d
  | v => v

/-- The reply of a script that returns what a command has replied. -/
def throughLua (r : RespValue) : RespValue := Cmd.luaToResp (Cmd.respToLua r).carried

/-- An integer comes back as it was if it is a number of Lua. -/
theorem throughLua_integer_iff (n : Int64) :
    throughLua (.integer n) = .integer n ↔ F64.Exact n.toInt := by
  rw [← F64.ofInt_eq_iff, throughLua, Cmd.respToLua, LuaValue.carried]
  have hmin := n.le_toInt
  have hmax := n.toInt_lt
  constructor
  · intro h
    split_ifs at h with hrange
    · rw [Cmd.luaToResp, RespValue.integer.injEq] at h
      rw [← Int64.toInt_ofInt_of_le hrange.1 hrange.2, h]
    · simp [Cmd.luaToResp, RespValue.ok] at h
  · intro h
    rw [h, if_pos ⟨hmin, hmax⟩, Int64.ofInt_toInt, Cmd.luaToResp]

/-- A number comes back as an integer or as `OK`. -/
theorem throughLua_double_ne (d : F64) : throughLua (.double d) ≠ .double d := by
  rw [throughLua, Cmd.respToLua, LuaValue.carried]
  split_ifs
  · simp [Cmd.luaToResp]
  · split
    · split_ifs <;> simp [Cmd.luaToResp, RespValue.ok]
    · simp [Cmd.luaToResp, RespValue.ok]

/-- **The replies that survive a script.** -/
theorem throughLua_eq_iff {r : RespValue} : throughLua r = r ↔
    (∃ n : Int64, r = .integer n ∧ F64.Exact n.toInt) ∨ ∃ b, r = .bulkString (some b) := by
  cases r with
  | integer n => simp [throughLua_integer_iff]
  | double d => simp [throughLua_double_ne]
  | bulkString o =>
    cases o with
    | none => simp [throughLua, Cmd.respToLua, LuaValue.carried, Cmd.luaToResp]
    | some b => simp [throughLua, Cmd.respToLua, LuaValue.carried, Cmd.luaToResp, RespValue.bulk]
  | array o =>
    cases o <;> simp [throughLua, Cmd.respToLua, LuaValue.carried, Cmd.luaToResp, RespValue.ok]
  | _ =>
    simp [throughLua, Cmd.respToLua, LuaValue.carried, Cmd.luaToResp, RespValue.ok, RespValue.bulk]

/-- No script replies with the error of a command that it has called. -/
theorem isError_throughLua (r : RespValue) : (throughLua r).isError = false := by
  rw [throughLua, Cmd.luaToResp.eq_def]
  split <;> rfl

/-! ### The detour -/

/-- The run of a script that calls one command and returns the answer. -/
def forwarding (args : List Bytes) : LuaProc :=
  .call (args.map .string) fun answer => match answer with
    | .ok v => .ret v.carried
    | .error (.error msg) => .fail msg
    | .error .panic => .panic

theorem callArgs_strings (H : Host) (args : List Bytes) :
    Cmd.callArgs H (args.map .string) = .ok args := by
  induction args with
  | nil => rfl
  | cons a args ih =>
    rw [List.map_cons, Cmd.callArgs, ih]
    rfl

section Detour

variable {env : Env} {c : CommandDef} {args : List Bytes} {w : Whole}

/-- A command that runs no others does the same however deep it is nested. -/
theorem dispatchDepth_of_leaf (hc : c ∈ commands) (hleaf : c.handler.isLeaf = true) (n n' : ℕ) :
    dispatchDepth env (n + 1) c.name args w = dispatchDepth env (n' + 1) c.name args w := by
  have hrun : c.handler.run (dispatchDepth env n) env args
      = c.handler.run (dispatchDepth env n') env args := by
    funext w
    rw [Call.run_eq hleaf, Call.run_eq hleaf]
  rw [dispatchDepth, dispatchDepth, dispatchWith, dispatchWith, findCommand_of_mem hc]
  dsimp only
  rw [hrun]

/-- The run of the script: it does what the command does, and returns its reply if there is one. -/
theorem runScript_forwarding (env : Env) (d : Dispatch) (db : ℕ) (name : Bytes) (args : List Bytes)
    (w : Whole) :
    (Cmd.runScript d env db (forwarding (name :: args)) w).2
        = (Cmd.withContext { dbIndex := db } (d (upper env name) args) w).2 ∧
      ∀ r, (Cmd.withContext { dbIndex := db } (d (upper env name) args) w).1 = .ok r →
        (Cmd.runScript d env db (forwarding (name :: args)) w).1 = .ok (throughLua r) := by
  have hcall : ∀ out, Cmd.withContext { dbIndex := db } (d (upper env name) args) w = out →
      (∀ r, out.1 = .ok r → Cmd.redisCall d env db ((name :: args).map .string) w
        = (.ok (.ok (Cmd.respToLua r)), out.2)) ∧
      ∀ e, out.1 = .error e → Cmd.redisCall d env db ((name :: args).map .string) w
        = (if e = .hang then .error .hang else .ok (.error .panic), out.2) := by
    rintro ⟨x, w'⟩ hout
    rw [Cmd.redisCall, callArgs_strings]
    dsimp only
    rw [hout]
    constructor
    · rintro r rfl
      rfl
    · rintro e rfl
      cases e <;> rfl
  obtain ⟨hok, herror⟩ := hcall _ rfl
  rw [forwarding, Cmd.runScript]
  cases hx : (Cmd.withContext { dbIndex := db } (d (upper env name) args) w).1 with
  | ok r =>
    rw [Proc.bind_ok (hok r hx)]
    refine ⟨rfl, fun r' hr' => ?_⟩
    rw [← Except.ok.inj hr']
    rfl
  | error e =>
    have hrun := herror e hx
    refine ⟨?_, fun r hr => by cases hr⟩
    split_ifs at hrun
    · rw [Proc.bind_error hrun]
    · rw [Proc.bind_ok hrun]
      rfl

/-- **The detour through a script.** A script that forwards a command with its arguments, which are
texts, does to the store what the command does for a client on the same database, and nothing to the
context of its own client, if `EVAL` is not denied for memory. Its reply is the one of the command
if and only if that is an integer that an `f64` can be or a bulk string, and it is not an error
whatever the command replies. -/
theorem eval_forwards (hc : c ∈ commands) (hleaf : c.handler.isLeaf = true) (script name : String)
    (args : List String) (hname : env.host.toUppercase name = c.name)
    (hlua : env.host.lua script [] (name :: args) = forwarding ((name :: args).map asBytes))
    (hnest : 0 < env.nesting) (hgate : w.store.tables.deniesMemory "EVAL" = false) :
    let direct := dispatch env c.name (args.map asBytes) ⟨w.store, { dbIndex := w.ctx.dbIndex }⟩
    let eval := dispatch env "EVAL" (asBytes script :: [48] :: (name :: args).map asBytes) w
    eval.2 = ⟨{ direct.2.store with
      tables := direct.2.store.tables.dropReceiver direct.2.ctx }, w.ctx⟩ ∧
    ∀ r, direct.1 = .ok r → ∃ r', eval.1 = .ok r' ∧ r'.isError = false ∧
      (r' = r ↔ (∃ n : Int64, r = .integer n ∧ F64.Exact n.toInt) ∨
        ∃ b, r = .bulkString (some b)) := by
  intro direct eval
  have heval : (⟨"EVAL", -3, .eval⟩ : CommandDef) ∈ commands := by
    simp [commands, Cmd.luaCommands]
  obtain ⟨n, hn⟩ := Nat.exists_eq_add_one_of_ne_zero hnest.ne'
  have hdirect : dispatchDepth env env.nesting c.name (args.map asBytes)
      ⟨w.store, { dbIndex := w.ctx.dbIndex }⟩ = direct := by
    rw [hn]
    exact dispatchDepth_of_leaf hc hleaf n env.nesting
  have hupper : upper env (asBytes name) = c.name := by
    rw [upper, fromUtf8Lossy_asBytes, hname]
  have hstop : min ((2 + (argUsize [48]).getD 0) % 2 ^ 64)
      (asBytes script :: [48] :: (name :: args).map asBytes).length = 2 := by
    rw [show (argUsize [48]).getD 0 = 0 by decide]
    simp
  have htexts : ((name :: args).map asBytes).map fromUtf8Lossy = name :: args := by
    rw [List.map_map]
    exact (List.map_congr_left fun a _ => fromUtf8Lossy_asBytes a).trans (List.map_id _)
  have hscript : Cmd.evalCmd (dispatchDepth env env.nesting) env
      (asBytes script :: [48] :: (name :: args).map asBytes) w
        = Cmd.runScript (dispatchDepth env env.nesting) env w.ctx.dbIndex
          (forwarding ((name :: args).map asBytes)) w := by
    rw [Cmd.evalCmd, Proc.get_bind]
    dsimp only
    rw [hstop, if_neg (lt_irrefl 2), fromUtf8Lossy_asBytes]
    rw [Nat.sub_self, List.take_zero, List.drop_zero, List.map_nil, htexts, hlua]
  obtain ⟨hsnd, hfst⟩ := runScript_forwarding env (dispatchDepth env env.nesting)
    w.ctx.dbIndex (asBytes name) (args.map asBytes) w
  have hcontext : Cmd.withContext { dbIndex := w.ctx.dbIndex } (dispatchDepth env env.nesting
      (upper env (asBytes name)) (args.map asBytes)) w
        = (direct.1, ⟨{ direct.2.store with
          tables := direct.2.store.tables.dropReceiver direct.2.ctx }, w.ctx⟩) := by
    rw [hupper, Cmd.withContext, hdirect]
  rw [hcontext] at hsnd hfst
  have heval : eval = catchError (Handler.eval.run (dispatchDepth env env.nesting) env
      (asBytes script :: [48] :: (name :: args).map asBytes)) w :=
    dispatch_eq heval env hgate rfl
  refine ⟨?_, fun r hr => ⟨throughLua r, ?_, isError_throughLua r, throughLua_eq_iff⟩⟩
  · rw [heval, catchError_snd, Handler.run, hscript]
    exact hsnd
  · rw [heval, catchError_fst, Handler.run, hscript, List.map_cons, hfst r hr]

end Detour

/-- A host on which every script forwards its arguments. -/
def Host.forwarding : Host := { Host.plain with
  lua := fun _ _ argv => VeloDB.forwarding (argv.map asBytes) }

/-- A store with a string under `a`. -/
def Store.withString : Store :=
  ⟨(Store.new 1).databases.put 0 [97] { value := .string [104, 105] }, {}⟩

/-- `redis.call("get", "a")`: the value comes back. -/
theorem eval_forwards_get :
    (dispatch (Moment.on ⟨0, 0, 0, 1⟩ Host.forwarding) "EVAL"
      [asBytes "s", [48], asBytes "get", asBytes "a"] ⟨Store.withString, {}⟩).1
        = .ok (.bulkString (some [104, 105])) := by
  have hget : (⟨"GET", 2, .read Cmd.get⟩ : CommandDef) ∈ commands := by
    simp [commands, Cmd.stringCommands]
  have hname : (Moment.on ⟨0, 0, 0, 1⟩ Host.forwarding).host.toUppercase "get" = "GET" := by
    decide +kernel
  obtain ⟨r', hr', -, hiff⟩ := (eval_forwards (w := ⟨Store.withString, {}⟩) hget rfl "s" "get" ["a"]
    hname rfl (by decide) (by decide)).2 (.bulkString (some [104, 105])) rfl
  rw [← hiff.mpr (Or.inr ⟨_, rfl⟩)]
  exact hr'

end VeloDB
