import VeloDB.Lib.Run
import VeloDB.Persist.Aof

/-!
# Connections

`connection::handle` reads from its socket into a buffer, takes commands from the buffer one after
the other and serves them. `serve` is one command of the normal loop; `Net.step` is the loop as a
state machine, whose events are a read from the socket, the next turn of the inner loop, and the end
of a blocking wait. A connection in subscribe mode has an inner loop of its own, which only
dispatches.

What a connection writes is kept as the list of its writes, and the commands it has taken from its
buffer are kept beside it.
-/

namespace VeloDB

open Rust Nom

/-- `MAX_QUERY_BUFFER`. -/
def maxQueryBuffer : ℕ := 1024 * 1024 * 1024

/-- What every connection of a listener is given: the password, and whether there is an
append-only file to write to and a backlog to push to. -/
structure Listener where
  requirepass : Option String := none
  aofWriter : Bool
  replBacklog : Bool

/-- The listener of the shards. -/
def Listener.plain (requirepass : Option String) (appendonly : Bool) : Listener :=
  ⟨requirepass, appendonly, true⟩

/-- The TLS listener, which `run` starts without an append-only file. -/
def Listener.tls (requirepass : Option String) : Listener := ⟨requirepass, false, true⟩

/-! ### Authentication -/

/-- `eq_ignore_ascii_case`. -/
def eqIgnoreAsciiCase (a b : Bytes) : Bool :=
  let lower := fun (x : UInt8) => if 65 ≤ x ∧ x ≤ 90 then x + 32 else x
  a.map lower = b.map lower

/-- `is_auth_exempt`. -/
def isAuthExempt (name : String) : Bool := name ∈ ["AUTH", "HELLO", "PING", "QUIT", "RESET"]

/-- The check of a password. -/
def checkPassword (L : Listener) (password : Bytes) (c : ClientContext) :
    RespValue × ClientContext :=
  match L.requirepass with
  | none => (.error ("ERR Client sent AUTH, but no password is set. Did you mean AUTH " ++
      "<username> <password>?"), c)
  | some expected =>
    if asBytes expected = password then (.ok, { c with authenticated := true })
    else (.error "WRONGPASS invalid username-password pair or user is disabled.", c)

/-- `handle_auth`. -/
def handleAuth (L : Listener) (args : List Bytes) (c : ClientContext) : RespValue × ClientContext :=
  match args with
  | [password] => checkPassword L password c
  | [user, password] =>
    if eqIgnoreAsciiCase user (asBytes "default") then checkPassword L password c
    else (.error "ERR wrong number of arguments for 'auth' command", c)
  | _ => (.error "ERR wrong number of arguments for 'auth' command", c)

/-- The loop of `handle_hello` over its options, with the error it returns early. -/
def helloOptions (L : Listener) (env : Env) :
    List Bytes → ClientContext → Option RespValue × ClientContext
  | [], c => (none, c)
  | [_], c => (some (.error "ERR syntax error in HELLO"), c)
  | [opt, _], c =>
    if upper env opt = "SETNAME" then (none, c)
    else (some (.error "ERR syntax error in HELLO"), c)
  | opt :: a :: b :: rest, c =>
    if upper env opt = "AUTH" then
      let r := handleAuth L [a, b] c
      if r.1.isError then (some r.1, r.2) else helloOptions L env rest r.2
    else if upper env opt = "SETNAME" then helloOptions L env (b :: rest) c
    else (some (.error "ERR syntax error in HELLO"), c)

/-- The end of `handle_hello`. -/
def helloReply (c : ClientContext) : RespValue :=
  let bulk := fun s => RespValue.bulk (asBytes s)
  if !c.authenticated then
    .error ("NOAUTH HELLO must be called with the client already authenticated, otherwise the " ++
      "HELLO <proto> AUTH <user> <pass> option can be used to authenticate the client and select " ++
      "the RESP protocol version at the same time")
  else .map [(bulk "server", bulk "velodb"), (bulk "version", bulk "0.1.0"),
    (bulk "proto", .count c.protocol), (bulk "id", .integer 0), (bulk "mode", bulk "standalone"),
    (bulk "role", bulk "master"), (bulk "modules", .array (some []))]

/-- `handle_hello`. The protocol is switched before the options are looked at. -/
def handleHello (L : Listener) (env : Env) (args : List Bytes) (c : ClientContext) :
    RespValue × ClientContext :=
  match args with
  | [] => (helloReply c, c)
  | version :: options =>
    match parseUnsigned 255 (fromUtf8Lossy version) with
    | none => (.error "NOPROTO unsupported protocol version", c)
    | some v =>
      if v = 2 ∨ v = 3 then
        let r := helloOptions L env options { c with protocol := v }
        (r.1.getD (helloReply r.2), r.2)
      else (.error "NOPROTO unsupported protocol version", c)

/-! ### One command -/

/-- `is_write_command`. -/
def isWriteCommand (name : String) : Bool :=
  name ∈ ["SET", "SETRANGE", "MSET", "INCR", "INCRBY", "DECR", "DECRBY", "APPEND", "GETSET",
    "LPUSH", "RPUSH", "LPOP", "RPOP", "LSET", "LTRIM", "LREM", "SADD", "SREM", "SPOP", "HSET",
    "HDEL", "HINCRBY", "ZADD", "ZREM", "XADD", "XDEL", "XTRIM", "NHSET", "NHDEL", "DEL", "RENAME",
    "RENAMENX", "EXPIRE", "EXPIREAT", "PEXPIRE", "PEXPIREAT", "PERSIST", "FLUSHDB", "FLUSHALL",
    "SELECT"]

/-- The commands that are not queued inside a transaction. -/
def isTransactionCommand (name : String) : Bool :=
  name ∈ ["EXEC", "DISCARD", "WATCH", "UNWATCH", "MULTI"]

/-- How the loop goes on after a command. -/
inductive Outcome
  | next
  /-- Wait for one of the keys; the reply comes afterwards. -/
  | wait (b : BlockState)
  /-- The connection is handed over to `handle_psync`. -/
  | psync (args : List Bytes)

/-- What serving a command sends where. -/
structure Served where
  /-- To the socket. -/
  reply : Option Bytes := none
  /-- To the append-only file. -/
  logged : Bytes := []
  /-- To the backlog. -/
  pushed : Bytes := []
  /-- A rewrite of the append-only file has been started. -/
  rewrites : Bool := false
  outcome : Outcome := .next

/-- A step that changes only the context. -/
def onCtx {α : Type} (f : ClientContext → α × ClientContext) : WholeM α := fun w =>
  (.ok (f w.ctx).1, { w with ctx := (f w.ctx).2 })

/-- Answer under the protocol that the client has by now. -/
def answer (env : Env) (s : Served) (v : RespValue) : WholeM Served := fun w =>
  (.ok { s with reply := some (serializeResponseProto env.host v w.ctx.protocol) }, w)

/-- Run a command: `BGREWRITEAOF` here, everything else from the table. -/
def execute (L : Listener) (env : Env) (cmd : String) (args : List Bytes) : WholeM RespValue :=
  if cmd = "BGREWRITEAOF" then
    pure (if L.aofWriter then .simpleString "Background append only file rewriting started"
      else .error "ERR AOF is not enabled")
  else dispatch env cmd args

/-- What a command that has been executed sends to the log and the backlog. -/
def logEntry (L : Listener) (env : Env) (name : Bytes) (args : List Bytes) : Served :=
  let write := isWriteCommand (upper env name)
  let entry := encodeCommandForAof (name :: args)
  { logged := if L.aofWriter && write then entry else []
    pushed := if L.replBacklog && write then entry else []
    rewrites := L.aofWriter && upper env name = "BGREWRITEAOF" }

/-- The end of the loop body: execute, log, and answer or wait. -/
def serveDirect (L : Listener) (env : Env) (name : Bytes) (args : List Bytes) : WholeM Served := do
  let response ← execute L env (upper env name) args
  let w ← Proc.get
  match w.ctx.subMode, w.ctx.blockState with
  | false, some b =>
    Proc.modify fun w => { w with ctx := { w.ctx with blockState := none } }
    pure { logEntry L env name args with outcome := .wait b }
  | _, _ => answer env (logEntry L env name args) response

section ServeDirect

variable {L : Listener} {env : Env} {name : Bytes} {args : List Bytes} {w w' : Whole}

/-- What the end of the loop body answers when there is nothing to wait for. -/
theorem serveDirect_answers {r : RespValue}
    (hexecute : execute L env (upper env name) args w = (.ok r, w'))
    (hblock : w'.ctx.subMode = false → w'.ctx.blockState = none) :
    serveDirect L env name args w = (.ok { logEntry L env name args with
      reply := some (serializeResponseProto env.host r w'.ctx.protocol) }, w') := by
  rw [serveDirect, Proc.bind_ok hexecute, Proc.get_bind]
  cases hsub : w'.ctx.subMode with
  | true => cases w'.ctx.blockState <;> rfl
  | false =>
    rw [hblock hsub]
    rfl

/-- The end of the loop body answers, or there is something to wait for. -/
theorem serveDirect_cases {r : RespValue}
    (hexecute : execute L env (upper env name) args w = (.ok r, w')) :
    ((w'.ctx.subMode = false → w'.ctx.blockState = none) ∧
      serveDirect L env name args w = (.ok { logEntry L env name args with
        reply := some (serializeResponseProto env.host r w'.ctx.protocol) }, w')) ∨
    ∃ b, serveDirect L env name args w = (.ok { logEntry L env name args with outcome := .wait b },
      { w' with ctx := { w'.ctx with blockState := none } }) := by
  cases hsub : w'.ctx.subMode with
  | true =>
    have hblock : w'.ctx.subMode = false → w'.ctx.blockState = none := fun h => by
      rw [hsub] at h
      cases h
    exact Or.inl ⟨fun h => (Bool.noConfusion h), serveDirect_answers hexecute hblock⟩
  | false =>
    cases hblock : w'.ctx.blockState with
    | none => exact Or.inl ⟨fun _ => rfl, serveDirect_answers hexecute fun _ => hblock⟩
    | some b =>
      refine Or.inr ⟨b, ?_⟩
      rw [serveDirect, Proc.bind_ok hexecute, Proc.get_bind, hsub, hblock]
      rfl

/-- **What the end of the loop body has done** when it returns. -/
theorem serveDirect_ok {s : Served} (h : serveDirect L env name args w = (.ok s, w')) :
    s.logged = (logEntry L env name args).logged ∧ s.pushed = (logEntry L env name args).pushed ∧
      ∀ a, s.outcome ≠ .psync a := by
  rcases hexecute : execute L env (upper env name) args w with ⟨e | r, w₁⟩
  · rw [serveDirect, Proc.bind_error hexecute] at h
    cases h
  · rcases serveDirect_cases hexecute with ⟨-, hdirect⟩ | ⟨b, hdirect⟩
    · obtain rfl := Except.ok.inj (Prod.mk.inj (hdirect.symm.trans h)).1
      exact ⟨rfl, rfl, fun a ha => by cases ha⟩
    · obtain rfl := Except.ok.inj (Prod.mk.inj (hdirect.symm.trans h)).1
      exact ⟨rfl, rfl, fun a ha => by cases ha⟩

/-- The end of the loop body adds to an execution at most that a block is taken note of. -/
theorem serveDirect_snd (L : Listener) (env : Env) (name : Bytes) (args : List Bytes) (w : Whole) :
    ∃ b, (serveDirect L env name args w).2
      = { (execute L env (upper env name) args w).2 with
          ctx := { (execute L env (upper env name) args w).2.ctx with blockState := b } } := by
  rcases hexecute : execute L env (upper env name) args w with ⟨e | r, w₁⟩
  · refine ⟨w₁.ctx.blockState, ?_⟩
    rw [serveDirect, Proc.bind_error hexecute]
  · rcases serveDirect_cases hexecute with ⟨-, hdirect⟩ | ⟨b, hdirect⟩
    · exact ⟨w₁.ctx.blockState, congrArg Prod.snd hdirect⟩
    · exact ⟨none, congrArg Prod.snd hdirect⟩

end ServeDirect

/-- One command of the normal loop, from the first interception to the reply. -/
def serve (L : Listener) (env : Env) (name : Bytes) (args : List Bytes) : WholeM Served := fun w =>
  if upper env name = "PSYNC" then (.ok { outcome := .psync args }, w)
  else if upper env name = "AUTH" then (onCtx (handleAuth L args) >>= answer env {}) w
  else if upper env name = "HELLO" then (onCtx (handleHello L env args) >>= answer env {}) w
  else if !w.ctx.authenticated && !isAuthExempt (upper env name) then
    answer env {} (.error "NOAUTH Authentication required.") w
  else if w.ctx.multiMode && !isTransactionCommand (upper env name) then
    answer env {} (.simpleString "QUEUED")
      { w with ctx := { w.ctx with multiQueue := w.ctx.multiQueue ++ [name :: args] } }
  else serveDirect L env name args w

/-- One command of the loop in subscribe mode. -/
def serveSub (env : Env) (name : Bytes) (args : List Bytes) : WholeM Served := do
  let response ← dispatch env (upper env name) args
  answer env {} response

/-! ### The loop -/

/-- What a connection is doing. -/
inductive Status
  /-- Waiting for the socket. -/
  | reading
  /-- In one of the two inner loops. -/
  | running (sub : Bool)
  /-- Waiting for a key to be pushed to, under an id of the block registry. -/
  | waiting (b : BlockState) (id : ℕ)
  /-- In `handle_psync`. -/
  | replica (args : List Bytes)
  | closed
  /-- In a command that does not return. -/
  | stuck

structure Conn where
  ctx : ClientContext
  buf : Bytes := []
  status : Status := .reading
  /-- The writes to the socket. -/
  out : List Bytes := []
  /-- The commands taken from the buffer. -/
  served : List (List Bytes) := []

/-- What the connections share: the store, what they have appended to the append-only file, and
what they have pushed to the backlog. -/
structure Shared where
  store : Store
  aof : Bytes := []
  pushed : Bytes := []

/-- A connection with what it shares. -/
structure Net where
  shared : Shared
  conn : Conn

/-- A connection just accepted. -/
def Conn.accept (L : Listener) : Conn := { ctx := { authenticated := L.requirepass.isNone } }

/-- `BlockRegistry::register`, with the id as the notification handle. -/
def Tables.register (t : Tables) (keys : List Bytes) : ℕ × Tables :=
  let id := t.blockRegistry.nextId
  (id, { t with blockRegistry := {
    waiters := keys.foldl (fun w k => w.insert k ((w.lookup k).getD [] ++ [(id, id)]))
      t.blockRegistry.waiters
    nextId := id + 1 } })

/-- `BlockRegistry::unregister`. -/
def Tables.unregister (t : Tables) (id : ℕ) (keys : List Bytes) : Tables :=
  { t with blockRegistry := { t.blockRegistry with
    waiters := keys.foldl (fun w k => match w.lookup k with
      | some l => w.insert k (l.filter fun p => p.1 ≠ id)
      | none => w) t.blockRegistry.waiters } }

/-- `unblock_pop`: the first key that has something to pop. Errors are passed over. -/
def unblockPop (pop : Bytes → KeyM (Option Bytes)) : List Bytes → KeyM RespValue
  | [] => pure (.array (some []))
  | key :: keys => fun ks =>
    match pop key ks with
    | (.ok (some val), ks') => (.ok (bulks [key, val]), ks')
    | (_, ks') => unblockPop pop keys ks'

namespace Net

/-- The connection as a command sees it. -/
def whole (n : Net) : Whole := ⟨n.shared.store, n.conn.ctx⟩

/-- Put back what a command has changed. -/
def withWhole (n : Net) (w : Whole) : Net where
  shared := { n.shared with store := w.store }
  conn := { n.conn with ctx := w.ctx }

/-- Go on in another status. -/
def goto (n : Net) (status : Status) : Net := { n with conn := { n.conn with status } }

/-- The connection ends, and its context with it. -/
def close (n : Net) : Net where
  shared := { n.shared with
    store := { n.shared.store with tables := n.shared.store.tables.dropReceiver n.conn.ctx } }
  conn := { n.conn with status := .closed }

/-- Write to the socket. -/
def write (n : Net) (b : Bytes) : Net := { n with conn := { n.conn with out := n.conn.out ++ [b] } }

/-- What a served command has sent. -/
def sent (n : Net) (s : Served) : Net where
  shared := { n.shared with
    aof := n.shared.aof ++ s.logged
    pushed := n.shared.pushed ++ s.pushed }
  conn := { n.conn with out := n.conn.out ++ s.reply.toList }

/-- Take a command from the buffer. -/
def taken (n : Net) (cmd : List Bytes) (remaining : Bytes) : Net :=
  { n with conn := { n.conn with buf := remaining, served := n.conn.served ++ [cmd] } }

/-- A read of some bytes; no bytes means the end of the stream. Only the normal loop looks at the
size of the buffer. -/
def receive (n : Net) (chunk : Bytes) : Net :=
  let buf := n.conn.buf ++ chunk
  let n' := { n with conn := { n.conn with buf } }
  if chunk = [] then n.close
  else if !n.conn.ctx.subMode && maxQueryBuffer < buf.length then n'.close
  else n'.goto (.running n.conn.ctx.subMode)

/-- Start to wait for keys. -/
def startWait (n : Net) (b : BlockState) : Net :=
  let r := n.shared.store.tables.register b.keys
  { n with shared := { n.shared with store := { n.shared.store with tables := r.2 } } }.goto
    (.waiting b r.1)

/-- Where a served command leads. -/
def follow (n : Net) : Outcome → Net
  | .next => n.goto (.running false)
  | .wait b => n.startWait b
  | .psync args => n.goto (.replica args)

/-- A command that failed takes its connection with it. -/
def crash (n : Net) : Failure → Net
  | .hang => n.goto .stuck
  | _ => n.close

/-- `ERR protocol error`, under the protocol of the client. -/
def protocolError (H : Host) (n : Net) : Bytes :=
  serializeResponseProto H (.error "ERR protocol error") n.conn.ctx.protocol

/-- A turn of the inner loop in normal mode. -/
def normalTurn (L : Listener) (env : Env) (n : Net) : Net :=
  if n.conn.buf = [] then n.goto .reading
  else match parseCommand n.conn.buf with
    | .ok (_, []) => n.goto .reading
    | .ok (remaining, name :: args) =>
      match serve L env name args n.whole with
      | (.ok s, w) => (((n.withWhole w).taken (name :: args) remaining).sent s).follow s.outcome
      | (.error f, w) => ((n.withWhole w).taken (name :: args) remaining).crash f
    | .error .incomplete => n.goto .reading
    | .error _ => (n.write (n.protocolError env.host)).close

/-- A turn of the inner loop in subscribe mode. -/
def subTurn (env : Env) (n : Net) : Net :=
  if n.conn.buf = [] then n.goto .reading
  else match parseCommand n.conn.buf with
    | .ok (_, []) => n.goto .reading
    | .ok (remaining, name :: args) =>
      match serveSub env name args n.whole with
      | (.ok s, w) => (((n.withWhole w).taken (name :: args) remaining).sent s).goto
          (if w.ctx.subMode then .running true else .reading)
      | (.error f, w) => ((n.withWhole w).taken (name :: args) remaining).crash f
    | .error .incomplete => n.goto .reading
    -- what cannot be parsed is thrown away, and the loop finds an empty buffer
    | .error _ => { n with conn := { n.conn with buf := [] } }.goto .reading

/-- The end of a wait, by a notification or by the timeout. -/
def resumeWait (env : Env) (n : Net) (b : BlockState) (id : ℕ) (triggered : Bool) : Net :=
  let store := { n.shared.store with tables := n.shared.store.tables.unregister id b.keys }
  let pop := fun key => match b.popDirection with
    | .left => Keyspace.lpopOne env.now n.conn.ctx.dbIndex key
    | .right => Keyspace.rpopOne env.now n.conn.ctx.dbIndex key
  let r := if triggered then unblockPop pop b.keys { databases := store.databases }
    else (.ok (.array (some [])), { databases := store.databases })
  let n' : Net := { n with shared := { n.shared with
    store := { store with databases := r.2.databases } } }
  match r.1 with
  | .ok response =>
    (n'.write (serializeResponseProto env.host response n.conn.ctx.protocol)).goto (.running false)
  | .error f => n'.crash f

end Net

/-- What happens to a connection. -/
inductive ConnEvent
  | read (chunk : Bytes)
  | turn (m : Moment)
  | resume (m : Moment) (triggered : Bool)

/-- `handle`, one event at a time. -/
def Net.step (L : Listener) (H : Host) (n : Net) : ConnEvent → Option Net
  | .read chunk =>
    match n.conn.status with
    | .reading => some (n.receive chunk)
    | _ => none
  | .turn m =>
    match n.conn.status with
    | .running false => some (n.normalTurn L (m.on H))
    | .running true => some (n.subTurn (m.on H))
    | _ => none
  | .resume m triggered =>
    match n.conn.status with
    | .waiting b id =>
      if triggered && id ∉ n.shared.store.tables.woken then none
      else some (n.resumeWait (m.on H) b id triggered)
    | _ => none

end VeloDB
