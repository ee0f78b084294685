import VeloDB.Net.SharedLog

/-!
# The order of the log

A connection executes a command, appends it to the file and pushes it to the stream, each under a
lock of its own. Connections of different shards run in parallel, so that what another one does can
come in between, and the commands that have been executed are not sent in the order of their
execution unless the connections happen to come that way.

`Race` is the server of `SharedLog` with these three steps apart.

## Main results

* `Race.command_eq` — the three steps in a row are one command of the server
* `log_follows_execution` — a log that takes the commands in the order of their execution replays to
  the live databases
-/

namespace VeloDB

open Rust

/-! ### Three steps -/

/-- What all connections share, the contexts of the connections, and what they have executed but not
yet sent, the oldest command first. -/
structure Race where
  store : Store
  ctx : ℕ → ClientContext
  aof : Bytes := []
  stream : Bytes := []
  toAppend : List (ℕ × Bytes) := []
  toPush : List (ℕ × Bytes) := []

namespace Race

/-- A connection takes a command up to its execution. -/
def execute (L : Listener) (env : Env) (s : Race) (j : ℕ) (name : Bytes) (args : List Bytes) :
    Race :=
  let r := serve L env name args { store := s.store, ctx := s.ctx j }
  let ctx := Function.update s.ctx j r.2.ctx
  match r.1 with
  | .error _ => { s with store := r.2.store, ctx }
  | .ok served => { s with
      store := r.2.store
      ctx
      toAppend := s.toAppend ++ [(j, served.logged)]
      toPush := s.toPush ++ [(j, served.pushed)] }

/-- What a connection has still to send. -/
def pending (j : ℕ) (l : List (ℕ × Bytes)) : Bytes := (l.lookup j).getD []

/-- The connection has sent it. -/
def drop (j : ℕ) (l : List (ℕ × Bytes)) : List (ℕ × Bytes) := l.eraseP fun p => p.1 == j

/-- `AofWriter::append`, by a connection. -/
def append (s : Race) (j : ℕ) : Race :=
  { s with aof := s.aof ++ pending j s.toAppend, toAppend := drop j s.toAppend }

/-- `ReplicationBacklog::push`, by a connection. -/
def push (s : Race) (j : ℕ) : Race :=
  { s with stream := s.stream ++ pending j s.toPush, toPush := drop j s.toPush }

/-- **Nothing in between**: one command of the server. -/
theorem command_eq {L : Listener} {env : Env} {s : Server} {j : ℕ} {name : Bytes}
    {args : List Bytes} {served : Served} {w : Whole}
    (h : serve L env name args { store := s.store, ctx := s.ctx j } = (.ok served, w)) :
    let r := ((execute L env ⟨s.store, s.ctx, s.aof, s.stream, [], []⟩ j name args).append j).push j
    let s' := s.command L env j name args
    r = ⟨s'.store, s'.ctx, s'.aof, s'.stream, [], []⟩ := by
  simp [execute, append, push, pending, drop, Server.command, h]

/-- The states of a server on which connections execute commands with the property `P`, all of them
in database 0 and logged, and append and push them in an order of their own. In a `tidy` run no
command is refused for lack of memory, and each log gets the commands in the order of their
execution. Whatever else the connections do changes no database. -/
inductive Reached (H : Host) (n : ℕ) (P : List Bytes → Prop) (tidy : Prop) : Race → Prop
  | start (tables : Tables) (ctx : ℕ → ClientContext) :
    Reached H n P tidy { store := ⟨(Store.new n).databases, tables⟩, ctx }
  | other {s : Race} (h : Reached H n P tidy s) (tables : Tables) (ctx : ℕ → ClientContext) :
    Reached H n P tidy { s with store := { s.store with tables }, ctx }
  | execute {s : Race} (h : Reached H n P tidy s) {L : Listener} (haof : L.aofWriter = true)
    (hbacklog : L.replBacklog = true) (m : Moment) {j : ℕ} (hidle : j ∉ s.toPush.map Prod.fst)
    (hauth : (s.ctx j).authenticated = true) (hmulti : (s.ctx j).multiMode = false)
    (hzero : (s.ctx j).dbIndex = 0) {name : Bytes} {args : List Bytes} (hP : P (name :: args))
    (hlogged : Logged H (name :: args)) (hstays : selectedAfter H [name :: args] 0 = 0)
    (hreturns : (serve L (m.on H) name args ⟨s.store, s.ctx j⟩).1.isOk = true)
    (hmemory : tidy → s.store.tables.deniesMemory (H.toUppercase (fromUtf8Lossy name)) = false) :
    Reached H n P tidy (s.execute L (m.on H) j name args)
  | append {s : Race} (h : Reached H n P tidy s) {j : ℕ} (hhas : j ∈ s.toAppend.map Prod.fst)
    (horder : tidy → (s.toAppend.map Prod.fst).head? = some j) : Reached H n P tidy (s.append j)
  | push {s : Race} (h : Reached H n P tidy s) {j : ℕ} (hhas : j ∈ s.toPush.map Prod.fst)
    (hafter : j ∉ s.toAppend.map Prod.fst)
    (horder : tidy → (s.toPush.map Prod.fst).head? = some j) : Reached H n P tidy (s.push j)

/-- Every connection has sent what it has executed. -/
def Done (s : Race) : Prop := s.toAppend = [] ∧ s.toPush = []

end Race

/-- Commands one after the other on an empty store. -/
def runFresh (H : Host) (n : ℕ) (clock : ℕ → Moment) (cmds : List (List Bytes)) :
    Except Failure ℕ × Whole :=
  runCommands H clock 0 cmds { store := Store.new n, ctx := {} }

/-- What commands with the property `P` do to an empty store depends neither on the time nor on
random numbers. -/
def Deterministic (H : Host) (n : ℕ) (P : List Bytes → Prop) : Prop :=
  ∀ cmds, (∀ c ∈ cmds, P c) → ∀ clock clock',
    (runFresh H n clock cmds).1 = (runFresh H n clock' cmds).1 ∧
    (runFresh H n clock cmds).2.store.databases = (runFresh H n clock' cmds).2.store.databases

/-- Replaying a log on an empty store ends with these databases, whenever it is done. -/
def ReplaysTo (H : Host) (n : ℕ) (data : Bytes) (dbs : Databases) : Prop :=
  ∀ clock, (replayAof H clock data { store := Store.new n, ctx := {} }).2.store.databases = dbs

/-! ### Executing a logged command -/

/-- A connection that is neither locked out nor in a transaction takes a logged command to the end
of the loop body, where the table runs it. -/
theorem serve_write_eq (L : Listener) {env : Env} {name : Bytes} (args : List Bytes) {w : Whole}
    (hw : isWriteCommand (upper env name) = true) (hauth : w.ctx.authenticated = true)
    (hmulti : w.ctx.multiMode = false) :
    serve L env name args w = serveDirect L env name args w ∧
      execute L env (upper env name) args = dispatch env (upper env name) args := by
  have hother : ∀ x ∈ ["PSYNC", "AUTH", "HELLO", "BGREWRITEAOF"], upper env name ≠ x := by
    rintro x hx rfl
    revert hx hw
    simp only [List.mem_cons, List.not_mem_nil, or_false]
    rintro hw (h | h | h | h) <;> rw [h] at hw <;> exact absurd hw (by decide)
  constructor
  · rw [serve, if_neg (hother _ (by simp)), if_neg (hother _ (by simp)),
      if_neg (hother _ (by simp)), if_neg (by simp [hauth]), if_neg (by simp [hmulti])]
  · rw [execute, if_neg (hother _ (by simp))]

/-- A connection that is neither locked out nor in a transaction runs a logged command. -/
theorem serve_write (L : Listener) {env : Env} {name : Bytes} (args : List Bytes) {w : Whole}
    (hw : isWriteCommand (upper env name) = true) (hauth : w.ctx.authenticated = true)
    (hmulti : w.ctx.multiMode = false) :
    (serve L env name args w).1.isOk = (dispatch env (upper env name) args w).1.isOk ∧
    (serve L env name args w).2.store = (dispatch env (upper env name) args w).2.store ∧
    ∀ served, (serve L env name args w).1 = .ok served →
      served.logged = (if L.aofWriter then encodeCommandForAof (name :: args) else []) ∧
      served.pushed = (if L.replBacklog then encodeCommandForAof (name :: args) else []) := by
  obtain ⟨hserve, hexecute⟩ := serve_write_eq L args hw hauth hmulti
  have hentry : (logEntry L env name args).logged
        = (if L.aofWriter then encodeCommandForAof (name :: args) else []) ∧
      (logEntry L env name args).pushed
        = (if L.replBacklog then encodeCommandForAof (name :: args) else []) := by
    simp [logEntry, hw]
  have hrun : execute L env (upper env name) args w = dispatch env (upper env name) args w :=
    congrFun hexecute w
  rw [hserve, ← hrun]
  refine ⟨?_, ?_, fun served h => ?_⟩
  · rcases h : execute L env (upper env name) args w with ⟨e | r, w₁⟩
    · rw [serveDirect, Proc.bind_error h]
      rfl
    · rcases serveDirect_cases h with ⟨-, hdirect⟩ | ⟨b, hdirect⟩ <;> rw [hdirect] <;> rfl
  · obtain ⟨b, hsnd⟩ := serveDirect_snd L env name args w
    rw [hsnd]
  · obtain ⟨hlogged, hpushed, -⟩ := serveDirect_ok (Prod.ext h rfl)
    exact ⟨hlogged.trans hentry.1, hpushed.trans hentry.2⟩

/-! ### The invariant -/

variable {H : Host} {n : ℕ} {P : List Bytes → Prop}

/-- The commands have been executed at these moments: they make up the live databases, and the logs
with what is still on its way to them. -/
structure Race.Keeps (H : Host) (n : ℕ) (P : List Bytes → Prop) (s : Race) (clock : ℕ → Moment)
    (cmds : List (List Bytes)) : Prop where
  commands : ∀ c ∈ cmds, P c ∧ Logged H c ∧ selectedAfter H [c] 0 = 0
  returns : Returns H clock 0 cmds { store := Store.new n, ctx := {} }
  databases : (runFresh H n clock cmds).2.store.databases = s.store.databases
  aof : s.aof ++ s.toAppend.flatMap Prod.snd = encodeCommands cmds
  stream : s.stream ++ s.toPush.flatMap Prod.snd = encodeCommands cmds

theorem selectedAfter_zero {cmds : List (List Bytes)}
    (h : ∀ c ∈ cmds, selectedAfter H [c] 0 = 0) : selectedAfter H cmds 0 = 0 := by
  induction cmds with
  | nil => rfl
  | cons c cmds ih =>
    rw [← List.singleton_append, selectedAfter_append, h c List.mem_cons_self]
    exact ih fun c hc => h c (List.mem_cons_of_mem _ hc)

/-- The fresh store stays in database 0 and has memory left. -/
theorem fresh_of_logged {clock : ℕ → Moment} {cmds : List (List Bytes)}
    (hcmds : ∀ c ∈ cmds, Logged H c ∧ selectedAfter H [c] 0 = 0)
    (h : Returns H clock 0 cmds { store := Store.new n, ctx := {} }) :
    (runFresh H n clock cmds).2.ctx.dbIndex = 0 ∧
      (runFresh H n clock cmds).2.store.tables.overMemoryLimit = false := by
  have hlogged : ∀ c ∈ cmds, Logged H c := fun c hc => (hcmds c hc).1
  have halike : Alike { store := Store.new n, ctx := {} } { store := Store.new n, ctx := {} } :=
    ⟨rfl, rfl, rfl, rfl⟩
  refine ⟨?_, (alike_runCommands hlogged 0 halike).2.memory⟩
  rw [runFresh, ctx_runCommands hlogged h]
  exact selectedAfter_zero fun c hc => (hcmds c hc).2

/-- One more command on the fresh store. -/
theorem runFresh_concat {clock : ℕ → Moment} {cmds : List (List Bytes)}
    (h : Returns H clock 0 cmds { store := Store.new n, ctx := {} }) (m : Moment) (name : Bytes)
    (args : List Bytes) :
    ∃ clock', runFresh H n clock' (cmds ++ [name :: args])
      = (dispatch (m.on H) (upper (m.on H) name) args >>= fun _ =>
          pure (0 + (cmds ++ [name :: args]).length)) (runFresh H n clock cmds).2 := by
  let clock' := Function.update clock cmds.length m
  have hclock : ∀ j < cmds.length, clock (0 + j) = clock' (0 + j) := by
    intro j hj
    rw [Nat.zero_add]
    exact (Function.update_of_ne hj.ne m clock).symm
  obtain ⟨hstate, hreturns⟩ := runCommands_clock hclock { store := Store.new n, ctx := {} }
  have hrun := (hreturns.mp h).run
  rw [← hstate] at hrun
  have hm : clock' (0 + cmds.length) = m := by
    rw [Nat.zero_add]
    exact Function.update_self ..
  have hlen : 0 + (cmds ++ [name :: args]).length = 0 + cmds.length + 1 := by
    rw [List.length_append, ← Nat.add_assoc]
    rfl
  refine ⟨clock', ?_⟩
  rw [runFresh, runCommands_append hrun, runCommands, hm, hlen]
  rfl

/-- **One more logged command** does on the fresh store what it does on one with the same
databases. -/
theorem runFresh_dispatch {clock : ℕ → Moment} {cmds : List (List Bytes)}
    (hcmds : ∀ c ∈ cmds, Logged H c ∧ selectedAfter H [c] 0 = 0)
    (h : Returns H clock 0 cmds { store := Store.new n, ctx := {} }) {w : Whole}
    (hdbs : (runFresh H n clock cmds).2.store.databases = w.store.databases)
    (hzero : w.ctx.dbIndex = 0) (m : Moment) {name : Bytes} (args : List Bytes)
    (hwrite : isWriteCommand (upper (m.on H) name) = true)
    (hmemory : w.store.tables.deniesMemory (upper (m.on H) name) = false) :
    ∃ clock',
      (∀ r w', dispatch (m.on H) (upper (m.on H) name) args w = (.ok r, w') →
        Returns H clock' 0 (cmds ++ [name :: args]) { store := Store.new n, ctx := {} } ∧
        (runFresh H n clock' (cmds ++ [name :: args])).2.store.databases = w'.store.databases) ∧
      ∀ e w', dispatch (m.on H) (upper (m.on H) name) args w = (.error e, w') →
        ¬Returns H clock' 0 (cmds ++ [name :: args]) { store := Store.new n, ctx := {} } := by
  obtain ⟨hindex, hmem⟩ := fresh_of_logged hcmds h
  obtain ⟨hres, hafter⟩ := dispatch_congr hwrite (m.on H) args hdbs (hindex.trans hzero.symm)
    (deniesMemory_of_le hmem _) hmemory
  obtain ⟨clock', hrun⟩ := runFresh_concat h m name args
  rcases hfresh : dispatch (m.on H) (upper (m.on H) name) args (runFresh H n clock cmds).2 with
    ⟨res, w₁⟩
  rw [hfresh] at hres hafter
  refine ⟨clock', fun r w' hd => ?_, fun e w' hd hreturns => ?_⟩
  · rw [hd] at hres hafter
    obtain rfl : res = .ok r := hres
    have hnew := hrun.trans (Proc.bind_ok hfresh)
    refine ⟨congrArg Prod.fst hnew, ?_⟩
    rw [hnew]
    exact hafter
  · rw [hd] at hres
    obtain rfl : res = .error e := hres
    have hnew := hrun.trans (Proc.bind_error hfresh)
    cases hreturns.symm.trans (congrArg Prod.fst hnew)

/-- A connection executes a command. -/
theorem Race.Keeps.execute {s : Race} {clock : ℕ → Moment} {cmds : List (List Bytes)}
    (h : s.Keeps H n P clock cmds) {L : Listener} (haof : L.aofWriter = true)
    (hbacklog : L.replBacklog = true) {m : Moment} {j : ℕ}
    (hauth : (s.ctx j).authenticated = true) (hmulti : (s.ctx j).multiMode = false)
    (hzero : (s.ctx j).dbIndex = 0) {name : Bytes} {args : List Bytes} (hP : P (name :: args))
    (hlogged : Logged H (name :: args)) (hstays : selectedAfter H [name :: args] 0 = 0)
    (hreturns : (serve L (m.on H) name args ⟨s.store, s.ctx j⟩).1.isOk = true)
    (hmemory : s.store.tables.deniesMemory (H.toUppercase (fromUtf8Lossy name)) = false) :
    ∃ clock', (s.execute L (m.on H) j name args).Keeps H n P clock' (cmds ++ [name :: args]) := by
  have hwrite : isWriteCommand (upper (m.on H) name) = true := hlogged
  let w : Whole := ⟨s.store, s.ctx j⟩
  obtain ⟨hok, hstore, hsent⟩ := serve_write L args (w := w) hwrite hauth hmulti
  have hcmds : ∀ c ∈ cmds, Logged H c ∧ selectedAfter H [c] 0 = 0 :=
    fun c hc => (h.commands c hc).2
  obtain ⟨clock', hrun, -⟩ := runFresh_dispatch hcmds h.returns (w := w) h.databases hzero m args
    hwrite hmemory
  rcases hs : serve L (m.on H) name args w with ⟨e | served, w₂⟩
  · rw [hs] at hreturns
    cases hreturns
  · rw [hs] at hok hstore hsent
    obtain ⟨hl, hp⟩ := hsent served rfl
    rw [haof, if_pos rfl] at hl
    rw [hbacklog, if_pos rfl] at hp
    rcases hd : dispatch (m.on H) (upper (m.on H) name) args w with ⟨e | r, w₁⟩
    · rw [hd] at hok
      cases hok
    · obtain ⟨hnew, hdbs⟩ := hrun r w₁ hd
      rw [hd] at hstore
      refine ⟨clock', ?_, hnew, ?_, ?_, ?_⟩
      · intro c hc
        rcases List.mem_append.mp hc with hc | hc
        · exact h.commands c hc
        · rw [List.mem_singleton.mp hc]
          exact ⟨hP, hlogged, hstays⟩
      · rw [hdbs, Race.execute, hs]
        exact congrArg Store.databases hstore.symm
      · rw [Race.execute, hs]
        simp [h.aof, hl, encodeCommands, ← List.append_assoc]
      · rw [Race.execute, hs]
        simp [h.stream, hp, encodeCommands, ← List.append_assoc]

/-- The first of those that have to send sends. -/
theorem Race.pending_head {j : ℕ} {l : List (ℕ × Bytes)}
    (h : (l.map Prod.fst).head? = some j) (data : Bytes) :
    data ++ pending j l ++ (drop j l).flatMap Prod.snd = data ++ l.flatMap Prod.snd := by
  cases l with
  | nil => cases h
  | cons p l =>
    obtain rfl : p.1 = j := Option.some.inj h
    obtain ⟨j, d⟩ := p
    simp [pending, drop]

/-- **Every state that is reached.** -/
theorem Race.Reached.keeps {tidy : Prop} (htidy : tidy) {s : Race}
    (h : Race.Reached H n P tidy s) : ∃ clock cmds, s.Keeps H n P clock cmds := by
  induction h with
  | start tables ctx =>
    exact ⟨fun _ => ⟨0, 0, 0, 0⟩, [], fun _ hc => absurd hc List.not_mem_nil, rfl, rfl, rfl, rfl⟩
  | other _ tables ctx ih =>
    obtain ⟨clock, cmds, hk⟩ := ih
    exact ⟨clock, cmds, hk.commands, hk.returns, hk.databases, hk.aof, hk.stream⟩
  | execute _ haof hbacklog m _ hauth hmulti hzero hP hlogged hstays hreturns hmemory ih =>
    obtain ⟨clock, cmds, hk⟩ := ih
    obtain ⟨clock', hk'⟩ := hk.execute haof hbacklog hauth hmulti hzero hP hlogged hstays hreturns
      (hmemory htidy)
    exact ⟨clock', _, hk'⟩
  | append _ _ horder ih =>
    obtain ⟨clock, cmds, hk⟩ := ih
    exact ⟨clock, cmds, hk.commands, hk.returns, hk.databases,
      (pending_head (horder htidy) _).trans hk.aof, hk.stream⟩
  | push _ _ _ horder ih =>
    obtain ⟨clock, cmds, hk⟩ := ih
    exact ⟨clock, cmds, hk.commands, hk.returns, hk.databases, hk.aof,
      (pending_head (horder htidy) _).trans hk.stream⟩

/-! ### Replaying -/

theorem replaysTo_encoded (hdet : Deterministic H n P) {cmds : List (List Bytes)}
    (hP : ∀ c ∈ cmds, P c) (hlogged : ∀ c ∈ cmds, Logged H c) {data : Bytes}
    (hdata : data = encodeCommands cmds) (hlen : data.length < 2 ^ 63) (clock : ℕ → Moment) :
    ReplaysTo H n data (runFresh H n clock cmds).2.store.databases := by
  intro clock'
  have hne : ∀ c ∈ cmds, c ≠ [] := by
    rintro c hc rfl
    exact hlogged [] hc
  have hreplay : replayAof H clock' data = runCommands H clock' 0 cmds := by
    rw [hdata] at hlen ⊢
    exact replay_encoded hne hlen
  rw [hreplay]
  exact (hdet cmds hP clock' clock).2

/-- **The log follows the execution.** Once everything has been sent, replaying either log on an
empty store gives the live databases, if both logs have got the commands in the order of their
execution. -/
theorem log_follows_execution (hdet : Deterministic H n P) {s : Race}
    (h : Race.Reached H n P True s) (hdone : s.Done) (haof : s.aof.length < 2 ^ 63)
    (hstream : s.stream.length < 2 ^ 63) :
    ReplaysTo H n s.aof s.store.databases ∧ ReplaysTo H n s.stream s.store.databases := by
  obtain ⟨clock, cmds, hk⟩ := h.keeps trivial
  have hP : ∀ c ∈ cmds, P c := fun c hc => (hk.commands c hc).1
  have hlogged : ∀ c ∈ cmds, Logged H c := fun c hc => (hk.commands c hc).2.1
  have hall := hk.aof
  have hall' := hk.stream
  rw [hdone.1, List.flatMap_nil, List.append_nil] at hall
  rw [hdone.2, List.flatMap_nil, List.append_nil] at hall'
  rw [← hk.databases]
  exact ⟨replaysTo_encoded hdet hP hlogged hall haof clock,
    replaysTo_encoded hdet hP hlogged hall' hstream clock⟩

/-! ### Setting strings -/

/-- The command sets a string. -/
def IsSet (c : List Bytes) : Prop := ∃ k v, c = setCommand k v

theorem deterministic_set (H : Host) (n : ℕ) : Deterministic H n IsSet := by
  have hall : ∀ cmds, (∀ c ∈ cmds, IsSet c) → ∀ clock clock' n w,
      w.store.tables.overMemoryLimit = false →
      runCommands H clock n cmds w = runCommands H clock' n cmds w := by
    intro cmds
    induction cmds with
    | nil => exact fun _ _ _ _ _ _ => rfl
    | cons c cmds ih =>
      intro hset clock clock' n w hmem
      obtain ⟨k, v, rfl⟩ := hset c List.mem_cons_self
      rw [← List.singleton_append, runCommands_append (runCommands_set k v hmem n),
        runCommands_append (runCommands_set k v hmem n)]
      exact ih (fun c hc => hset c (List.mem_cons_of_mem _ hc)) clock clock' _ _ hmem
  intro cmds hset clock clock'
  have hsame := hall cmds hset clock clock' 0 { store := Store.new n, ctx := {} } rfl
  rw [runFresh, runFresh, hsame]
  exact ⟨rfl, rfl⟩

/-- A server with one database. -/
def Race.fresh : Race := { store := ⟨(Store.new 1).databases, {}⟩, ctx := fun _ => {} }

/-- A connection to `Race.fresh` executes a command. -/
def Race.set (s : Race) (j : ℕ) (k v : Bytes) : Race :=
  s.execute (Listener.plain none true) (Moment.on ⟨0, 0, 0, 0⟩ Host.plain) j (asBytes "SET") [k, v]

theorem not_isSelect_setCommand (H : Host) (k v : Bytes) : ¬IsSelect H (setCommand k v) := by
  have hname : H.toUppercase (fromUtf8Lossy (asBytes "SET")) = "SET" :=
    upper_name setDef_mem (Moment.on ⟨0, 0, 0, 0⟩ H)
  show H.toUppercase (fromUtf8Lossy (asBytes "SET")) ≠ "SELECT"
  rw [hname]
  decide

theorem Race.Reached.set {tidy : Prop} {s : Race} (h : Race.Reached Host.plain 1 IsSet tidy s)
    (j : ℕ) (k v : Bytes) (hidle : j ∉ s.toPush.map Prod.fst) (hctx : s.ctx j = {})
    (hreturns : (serve (Listener.plain none true) (Moment.on ⟨0, 0, 0, 0⟩ Host.plain) (asBytes "SET")
      [k, v] ⟨s.store, s.ctx j⟩).1.isOk = true) (hmemory : s.store.tables.overMemoryLimit = false) :
    Race.Reached Host.plain 1 IsSet tidy (s.set j k v) := by
  have hset : IsSet (asBytes "SET" :: [k, v]) := ⟨k, v, rfl⟩
  have hlogged : Logged Host.plain (asBytes "SET" :: [k, v]) := logged_setCommand Host.plain k v
  have hstays : selectedAfter Host.plain [asBytes "SET" :: [k, v]] 0 = 0 :=
    selectedAfter_of_not_isSelect (not_isSelect_setCommand Host.plain k v) 0
  refine .execute h rfl rfl ⟨0, 0, 0, 0⟩ hidle ?_ ?_ ?_ hset hlogged hstays hreturns ?_
  · rw [hctx]
  · rw [hctx]
  · rw [hctx]
  · exact fun _ => deniesMemory_of_le hmemory _

/-- Two connections to `Race.fresh` have executed a command each. -/
theorem Race.reached_both (tidy : Prop) :
    Race.Reached Host.plain 1 IsSet tidy ((Race.fresh.set 0 [97] [49]).set 1 [97] [50]) := by
  have hfresh : Race.Reached Host.plain 1 IsSet tidy Race.fresh := .start {} fun _ => {}
  have hfirst : Race.Reached Host.plain 1 IsSet tidy (Race.fresh.set 0 [97] [49]) := by
    refine hfresh.set 0 [97] [49] ?_ rfl ?_ ?_ <;> decide +kernel
  refine hfirst.set 1 [97] [50] ?_ ?_ ?_ ?_ <;> decide +kernel

/-- Two connections set a string at the same time, and the first is the first everywhere. -/
theorem log_follows_execution_twice :
    let s := ((((((Race.fresh.set 0 [97] [49]).set 1 [97] [50]).append 0).append 1).push 0).push 1)
    ReplaysTo Host.plain 1 s.aof s.store.databases ∧
      ReplaysTo Host.plain 1 s.stream s.store.databases := by
  intro s
  have hreached : Race.Reached Host.plain 1 IsSet True s := by
    refine .push (.push (.append (.append (Race.reached_both True) ?_ ?_) ?_ ?_) ?_ ?_ ?_) ?_ ?_ ?_
      <;> decide +kernel
  exact log_follows_execution (deterministic_set _ _) hreached ⟨by decide +kernel, by decide +kernel⟩
    (by decide +kernel) (by decide +kernel)

/-- The second to execute is the first to append: the file replays to the value that was
overwritten, and the stream to the one that is live. -/
theorem log_reorders_execution :
    let s := ((((((Race.fresh.set 0 [97] [49]).set 1 [97] [50]).append 1).append 0).push 0).push 1)
    let replay := fun data => (replayAof Host.plain (fun _ => ⟨0, 0, 0, 0⟩) data
      ⟨Store.new 1, {}⟩).2.store.databases
    Deterministic Host.plain 1 IsSet ∧ Race.Reached Host.plain 1 IsSet False s ∧ s.Done ∧
      s.store.databases.get 0 0 [97] = .ok (some [50]) ∧
      (replay s.aof).get 0 0 [97] = .ok (some [49]) ∧
      (replay s.stream).get 0 0 [97] = .ok (some [50]) ∧
      ¬ReplaysTo Host.plain 1 s.aof s.store.databases := by
  intro s replay
  have hreached : Race.Reached Host.plain 1 IsSet False s := by
    refine .push (.push (.append (.append (Race.reached_both False) ?_ ?_) ?_ ?_) ?_ ?_ ?_) ?_ ?_ ?_
      <;> decide +kernel
  have hlive : s.store.databases.get 0 0 [97] = .ok (some [50]) := by decide +kernel
  have hreplay : (replay s.aof).get 0 0 [97] = .ok (some [49]) := by decide +kernel
  refine ⟨deterministic_set _ _, hreached, ⟨by decide +kernel, by decide +kernel⟩, hlive, hreplay,
    by decide +kernel, fun h => ?_⟩
  have hsame : replay s.aof = s.store.databases := h _
  rw [hsame, hlive] at hreplay
  cases hreplay

end VeloDB
