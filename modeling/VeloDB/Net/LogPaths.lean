import VeloDB.Cmd.Trace
import VeloDB.Net.Background
import VeloDB.Net.LogOrder
import VeloDB.Net.Sessions
import VeloDB.Net.Unlogged

/-!
# The paths to a log

The normal loop of a connection logs the command that it has just executed, and nothing else logs
anything: not `EXEC`, which executes what has been queued, not a script, not the loop of subscribe
mode, and not a listener that has been given no log.

## Main definitions

* `Call.Spares` — the call of a command that changes no database
* `Net.Covered` — what an event of a connection executes is logged, or changes no database
* `LoneClient` — what one client does, on a server of its own
* `Repeatable` — commands whose effect depends neither on the clock nor on random numbers

## Main results

* `log_complete` — the log of a client all of whose events are covered replays to the live databases
-/

namespace VeloDB

open Rust Proc

/-! ### Data that lasts -/

/-- Nothing in the databases ever expires. -/
def Databases.Lasting (dbs : Databases) : Prop :=
  ∀ i k e, dbs.find i k = some e → e.expireAt = none

theorem lasting_new (n : ℕ) : (Store.new n).databases.Lasting := by
  intro i k e he
  rw [Databases.find_new] at he
  cases he

theorem Databases.Lasting.fresh {dbs : Databases} (h : dbs.Lasting) {now : UInt64} {i : ℕ}
    {k : Bytes} {e : Entry} (he : dbs.find i k = some e) : e.expired now = false := by
  rw [Entry.expired, h i k e he]

/-- The same databases, if nothing in them ever expires. -/
def SameIfLasting (s s' : Keyspace) : Prop := s.databases.Lasting → s'.databases = s.databases

namespace SameIfLasting

instance : Std.Refl SameIfLasting := ⟨fun _ _ => rfl⟩

instance : IsTrans Keyspace SameIfLasting where
  trans s s' s'' h h' hs := by
    have hsame := h hs
    rw [← hsame] at hs
    exact (h' hs).trans hsame

/-- Where nothing expires, there is nothing to throw out. -/
theorem moves_dbsize (now : UInt64) (i : ℕ) : Moves SameIfLasting (Keyspace.dbsize now i) := by
  rintro ⟨dbs, notified⟩ hlasting
  by_cases hi : i < dbs.length
  · have hnone : (dbs[i].pairs.filter fun p => p.2.expired now) = [] := by
      refine List.filter_eq_nil_iff.mpr fun p hp => ?_
      have hfind : dbs.find i p.1 = some p.2 := by
        rw [Databases.find, List.getElem?_eq_getElem hi]
        exact HashMap.mem_pairs.mp hp
      rw [hlasting.fresh hfind]
      exact Bool.false_ne_true
    rw [Keyspace.dbsize, Proc.bind_ok (Keyspace.read_db hi notified), hnone]
    rfl
  · obtain ⟨e, he⟩ := Keyspace.read_db_error (Nat.le_of_not_lt hi) notified
    rw [Keyspace.dbsize, Proc.bind_error he]

end SameIfLasting

/-! ### Pops that find no list -/

/-- None of the keys holds a live list. -/
def Listless (now : UInt64) (dbs : Databases) (i : ℕ) (keys : List Bytes) : Prop :=
  ∀ k ∈ keys, ∀ e l, dbs.liveEntry now i k = some e → Kind.list.unwrap e.value ≠ some l

section Pops

variable (d : PopDirection) {now : UInt64} {i : ℕ} {dbs : Databases}

theorem pop_listless {k : Bytes}
    (h : ∀ e l, dbs.liveEntry now i k = some e → Kind.list.unwrap e.value ≠ some l)
    (notified : List Bytes) :
    ∃ r, d.pop now i k ⟨dbs, notified⟩ = (r, ⟨dbs, notified⟩) ∧ ∀ v, r ≠ .ok (some v) := by
  by_cases hi : i < dbs.length
  · refine ⟨_, pop_same d hi h notified, fun v hv => ?_⟩
    cases he : dbs.liveEntry now i k with
    | none =>
      rw [he] at hv
      cases hv
    | some e =>
      rw [he] at hv
      cases hv
  · obtain ⟨e, he⟩ := Keyspace.read_entry_error (Nat.le_of_not_lt hi) now k notified
    refine ⟨.error (.error e), ?_, fun v hv => by cases hv⟩
    rw [d.pop_eq, Keyspace.updateAs, Proc.bind_error he]

theorem popFirst_listless {keys : List Bytes} (h : Listless now dbs i keys)
    (notified : List Bytes) :
    (Cmd.popFirst (d.pop now i) keys ⟨dbs, notified⟩).2 = ⟨dbs, notified⟩ := by
  induction keys with
  | nil => rfl
  | cons k keys ih =>
    obtain ⟨r, hpop, hnone⟩ := pop_listless d (h k List.mem_cons_self) notified
    rw [Cmd.popFirst]
    rcases r with e | _ | v
    · rw [Proc.bind_error hpop]
    · rw [Proc.bind_ok hpop]
      exact ih fun k' hk' => h k' (List.mem_cons_of_mem _ hk')
    · exact absurd rfl (hnone v)

theorem unblockPop_listless {keys : List Bytes} (h : Listless now dbs i keys)
    (notified : List Bytes) :
    (unblockPop (d.pop now i) keys ⟨dbs, notified⟩).2 = ⟨dbs, notified⟩ := by
  induction keys with
  | nil => rfl
  | cons k keys ih =>
    obtain ⟨r, hpop, hnone⟩ := pop_listless d (h k List.mem_cons_self) notified
    rw [unblockPop_passed hpop hnone]
    exact ih fun k' hk' => h k' (List.mem_cons_of_mem _ hk')

end Pops

/-! ### Calls that spare the databases -/

/-- The call is one of a command that is not logged or only selects a database; it is no blocking
pop that finds a list, and it makes no stream. -/
structure Call.Spares (c : Call) : Prop where
  unlogged : isWriteCommand c.command.name = false ∨ c.command.name = "SELECT"
  pops : c.command.name = "BLPOP" ∨ c.command.name = "BRPOP" →
    Listless c.env.now c.before.store.databases c.before.ctx.dbIndex c.args.dropLast
  makes : c.command.name = "XGROUP" → ¬ChangesData c.env c.command.name c.args c.before

/-- **A call that spares the databases** leaves them as they are, if nothing in them expires. -/
theorem Call.Spares.databases {c : Call} (h : c.Spares) (hc : c.command ∈ commands)
    (hleaf : c.command.handler.isLeaf = true) (hlasting : c.before.store.databases.Lasting) :
    c.after.store.databases = c.before.store.databases := by
  obtain ⟨command, args, env, w⟩ := c
  obtain ⟨hunlogged, hpops, hmakes⟩ := h
  dsimp only at *
  rw [Call.after, Call.run]
  dsimp only
  by_cases hselect : command.name = "SELECT"
  · obtain rfl : command = selectDef :=
      List.inj_on_of_nodup_map nodup_commands hc selectDef_mem hselect
    exact sparesDatabases_run rfl _ env args w
  have hcompound : command.name ∉ compoundNames := (isLeaf_iff command hc).mp hleaf
  rcases sparesDatabases_or hc (hunlogged.resolve_right hselect) hcompound with
    ⟨hspares, -⟩ | hname
  · exact sparesDatabases_run hspares _ env args w
  have hwrite : ∀ f : Env → ℕ → List Bytes → KeyM RespValue,
      Moves SameIfLasting (f env w.ctx.dbIndex args) →
      (Handler.run (fun _ _ => Proc.fail .panic) env args (.write f) w).2.store.databases
        = w.store.databases := fun f hf => hf { databases := w.store.databases } hlasting
  have hpop : ∀ d d' : PopDirection,
      Listless env.now w.store.databases w.ctx.dbIndex args.dropLast →
      (Cmd.blockingPop d.pop d' env args w).2.store.databases = w.store.databases := by
    intro d d' hlistless
    rw [blockingPop_databases, popFirst_listless d hlistless]
  refine of_mayChange (P := fun command =>
    (command.name = "BLPOP" ∨ command.name = "BRPOP" →
      Listless env.now w.store.databases w.ctx.dbIndex args.dropLast) →
    (command.name = "XGROUP" → ¬ChangesData env command.name args w) →
    (command.handler.run (fun _ _ => Proc.fail .panic) env args w).2.store.databases
      = w.store.databases) (fun _ _ _ => ?_) (fun _ _ _ => ?_) (fun _ hlistless _ => ?_)
    (fun _ hlistless _ => ?_) (fun _ _ hmakes => ?_) hc hname hpops hmakes
  · exact hwrite _ (moves_info (SameIfLasting.moves_dbsize env.now) _ _)
  · exact hwrite _ (moves_dbsizeCmd (SameIfLasting.moves_dbsize env.now) _ _)
  · exact hpop .left .left (hlistless (Or.inl rfl))
  · exact hpop .right .right (hlistless (Or.inr rfl))
  · have hstore := Cmd.xgroup_store env args w
    show (Cmd.xgroup env args w).2.store.databases = w.store.databases
    rw [hstore]
    cases hcall : Cmd.xgroupCall env args with
    | none => rfl
    | some call =>
      obtain ⟨k, group, c⟩ := call
      refine GroupCall.databases_kept (fun hmakes' => ?_) group
      obtain ⟨hi, ⟨startId, rfl⟩, hnone⟩ := hmakes'
      exact hmakes rfl (Or.inr ⟨rfl, hi, k, group, startId, hcall, hnone⟩)

/-- **Commands that make only such calls** leave the databases as they are. -/
theorem databases_of_spares {env : Env} {name : String} {args : List Bytes} {w : Whole}
    (h : ∀ c ∈ calls env name args w, c.Spares) (hlasting : w.store.databases.Lasting) :
    (dispatch env name args w).2.store.databases = w.store.databases := by
  have hblind : BlindTo fun w' => w'.store.databases = w.store.databases :=
    ⟨fun _ _ h => h, fun _ _ h => h, fun _ _ h => h⟩
  have hkeeps := keeps_calls (P := Call.Spares) (Q := fun _ => True) hblind ?_ name args w rfl h
  · exact hkeeps.2
  · intro c hc hleaf _ _ hspares hsame
    refine ⟨trivial, ?_⟩
    rw [← hsame] at hlasting
    exact (hspares.databases hc hleaf hlasting).trans hsame

/-! ### One command of the normal loop -/

variable {L : Listener} {env : Env} {name : Bytes} {args : List Bytes} {w : Whole}

/-- The loop executes the command at once, and `is_write_command` names it. -/
structure WritesAtOnce (env : Env) (name : Bytes) (ctx : ClientContext) : Prop where
  write : isWriteCommand (upper env name) = true
  authenticated : ctx.authenticated = true
  normal : ctx.multiMode = false

/-- What a command of the normal loop executes: nothing, when the loop answers it itself, turns it
away or queues it. -/
def servedCalls (env : Env) (name : Bytes) (args : List Bytes) (w : Whole) : List Call :=
  if upper env name ∈ ["PSYNC", "AUTH", "HELLO", "BGREWRITEAOF"] then []
  else if !w.ctx.authenticated && !isAuthExempt (upper env name) then []
  else if w.ctx.multiMode && !isTransactionCommand (upper env name) then []
  else calls env (upper env name) args w

theorem serveSub_snd (env : Env) (name : Bytes) (args : List Bytes) (w : Whole) :
    (serveSub env name args w).2 = (dispatch env (upper env name) args w).2 := by
  rw [serveSub]
  rcases h : dispatch env (upper env name) args w with ⟨e | r, w'⟩
  · rw [Proc.bind_error h]
  · rw [Proc.bind_ok h]
    rfl

/-- A command that executes only calls that spare the databases. -/
theorem databases_serve (h : ∀ c ∈ servedCalls env name args w, c.Spares)
    (hlasting : w.store.databases.Lasting) :
    (serve L env name args w).2.store.databases = w.store.databases := by
  rw [serve]
  rw [servedCalls] at h
  split_ifs with hpsync hauth hhello hlocked hqueued
  · rfl
  · rfl
  · rfl
  · rfl
  · rfl
  · obtain ⟨b, hsnd⟩ := serveDirect_snd L env name args w
    rw [hsnd, execute]
    by_cases hrewrite : upper env name = "BGREWRITEAOF"
    · rw [if_pos hrewrite]
      rfl
    · rw [if_neg (by simp [hpsync, hauth, hhello, hrewrite]), if_neg hlocked, if_neg hqueued] at h
      rw [if_neg hrewrite]
      exact databases_of_spares h hlasting

/-! ### Runs -/

/-- The two logs. -/
inductive Log
  | aof
  | backlog

namespace Log

/-- The listener has been given the log. -/
def given : Log → Listener → Bool
  | .aof, L => L.aofWriter
  | .backlog, L => L.replBacklog

/-- What has been logged. -/
def bytes : Log → Shared → Bytes
  | .aof, sh => sh.aof
  | .backlog, sh => sh.pushed

/-- What a command adds to the log. -/
def entry : Log → Served → Bytes
  | .aof, s => s.logged
  | .backlog, s => s.pushed

end Log

/-- What the normal loop does with a command gets into the log: a write that is executed at once
finds the log at hand and is not refused for lack of memory, and it is one of `P`; anything else
executes calls only that spare the databases. -/
structure Covers (K : Log) (L : Listener) (P : List Bytes → Prop) (env : Env) (name : Bytes)
    (args : List Bytes) (w : Whole) : Prop where
  writes : WritesAtOnce env name w.ctx → K.given L = true ∧ P (name :: args) ∧
    w.store.tables.deniesMemory (upper env name) = false
  spares : ¬WritesAtOnce env name w.ctx → ∀ c ∈ servedCalls env name args w, c.Spares

/-- What an event of a connection does gets into the log. The loop of subscribe mode, which logs
nothing, executes calls only that spare the databases, and a wait ends without a pop. -/
inductive Net.Covered (K : Log) (L : Listener) (H : Host) (P : List Bytes → Prop) (n : Net) :
    ConnEvent → Prop
  | read (chunk : Bytes) : Covered K L H P n (.read chunk)
  | turn (m : Moment)
    (hnormal : n.conn.status = .running false → ∀ rest name args,
      parseCommand n.conn.buf = .ok (rest, name :: args) →
        Covers K L P (m.on H) name args n.whole)
    (hsub : n.conn.status = .running true → ∀ rest name args,
      parseCommand n.conn.buf = .ok (rest, name :: args) →
        ∀ c ∈ calls (m.on H) (upper (m.on H) name) args n.whole, c.Spares) :
    Covered K L H P n (.turn m)
  | resume (m : Moment) (triggered : Bool)
    (hpops : triggered = true → ∀ b id, n.conn.status = .waiting b id →
      Listless m.now n.shared.store.databases n.conn.ctx.dbIndex b.keys) :
    Covered K L H P n (.resume m triggered)

/-- An event of a connection that stays on database 0. -/
def Net.stepInZero (L : Listener) (H : Host) (n : Net) (e : ConnEvent) : Option Net :=
  (n.step L H e).filter fun n' => n'.conn.ctx.dbIndex == 0

/-- What one client does on a server of its own with `n` databases: it connects to a listener, once
or several times, and stays on database 0. The two background tasks have their turns, and besides
the tables of the store may change. In a `tidy` run all events of the client are covered, and the
memory task evicts nothing. -/
inductive LoneClient (K : Log) (H : Host) (n : ℕ) (P : List Bytes → Prop) (tidy : Prop) :
    Listener → Net → Prop
  | start (L : Listener) (tables : Tables) :
    LoneClient K H n P tidy L
      { shared := { store := ⟨(Store.new n).databases, tables⟩ }, conn := Conn.accept L }
  | reconnect {L : Listener} {s : Net} (h : LoneClient K H n P tidy L s) (L' : Listener) :
    LoneClient K H n P tidy L' { s with conn := Conn.accept L' }
  | other {L : Listener} {s : Net} (h : LoneClient K H n P tidy L s) (tables : Tables) :
    LoneClient K H n P tidy L
      { s with shared := { s.shared with store := { s.shared.store with tables } } }
  | expiry {L : Listener} {s : Net} (h : LoneClient K H n P tidy L s) (it : Iteration)
    (now : UInt64) :
    LoneClient K H n P tidy L
      { s with shared := { s.shared with store := s.shared.store.expiryTask it now } }
  | memory {L : Listener} {s : Net} (h : LoneClient K H n P tidy L s)
    (hnone : tidy → s.shared.store.EvictsNone) (it : Iteration) :
    LoneClient K H n P tidy L
      { s with shared := { s.shared with store := s.shared.store.memoryTask it } }
  | step {L : Listener} {s s' : Net} (h : LoneClient K H n P tidy L s) {e : ConnEvent}
    (hcovered : tidy → s.Covered K L H P e) (hstep : s.stepInZero L H e = some s') :
    LoneClient K H n P tidy L s'

/-- What commands with the property `P` do to an empty store depends neither on the time nor on
random numbers: they return, they leave the same at any time, and what they leave stays. -/
structure Repeatable (H : Host) (n : ℕ) (P : List Bytes → Prop) : Prop where
  deterministic : Deterministic H n P
  returns : ∀ cmds, (∀ c ∈ cmds, P c) → ∀ clock,
    Returns H clock 0 cmds { store := Store.new n, ctx := {} }
  lasting : ∀ cmds, (∀ c ∈ cmds, P c) → ∀ clock,
    (runFresh H n clock cmds).2.store.databases.Lasting

/-! ### The invariant -/

variable {K : Log} {H : Host} {n : ℕ} {P : List Bytes → Prop} {clock : ℕ → Moment}
  {cmds : List (List Bytes)} {s s' : Net}

/-- These commands, executed at these moments, make up the live databases and the log. -/
structure Log.Holds (K : Log) (H : Host) (n : ℕ) (P : List Bytes → Prop) (clock : ℕ → Moment)
    (cmds : List (List Bytes)) (s : Net) : Prop where
  property : ∀ c ∈ cmds, P c
  logged : ∀ c ∈ cmds, Logged H c ∧ selectedAfter H [c] 0 = 0
  returns : Returns H clock 0 cmds { store := Store.new n, ctx := {} }
  databases : (runFresh H n clock cmds).2.store.databases = s.shared.store.databases
  bytes : K.bytes s.shared = encodeCommands cmds

/-- An event that changes neither the databases nor the log. -/
theorem Log.Holds.keep (h : K.Holds H n P clock cmds s)
    (hdbs : s'.shared.store.databases = s.shared.store.databases)
    (hbytes : K.bytes s'.shared = K.bytes s.shared) : K.Holds H n P clock cmds s' :=
  ⟨h.property, h.logged, h.returns, h.databases.trans hdbs.symm, hbytes.trans h.bytes⟩

theorem Log.Holds.lasting (hP : Repeatable H n P) (h : K.Holds H n P clock cmds s) :
    s.shared.store.databases.Lasting :=
  h.databases ▸ hP.lasting cmds h.property clock

/-! ### What an event logs -/

section After

variable (K : Log) (s : Net) (cmd : List Bytes) (rest : Bytes)

theorem databases_afterServe (r : Except Failure Served × Whole) :
    (s.afterServe cmd rest r).shared.store.databases = r.2.store.databases := by
  rcases r with ⟨f | served, w⟩
  · cases f <;> rfl
  · rw [Net.afterServe]
    cases served.outcome <;> rfl

theorem databases_afterServeSub (r : Except Failure Served × Whole) :
    (s.afterServeSub cmd rest r).shared.store.databases = r.2.store.databases := by
  rcases r with ⟨f | served, w⟩
  · cases f <;> rfl
  · rfl

theorem bytes_afterServe (served : Served) (w : Whole) :
    K.bytes (s.afterServe cmd rest (.ok served, w)).shared
      = K.bytes s.shared ++ K.entry served := by
  rw [Net.afterServe]
  cases K <;> cases served.outcome <;> rfl

theorem bytes_afterServe_error (f : Failure) (w : Whole) :
    K.bytes (s.afterServe cmd rest (.error f, w)).shared = K.bytes s.shared := by
  cases K <;> cases f <;> rfl

theorem bytes_afterServeSub (env : Env) (name : Bytes) (args : List Bytes) (w : Whole) :
    K.bytes (s.afterServeSub cmd rest (serveSub env name args w)).shared = K.bytes s.shared := by
  rw [serveSub]
  rcases h : dispatch env (upper env name) args w with ⟨f | r, w'⟩
  · rw [Proc.bind_error h]
    cases K <;> cases f <;> rfl
  · rw [Proc.bind_ok h]
    cases K <;> exact List.append_nil _

end After

/-- **Only the normal loop logs anything.** -/
theorem Net.logs_of_step {e : ConnEvent} (h : s.step L H e = some s') :
    (∀ K : Log, K.bytes s'.shared = K.bytes s.shared) ∨
      ∃ m rest name args, e = .turn m ∧ s.conn.status = .running false ∧
        parseCommand s.conn.buf = .ok (rest, name :: args) ∧
        s' = s.afterServe (name :: args) rest (serve L (m.on H) name args s.whole) := by
  rw [step.eq_def] at h
  cases e with
  | read chunk =>
    dsimp only at h
    split at h
    · obtain rfl := Option.some.inj h
      refine Or.inl fun K => ?_
      rw [receive]
      dsimp only
      split_ifs <;> cases K <;> rfl
    · cases h
  | turn m =>
    dsimp only at h
    split at h
    · next hstatus =>
      obtain rfl := Option.some.inj h
      rcases hparse : parseCommand s.conn.buf with e | ⟨rest, _ | ⟨name, args⟩⟩
      · refine Or.inl fun K => ?_
        rw [normalTurn, hparse]
        cases K <;> split_ifs <;> cases e <;> rfl
      · refine Or.inl fun K => ?_
        rw [normalTurn, hparse]
        cases K <;> split_ifs <;> rfl
      · exact Or.inr ⟨m, rest, name, args, rfl, hstatus, rfl, normalTurn_of_parse hparse⟩
    · obtain rfl := Option.some.inj h
      refine Or.inl fun K => ?_
      have hsent := bytes_afterServeSub K s
      rw [subTurn]
      rcases parseCommand s.conn.buf with e | ⟨rest, _ | ⟨name, args⟩⟩
      · cases K <;> split_ifs <;> cases e <;> rfl
      · cases K <;> split_ifs <;> rfl
      · split_ifs
        · rfl
        · exact hsent (name :: args) rest (m.on H) name args s.whole
    · cases h
  | resume m triggered =>
    dsimp only at h
    split at h
    · next b id _ =>
      split at h
      · cases h
      · obtain rfl := Option.some.inj h
        refine Or.inl fun K => ?_
        rw [resumeWait]
        dsimp only
        split
        · cases K <;> rfl
        · next f _ => cases K <;> cases f <;> rfl
    · cases h

/-! ### The steps of a run -/

/-- A write that the loop executes at once. -/
theorem Log.Holds.write (hP : Repeatable H n P) (h : K.Holds H n P clock cmds s)
    (hzero : s.conn.ctx.dbIndex = 0) {m : Moment}
    (hwrite : WritesAtOnce (m.on H) name s.conn.ctx) (hgiven : K.given L = true)
    (hprop : P (name :: args))
    (hmemory : s.shared.store.tables.deniesMemory (upper (m.on H) name) = false) (rest : Bytes)
    (hstays : (serve L (m.on H) name args s.whole).2.ctx.dbIndex = 0) :
    ∃ clock', K.Holds H n P clock' (cmds ++ [name :: args])
      (s.afterServe (name :: args) rest (serve L (m.on H) name args s.whole)) := by
  have hproperty : ∀ c ∈ cmds ++ [name :: args], P c := by
    intro c hc
    rcases List.mem_append.mp hc with hc | hc
    · exact h.property c hc
    · rwa [List.mem_singleton.mp hc]
  obtain ⟨clock', hok, herror⟩ := runFresh_dispatch h.logged h.returns (w := s.whole) h.databases
    hzero m args hwrite.write hmemory
  obtain ⟨hisOk, hstore, hsent⟩ := serve_write L args (w := s.whole) hwrite.write
    hwrite.authenticated hwrite.normal
  have hselected : selectedAfter H [name :: args] 0 = 0 := by
    obtain ⟨hserve, hexecute⟩ := serve_write_eq L args (w := s.whole) hwrite.write
      hwrite.authenticated hwrite.normal
    obtain ⟨b, hsnd⟩ := serveDirect_snd L (m.on H) name args s.whole
    rw [← hserve, hexecute] at hsnd
    have hindex := dbIndex_dispatch hwrite.write args s.whole
    rw [hsnd] at hstays
    rw [← hzero]
    exact hindex.symm.trans (hstays.trans hzero.symm)
  rcases hd : dispatch (m.on H) (upper (m.on H) name) args s.whole with ⟨e | r, w₁⟩
  · exact absurd (hP.returns _ hproperty clock') (herror e w₁ hd)
  · rcases hs : serve L (m.on H) name args s.whole with ⟨e | served, w₂⟩
    · rw [hs, hd] at hisOk
      cases hisOk
    · obtain ⟨hreturns, hdbs⟩ := hok r w₁ hd
      rw [hs, hd] at hstore
      obtain ⟨hlogged, hpushed⟩ := hsent served (congrArg Prod.fst hs)
      refine ⟨clock', hproperty, fun c hc => ?_, hreturns, ?_, ?_⟩
      · rcases List.mem_append.mp hc with hc | hc
        · exact h.logged c hc
        · rw [List.mem_singleton.mp hc]
          exact ⟨hwrite.write, hselected⟩
      · rw [hdbs, databases_afterServe]
        exact congrArg Store.databases hstore.symm
      · have hentry : K.entry served = encodeCommandForAof (name :: args) := by
          cases K with
          | aof =>
            have haof : L.aofWriter = true := hgiven
            rwa [haof] at hlogged
          | backlog =>
            have hbacklog : L.replBacklog = true := hgiven
            rwa [hbacklog] at hpushed
        rw [bytes_afterServe, h.bytes, hentry]
        simp [encodeCommands]

/-- A command of the normal loop that executes no write. -/
theorem Log.Holds.spare (hP : Repeatable H n P) (h : K.Holds H n P clock cmds s) {m : Moment}
    (hnot : ¬WritesAtOnce (m.on H) name s.conn.ctx)
    (hspares : ∀ c ∈ servedCalls (m.on H) name args s.whole, c.Spares) (rest : Bytes) :
    K.Holds H n P clock cmds
      (s.afterServe (name :: args) rest (serve L (m.on H) name args s.whole)) := by
  refine h.keep ?_ ?_
  · rw [databases_afterServe]
    exact databases_serve hspares (h.lasting hP)
  · rcases hs : serve L (m.on H) name args s.whole with ⟨e | served, w⟩
    · exact bytes_afterServe_error ..
    · obtain ⟨hlogged, hpushed⟩ := Server.serve_sends hs
      have hnone : ∀ {sends : Bool} {bytes : Bytes},
          Server.Sent s.conn.ctx (upper (m.on H) name) (name :: args) sends bytes → bytes = [] :=
        fun hsent => hsent.cases.resolve_right fun hsome =>
          hnot ⟨hsome.2.2.1, hsome.2.2.2.1, hsome.2.2.2.2⟩
      have hentry : K.entry served = [] := by
        cases K with
        | aof => exact hnone hlogged
        | backlog => exact hnone hpushed
      rw [bytes_afterServe, hentry, List.append_nil]

/-- The end of a wait that pops nothing. -/
theorem databases_resumeWait {m : Moment} {b : BlockState} {triggered : Bool}
    (h : triggered = true →
      Listless m.now s.shared.store.databases s.conn.ctx.dbIndex b.keys) (id : ℕ) :
    (s.resumeWait (m.on H) b id triggered).shared.store.databases
      = s.shared.store.databases := by
  have hpop : ∀ d : PopDirection, triggered = true → (unblockPop
      (d.pop m.now s.conn.ctx.dbIndex) b.keys ⟨s.shared.store.databases, []⟩).2.databases
        = s.shared.store.databases :=
    fun d ht => congrArg Keyspace.databases (unblockPop_listless d (h ht) [])
  rw [Net.resumeWait]
  cases triggered with
  | false => rfl
  | true =>
    dsimp only
    cases b.popDirection with
    | left =>
      have hleft := hpop .left rfl
      split
      · exact hleft
      · next f _ => cases f <;> exact hleft
    | right =>
      have hright := hpop .right rfl
      split
      · exact hright
      · next f _ => cases f <;> exact hright

/-- **One event.** -/
theorem Log.Holds.step (hP : Repeatable H n P) (h : K.Holds H n P clock cmds s)
    (hzero : s.conn.ctx.dbIndex = 0) {e : ConnEvent} (hcovered : s.Covered K L H P e)
    (hstep : s.stepInZero L H e = some s') :
    ∃ clock' cmds', K.Holds H n P clock' cmds' s' := by
  obtain ⟨hstep, hstays⟩ := Option.filter_eq_some_iff.mp hstep
  replace hstays : s'.conn.ctx.dbIndex = 0 := by simpa using hstays
  have hlogs := Net.logs_of_step hstep
  cases Net.goes_of_step hstep with
  | rests hrests =>
    refine ⟨clock, cmds, h.keep hrests.databases ?_⟩
    rcases hlogs with hlogs | ⟨m, rest, name, args, -, -, -, rfl⟩
    · exact hlogs K
    · have hserved := hrests.served
      rw [Net.served_afterServe] at hserved
      simp at hserved
  | @normal m name rest args hstatus hbuf =>
    cases hcovered with
    | turn _ hnormal _ =>
      have hcovers := hnormal hstatus rest name args hbuf
      by_cases hwrite : WritesAtOnce (m.on H) name s.conn.ctx
      · obtain ⟨hgiven, hprop, hmemory⟩ := hcovers.writes hwrite
        rw [Net.ctx_afterServe] at hstays
        obtain ⟨clock', hholds⟩ := h.write hP hzero hwrite hgiven hprop hmemory rest hstays
        exact ⟨clock', _, hholds⟩
      · exact ⟨clock, cmds, h.spare hP hwrite (hcovers.spares hwrite) rest⟩
  | sub m hstatus hbuf =>
    cases hcovered with
    | turn _ _ hsub =>
      refine ⟨clock, cmds, h.keep ?_ (bytes_afterServeSub ..)⟩
      rw [databases_afterServeSub, serveSub_snd]
      exact databases_of_spares (hsub hstatus _ _ _ hbuf) (h.lasting hP)
  | resumed m triggered hstatus =>
    cases hcovered with
    | resume _ _ hpops =>
      refine ⟨clock, cmds, h.keep (databases_resumeWait (fun ht => hpops ht _ _ hstatus) _) ?_⟩
      rcases hlogs with hlogs | ⟨m', rest, name, args, hturn, -, -, -⟩
      · exact hlogs K
      · cases hturn

/-- **Every state of a run.** -/
theorem LoneClient.holds (hP : Repeatable H n P) {tidy : Prop} (htidy : tidy)
    (h : LoneClient K H n P tidy L s) :
    s.conn.ctx.dbIndex = 0 ∧ ∃ clock cmds, K.Holds H n P clock cmds s := by
  induction h with
  | start L tables =>
    refine ⟨rfl, fun _ => ⟨0, 0, 0, 0⟩, [], ?_⟩
    refine ⟨List.forall_mem_nil _, List.forall_mem_nil _, rfl, rfl, ?_⟩
    cases K <;> rfl
  | reconnect _ L' ih =>
    obtain ⟨-, clock, cmds, hholds⟩ := ih
    exact ⟨rfl, clock, cmds, hholds.keep rfl rfl⟩
  | other _ tables ih =>
    obtain ⟨hzero, clock, cmds, hholds⟩ := ih
    exact ⟨hzero, clock, cmds, hholds.keep rfl (by cases K <;> rfl)⟩
  | expiry _ it now ih =>
    obtain ⟨hzero, clock, cmds, hholds⟩ := ih
    have hfresh := Store.expiryTask_of_fresh
      (fun i k e he => show e.expired now = false from (hholds.lasting hP).fresh he) it
    exact ⟨hzero, clock, cmds, hholds.keep (congrArg Store.databases hfresh) (by cases K <;> rfl)⟩
  | memory _ hnone it ih =>
    obtain ⟨hzero, clock, cmds, hholds⟩ := ih
    exact ⟨hzero, clock, cmds,
      hholds.keep (Store.memoryTask_of_evictsNone (hnone htidy) it) (by cases K <;> rfl)⟩
  | step _ hcovered hstep ih =>
    obtain ⟨hzero, clock, cmds, hholds⟩ := ih
    have hstays := (Option.filter_eq_some_iff.mp hstep).2
    exact ⟨by simpa using hstays, hholds.step hP hzero (hcovered htidy) hstep⟩

/-- **The log is complete**: replaying it on an empty store gives the live databases, whichever log
it is, if every event of the run is covered. -/
theorem log_complete (hP : Repeatable H n P) (h : LoneClient K H n P True L s)
    (hlen : (K.bytes s.shared).length < 2 ^ 63) :
    ReplaysTo H n (K.bytes s.shared) s.shared.store.databases := by
  obtain ⟨-, clock, cmds, hholds⟩ := h.holds hP trivial
  rw [← hholds.databases]
  exact replaysTo_encoded hP.deterministic hholds.property (fun c hc => (hholds.logged c hc).1)
    hholds.bytes hlen clock

/-! ### Setting strings -/

theorem lasting_setString {dbs : Databases} (h : dbs.Lasting) (i : ℕ) (k v : Bytes) :
    (setString dbs i k v).Lasting := by
  intro j k' e he
  rw [setString] at he
  by_cases hne : j ≠ i ∨ k' ≠ k
  · rw [Databases.find_put_of_ne hne] at he
    exact h j k' e he
  · obtain ⟨rfl, rfl⟩ := not_or.mp hne |>.imp not_ne_iff.mp not_ne_iff.mp
    by_cases hj : j < dbs.length
    · rw [Databases.find_put_self hj] at he
      obtain rfl := Option.some.inj he
      rfl
    · rw [Databases.put, List.modify_eq_self (Nat.le_of_not_lt hj)] at he
      exact h j k' e he

theorem runCommands_sets {clock : ℕ → Moment} (hcmds : ∀ c ∈ cmds, IsSet c) {w : Whole}
    (hmem : w.store.tables.overMemoryLimit = false) (hlasting : w.store.databases.Lasting)
    (i : ℕ) : Returns H clock i cmds w ∧
      (runCommands H clock i cmds w).2.store.databases.Lasting := by
  induction cmds generalizing i w with
  | nil => exact ⟨rfl, hlasting⟩
  | cons c cmds ih =>
    obtain ⟨k, v, rfl⟩ := hcmds c List.mem_cons_self
    have hrun : runCommands H clock i [setCommand k v] w = (.ok (i + [setCommand k v].length),
        ⟨⟨setString w.store.databases w.ctx.dbIndex k v, w.store.tables⟩, w.ctx⟩) :=
      runCommands_set k v hmem i
    rw [← List.singleton_append, returns_append hrun, runCommands_append hrun]
    exact ih (w := ⟨⟨setString w.store.databases w.ctx.dbIndex k v, w.store.tables⟩, w.ctx⟩)
      (fun c hc => hcmds c (List.mem_cons_of_mem _ hc)) hmem (lasting_setString hlasting _ k v) _

theorem repeatable_set (H : Host) (n : ℕ) : Repeatable H n IsSet where
  deterministic := deterministic_set H n
  returns _ hcmds _ := (runCommands_sets hcmds rfl (lasting_new n) 0).1
  lasting _ hcmds _ := (runCommands_sets hcmds rfl (lasting_new n) 0).2

/-- What a client of a server with one database has come to, after these events. -/
def connected (L : Listener) (H : Host) (es : List ConnEvent) : Option Net :=
  Run.run (Net.stepInZero L H)
    { shared := { store := ⟨(Store.new 1).databases, {}⟩ }, conn := Conn.accept L } es

theorem LoneClient.run {es : List ConnEvent} (h : LoneClient K H n P False L s)
    (hrun : Run.run (Net.stepInZero L H) s es = some s') : LoneClient K H n P False L s' := by
  induction es generalizing s with
  | nil =>
    obtain rfl := Option.some.inj hrun
    exact h
  | cons e es ih =>
    obtain ⟨t, ht, hrest⟩ := Option.bind_eq_some_iff.mp hrun
    exact ih (.step h False.elim ht) hrest

/-- `SET a 1`. -/
def setA : List Bytes := setCommand [97] [49]

/-- A client can send these commands so that the key `a` is live afterwards and the log does not
replay to the live databases. -/
def Misses (K : Log) (L : Listener) (H : Host) (cmds : List (List Bytes)) : Prop :=
  ∃ s, LoneClient K H 1 IsSet False L s ∧ s.conn.served = cmds ∧
    s.shared.store.databases.get 0 0 [97] = .ok (some [49]) ∧
    ¬ReplaysTo H 1 (K.bytes s.shared) s.shared.store.databases

theorem misses_of_run (es : List ConnEvent) (h : (connected L H es).map (fun s =>
      (s.conn.served, s.shared.store.databases.get 0 0 [97], K.bytes s.shared))
    = some (cmds, .ok (some [49]), [])) : Misses K L H cmds := by
  obtain ⟨s, hrun, hs⟩ := Option.map_eq_some_iff.mp h
  obtain ⟨hserved, hs⟩ := Prod.mk.inj hs
  obtain ⟨hlive, hbytes⟩ := Prod.mk.inj hs
  refine ⟨s, LoneClient.run (.start L {}) hrun, hserved, hlive, fun hreplays => ?_⟩
  let clock : ℕ → Moment := fun _ => ⟨0, 0, 0, 0⟩
  have hempty : replayAof H clock [] = runCommands H clock 0 [] :=
    replay_encoded (List.forall_mem_nil _) (by decide)
  have hsame := hreplays clock
  rw [hbytes, hempty] at hsame
  have hnone : (Store.new 1).databases.get 0 0 [97] = .ok none := by decide
  rw [← hsame] at hlive
  cases hnone.symm.trans hlive

/-- A host whose scripts run `SET a 1`. -/
def settingHost : Host := { Host.plain with
  lua := fun _ _ _ => .call (setA.map .string) fun _ => .ret .nil }

/-- Setting a string at once is covered, as long as the listener has the log and there is memory
left. -/
theorem covers_set {env : Env} (k v : Bytes) (hgiven : K.given L = true)
    (hauth : w.ctx.authenticated = true) (hmulti : w.ctx.multiMode = false)
    (hmem : w.store.tables.overMemoryLimit = false) :
    Covers K L IsSet env (asBytes "SET") [k, v] w where
  writes _ := ⟨hgiven, ⟨k, v, rfl⟩, deniesMemory_of_le hmem _⟩
  spares hnot := by
    have hname : upper env (asBytes "SET") = "SET" := upper_name setDef_mem env
    refine absurd ⟨?_, hauth, hmulti⟩ hnot
    rw [hname]
    decide

/-- A read of an idle connection. -/
theorem stepInZero_read (hstatus : s.conn.status = .reading) (hzero : s.conn.ctx.dbIndex = 0)
    (hsub : s.conn.ctx.subMode = false) {chunk : Bytes} (hchunk : chunk ≠ [])
    (hlen : (s.conn.buf ++ chunk).length ≤ maxQueryBuffer) :
    s.stepInZero L H (.read chunk)
      = some { s with
          conn := { s.conn with buf := s.conn.buf ++ chunk, status := .running false } } := by
  rw [Net.stepInZero, Net.step, hstatus]
  dsimp only
  rw [Net.receive, if_neg hchunk, if_neg (by simpa using fun _ => hlen)]
  simp [Net.goto, hsub, hzero]

/-- A turn of the normal loop. -/
theorem stepInZero_turn (hstatus : s.conn.status = .running false) {m : Moment}
    (hzero : (s.normalTurn L (m.on H)).conn.ctx.dbIndex = 0) :
    s.stepInZero L H (.turn m) = some (s.normalTurn L (m.on H)) := by
  rw [Net.stepInZero, Net.step, hstatus]
  simp [hzero]

/-- A client of the plain listener sets a string. -/
theorem log_complete_set : ∃ s : Net, s.conn.served = [setA] ∧
    s.shared.store.databases.get 0 0 [97] = .ok (some [49]) ∧
    ∀ K : Log, ReplaysTo Host.plain 1 (K.bytes s.shared) s.shared.store.databases := by
  let L := Listener.plain none true
  let s₁ : Net := ⟨{ store := ⟨(Store.new 1).databases, {}⟩ },
    { Conn.accept L with buf := [] ++ encodeCommands [setA], status := .running false }⟩
  let s₂ : Net := s₁.normalTurn L (Moment.on ⟨0, 0, 0, 1⟩ Host.plain)
  have hbuf : parseCommand s₁.conn.buf = .ok ([], setA) := by decide +kernel
  have hrun : ∀ K : Log, LoneClient K Host.plain 1 IsSet True L s₂ := by
    intro K
    have hread : LoneClient K Host.plain 1 IsSet True L s₁ :=
      .step (.start L {}) (fun _ => .read (encodeCommands [setA]))
        (stepInZero_read rfl rfl rfl (by decide +kernel) (by decide +kernel))
    refine .step hread (fun _ => .turn ⟨0, 0, 0, 1⟩ (fun _ rest name args h => ?_) fun h => ?_)
      (stepInZero_turn rfl (by decide +kernel))
    · obtain ⟨-, h⟩ := Prod.mk.inj (Except.ok.inj (hbuf.symm.trans h))
      obtain ⟨rfl, rfl⟩ := List.cons.inj h
      exact covers_set [97] [49] (by cases K <;> rfl) rfl rfl rfl
    · cases h
  refine ⟨s₂, by decide +kernel, by decide +kernel, fun K => ?_⟩
  exact log_complete (repeatable_set _ _) (hrun K) (by cases K <;> decide +kernel)

/-- **Four paths past the log**: the queue of a transaction, a script, the loop of subscribe mode,
and a listener without an append-only file. -/
theorem log_misses_writes :
    Repeatable Host.plain 1 IsSet ∧
    (∀ K, Misses K (.plain none true) Host.plain [[asBytes "MULTI"], setA, [asBytes "EXEC"]]) ∧
    (∀ K, Misses K (.plain none true) settingHost [[asBytes "EVAL", [], asBytes "0"]]) ∧
    (∀ K, Misses K (.plain none true) Host.plain [[asBytes "SUBSCRIBE", asBytes "c"], setA]) ∧
    Misses .aof (.tls none) Host.plain [setA] := by
  refine ⟨repeatable_set _ _, fun K => ?_, fun K => ?_, fun K => ?_, ?_⟩
  · refine misses_of_run [.read (encodeCommands [[asBytes "MULTI"], setA, [asBytes "EXEC"]]),
      .turn ⟨0, 0, 0, 1⟩, .turn ⟨0, 0, 0, 1⟩, .turn ⟨0, 0, 0, 1⟩] ?_
    cases K <;> decide +kernel
  · refine misses_of_run [.read (encodeCommands [[asBytes "EVAL", [], asBytes "0"]]),
      .turn ⟨0, 0, 0, 1⟩] ?_
    cases K <;> decide +kernel
  · refine misses_of_run [.read (encodeCommands [[asBytes "SUBSCRIBE", asBytes "c"]]),
      .turn ⟨0, 0, 0, 1⟩, .turn ⟨0, 0, 0, 1⟩, .read (encodeCommands [setA]),
      .turn ⟨0, 0, 0, 1⟩] ?_
    cases K <;> decide +kernel
  · refine misses_of_run [.read (encodeCommands [setA]), .turn ⟨0, 0, 0, 1⟩] ?_
    decide +kernel

end VeloDB
