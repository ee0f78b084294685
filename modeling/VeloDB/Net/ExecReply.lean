import VeloDB.Net.Transactions

/-!
# What `EXEC` answers

`exec` runs the queued commands one after the other and replies with what they have returned. What
the client gets is up to the loop, which looks at the context afterwards: a blocking pop that has
found nothing has left a wait there, and the loop waits instead of writing the reply.

## Main results

* `dispatched_blockState` — what a queue leaves to wait for
* `exec_answers_iff` — when the client gets the replies
-/

namespace VeloDB

open Rust Proc

/-! ### The queue -/

section Queue

variable (dispatch : Dispatch) (env : Env)

/-- The queued commands, dispatched one after the other, have all returned. -/
inductive Dispatched : List (List Bytes) → Whole → List RespValue → Whole → Prop
  | nil (w : Whole) : Dispatched [] w [] w
  | cons {name : Bytes} {args : List Bytes} {queue : List (List Bytes)} {w w₁ w' : Whole}
    {r : RespValue} {rs : List RespValue}
    (h : dispatch (upper env name) args w = (.ok r, w₁)) (hrest : Dispatched queue w₁ rs w') :
    Dispatched ((name :: args) :: queue) w (r :: rs) w'

/-- The name of a queued command. -/
def queuedName (cmd : List Bytes) : String := upper env (cmd.headD [])

/-- A queued command, dispatched. -/
def queueRun (w : Whole) (cmd : List Bytes) : Except Failure RespValue × Whole :=
  dispatch (queuedName env cmd) cmd.tail w

/-- What a queued command leaves behind. -/
def queueNext (w : Whole) (cmd : List Bytes) : Whole := (queueRun dispatch env w cmd).2

variable {dispatch env}

theorem Dispatched.length {queue : List (List Bytes)} {w w' : Whole} {rs : List RespValue}
    (h : Dispatched dispatch env queue w rs w') : rs.length = queue.length := by
  induction h with
  | nil w => rfl
  | cons _ _ ih => rw [List.length_cons, List.length_cons, ih]

theorem execQueue_of_dispatched {queue : List (List Bytes)} {w w' : Whole} {rs : List RespValue}
    (h : Dispatched dispatch env queue w rs w') :
    Cmd.execQueue dispatch env queue w = (.ok rs, w') := by
  induction h with
  | nil w => rfl
  | cons h _ ih =>
    rw [Cmd.execQueue, arg_cons_zero, lift_ok_bind, List.tail_cons, bind_ok h, bind_ok ih]
    rfl

/-- Commands that return have all returned. -/
theorem exists_dispatched {queue : List (List Bytes)} (hqueue : ∀ cmd ∈ queue, cmd ≠ []) {w : Whole}
    (h : Run.Along (queueNext dispatch env)
      (fun w cmd => ∃ r, (queueRun dispatch env w cmd).1 = .ok r) w queue) :
    ∃ rs w', Dispatched dispatch env queue w rs w' := by
  induction queue generalizing w with
  | nil => exact ⟨[], w, .nil w⟩
  | cons cmd queue ih =>
    obtain ⟨⟨r, hr⟩, hrest⟩ := h
    cases cmd with
    | nil => exact absurd rfl (hqueue [] List.mem_cons_self)
    | cons name args =>
      obtain ⟨rs, w', hdispatched⟩ := ih (fun c hc => hqueue c (List.mem_cons_of_mem _ hc)) hrest
      exact ⟨r :: rs, w', .cons (Prod.ext hr rfl) hdispatched⟩

theorem Dispatched.along {queue : List (List Bytes)} {w w' : Whole} {rs : List RespValue}
    (h : Dispatched dispatch env queue w rs w') : Run.Along (queueNext dispatch env)
      (fun w cmd => ∃ r, (queueRun dispatch env w cmd).1 = .ok r) w queue := by
  induction h with
  | nil w => trivial
  | @cons name args queue w w₁ w' r rs h _ ih =>
    have hnext : queueNext dispatch env w (name :: args) = w₁ := by
      rw [queueNext, queueRun]
      exact congrArg Prod.snd h
    exact ⟨⟨r, congrArg Prod.fst h⟩, hnext ▸ ih⟩

end Queue

/-! ### What is left to wait for -/

/-- The queued command is a blocking pop that finds nothing at its keys. -/
def Waits (env : Env) (w : Whole) (cmd : List Bytes) : Prop :=
  (queuedName env cmd = "BLPOP" ∧ Cmd.FindsNothing Keyspace.lpopOne env cmd.tail w) ∨
    queuedName env cmd = "BRPOP" ∧ Cmd.FindsNothing Keyspace.rpopOne env cmd.tail w

/-- What a command that is run by `EXEC` leaves of a context. -/
structure Queued (waits : Prop) (c c' : ClientContext) : Prop where
  multiQueue : c'.multiQueue = []
  protocol : c'.protocol = c.protocol
  blockState : c'.blockState = none ↔ c.blockState = none ∧ ¬waits

/-- A blocking pop, run by another command. -/
theorem queued_blockingPop {c : CommandDef} (hc : c ∈ commands) (harity : c.arity < 0)
    (hdeny : isDenyOomCommand c.name = false)
    {pop : UInt64 → ℕ → Bytes → KeyM (Option Bytes)} {direction : PopDirection}
    (hhandler : c.handler = .whole (Cmd.blockingPop pop direction)) (env : Env) (depth : ℕ)
    (args : List Bytes) {w : Whole} (hw : w.ctx.multiQueue = []) :
    Queued (Cmd.FindsNothing pop env args w) w.ctx
      (dispatchDepth env (depth + 1) c.name args w).2.ctx := by
  have hdenied : w.store.tables.deniesMemory c.name = false :=
    w.store.tables.deniesMemory_of_allowed hdeny
  have hrefused : c.refuses args = false := by
    rw [CommandDef.refuses, decide_eq_false harity.not_gt, Bool.false_and]
  rw [dispatchDepth_eq_entry hc, dispatchEntry_run hdenied hrefused, catchError_snd, hhandler,
    Handler.run]
  rcases Cmd.blockingPop_ctx env args pop direction w with ⟨hwaits, b, h⟩ | ⟨hnot, h⟩
  · rw [h]
    exact ⟨hw, rfl, iff_of_false (Option.some_ne_none b) fun h => h.2 hwaits⟩
  · rw [h]
    exact ⟨hw, rfl, (and_iff_left hnot).symm⟩

/-- `EXEC`, run by another one, finds no queue. -/
theorem exec_nested (dispatch : Dispatch) (env : Env) {w : Whole} (hw : w.ctx.multiQueue = []) :
    (Cmd.exec dispatch env w).2.ctx = w.ctx ∨
      (Cmd.exec dispatch env w).2.ctx = Cmd.takeTransaction w.ctx := by
  rw [Cmd.exec, get_bind]
  split
  · exact Or.inl rfl
  · refine Or.inr ?_
    rw [modify_bind, hw]
    rcases Cmd.checkWatched env.now w.store.databases w.ctx.dbIndex w.ctx.watchedKeys
      w.ctx.watchedVersions with e | _ | _ <;> rfl

/-- **A command that is run by `EXEC`** leaves a wait only if it is a blocking pop that finds
nothing. -/
theorem queued_dispatchDepth (env : Env) (depth : ℕ) (cmd : List Bytes) {w : Whole}
    (hw : w.ctx.multiQueue = []) :
    Queued (Waits env w cmd) w.ctx (queueNext (dispatchDepth env (depth + 1)) env w cmd).ctx := by
  rw [queueNext, queueRun]
  by_cases hblpop : queuedName env cmd = "BLPOP"
  · have hwaits : Waits env w cmd ↔ Cmd.FindsNothing Keyspace.lpopOne env cmd.tail w := by
      simp [Waits, hblpop]
    rw [hblpop, propext hwaits]
    exact queued_blockingPop (c := ⟨"BLPOP", -3, .whole Cmd.blpop⟩)
      (by simp [commands, Cmd.listCommands]) (by decide) (by decide) rfl env depth cmd.tail hw
  by_cases hbrpop : queuedName env cmd = "BRPOP"
  · have hwaits : Waits env w cmd ↔ Cmd.FindsNothing Keyspace.rpopOne env cmd.tail w := by
      simp [Waits, hbrpop]
    rw [hbrpop, propext hwaits]
    exact queued_blockingPop (c := ⟨"BRPOP", -3, .whole Cmd.brpop⟩)
      (by simp [commands, Cmd.listCommands]) (by decide) (by decide) rfl env depth cmd.tail hw
  have hnot : ¬Waits env w cmd := by
    simp [Waits, hblpop, hbrpop]
  by_cases hexec : queuedName env cmd = "EXEC"
  · rw [hexec]
    rcases dispatchDepth_snd env depth "EXEC" cmd.tail w with h | ⟨c, hc, hname, h⟩
    · rw [h]
      exact ⟨hw, rfl, (and_iff_left hnot).symm⟩
    · have hhandler : c.handler = .exec := by
        have hdef : (⟨"EXEC", 1, .exec⟩ : CommandDef) ∈ commands := by
          simp [commands, Cmd.transactionCommands]
        rw [List.inj_on_of_nodup_map nodup_commands hc hdef hname]
      rw [h, hhandler, Handler.run]
      rcases exec_nested (dispatchDepth env depth) env hw with h | h
      · rw [h]
        exact ⟨hw, rfl, (and_iff_left hnot).symm⟩
      · rw [h]
        exact ⟨rfl, rfl, (and_iff_left hnot).symm⟩
  · have hother : queuedName env cmd ∉ otherNames := by
      simp [otherNames, hblpop, hbrpop, hexec]
    have hstep := contextStep_dispatchDepth env (depth + 1) hother cmd.tail w
    refine ⟨hstep.multiQueue hw, hstep.protocol, ?_⟩
    rw [hstep.blockState]
    exact (and_iff_left hnot).symm

/-- **A queue** leaves a wait exactly when there was one already or one of its commands waits. -/
theorem dispatched_queued {env : Env} {depth : ℕ} {queue : List (List Bytes)} {w w' : Whole}
    {rs : List RespValue} (h : Dispatched (dispatchDepth env depth) env queue w rs w')
    (hw : w.ctx.multiQueue = []) : Queued (¬Run.Along (queueNext (dispatchDepth env depth) env)
      (fun w cmd => ¬Waits env w cmd) w queue) w.ctx w'.ctx := by
  induction h with
  | nil w => exact ⟨hw, rfl, (and_iff_left (not_not_intro trivial)).symm⟩
  | @cons name args queue w w₁ w' r rs h _ ih =>
    cases depth with
    | zero => cases congrArg Prod.fst h
    | succ depth =>
      have hnext : queueNext (dispatchDepth env (depth + 1)) env w (name :: args) = w₁ := by
        rw [queueNext, queueRun, queuedName, List.headD_cons, List.tail_cons, h]
      have hone := queued_dispatchDepth env depth (name :: args) hw
      rw [hnext] at hone
      have hrest := ih hone.multiQueue
      refine ⟨hrest.multiQueue, hrest.protocol.trans hone.protocol, ?_⟩
      rw [hrest.blockState, hone.blockState, Run.Along, hnext, not_not, not_not, and_assoc]

/-! ### What the client gets -/

namespace Net

variable {L : Listener} {H : Host} {m : Moment} {n n' : Net} {name rest : Bytes}

/-- The state in which `EXEC` runs the queue. -/
def begun (n : Net) : Whole := { n.whole with ctx := Cmd.takeTransaction n.conn.ctx }

/-- The client gets what the queued commands have returned, one after the other, and nothing comes
in between. -/
structure AnswersQueue (H : Host) (m : Moment) (n n' : Net) : Prop where
  replies : ∃ rs w', Dispatched (dispatchDepth (m.on H) m.nesting) (m.on H) n.conn.ctx.multiQueue
    n.begun rs w' ∧ rs.length = n.conn.ctx.multiQueue.length ∧ n.Answers H n' (.array (some rs))
  status : n'.conn.status = .running false
  blockState : n'.conn.ctx.blockState = none

/-- `EXEC` on the turn of a connection that is inside a transaction, with the watched keys as they
were and a queue that does not lead into subscribe mode. -/
structure Execs (L : Listener) (H : Host) (m : Moment) (n n' : Net) : Prop where
  step : n.step L H (.turn m) = some n'
  status : n.conn.status = .running false
  front : ∃ rest name, parseCommand n.conn.buf = .ok (rest, [name]) ∧ commandName H name = "EXEC"
  multiMode : n.conn.ctx.multiMode = true
  unchanged : Cmd.checkWatched m.now n.shared.store.databases n.conn.ctx.dbIndex
    n.conn.ctx.watchedKeys n.conn.ctx.watchedVersions = .ok true
  subMode : n.conn.ctx.subMode = false
  outside : Run.Along (queueNext (dispatchDepth (m.on H) m.nesting) (m.on H))
    (fun w cmd => (queueNext (dispatchDepth (m.on H) m.nesting) (m.on H) w cmd).ctx.subMode = false)
    n.begun n.conn.ctx.multiQueue

/-- A queue that does not lead into subscribe mode. -/
theorem subMode_of_dispatched {dispatch : Dispatch} {env : Env} {queue : List (List Bytes)}
    {w w' : Whole} {rs : List RespValue} (h : Dispatched dispatch env queue w rs w')
    (hw : w.ctx.subMode = false) (houtside : Run.Along (queueNext dispatch env)
      (fun w cmd => (queueNext dispatch env w cmd).ctx.subMode = false) w queue) :
    w'.ctx.subMode = false := by
  induction h with
  | nil w => exact hw
  | @cons name args queue w w₁ w' r rs h _ ih =>
    have hnext : queueNext dispatch env w (name :: args) = w₁ := congrArg Prod.snd h
    obtain ⟨hone, hrest⟩ := houtside
    rw [hnext] at hone hrest
    exact ih hone hrest

/-- `EXEC` runs its queue and returns the replies. -/
theorem dispatch_exec (env : Env) {w w' : Whole} {rs : List RespValue}
    (hmulti : w.ctx.multiMode = true) (hunchanged : Cmd.checkWatched env.now w.store.databases
      w.ctx.dbIndex w.ctx.watchedKeys w.ctx.watchedVersions = .ok true)
    (h : Dispatched (dispatchDepth env env.nesting) env w.ctx.multiQueue
      { w with ctx := Cmd.takeTransaction w.ctx } rs w') :
    dispatch env "EXEC" [] w = (.ok (.array (some rs)), w') := by
  have hdef : (⟨"EXEC", 1, .exec⟩ : CommandDef) ∈ commands := by
    simp [commands, Cmd.transactionCommands]
  have hexec : Cmd.exec (dispatchDepth env env.nesting) env w = (.ok (.array (some rs)), w') := by
    rw [Cmd.exec, get_bind, hmulti]
    refine (modify_bind _ _ w).trans ?_
    rw [hunchanged, lift_ok_bind, if_pos rfl, bind_ok (execQueue_of_dispatched h)]
    rfl
  have hdenied : w.store.tables.deniesMemory "EXEC" = false := Bool.and_false _
  rw [dispatch_eq_entry hdef, dispatchEntry_run hdenied (refuses_of_length rfl (by decide)),
    catchError, Handler.run, hexec]

/-- The turn that takes `EXEC`, where the queued commands have all returned. -/
theorem Execs.turn (h : n.Execs L H m n') (hauth : n.conn.ctx.authenticated = true) {w' : Whole}
    {rs : List RespValue} (hrs : Dispatched (dispatchDepth (m.on H) m.nesting) (m.on H)
      n.conn.ctx.multiQueue n.begun rs w') :
    (w'.ctx.blockState = none → n.AnswersQueue H m n') ∧
      (w'.ctx.blockState ≠ none → ∃ b id, n'.conn.status = .waiting b id) := by
  obtain ⟨rest, name, hbuf, hname⟩ := h.front
  have hupper : upper (m.on H) name = "EXEC" := hname
  have hturn : n' = n.afterServe [name] rest (serve L (m.on H) name [] n.whole) := by
    have hstep := h.step
    rw [step_turn h.status, normalTurn_of_parse hbuf] at hstep
    exact (Option.some.inj hstep).symm
  have hexecute : execute L (m.on H) (upper (m.on H) name) [] n.whole
      = (.ok (.array (some rs)), w') := by
    rw [execute, hupper, if_neg (by decide)]
    exact dispatch_exec (m.on H) h.multiMode h.unchanged hrs
  have htx : isTransactionCommand (upper (m.on H) name) = true := by
    rw [hupper]
    decide
  have hsub : w'.ctx.subMode = false := subMode_of_dispatched hrs h.subMode h.outside
  have hserve : serve L (m.on H) name [] n.whole = serveDirect L (m.on H) name [] n.whole :=
    serve_transaction hauth htx
  rw [hserve] at hturn
  constructor
  · intro hblock
    rw [serveDirect_answers hexecute fun _ => hblock] at hturn
    rw [hturn]
    exact ⟨⟨rs, w', hrs, hrs.length, rfl⟩, rfl, hblock⟩
  · intro hblock
    rcases serveDirect_cases hexecute with ⟨hnone, -⟩ | ⟨b, hwait⟩
    · exact absurd (hnone hsub) hblock
    · rw [hwait] at hturn
      rw [hturn]
      exact ⟨_, _, rfl⟩

end Net

/-- **`EXEC` answers every queued command** exactly when every one of them returns, none of them is
a blocking pop that finds nothing, and no such pop has left a wait before. -/
theorem exec_answers_iff {L : Listener} {H : Host} {sh : Shared} {es : List SessionEvent}
    {m : Moment} {n n' : Net} (hrun : Run.run (Net.sessionStep L H) ⟨sh, .accept L⟩ es = some n)
    (hexec : n.Execs L H m n') : n.AnswersQueue H m n' ↔ n.conn.ctx.blockState = none ∧
      Run.Along (queueNext (dispatchDepth (m.on H) m.nesting) (m.on H)) (fun w cmd =>
        (∃ r, (queueRun (dispatchDepth (m.on H) m.nesting) (m.on H) w cmd).1 = .ok r) ∧
          ¬Waits (m.on H) w cmd) n.begun n.conn.ctx.multiQueue := by
  have hauth : n.conn.ctx.authenticated = true := by
    refine (Net.guarded_run hrun).ctx.resolve_right fun h => ?_
    rw [hexec.multiMode] at h
    cases h.2
  constructor
  · rintro ⟨⟨rs, w', hrs, -, -⟩, hstatus, -⟩
    have hqueued := dispatched_queued hrs rfl
    have hblock : w'.ctx.blockState = none := by
      by_contra hblock
      obtain ⟨b, id, hwaiting⟩ := (hexec.turn hauth hrs).2 hblock
      cases hstatus.symm.trans hwaiting
    obtain ⟨hbefore, halong⟩ := hqueued.blockState.mp hblock
    exact ⟨hbefore, hrs.along.and (not_not.mp halong)⟩
  · rintro ⟨hbefore, halong⟩
    obtain ⟨rs, w', hrs⟩ := exists_dispatched (context_sound hrun).1.queued
      (halong.mono fun _ _ h => h.1)
    refine (hexec.turn hauth hrs).1 ((dispatched_queued hrs rfl).blockState.mpr ⟨hbefore, ?_⟩)
    exact not_not_intro (halong.mono fun _ _ h => h.2)

/-! ### Two transactions -/

/-- A client that sends `MULTI`, a command and `EXEC` at once. -/
def queued (cmd : List Bytes) : List SessionEvent :=
  [.own (.read (encodeCommands [[asBytes "MULTI"], cmd, [asBytes "EXEC"]])),
    .own (.turn ⟨0, 0, 0, 1⟩), .own (.turn ⟨0, 0, 0, 1⟩)]

/-- The connection in front of `EXEC`, and behind it. -/
def executed (cmd : List Bytes) : Option (Net × Net) :=
  Run.run (Net.sessionStep (.plain none false) Host.plain)
      ⟨{ store := Store.new 1 }, .accept (.plain none false)⟩ (queued cmd) >>= fun n =>
    (n.step (.plain none false) Host.plain (.turn ⟨1, 0, 0, 1⟩)).map fun n' => (n, n')

/-- What is to be seen of a connection in front of `EXEC`. -/
def inFrontOfExec (cmd : List Bytes) (x : Net × Net) : Bool :=
  decide ((parseCommand x.1.conn.buf).toOption = some ([], [asBytes "EXEC"]) ∧
    x.1.conn.ctx = { multiMode := true, multiQueue := [cmd] } ∧
    (queueNext (dispatchDepth (Moment.on ⟨1, 0, 0, 1⟩ Host.plain) 1)
      (Moment.on ⟨1, 0, 0, 1⟩ Host.plain) x.1.begun cmd).ctx.subMode = false)

theorem execs_of_inFront {cmd : List Bytes} {x : Net × Net} (hx : executed cmd = some x)
    (hfront : inFrontOfExec cmd x = true) :
    Run.run (Net.sessionStep (.plain none false) Host.plain)
        ⟨{ store := Store.new 1 }, .accept (.plain none false)⟩ (queued cmd) = some x.1 ∧
      x.1.conn.ctx = { multiMode := true, multiQueue := [cmd] } ∧
      x.1.Execs (.plain none false) Host.plain ⟨1, 0, 0, 1⟩ x.2 := by
  obtain ⟨n, hrun, hrest⟩ := Option.bind_eq_some_iff.mp hx
  obtain ⟨n', hstep, rfl⟩ := Option.map_eq_some_iff.mp hrest
  rw [inFrontOfExec, decide_eq_true_eq] at hfront
  obtain ⟨hparse, hctx, hsub⟩ := hfront
  have hparse' : parseCommand n.conn.buf = .ok ([], [asBytes "EXEC"]) := by
    dsimp only at hparse
    cases h : parseCommand n.conn.buf with
    | error e =>
      rw [h] at hparse
      cases hparse
    | ok r =>
      rw [h, Except.toOption] at hparse
      rw [Option.some.inj hparse]
  have hstatus : n.conn.status = .running false := by
    obtain ⟨sub, hstatus⟩ := Net.status_of_turn hstep
    cases sub with
    | false => exact hstatus
    | true =>
      have hsubscribed := (Net.guarded_run hrun).running hstatus
      rw [hctx] at hsubscribed
      cases hsubscribed
  refine ⟨hrun, hctx, hstep, hstatus, ⟨[], asBytes "EXEC", hparse', by decide⟩, ?_, ?_, ?_, ?_⟩
  · rw [hctx]
  · rw [hctx]
    rfl
  · rw [hctx]
  · rw [hctx]
    exact ⟨hsub, trivial⟩

theorem exec_answers_ping : ∃ n n' : Net, n.conn.ctx.multiQueue = [ping] ∧
    n.AnswersQueue Host.plain ⟨1, 0, 0, 1⟩ n' := by
  have hexecuted : (executed ping).map (fun x => (inFrontOfExec ping x,
      (queueRun (dispatchDepth (Moment.on ⟨1, 0, 0, 1⟩ Host.plain) 1)
        (Moment.on ⟨1, 0, 0, 1⟩ Host.plain) x.1.begun ping).1.toBool)) = some (true, true) := by
    decide +kernel
  obtain ⟨x, hx, hfound⟩ := Option.map_eq_some_iff.mp hexecuted
  obtain ⟨hfront, hreturns⟩ := Prod.mk.inj hfound
  obtain ⟨hrun, hctx, hexecs⟩ := execs_of_inFront hx hfront
  refine ⟨x.1, x.2, by rw [hctx], (exec_answers_iff hrun hexecs).mpr ⟨by rw [hctx], ?_⟩⟩
  rw [hctx]
  refine ⟨⟨?_, ?_⟩, trivial⟩
  · cases hreply : (queueRun (dispatchDepth (Moment.on ⟨1, 0, 0, 1⟩ Host.plain) 1)
      (Moment.on ⟨1, 0, 0, 1⟩ Host.plain) x.1.begun ping).1 with
    | error e =>
      rw [hreply] at hreturns
      cases hreturns
    | ok r => exact ⟨r, rfl⟩
  · have hname : ∀ name ∈ ["BLPOP", "BRPOP"],
        queuedName (Moment.on ⟨1, 0, 0, 1⟩ Host.plain) ping ≠ name := by decide
    rintro (⟨h, -⟩ | ⟨h, -⟩)
    · exact hname _ (by decide) h
    · exact hname _ (by decide) h

/-- **A queued `BLPOP` that finds nothing** keeps the replies of `EXEC` from the client. -/
theorem blpop_displaces_replies : ¬∀ (L : Listener) (H : Host) (sh : Shared)
    (es : List SessionEvent) (m : Moment) (n n' : Net),
    Run.run (Net.sessionStep L H) ⟨sh, .accept L⟩ es = some n → n.Execs L H m n' →
    n.AnswersQueue H m n' := by
  intro hall
  have hexecuted : (executed [asBytes "BLPOP", asBytes "k", asBytes "5"]).map (fun x =>
      (inFrontOfExec [asBytes "BLPOP", asBytes "k", asBytes "5"] x,
        decide (x.2.conn.out = x.1.conn.out))) = some (true, true) := by
    decide +kernel
  obtain ⟨x, hx, hfound⟩ := Option.map_eq_some_iff.mp hexecuted
  obtain ⟨hfront, hout⟩ := Prod.mk.inj hfound
  obtain ⟨hrun, -, hexecs⟩ := execs_of_inFront hx hfront
  obtain ⟨⟨rs, w', -, -, hanswers⟩, -, -⟩ := hall _ _ _ _ _ _ _ hrun hexecs
  rw [Net.Answers, of_decide_eq_true hout] at hanswers
  simp at hanswers

end VeloDB
