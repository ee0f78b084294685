import VeloDB.Net.Auth
import VeloDB.Net.Sessions
import VeloDB.Cmd.Arity

/-!
# Between `MULTI` and `EXEC`

The normal loop queues the commands of a transaction instead of running them. The loop of subscribe
mode does not look at the transaction, and `PSYNC` is taken before the loop looks at it. So nothing
runs in a transaction as long as the client does not become a replica and the loop of subscribe mode
is not given a command to withhold.

## Main results

* `serve_inTransaction`, `serveSub_inTransaction` — one command inside a transaction
* `nothing_runs` — the transactions in which nothing runs
-/

namespace VeloDB

open Rust Proc

/-! ### What is wanted -/

/-- The commands that are not withheld inside a transaction. -/
def notWithheld : List String := ["EXEC", "DISCARD", "WATCH", "UNWATCH", "MULTI", "AUTH", "HELLO"]

/-- The event has taken a command from the buffer. -/
def Net.Takes (n n' : Net) (cmd : List Bytes) : Prop := n'.conn.served = n.conn.served ++ [cmd]

/-- The event has answered. -/
def Net.Answers (H : Host) (n n' : Net) (v : RespValue) : Prop :=
  n'.conn.out = n.conn.out ++ [serializeResponseProto H v n'.conn.ctx.protocol]

/-- A turn that takes `MULTI` and acknowledges it. -/
structure Net.Opens (L : Listener) (H : Host) (m : Moment) (n n' : Net) : Prop where
  step : n.step L H (.turn m) = some n'
  takes : ∃ name args, commandName H name = "MULTI" ∧ n.Takes n' (name :: args)
  answers : n.Answers H n' .ok

/-- The event withholds the command that it takes, and leaves what is stored as it is. -/
structure Net.Withholds (H : Host) (n n' : Net) : Prop where
  queued : ∀ name args, n.Takes n' (name :: args) → commandName H name ∉ notWithheld →
    n.Answers H n' (.simpleString "QUEUED") ∧ n'.shared = n.shared ∧
      n'.conn.ctx = { n.conn.ctx with multiQueue := n.conn.ctx.multiQueue ++ [name :: args] }
  kept : (∀ name args, n.Takes n' (name :: args) → commandName H name ≠ "EXEC") →
    n'.shared.store.databases = n.shared.store.databases

/-- The next command, if one is taken, does not make a replica of the client, and the loop of
subscribe mode is not given a command to withhold. -/
def Net.Proper (H : Host) (n : Net) : SessionEvent → Prop
  | .own (.turn _) => ∀ rest name args, parseCommand n.conn.buf = .ok (rest, name :: args) →
    commandName H name ≠ "PSYNC" ∧ (n.conn.status = .running true → commandName H name ∈ notWithheld)
  | _ => True

/-- From a `MULTI` that has just been acknowledged, without `EXEC` and `DISCARD`, by events that are
as `P` says. -/
inductive Net.Pending (L : Listener) (H : Host) (P : Net → SessionEvent → Prop) (n₁ : Net) :
    Net → Prop
  | opened : Pending L H P n₁ n₁
  | step {n n' : Net} {e : SessionEvent} (h : Pending L H P n₁ n) (he : P n e)
    (hstep : n.sessionStep L H e = some n')
    (hends : ∀ name args, n.Takes n' (name :: args) → commandName H name ∉ ["EXEC", "DISCARD"]) :
    Pending L H P n₁ n'

/-! ### The commands that are not withheld -/

/-- Inside a transaction, with nothing to wait for outside of subscribe mode. -/
structure InTransaction (c : ClientContext) : Prop where
  multiMode : c.multiMode = true
  authenticated : c.authenticated = true
  blockState : c.subMode = false → c.blockState = none

/-- What becomes of a context inside a transaction; `DISCARD` ends it. -/
structure StaysInside (name : String) (c c' : ClientContext) : Prop where
  subMode : c'.subMode = c.subMode
  blockState : c'.blockState = c.blockState
  authenticated : c'.authenticated = c.authenticated
  multiMode : name ≠ "DISCARD" → c.multiMode = true → c'.multiMode = true

theorem StaysInside.refl (name : String) (c : ClientContext) : StaysInside name c c :=
  ⟨rfl, rfl, rfl, fun _ => id⟩

theorem StaysInside.inTransaction {name : String} {c c' : ClientContext}
    (h : StaysInside name c c') (hname : name ≠ "DISCARD") (hc : InTransaction c) :
    InTransaction c' where
  multiMode := h.multiMode hname hc.multiMode
  authenticated := h.authenticated.trans hc.authenticated
  blockState hsub := h.blockState.trans (hc.blockState (h.subMode ▸ hsub))

/-- A command that only changes the context: it does so, or it is refused. -/
theorem dispatch_onCtx {c : CommandDef} (hc : c ∈ commands)
    {f : Env → Databases → List Bytes → SideM RespValue} (hf : c.handler = .side f) (env : Env)
    (args : List Bytes) (w : Whole) {g : ClientContext → ClientContext} (hrun : ∀ s : Side,
      f env w.store.databases args s = (.ok .ok, { s with ctx := g s.ctx })) :
    (∃ s, dispatch env c.name args w = (.ok (.error s), w)) ∨
      dispatch env c.name args w = (.ok .ok, { w with ctx := g w.ctx }) := by
  rw [dispatch_eq_entry hc]
  cases hdenied : w.store.tables.deniesMemory c.name with
  | true => exact Or.inl ⟨_, dispatchEntry_denied hdenied⟩
  | false =>
    cases hrefused : c.refuses args with
    | true => exact Or.inl ⟨_, dispatchEntry_refused hdenied hrefused⟩
    | false =>
      refine Or.inr ?_
      rw [dispatchEntry_run hdenied hrefused, hf, catchError, Handler.run]
      dsimp only
      rw [hrun ⟨w.store.tables, w.ctx⟩]

/-- `MULTI`. -/
theorem dispatch_multi (env : Env) (args : List Bytes) (w : Whole) :
    (∃ s, dispatch env "MULTI" args w = (.ok (.error s), w)) ∨
      dispatch env "MULTI" args w
        = (.ok .ok, { w with ctx := { w.ctx with multiMode := true, multiQueue := [] } }) :=
  dispatch_onCtx (c := ⟨"MULTI", 1, .side Cmd.multi⟩)
    (by simp [commands, Cmd.transactionCommands]) rfl env args w
    (g := fun c => { c with multiMode := true, multiQueue := [] }) fun _ => rfl

/-- The commands that are not withheld, and `EXEC` apart, store nothing and keep a transaction
open. -/
theorem dispatch_notWithheld (env : Env) {name : String} (hname : name ∈ notWithheld)
    (hexec : name ≠ "EXEC") (args : List Bytes) (w : Whole) :
    ∃ r w', dispatch env name args w = (.ok r, w') ∧ w'.store = w.store ∧
      StaysInside name w.ctx w'.ctx := by
  have hall : ∀ {c : CommandDef} {f : Env → Databases → List Bytes → SideM RespValue}
      (_ : c ∈ commands) (_ : c.handler = .side f) (g : ClientContext → ClientContext)
      (_ : ∀ s : Side, f env w.store.databases args s = (.ok .ok, { s with ctx := g s.ctx }))
      (_ : StaysInside c.name w.ctx (g w.ctx)),
      ∃ r w', dispatch env c.name args w = (.ok r, w') ∧ w'.store = w.store ∧
        StaysInside c.name w.ctx w'.ctx := by
    intro c f hc hf g hrun hstays
    rcases dispatch_onCtx hc hf env args w hrun with ⟨s, h⟩ | h
    · exact ⟨_, _, h, rfl, .refl _ _⟩
    · exact ⟨_, _, h, rfl, hstays⟩
  have hunknown : findCommand name = none → isDenyOomCommand name = false →
      ∃ r w', dispatch env name args w = (.ok r, w') ∧ w'.store = w.store ∧
        StaysInside name w.ctx w'.ctx := by
    intro hnone hdeny
    refine ⟨.error ("ERR unknown command '" ++ env.host.toLowercase name ++ "'"), w, ?_, rfl,
      .refl _ _⟩
    rw [dispatch, dispatchDepth, dispatchWith, hnone, Tables.deniesMemory_of_allowed _ hdeny,
      if_neg Bool.false_ne_true]
  simp only [notWithheld, List.mem_cons, List.not_mem_nil, or_false] at hname
  rcases hname with rfl | rfl | rfl | rfl | rfl | rfl | rfl
  · exact absurd rfl hexec
  · exact hall (c := ⟨"DISCARD", 1, .side Cmd.discard⟩)
      (by simp [commands, Cmd.transactionCommands]) rfl Cmd.takeTransaction (fun _ => rfl)
      ⟨rfl, rfl, rfl, fun h => absurd rfl h⟩
  · refine hall (c := ⟨"WATCH", -2, .side Cmd.watch⟩)
      (by simp [commands, Cmd.transactionCommands]) rfl (fun c => if c.multiMode then c else
        { c with
          watchedKeys := c.watchedKeys ++ args
          watchedVersions := c.watchedVersions ++ args.map fun key =>
            (Cmd.versionOf env.now w.store.databases c.dbIndex key).getD 0 }) (fun _ => rfl) ?_
    dsimp only
    split
    · exact .refl _ _
    · exact ⟨rfl, rfl, rfl, fun _ => id⟩
  · exact hall (c := ⟨"UNWATCH", 1, .side Cmd.unwatch⟩)
      (by simp [commands, Cmd.transactionCommands]) rfl
      (fun c => { c with watchedKeys := [], watchedVersions := [] }) (fun _ => rfl)
      ⟨rfl, rfl, rfl, fun _ => id⟩
  · exact hall (c := ⟨"MULTI", 1, .side Cmd.multi⟩)
      (by simp [commands, Cmd.transactionCommands]) rfl
      (fun c => { c with multiMode := true, multiQueue := [] }) (fun _ => rfl)
      ⟨rfl, rfl, rfl, fun _ _ => rfl⟩
  · exact hunknown rfl (by decide)
  · exact hunknown rfl (by decide)

/-! ### One command -/

section Serve

variable {L : Listener} {env : Env} {name : Bytes} {args : List Bytes} {w : Whole}

/-- **Queueing.** -/
theorem serve_queued (L : Listener) (args : List Bytes) (hc : InTransaction w.ctx)
    (hpsync : upper env name ≠ "PSYNC") (hname : upper env name ∉ notWithheld) :
    serve L env name args w
      = (.ok (said env.host (.simpleString "QUEUED", w.ctx)), { w with ctx := { w.ctx with
          multiQueue := w.ctx.multiQueue ++ [name :: args] } }) := by
  simp only [notWithheld, List.mem_cons, List.not_mem_nil, or_false, not_or] at hname
  have htx : isTransactionCommand (upper env name) = false := by
    simp [isTransactionCommand, hname]
  rw [serve, if_neg hpsync, if_neg hname.2.2.2.2.2.1, if_neg hname.2.2.2.2.2.2, hc.authenticated,
    hc.multiMode, htx]
  rfl

/-- A transaction command gets to the end of the loop body. -/
theorem serve_transaction (hauth : w.ctx.authenticated = true)
    (hname : isTransactionCommand (upper env name) = true) :
    serve L env name args w = serveDirect L env name args w := by
  have hne : ∀ n ∈ ["EXEC", "DISCARD", "WATCH", "UNWATCH", "MULTI"],
      n ≠ "PSYNC" ∧ n ≠ "AUTH" ∧ n ≠ "HELLO" := by decide
  obtain ⟨hpsync, hauth', hhello⟩ := hne _ (of_decide_eq_true hname)
  rw [serve, if_neg hpsync, if_neg hauth', if_neg hhello, hauth, hname]
  simp

theorem serves_inTransaction : Serves (KeepsCtx InTransaction) where
  authenticate _ hc := ⟨hc.1, rfl, hc.3⟩
  negotiate _ _ _ hc := ⟨hc.1, hc.2, hc.3⟩
  enqueue _ _ _ _ hc := ⟨hc.1, hc.2, hc.3⟩
  unblock _ hc := ⟨hc.1, hc.2, fun _ => rfl⟩

/-- **A command that is not withheld**, in the normal loop. -/
theorem serve_inTransaction (L : Listener) (args : List Bytes) (hc : InTransaction w.ctx)
    (hname : upper env name ∈ notWithheld) (hexec : upper env name ≠ "EXEC") :
    ∃ s w', serve L env name args w = (.ok s, w') ∧ s.outcome = .next ∧ w'.store = w.store ∧
      (upper env name ≠ "DISCARD" → InTransaction w'.ctx) := by
  have hpsync : upper env name ≠ "PSYNC" := by
    have hne : ∀ n ∈ notWithheld, n ≠ "PSYNC" := by decide
    exact hne _ hname
  by_cases hauth : upper env name = "AUTH"
  · let r := handleAuth L args w.ctx
    refine ⟨said env.host r, { w with ctx := r.2 }, ?_, rfl, rfl,
      fun _ => serves_inTransaction.handleAuth args w hc⟩
    rw [serve, if_neg hpsync, if_pos hauth]
    rfl
  by_cases hhello : upper env name = "HELLO"
  · let r := handleHello L env args w.ctx
    refine ⟨said env.host r, { w with ctx := r.2 }, ?_, rfl, rfl,
      fun _ => serves_inTransaction.handleHello args w hc⟩
    rw [serve, if_neg hpsync, if_neg hauth, if_pos hhello]
    rfl
  have htx : isTransactionCommand (upper env name) = true := by
    simp only [notWithheld, List.mem_cons, List.not_mem_nil, or_false] at hname
    simpa [isTransactionCommand, hauth, hhello] using hname
  obtain ⟨r, w', hdispatch, hstore, hstays⟩ := dispatch_notWithheld env hname hexec args w
  have hexecute : execute L env (upper env name) args w = (.ok r, w') := by
    have hne : ∀ n ∈ notWithheld, n ≠ "BGREWRITEAOF" := by decide
    rw [execute, if_neg (hne _ hname), hdispatch]
  have hblock : w'.ctx.subMode = false → w'.ctx.blockState = none := fun hsub =>
    hstays.blockState.trans (hc.blockState (hstays.subMode ▸ hsub))
  exact ⟨{ logEntry L env name args with
      reply := some (serializeResponseProto env.host r w'.ctx.protocol) }, w',
    (serve_transaction hc.authenticated htx).trans (serveDirect_answers hexecute hblock), rfl,
    hstore, fun h => hstays.inTransaction h hc⟩

/-- **A command that is not withheld**, in the loop of subscribe mode. -/
theorem serveSub_inTransaction (args : List Bytes) (hc : InTransaction w.ctx)
    (hname : upper env name ∈ notWithheld) (hexec : upper env name ≠ "EXEC") :
    ∃ s w', serveSub env name args w = (.ok s, w') ∧ w'.store = w.store ∧
      (upper env name ≠ "DISCARD" → InTransaction w'.ctx) := by
  obtain ⟨r, w', hdispatch, hstore, hstays⟩ := dispatch_notWithheld env hname hexec args w
  refine ⟨said env.host (r, w'.ctx), w', ?_, hstore, fun h => hstays.inTransaction h hc⟩
  rw [serveSub, Proc.bind_ok hdispatch]
  rfl

end Serve

/-! ### A run -/

/-- A connection inside a transaction. -/
structure Net.Inside (n : Net) : Prop where
  ctx : InTransaction n.conn.ctx
  running : n.conn.status = .running true → n.conn.ctx.subMode = true
  awake : ∀ b id, n.conn.status ≠ .waiting b id

namespace Net

variable {L : Listener} {H : Host} {n n₁ n' : Net}

theorem Rests.running (h : n.Rests n') (hstatus : n'.conn.status = .running true) :
    n'.conn.ctx.subMode = true := by
  rcases h.status with hs | hs | hs <;> rw [hs] at hstatus
  · cases hstatus
  · rw [h.ctx]
    exact Status.running.inj hstatus
  · cases hstatus

/-- A connection that is inside a transaction and waits for its next command. -/
theorem Inside.of_running (hctx : InTransaction n.conn.ctx)
    (hstatus : n.conn.status = .running false) : n.Inside where
  ctx := hctx
  running h := by
    rw [hstatus] at h
    cases h
  awake b id h := by
    rw [hstatus] at h
    cases h

theorem Rests.inside (h : n.Rests n') (hn : n.Inside) : n'.Inside where
  ctx := h.ctx ▸ hn.ctx
  running := h.running
  awake b id hstatus := by
    rcases h.status with hs | hs | hs <;> rw [hs] at hstatus <;> cases hstatus

/-- A turn of the normal loop does not lead into the loop of subscribe mode. -/
theorem status_afterServe (n : Net) (cmd : List Bytes) (rest : Bytes)
    (r : Except Failure Served × Whole) : (n.afterServe cmd rest r).conn.status ≠ .running true := by
  intro h
  rcases r with ⟨f | s, w⟩
  · cases f <;> cases h
  · rw [afterServe] at h
    cases hs : s.outcome <;> rw [hs] at h <;> cases h

/-- The loop of subscribe mode goes on only in subscribe mode. -/
theorem status_afterServeSub (n : Net) (cmd : List Bytes) (rest : Bytes)
    (r : Except Failure Served × Whole)
    (h : (n.afterServeSub cmd rest r).conn.status = .running true) : r.2.ctx.subMode = true := by
  rcases r with ⟨f | s, w⟩
  · cases f <;> cases h
  · have hstatus : (if w.ctx.subMode then Status.running true else .reading) = .running true := h
    by_contra hsub
    rw [if_neg hsub] at hstatus
    cases hstatus

/-- The loop of subscribe mode does not wait. -/
theorem awake_afterServeSub (n : Net) (cmd : List Bytes) (rest : Bytes)
    (r : Except Failure Served × Whole) (b : BlockState) (id : ℕ) :
    (n.afterServeSub cmd rest r).conn.status ≠ .waiting b id := by
  intro h
  rcases r with ⟨f | s, w⟩
  · cases f <;> cases h
  · have hstatus : (if w.ctx.subMode then Status.running true else .reading) = .waiting b id := h
    split at hstatus <;> cases hstatus

/-- The end of a wait does not lead into the loop of subscribe mode. -/
theorem status_resumeWait (env : Env) (n : Net) (b : BlockState) (id : ℕ) (triggered : Bool) :
    (n.resumeWait env b id triggered).conn.status ≠ .running true := by
  intro h
  rw [resumeWait] at h
  dsimp only at h
  split at h
  · cases h
  · next f _ => cases f <;> cases h

theorem takes_iff {cmd cmd' : List Bytes} (h : n'.conn.served = n.conn.served ++ [cmd]) :
    n.Takes n' cmd' ↔ cmd' = cmd := by
  rw [Takes, h, List.append_cancel_left_eq, List.singleton_inj, eq_comm]

/-- An event that takes `EXEC` is not withheld. -/
theorem withholds_of_exec {name : Bytes} {args : List Bytes}
    (h : n'.conn.served = n.conn.served ++ [name :: args]) (hexec : commandName H name = "EXEC") :
    n.Withholds H n' where
  queued name' args' htakes hname := by
    obtain ⟨rfl, -⟩ := List.cons.inj ((takes_iff h).mp htakes)
    exact absurd (hexec ▸ List.mem_cons_self) hname
  kept hnot := absurd hexec (hnot name args h)

/-- An event that takes a command that is not withheld and stores nothing. -/
theorem withholds_of_kept {name : Bytes} {args : List Bytes}
    (h : n'.conn.served = n.conn.served ++ [name :: args]) (hname : commandName H name ∈ notWithheld)
    (hstore : n'.shared.store.databases = n.shared.store.databases) : n.Withholds H n' where
  queued name' args' htakes hnot := by
    obtain ⟨rfl, -⟩ := List.cons.inj ((takes_iff h).mp htakes)
    exact absurd hname hnot
  kept _ := hstore

/-- **Inside a transaction**, an event of the connection withholds its command, and leaves the
transaction only with `EXEC` or `DISCARD`. -/
theorem Goes.inside {e : ConnEvent} (h : n.Goes L H e n') (hn : n.Inside)
    (hproper : n.Proper H (.own e)) :
    n.Withholds H n' ∧ ((∀ name args, n.Takes n' (name :: args) →
      commandName H name ∉ ["EXEC", "DISCARD"]) → n'.Inside) := by
  cases h with
  | rests h =>
    have hnot : ∀ cmd, ¬n.Takes n' cmd := by
      intro cmd htakes
      rw [Takes, h.served] at htakes
      simp at htakes
    exact ⟨⟨fun _ _ htakes => absurd htakes (hnot _), fun _ => h.databases⟩,
      fun _ => h.inside hn⟩
  | @normal m name rest args hstatus hbuf =>
    obtain ⟨hpsync, -⟩ := hproper rest name args hbuf
    have hserved := served_afterServe n (name :: args) rest (serve L (m.on H) name args n.whole)
    by_cases hexec : commandName H name = "EXEC"
    · refine ⟨withholds_of_exec hserved hexec, fun hends => ?_⟩
      exact absurd (hexec ▸ List.mem_cons_self) (hends name args hserved)
    by_cases hname : commandName H name ∈ notWithheld
    · have hupper : upper (m.on H) name ∈ notWithheld := hname
      obtain ⟨s, w, hserve, hnext, hstore, hctx⟩ :=
        serve_inTransaction L args (w := n.whole) hn.ctx hupper hexec
      rw [hserve] at hserved ⊢
      rw [afterServe, hnext] at hserved ⊢
      refine ⟨withholds_of_kept hserved hname (congrArg Store.databases hstore), fun hends => ?_⟩
      refine .of_running (hctx fun hdiscard => hends name args hserved ?_) rfl
      exact List.mem_cons_of_mem _ (List.mem_singleton.mpr hdiscard)
    · have hpsync' : upper (m.on H) name ≠ "PSYNC" := hpsync
      have hserve := serve_queued L args (w := n.whole) hn.ctx hpsync' hname
      rw [hserve] at hserved ⊢
      refine ⟨⟨fun name' args' htakes _ => ?_, fun _ => rfl⟩, fun _ => ?_⟩
      · obtain ⟨rfl, rfl⟩ := List.cons.inj ((takes_iff hserved).mp htakes)
        refine ⟨rfl, ?_, rfl⟩
        show ({ n.shared with
          aof := n.shared.aof ++ [], pushed := n.shared.pushed ++ [] } : Shared) = n.shared
        rw [List.append_nil, List.append_nil]
      · exact .of_running ⟨hn.ctx.1, hn.ctx.2, hn.ctx.3⟩ rfl
  | @sub m name rest args hstatus hbuf =>
    have hname := (hproper rest name args hbuf).2 hstatus
    have hserved := served_afterServeSub n (name :: args) rest
      (serveSub (m.on H) name args n.whole)
    by_cases hexec : commandName H name = "EXEC"
    · refine ⟨withholds_of_exec hserved hexec, fun hends => ?_⟩
      exact absurd (hexec ▸ List.mem_cons_self) (hends name args hserved)
    have hupper : upper (m.on H) name ∈ notWithheld := hname
    obtain ⟨s, w, hserve, hstore, hctx⟩ :=
      serveSub_inTransaction args (w := n.whole) hn.ctx hupper hexec
    rw [hserve] at hserved ⊢
    refine ⟨withholds_of_kept hserved hname (congrArg Store.databases hstore), fun hends => ?_⟩
    refine ⟨hctx fun hdiscard => hends name args hserved ?_, status_afterServeSub n _ rest (.ok s, w),
      awake_afterServeSub n _ rest (.ok s, w)⟩
    exact List.mem_cons_of_mem _ (List.mem_singleton.mpr hdiscard)
  | resumed m triggered hstatus => exact absurd hstatus (hn.awake _ _)

/-- **Until `EXEC` or `DISCARD`** a connection stays inside. -/
theorem Pending.inside (h : Net.Pending L H (Net.Proper H) n₁ n) (hn₁ : n₁.Inside) : n.Inside := by
  induction h with
  | opened => exact hn₁
  | @step n n' e _ he hstep hends ih =>
    cases e with
    | own e => exact ((goes_of_step hstep).inside ih he).2 hends
    | others sh =>
      obtain rfl := Option.some.inj hstep
      exact ⟨ih.ctx, ih.running, ih.awake⟩

end Net

/-! ### How a transaction is opened -/

/-- Only a client that has given the password is in subscribe mode or inside a transaction. -/
def ClientContext.Guarded (c : ClientContext) : Prop :=
  c.authenticated = true ∨ c.subMode = false ∧ c.multiMode = false

/-- What holds of a connection between two events. -/
structure Net.Guarded (n : Net) : Prop where
  ctx : n.conn.ctx.Guarded
  running : n.conn.status = .running true → n.conn.ctx.subMode = true

theorem Net.Guarded.authenticated {n : Net} (hn : n.Guarded) (hsub : n.conn.ctx.subMode = true) :
    n.conn.ctx.authenticated = true := by
  refine hn.ctx.resolve_right fun h => ?_
  rw [hsub] at h
  cases h.1

theorem keepsCtx_authenticated (env : Env) (name : String) (args : List Bytes) :
    Moves (KeepsCtx (ClientContext.authenticated · = true)) (dispatch env name args) :=
  keepsCtx_dispatchDepth (fun _ _ h hc => h.authenticated.trans hc) (fun _ _ hc => hc) env _ name
    args

theorem serves_authenticated : Serves (KeepsCtx (ClientContext.authenticated · = true)) where
  authenticate _ _ := rfl
  negotiate _ _ _ hc := hc
  enqueue _ _ _ _ hc := hc
  unblock _ hc := hc

section Guarded

variable {L : Listener} {env : Env} {name : Bytes} {args : List Bytes}

theorem serve_guarded {w : Whole} (hw : w.ctx.Guarded) :
    (serve L env name args w).2.ctx.Guarded := by
  cases hauth : w.ctx.authenticated with
  | true =>
    exact Or.inl (moves_serve serves_authenticated (keepsCtx_authenticated env _ args) w hauth)
  | false =>
    have hmodes : w.ctx.subMode = false ∧ w.ctx.multiMode = false :=
      hw.resolve_left (by simp [hauth])
    have hserves : Serves (KeepsCtx ClientContext.Guarded) :=
      ⟨fun _ _ => Or.inl rfl, fun _ _ _ hc => hc, fun _ _ _ _ hc => hc, fun _ hc => hc⟩
    rw [serve, hmodes.2]
    split_ifs with hpsync hauth' hhello hlocked hqueued
    · exact hw
    · exact hserves.handleAuth args w hw
    · exact hserves.handleHello args w hw
    · exact hw
    · cases hqueued
    · -- what needs no password looks at nothing
      have hexempt : isAuthExempt (upper env name) = true := by simpa [hauth] using hlocked
      have hname : upper env name ∈ ["PING", "QUIT", "RESET"] := by
        simpa [isAuthExempt, hauth', hhello] using hexempt
      obtain ⟨r, hr⟩ := dispatch_exempt env hname args
      have hexecute : execute L env (upper env name) args w = (.ok r, w) := by
        have hne : ∀ n ∈ ["PING", "QUIT", "RESET"], n ≠ "BGREWRITEAOF" := by decide
        rw [execute, if_neg (hne _ hname), hr]
      obtain ⟨b, hsnd⟩ := serveDirect_snd L env name args w
      rw [hsnd, hexecute]
      exact hw

theorem serveSub_authenticated {w : Whole} (hw : w.ctx.authenticated = true) :
    (serveSub env name args w).2.ctx.authenticated = true :=
  moves_serveSub (keepsCtx_authenticated env _ args) w hw

end Guarded

namespace Net

variable {L : Listener} {H : Host} {n n' : Net}

theorem Goes.guarded {e : ConnEvent} (h : n.Goes L H e n') (hn : n.Guarded) : n'.Guarded := by
  cases h with
  | rests h => exact ⟨h.ctx ▸ hn.ctx, h.running⟩
  | normal m _ _ =>
    refine ⟨?_, fun hrunning => absurd hrunning (status_afterServe n _ _ _)⟩
    rw [ctx_afterServe]
    exact serve_guarded hn.ctx
  | sub m hstatus _ =>
    have hauth := hn.authenticated (hn.running hstatus)
    refine ⟨Or.inl ?_, fun hrunning => ?_⟩
    · rw [ctx_afterServeSub]
      exact serveSub_authenticated hauth
    · rw [ctx_afterServeSub]
      exact status_afterServeSub n _ _ _ hrunning
  | resumed m triggered _ =>
    refine ⟨?_, fun hrunning => absurd hrunning (status_resumeWait _ n _ _ _)⟩
    rw [ctx_resumeWait]
    exact hn.ctx

/-- **Between two events** of any run. -/
theorem guarded_run {es : List SessionEvent} {sh : Shared}
    (h : Run.run (Net.sessionStep L H) ⟨sh, .accept L⟩ es = some n) : n.Guarded := by
  refine Run.run_invariant (P := fun _ n => n.Guarded) (fun _ n e n' hn hstep => ?_) []
    ⟨?_, nofun⟩ h
  · cases e with
    | own e => exact (goes_of_step hstep).guarded hn
    | others sh =>
      obtain rfl := Option.some.inj hstep
      exact ⟨hn.ctx, hn.running⟩
  · exact Or.inr ⟨rfl, rfl⟩

theorem out_afterServe (n : Net) (cmd : List Bytes) (rest : Bytes) (s : Served) (w : Whole) :
    (n.afterServe cmd rest (.ok s, w)).conn.out = n.conn.out ++ s.reply.toList := by
  rw [afterServe]
  cases s.outcome <;> rfl

theorem not_answers_crash (n : Net) (cmd : List Bytes) (rest : Bytes) (f : Failure) (w : Whole)
    (v : RespValue) : ¬n.Answers H (((n.withWhole w).taken cmd rest).crash f) v := by
  intro h
  have hsame : (((n.withWhole w).taken cmd rest).crash f).conn.out = n.conn.out := by
    cases f <;> rfl
  rw [Answers, hsame] at h
  simp at h

/-- An answer is the reply of the command. -/
theorem reply_of_answers {s : Served} {v : RespValue} (h : n.Answers H n' v)
    (hout : n'.conn.out = n.conn.out ++ s.reply.toList) :
    s.reply = some (serializeResponseProto H v n'.conn.ctx.protocol) := by
  rw [Answers, hout, List.append_cancel_left_eq] at h
  cases hreply : s.reply with
  | none =>
    rw [hreply] at h
    cases h
  | some b =>
    rw [hreply] at h
    exact congrArg some (List.singleton_inj.mp h)

end Net

/-- An error is not an acknowledgement. -/
theorem error_ne_ok (H : Host) (s : String) (p p' : ℕ) :
    serializeResponseProto H (.error s) p ≠ serializeResponseProto H .ok p' := by
  intro h
  have hhead : (45 : UInt8) = 43 := (List.cons.inj h).1
  cases hhead

section Opening

variable {L : Listener} {env : Env} {name : Bytes} {args : List Bytes} {w w' : Whole} {s : Served}

/-- **An acknowledged `MULTI`** of the normal loop. -/
theorem serve_opens (hname : upper env name = "MULTI")
    (hserve : serve L env name args w = (.ok s, w'))
    (hreply : s.reply = some (serializeResponseProto env.host .ok w'.ctx.protocol)) :
    InTransaction w'.ctx ∧ s.outcome = .next := by
  have hauth : w.ctx.authenticated = true := by
    by_contra hnot
    have hrefused : serve L env name args w
        = (.ok (said env.host (.error "NOAUTH Authentication required.", w.ctx)), w) := by
      have hlocked : (!w.ctx.authenticated && !isAuthExempt (upper env name)) = true := by
        rw [hname, Bool.eq_false_iff.mpr hnot]
        decide
      rw [serve, if_neg (by simp [hname]), if_neg (by simp [hname]), if_neg (by simp [hname]),
        if_pos hlocked]
      rfl
    obtain ⟨hs, -⟩ := Prod.mk.inj (hrefused.symm.trans hserve)
    rw [← Except.ok.inj hs] at hreply
    exact error_ne_ok _ _ _ _ (Option.some.inj hreply)
  have htx : isTransactionCommand (upper env name) = true := by
    rw [hname]
    decide
  rw [serve_transaction hauth htx] at hserve
  have hexecute : execute L env (upper env name) args w = dispatch env "MULTI" args w := by
    rw [execute, hname, if_neg (by decide)]
  rcases dispatch_multi env args w with ⟨msg, h⟩ | h
  · rcases serveDirect_cases (hexecute.trans h) with ⟨-, hdirect⟩ | ⟨b, hdirect⟩
    · obtain ⟨hs, -⟩ := Prod.mk.inj (hdirect.symm.trans hserve)
      rw [← Except.ok.inj hs] at hreply
      exact (error_ne_ok _ _ _ _ (Option.some.inj hreply)).elim
    · obtain ⟨hs, -⟩ := Prod.mk.inj (hdirect.symm.trans hserve)
      rw [← Except.ok.inj hs] at hreply
      cases hreply
  · rcases serveDirect_cases (hexecute.trans h) with ⟨hblock, hdirect⟩ | ⟨b, hdirect⟩
    · obtain ⟨hs, rfl⟩ := Prod.mk.inj (hdirect.symm.trans hserve)
      exact ⟨⟨rfl, hauth, hblock⟩, by rw [← Except.ok.inj hs]; rfl⟩
    · obtain ⟨hs, -⟩ := Prod.mk.inj (hdirect.symm.trans hserve)
      rw [← Except.ok.inj hs] at hreply
      cases hreply

/-- **An acknowledged `MULTI`** of the loop of subscribe mode. -/
theorem serveSub_opens (hname : upper env name = "MULTI") (hauth : w.ctx.authenticated = true)
    (hsub : w.ctx.subMode = true) (hserve : serveSub env name args w = (.ok s, w'))
    (hreply : s.reply = some (serializeResponseProto env.host .ok w'.ctx.protocol)) :
    InTransaction w'.ctx := by
  rw [serveSub, hname] at hserve
  rcases dispatch_multi env args w with ⟨msg, h⟩ | h
  · rw [Proc.bind_ok h] at hserve
    obtain ⟨hs, -⟩ := Prod.mk.inj hserve
    rw [← Except.ok.inj hs] at hreply
    exact (error_ne_ok _ _ _ _ (Option.some.inj hreply)).elim
  · rw [Proc.bind_ok h] at hserve
    obtain ⟨-, rfl⟩ := Prod.mk.inj hserve
    refine ⟨rfl, hauth, fun h => ?_⟩
    cases hsub.symm.trans h

end Opening

namespace Net

variable {L : Listener} {H : Host} {n₀ n₁ n n' : Net}

theorem Opens.inside {m : Moment} (h : n₀.Opens L H m n₁) (hn : n₀.Guarded) : n₁.Inside := by
  obtain ⟨hstep, ⟨name, args, hname, htakes⟩, hanswers⟩ := h
  have hupper : upper (m.on H) name = "MULTI" := hname
  cases goes_of_step hstep with
  | rests h =>
    rw [Takes, h.served] at htakes
    simp at htakes
  | @normal _ name' rest args' hstatus hbuf =>
    have hserved := served_afterServe n₀ (name' :: args') rest
      (serve L (m.on H) name' args' n₀.whole)
    obtain ⟨rfl, rfl⟩ := List.cons.inj ((takes_iff hserved).mp htakes)
    rcases hserve : serve L (m.on H) name args n₀.whole with ⟨f | s, w⟩
    · rw [hserve] at hanswers
      exact (not_answers_crash n₀ _ _ _ _ _ hanswers).elim
    · rw [hserve] at hanswers
      have hreply := reply_of_answers hanswers (out_afterServe n₀ _ rest s w)
      rw [ctx_afterServe] at hreply
      obtain ⟨hctx, hnext⟩ := serve_opens hupper hserve hreply
      rw [afterServe, hnext]
      exact .of_running hctx rfl
  | @sub _ name' rest args' hstatus hbuf =>
    have hserved := served_afterServeSub n₀ (name' :: args') rest
      (serveSub (m.on H) name' args' n₀.whole)
    obtain ⟨rfl, rfl⟩ := List.cons.inj ((takes_iff hserved).mp htakes)
    have hsub := hn.running hstatus
    have hauth : n₀.conn.ctx.authenticated = true := hn.authenticated hsub
    rcases hserve : serveSub (m.on H) name args n₀.whole with ⟨f | s, w⟩
    · rw [hserve] at hanswers
      exact (not_answers_crash n₀ _ _ _ _ _ hanswers).elim
    · rw [hserve] at hanswers
      refine ⟨serveSub_opens hupper hauth hsub hserve (reply_of_answers hanswers rfl),
        status_afterServeSub n₀ _ _ (.ok s, w), awake_afterServeSub n₀ _ _ (.ok s, w)⟩

end Net

/-- **Nothing runs between `MULTI` and `EXEC`.** In any run of a connection among others, from the
moment a `MULTI` is acknowledged and until `EXEC` or `DISCARD`, every event of the connection
withholds the command that it takes, if the commands so far have made no replica of the client and
the loop of subscribe mode has been given none to withhold. -/
theorem nothing_runs {L : Listener} {H : Host} {sh : Shared} {es : List SessionEvent} {m : Moment}
    {e : ConnEvent} {n₀ n₁ n n' : Net}
    (hrun : Run.run (Net.sessionStep L H) ⟨sh, .accept L⟩ es = some n₀)
    (hopens : n₀.Opens L H m n₁) (hpending : Net.Pending L H (Net.Proper H) n₁ n)
    (hproper : n.Proper H (.own e)) (hstep : n.step L H e = some n') : n.Withholds H n' :=
  ((Net.goes_of_step hstep).inside (hpending.inside (hopens.inside (Net.guarded_run hrun)))
    hproper).1

/-! ### Two clients -/

/-- `MULTI` and `SET k v`. -/
def multiSet : Bytes := encodeCommands [[asBytes "MULTI"], setCommand (asBytes "k") (asBytes "v")]

/-- A client that sends them at once. -/
def opening : List SessionEvent := [.own (.read multiSet)]

/-- A client that sends them in subscribe mode. -/
def openingSubscribed : List SessionEvent :=
  [.own (.read (encodeCommands [[asBytes "SUBSCRIBE", asBytes "c"]])), .own (.turn ⟨0, 0, 0, 1⟩),
    .own (.turn ⟨0, 0, 0, 1⟩), .own (.read multiSet)]

/-- What a client gets that takes its two commands after these events. -/
def opened (es : List SessionEvent) : Option (Net × Net × Net) :=
  Run.run (Net.sessionStep (.plain none false) Host.plain)
      ⟨{ store := Store.new 1 }, .accept (.plain none false)⟩ es >>= fun n₀ =>
    n₀.step (.plain none false) Host.plain (.turn ⟨1, 0, 0, 1⟩) >>= fun n₁ =>
      (n₁.step (.plain none false) Host.plain (.turn ⟨2, 0, 0, 1⟩)).map fun n' => (n₀, n₁, n')

/-- The two commands have been taken, and the first one acknowledged. -/
def acknowledges (x : Net × Net × Net) : Bool :=
  decide (x.2.1.conn.served = x.1.conn.served ++ [[asBytes "MULTI"]] ∧
    x.2.1.conn.out = x.1.conn.out ++ [serializeResponseProto Host.plain .ok
      x.2.1.conn.ctx.protocol] ∧
    x.2.2.conn.served = x.2.1.conn.served ++ [setCommand (asBytes "k") (asBytes "v")])

/-- The nets that a client goes through. -/
theorem opens_of_acknowledges {es : List SessionEvent} {x : Net × Net × Net}
    (hx : opened es = some x) (hack : acknowledges x = true) :
    Run.run (Net.sessionStep (.plain none false) Host.plain)
        ⟨{ store := Store.new 1 }, .accept (.plain none false)⟩ es = some x.1 ∧
      x.1.Opens (.plain none false) Host.plain ⟨1, 0, 0, 1⟩ x.2.1 ∧
      x.2.1.step (.plain none false) Host.plain (.turn ⟨2, 0, 0, 1⟩) = some x.2.2 ∧
      x.2.1.Takes x.2.2 (setCommand (asBytes "k") (asBytes "v")) := by
  obtain ⟨n₀, hrun, hrest⟩ := Option.bind_eq_some_iff.mp hx
  obtain ⟨n₁, hmulti, hrest⟩ := Option.bind_eq_some_iff.mp hrest
  obtain ⟨n', hset, rfl⟩ := Option.map_eq_some_iff.mp hrest
  obtain ⟨htakes, hanswers, hset'⟩ := of_decide_eq_true hack
  exact ⟨hrun, ⟨hmulti, ⟨_, _, by decide +kernel, htakes⟩, hanswers⟩, hset, hset'⟩

theorem nothing_runs_opening : ∃ n n' : Net,
    n.Takes n' (setCommand (asBytes "k") (asBytes "v")) ∧ n.Withholds Host.plain n' := by
  have hopened : (opened opening).map (fun x => (acknowledges x, x.2.1.conn.ctx.subMode,
      decide ((parseCommand x.2.1.conn.buf).toOption
        = some ([], setCommand (asBytes "k") (asBytes "v"))))) = some (true, false, true) := by
    decide +kernel
  obtain ⟨x, hx, hfound⟩ := Option.map_eq_some_iff.mp hopened
  obtain ⟨hack, hfound⟩ := Prod.mk.inj hfound
  obtain ⟨hsub, hparse⟩ := Prod.mk.inj hfound
  obtain ⟨hrun, hopens, hset, htakes⟩ := opens_of_acknowledges hx hack
  have hproper : x.2.1.Proper Host.plain (.own (.turn ⟨2, 0, 0, 1⟩)) := by
    intro rest name args hbuf
    have hcmd := of_decide_eq_true hparse
    rw [hbuf, Except.toOption] at hcmd
    obtain ⟨rfl, -⟩ := List.cons.inj (Prod.mk.inj (Option.some.inj hcmd)).2
    refine ⟨by decide, fun hstatus => ?_⟩
    rw [(hopens.inside (Net.guarded_run hrun)).running hstatus] at hsub
    cases hsub
  exact ⟨x.2.1, x.2.2, htakes, nothing_runs hrun hopens .opened hproper hset⟩

/-- **In subscribe mode `SET` runs** after an acknowledged `MULTI`. -/
theorem set_runs_in_transaction : ¬∀ (L : Listener) (H : Host) (sh : Shared)
    (es : List SessionEvent) (m : Moment) (e : ConnEvent) (n₀ n₁ n n' : Net),
    Run.run (Net.sessionStep L H) ⟨sh, .accept L⟩ es = some n₀ → n₀.Opens L H m n₁ →
    Net.Pending L H (fun _ _ => True) n₁ n → n.step L H e = some n' → n.Withholds H n' := by
  intro hall
  have hopened : (opened openingSubscribed).map (fun x => (acknowledges x,
      (x.2.1.shared.store.databases.find 0 (asBytes "k")).isSome,
      (x.2.2.shared.store.databases.find 0 (asBytes "k")).isSome)) = some (true, false, true) := by
    decide +kernel
  obtain ⟨x, hx, hfound⟩ := Option.map_eq_some_iff.mp hopened
  obtain ⟨hack, hfound⟩ := Prod.mk.inj hfound
  obtain ⟨hbefore, hafter⟩ := Prod.mk.inj hfound
  obtain ⟨hrun, hopens, hset, htakes⟩ := opens_of_acknowledges hx hack
  have hkept := (hall _ _ _ _ _ _ _ _ _ _ hrun hopens .opened hset).kept fun name args h => ?_
  · rw [hkept, hbefore] at hafter
    cases hafter
  · obtain ⟨rfl, -⟩ := List.cons.inj ((Net.takes_iff htakes).mp h)
    decide

end VeloDB
