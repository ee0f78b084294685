import VeloDB.Net.Connection
import VeloDB.Cmd.ContextSteps

/-!
# One connection among others

A connection goes through `handle` one event at a time, and between two of its events the other
connections may change what they share in any way. Its context is its own: only the commands that it
serves change it.

## Main results

* `Serves`, `moves_serve` — a relation that holds across the commands holds across the loop
* `context_sound` — what holds of every context
-/

namespace VeloDB

open Rust Proc

/-! ### What a connection does besides its commands -/

/-- A relation that does not mind what the normal loop does to a context by itself. -/
structure Serves (R : Whole → Whole → Prop) : Prop where
  authenticate : ∀ w, R w { w with ctx := { w.ctx with authenticated := true } }
  negotiate : ∀ w v, v = 2 ∨ v = 3 → R w { w with ctx := { w.ctx with protocol := v } }
  enqueue : ∀ w cmd, w.ctx.multiMode = true → cmd ≠ [] →
    R w { w with ctx := { w.ctx with multiQueue := w.ctx.multiQueue ++ [cmd] } }
  unblock : ∀ w, R w { w with ctx := { w.ctx with blockState := none } }

section Serve

variable {R : Whole → Whole → Prop} [Std.Refl R] [IsTrans Whole R] (hR : Serves R) {L : Listener}
  {env : Env}

include hR

omit [IsTrans Whole R] in
theorem Serves.checkPassword (password : Bytes) (w : Whole) :
    R w { w with ctx := (checkPassword L password w.ctx).2 } := by
  rw [VeloDB.checkPassword]
  split
  · exact refl_of R w
  · split
    · exact hR.authenticate w
    · exact refl_of R w

omit [IsTrans Whole R] in
theorem Serves.handleAuth (args : List Bytes) (w : Whole) :
    R w { w with ctx := (handleAuth L args w.ctx).2 } := by
  fun_cases VeloDB.handleAuth L args w.ctx with
  | case1 | case2 => exact hR.checkPassword _ w
  | case3 | case4 => exact refl_of R w

theorem Serves.helloOptions (options : List Bytes) (w : Whole) :
    R w { w with ctx := (helloOptions L env options w.ctx).2 } := by
  have hall : ∀ c, R w { w with ctx := c } →
      R w { w with ctx := (VeloDB.helloOptions L env options c).2 } := by
    intro c
    fun_induction VeloDB.helloOptions L env options c with
    | case1 | case2 | case3 | case4 | case8 => exact id
    | case5 opt a b rest c _ r _ =>
      exact fun h => trans_of R h (hR.handleAuth [a, b] { w with ctx := c })
    | case6 opt a b rest c _ r _ ih =>
      exact fun h => ih (trans_of R h (hR.handleAuth [a, b] { w with ctx := c }))
    | case7 opt a b rest c _ _ ih => exact ih
  exact hall w.ctx (refl_of R w)

theorem Serves.handleHello (args : List Bytes) (w : Whole) :
    R w { w with ctx := (handleHello L env args w.ctx).2 } := by
  fun_cases VeloDB.handleHello L env args w.ctx with
  | case1 | case2 | case4 => exact refl_of R w
  | case3 version options v _ hv =>
    exact trans_of R (hR.negotiate w v hv)
      (hR.helloOptions options { w with ctx := { w.ctx with protocol := v } })

/-- **What a command does, its connection does.** -/
theorem moves_serve {name : Bytes} {args : List Bytes}
    (hdispatch : Moves R (dispatch env (upper env name) args)) :
    Moves R (serve L env name args) := by
  intro w
  rw [serve]
  split_ifs with hpsync hauth hhello hlocked hqueued
  · exact refl_of R w
  · exact hR.handleAuth args w
  · exact hR.handleHello args w
  · exact refl_of R w
  · rw [Bool.and_eq_true] at hqueued
    exact hR.enqueue w _ hqueued.1 (List.cons_ne_nil _ _)
  · have hexecute : Moves R (execute L env (upper env name) args) := by
      rw [execute]
      split
      · exact moves_pure _
      · exact hdispatch
    have hdirect : Moves R (serveDirect L env name args) := by
      refine hexecute.bind fun response => moves_get.bind fun w => ?_
      split
      · exact fun w => hR.unblock w
      · exact fun w => refl_of R w
    exact hdirect w

omit hR in
theorem moves_serveSub {name : Bytes} {args : List Bytes}
    (hdispatch : Moves R (dispatch env (upper env name) args)) :
    Moves R (serveSub env name args) :=
  hdispatch.bind fun _ w => refl_of R w

end Serve

/-! ### One event -/

/-- The end of a wait pops for the client and leaves its context alone. -/
theorem ctx_resumeWait (env : Env) (n : Net) (b : BlockState) (id : ℕ) (triggered : Bool) :
    (n.resumeWait env b id triggered).conn.ctx = n.conn.ctx := by
  rw [Net.resumeWait]
  dsimp only
  split
  · rfl
  · next f _ => cases f <;> rfl

/-- What happens to a connection among others. -/
inductive SessionEvent
  | own (e : ConnEvent)
  /-- The other connections have changed what is shared. -/
  | others (sh : Shared)

/-- A connection among others. -/
def Net.sessionStep (L : Listener) (H : Host) (n : Net) : SessionEvent → Option Net
  | .own e => n.step L H e
  | .others sh => some { n with shared := sh }

/-- An event that takes no command. -/
structure Net.Rests (n n' : Net) : Prop where
  ctx : n'.conn.ctx = n.conn.ctx
  served : n'.conn.served = n.conn.served
  databases : n'.shared.store.databases = n.shared.store.databases
  status : n'.conn.status = .reading ∨ n'.conn.status = .running n.conn.ctx.subMode ∨
    n'.conn.status = .closed

/-- The end of a turn of the normal loop that has taken a command. -/
def Net.afterServe (n : Net) (cmd : List Bytes) (rest : Bytes) :
    Except Failure Served × Whole → Net
  | (.ok s, w) => (((n.withWhole w).taken cmd rest).sent s).follow s.outcome
  | (.error f, w) => ((n.withWhole w).taken cmd rest).crash f

/-- The end of a turn of the loop of subscribe mode that has taken a command. -/
def Net.afterServeSub (n : Net) (cmd : List Bytes) (rest : Bytes) :
    Except Failure Served × Whole → Net
  | (.ok s, w) => (((n.withWhole w).taken cmd rest).sent s).goto
      (if w.ctx.subMode then .running true else .reading)
  | (.error f, w) => ((n.withWhole w).taken cmd rest).crash f

/-- How a connection goes on from one of its own events. -/
inductive Net.Goes (L : Listener) (H : Host) (n : Net) : ConnEvent → Net → Prop
  | rests {e : ConnEvent} {n' : Net} (h : n.Rests n') : Goes L H n e n'
  | normal (m : Moment) {name rest : Bytes} {args : List Bytes}
    (hstatus : n.conn.status = .running false)
    (hbuf : parseCommand n.conn.buf = .ok (rest, name :: args)) :
    Goes L H n (.turn m)
      (n.afterServe (name :: args) rest (serve L (m.on H) name args n.whole))
  | sub (m : Moment) {name rest : Bytes} {args : List Bytes}
    (hstatus : n.conn.status = .running true)
    (hbuf : parseCommand n.conn.buf = .ok (rest, name :: args)) :
    Goes L H n (.turn m) (n.afterServeSub (name :: args) rest (serveSub (m.on H) name args n.whole))
  | resumed (m : Moment) {b : BlockState} {id : ℕ} (triggered : Bool)
    (hstatus : n.conn.status = .waiting b id) :
    Goes L H n (.resume m triggered) (n.resumeWait (m.on H) b id triggered)

namespace Net

variable {L : Listener} {H : Host} {n n' : Net}

/-- A read from the socket. -/
theorem rests_receive (n : Net) (chunk : Bytes) : n.Rests (n.receive chunk) := by
  rw [receive]
  dsimp only
  split
  · exact ⟨rfl, rfl, rfl, Or.inr (Or.inr rfl)⟩
  · split
    · exact ⟨rfl, rfl, rfl, Or.inr (Or.inr rfl)⟩
    · exact ⟨rfl, rfl, rfl, Or.inr (Or.inl rfl)⟩

/-- A turn of the inner loop in normal mode. -/
theorem normalTurn_cases (L : Listener) (env : Env) (n : Net) :
    n.Rests (n.normalTurn L env) ∨
      ∃ rest name args, parseCommand n.conn.buf = .ok (rest, name :: args) ∧
        n.normalTurn L env
          = n.afterServe (name :: args) rest (serve L env name args n.whole) := by
  rw [normalTurn]
  split
  · exact Or.inl ⟨rfl, rfl, rfl, Or.inl rfl⟩
  split
  · exact Or.inl ⟨rfl, rfl, rfl, Or.inl rfl⟩
  · next rest name args hbuf =>
    refine Or.inr ⟨rest, name, args, hbuf, ?_⟩
    rcases serve L env name args n.whole with ⟨f | s, w⟩ <;> rfl
  · exact Or.inl ⟨rfl, rfl, rfl, Or.inl rfl⟩
  · exact Or.inl ⟨rfl, rfl, rfl, Or.inr (Or.inr rfl)⟩

/-- A turn of the inner loop in normal mode that takes a command. -/
theorem normalTurn_of_parse {env : Env} {rest name : Bytes} {args : List Bytes}
    (h : parseCommand n.conn.buf = .ok (rest, name :: args)) : n.normalTurn L env
      = n.afterServe (name :: args) rest (serve L env name args n.whole) := by
  have hnil : n.conn.buf ≠ [] := by
    intro hnil
    rw [hnil] at h
    cases h
  rw [normalTurn, if_neg hnil, h]
  dsimp only
  rcases serve L env name args n.whole with ⟨f | s, w⟩ <;> rfl

/-- A turn of the inner loop in subscribe mode. -/
theorem subTurn_cases (env : Env) (n : Net) :
    n.Rests (n.subTurn env) ∨
      ∃ rest name args, parseCommand n.conn.buf = .ok (rest, name :: args) ∧
        n.subTurn env = n.afterServeSub (name :: args) rest (serveSub env name args n.whole) := by
  rw [subTurn]
  split
  · exact Or.inl ⟨rfl, rfl, rfl, Or.inl rfl⟩
  split
  · exact Or.inl ⟨rfl, rfl, rfl, Or.inl rfl⟩
  · next rest name args hbuf =>
    refine Or.inr ⟨rest, name, args, hbuf, ?_⟩
    rcases serveSub env name args n.whole with ⟨f | s, w⟩ <;> rfl
  · exact Or.inl ⟨rfl, rfl, rfl, Or.inl rfl⟩
  · exact Or.inl ⟨rfl, rfl, rfl, Or.inl rfl⟩

/-- **What an event of a connection is.** -/
theorem goes_of_step {e : ConnEvent} (h : n.step L H e = some n') : n.Goes L H e n' := by
  rw [step.eq_def] at h
  cases e with
  | read chunk =>
    dsimp only at h
    split at h
    · obtain rfl := Option.some.inj h
      exact .rests (rests_receive n chunk)
    · cases h
  | turn m =>
    dsimp only at h
    split at h
    · next hstatus =>
      obtain rfl := Option.some.inj h
      rcases normalTurn_cases L (m.on H) n with hrests | ⟨rest, name, args, hbuf, hturn⟩
      · exact .rests hrests
      · rw [hturn]
        exact .normal m hstatus hbuf
    · next hstatus =>
      obtain rfl := Option.some.inj h
      rcases subTurn_cases (m.on H) n with hrests | ⟨rest, name, args, hbuf, hturn⟩
      · exact .rests hrests
      · rw [hturn]
        exact .sub m hstatus hbuf
    · cases h
  | resume m triggered =>
    dsimp only at h
    split at h
    · next b id hstatus =>
      split at h
      · cases h
      · obtain rfl := Option.some.inj h
        exact .resumed m triggered hstatus
    · cases h

/-- Only the two inner loops take turns. -/
theorem status_of_turn {m : Moment} (h : n.step L H (.turn m) = some n') :
    ∃ sub, n.conn.status = .running sub := by
  rw [step.eq_def] at h
  cases hstatus : n.conn.status with
  | running sub => exact ⟨sub, rfl⟩
  | _ =>
    rw [hstatus] at h
    cases h

theorem ctx_afterServe (n : Net) (cmd : List Bytes) (rest : Bytes)
    (r : Except Failure Served × Whole) : (n.afterServe cmd rest r).conn.ctx = r.2.ctx := by
  rcases r with ⟨f | s, w⟩
  · cases f <;> rfl
  · rw [afterServe]
    cases s.outcome <;> rfl

theorem ctx_afterServeSub (n : Net) (cmd : List Bytes) (rest : Bytes)
    (r : Except Failure Served × Whole) : (n.afterServeSub cmd rest r).conn.ctx = r.2.ctx := by
  rcases r with ⟨f | s, w⟩
  · cases f <;> rfl
  · rfl

/-- What a turn that has taken a command has taken. -/
theorem served_afterServe (n : Net) (cmd : List Bytes) (rest : Bytes)
    (r : Except Failure Served × Whole) :
    (n.afterServe cmd rest r).conn.served = n.conn.served ++ [cmd] := by
  rcases r with ⟨f | s, w⟩
  · cases f <;> rfl
  · rw [afterServe]
    cases s.outcome <;> rfl

theorem served_afterServeSub (n : Net) (cmd : List Bytes) (rest : Bytes)
    (r : Except Failure Served × Whole) :
    (n.afterServeSub cmd rest r).conn.served = n.conn.served ++ [cmd] := by
  rcases r with ⟨f | s, w⟩
  · cases f <;> rfl
  · rfl

/-- **Only its commands change the context of a connection.** -/
theorem ctx_sessionStep {P : ClientContext → Prop} {e : SessionEvent}
    (hserve : ∀ env name args w, P w.ctx → P (serve L env name args w).2.ctx)
    (hsub : ∀ env name args w, P w.ctx → P (serveSub env name args w).2.ctx)
    (h : n.sessionStep L H e = some n') (hn : P n.conn.ctx) : P n'.conn.ctx := by
  cases e with
  | others sh =>
    obtain rfl := Option.some.inj h
    exact hn
  | own e =>
    cases goes_of_step h with
    | rests h => rwa [h.ctx]
    | normal m _ _ =>
      rw [ctx_afterServe]
      exact hserve _ _ _ n.whole hn
    | sub m _ _ =>
      rw [ctx_afterServeSub]
      exact hsub _ _ _ n.whole hn
    | resumed m triggered _ => rwa [ctx_resumeWait]

end Net

/-! ### What every context is like -/

theorem serves_sound : Serves (KeepsCtx ClientContext.Sound) where
  authenticate _ hw := hw.authenticate true
  negotiate _ _ hv hw := hw.negotiate hv
  enqueue _ _ hmulti hcmd hw := hw.enqueue hmulti hcmd
  unblock _ hw := hw.block none

theorem sound_accept (L : Listener) : (Conn.accept L).ctx.Sound :=
  ⟨rfl, fun _ => rfl, List.forall_mem_nil _, by simp [Conn.accept], Or.inl rfl⟩

/-- `EXEC` finds a version for every watched key. -/
theorem checkWatched_of_length {keys : List Bytes} {versions : List ℕ}
    (h : keys.length = versions.length) (now : UInt64) (dbs : Databases) (i : ℕ) :
    ∃ b, Cmd.checkWatched now dbs i keys versions = .ok b := by
  induction keys generalizing versions with
  | nil => exact ⟨true, rfl⟩
  | cons key keys ih =>
    cases versions with
    | nil => cases h
    | cons v versions =>
      rw [Cmd.checkWatched]
      cases Cmd.versionOf now dbs i key with
      | none => exact ⟨false, rfl⟩
      | some current =>
        dsimp only
        split
        · exact ⟨false, rfl⟩
        · exact ih (Nat.succ.inj h)

/-- **What every context is like.** After any events of a connection, the other connections going on
between them, the fields of its context belong together, and `EXEC` does not index past the
versions. -/
theorem context_sound {L : Listener} {H : Host} {sh : Shared} {es : List SessionEvent} {n : Net}
    (hrun : Run.run (Net.sessionStep L H) ⟨sh, .accept L⟩ es = some n) :
    n.conn.ctx.Sound ∧ ∀ now dbs, ∃ b, Cmd.checkWatched now dbs n.conn.ctx.dbIndex
      n.conn.ctx.watchedKeys n.conn.ctx.watchedVersions = .ok b := by
  have hdispatch : ∀ env name args, Moves (KeepsCtx ClientContext.Sound) (dispatch env name args) :=
    fun env => sound_dispatchDepth env _
  have hsound : n.conn.ctx.Sound :=
    Run.run_invariant (P := fun _ n => n.conn.ctx.Sound)
      (fun _ _ _ _ hn hstep => Net.ctx_sessionStep
        (fun _ _ args w => moves_serve serves_sound (hdispatch _ _ args) w)
        (fun _ _ args w => moves_serveSub (hdispatch _ _ args) w) hstep hn) []
      (sound_accept L) hrun
  exact ⟨hsound, fun now dbs => checkWatched_of_length hsound.watched now dbs _⟩

/-- A client that sends `MULTI` and `GET k` at once, while another one flushes the store. -/
def queueing : List SessionEvent :=
  [.own (.read (encodeCommandForAof [asBytes "MULTI"] ++
      encodeCommandForAof [asBytes "GET", asBytes "k"])),
    .own (.turn ⟨0, 0, 0, 1⟩), .others { store := Store.new 1 }, .own (.turn ⟨1, 0, 0, 1⟩)]

theorem context_sound_queueing : ∃ n : Net,
    n.conn.ctx.multiQueue = [[asBytes "GET", asBytes "k"]] ∧ n.conn.ctx.Sound ∧
    ∀ now dbs, ∃ b, Cmd.checkWatched now dbs n.conn.ctx.dbIndex n.conn.ctx.watchedKeys
      n.conn.ctx.watchedVersions = .ok b := by
  have hrun : (Run.run (Net.sessionStep (.plain none false) Host.plain)
      ⟨{ store := Store.new 1 }, .accept (.plain none false)⟩ queueing).map
        (fun n => n.conn.ctx.multiQueue) = some [[asBytes "GET", asBytes "k"]] := by
    decide +kernel
  obtain ⟨n, hn, hqueue⟩ := Option.map_eq_some_iff.mp hrun
  exact ⟨n, hqueue, context_sound hn⟩

end VeloDB
