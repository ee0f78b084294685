import VeloDB.Net.Chunking
import VeloDB.Replication.Replica

/-!
# Connections without a password

With a password set, a connection that has not given it is answered from its own context alone: it
neither reads nor changes what the connections share. The one command that escapes is `PSYNC`, which
the loop intercepts before it looks at the authentication, and whose full resync sends a snapshot
of the store.

## Main results

* `serve_locked` — one command of a connection without a password
* `drain_locked`, `feedAll_locked` — a whole input
* `unauthenticated_blind_iff` — when the bytes sent back do not depend on the store
-/

namespace VeloDB

open Rust Nom

/-! ### What an input contains -/

/-- The commands that the loop takes from a buffer, and the buffer it then waits with; no buffer
when it ends the connection instead. -/
def scan : ℕ → Bytes → List (List Bytes) × Option Bytes
  | 0, buf => ([], some buf)
  | fuel + 1, buf =>
    if buf = [] then ([], some [])
    else match parseCommand buf with
      | .ok (_, []) => ([], some buf)
      | .ok (remaining, name :: args) =>
        let r := scan fuel remaining
        ((name :: args) :: r.1, r.2)
      | .error .incomplete => ([], some buf)
      | .error _ => ([], none)

/-- The commands in successive reads. -/
def requests : Bytes → List Bytes → List (List Bytes)
  | _, [] => []
  | buf, chunk :: chunks =>
    if chunk = [] ∨ maxQueryBuffer < (buf ++ chunk).length then []
    else
      let r := scan ((buf ++ chunk).length + 1) (buf ++ chunk)
      r.1 ++ match r.2 with
        | some buf' => requests buf' chunks
        | none => []

section Offers

variable (H : Host)

/-- The name under which a command is looked up. -/
def commandName (name : Bytes) : String := H.toUppercase (fromUtf8Lossy name)

/-- The passwords in the options of `HELLO`. -/
def helloPasswords : List Bytes → List Bytes
  | opt :: _ :: password :: rest =>
    if commandName H opt = "AUTH" then password :: helloPasswords rest
    else if commandName H opt = "SETNAME" then helloPasswords (password :: rest)
    else []
  | _ => []

/-- The password in the arguments of `AUTH`. -/
def authPasswords : List Bytes → List Bytes
  | [password] => [password]
  | [_, password] => [password]
  | _ => []

/-- The passwords that a command gives. -/
def passwords : List Bytes → List Bytes
  | name :: args =>
    if commandName H name = "AUTH" then authPasswords args
    else if commandName H name = "HELLO" then helloPasswords H args.tail
    else []
  | [] => []

/-- The arguments of the first `PSYNC`. -/
def firstPsync : List (List Bytes) → Option (List Bytes)
  | [] => none
  | [] :: cmds => firstPsync cmds
  | (name :: args) :: cmds => if commandName H name = "PSYNC" then some args else firstPsync cmds

end Offers

/-! ### What a replica is sent -/

/-- What `handle_psync` writes before it forwards the writes of others, when nothing is pushed
meanwhile. -/
def psyncWrites (replid : String) (bl : ReplBacklog) (now : UInt64) (dbs : Databases)
    (args : List Bytes) : List Bytes :=
  if isPartial replid bl args then
    match bl.readFrom (requestedOffset args).toNat with
    | some [] => [continueReply]
    | some catchUp => [continueReply, catchUp]
    | none => []
  else
    fullResyncReply replid bl.globalOffset :: match saveRdb now dbs dbs.length with
      | .ok rdb => rdbLengthLine rdb :: rdb :: match bl.readFrom bl.globalOffset with
        | some [] => []
        | some gap => [gap]
        | none => []
      | .error _ => []

/-- One action of a replica that is served while nothing else happens. -/
def actAlone (replid : String) (x : ReplBacklog × Channel × Session) (a : Act) :
    Option (ReplBacklog × Channel × Session) :=
  x.2.2.act replid x.1 0 x.2.1 a

/-- **`psyncWrites` is what the session writes** until it forwards its channel. -/
theorem psyncWrites_session {replid : String} {bl : ReplBacklog} {st : Bytes} (hbl : bl.Good st)
    (args : List Bytes) {now : UInt64} {dbs : Databases} {rdb : Bytes}
    (hsave : saveRdb now dbs dbs.length = .ok rdb) :
    ∃ acts, Run.run (actAlone replid) (bl, {}, {}) (.psync args :: acts)
      = some ((bl.registerReplica 0).2, {}, { phase := .live, replicaId := bl.nextReplicaId
                                              writes := psyncWrites replid bl now dbs args }) := by
  have hstart : actAlone replid (bl, {}, {}) (.psync args)
      = some ((bl.registerReplica 0).2, {}, _) :=
    Option.bind_eq_some_iff.mpr ⟨_, startPsync_eq hbl args, rfl⟩
  by_cases hp : isPartial replid bl args = true
  · have hread := isPartial_iff.mp hp
    rw [hbl.offset] at hread
    rw [psyncWrites, if_pos hp, hbl.readFrom hread.2.2.2 (by omega)]
    rw [if_pos hp] at hstart
    cases hcatch : st.drop (requestedOffset args).toNat with
    | nil =>
      rw [hcatch] at hstart
      refine ⟨[.write], ?_⟩
      rw [Run.run_cons, hstart]
      rfl
    | cons b bs =>
      rw [hcatch] at hstart
      refine ⟨[.write, .write], ?_⟩
      rw [Run.run_cons, hstart]
      rfl
  · have hgap : bl.readFrom bl.globalOffset = some [] := by
      rw [hbl.offset, hbl.readFrom le_rfl (Nat.le_add_right _ _), List.drop_length]
    rw [psyncWrites, if_neg hp, hsave, hgap]
    rw [if_neg hp, ← hbl.offset] at hstart
    refine ⟨[.write, .save rdb, .write, .write, .readGap], ?_⟩
    rw [Run.run_cons, hstart]
    show (bl.readFrom bl.globalOffset >>= _) >>= _ = _
    rw [hgap]
    rfl

/-- The arguments with which a connection was handed over to `handle_psync`. -/
def Status.psyncArgs : Status → Option (List Bytes)
  | .replica args => some args
  | _ => none

/-- All that a connection has been sent, `handle_psync` included. -/
def Net.output (L : Listener) (replid : String) (bl : ReplBacklog) (now : UInt64) (n : Net) :
    List Bytes :=
  n.conn.out ++ match n.conn.status.psyncArgs with
    | some args =>
      if L.replBacklog then psyncWrites replid bl now n.shared.store.databases args else []
    | none => []

/-! ### One command -/

/-- A context that has not been authenticated, nor changed otherwise. -/
structure Locked (c : ClientContext) : Prop where
  authenticated : c.authenticated = false
  blockState : c.blockState = none
  subMode : c.subMode = false
  multiMode : c.multiMode = false
  pubsubRx : c.pubsubRx = none

variable {L : Listener} {H : Host} {pw : String}

theorem upper_on (m : Moment) (H : Host) (a : Bytes) : upper (m.on H) a = commandName H a := rfl

theorem checkPassword_locked (hpw : L.requirepass = some pw) {password : Bytes}
    (hne : password ≠ asBytes pw) (c : ClientContext) :
    (checkPassword L password c).2 = c := by
  rw [checkPassword, hpw]
  dsimp only
  rw [if_neg fun h => hne h.symm]

theorem handleAuth_locked (hpw : L.requirepass = some pw) {a b : Bytes} (hne : b ≠ asBytes pw)
    (c : ClientContext) : (handleAuth L [a, b] c).2 = c := by
  rw [handleAuth]
  split
  · exact checkPassword_locked hpw hne c
  · rfl

theorem helloOptions_locked (hpw : L.requirepass = some pw) (m : Moment) {options : List Bytes}
    (hno : asBytes pw ∉ helloPasswords H options) (c : ClientContext) :
    (helloOptions L (m.on H) options c).2 = c := by
  -- the induction follows the recursion of the options, which skips two or three of them
  induction options using helloPasswords.induct H generalizing c with
  | case1 opt a b rest hauth ih =>
    rw [helloPasswords, if_pos hauth, List.mem_cons, not_or] at hno
    have hc := handleAuth_locked hpw (a := a) (fun h => hno.1 h.symm) c
    rw [helloOptions, upper_on, if_pos hauth]
    dsimp only
    split
    · exact hc
    · rw [hc]
      exact ih hno.2 c
  | case2 opt a b rest hauth hname ih =>
    rw [helloPasswords, if_neg hauth, if_pos hname] at hno
    rw [helloOptions, upper_on, if_neg hauth, if_pos hname]
    exact ih hno c
  | case3 opt a b rest hauth hname =>
    rw [helloOptions, upper_on, if_neg hauth, if_neg hname]
  | case4 options hshort =>
    match options, hshort with
    | [], _ => rfl
    | [_], _ => rfl
    | [opt, _], _ =>
      rw [helloOptions]
      split <;> rfl
    | opt :: a :: b :: rest, hshort => exact absurd rfl (hshort opt a b rest)

theorem handleHello_locked (hpw : L.requirepass = some pw) (m : Moment) {args : List Bytes}
    (hno : asBytes pw ∉ helloPasswords H args.tail) {c : ClientContext} (hc : Locked c) :
    Locked (handleHello L (m.on H) args c).2 := by
  cases args with
  | nil => exact hc
  | cons version options =>
    rw [handleHello]
    dsimp only
    split
    · exact hc
    · split
      · dsimp only
        rw [List.tail_cons] at hno
        rw [helloOptions_locked hpw m hno]
        exact ⟨hc.1, hc.2, hc.3, hc.4, hc.5⟩
      · exact hc

/-- The commands that need no password and go to the table look at nothing. -/
theorem dispatch_exempt (env : Env) {name : String} (hname : name ∈ ["PING", "QUIT", "RESET"])
    (args : List Bytes) : ∃ r, ∀ w, dispatch env name args w = (.ok r, w) := by
  have hmem : ∀ t : Tables, t.deniesMemory name = false := by
    intro t
    have hoom : isDenyOomCommand name = false := by
      have : ∀ n ∈ ["PING", "QUIT", "RESET"], isDenyOomCommand n = false := by decide
      exact this name hname
    exact t.deniesMemory_of_allowed hoom
  have hunknown : findCommand name = none →
      ∃ r, ∀ w, dispatch env name args w = (.ok r, w) := by
    intro hnone
    refine ⟨.error ("ERR unknown command '" ++ env.host.toLowercase name ++ "'"), fun w => ?_⟩
    rw [dispatch, dispatchDepth, dispatchWith, hmem, hnone, if_neg Bool.false_ne_true]
  rcases List.mem_cons.mp hname with rfl | hrest
  · have hfind : findCommand "PING" = some ⟨"PING", -1, .read Cmd.ping⟩ :=
      findCommand_of_mem (c := ⟨"PING", -1, .read Cmd.ping⟩)
        (by simp [commands, Cmd.serverCommands])
    have hrun : ∀ w, dispatch env "PING" args w
        = catchError (Handler.run (dispatchDepth env env.nesting) env args (.read Cmd.ping)) w := by
      intro w
      rw [dispatch, dispatchDepth, dispatchWith, hmem, hfind, if_neg Bool.false_ne_true]
      rfl
    cases args with
    | nil => exact ⟨.pong, hrun⟩
    | cons a args => exact ⟨.bulk a, hrun⟩
  · apply hunknown
    rcases List.mem_cons.mp hrest with rfl | hrest
    · rfl
    · rw [List.mem_singleton.mp hrest]
      rfl

/-- A reply, under the protocol of the context it comes with. -/
def said (H : Host) (r : RespValue × ClientContext) : Served where
  reply := some (serializeResponseProto H r.1 r.2.protocol)

/-- **One command without a password.** The reply comes from the context alone. -/
theorem serve_locked (hpw : L.requirepass = some pw) (m : Moment) {name : Bytes} {args : List Bytes}
    (hno : asBytes pw ∉ passwords H (name :: args)) {c : ClientContext} (hc : Locked c) :
    ∃ s c', Locked c' ∧ s.logged = [] ∧ s.pushed = [] ∧
      s.outcome = (if commandName H name = "PSYNC" then .psync args else .next) ∧
      ∀ store, serve L (m.on H) name args ⟨store, c⟩ = (.ok s, ⟨store, c'⟩) := by
  by_cases hpsync : commandName H name = "PSYNC"
  · refine ⟨{ outcome := .psync args }, c, hc, rfl, rfl, (if_pos hpsync).symm, fun store => ?_⟩
    rw [serve, upper_on, if_pos hpsync]
  rw [if_neg hpsync]
  by_cases hauth : commandName H name = "AUTH"
  · have hctx : (handleAuth L args c).2 = c := by
      rw [passwords, if_pos hauth] at hno
      match args, hno with
      | [], _ => rfl
      | [_], hno => exact checkPassword_locked hpw (fun h => hno (List.mem_singleton.mpr h.symm)) c
      | [_, _], hno => exact handleAuth_locked hpw (fun h => hno (List.mem_singleton.mpr h.symm)) c
      | _ :: _ :: _ :: _, _ => rfl
    refine ⟨said H (handleAuth L args c), _, hctx.symm ▸ hc, rfl, rfl, rfl, fun store => ?_⟩
    rw [serve, upper_on, if_neg hpsync, if_pos hauth]
    rfl
  by_cases hhello : commandName H name = "HELLO"
  · rw [passwords, if_neg hauth, if_pos hhello] at hno
    refine ⟨said H (handleHello L (m.on H) args c), _, handleHello_locked hpw m hno hc, rfl, rfl,
      rfl, fun store => ?_⟩
    rw [serve, upper_on, if_neg hpsync, if_neg hauth, if_pos hhello]
    rfl
  by_cases hexempt : isAuthExempt (commandName H name) = true
  · -- what is exempt besides `AUTH` and `HELLO` goes to the table
    have hname : commandName H name ∈ ["PING", "QUIT", "RESET"] := by
      have := of_decide_eq_true hexempt
      simpa [hauth, hhello] using this
    have hnot : isWriteCommand (commandName H name) = false ∧
        commandName H name ≠ "BGREWRITEAOF" := by
      have : ∀ n ∈ ["PING", "QUIT", "RESET"], isWriteCommand n = false ∧ n ≠ "BGREWRITEAOF" := by
        decide
      exact this _ hname
    obtain ⟨r, hr⟩ := dispatch_exempt (m.on H) hname args
    have hentry : logEntry L (m.on H) name args = {} := by
      simp [logEntry, upper_on, hnot]
    refine ⟨said H (r, c), c, hc, rfl, rfl, rfl, fun store => ?_⟩
    · rw [serve, upper_on, if_neg hpsync, if_neg hauth, if_neg hhello, hc.authenticated, hexempt,
        hc.multiMode, serveDirect, execute, upper_on, if_neg hnot.2]
      rw [if_neg (by simp), if_neg (by simp), Proc.bind_ok (hr _), Proc.get_bind]
      dsimp only
      rw [hc.subMode, hc.blockState, hentry]
      rfl
  · refine ⟨said H (.error "NOAUTH Authentication required.", c), c, hc, rfl, rfl, rfl,
      fun store => ?_⟩
    rw [serve, upper_on, if_neg hpsync, if_neg hauth, if_neg hhello, hc.authenticated,
      if_pos (by simpa using hexempt)]
    rfl

/-! ### A whole input -/

variable {clock : ℕ → Moment}

theorem close_locked {n : Net} (hc : Locked n.conn.ctx) : n.close = n.goto .closed := by
  rw [Net.close, Tables.dropReceiver, hc.pubsubRx]
  rfl

/-- What has become of a connection when its buffer has been worked off. -/
def Halted (H : Host) (r : List (List Bytes) × Option Bytes) (c : Conn) : Prop :=
  match firstPsync H r.1, r.2 with
  | some args, _ => c.status = .replica args
  | none, some buf => c.status = .reading ∧ c.buf = buf ∧ Locked c.ctx
  | none, none => c.status = .closed

/-- One turn of the inner loop, for every state of what is shared at once. -/
theorem normalTurn_locked (hpw : L.requirepass = some pw) (m : Moment) {c : Conn}
    (hc : Locked c.ctx) {name : Bytes} {args : List Bytes} {remaining : Bytes}
    (hbuf : c.buf ≠ []) (hparse : parseCommand c.buf = .ok (remaining, name :: args))
    (hno : asBytes pw ∉ passwords H (name :: args)) :
    ∃ c', (∀ sh, Net.normalTurn L (m.on H) ⟨sh, c⟩ = ⟨sh, c'⟩) ∧ Locked c'.ctx ∧
      c'.buf = remaining ∧
      c'.status = if commandName H name = "PSYNC" then .replica args else .running false := by
  obtain ⟨s, ctx, hctx, hlogged, hpushed, hout, hserve⟩ := serve_locked hpw m hno hc
  refine ⟨{ ctx, buf := remaining,
            status := if commandName H name = "PSYNC" then .replica args else .running false,
            out := c.out ++ s.reply.toList, served := c.served ++ [name :: args] },
    fun sh => ?_, hctx, rfl, rfl⟩
  have hwhole : Net.whole ⟨sh, c⟩ = ⟨sh.store, c.ctx⟩ := rfl
  rw [Net.normalTurn, if_neg hbuf, hparse]
  dsimp only
  rw [hwhole, hserve]
  dsimp only
  rw [hout, Net.sent, hlogged, hpushed, List.append_nil, List.append_nil]
  split <;> rfl

variable (clock) in
/-- **The inner loop without a password** neither reads nor changes what is shared. The induction
is on the fuel, which the loop and the scan spend together. -/
theorem drain_locked (hpw : L.requirepass = some pw) {fuel : ℕ} {c : Conn}
    (hfuel : c.buf.length < fuel) (hrun : c.status = .running false) (hc : Locked c.ctx)
    (hno : ∀ cmd ∈ (scan fuel c.buf).1, asBytes pw ∉ passwords H cmd) :
    ∃ c', (∀ sh, Net.drain L H clock fuel ⟨sh, c⟩ = ⟨sh, c'⟩) ∧
      Halted H (scan fuel c.buf) c' := by
  induction fuel generalizing c with
  | zero => exact absurd hfuel (Nat.not_lt_zero _)
  | succ fuel ih =>
    have hdrain : ∀ sh, Net.drain L H clock (fuel + 1) ⟨sh, c⟩
        = (Net.normalTurn L ((clock c.served.length).on H) ⟨sh, c⟩).drain L H clock fuel :=
      fun sh => drain_succ (step_turn hrun _)
    -- waiting for the next read with the buffer as it is
    have hwait : ∀ buf, c.buf = buf →
        (∀ sh, Net.normalTurn L ((clock c.served.length).on H) ⟨sh, c⟩
          = Net.goto ⟨sh, c⟩ .reading) →
        ∃ c', (∀ sh, Net.drain L H clock (fuel + 1) ⟨sh, c⟩ = ⟨sh, c'⟩) ∧
          Halted H ([], some buf) c' := by
      intro buf hbuf hturn
      refine ⟨{ c with status := .reading }, fun sh => ?_, rfl, hbuf, hc⟩
      rw [hdrain, hturn]
      exact drain_halted (fun _ h => by cases h) fuel
    rw [scan] at hno ⊢
    by_cases hnil : c.buf = []
    · rw [if_pos hnil]
      exact hwait [] hnil fun sh => by rw [Net.normalTurn, if_pos hnil]
    rw [if_neg hnil] at hno ⊢
    rcases hparse : parseCommand c.buf with e | ⟨remaining, _ | ⟨name, args⟩⟩
    · have herr := complete_parseCommand hparse
      subst herr
      refine ⟨{ c with
        status := .closed
        out := c.out ++ [serializeResponseProto H (.error "ERR protocol error") c.ctx.protocol] },
        fun sh => ?_, rfl⟩
      rw [hdrain, Net.normalTurn, if_neg hnil, hparse]
      dsimp only
      rw [close_locked hc]
      exact drain_halted (fun _ h => by cases h) fuel
    · exact hwait c.buf rfl fun sh => by rw [Net.normalTurn, if_neg hnil, hparse]
    · rw [hparse] at hno
      dsimp only at hno ⊢
      obtain ⟨c₁, hturn, hc₁, hbuf₁, hst₁⟩ := normalTurn_locked hpw (clock c.served.length) hc hnil
        hparse (hno _ List.mem_cons_self)
      by_cases hpsync : commandName H name = "PSYNC"
      · rw [if_pos hpsync] at hst₁
        refine ⟨c₁, fun sh => ?_, ?_⟩
        · rw [hdrain, hturn]
          exact drain_halted (fun sub h => by rw [hst₁] at h; cases h) fuel
        · rw [Halted, firstPsync, if_pos hpsync]
          exact hst₁
      · rw [if_neg hpsync] at hst₁
        have hlt := consumes_parseCommand hparse
        obtain ⟨c', hc', hend⟩ := ih (c := c₁) (by rw [hbuf₁]; omega) hst₁ hc₁
          (fun cmd hcmd => hno cmd (List.mem_cons_of_mem _ (hbuf₁ ▸ hcmd)))
        refine ⟨c', fun sh => ?_, ?_⟩
        · rw [hdrain, hturn, hc']
        · rw [Halted, firstPsync, if_neg hpsync]
          rwa [hbuf₁] at hend

theorem firstPsync_append (cmds cmds' : List (List Bytes)) :
    firstPsync H (cmds ++ cmds') = (firstPsync H cmds).or (firstPsync H cmds') := by
  induction cmds with
  | nil => rfl
  | cons cmd cmds ih =>
    cases cmd with
    | nil => exact ih
    | cons name args =>
      rw [List.cons_append, firstPsync, firstPsync, ih]
      split <;> rfl

variable (clock) in
/-- **A whole input without a password.** The connection ends up in the same place whatever is
shared, and leaves it as it was; it is handed over exactly when a `PSYNC` is reached. -/
theorem feedAll_locked (hpw : L.requirepass = some pw) {chunks : List Bytes} {c : Conn}
    (hread : c.status = .reading) (hc : Locked c.ctx)
    (hno : ∀ cmd ∈ requests c.buf chunks, asBytes pw ∉ passwords H cmd) :
    ∃ c', (∀ sh, Net.feedAll L H clock ⟨sh, c⟩ chunks = ⟨sh, c'⟩) ∧
      c'.status.psyncArgs = firstPsync H (requests c.buf chunks) := by
  induction chunks generalizing c with
  | nil => exact ⟨c, fun sh => rfl, by rw [hread]; rfl⟩
  | cons chunk chunks ih =>
    have hfeedAll : ∀ sh, Net.feedAll L H clock ⟨sh, c⟩ (chunk :: chunks)
        = (Net.feed L H clock ⟨sh, c⟩ chunk).feedAll L H clock chunks := fun sh => rfl
    have hfeed : ∀ sh, Net.feed L H clock ⟨sh, c⟩ chunk
        = (Net.receive ⟨sh, c⟩ chunk).drain L H clock
            ((Net.receive ⟨sh, c⟩ chunk).conn.buf.length + 1) := by
      intro sh
      have hstep : Net.step L H ⟨sh, c⟩ (.read chunk) = some (Net.receive ⟨sh, c⟩ chunk) := by
        rw [Net.step, hread]
      rw [Net.feed, hstep]
    rw [requests] at hno ⊢
    by_cases hend : chunk = [] ∨ maxQueryBuffer < (c.buf ++ chunk).length
    · -- the end of the stream, or too much of it
      rw [if_pos hend]
      refine ⟨{ c with status := .closed, buf := if chunk = [] then c.buf else c.buf ++ chunk },
        fun sh => ?_, rfl⟩
      have hrecv : Net.receive ⟨sh, c⟩ chunk = ⟨sh, { c with
          status := .closed, buf := if chunk = [] then c.buf else c.buf ++ chunk }⟩ := by
        rw [Net.receive, hc.subMode]
        by_cases hchunk : chunk = []
        · rw [if_pos hchunk, if_pos hchunk, close_locked hc]
          rfl
        · rw [if_neg hchunk, if_neg hchunk, if_pos (by simpa [hchunk] using hend)]
          exact close_locked hc
      rw [hfeedAll, hfeed, hrecv, drain_halted (fun _ h => by cases h),
        feedAll_ended (fun h => by cases h)]
    · rw [if_neg hend] at hno ⊢
      dsimp only at hno ⊢
      have hrecv : ∀ sh, Net.receive ⟨sh, c⟩ chunk = ⟨sh, { c with
          status := .running false, buf := c.buf ++ chunk }⟩ := by
        intro sh
        rw [Net.receive, hc.subMode, if_neg fun h => hend (Or.inl h),
          if_neg (by simpa using fun h => hend (Or.inr h))]
        rfl
      obtain ⟨c₁, hdrain, hhalt⟩ := drain_locked clock hpw
        (c := { c with status := .running false, buf := c.buf ++ chunk })
        (Nat.lt_succ_self _) rfl hc (fun cmd hcmd => hno cmd (List.mem_append_left _ hcmd))
      have hfeed₁ : ∀ sh, Net.feed L H clock ⟨sh, c⟩ chunk = ⟨sh, c₁⟩ := by
        intro sh
        rw [hfeed, hrecv]
        exact hdrain sh
      have hfeedAll₁ : ∀ sh, Net.feedAll L H clock ⟨sh, c⟩ (chunk :: chunks)
          = Net.feedAll L H clock ⟨sh, c₁⟩ chunks := by
        intro sh
        rw [hfeedAll, hfeed₁]
      have hended : c₁.status ≠ .reading →
          ∀ sh, Net.feedAll L H clock ⟨sh, c⟩ (chunk :: chunks) = ⟨sh, c₁⟩ := by
        intro hst sh
        rw [hfeedAll₁]
        exact feedAll_ended hst chunks
      rw [firstPsync_append]
      dsimp only at hhalt
      rw [Halted] at hhalt
      split at hhalt
      · next hfirst =>
        rw [hfirst]
        exact ⟨c₁, hended (fun h => by cases hhalt.symm.trans h), by rw [hhalt]; rfl⟩
      · next buf hfirst hbuf =>
        obtain ⟨hst, rfl, hlocked⟩ := hhalt
        rw [hfirst, hbuf, Option.none_or]
        rw [hbuf] at hno
        obtain ⟨c', hc', hst'⟩ :=
          ih hst hlocked fun cmd hcmd => hno cmd (List.mem_append_right _ hcmd)
        exact ⟨c', fun sh => (hfeedAll₁ sh).trans (hc' sh), hst'⟩
      · next hfirst hbuf =>
        rw [hfirst, hbuf]
        exact ⟨c₁, hended (fun h => by cases hhalt.symm.trans h), by rw [hhalt]; rfl⟩

/-! ### When nothing leaks -/

theorem locked_accept (hpw : L.requirepass = some pw) : Locked (Conn.accept L).ctx where
  authenticated := by
    show L.requirepass.isNone = false
    rw [hpw]
    rfl
  blockState := rfl
  subMode := rfl
  multiMode := rfl
  pubsubRx := rfl

/-- A partial resync sends what the backlog holds, whatever the store is. -/
theorem psyncWrites_partial {replid : String} {bl : ReplBacklog} {args : List Bytes}
    (h : isPartial replid bl args = true) (now : UInt64) (dbs dbs' : Databases) :
    psyncWrites replid bl now dbs args = psyncWrites replid bl now dbs' args := by
  rw [psyncWrites, psyncWrites, if_pos h, if_pos h]

/-- A full resync sends two different snapshots to two different stores. -/
theorem psyncWrites_full {replid : String} {bl : ReplBacklog} {args : List Bytes}
    (h : isPartial replid bl args = false) (now : UInt64) {dbs dbs' : Databases} {rdb rdb' : Bytes}
    (hsave : saveRdb now dbs dbs.length = .ok rdb) (hsave' : saveRdb now dbs' dbs'.length = .ok rdb')
    (heq : psyncWrites replid bl now dbs args = psyncWrites replid bl now dbs' args) :
    rdb = rdb' := by
  rw [psyncWrites, psyncWrites, h, if_neg Bool.false_ne_true, if_neg Bool.false_ne_true, hsave,
    hsave'] at heq
  exact (List.cons.inj (List.cons.inj (List.cons.inj heq).2).2).1

/-- **When the bytes sent back do not depend on the store.** With a password set, and for an input
that does not give it: for every two stores the connection is sent the same bytes, and leaves them
as they are, if and only if the input reaches no `PSYNC` that is served by a full resync. -/
theorem unauthenticated_blind_iff (hpw : L.requirepass = some pw) {chunks : List Bytes}
    (hno : ∀ cmd ∈ requests [] chunks, asBytes pw ∉ passwords H cmd) (replid : String)
    (bl : ReplBacklog) (now : UInt64) :
    (∀ s s' : Store,
      (Net.feedAll L H clock ⟨{ store := s }, .accept L⟩ chunks).output L replid bl now
        = (Net.feedAll L H clock ⟨{ store := s' }, .accept L⟩ chunks).output L replid bl now ∧
      (Net.feedAll L H clock ⟨{ store := s }, .accept L⟩ chunks).shared.store = s ∧
      (Net.feedAll L H clock ⟨{ store := s' }, .accept L⟩ chunks).shared.store = s') ↔
    ¬(L.replBacklog = true ∧
      ∃ args, firstPsync H (requests [] chunks) = some args ∧ isPartial replid bl args = false) := by
  obtain ⟨c, hfeed, hargs⟩ := feedAll_locked clock hpw (c := .accept L) rfl
    (locked_accept hpw) hno
  simp only [hfeed, Net.output]
  rw [hargs]
  constructor
  · rintro h ⟨hbl, args, hfirst, hfull⟩
    have heq := (h ⟨[∅], {}⟩ ⟨[oneKey [107] [118]], {}⟩).1
    rw [show requests (Conn.accept L).buf chunks = requests [] chunks from rfl, hfirst] at heq
    dsimp only at heq
    rw [if_pos hbl, if_pos hbl] at heq
    have hrdb := psyncWrites_full hfull now rfl rfl (List.append_cancel_left heq)
    have hlen := congrArg List.length hrdb
    rw [show Databases.live now ∅ = [] from rfl, show Databases.live now (oneKey [107] [118])
      = [([107], { value := .string [118] })] from rfl] at hlen
    exact absurd hlen (by decide)
  · intro h s s'
    refine ⟨?_, trivial, trivial⟩
    rw [show requests (Conn.accept L).buf chunks = requests [] chunks from rfl]
    cases hfirst : firstPsync H (requests [] chunks) with
    | none => rfl
    | some args =>
      dsimp only
      by_cases hbl : L.replBacklog = true
      · have hpartial : isPartial replid bl args = true := by
          by_contra hfull
          exact h ⟨hbl, args, hfirst, by simpa using hfull⟩
        rw [if_pos hbl, if_pos hbl, psyncWrites_partial hpartial]
      · rw [if_neg hbl, if_neg hbl]

/-- A listener with a password. -/
def guarded : Listener := .plain (some "secret") false

/-- What an input is answered when the one key of the store has the value `v`. -/
def guardedOutput (v : String) (chunks : List Bytes) : List Bytes :=
  (Net.feedAll guarded Host.plain stopped
    ⟨{ store := ⟨[oneKey (asBytes "k") (asBytes v)], {}⟩ }, .accept guarded⟩ chunks).output
      guarded "id" (.new 16) 0

/-- A wrong password, `GET`, `PING` and a broken request are answered alike. -/
theorem unauthenticated_blind_get :
    let chunks : List Bytes :=
      [encodeCommands [[asBytes "AUTH", asBytes "guess"], [asBytes "GET", asBytes "k"]],
        encodeCommands [ping], asBytes "x"]
    guardedOutput "a" chunks = guardedOutput "b" chunks := by
  intro chunks
  have hnone : firstPsync Host.plain (requests [] chunks) = none := by decide +kernel
  refine ((unauthenticated_blind_iff rfl (by decide +kernel) "id" (.new 16) 0).mpr ?_ _ _).1
  rintro ⟨-, args, hfirst, -⟩
  rw [hnone] at hfirst
  cases hfirst

/-- `PSYNC` without a password: two stores that differ in one value are told apart. -/
theorem unauthenticated_psync_leaks :
    let chunks : List Bytes := [encodeCommands [[asBytes "PSYNC", asBytes "?", asBytes "-1"]]]
    (∀ cmd ∈ requests [] chunks, asBytes "secret" ∉ passwords Host.plain cmd) ∧
      guardedOutput "a" chunks ≠ guardedOutput "b" chunks := by
  decide +kernel

end VeloDB
