import VeloDB.Net.Writes
import VeloDB.Replication.Stream

/-!
# Reconnecting

A replica whose link drops asks its master for the rest of the stream and is served from where it
stopped. It goes on with the bytes that were missing, but from a fresh context: the database that
the stream had selected is forgotten, and what comes next is applied to database 0.

## Main results

* `connectToMaster_continue` — the handshake of a partial resync
* `reconnect_transparent_iff` — at which cuts a new connection makes no difference
-/

namespace VeloDB

open Rust

/-! ### Connections -/

/-- `connect_to_master`, with the stream behind the handshake; `none` when it does not come to a
stream. -/
def connectAndStream (H : Host) (clock : ℕ → Moment) (store : Store) (sync : ReplicaSyncState)
    (reads : List Bytes) : Option Applying :=
  match connectToMaster store.databases sync reads with
  | (databases, sync, .streaming buf reads) =>
    some (streamCommands H clock { store with databases } buf sync.offset reads)
  | _ => none

theorem connectToMaster_of_line {reads reads' : List Bytes} {carry : Bytes}
    (h : readLine [] reads = some ("+CONTINUE", carry, reads')) (dbs : Databases)
    (sync : ReplicaSyncState) :
    connectToMaster dbs sync reads = (dbs, sync, .streaming carry reads') := by
  have hfull : stripPrefix "+FULLRESYNC" "+CONTINUE" = none := by decide
  have hcontinue : (stripPrefix "+CONTINUE" "+CONTINUE").isSome = true := by decide
  rw [connectToMaster, h]
  dsimp only
  rw [hfull]
  dsimp only
  rw [if_pos hcontinue]

/-- **The handshake of a partial resync**, however its bytes are cut into reads. -/
theorem connectToMaster_continue {rest : Bytes} {reads : List Bytes} (hne : ∀ c ∈ reads, c ≠ [])
    (h : reads.flatten = continueReply ++ rest) :
    ∃ carry reads', readLine [] reads = some ("+CONTINUE", carry, reads') ∧
      carry ++ reads'.flatten = rest ∧ ∀ c ∈ reads', c ≠ [] := by
  obtain ⟨l, hl, hnl, htext⟩ := header_line (s := "+CONTINUE") (by decide)
    (by simp [isWhitespace])
  have hreply : continueReply = l ++ [10] := hl
  rw [hreply, List.append_assoc] at h
  have hline : [] ++ reads.flatten = l ++ 10 :: rest := h
  obtain ⟨carry, reads', hline, hrest, hne'⟩ := readLine_eq hnl hne hline
  rw [htext] at hline
  exact ⟨carry, reads', hline, hrest, hne'⟩

/-- A command of the stream: one that the master logs, of a size that can be received. -/
structure Streamed (H : Host) (c : List Bytes) : Prop where
  logged : Logged H c
  length : (encodeCommandForAof c).length < 2 ^ 63

theorem Streamed.ne_nil {H : Host} {c : List Bytes} (h : Streamed H c) : c ≠ [] := by
  rintro rfl
  exact h.logged

/-- A replica after commands that it has read one by one over a connection of its own. -/
def Streams (H : Host) (clock : ℕ → Moment) (store : Store) (cmds : List (List Bytes))
    (s : Applying) : Prop :=
  ∃ buf offset reads, (∀ c ∈ reads, c ≠ []) ∧ Aligned cmds (buf :: reads) ∧
    s = streamCommands H clock store buf offset reads

/-- The replica connects again from where it stopped, is served `+CONTINUE` and the commands that
were missing, and reads these one by one. -/
def Resumes (H : Host) (clock : ℕ → Moment) (first : Applying) (cmds : List (List Bytes))
    (s : Applying) : Prop :=
  first.failure = none ∧ ∃ replid reads, (∀ c ∈ reads, c ≠ []) ∧
    reads.flatten = continueReply ++ encodeCommands cmds ∧
    (∀ line carry reads', readLine [] reads = some (line, carry, reads') →
      Aligned cmds (carry :: reads')) ∧
    connectAndStream H clock first.whole.store ⟨replid, first.offset⟩ reads = some s

/-- What the commands do does not depend on the clock. -/
def Timeless (H : Host) (store : Store) (cmds : List (List Bytes)) : Prop :=
  ∀ clock clock', runCommands H clock 0 cmds { store, ctx := {} }
    = runCommands H clock' 0 cmds { store, ctx := {} }

/-- A link that drops between the commands `pre` and the commands `post` makes no difference to the
data. -/
def Transparent (H : Host) (store : Store) (pre post : List (List Bytes)) : Prop :=
  ∀ clock clock' clock'' once first second, Timeless H store (pre ++ post) →
    Streams H clock store (pre ++ post) once → Streams H clock' store pre first →
    Resumes H clock'' first post second →
    ∀ t, SameLive t once.whole.store.databases second.whole.store.databases

variable {H : Host} {clock : ℕ → Moment} {store : Store} {pre post : List (List Bytes)}

theorem Streams.run {cmds : List (List Bytes)} (hcmds : ∀ c ∈ cmds, Streamed H c) {s : Applying}
    (h : Streams H clock store cmds s) :
    s.whole = (runCommands H clock 0 cmds { store, ctx := {} }).2 ∧
      (s.failure = none ↔ Returns H clock 0 cmds { store, ctx := {} }) := by
  obtain ⟨buf, offset, reads, hne, haligned, rfl⟩ := h
  exact streamCommands_aligned (fun c hc => (hcmds c hc).ne_nil)
    (fun c hc => (hcmds c hc).length) hne haligned store offset

theorem Resumes.run {cmds : List (List Bytes)} (hcmds : ∀ c ∈ cmds, Streamed H c)
    {first s : Applying} (h : Resumes H clock first cmds s) :
    s.whole = (runCommands H clock 0 cmds { store := first.whole.store, ctx := {} }).2 := by
  obtain ⟨-, replid, reads, hne, hbytes, haligned, hs⟩ := h
  obtain ⟨carry, reads', hline, -, hne'⟩ := connectToMaster_continue hne hbytes
  rw [connectAndStream, connectToMaster_of_line hline] at hs
  obtain rfl := Option.some.inj hs
  exact (streamCommands_aligned (fun c hc => (hcmds c hc).ne_nil)
    (fun c hc => (hcmds c hc).length) hne' (haligned _ _ _ hline) _ _).1

/-! ### What is the same -/

/-- One clock for the first commands and another one behind them. -/
def splice (n : ℕ) (clock clock' : ℕ → Moment) : ℕ → Moment := fun j =>
  if j < n then clock j else clock' (j - n)

/-- The whole stream over one connection: the second part runs where the first one ends. -/
theorem Timeless.append_run (h : Timeless H store (pre ++ post)) {clock' : ℕ → Moment}
    (hret : Returns H clock' 0 pre { store, ctx := {} }) (clock'' : ℕ → Moment) :
    (runCommands H clock 0 (pre ++ post) { store, ctx := {} }).2
      = (runCommands H clock'' 0 post
          (runCommands H clock' 0 pre { store, ctx := {} }).2).2 := by
  let both := splice pre.length clock' clock''
  have hpre : (runCommands H both 0 pre { store, ctx := {} }).2
        = (runCommands H clock' 0 pre { store, ctx := {} }).2 ∧
      (Returns H both 0 pre { store, ctx := {} } ↔ Returns H clock' 0 pre { store, ctx := {} }) :=
    runCommands_clock (fun j hj => by rw [Nat.zero_add]; exact if_pos hj) _
  have hpost : ∀ w, (runCommands H both (0 + pre.length) post w).2
      = (runCommands H clock'' 0 post w).2 := by
    refine fun w => (runCommands_clock (fun j _ => ?_) w).1
    show splice pre.length clock' clock'' (0 + pre.length + j) = clock'' (0 + j)
    rw [splice, Nat.zero_add, Nat.zero_add, if_neg (by omega), Nat.add_sub_cancel_left]
  rw [h clock both, runCommands_append (hpre.2.mpr hret).run, hpost, hpre.1]

/-- The stream goes on by selecting a database. -/
def SelectsFirst (H : Host) : List (List Bytes) → Prop
  | (name :: args) :: _ =>
    H.toUppercase (fromUtf8Lossy name) = "SELECT" ∧ selectDef.refuses args = false
  | _ => False

/-- A command that selects a database makes up for what the context has forgotten. -/
theorem runCommands_selectsFirst (h : SelectsFirst H post) (n i j : ℕ) :
    runCommands H clock n post ⟨store, { dbIndex := i }⟩
      = runCommands H clock n post ⟨store, { dbIndex := j }⟩ := by
  match post, h with
  | (name :: args) :: rest, ⟨hname, hargs⟩ =>
    have hupper : upper ((clock n).on H) name = "SELECT" := hname
    rw [runCommands, hupper, Proc.bind_ok (dispatch_select _ hargs _),
      Proc.bind_ok (dispatch_select _ hargs _)]

theorem sameLive_refl (t : UInt64) (dbs : Databases) : SameLive t dbs dbs := by
  intro i k
  cases dbs.liveEntry t i k with
  | none => exact .none
  | some e => exact .some (.refl e)

/-- **Enough for a transparent link.** -/
theorem transparent_of_selected (hpre : ∀ c ∈ pre, Streamed H c) (hpost : ∀ c ∈ post, Streamed H c)
    (h : selectedAfter H pre 0 = 0 ∨ SelectsFirst H post) : Transparent H store pre post := by
  intro clock clock' clock'' once first second htime honce hfirst hsecond t
  obtain ⟨hfirst, hreturns⟩ := hfirst.run hpre
  have hret := hreturns.mp hsecond.1
  have honce := (honce.run (by
    intro c hc
    exact (List.mem_append.mp hc).elim (hpre c) (hpost c))).1
  have hctx := ctx_runCommands (fun c hc => (hpre c hc).logged) hret
  have hsame : once.whole = second.whole := by
    rw [honce, hsecond.run hpost, hfirst, htime.append_run hret clock'']
    generalize hw : (runCommands H clock' 0 pre { store, ctx := {} }).2 = w at hctx
    obtain ⟨store₁, ctx₁⟩ := w
    obtain rfl : ctx₁ = { dbIndex := selectedAfter H pre 0 } := hctx
    rcases h with hzero | hselects
    · rw [hzero]
    · rw [runCommands_selectsFirst hselects 0 _ 0]
  rw [hsame]
  exact sameLive_refl t _

/-! ### What is different -/

variable (H clock store) in
/-- The whole stream in one read. -/
theorem streams_one (cmds : List (List Bytes)) :
    Streams H clock store cmds (streamCommands H clock store (encodeCommands cmds) 0 []) :=
  ⟨encodeCommands cmds, 0, [], fun _ h => absurd h List.not_mem_nil,
    ⟨[cmds], by simp, rfl⟩, rfl⟩

variable (H clock) in
/-- The reply and the rest of the stream in one read. -/
theorem resumes_one {first : Applying} (hfirst : first.failure = none) (cmds : List (List Bytes)) :
    Resumes H clock first cmds
      (streamCommands H clock first.whole.store (encodeCommands cmds) first.offset []) := by
  obtain ⟨l, hl, hnl, htext⟩ := header_line (s := "+CONTINUE") (by decide)
    (by simp [isWhitespace])
  have hreply : continueReply ++ encodeCommands cmds = l ++ 10 :: encodeCommands cmds := by
    have hcontinue : continueReply = l ++ [10] := hl
    rw [hcontinue, List.append_assoc]
    rfl
  have hline : readLine [] [continueReply ++ encodeCommands cmds]
      = some ("+CONTINUE", encodeCommands cmds, []) := by
    have hsome : (l ++ 10 :: encodeCommands cmds) ≠ [] := by simp
    rw [hreply, readLine, splitLine_eq_none List.not_mem_nil]
    dsimp only
    rw [if_neg hsome, List.nil_append, readLine, splitLine_append hnl, Option.map_some, htext]
  refine ⟨hfirst, "", [continueReply ++ encodeCommands cmds], ?_, by simp, ?_, ?_⟩
  · intro c hc
    rw [List.mem_singleton.mp hc, hreply]
    simp
  · intro line carry reads' h
    obtain ⟨-, rfl, rfl⟩ : line = "+CONTINUE" ∧ carry = encodeCommands cmds ∧ reads' = [] := by
      have h := Option.some.inj (hline.symm.trans h)
      simp only [Prod.mk.injEq] at h
      exact ⟨h.1.symm, h.2.1.symm, h.2.2.symm⟩
    exact ⟨[cmds], by simp, rfl⟩
  · rw [connectAndStream, connectToMaster_of_line hline]

/-- A string that a key does not hold. -/
theorem exists_other_string (dbs : Databases) (k : Bytes) :
    ∃ v, (v = [] ∨ v = [0]) ∧ ∀ e, dbs.find 0 k = some e → e.value ≠ .string v := by
  by_cases h : ∃ e, dbs.find 0 k = some e ∧ e.value = .string []
  · obtain ⟨e, he, hv⟩ := h
    refine ⟨[0], Or.inr rfl, fun e' he' hv' => ?_⟩
    obtain rfl := Option.some.inj (he.symm.trans he')
    rw [hv] at hv'
    cases hv'
  · exact ⟨[], Or.inl rfl, fun e he hv => h ⟨e, he, hv⟩⟩

/-- The replica at the cut: all of the first commands have returned, whatever the time was. -/
structure AtCut (H : Host) (store : Store) (pre : List (List Bytes)) (w : Whole) : Prop where
  run : ∀ clock, runCommands H clock 0 pre { store, ctx := {} } = (.ok (0 + pre.length), w)
  /-- It can be written to. -/
  databases : w.store.databases ≠ []
  memory : w.store.tables.overMemoryLimit = false

theorem not_sameLive_setString {dbs : Databases} (hdbs : dbs ≠ []) {i : ℕ} (hi : i ≠ 0) {k v : Bytes}
    (hv : ∀ e, dbs.find 0 k = some e → e.value ≠ .string v) (t : UInt64) :
    ¬SameLive t (setString dbs i k v) (setString dbs 0 k v) := by
  intro h
  have hkey := h 0 k
  have hzero : (setString dbs 0 k v).liveEntry t 0 k = some { value := .string v, version :=
      ((dbs.find 0 k).getD { value := .string [] }).version + 1 } := by
    rw [Databases.liveEntry, setString, Databases.find_put_self (List.length_pos_iff.mpr hdbs)]
    rfl
  have hother : (setString dbs i k v).find 0 k = dbs.find 0 k :=
    Databases.find_put_of_ne (Or.inl hi.symm)
  rw [hzero, Databases.liveEntry, hother] at hkey
  cases hfind : dbs.find 0 k with
  | none =>
    rw [hfind] at hkey
    cases hkey
  | some e =>
    rw [hfind] at hkey
    cases hlive : Option.filter (fun e => !Entry.expired t e) (some e) with
    | none =>
      rw [hlive] at hkey
      cases hkey
    | some e' =>
      rw [hlive] at hkey
      obtain rfl := Option.some.inj (Option.filter_eq_some_iff.mp hlive).1
      have hsame : e.value.Same (.string v) := by
        cases hkey with
        | some hsame => exact hsame.value
      cases hcase : e.value with
      | string u =>
        rw [hcase] at hsame
        cases hsame
        exact hv e hfind hcase
      | _ =>
        rw [hcase] at hsame
        cases hsame

/-- **Where another database was selected, the next write shows it.** -/
theorem exists_not_transparent (hpre : ∀ c ∈ pre, Streamed H c) {w : Whole}
    (hw : AtCut H store pre w) (hselected : selectedAfter H pre 0 ≠ 0) :
    ∃ post, (∀ c ∈ post, Streamed H c) ∧ ¬Transparent H store pre post := by
  obtain ⟨v, hsmall, hv⟩ := exists_other_string w.store.databases []
  have hlength : (encodeCommandForAof (setCommand [] v)).length < 2 ^ 63 := by
    rcases hsmall with rfl | rfl <;> decide +kernel
  have hstreamed : ∀ c ∈ [setCommand [] v], Streamed H c := by
    intro c hc
    rw [List.mem_singleton.mp hc]
    exact ⟨logged_setCommand H [] v, hlength⟩
  refine ⟨[setCommand [] v], hstreamed, ?_⟩
  intro htransparent
  let stopped : ℕ → Moment := fun _ => ⟨0, 0, 0, 0⟩
  have hrun : ∀ clock, runCommands H clock 0 (pre ++ [setCommand [] v]) { store, ctx := {} }
      = (.ok (0 + pre.length + 1),
          ⟨⟨setString w.store.databases w.ctx.dbIndex [] v, w.store.tables⟩, w.ctx⟩) := by
    intro clock
    rw [runCommands_append (hw.run clock), runCommands_set [] v hw.memory]
  have htime : Timeless H store (pre ++ [setCommand [] v]) := by
    intro clock clock'
    rw [hrun, hrun]
  have hboth : ∀ c ∈ pre ++ [setCommand [] v], Streamed H c :=
    fun c hc => (List.mem_append.mp hc).elim (hpre c) (hstreamed c)
  obtain ⟨once, honce⟩ : ∃ s, Streams H stopped store (pre ++ [setCommand [] v]) s :=
    ⟨_, streams_one H stopped store _⟩
  obtain ⟨first, hfirst⟩ : ∃ s, Streams H stopped store pre s := ⟨_, streams_one H stopped store pre⟩
  obtain ⟨hfirst_whole, hreturns⟩ := hfirst.run hpre
  have hret : Returns H stopped 0 pre { store, ctx := {} } := congrArg Prod.fst (hw.run stopped)
  obtain ⟨second, hsecond⟩ : ∃ s, Resumes H stopped first [setCommand [] v] s :=
    ⟨_, resumes_one H stopped (hreturns.mpr hret) _⟩
  have hsame := htransparent _ _ _ _ _ _ htime honce hfirst hsecond 0
  have hctx := ctx_runCommands (fun c hc => (hpre c hc).logged) hret
  rw [hw.run] at hfirst_whole hctx
  have honce_whole := (honce.run hboth).1
  have hsecond_whole := hsecond.run hstreamed
  have hlast := @runCommands_set H stopped [] v ⟨w.store, {}⟩ hw.memory 0
  rw [hfirst_whole, hlast] at hsecond_whole
  rw [hrun] at honce_whole
  rw [honce_whole, hsecond_whole] at hsame
  have hindex : w.ctx.dbIndex = selectedAfter H pre 0 := congrArg ClientContext.dbIndex hctx
  rw [← hindex] at hselected
  exact not_sameLive_setString hw.databases hselected hv 0 hsame

/-- **Reconnecting.** Where database 0 is selected, or the stream goes on by selecting a database, a
new connection makes no difference; where another database is selected, some way to go on shows the
difference. -/
theorem reconnect_transparent_iff (hpre : ∀ c ∈ pre, Streamed H c) :
    (∀ post, (∀ c ∈ post, Streamed H c) → selectedAfter H pre 0 = 0 ∨ SelectsFirst H post →
      Transparent H store pre post) ∧
    ∀ w, AtCut H store pre w →
      ((∀ post, (∀ c ∈ post, Streamed H c) → Transparent H store pre post) ↔
        selectedAfter H pre 0 = 0) := by
  refine ⟨fun post hpost h => transparent_of_selected hpre hpost h, fun w hw => ⟨fun h => ?_, ?_⟩⟩
  · by_contra hselected
    obtain ⟨post, hpost, hnot⟩ := exists_not_transparent hpre hw hselected
    exact hnot (h post hpost)
  · exact fun hzero post hpost => transparent_of_selected hpre hpost (Or.inl hzero)

/-- A cut behind `SELECT 1`, `SET a b`, `SELECT 0`. -/
theorem reconnect_transparent_back :
    let pre := [selectCommand 1, setCommand [97] [98], selectCommand 0]
    (∀ c ∈ pre, Streamed Host.plain c) ∧
      Transparent Host.plain (Store.new 2) pre [setCommand [97] [99]] := by
  intro pre
  have hpre : ∀ c ∈ pre, Streamed Host.plain c := by
    intro c hc
    have hall : ∀ c ∈ pre, (isWriteCommand (Host.plain.toUppercase (fromUtf8Lossy (c.headD []))) &&
        c != []) = true ∧ (encodeCommandForAof c).length < 2 ^ 63 := by
      decide +kernel
    obtain ⟨hlogged, hlength⟩ := hall c hc
    rw [Bool.and_eq_true, bne_iff_ne] at hlogged
    obtain ⟨name, args, rfl⟩ := List.exists_cons_of_ne_nil hlogged.2
    exact ⟨hlogged.1, hlength⟩
  have hpost : ∀ c ∈ [setCommand [97] [99]], Streamed Host.plain c := by
    intro c hc
    rw [List.mem_singleton.mp hc]
    exact ⟨logged_setCommand _ _ _, by decide +kernel⟩
  exact ⟨hpre, (reconnect_transparent_iff hpre).1 _ hpost (Or.inl (by decide +kernel))⟩

/-- A cut between `SELECT 1` and `SET a b`: over one connection the key comes to be in database 1,
over two it comes to be in database 0. -/
theorem reconnect_forgets_database :
    let stopped : ℕ → Moment := fun _ => ⟨0, 0, 0, 0⟩
    let pre := [selectCommand 1]
    let post := [setCommand [97] [98]]
    let once := streamCommands Host.plain stopped (Store.new 2) (encodeCommands (pre ++ post)) 0 []
    let first := streamCommands Host.plain stopped (Store.new 2) (encodeCommands pre) 0 []
    let second := streamCommands Host.plain stopped first.whole.store (encodeCommands post)
      first.offset []
    (once.whole.store.databases.liveEntry 0 0 [97]).isSome = false ∧
      (once.whole.store.databases.liveEntry 0 1 [97]).isSome = true ∧
      (second.whole.store.databases.liveEntry 0 0 [97]).isSome = true ∧
      (second.whole.store.databases.liveEntry 0 1 [97]).isSome = false ∧
      ¬Transparent Host.plain (Store.new 2) pre post := by
  intro stopped pre post once first second
  have honce : (once.whole.store.databases.liveEntry 0 0 [97]).isSome = false := by decide +kernel
  have hsecond : (second.whole.store.databases.liveEntry 0 0 [97]).isSome = true := by
    decide +kernel
  refine ⟨honce, by decide +kernel, hsecond, by decide +kernel, fun htransparent => ?_⟩
  have hfirst : first.failure = none := by decide +kernel
  have hselect : ∀ clock, runCommands Host.plain clock 0 pre { store := Store.new 2, ctx := {} }
      = (.ok (0 + 1), ⟨Store.new 2, { dbIndex := 1 }⟩) := by
    intro clock
    have hname : upper ((clock 0).on Host.plain) (asBytes "SELECT") = "SELECT" :=
      upper_name selectDef_mem _
    have hone : (argUsize (asBytes (toString 1))).getD 0 = 1 := by decide
    have hargs : selectDef.refuses [asBytes (toString 1)] = false := by decide +kernel
    show runCommands Host.plain clock 0 [[asBytes "SELECT", asBytes (toString 1)]] _ = _
    rw [runCommands, hname, Proc.bind_ok (dispatch_select _ hargs _), List.headD_cons, hone]
    rfl
  have htime : Timeless Host.plain (Store.new 2) (pre ++ post) := by
    intro clock clock'
    rw [runCommands_append (hselect clock), runCommands_append (hselect clock'),
      runCommands_set [97] [98] rfl, runCommands_set [97] [98] rfl]
  have hsame := htransparent stopped stopped stopped once first second htime
    (streams_one _ _ _ _) (streams_one _ _ _ _) (resumes_one _ _ hfirst _) 0 0 [97]
  have hnone : once.whole.store.databases.liveEntry 0 0 [97] = none := by
    exact Option.isNone_iff_eq_none.mp (Option.isSome_eq_false_iff.mp honce)
  rw [hnone] at hsame
  cases hlive : second.whole.store.databases.liveEntry 0 0 [97] with
  | none =>
    rw [hlive] at hsecond
    cases hsecond
  | some e =>
    rw [hlive] at hsame
    cases hsame

end VeloDB
