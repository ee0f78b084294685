import VeloDB.Net.Chunking
import VeloDB.Replication.Stream

/-!
# Loops that stop too early

Four loops take commands from a buffer: the two of a connection, the one of a replica and the one
that replays the append-only file. Each of them stops where the parser finds no value, and each of
them also stops, without taking it, at a value that carries no command. Behind such a value nothing
is taken any more.

## Main results

* `normalTurn_stalls_iff`, `subTurn_stalls_iff` — where a connection stops in front of a value
* `applyLoop_stalls_iff`, `replayTaken_stalls_iff` — where the other loops do
* `loops_stall_iff` — all four
-/

namespace VeloDB

open Rust Nom

/-! ### Values in a buffer -/

/-- The buffer begins with a complete value. -/
def Begins (buf : Bytes) : Prop := ∃ rest v, respValue buf = .ok (rest, v)

/-- The buffer begins with a value that carries no command. -/
def BeginsEmpty (buf : Bytes) : Prop := ∃ rest v, respValue buf = .ok (rest, v) ∧ commandArgs v = []

/-- The buffer begins with a value that carries a command. -/
def BeginsWith (buf : Bytes) (name : Bytes) (args : List Bytes) (rest : Bytes) : Prop :=
  ∃ v, respValue buf = .ok (rest, v) ∧ commandArgs v = name :: args

/-- Behind complete commands stands a value that carries none. -/
inductive Blocked : Bytes → Prop
  | here {buf : Bytes} : BeginsEmpty buf → Blocked buf
  | behind {buf name rest : Bytes} {args : List Bytes} : BeginsWith buf name args rest →
      Blocked rest → Blocked buf

/-- What the parser says is what the buffer begins with. -/
theorem parseCommand_ok_iff {buf rest : Bytes} {args : List Bytes} :
    parseCommand buf = .ok (rest, args) ↔
      ∃ v, respValue buf = .ok (rest, v) ∧ commandArgs v = args := by
  rw [parseCommand_eq, bind_eq_ok]
  constructor
  · rintro ⟨⟨r, v⟩, hv, heq⟩
    obtain ⟨rfl, rfl⟩ := Prod.mk.inj (Except.ok.inj heq)
    exact ⟨v, hv, rfl⟩
  · rintro ⟨v, hv, rfl⟩
    exact ⟨(rest, v), hv, rfl⟩

theorem begins_iff {buf : Bytes} :
    Begins buf ↔ ∃ rest args, parseCommand buf = .ok (rest, args) := by
  constructor
  · rintro ⟨rest, v, hv⟩
    exact ⟨rest, commandArgs v, parseCommand_ok_iff.mpr ⟨v, hv, rfl⟩⟩
  · rintro ⟨rest, args, h⟩
    obtain ⟨v, hv, -⟩ := parseCommand_ok_iff.mp h
    exact ⟨rest, v, hv⟩

theorem beginsEmpty_iff {buf : Bytes} :
    BeginsEmpty buf ↔ ∃ rest, parseCommand buf = .ok (rest, []) :=
  exists_congr fun _ => parseCommand_ok_iff.symm

theorem beginsWith_iff {buf name rest : Bytes} {args : List Bytes} :
    BeginsWith buf name args rest ↔ parseCommand buf = .ok (rest, name :: args) :=
  parseCommand_ok_iff.symm

theorem not_begins_of_error {buf : Bytes} (h : parseCommand buf = .error .error) :
    ¬Begins buf := by
  rintro hbegins
  obtain ⟨rest, args, hok⟩ := begins_iff.mp hbegins
  rw [h] at hok
  cases hok

theorem not_begins_nil : ¬Begins [] := by
  rintro ⟨rest, v, h⟩
  exact absurd (consumes_respValue h).2 (Nat.not_lt_zero _)

theorem BeginsEmpty.begins {buf : Bytes} (h : BeginsEmpty buf) : Begins buf := by
  obtain ⟨rest, v, hv, -⟩ := h
  exact ⟨rest, v, hv⟩

theorem BeginsWith.begins {buf name rest : Bytes} {args : List Bytes}
    (h : BeginsWith buf name args rest) : Begins buf := by
  obtain ⟨v, hv, -⟩ := h
  exact ⟨rest, v, hv⟩

/-- What stands behind the command that a buffer begins with. -/
theorem BeginsWith.exists_iff {buf name rest : Bytes} {args : List Bytes}
    (h : BeginsWith buf name args rest) {P : Bytes → List Bytes → Bytes → Prop} :
    (∃ name args rest, BeginsWith buf name args rest ∧ P name args rest) ↔ P name args rest := by
  constructor
  · rintro ⟨name', args', rest', h', hP⟩
    have heq := (beginsWith_iff.mp h').symm.trans (beginsWith_iff.mp h)
    obtain ⟨rfl, hargs⟩ := Prod.mk.inj (Except.ok.inj heq)
    obtain ⟨rfl, rfl⟩ := List.cons.inj hargs
    exact hP
  · exact fun hP => ⟨name, args, rest, h, hP⟩

theorem BeginsWith.not_empty {buf name rest : Bytes} {args : List Bytes}
    (h : BeginsWith buf name args rest) : ¬BeginsEmpty buf := by
  rintro hempty
  obtain ⟨rest', hrest'⟩ := beginsEmpty_iff.mp hempty
  have heq := hrest'.symm.trans (beginsWith_iff.mp h)
  cases (Prod.mk.inj (Except.ok.inj heq)).2

theorem BeginsWith.blocked_iff {buf name rest : Bytes} {args : List Bytes}
    (h : BeginsWith buf name args rest) : Blocked buf ↔ Blocked rest := by
  constructor
  · rintro (hempty | ⟨hwith, hrest⟩)
    · exact absurd hempty h.not_empty
    · exact (h.exists_iff (P := fun _ _ rest => Blocked rest)).mp ⟨_, _, _, hwith, hrest⟩
  · exact fun hrest => .behind h hrest

theorem Blocked.begins {buf : Bytes} (h : Blocked buf) : Begins buf := by
  cases h with
  | here h => exact h.begins
  | behind h _ => exact h.begins

/-- **A buffer, by what the parser finds at its front.** -/
theorem buffer_cases (buf : Bytes) :
    BeginsEmpty buf ∨ (∃ name args rest, BeginsWith buf name args rest) ∨
      parseCommand buf = .error .error := by
  cases hparse : parseCommand buf with
  | error e =>
    obtain rfl := complete_parseCommand hparse
    exact Or.inr (Or.inr rfl)
  | ok r =>
    obtain ⟨rest, args⟩ := r
    rcases args with _ | ⟨name, args⟩
    · exact Or.inl (beginsEmpty_iff.mpr ⟨rest, hparse⟩)
    · exact Or.inr (Or.inl ⟨name, args, rest, beginsWith_iff.mpr hparse⟩)

/-! ### The loops of a connection -/

/-- The turn from `n` to `n'` has ended its loop: to wait for the socket, to hand the connection
over to `handle_psync`, or without having taken a command. -/
def LoopEnds (n n' : Net) : Prop :=
  n'.conn.status = .reading ∨ (∃ args, n'.conn.status = .replica args) ∨
    n'.conn.served = n.conn.served

section Connection

variable {L : Listener} {env : Env} {name : Bytes} {args : List Bytes}

/-- Only `PSYNC` hands the connection over. -/
theorem serve_outcome {w w' : Whole} {s : Served} (h : serve L env name args w = (.ok s, w')) :
    (∃ a, s.outcome = .psync a) ↔ upper env name = "PSYNC" := by
  by_cases hpsync : upper env name = "PSYNC"
  · rw [serve, if_pos hpsync] at h
    obtain rfl := Except.ok.inj (Prod.mk.inj h).1
    exact iff_of_true ⟨args, rfl⟩ hpsync
  · refine iff_of_false ?_ hpsync
    rintro ⟨a, ha⟩
    rw [serve, if_neg hpsync] at h
    split_ifs at h
    · obtain rfl := Except.ok.inj (Prod.mk.inj h).1
      cases ha
    · obtain rfl := Except.ok.inj (Prod.mk.inj h).1
      cases ha
    · obtain rfl := Except.ok.inj (Prod.mk.inj h).1
      cases ha
    · obtain rfl := Except.ok.inj (Prod.mk.inj h).1
      cases ha
    · exact (serveDirect_ok h).2.2 a ha

/-- A command that fails takes the loop with it. -/
theorem not_loopEnds_crash {n m : Net} (cmd : List Bytes)
    (hserved : m.conn.served = n.conn.served ++ [cmd]) (f : Failure) :
    ¬LoopEnds n (m.crash f) := by
  have hsame : (m.crash f).conn.served = m.conn.served := by cases f <;> rfl
  rintro (h | ⟨a, h⟩ | h)
  · cases f <;> cases h
  · cases f <;> cases h
  · rw [hsame, hserved] at h
    simp at h

/-- A command that returns ends the normal loop only by handing the connection over. -/
theorem loopEnds_follow_iff {n m : Net} (cmd : List Bytes)
    (hserved : m.conn.served = n.conn.served ++ [cmd]) (o : Outcome) :
    LoopEnds n (m.follow o) ↔ ∃ a, o = .psync a := by
  have hsame : (m.follow o).conn.served = m.conn.served := by cases o <;> rfl
  have hnot : (m.follow o).conn.served ≠ n.conn.served := by
    rw [hsame, hserved]
    simp
  cases o with
  | next =>
    refine iff_of_false ?_ (fun ⟨a, h⟩ => by cases h)
    rintro (h | ⟨a, h⟩ | h)
    · cases h
    · cases h
    · exact hnot h
  | wait b =>
    refine iff_of_false ?_ (fun ⟨a, h⟩ => by cases h)
    rintro (h | ⟨a, h⟩ | h)
    · cases h
    · cases h
    · exact hnot h
  | psync a => exact iff_of_true (Or.inr (Or.inl ⟨a, rfl⟩)) ⟨a, rfl⟩

/-- **The normal loop ends in front of a value** exactly where the value carries no command, or
behind a `PSYNC`. -/
theorem normalTurn_stalls_iff (L : Listener) (env : Env) (n : Net) :
    LoopEnds n (n.normalTurn L env) ∧ Begins (n.normalTurn L env).conn.buf ↔
      BeginsEmpty n.conn.buf ∨ ∃ name args rest, BeginsWith n.conn.buf name args rest ∧
        upper env name = "PSYNC" ∧ Begins rest := by
  by_cases hnil : n.conn.buf = []
  · have hturn : n.normalTurn L env = n.goto .reading := if_pos hnil
    rw [hturn]
    refine iff_of_false (fun h => not_begins_nil (hnil ▸ h.2)) ?_
    rw [hnil]
    rintro (h | ⟨_, _, _, h, -⟩) <;> exact not_begins_nil h.begins
  rcases buffer_cases n.conn.buf with hempty | ⟨name, args, rest, hwith⟩ | herror
  · obtain ⟨rest, hparse⟩ := beginsEmpty_iff.mp hempty
    have hturn : n.normalTurn L env = n.goto .reading := by
      rw [Net.normalTurn, if_neg hnil, hparse]
    rw [hturn]
    exact iff_of_true ⟨Or.inl rfl, hempty.begins⟩ (Or.inl hempty)
  · rw [hwith.exists_iff (P := fun name _ rest => upper env name = "PSYNC" ∧ Begins rest),
      or_iff_right hwith.not_empty]
    have hparse := beginsWith_iff.mp hwith
    rcases hserve : serve L env name args n.whole with ⟨f | s, w⟩
    · have hturn : n.normalTurn L env
          = ((n.withWhole w).taken (name :: args) rest).crash f := by
        rw [Net.normalTurn, if_neg hnil, hparse]
        dsimp only
        rw [hserve]
      rw [hturn]
      refine iff_of_false (fun h => not_loopEnds_crash (name :: args) rfl f h.1) ?_
      rintro ⟨hpsync, -⟩
      rw [serve, if_pos hpsync] at hserve
      cases (Prod.mk.inj hserve).1
    · have hturn : n.normalTurn L env
          = (((n.withWhole w).taken (name :: args) rest).sent s).follow s.outcome := by
        rw [Net.normalTurn, if_neg hnil, hparse]
        dsimp only
        rw [hserve]
      have hbuf : (n.normalTurn L env).conn.buf = rest := by
        rw [hturn]
        cases s.outcome <;> rfl
      rw [hbuf, ← serve_outcome hserve, hturn, loopEnds_follow_iff (name :: args) rfl]
  · have hturn : n.normalTurn L env = (n.write (n.protocolError env.host)).close := by
      rw [Net.normalTurn, if_neg hnil, herror]
    have hnot := not_begins_of_error herror
    rw [hturn]
    refine iff_of_false (fun h => hnot h.2) ?_
    rintro (h | ⟨_, _, _, h, -⟩) <;> exact hnot h.begins

/-- The command returns and leaves subscribe mode. -/
def Unsubscribes (env : Env) (name : Bytes) (args : List Bytes) (w : Whole) : Prop :=
  ∃ reply w', dispatch env (upper env name) args w = (.ok reply, w') ∧ w'.ctx.subMode = false

/-- **The loop of the subscribe mode ends in front of a value** exactly where the value carries no
command, or behind a command that leaves the mode. -/
theorem subTurn_stalls_iff (env : Env) (n : Net) :
    LoopEnds n (n.subTurn env) ∧ Begins (n.subTurn env).conn.buf ↔
      BeginsEmpty n.conn.buf ∨ ∃ name args rest, BeginsWith n.conn.buf name args rest ∧
        Unsubscribes env name args n.whole ∧ Begins rest := by
  by_cases hnil : n.conn.buf = []
  · have hturn : n.subTurn env = n.goto .reading := if_pos hnil
    rw [hturn]
    refine iff_of_false (fun h => not_begins_nil (hnil ▸ h.2)) ?_
    rw [hnil]
    rintro (h | ⟨_, _, _, h, -⟩) <;> exact not_begins_nil h.begins
  rcases buffer_cases n.conn.buf with hempty | ⟨name, args, rest, hwith⟩ | herror
  · obtain ⟨rest, hparse⟩ := beginsEmpty_iff.mp hempty
    have hturn : n.subTurn env = n.goto .reading := by
      rw [Net.subTurn, if_neg hnil, hparse]
    rw [hturn]
    exact iff_of_true ⟨Or.inl rfl, hempty.begins⟩ (Or.inl hempty)
  · rw [hwith.exists_iff (P := fun name args rest =>
      Unsubscribes env name args n.whole ∧ Begins rest), or_iff_right hwith.not_empty]
    have hparse := beginsWith_iff.mp hwith
    rcases hrun : dispatch env (upper env name) args n.whole with ⟨f | reply, w⟩
    · have hserve : serveSub env name args n.whole = (.error f, w) := Proc.bind_error hrun
      have hturn : n.subTurn env = ((n.withWhole w).taken (name :: args) rest).crash f := by
        rw [Net.subTurn, if_neg hnil, hparse]
        dsimp only
        rw [hserve]
      rw [hturn]
      refine iff_of_false (fun h => not_loopEnds_crash (name :: args) rfl f h.1) ?_
      rintro ⟨⟨reply, w', hok, -⟩, -⟩
      rw [hrun] at hok
      cases (Prod.mk.inj hok).1
    · have hserve : serveSub env name args n.whole = answer env {} reply w := Proc.bind_ok hrun
      have hleaves : Unsubscribes env name args n.whole ↔ w.ctx.subMode = false := by
        constructor
        · rintro ⟨reply', w', hok, hsub⟩
          rw [(Prod.mk.inj (hrun.symm.trans hok)).2]
          exact hsub
        · exact fun hsub => ⟨reply, w, hrun, hsub⟩
      let served : Served :=
        { reply := some (serializeResponseProto env.host reply w.ctx.protocol) }
      have hturn : n.subTurn env = (((n.withWhole w).taken (name :: args) rest).sent served).goto
          (if w.ctx.subMode then .running true else .reading) := by
        rw [Net.subTurn, if_neg hnil, hparse]
        dsimp only
        rw [hserve, answer]
      have hbuf : (n.subTurn env).conn.buf = rest := by rw [hturn]; rfl
      rw [hbuf, hleaves, hturn]
      refine and_congr_left fun _ => ?_
      cases hsub : w.ctx.subMode with
      | false => exact iff_of_true (Or.inl rfl) rfl
      | true =>
        refine iff_of_false ?_ Bool.noConfusion
        rintro (h | ⟨a, h⟩ | h)
        · cases h
        · cases h
        · have hserved : n.conn.served ++ [name :: args] = n.conn.served := h
          simp at hserved
  · have hturn : n.subTurn env = { n with conn := { n.conn with buf := [] } }.goto .reading := by
      rw [Net.subTurn, if_neg hnil, herror]
    have hnot := not_begins_of_error herror
    rw [hturn]
    refine iff_of_false (fun h => not_begins_nil h.2) ?_
    rintro (h | ⟨_, _, _, h, -⟩) <;> exact hnot h.begins

end Connection

/-! ### The other loops -/

section Others

variable (H : Host) (clock : ℕ → Moment)

/-- **The loop of a replica ends in front of a value**, unless a command fails, exactly where behind
commands stands a value that carries none. -/
theorem applyLoop_stalls_iff (fuel : ℕ) (s : Applying) (hfuel : s.buf.length ≤ fuel)
    (hreturns : (Applying.applyLoop H clock fuel s).failure = none) :
    Begins (Applying.applyLoop H clock fuel s).buf ↔ Blocked s.buf := by
  induction fuel generalizing s with
  | zero =>
    have hnil : s.buf = [] := List.length_eq_zero_iff.mp (Nat.le_zero.mp hfuel)
    rw [Applying.applyLoop, hnil]
    exact iff_of_false not_begins_nil fun h => not_begins_nil h.begins
  | succ fuel ih =>
    rw [Applying.applyLoop] at hreturns ⊢
    by_cases hnil : s.buf = []
    · rw [if_pos (Or.inl hnil), hnil]
      exact iff_of_false not_begins_nil fun h => not_begins_nil h.begins
    by_cases hfailed : s.failure.isSome
    · rw [if_pos (Or.inr hfailed)] at hreturns
      rw [hreturns] at hfailed
      cases hfailed
    have hgo : ¬(s.buf = [] ∨ s.failure.isSome) := not_or.mpr ⟨hnil, hfailed⟩
    rw [if_neg hgo] at hreturns ⊢
    rcases buffer_cases s.buf with hempty | ⟨name, args, rest, hwith⟩ | herror
    · obtain ⟨rest, hparse⟩ := beginsEmpty_iff.mp hempty
      rw [hparse]
      exact iff_of_true hempty.begins (.here hempty)
    · have hparse := beginsWith_iff.mp hwith
      rw [hparse] at hreturns ⊢
      have hshort := (consumes_parseCommand hparse).2
      rw [hwith.blocked_iff]
      exact ih _ (by show rest.length ≤ fuel; omega) hreturns
    · rw [herror]
      have hnot := not_begins_of_error herror
      exact iff_of_false not_begins_nil fun h => hnot h.begins

/-- The commands that `replay_aof` takes from a buffer, and what it leaves. -/
def replayTaken : ℕ → Bytes → List (List Bytes) × Bytes
  | 0, buf => ([], buf)
  | fuel + 1, buf =>
    match parseCommand buf with
    | .ok (rest, name :: args) =>
      ((name :: args) :: (replayTaken fuel rest).1, (replayTaken fuel rest).2)
    | _ => ([], buf)

/-- These are the commands that the loop runs. -/
theorem replayLoop_eq (fuel n : ℕ) (buf : Bytes) :
    replayLoop H clock fuel n buf = runCommands H clock n (replayTaken fuel buf).1 := by
  induction fuel generalizing n buf with
  | zero => rfl
  | succ fuel ih =>
    rcases buffer_cases buf with hempty | ⟨name, args, rest, hwith⟩ | herror
    · obtain ⟨rest, hparse⟩ := beginsEmpty_iff.mp hempty
      rw [replayLoop, replayTaken, hparse]
      dsimp only
      rw [ite_self]
      rfl
    · have hparse := beginsWith_iff.mp hwith
      have hnil : buf ≠ [] := by
        rintro rfl
        exact not_begins_nil hwith.begins
      rw [replayLoop, replayTaken, if_neg hnil, hparse]
      dsimp only
      rw [runCommands]
      simp only [ih]
    · rw [replayLoop, replayTaken, herror]
      dsimp only
      rw [ite_self]
      rfl

/-- **The loop of `replay_aof` ends in front of a value** exactly where behind commands stands a
value that carries none. -/
theorem replayTaken_stalls_iff (fuel : ℕ) (buf : Bytes) (hfuel : buf.length ≤ fuel) :
    Begins (replayTaken fuel buf).2 ↔ Blocked buf := by
  induction fuel generalizing buf with
  | zero =>
    have hnil : buf = [] := List.length_eq_zero_iff.mp (Nat.le_zero.mp hfuel)
    rw [replayTaken, hnil]
    exact iff_of_false not_begins_nil fun h => not_begins_nil h.begins
  | succ fuel ih =>
    rw [replayTaken]
    rcases buffer_cases buf with hempty | ⟨name, args, rest, hwith⟩ | herror
    · obtain ⟨rest, hparse⟩ := beginsEmpty_iff.mp hempty
      rw [hparse]
      exact iff_of_true hempty.begins (.here hempty)
    · have hparse := beginsWith_iff.mp hwith
      have hshort := (consumes_parseCommand hparse).2
      rw [hparse, hwith.blocked_iff]
      exact ih rest (by omega)
    · rw [herror]
      have hnot := not_begins_of_error herror
      exact iff_of_false hnot fun h => hnot h.begins

end Others

/-! ### All four loops -/

/-- **Where a loop ends in front of a complete value.** In the normal loop of a connection: the
value carries no command, or stands behind a `PSYNC`. In the loop of the subscribe mode: it carries
no command, or stands behind a command that leaves the mode. On a replica and in `replay_aof`:
behind commands stands a value that carries none. -/
theorem loops_stall_iff (L : Listener) (env : Env) (H : Host) (clock : ℕ → Moment) :
    (∀ n : Net, LoopEnds n (n.normalTurn L env) ∧ Begins (n.normalTurn L env).conn.buf ↔
      BeginsEmpty n.conn.buf ∨ ∃ name args rest, BeginsWith n.conn.buf name args rest ∧
        upper env name = "PSYNC" ∧ Begins rest) ∧
    (∀ n : Net, LoopEnds n (n.subTurn env) ∧ Begins (n.subTurn env).conn.buf ↔
      BeginsEmpty n.conn.buf ∨ ∃ name args rest, BeginsWith n.conn.buf name args rest ∧
        Unsubscribes env name args n.whole ∧ Begins rest) ∧
    (∀ s : Applying, (s.applyLoop H clock s.buf.length).failure = none ∧
        Begins (s.applyLoop H clock s.buf.length).buf ↔
      (s.applyLoop H clock s.buf.length).failure = none ∧ Blocked s.buf) ∧
    ∀ data, replayAof H clock data = runCommands H clock 0 (replayTaken data.length data).1 ∧
      (Begins (replayTaken data.length data).2 ↔ Blocked data) :=
  ⟨normalTurn_stalls_iff L env, subTurn_stalls_iff env,
    fun s => and_congr_right fun h => applyLoop_stalls_iff H clock _ s le_rfl h,
    fun data => ⟨replayLoop_eq H clock _ 0 data, replayTaken_stalls_iff _ data le_rfl⟩⟩

/-- A connection that has received an empty array and a `PING`. -/
def emptyThenPing : Net where
  shared := { store := Store.new 1 }
  conn := { ctx := {}, buf := asBytes "*0\r\n*1\r\n$4\r\nPING\r\n", status := .running false }

/-- **An empty array blocks the `PING` behind it**: the loop goes back to the socket with both in
the buffer. -/
theorem emptyThenPing_stalls :
    LoopEnds emptyThenPing (emptyThenPing.normalTurn (.plain none false)
        (Moment.on ⟨0, 0, 0, 1⟩ Host.plain)) ∧
      Begins (emptyThenPing.normalTurn (.plain none false)
        (Moment.on ⟨0, 0, 0, 1⟩ Host.plain)).conn.buf := by
  have hempty : BeginsEmpty emptyThenPing.conn.buf := beginsEmpty_iff.mpr ⟨_, rfl⟩
  exact (normalTurn_stalls_iff _ _ _).mpr (Or.inl hempty)

end VeloDB
