import VeloDB.Cmd.StringRace
import VeloDB.Net.Startup
import VeloDB.Persist.AofRewrite

/-!
# A rewrite of the log while commands run

`AofWriter::rewrite` holds the lock of the file from its beginning to its end. That keeps the
appends out, but not the commands: a connection executes a command first and asks for the lock
afterwards. A command that is executed before its database is written, and appended once the file
has been replaced, is in the new file twice.

`RewriteRace` is the server of `LogOrder` with a rewrite, step by step.

## Main definitions

* `Replayable` — commands that cannot tell the live databases from replayed ones
* `Repeats` — doing again what waits for its append changes nothing

## Main results

* `RewriteRace.rewrite_eq` — a rewrite with nothing in between
* `rewrite_keeps_writes` — what a log replays to when it has been rewritten while commands ran
-/

namespace VeloDB

open Rust

/-! ### The steps of a rewrite -/

/-- How far a rewrite has come. Nobody else holds the lock while it is on its way. -/
inductive RewritePhase
  | unlocked
  /-- The databases below `n` have been written to the temporary file. -/
  | dumping (n : ℕ) (tmp : Bytes)
  | swapped

/-- The connections, and the rewrite. -/
structure RewriteRace where
  race : Race
  phase : RewritePhase := .unlocked

namespace RewriteRace

/-- The databases. -/
abbrev databases (s : RewriteRace) : Databases := s.race.store.databases

/-- The rewrite takes the lock of the file and creates the temporary file. -/
def lock (s : RewriteRace) : RewriteRace := { s with phase := .dumping 0 [] }

/-- `write_dataset` goes on with the next database. -/
def dump (H : Host) (now : UInt64) (s : RewriteRace) : RewriteRace :=
  match s.phase with
  | .dumping n tmp => { s with
      phase := .dumping (n + 1) (tmp ++ encodeCommands (commandsForDb H now s.databases n)) }
  | _ => s

/-- The temporary file takes the place of the log. -/
def swap (s : RewriteRace) : RewriteRace :=
  match s.phase with
  | .dumping _ tmp => { race := { s.race with aof := tmp }, phase := .swapped }
  | _ => s

/-- The rewrite gives the lock back. -/
def release (s : RewriteRace) : RewriteRace := { s with phase := .unlocked }

theorem dumps_eq (H : Host) (now : UInt64) (s : RewriteRace) (n : ℕ) :
    (dump H now)^[n] s.lock = { s with
      phase := .dumping n (((List.range n).flatMap (commandsForDb H now s.databases)).flatMap
        encodeCommandForAof) } := by
  induction n with
  | zero => rfl
  | succ n ih =>
    rw [Function.iterate_succ_apply', ih, List.range_succ, List.flatMap_append,
      List.flatMap_append, List.flatMap_singleton]
    rfl

/-- **Nothing in between**: the new file is what `write_dataset` writes. -/
theorem rewrite_eq (H : Host) (now : UInt64) (s : RewriteRace) :
    ((dump H now)^[s.databases.length] s.lock).swap.release
      = { race := { s.race with aof := writeDataset H now s.databases } } := by
  rw [dumps_eq]
  rfl

end RewriteRace

/-! ### Commands and datasets -/

/-- Commands with the property `P` take databases that are alike, in the sense of `R`, to databases
that are alike, whenever they are executed, and so does a rewrite. What is alike has the same live
keys and values. -/
structure Replayable (H : Host) (n : ℕ) (P : List Bytes → Prop) (R : Databases → Databases → Prop) :
    Prop where
  live : ∀ {dbs dbs'}, R dbs dbs' → ∀ t, SameLive t dbs' dbs
  trans : ∀ {dbs dbs' dbs''}, R dbs dbs' → R dbs' dbs'' → R dbs dbs''
  empty : R (Store.new n).databases (Store.new n).databases
  step : ∀ {dbs dbs'}, R dbs dbs' → ∀ {name args}, P (name :: args) → ∀ m m' : Moment,
    (dispatch (m'.on H) (upper (m'.on H) name) args (fresh dbs' 0)).1.isOk = true →
    (dispatch (m.on H) (upper (m.on H) name) args (fresh dbs 0)).1.isOk = true ∧
      R (dispatch (m.on H) (upper (m.on H) name) args (fresh dbs 0)).2.store.databases
        (dispatch (m'.on H) (upper (m'.on H) name) args (fresh dbs' 0)).2.store.databases
  dump : ∀ {dbs dbs'}, R dbs dbs' → ∀ now, ∃ dbs'' j,
    Builds H (fresh (Store.new n).databases 0) (datasetCommands H now dbs') (fresh dbs'' j) ∧
      R dbs'' dbs'

/-- Doing again what waits for its append would change nothing. -/
structure Repeats (H : Host) (R : Databases → Databases → Prop) (waiting : Bytes)
    (dbs : Databases) : Prop where
  bytes : waiting.length < 2 ^ 63
  returns : ∀ clock, (replayAof H clock waiting (fresh dbs 0)).1.isOk = true
  alike : ∀ clock, R (replayAof H clock waiting (fresh dbs 0)).2.store.databases dbs

namespace RewriteRace

/-- The states of a server on which connections execute commands with the property `P`, all of them
in database 0 and logged, while the log is rewritten any number of times. In a `tidy` run no command
is refused for lack of memory, the log gets the commands in the order of their execution, and when
database 0 is written, doing again what waits for its append would change nothing. -/
inductive Reached (H : Host) (n : ℕ) (P : List Bytes → Prop) (R : Databases → Databases → Prop)
    (tidy : Prop) : RewriteRace → Prop
  | start (tables : Tables) (ctx : ℕ → ClientContext) :
    Reached H n P R tidy { race := { store := ⟨(Store.new n).databases, tables⟩, ctx } }
  | other {s : RewriteRace} (h : Reached H n P R tidy s) (tables : Tables)
    (ctx : ℕ → ClientContext) :
    Reached H n P R tidy
      { s with race := { s.race with store := { s.race.store with tables }, ctx } }
  | execute {s : RewriteRace} (h : Reached H n P R tidy s) {L : Listener}
    (haof : L.aofWriter = true) (m : Moment) {j : ℕ} (hidle : j ∉ s.race.toPush.map Prod.fst)
    (hauth : (s.race.ctx j).authenticated = true) (hmulti : (s.race.ctx j).multiMode = false)
    (hzero : (s.race.ctx j).dbIndex = 0) {name : Bytes} {args : List Bytes} (hP : P (name :: args))
    (hlogged : Logged H (name :: args)) (hstays : selectedAfter H [name :: args] 0 = 0)
    (hreturns : (serve L (m.on H) name args ⟨s.race.store, s.race.ctx j⟩).1.isOk = true)
    (hmemory : tidy →
      s.race.store.tables.deniesMemory (H.toUppercase (fromUtf8Lossy name)) = false) :
    Reached H n P R tidy { s with race := s.race.execute L (m.on H) j name args }
  | append {s : RewriteRace} (h : Reached H n P R tidy s) (hunlocked : s.phase = .unlocked) {j : ℕ}
    (hhas : j ∈ s.race.toAppend.map Prod.fst)
    (horder : tidy → (s.race.toAppend.map Prod.fst).head? = some j) :
    Reached H n P R tidy { s with race := s.race.append j }
  | push {s : RewriteRace} (h : Reached H n P R tidy s) {j : ℕ}
    (hhas : j ∈ s.race.toPush.map Prod.fst) (hafter : j ∉ s.race.toAppend.map Prod.fst) :
    Reached H n P R tidy { s with race := s.race.push j }
  | lock {s : RewriteRace} (h : Reached H n P R tidy s) (hunlocked : s.phase = .unlocked) :
    Reached H n P R tidy s.lock
  | dump {s : RewriteRace} (h : Reached H n P R tidy s) {k : ℕ} {tmp : Bytes}
    (hphase : s.phase = .dumping k tmp) (hk : k < s.databases.length) (now : UInt64)
    (hrepeats : tidy → k = 0 → Repeats H R (s.race.toAppend.flatMap Prod.snd) s.databases) :
    Reached H n P R tidy (s.dump H now)
  | swap {s : RewriteRace} (h : Reached H n P R tidy s) {tmp : Bytes}
    (hphase : s.phase = .dumping s.databases.length tmp) : Reached H n P R tidy s.swap
  | release {s : RewriteRace} (h : Reached H n P R tidy s) (hswapped : s.phase = .swapped) :
    Reached H n P R tidy s.release

/-- Everything has been appended, and the lock is free. -/
def Done (s : RewriteRace) : Prop := s.race.toAppend = [] ∧ s.phase = .unlocked

end RewriteRace

/-! ### Running commands on databases that are alike -/

/-- A client in database 0 of a store that has memory left. -/
structure Ready (w : Whole) : Prop where
  dbIndex : w.ctx.dbIndex = 0
  memory : w.store.tables.overMemoryLimit = false

variable {H : Host} {n : ℕ} {P : List Bytes → Prop} {R : Databases → Databases → Prop}
  {clock clock' : ℕ → Moment} {cmds todo : List (List Bytes)} {w w' : Whole} {dbs : Databases}

theorem ready_fresh (dbs : Databases) : Ready (fresh dbs 0) := ⟨rfl, rfl⟩

/-- One more logged command in database 0. -/
theorem Ready.dispatch (h : Ready w) {name : Bytes} {args : List Bytes}
    (hlogged : Logged H (name :: args)) (hstays : selectedAfter H [name :: args] 0 = 0)
    (m : Moment) :
    Ready (dispatch (m.on H) (upper (m.on H) name) args w).2 := by
  have hwrite : isWriteCommand (upper (m.on H) name) = true := hlogged
  constructor
  · rw [dbIndex_dispatch hwrite, h.dbIndex]
    exact hstays
  · rw [overMemoryLimit_dispatch hwrite (m.on H) args (deniesMemory_of_le h.memory _), h.memory]

/-- One command, whenever it is executed. -/
theorem Replayable.dispatch (h : Replayable H n P R) {name : Bytes} {args : List Bytes}
    (hP : P (name :: args)) (hlogged : Logged H (name :: args)) (hindex : w.ctx.dbIndex = 0)
    (hindex' : w'.ctx.dbIndex = 0)
    (hgate : w.store.tables.deniesMemory (H.toUppercase (fromUtf8Lossy name)) = false)
    (hgate' : w'.store.tables.deniesMemory (H.toUppercase (fromUtf8Lossy name)) = false)
    (hR : R w.store.databases w'.store.databases) (m m' : Moment)
    (hok : (dispatch (m'.on H) (upper (m'.on H) name) args w').1.isOk = true) :
    (dispatch (m.on H) (upper (m.on H) name) args w).1.isOk = true ∧
      R (dispatch (m.on H) (upper (m.on H) name) args w).2.store.databases
        (dispatch (m'.on H) (upper (m'.on H) name) args w').2.store.databases := by
  have hwrite : ∀ m : Moment, isWriteCommand (upper (m.on H) name) = true := fun _ => hlogged
  have hfresh : ∀ w : Whole, w.store.databases = (fresh w.store.databases 0).store.databases :=
    fun _ => rfl
  obtain ⟨hres, hdbs⟩ := dispatch_congr (hwrite m) (m.on H) args (hfresh w) hindex hgate
    (deniesMemory_fresh _ _ _)
  obtain ⟨hres', hdbs'⟩ := dispatch_congr (hwrite m') (m'.on H) args (hfresh w') hindex' hgate'
    (deniesMemory_fresh _ _ _)
  rw [hres'] at hok
  rw [hres, hdbs, hdbs']
  exact h.step hR hP m m' hok

/-- Any number of commands. -/
theorem Replayable.run (h : Replayable H n P R)
    (hcmds : ∀ c ∈ cmds, P c ∧ Logged H c ∧ selectedAfter H [c] 0 = 0) (hw : Ready w)
    (hw' : Ready w') (hR : R w.store.databases w'.store.databases) {k k' : ℕ}
    (hreturns : Returns H clock' k' cmds w') :
    Returns H clock k cmds w ∧ R (runCommands H clock k cmds w).2.store.databases
      (runCommands H clock' k' cmds w').2.store.databases := by
  induction cmds generalizing w w' k k' with
  | nil => exact ⟨rfl, hR⟩
  | cons c cmds ih =>
    obtain ⟨hP, hlogged, hstays⟩ := hcmds c List.mem_cons_self
    cases c with
    | nil => exact hlogged.elim
    | cons name args =>
      have hlen : ∀ k, k + ((name :: args) :: cmds).length = k + 1 + cmds.length := by
        intro k
        rw [List.length_cons]
        omega
      rw [Returns, runCommands, hlen] at hreturns ⊢
      rw [runCommands]
      rcases hd' : VeloDB.dispatch ((clock' k').on H) (upper ((clock' k').on H) name) args w' with
        ⟨e | r', w₁'⟩
      · rw [Proc.bind_error hd'] at hreturns
        cases hreturns
      · rw [Proc.bind_ok hd'] at hreturns ⊢
        obtain ⟨hok, hR₁⟩ := h.dispatch hP hlogged hw.dbIndex hw'.dbIndex
          (deniesMemory_of_le hw.memory _) (deniesMemory_of_le hw'.memory _) hR (clock k)
          (clock' k') (by rw [hd']; rfl)
        have hready := hw.dispatch hlogged hstays (clock k)
        have hready' := hw'.dispatch hlogged hstays (clock' k')
        rcases hd : VeloDB.dispatch ((clock k).on H) (upper ((clock k).on H) name) args w with
          ⟨e | r, w₁⟩
        · rw [hd] at hok
          cases hok
        · rw [hd] at hready hR₁
          rw [hd'] at hready' hR₁
          rw [Proc.bind_ok hd]
          exact ih (fun c hc => hcmds c (List.mem_cons_of_mem _ hc)) hready hready' hR₁ hreturns

/-- Commands that come to an end have all been run. -/
theorem returns_of_isOk (hne : ∀ c ∈ cmds, c ≠ []) {k : ℕ}
    (h : (runCommands H clock k cmds w).1.isOk = true) : Returns H clock k cmds w := by
  induction cmds generalizing w k with
  | nil => rfl
  | cons c cmds ih =>
    cases c with
    | nil => exact absurd rfl (hne [] List.mem_cons_self)
    | cons name args =>
      have hlen : k + ((name :: args) :: cmds).length = k + 1 + cmds.length := by
        rw [List.length_cons]
        omega
      rw [Returns, hlen]
      rw [runCommands] at h ⊢
      rcases hd : dispatch ((clock k).on H) (upper ((clock k).on H) name) args w with ⟨e | r, w₁⟩
      · rw [Proc.bind_error hd] at h
        cases h
      · rw [Proc.bind_ok hd] at h ⊢
        exact ih (fun c hc => hne c (List.mem_cons_of_mem _ hc)) h

/-! ### Commands that make up the live databases -/

/-- Run on an empty store, whenever that is done, the commands lead to these databases, up to
`R`. -/
structure Recreates (H : Host) (n : ℕ) (R : Databases → Databases → Prop)
    (cmds : List (List Bytes)) (dbs : Databases) : Prop where
  logged : ∀ c ∈ cmds, Logged H c
  selected : selectedAfter H cmds 0 = 0
  returns : ∀ clock, Returns H clock 0 cmds { store := Store.new n, ctx := {} }
  alike : ∀ clock, R (runFresh H n clock cmds).2.store.databases dbs

theorem Recreates.ready (h : Recreates H n R cmds dbs) (clock : ℕ → Moment) :
    Ready (runFresh H n clock cmds).2 := by
  have halike : Alike { store := Store.new n, ctx := {} } { store := Store.new n, ctx := {} } :=
    ⟨rfl, rfl, rfl, rfl⟩
  refine ⟨?_, (alike_runCommands h.logged 0 halike).2.memory⟩
  rw [runFresh, ctx_runCommands h.logged (h.returns clock)]
  exact h.selected

theorem runFresh_append (h : Returns H clock 0 cmds { store := Store.new n, ctx := {} })
    (cmds' : List (List Bytes)) : runFresh H n clock (cmds ++ cmds')
      = runCommands H clock cmds.length cmds' (runFresh H n clock cmds).2 := by
  rw [runFresh, runCommands_append h.run, Nat.zero_add]
  rfl

/-- More commands, which do the same to the live databases. -/
theorem Recreates.append (h : Recreates H n R cmds dbs)
    (htodo : ∀ c ∈ todo, Logged H c ∧ selectedAfter H [c] 0 = 0) {dbs' : Databases}
    (hrun : ∀ clock k w, Ready w → R w.store.databases dbs → Returns H clock k todo w ∧
      R (runCommands H clock k todo w).2.store.databases dbs') :
    Recreates H n R (cmds ++ todo) dbs' where
  logged := fun c hc => (List.mem_append.mp hc).elim (h.logged c) fun hc => (htodo c hc).1
  selected := by
    rw [selectedAfter_append, h.selected]
    exact selectedAfter_zero fun c hc => (htodo c hc).2
  returns := fun clock => by
    rw [Returns, ← runFresh, runFresh_append (h.returns clock), Nat.zero_add, List.length_append]
    exact (hrun clock cmds.length _ (h.ready clock) (h.alike clock)).1
  alike := fun clock => by
    rw [runFresh_append (h.returns clock)]
    exact (hrun clock cmds.length _ (h.ready clock) (h.alike clock)).2

/-- The live databases are made up by what the log holds and what waits for its append. -/
def Holds (H : Host) (n : ℕ) (R : Databases → Databases → Prop) (data : Bytes)
    (todo : List (List Bytes)) (dbs : Databases) : Prop :=
  ∃ done, data = encodeCommands done ∧ Recreates H n R (done ++ todo) dbs

/-- A command is executed. -/
theorem Holds.execute (h : Replayable H n P R) {data : Bytes} {name : Bytes} {args : List Bytes}
    (hP : P (name :: args)) (hlogged : Logged H (name :: args))
    (hstays : selectedAfter H [name :: args] 0 = 0) (hindex : w.ctx.dbIndex = 0)
    (hgate : w.store.tables.deniesMemory (H.toUppercase (fromUtf8Lossy name)) = false) (m : Moment)
    (hok : (dispatch (m.on H) (upper (m.on H) name) args w).1.isOk = true)
    (hholds : Holds H n R data todo w.store.databases) :
    Holds H n R data (todo ++ [name :: args])
      (dispatch (m.on H) (upper (m.on H) name) args w).2.store.databases := by
  obtain ⟨done, hdata, hrecreates⟩ := hholds
  refine ⟨done, hdata, ?_⟩
  rw [← List.append_assoc]
  refine hrecreates.append (fun c hc => List.mem_singleton.mp hc ▸ ⟨hlogged, hstays⟩)
    fun clock k w₀ hready hR => ?_
  obtain ⟨hok₀, hR'⟩ := h.dispatch hP hlogged hready.dbIndex hindex
    (deniesMemory_of_le hready.memory _) hgate hR (clock k) m hok
  rcases hd : dispatch ((clock k).on H) (upper ((clock k).on H) name) args w₀ with ⟨e | r, w₁⟩
  · rw [hd] at hok₀
    cases hok₀
  · rw [hd] at hR'
    rw [Returns, runCommands, Proc.bind_ok hd]
    exact ⟨rfl, hR'⟩

/-- The first of the commands that wait is appended. -/
theorem Holds.appended {data : Bytes} {c : List Bytes} (h : Holds H n R data (c :: todo) dbs) :
    Holds H n R (data ++ encodeCommandForAof c) todo dbs := by
  obtain ⟨done, rfl, hrecreates⟩ := h
  refine ⟨done ++ [c], ?_, ?_⟩
  · rw [encodeCommands_append]
    simp [encodeCommands]
  · rwa [List.append_assoc, List.singleton_append]

/-! ### What is written for database 0 -/

/-- There is nothing to write for the other databases. -/
theorem commandsForDb_of_stays (h : Stays 0 (Store.new n).databases dbs) (H : Host) (now : UInt64)
    {k : ℕ} (hk : k ≠ 0) : commandsForDb H now dbs k = [] := by
  have hlive : ∀ d, dbs[k]? = some d → Databases.live now d = [] := by
    intro d hd
    refine List.eq_nil_iff_forall_not_mem.mpr ?_
    rintro ⟨key, e⟩ he
    have hnone := h.find k key hk (Databases.find_new n k key)
    rw [Databases.find, hd] at hnone
    cases (Databases.mem_live.mp he).1.symm.trans hnone
  rw [commandsForDb, Databases.iterateDb, Databases.db]
  cases hd : dbs[k]? with
  | none => rfl
  | some d =>
    show (if Databases.live now d = [] then _ else _) = _
    rw [if_pos (hlive d hd)]

theorem datasetCommands_of_stays (h : Stays 0 (Store.new n).databases dbs) (hn : 0 < n) (H : Host)
    (now : UInt64) : datasetCommands H now dbs = commandsForDb H now dbs 0 := by
  have hlen : dbs.length = n - 1 + 1 := by
    rw [h.length, Store.new, List.length_replicate]
    omega
  have hrest : ∀ k ∈ (List.range (n - 1)).map Nat.succ, commandsForDb H now dbs k = [] := by
    intro k hk
    obtain ⟨k', -, rfl⟩ := List.mem_map.mp hk
    exact commandsForDb_of_stays h H now (Nat.succ_ne_zero k')
  rw [datasetCommands, hlen, List.range_succ_eq_map, List.flatMap_cons,
    List.flatMap_eq_nil_iff.mpr hrest, List.append_nil]

/-- Database 0 is still selected after it. -/
theorem selectedAfter_commandsForDb (H : Host) (now : UInt64) (dbs : Databases) :
    selectedAfter H (commandsForDb H now dbs 0) 0 = 0 := by
  rw [commandsForDb]
  split
  · rfl
  · next entries _ =>
    have hentries : ∀ c ∈ entries.flatMap (commandsForEntry H), ¬IsSelect H c := by
      intro c hc
      obtain ⟨p, -, hc⟩ := List.mem_flatMap.mp hc
      exact (logged_commandsForEntry hc).2
    split_ifs
    · rfl
    · rw [selectedAfter_append]
      have hselect : selectedAfter H [[asBytes "SELECT", asBytes (toString 0)]] 0 = 0 :=
        selectedAfter_selectCommand (Nat.zero_le _) 0
      rw [hselect]
      exact (inPlace_const hentries).2
    · exact (inPlace_const hentries).2

/-- **Database 0 is written.** The new file, with what waits for its append, makes up the live
databases, because doing that again changes nothing. -/
theorem Holds.dumped (h : Replayable H n P R) (hn : 0 < n)
    (hstays : Stays 0 (Store.new n).databases dbs)
    (hcmds : ∀ c ∈ todo, P c ∧ Logged H c ∧ selectedAfter H [c] 0 = 0) {dbs' : Databases}
    (hR : R dbs' dbs) (hrepeats : Repeats H R (encodeCommands todo) dbs) (now : UInt64) :
    Holds H n R (encodeCommands (commandsForDb H now dbs 0)) todo dbs := by
  obtain ⟨dbs'', j, hbuilds, halike⟩ := h.dump hR now
  rw [datasetCommands_of_stays hstays hn] at hbuilds
  have hdump : Recreates H n R (commandsForDb H now dbs 0) dbs := by
    refine ⟨fun c hc => ?_, selectedAfter_commandsForDb H now dbs,
      fun clock => congrArg Prod.fst (hbuilds clock 0), fun clock => ?_⟩
    · rw [← datasetCommands_of_stays hstays hn] at hc
      exact logged_datasetCommands hc
    · have hrun : runFresh H n clock (commandsForDb H now dbs 0) = _ := hbuilds clock 0
      rw [hrun]
      exact halike
  have hreplay : ∀ clock, replayAof H clock (encodeCommands todo) = runCommands H clock 0 todo := by
    intro clock
    refine replay_encoded ?_ hrepeats.bytes
    rintro c hc rfl
    exact (hcmds [] hc).2.1
  refine ⟨_, rfl, hdump.append (fun c hc => (hcmds c hc).2) fun clock k w hready hR => ?_⟩
  have hok := hrepeats.returns clock
  have hsame := hrepeats.alike clock
  rw [hreplay] at hok hsame
  have hreturns : Returns H clock 0 todo (fresh dbs 0) := by
    refine returns_of_isOk ?_ hok
    rintro c hc rfl
    exact (hcmds [] hc).2.1
  have hrun : Returns H clock k todo w ∧ R (runCommands H clock k todo w).2.store.databases
      (runCommands H clock 0 todo (fresh dbs 0)).2.store.databases :=
    h.run hcmds hready (ready_fresh dbs) hR hreturns
  exact ⟨hrun.1, h.trans hrun.2 hsame⟩

/-! ### The invariant -/

namespace RewriteRace

/-- These commands wait for their append. With them the log, and the new file once database 0 has
been written to it, make up the live databases. -/
structure Keeps (H : Host) (n : ℕ) (P : List Bytes → Prop) (R : Databases → Databases → Prop)
    (s : RewriteRace) (todo : List (List Bytes)) : Prop where
  waiting : s.race.toAppend.map Prod.snd = todo.map encodeCommandForAof
  commands : ∀ c ∈ todo, P c ∧ Logged H c ∧ selectedAfter H [c] 0 = 0
  stays : Stays 0 (Store.new n).databases s.databases
  aof : Holds H n R s.race.aof todo s.databases
  started : ∀ tmp, s.phase = .dumping 0 tmp → tmp = []
  dumped : ∀ k tmp, s.phase = .dumping (k + 1) tmp → Holds H n R tmp todo s.databases

theorem Keeps.flatMap_waiting {s : RewriteRace} (h : s.Keeps H n P R todo) :
    s.race.toAppend.flatMap Prod.snd = encodeCommands todo := by
  rw [encodeCommands, List.flatMap_def, h.waiting, List.flatMap_def]

/-- A connection executes a command. -/
theorem Keeps.execute (hrep : Replayable H n P R) {s : RewriteRace} (h : s.Keeps H n P R todo)
    {L : Listener} (haof : L.aofWriter = true) {m : Moment} {j : ℕ}
    (hauth : (s.race.ctx j).authenticated = true) (hmulti : (s.race.ctx j).multiMode = false)
    (hzero : (s.race.ctx j).dbIndex = 0) {name : Bytes} {args : List Bytes} (hP : P (name :: args))
    (hlogged : Logged H (name :: args)) (hstays : selectedAfter H [name :: args] 0 = 0)
    (hreturns : (serve L (m.on H) name args ⟨s.race.store, s.race.ctx j⟩).1.isOk = true)
    (hmemory : s.race.store.tables.deniesMemory (H.toUppercase (fromUtf8Lossy name)) = false) :
    Keeps H n P R { s with race := s.race.execute L (m.on H) j name args }
      (todo ++ [name :: args]) := by
  have hwrite : isWriteCommand (upper (m.on H) name) = true := hlogged
  let w : Whole := ⟨s.race.store, s.race.ctx j⟩
  obtain ⟨hok, hstore, hsent⟩ := serve_write L args (w := w) hwrite hauth hmulti
  rcases hserve : serve L (m.on H) name args w with ⟨e | served, w₁⟩
  · rw [hserve] at hreturns
    cases hreturns
  · rw [hserve] at hok hstore hsent
    have hbytes := (hsent served rfl).1
    rw [haof, if_pos rfl] at hbytes
    have hdispatch : (dispatch (m.on H) (upper (m.on H) name) args w).1.isOk = true := hok.symm
    have hholds : ∀ data, Holds H n R data todo s.databases →
        Holds H n R data (todo ++ [name :: args]) w₁.store.databases := by
      intro data hdata
      have hstore' : w₁.store = (dispatch (m.on H) (upper (m.on H) name) args w).2.store := hstore
      rw [hstore']
      exact Holds.execute hrep hP hlogged hstays hzero hmemory m hdispatch hdata
    have hleaves : Stays 0 s.databases w₁.store.databases := by
      have hstays' := stays_logged hwrite (m.on H) args w
      rw [← hstore] at hstays'
      rwa [← hzero]
    rw [Race.execute, hserve]
    refine ⟨?_, fun c hc => ?_, ?_, hholds _ h.aof, h.started,
      fun k tmp hphase => hholds tmp (h.dumped k tmp hphase)⟩
    · show (s.race.toAppend ++ [(j, served.logged)]).map Prod.snd = _
      rw [List.map_append, h.waiting, hbytes, List.map_append]
      rfl
    · rcases List.mem_append.mp hc with hc | hc
      · exact h.commands c hc
      · rw [List.mem_singleton.mp hc]
        exact ⟨hP, hlogged, hstays⟩
    · exact ⟨hleaves.length.trans h.stays.length,
        fun i k hi hk => hleaves.find i k hi (h.stays.find i k hi hk)⟩

/-- The first connection that has to append does so. -/
theorem Keeps.append {s : RewriteRace} (h : s.Keeps H n P R todo) (hunlocked : s.phase = .unlocked)
    {j : ℕ} (hfirst : (s.race.toAppend.map Prod.fst).head? = some j) :
    ∃ todo', Keeps H n P R { s with race := s.race.append j } todo' := by
  obtain ⟨⟨store, ctx, aof, stream, toAppend, toPush⟩, phase⟩ := s
  cases toAppend with
  | nil => cases hfirst
  | cons p l =>
    obtain ⟨i, bytes⟩ := p
    obtain rfl : i = j := Option.some.inj hfirst
    cases todo with
    | nil => cases h.waiting
    | cons c todo =>
      obtain ⟨hbytes, hrest⟩ := List.cons.inj h.waiting
      obtain rfl : bytes = encodeCommandForAof c := hbytes
      have happend :
          Race.append ⟨store, ctx, aof, stream, (i, encodeCommandForAof c) :: l, toPush⟩ i
          = ⟨store, ctx, aof ++ encodeCommandForAof c, stream, l, toPush⟩ := by
        simp [Race.append, Race.pending, Race.drop]
      rw [happend]
      refine ⟨todo, hrest, fun c hc => h.commands c (List.mem_cons_of_mem _ hc), h.stays,
        h.aof.appended, h.started, fun k tmp hphase => ?_⟩
      obtain rfl : phase = .unlocked := hunlocked
      cases hphase

/-- The next database is written. -/
theorem Keeps.dump (hrep : Replayable H n P R) (hn : 0 < n) {s : RewriteRace}
    (h : s.Keeps H n P R todo) {k : ℕ} {tmp : Bytes} (hphase : s.phase = .dumping k tmp)
    (now : UInt64)
    (hrepeats : k = 0 → Repeats H R (s.race.toAppend.flatMap Prod.snd) s.databases) :
    (s.dump H now).Keeps H n P R todo := by
  have hdump : s.dump H now = { s with
      phase := .dumping (k + 1) (tmp ++ encodeCommands (commandsForDb H now s.databases k)) } := by
    rw [RewriteRace.dump, hphase]
  rw [hdump]
  refine ⟨h.waiting, h.commands, h.stays, h.aof, (fun tmp' heq => by cases heq),
    fun k' tmp' heq => ?_⟩
  obtain ⟨hk, rfl⟩ := RewritePhase.dumping.inj heq
  obtain rfl := Nat.succ.inj hk
  cases k with
  | zero =>
    obtain rfl := h.started tmp hphase
    obtain ⟨done, -, hrecreates⟩ := h.aof
    have hrepeats := hrepeats rfl
    rw [h.flatMap_waiting] at hrepeats
    exact Holds.dumped hrep hn h.stays h.commands (hrecreates.alike fun _ => ⟨0, 0, 0, 0⟩) hrepeats
      now
  | succ k =>
    rw [commandsForDb_of_stays h.stays H now (Nat.succ_ne_zero k)]
    have hnothing : tmp ++ encodeCommands [] = tmp := List.append_nil tmp
    rw [hnothing]
    exact h.dumped k tmp hphase

/-- The new file takes the place of the log. -/
theorem Keeps.swap (hn : 0 < n) {s : RewriteRace} (h : s.Keeps H n P R todo) {tmp : Bytes}
    (hphase : s.phase = .dumping s.databases.length tmp) : s.swap.Keeps H n P R todo := by
  have hlen : s.databases.length = n - 1 + 1 := by
    rw [h.stays.length, Store.new, List.length_replicate]
    omega
  have hswap : s.swap = { race := { s.race with aof := tmp }, phase := .swapped } := by
    rw [RewriteRace.swap, hphase]
  rw [hlen] at hphase
  rw [hswap]
  exact ⟨h.waiting, h.commands, h.stays, h.dumped _ tmp hphase, (fun _ heq => by cases heq),
    fun _ _ heq => by cases heq⟩

/-- **Every state that is reached.** -/
theorem Reached.keeps (hrep : Replayable H n P R) (hn : 0 < n) {tidy : Prop} (htidy : tidy)
    {s : RewriteRace} (h : Reached H n P R tidy s) : ∃ todo, s.Keeps H n P R todo := by
  induction h with
  | start tables ctx =>
    refine ⟨[], rfl, fun _ hc => absurd hc List.not_mem_nil, ⟨rfl, fun _ _ _ h => h⟩,
      ⟨[], rfl, fun _ hc => absurd hc List.not_mem_nil, rfl, fun _ => rfl, fun _ => hrep.empty⟩,
      (fun _ heq => by cases heq), fun _ _ heq => by cases heq⟩
  | other _ tables ctx ih =>
    obtain ⟨todo, hk⟩ := ih
    exact ⟨todo, hk.waiting, hk.commands, hk.stays, hk.aof, hk.started, hk.dumped⟩
  | execute _ haof m _ hauth hmulti hzero hP hlogged hstays hreturns hmemory ih =>
    obtain ⟨todo, hk⟩ := ih
    exact ⟨_, hk.execute hrep haof hauth hmulti hzero hP hlogged hstays hreturns (hmemory htidy)⟩
  | append _ hunlocked _ horder ih =>
    obtain ⟨todo, hk⟩ := ih
    exact hk.append hunlocked (horder htidy)
  | push _ _ _ ih =>
    obtain ⟨todo, hk⟩ := ih
    exact ⟨todo, hk.waiting, hk.commands, hk.stays, hk.aof, hk.started, hk.dumped⟩
  | lock _ _ ih =>
    obtain ⟨todo, hk⟩ := ih
    refine ⟨todo, hk.waiting, hk.commands, hk.stays, hk.aof, fun tmp heq => ?_,
      fun k tmp heq => by cases heq⟩
    exact (RewritePhase.dumping.inj heq).2.symm
  | dump _ hphase _ now hrepeats ih =>
    obtain ⟨todo, hk⟩ := ih
    exact ⟨todo, hk.dump hrep hn hphase now (hrepeats htidy)⟩
  | swap _ hphase ih =>
    obtain ⟨todo, hk⟩ := ih
    exact ⟨todo, hk.swap hn hphase⟩
  | release _ _ ih =>
    obtain ⟨todo, hk⟩ := ih
    exact ⟨todo, hk.waiting, hk.commands, hk.stays, hk.aof, (fun _ heq => by cases heq),
      fun _ _ heq => by cases heq⟩

end RewriteRace

/-- What is live is read. -/
theorem SameLive.get_eq {t : UInt64} {dbs dbs' : Databases} (h : SameLive t dbs dbs') {i : ℕ}
    (hi : i < dbs.length) (hi' : i < dbs'.length) (k : Bytes) :
    dbs.get t i k = dbs'.get t i k := by
  have hrel := h i k
  rw [Databases.get, Databases.get, Databases.entry_eq hi, Databases.entry_eq hi']
  cases he : dbs.liveEntry t i k with
  | none =>
    cases he' : dbs'.liveEntry t i k with
    | none => rfl
    | some e' =>
      rw [he, he'] at hrel
      cases hrel
  | some e =>
    cases he' : dbs'.liveEntry t i k with
    | none =>
      rw [he, he'] at hrel
      cases hrel
    | some e' =>
      rw [he, he'] at hrel
      obtain ⟨value, at_, version⟩ := e
      obtain ⟨value', at_', version'⟩ := e'
      have hvalue : value.Same value' := by
        cases hrel with
        | some h => exact h.value
      cases hvalue <;> rfl

/-- **No write is lost and none is done twice.** Once everything has been appended and no rewrite is
on its way, replaying the log on an empty store runs all its commands and gives the live keys and
values, if at each dump of database 0 what waited for its append could be done again without
changing anything. -/
theorem rewrite_keeps_writes (hrep : Replayable H n P R) (hn : 0 < n) {s : RewriteRace}
    (h : RewriteRace.Reached H n P R True s) (hdone : s.Done) (hlen : s.race.aof.length < 2 ^ 63)
    (clock : ℕ → Moment) :
    (replayAof H clock s.race.aof { store := Store.new n, ctx := {} }).1.isOk = true ∧
      ∀ t, SameLive t s.databases
        (replayAof H clock s.race.aof { store := Store.new n, ctx := {} }).2.store.databases := by
  obtain ⟨todo, hk⟩ := h.keeps hrep hn trivial
  have hnothing : todo = [] := by
    have hwaiting := hk.waiting
    rw [hdone.1] at hwaiting
    exact List.map_eq_nil_iff.mp hwaiting.symm
  subst hnothing
  obtain ⟨done, hdata, hrecreates⟩ := hk.aof
  rw [List.append_nil] at hrecreates
  have hne : ∀ c ∈ done, c ≠ [] := by
    rintro c hc rfl
    exact hrecreates.logged [] hc
  have hreplay : replayAof H clock s.race.aof = runCommands H clock 0 done := by
    rw [hdata] at hlen ⊢
    exact replay_encoded hne hlen
  have hreturns : (runCommands H clock 0 done { store := Store.new n, ctx := {} }).1 = .ok _ :=
    hrecreates.returns clock
  rw [hreplay, hreturns]
  exact ⟨rfl, hrep.live (hrecreates.alike clock)⟩

/-! ### Strings -/

/-- The same strings at the same keys of `n` databases, none of which expires, and nothing else. -/
structure SameStrings (n : ℕ) (dbs dbs' : Databases) : Prop where
  length : dbs.length = n
  length' : dbs'.length = n
  find : ∀ i k, Option.Rel (fun e e' : Entry => ∃ v, e.value = .string v ∧ e'.value = .string v ∧
    e.expireAt = none ∧ e'.expireAt = none) (dbs.find i k) (dbs'.find i k)

namespace SameStrings

variable {dbs dbs' dbs'' : Databases} {i : ℕ}

theorem cases (h : SameStrings n dbs dbs') (i : ℕ) (k : Bytes) :
    dbs.find i k = none ∧ dbs'.find i k = none ∨ ∃ e e' v, dbs.find i k = some e ∧
      dbs'.find i k = some e' ∧ e.value = .string v ∧ e'.value = .string v ∧ e.expireAt = none ∧
      e'.expireAt = none := by
  have hrel := h.find i k
  cases hf : dbs.find i k with
  | none =>
    cases hf' : dbs'.find i k with
    | none => exact Or.inl ⟨rfl, rfl⟩
    | some e' =>
      rw [hf, hf'] at hrel
      cases hrel
  | some e =>
    cases hf' : dbs'.find i k with
    | none =>
      rw [hf, hf'] at hrel
      cases hrel
    | some e' =>
      rw [hf, hf'] at hrel
      obtain ⟨v, hv⟩ : ∃ v, e.value = .string v ∧ e'.value = .string v ∧ e.expireAt = none ∧
          e'.expireAt = none := by
        cases hrel with
        | some h => exact h
      exact Or.inr ⟨e, e', v, rfl, rfl, hv⟩

theorem of_cases (hlen : dbs.length = n) (hlen' : dbs'.length = n)
    (h : ∀ i k, dbs.find i k = none ∧ dbs'.find i k = none ∨ ∃ e e' v, dbs.find i k = some e ∧
      dbs'.find i k = some e' ∧ e.value = .string v ∧ e'.value = .string v ∧ e.expireAt = none ∧
      e'.expireAt = none) : SameStrings n dbs dbs' where
  length := hlen
  length' := hlen'
  find := by
    intro i k
    rcases h i k with ⟨hf, hf'⟩ | ⟨e, e', v, hf, hf', hv⟩
    · rw [hf, hf']
      exact Option.Rel.none
    · rw [hf, hf']
      exact Option.Rel.some ⟨v, hv⟩

theorem new (n : ℕ) : SameStrings n (Store.new n).databases (Store.new n).databases :=
  of_cases List.length_replicate List.length_replicate
    fun i k => Or.inl ⟨Databases.find_new n i k, Databases.find_new n i k⟩

theorem trans (h : SameStrings n dbs dbs') (h' : SameStrings n dbs' dbs'') :
    SameStrings n dbs dbs'' := by
  refine of_cases h.length h'.length' fun i k => ?_
  rcases h.cases i k with ⟨hf, hf'⟩ | ⟨e, e', v, hf, hf', hv, hv', hexp, -⟩
  · rcases h'.cases i k with ⟨-, hf''⟩ | ⟨e', e'', v, hsome, -⟩
    · exact Or.inl ⟨hf, hf''⟩
    · cases hf'.symm.trans hsome
  · rcases h'.cases i k with ⟨hnone, -⟩ | ⟨e₁, e'', v', hf₁, hf'', hv₁, hv'', -, hexp''⟩
    · cases hf'.symm.trans hnone
    · obtain rfl := Option.some.inj (hf'.symm.trans hf₁)
      obtain rfl := StorageValue.string.inj (hv'.symm.trans hv₁)
      exact Or.inr ⟨e, e'', v, hf, hf'', hv, hv'', hexp, hexp''⟩

theorem symm (h : SameStrings n dbs dbs') : SameStrings n dbs' dbs := by
  refine of_cases h.length' h.length fun i k => ?_
  rcases h.cases i k with ⟨hf, hf'⟩ | ⟨e, e', v, hf, hf', hv, hv', hexp, hexp'⟩
  · exact Or.inl ⟨hf', hf⟩
  · exact Or.inr ⟨e', e, v, hf', hf, hv', hv, hexp', hexp⟩

theorem put (h : SameStrings n dbs dbs') (hi : i < n) (k : Bytes) {e e' : Entry} {v : Bytes}
    (hv : e.value = .string v) (hv' : e'.value = .string v) (hexp : e.expireAt = none)
    (hexp' : e'.expireAt = none) : SameStrings n (dbs.put i k e) (dbs'.put i k e') := by
  refine of_cases (Databases.length_put.trans h.length) (Databases.length_put.trans h.length')
    fun j k' => ?_
  by_cases hne : j ≠ i ∨ k' ≠ k
  · rw [Databases.find_put_of_ne hne, Databases.find_put_of_ne hne]
    exact h.cases j k'
  · rw [not_or, not_ne_iff, not_ne_iff] at hne
    obtain ⟨rfl, rfl⟩ := hne
    rw [Databases.find_put_self (h.length ▸ hi), Databases.find_put_self (h.length' ▸ hi)]
    exact Or.inr ⟨e, e', v, rfl, rfl, hv, hv', hexp, hexp'⟩

theorem expired_eq {e : Entry} (h : e.expireAt = none) (t : UInt64) : e.expired t = false := by
  rw [Entry.expired, h]

theorem sameLive (h : SameStrings n dbs dbs') (t : UInt64) : SameLive t dbs' dbs := by
  intro i k
  rw [Databases.liveEntry, Databases.liveEntry]
  rcases h.cases i k with ⟨hf, hf'⟩ | ⟨e, e', v, hf, hf', hv, hv', hexp, hexp'⟩
  · rw [hf, hf']
    exact Option.Rel.none
  · rw [hf, hf', Option.filter_some, Option.filter_some, expired_eq hexp, expired_eq hexp']
    refine Option.Rel.some ⟨?_, hexp'.trans hexp.symm⟩
    rw [hv, hv']
    exact .string v

/-- What is read does not depend on the time. -/
theorem get_eq (h : SameStrings n dbs dbs') (hi : i < n) (k : Bytes) (t t' : UInt64) :
    ∃ v, dbs.get t i k = .ok v ∧ dbs'.get t' i k = .ok v := by
  have hi' : i < dbs'.length := h.length' ▸ hi
  rw [Databases.get, Databases.get, Databases.entry_eq (h.length ▸ hi), Databases.entry_eq hi',
    Databases.liveEntry, Databases.liveEntry]
  rcases h.cases i k with ⟨hf, hf'⟩ | ⟨e, e', v, hf, hf', hv, hv', hexp, hexp'⟩
  · rw [hf, hf']
    exact ⟨none, rfl, rfl⟩
  · obtain ⟨value, x, version⟩ := e
    obtain ⟨value', x', version'⟩ := e'
    obtain rfl : value = .string v := hv
    obtain rfl : value' = .string v := hv'
    rw [hf, hf', Option.filter_some, Option.filter_some, expired_eq hexp, expired_eq hexp']
    exact ⟨some v, rfl, rfl⟩

/-- The second call of the store. -/
theorem finish (h : SameStrings n dbs dbs') (hi : i < n) (k : Bytes) (v : Option Bytes)
    (c : StringChange) :
    (c.finish i k v ⟨dbs, []⟩).1 = (c.finish i k v ⟨dbs', []⟩).1 ∧
      SameStrings n (c.finish i k v ⟨dbs, []⟩).2.databases
        (c.finish i k v ⟨dbs', []⟩).2.databases := by
  have hi₁ : i < dbs.length := h.length ▸ hi
  have hi₂ : i < dbs'.length := h.length' ▸ hi
  cases c with
  | add by_ =>
    rw [StringChange.finish]
    cases checkedAdd ((v >>= parseI64).getD 0) by_ with
    | none => exact ⟨rfl, h⟩
    | some new =>
      rw [orError, lift_ok_bind, Proc.bind_ok (Keyspace.set_run hi₁ _ _ _),
        Proc.bind_ok (Keyspace.set_run hi₂ _ _ _)]
      exact ⟨rfl, h.put hi k rfl rfl rfl rfl⟩
  | extend suffix =>
    rw [StringChange.finish, Proc.bind_ok (Keyspace.set_run hi₁ _ _ _),
      Proc.bind_ok (Keyspace.set_run hi₂ _ _ _)]
    exact ⟨rfl, h.put hi k rfl rfl rfl rfl⟩

/-- A command that reads a string and writes it. -/
theorem call (h : SameStrings n dbs dbs') (hi : i < n) (k : Bytes) (u : StringUpdate)
    (env env' : Env) :
    (u.call env i k ⟨dbs, []⟩).1 = (u.call env' i k ⟨dbs', []⟩).1 ∧
      SameStrings n (u.call env i k ⟨dbs, []⟩).2.databases
        (u.call env' i k ⟨dbs', []⟩).2.databases := by
  rw [StringUpdate.call_eq, StringUpdate.call_eq]
  cases u.change with
  | error e => exact ⟨rfl, h⟩
  | ok c =>
    obtain ⟨v, hget, hget'⟩ := h.get_eq hi k env.now env'.now
    have hread : Keyspace.read (fun dbs => dbs.get env.now i k) ⟨dbs, []⟩
        = (.ok v, ⟨dbs, []⟩) := by
      rw [Keyspace.read, hget]
      rfl
    have hread' : Keyspace.read (fun dbs => dbs.get env'.now i k) ⟨dbs', []⟩
        = (.ok v, ⟨dbs', []⟩) := by
      rw [Keyspace.read, hget']
      rfl
    rw [lift_ok_bind, Proc.bind_ok hread, lift_ok_bind, Proc.bind_ok hread']
    exact h.finish hi k v c

/-- `SET` without options. -/
theorem set (h : SameStrings n dbs dbs') (hi : i < n) (k v : Bytes) (env env' : Env) :
    (Cmd.set env i [k, v] ⟨dbs, []⟩).1 = (Cmd.set env' i [k, v] ⟨dbs', []⟩).1 ∧
      SameStrings n (Cmd.set env i [k, v] ⟨dbs, []⟩).2.databases
        (Cmd.set env' i [k, v] ⟨dbs', []⟩).2.databases := by
  have hset : ∀ env dbs, Cmd.set env i [k, v] ⟨dbs, []⟩
      = (Keyspace.set i k v none >>= fun _ => pure RespValue.ok) ⟨dbs, []⟩ := fun _ _ => rfl
  rw [hset, hset, Proc.bind_ok (Keyspace.set_run (h.length ▸ hi) _ _ _),
    Proc.bind_ok (Keyspace.set_run (h.length' ▸ hi) _ _ _)]
  exact ⟨rfl, h.put hi k rfl rfl rfl rfl⟩

/-- What has been written for strings is strings again. -/
theorem dump (h : SameStrings n dbs dbs') (hmax : n ≤ usizeMax) (H : Host) (now : UInt64) :
    ∃ dbs'' j, Builds H (VeloDB.fresh (Store.new n).databases 0) (datasetCommands H now dbs')
      (VeloDB.fresh dbs'' j) ∧ SameStrings n dbs'' dbs' := by
  have hstring : ∀ i k e, dbs'.find i k = some e →
      e.expireAt = none ∧ ∃ v, e.value = .string v := by
    intro i k e he
    rcases h.cases i k with ⟨-, hnone⟩ | ⟨e₁, e', v, -, hf', -, hv', -, hexp'⟩
    · cases he.symm.trans hnone
    · obtain rfl := Option.some.inj (he.symm.trans hf')
      exact ⟨hexp', v, hv'⟩
  have hv : ∀ d ∈ dbs', ∀ p ∈ Databases.live now d,
      Replays H (fun e o => ∃ e', o = some e' ∧ Restored e e') p := by
    intro d hd p hp dbs i hi hnone
    obtain ⟨j, hj⟩ := List.getElem?_of_mem hd
    have hfind : dbs'.find j p.1 = some p.2 := by
      rw [Databases.find, hj]
      exact (Databases.mem_live.mp hp).1
    obtain ⟨-, v, hvalue⟩ := hstring j p.1 p.2 hfind
    have hrewritable : p.2.value.Rewritable := by
      rw [hvalue]
      trivial
    have hprintable : p.2.value.Printable H := by
      rw [hvalue]
      trivial
    obtain ⟨dbs₁, e', hbuilds, hwrote, hrestored⟩ := builds_entry hrewritable hprintable hi hnone
    exact ⟨dbs₁, some e', hbuilds, hwrote.leaves, e', rfl, hrestored⟩
  obtain ⟨dbs'', j, hbuilds, hfilled⟩ := builds_dataset hv (h.length' ▸ hmax)
  rw [h.length'] at hbuilds
  refine ⟨dbs'', j, hbuilds, of_cases (hfilled.length.trans h.length') h.length' fun i k => ?_⟩
  cases hf : dbs'.find i k with
  | none =>
    refine Or.inl ⟨?_, rfl⟩
    by_cases hi : i < dbs'.length
    · exact hfilled.absent i hi k (by rw [Databases.liveEntry, hf]; rfl)
    · exact hfilled.rest i (Nat.le_of_not_lt hi) k
  | some e =>
    obtain ⟨hexp, v, hvalue⟩ := hstring i k e hf
    have hlive : dbs'.liveEntry now i k = some e := by
      rw [Databases.liveEntry, hf, Option.filter_some, expired_eq hexp]
      rfl
    obtain ⟨e'', hf'', hrestored⟩ := hfilled.done i (Databases.lt_of_liveEntry hlive) k e hlive
    have hcontents := hrestored.contents
    rw [hvalue] at hcontents
    refine Or.inr ⟨e'', e, v, hf'', rfl, ?_, hvalue, hrestored.expireAt.symm.trans hexp, hexp⟩
    cases hvalue'' : e''.value with
    | string v'' =>
      rw [hvalue''] at hcontents
      cases hcontents
      rfl
    | _ =>
      rw [hvalue''] at hcontents
      cases hcontents

end SameStrings

/-- The commands that read a string and write it, as the table has them. -/
def StringUpdate.definition : StringUpdate → CommandDef
  | .incr => ⟨"INCR", 2, .write Cmd.incr⟩
  | .incrby _ => ⟨"INCRBY", 3, .write Cmd.incrby⟩
  | .decr => ⟨"DECR", 2, .write Cmd.decr⟩
  | .decrby _ => ⟨"DECRBY", 3, .write Cmd.decrby⟩
  | .append _ => ⟨"APPEND", 3, .write Cmd.append⟩

/-- Their arguments. -/
def StringUpdate.args (k : Bytes) : StringUpdate → List Bytes
  | .incr | .decr => [k]
  | .incrby x | .decrby x | .append x => [k, x]

/-- The command as a client sends it. -/
def StringUpdate.command (k : Bytes) (u : StringUpdate) : List Bytes :=
  asBytes u.definition.name :: u.args k

theorem StringUpdate.definition_mem (u : StringUpdate) : u.definition ∈ commands := by
  cases u <;> simp [definition, commands, Cmd.stringCommands]

theorem StringUpdate.handler_eq (u : StringUpdate) (k : Bytes) :
    u.definition.refuses (u.args k) = false ∧ ∃ f, u.definition.handler = .write f ∧
      ∀ env i, f env i (u.args k) = u.call env i k := by
  cases u <;> exact ⟨refuses_of_length rfl (by simp [args]), _, rfl, fun _ _ => rfl⟩

/-- The command sets a string, or reads and writes one. -/
def IsStringWrite (c : List Bytes) : Prop := IsSet c ∨ ∃ k u, c = StringUpdate.command k u

/-- A writing command on two stores, on which its handler gives the same reply. -/
theorem dispatch_fresh {c : CommandDef} (hc : c ∈ commands)
    {f : Env → ℕ → List Bytes → KeyM RespValue} (hf : c.handler = .write f) {args : List Bytes}
    (hargs : c.refuses args = false) {env env' : Env} {dbs dbs' : Databases} {i : ℕ}
    (hreply : (f env i args ⟨dbs, []⟩).1 = (f env' i args ⟨dbs', []⟩).1) :
    (dispatch env c.name args (fresh dbs i)).1 = (dispatch env' c.name args (fresh dbs' i)).1 ∧
      (dispatch env c.name args (fresh dbs i)).2.store.databases
        = (f env i args ⟨dbs, []⟩).2.databases ∧
      (dispatch env' c.name args (fresh dbs' i)).2.store.databases
        = (f env' i args ⟨dbs', []⟩).2.databases := by
  rw [dispatch_eq hc env (deniesMemory_fresh dbs i _) hargs,
    dispatch_eq hc env' (deniesMemory_fresh dbs' i _) hargs, catchError_snd, catchError_snd, hf]
  exact ⟨catchError_congr hreply, rfl, rfl⟩

/-- **Writing strings** does the same whenever it is done, and on replayed strings. -/
theorem replayable_strings (H : Host) {n : ℕ} (hn : 0 < n) (hmax : n ≤ usizeMax) :
    Replayable H n IsStringWrite (SameStrings n) where
  live := fun h t => h.sameLive t
  trans := SameStrings.trans
  empty := SameStrings.new n
  dump := fun h now => h.dump hmax H now
  step := by
    rintro dbs dbs' h name args (⟨k, v, hc⟩ | ⟨k, u, hc⟩) m m' hok
    · obtain ⟨rfl, rfl⟩ := List.cons.inj hc
      obtain ⟨hreply, hsame⟩ := h.set hn k v (m.on H) (m'.on H)
      have hname : ∀ m : Moment, upper (m.on H) (asBytes "SET") = setDef.name :=
        fun m => upper_name setDef_mem _
      obtain ⟨hres, hdbs, hdbs'⟩ := dispatch_fresh setDef_mem rfl rfl hreply
      rw [hname] at hok ⊢
      rw [hname, hres, hdbs, hdbs']
      exact ⟨hok, hsame⟩
    · obtain ⟨rfl, rfl⟩ := List.cons.inj hc
      obtain ⟨hargs, f, hf, hcall⟩ := u.handler_eq k
      obtain ⟨hreply, hsame⟩ := h.call hn k u (m.on H) (m'.on H)
      rw [← hcall, ← hcall] at hreply hsame
      have hname : ∀ m : Moment, upper (m.on H) (asBytes u.definition.name) = u.definition.name :=
        fun m => upper_name u.definition_mem _
      obtain ⟨hres, hdbs, hdbs'⟩ := dispatch_fresh u.definition_mem hf hargs hreply
      rw [hname] at hok ⊢
      rw [hname, hres, hdbs, hdbs']
      exact ⟨hok, hsame⟩

theorem logged_stringWrite (H : Host) {c : List Bytes} (hc : IsStringWrite c) :
    Logged H c ∧ selectedAfter H [c] 0 = 0 := by
  rcases hc with ⟨k, v, rfl⟩ | ⟨k, u, rfl⟩
  · exact ⟨logged_setCommand H k v, selectedAfter_of_not_isSelect (not_isSelect_setCommand H k v) 0⟩
  · have hname : H.toUppercase (fromUtf8Lossy (asBytes u.definition.name)) = u.definition.name :=
      upper_name u.definition_mem (Moment.on ⟨0, 0, 0, 0⟩ H)
    have hall : ∀ name ∈ ["INCR", "INCRBY", "DECR", "DECRBY", "APPEND"],
        isWriteCommand name = true ∧ name ≠ "SELECT" := by decide
    have hwrite : isWriteCommand u.definition.name = true ∧ u.definition.name ≠ "SELECT" := by
      cases u <;> exact hall _ (by simp [StringUpdate.definition])
    constructor
    · show isWriteCommand (H.toUppercase (fromUtf8Lossy (asBytes u.definition.name))) = true
      rw [hname]
      exact hwrite.1
    · refine selectedAfter_of_not_isSelect ?_ 0
      show H.toUppercase (fromUtf8Lossy (asBytes u.definition.name)) ≠ "SELECT"
      rw [hname]
      exact hwrite.2

/-- Setting a string to what it is. -/
theorem repeats_set (H : Host) {dbs : Databases} (h : SameStrings n dbs dbs) (hn : 0 < n)
    {k v : Bytes} {t : UInt64} (hget : dbs.get t 0 k = .ok (some v))
    (hlen : (encodeCommands [setCommand k v]).length < 2 ^ 63) :
    Repeats H (SameStrings n) (encodeCommands [setCommand k v]) dbs := by
  have hreplay : ∀ clock, replayAof H clock (encodeCommands [setCommand k v])
      = runCommands H clock 0 [setCommand k v] := by
    intro clock
    refine replay_encoded (fun c hc => ?_) hlen
    rw [List.mem_singleton.mp hc]
    exact List.cons_ne_nil _ _
  have hset : SameStrings n (setString dbs 0 k v) dbs := by
    refine SameStrings.of_cases (Databases.length_put.trans h.length) h.length fun i k' => ?_
    by_cases hne : i ≠ 0 ∨ k' ≠ k
    · rw [setString, Databases.find_put_of_ne hne]
      exact h.cases i k'
    · rw [not_or, not_ne_iff, not_ne_iff] at hne
      obtain ⟨rfl, rfl⟩ := hne
      rw [setString, Databases.find_put_self (h.length ▸ hn)]
      rw [Databases.get, Databases.entry_eq (h.length ▸ hn), Databases.liveEntry] at hget
      rcases h.cases 0 k' with ⟨hf, -⟩ | ⟨e, _, v', hf, -, hv, -, hexp, -⟩
      · rw [hf] at hget
        cases hget
      · obtain ⟨value, x, version⟩ := e
        obtain rfl : value = .string v' := hv
        rw [hf, Option.filter_some, SameStrings.expired_eq hexp] at hget
        obtain rfl : v' = v := Option.some.inj (Except.ok.inj hget)
        exact Or.inr ⟨_, _, v', rfl, hf, rfl, rfl, rfl, hexp⟩
  have hrun : ∀ clock, runCommands H clock 0 [setCommand k v] (fresh dbs 0)
      = (.ok 1, fresh (setString dbs 0 k v) 0) := fun clock => runCommands_set k v rfl 0
  refine ⟨hlen, fun clock => ?_, fun clock => ?_⟩
  · rw [hreplay, hrun]
    rfl
  · rw [hreplay, hrun]
    exact hset

/-! ### Two rewrites -/

namespace RewriteRace

/-- A server with one database and a log. -/
def fresh : RewriteRace := { race := Race.fresh }

/-- A connection to `fresh` executes a command. -/
def command (s : RewriteRace) (j : ℕ) (cmd : List Bytes) : RewriteRace :=
  { s with
    race := s.race.execute (Listener.plain none true) (Moment.on ⟨0, 0, 0, 0⟩ Host.plain) j
      (cmd.headD []) cmd.tail }

/-- A connection appends its command to the log and pushes it to the stream. -/
def send (s : RewriteRace) (j : ℕ) : RewriteRace := { s with race := (s.race.append j).push j }

variable {tidy : Prop} {s : RewriteRace}

theorem Reached.command (h : Reached Host.plain 1 IsStringWrite (SameStrings 1) tidy s) (j : ℕ)
    {cmd : List Bytes} (hcmd : IsStringWrite cmd) (hidle : j ∉ s.race.toPush.map Prod.fst)
    (hctx : s.race.ctx j = {})
    (hreturns : (serve (Listener.plain none true) (Moment.on ⟨0, 0, 0, 0⟩ Host.plain)
      (cmd.headD []) cmd.tail ⟨s.race.store, s.race.ctx j⟩).1.isOk = true)
    (hmemory : s.race.store.tables.overMemoryLimit = false) :
    Reached Host.plain 1 IsStringWrite (SameStrings 1) tidy (s.command j cmd) := by
  obtain ⟨hlogged, hstays⟩ := logged_stringWrite Host.plain hcmd
  cases cmd with
  | nil => exact hlogged.elim
  | cons name args =>
    refine .execute h rfl ⟨0, 0, 0, 0⟩ hidle ?_ ?_ ?_ hcmd hlogged hstays hreturns
      fun _ => deniesMemory_of_le hmemory _
    · rw [hctx]
    · rw [hctx]
    · rw [hctx]

theorem Reached.replace (h : Reached Host.plain 1 IsStringWrite (SameStrings 1) tidy s)
    {tmp : Bytes} (hphase : s.phase = .dumping 1 tmp) (hlen : s.databases.length = 1) :
    Reached Host.plain 1 IsStringWrite (SameStrings 1) tidy s.swap.release := by
  have hswap : s.swap.phase = .swapped := by rw [RewriteRace.swap, hphase]
  rw [← hlen] at hphase
  exact .release (.swap h hphase) hswap

theorem Reached.send (h : Reached Host.plain 1 IsStringWrite (SameStrings 1) tidy s) (j : ℕ)
    (hunlocked : s.phase = .unlocked) (hfirst : (s.race.toAppend.map Prod.fst).head? = some j)
    (hhas : j ∈ s.race.toPush.map Prod.fst)
    (hafter : j ∉ (s.race.append j).toAppend.map Prod.fst) :
    Reached Host.plain 1 IsStringWrite (SameStrings 1) tidy (s.send j) :=
  .push (.append h hunlocked (List.mem_of_head? hfirst) fun _ => hfirst) hhas hafter

/-- `INCR a` and `SET b 5`, of which the first has been sent, and a rewrite that has taken the
lock. -/
def beforeDump : RewriteRace :=
  (((fresh.command 0 (StringUpdate.command [97] .incr)).send 0).command 1
    (setCommand [98] [53])).lock

theorem reached_beforeDump (tidy : Prop) :
    Reached Host.plain 1 IsStringWrite (SameStrings 1) tidy beforeDump := by
  have hfresh : Reached Host.plain 1 IsStringWrite (SameStrings 1) tidy fresh :=
    .start {} fun _ => {}
  have hincr := hfresh.command 0 (Or.inr ⟨[97], .incr, rfl⟩) (by decide +kernel) rfl
    (by decide +kernel) (by decide +kernel)
  have hsent := hincr.send 0 rfl (by decide +kernel) (by decide +kernel) (by decide +kernel)
  exact .lock (hsent.command 1 (Or.inl ⟨[98], [53], rfl⟩) (by decide +kernel) (by decide +kernel)
    (by decide +kernel) (by decide +kernel)) rfl

end RewriteRace

/-- Setting `b` once more would change nothing. -/
theorem reached_beforeDump_dump :
    RewriteRace.Reached Host.plain 1 IsStringWrite (SameStrings 1) True
      (RewriteRace.beforeDump.dump Host.plain 0) := by
  have hbefore := RewriteRace.reached_beforeDump True
  have hlive : SameStrings 1 RewriteRace.beforeDump.databases RewriteRace.beforeDump.databases := by
    have hrep := replayable_strings Host.plain Nat.one_pos (by decide)
    obtain ⟨todo, hk⟩ := hbefore.keeps hrep Nat.one_pos trivial
    obtain ⟨done, -, hrecreates⟩ := hk.aof
    have hsame := hrecreates.alike fun _ => ⟨0, 0, 0, 0⟩
    exact hsame.symm.trans hsame
  have hrepeats : Repeats Host.plain (SameStrings 1)
      (RewriteRace.beforeDump.race.toAppend.flatMap Prod.snd) RewriteRace.beforeDump.databases := by
    have hwaiting : RewriteRace.beforeDump.race.toAppend.flatMap Prod.snd
        = encodeCommands [setCommand [98] [53]] := by decide +kernel
    have hget : RewriteRace.beforeDump.databases.get 0 0 [98] = .ok (some [53]) := by decide +kernel
    rw [hwaiting]
    exact repeats_set Host.plain hlive Nat.one_pos hget (by decide +kernel)
  exact hbefore.dump rfl (by decide +kernel) 0 fun _ _ => hrepeats

/-- `INCR a` is executed once more before the new file takes the place of the log, and then both
commands that wait are sent. -/
def RewriteRace.afterRewrite : RewriteRace :=
  (((beforeDump.dump Host.plain 0).command 2 (StringUpdate.command [97] .incr)).swap.release.send
    1).send 2

/-- `SET b 5` waits for its append while database 0 is written. -/
theorem rewrite_keeps_writes_waiting :
    (replayAof Host.plain (fun _ => ⟨0, 0, 0, 0⟩) RewriteRace.afterRewrite.race.aof
      ⟨Store.new 1, {}⟩).1.isOk = true ∧
    ∀ t, SameLive t RewriteRace.afterRewrite.databases
      (replayAof Host.plain (fun _ => ⟨0, 0, 0, 0⟩) RewriteRace.afterRewrite.race.aof
        ⟨Store.new 1, {}⟩).2.store.databases := by
  have hincr := reached_beforeDump_dump.command 2 (Or.inr ⟨[97], .incr, rfl⟩) (by decide +kernel)
    (by decide +kernel) (by decide +kernel) (by decide +kernel)
  have hreleased := hincr.replace rfl (by decide +kernel)
  have hsent := hreleased.send 1 rfl (by decide +kernel) (by decide +kernel) (by decide +kernel)
  have hreached : RewriteRace.Reached Host.plain 1 IsStringWrite (SameStrings 1) True
      RewriteRace.afterRewrite :=
    hsent.send 2 rfl (by decide +kernel) (by decide +kernel) (by decide +kernel)
  have hrep := replayable_strings Host.plain Nat.one_pos (by decide)
  have hdone : RewriteRace.afterRewrite.Done := ⟨by decide +kernel, rfl⟩
  exact rewrite_keeps_writes hrep Nat.one_pos hreached hdone (by decide +kernel)
    fun _ => ⟨0, 0, 0, 0⟩

/-- `INCR a` is executed before database 0 is written, and appended to the new file: the live number
is 1, and the replayed one is 2. -/
theorem rewrite_repeats_write :
    let s := (((RewriteRace.fresh.command 0 (StringUpdate.command [97] .incr)).lock.dump Host.plain
      0).swap.release.send 0)
    let replayed := (replayAof Host.plain (fun _ => ⟨0, 0, 0, 0⟩) s.race.aof
      { store := Store.new 1, ctx := {} }).2.store.databases
    Replayable Host.plain 1 IsStringWrite (SameStrings 1) ∧
      RewriteRace.Reached Host.plain 1 IsStringWrite (SameStrings 1) False s ∧ s.Done ∧
      s.databases.get 0 0 [97] = .ok (some [49]) ∧ replayed.get 0 0 [97] = .ok (some [50]) ∧
      ¬SameLive 0 s.databases replayed := by
  intro s replayed
  have hfresh : RewriteRace.Reached Host.plain 1 IsStringWrite (SameStrings 1) False
      RewriteRace.fresh := .start {} fun _ => {}
  have hincr := hfresh.command 0 (Or.inr ⟨[97], .incr, rfl⟩) (by decide +kernel) rfl
    (by decide +kernel) (by decide +kernel)
  have hdumped := (hincr.lock rfl).dump rfl (by decide +kernel) 0 fun h _ => h.elim
  have hreleased := hdumped.replace rfl (by decide +kernel)
  have hreached := hreleased.send 0 rfl (by decide +kernel) (by decide +kernel) (by decide +kernel)
  have hlive : s.databases.get 0 0 [97] = .ok (some [49]) := by decide +kernel
  have hreplayed : replayed.get 0 0 [97] = .ok (some [50]) := by decide +kernel
  have hmax : 1 ≤ usizeMax := by decide
  refine ⟨replayable_strings Host.plain Nat.one_pos hmax, hreached, ⟨by decide +kernel, rfl⟩,
    hlive, hreplayed, fun hsame => ?_⟩
  rw [hsame.get_eq (by decide +kernel) (by decide +kernel), hreplayed] at hlive
  cases hlive

end VeloDB
