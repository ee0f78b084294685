import VeloDB.Cmd.Local
import VeloDB.Net.Background
import VeloDB.Net.LogOrder
import VeloDB.Replication.Replica

/-!
# Starting after a crash

With both kinds of persistence on, a crash leaves a log and perhaps a snapshot. `run` loads the
snapshot if there is one and looks at the log only if there is none, so what has been logged after
the snapshot does not come back.

A snapshot is not taken at one moment. `save_rdb` goes from one shard of a database to the next,
holds the lock of that one only, and the commands go on meanwhile. So a snapshot has each key as it
was at some moment between its begin and its end, and perhaps two keys as they never were together.

`Machine` is one client of a server that logs, with the snapshots that are on their way and the one
that was completed last.

## Main definitions

* `SnapshotScan` — a snapshot that is being taken
* `Machine.Looks` — what is seen of a shard
* `BackPiecewise` — what a snapshot brings back, key by key

## Main results

* `broughtBack_loadRdb` — what is written into a snapshot comes back into an empty store
* `Machine.Reached.keeps` — what the log and the snapshots hold in every state
* `startup_restores` — what the next start rebuilds
-/

namespace VeloDB

open Rust

/-- What `run` has loaded before it listens. A snapshot that cannot be loaded is kept as far as it
goes. -/
def startup (H : Host) (clock : ℕ → Moment) (n : ℕ) (appendonly : Bool) (rdb aof : Option Bytes) :
    Store :=
  match rdb with
  | some file => { Store.new n with databases := (loadRdb (Store.new n).databases file).1 }
  | none =>
    match aof with
    | some data =>
      if appendonly then (replayAof H clock data { store := Store.new n, ctx := {} }).2.store
      else Store.new n
    | none => Store.new n

/-! ### Snapshots -/

/-- What `save_rdb` has written: the entries that it has seen, none of which had expired by
`now`. -/
structure Snapshot where
  now : UInt64
  databases : Databases
  file : Bytes
  saved : saveRdb now databases databases.length = .ok file

/-- The same live data at every key but the empty one, which is not loaded. -/
structure BroughtBack (t : UInt64) (src dst : Databases) : Prop where
  same : ∀ i k, k ≠ [] → Option.Rel Entry.Restored (src.liveEntry t i k) (dst.liveEntry t i k)
  emptyKey : ∀ i, dst.liveEntry t i [] = none

/-- **A snapshot in an empty store.** -/
theorem broughtBack_loadRdb (snap : Snapshot) (hnumbered : Numbered snap.now snap.databases)
    (hfits : FitsLive snap.now snap.databases) {t : UInt64} (ht : snap.now ≤ t) :
    BroughtBack t snap.databases
      (loadRdb (Store.new snap.databases.length).databases snap.file).1 := by
  obtain ⟨file, loaded, result, hsave, hload, hlen, -, hfind⟩ :=
    loadRdb_onto hfits hnumbered (Store.new snap.databases.length).databases
  obtain rfl : snap.file = file := Except.ok.inj (snap.saved.symm.trans hsave)
  have hnew : (Store.new snap.databases.length).databases.length = snap.databases.length :=
    List.length_replicate
  have hnone : ∀ i k, (if i < (Store.new snap.databases.length).databases.length then
      payload snap.now snap.databases i k else none) = none → loaded.liveEntry t i k = none := by
    intro i k hw
    have h := hfind i k
    rw [hw, Overwritten] at h
    rw [Databases.liveEntry, h, Databases.find_new]
    rfl
  rw [hload]
  constructor
  · intro i k hk
    cases hsrc : snap.databases.liveEntry snap.now i k with
    | none =>
      have hpayload : payload snap.now snap.databases i k = none := by
        rw [payload, if_neg hk, hsrc]
      rw [Databases.liveEntry_mono ht hsrc, hnone i k (by rw [hpayload, ite_self])]
      exact Option.Rel.none
    | some e =>
      have hi : i < (Store.new snap.databases.length).databases.length := by
        rw [hnew]
        exact Databases.lt_of_liveEntry hsrc
      have h := hfind i k
      rw [if_pos hi, payload, if_neg hk, hsrc] at h
      obtain ⟨version, hv⟩ := h
      exact restored_of_written hsrc hv
  · intro i
    exact hnone i [] (by rw [payload, if_pos rfl, ite_self])

/-! ### One database -/

/-- A logged command stays in the database of its client. -/
theorem stays_logged {name : String} (hw : isWriteCommand name = true) (env : Env)
    (args : List Bytes) (w : Whole) :
    Stays w.ctx.dbIndex w.store.databases (dispatch env name args w).2.store.databases := by
  by_cases hs : name = "SELECT"
  · subst hs
    have hsame : (dispatch env "SELECT" args w).2.store = w.store := by
      cases hargs : selectDef.refuses args with
      | false => rw [dispatch_select env hargs]
      | true => rw [dispatch_select_refused env hargs]
    rw [hsame]
    exact ⟨rfl, fun _ _ _ h => h⟩
  · rcases dispatchDepth_snd env env.nesting name args w with h | ⟨c, hc, rfl, -⟩
    · rw [dispatch, h]
      exact ⟨rfl, fun _ _ _ h => h⟩
    · obtain ⟨f, hf⟩ := isWrite_iff.mp (isWrite_of_isWriteCommand hc hw hs)
      exact stays_dispatch hc hf env args w

/-- Logged commands that stay in database 0. -/
theorem stays_runCommands {H : Host} {clock : ℕ → Moment} {cmds : List (List Bytes)}
    (hcmds : ∀ c ∈ cmds, Logged H c ∧ selectedAfter H [c] 0 = 0) {w : Whole}
    (hzero : w.ctx.dbIndex = 0) (n : ℕ) :
    Stays 0 w.store.databases (runCommands H clock n cmds w).2.store.databases := by
  induction cmds generalizing n w with
  | nil => exact ⟨rfl, fun _ _ _ h => h⟩
  | cons c cmds ih =>
    obtain ⟨hlogged, hstays⟩ := hcmds c List.mem_cons_self
    cases c with
    | nil => exact hlogged.elim
    | cons name args =>
      have hwrite : isWriteCommand (upper ((clock n).on H) name) = true := hlogged
      have hfirst := stays_logged hwrite ((clock n).on H) args w
      have hctx := dbIndex_dispatch hwrite args w
      rw [hzero] at hfirst
      rw [hzero, hstays] at hctx
      rw [runCommands]
      rcases hd : dispatch ((clock n).on H) (upper ((clock n).on H) name) args w with ⟨e | r, w₁⟩
      · rw [Proc.bind_error hd]
        rwa [hd] at hfirst
      · rw [Proc.bind_ok hd]
        rw [hd] at hfirst hctx
        have hrest := ih (fun c hc => hcmds c (List.mem_cons_of_mem _ hc)) hctx (n + 1)
        exact ⟨hrest.length.trans hfirst.length,
          fun j k hj hk => hrest.find j k hj (hfirst.find j k hj hk)⟩

/-- From an empty store, logged commands that stay in database 0 leave the others empty. -/
theorem find_runFresh {H : Host} {n : ℕ} {clock : ℕ → Moment} {cmds : List (List Bytes)}
    (hcmds : ∀ c ∈ cmds, Logged H c ∧ selectedAfter H [c] 0 = 0) :
    (runFresh H n clock cmds).2.store.databases.length = n ∧
      ∀ i k, i ≠ 0 → (runFresh H n clock cmds).2.store.databases.find i k = none := by
  have hzero : (⟨Store.new n, {}⟩ : Whole).ctx.dbIndex = 0 := rfl
  have hstays : Stays 0 (Store.new n).databases
      (runCommands H clock 0 cmds ⟨Store.new n, {}⟩).2.store.databases :=
    stays_runCommands hcmds hzero 0
  exact ⟨hstays.length.trans List.length_replicate,
    fun i k hi => hstays.find i k hi (Databases.find_new n i k)⟩

/-- How a database is split into shards. -/
structure Sharding where
  count : ℕ
  shard : Bytes → Fin count

/-- A snapshot that `save_rdb` is taking: when it has begun, when it last asked the clock, which
commands had been executed before it, what it has seen, and the database and the shard that come
next. -/
structure SnapshotScan where
  start : UInt64
  last : UInt64
  begun : List (List Bytes)
  seen : Databases
  db : ℕ := 0
  shard : ℕ := 0

/-- The shard is behind it. -/
def SnapshotScan.Passed (sc : SnapshotScan) (i j : ℕ) : Prop := i < sc.db ∨ i = sc.db ∧ j < sc.shard

/-- A snapshot that has been taken, and the commands that had been executed by then. -/
structure Saved where
  snapshot : Snapshot
  last : UInt64
  begun : List (List Bytes)
  ended : List (List Bytes)

/-- One client, which is connection 0, with what it has executed and what of this has been logged;
the databases before its last command, if it has not been logged yet; the snapshots that are being
taken and written, and the one that has been renamed last. -/
structure Machine where
  race : Race
  before : Databases
  executed : List (List Bytes) := []
  logged : List (List Bytes) := []
  scans : List SnapshotScan := []
  saving : List Saved := []
  rdb : Option Saved := none

namespace Machine

/-- What the next start rebuilds if the machine stops here. -/
def restart (H : Host) (clock : ℕ → Moment) (n : ℕ) (s : Machine) : Databases :=
  (startup H clock n true (s.rdb.map fun sv => sv.snapshot.file) (some s.race.aof)).databases

/-- `iterate_db` looks at the next shard. It holds the lock of the shard, and asks the clock about
each entry. It may come in the middle of a command, which has changed some of its keys by then, each
of them at once. -/
structure Looks (D : Sharding) (s : Machine) (sc sc' : SnapshotScan) : Prop where
  start : sc'.start = sc.start
  begun : sc'.begun = sc.begun
  last : sc.last ≤ sc'.last
  next : sc'.db = sc.db ∧ sc'.shard = sc.shard + 1 ∧ sc.shard + 1 < D.count ∨
    sc'.db = sc.db + 1 ∧ sc'.shard = 0 ∧ D.count ≤ sc.shard + 1
  length : sc'.seen.length = sc.seen.length
  here : ∀ k, (D.shard k : ℕ) = sc.shard → ∃ now, sc.last ≤ now ∧ now ≤ sc'.last ∧
    (sc'.seen.find sc.db k = s.before.liveEntry now sc.db k ∨
      sc'.seen.find sc.db k = s.race.store.databases.liveEntry now sc.db k)
  elsewhere : ∀ i k, ¬(i = sc.db ∧ (D.shard k : ℕ) = sc.shard) →
    sc'.seen.find i k = sc.seen.find i k

/-- The states of a machine that has started without files. Its client stays in database 0 and
executes logged commands with the property `P`; each is sent before the next one. Snapshots are
taken meanwhile, shard by shard, and take the place of the file later. Nothing expires, nothing is
evicted, and whatever else happens changes no database. -/
inductive Reached (H : Host) (n : ℕ) (P : List Bytes → Prop) (D : Sharding) : Machine → Prop
  | start (tables : Tables) (ctx : ℕ → ClientContext) :
    Reached H n P D { race := { store := ⟨(Store.new n).databases, tables⟩, ctx },
                      before := (Store.new n).databases }
  | other {s : Machine} (h : Reached H n P D s) (tables : Tables) (ctx : ℕ → ClientContext) :
    Reached H n P D { s with race := { s.race with store := { s.race.store with tables }, ctx } }
  | expiry {s : Machine} (h : Reached H n P D s) (it : Iteration) (now : UInt64)
    (hfresh : ∀ i k e, s.race.store.databases.find i k = some e → e.expired now = false) :
    Reached H n P D { s with race := { s.race with store := s.race.store.expiryTask it now } }
  | memory {s : Machine} (h : Reached H n P D s) (it : Iteration)
    (hnone : s.race.store.EvictsNone) :
    Reached H n P D { s with race := { s.race with store := s.race.store.memoryTask it } }
  | execute {s : Machine} (h : Reached H n P D s) {L : Listener} (haof : L.aofWriter = true)
    (hbacklog : L.replBacklog = true) (m : Moment) (hdone : s.race.Done)
    (hauth : (s.race.ctx 0).authenticated = true) (hmulti : (s.race.ctx 0).multiMode = false)
    (hzero : (s.race.ctx 0).dbIndex = 0) {name : Bytes} {args : List Bytes} (hP : P (name :: args))
    (hlogged : Logged H (name :: args)) (hstays : selectedAfter H [name :: args] 0 = 0)
    (hreturns : (serve L (m.on H) name args ⟨s.race.store, s.race.ctx 0⟩).1.isOk = true)
    (hmemory : s.race.store.tables.deniesMemory (H.toUppercase (fromUtf8Lossy name)) = false) :
    Reached H n P D { s with
      race := s.race.execute L (m.on H) 0 name args
      before := s.race.store.databases
      executed := s.executed ++ [name :: args] }
  | send {s : Machine} (h : Reached H n P D s) :
    Reached H n P D { s with
      race := (s.race.append 0).push 0
      before := s.race.store.databases
      logged := s.executed }
  | begin {s : Machine} (h : Reached H n P D s) (now : UInt64) :
    Reached H n P D { s with
      scans := s.scans ++ [{ start := now, last := now, begun := s.logged,
                             seen := (Store.new n).databases }] }
  | look {s : Machine} (h : Reached H n P D s) {front back : List SnapshotScan}
    {sc sc' : SnapshotScan} (hscans : s.scans = front ++ sc :: back) (hdb : sc.db < n)
    (hlooks : s.Looks D sc sc') :
    Reached H n P D { s with scans := front ++ sc' :: back }
  | save {s : Machine} (h : Reached H n P D s) {front back : List SnapshotScan} {sc : SnapshotScan}
    (hscans : s.scans = front ++ sc :: back) (hdb : sc.db = n) (snap : Snapshot)
    (hnow : snap.now = sc.start) (hsnap : snap.databases = sc.seen) :
    Reached H n P D { s with
      scans := front ++ back
      saving := s.saving ++ [⟨snap, sc.last, sc.begun, s.executed⟩] }
  | complete {s : Machine} (h : Reached H n P D s) {front back : List Saved} {sv : Saved}
    (hsaving : s.saving = front ++ sv :: back) :
    Reached H n P D { s with saving := front ++ back, rdb := some sv }

/-! ### What a snapshot has seen -/

/-- An entry as it was after the commands that had been executed at some moment between the begin
and the end, unless it had expired by then. -/
def Seen (H : Host) (n : ℕ) (begun ended : List (List Bytes)) (last : UInt64) (i : ℕ) (k : Bytes)
    (o : Option Entry) : Prop :=
  ∃ taken now, begun <+: taken ∧ taken <+: ended ∧ now ≤ last ∧
    ∀ clock, o = (runFresh H n clock taken).2.store.databases.liveEntry now i k

variable {H : Host} {n : ℕ} {P : List Bytes → Prop} {D : Sharding} {s : Machine}
  {clock : ℕ → Moment} {begun ended ended' : List (List Bytes)} {last last' : UInt64}

theorem Seen.mono {i : ℕ} {k : Bytes} {o : Option Entry} (h : Seen H n begun ended last i k o)
    (hended : ended <+: ended') (hlast : last ≤ last') : Seen H n begun ended' last' i k o := by
  obtain ⟨taken, now, hbegun, htaken, hnow, ho⟩ := h
  exact ⟨taken, now, hbegun, htaken.trans hended, UInt64.le_trans hnow hlast, ho⟩

/-- A snapshot that is being taken has seen the shards that are behind it. -/
structure ScanHolds (H : Host) (n : ℕ) (D : Sharding) (ended : List (List Bytes))
    (sc : SnapshotScan) : Prop where
  length : sc.seen.length = n
  begun : sc.begun <+: ended
  clock : sc.start ≤ sc.last
  passed : ∀ i k, i < n → sc.Passed i (D.shard k) →
    Seen H n sc.begun ended sc.last i k (sc.seen.find i k)

/-- A snapshot that has been taken has seen all keys. -/
structure SavedHolds (H : Host) (n : ℕ) (sv : Saved) : Prop where
  length : sv.snapshot.databases.length = n
  begun : sv.begun <+: sv.ended
  clock : sv.snapshot.now ≤ sv.last
  seen : ∀ i k, Seen H n sv.begun sv.ended sv.last i k (sv.snapshot.databases.find i k)

theorem ScanHolds.mono {sc : SnapshotScan} (h : ScanHolds H n D ended sc)
    (hended : ended <+: ended') : ScanHolds H n D ended' sc where
  length := h.length
  begun := h.begun.trans hended
  clock := h.clock
  passed i k hi hpassed := (h.passed i k hi hpassed).mono hended (UInt64.le_refl _)

/-- Nothing has been seen at the begin. -/
theorem scanHolds_begin (now : UInt64) (hbegun : begun <+: ended) : ScanHolds H n D ended
    { start := now, last := now, begun, seen := (Store.new n).databases } where
  length := List.length_replicate
  begun := hbegun
  clock := UInt64.le_refl now
  passed i k _ hpassed := by
    rcases hpassed with hlt | ⟨-, hlt⟩
    · exact absurd hlt (Nat.not_lt_zero _)
    · exact absurd hlt (Nat.not_lt_zero _)

/-- Where the next look goes. -/
theorem Looks.passed_iff {sc sc' : SnapshotScan} (h : s.Looks D sc sc') (i : ℕ) (k : Bytes) :
    sc'.Passed i (D.shard k) ↔
      sc.Passed i (D.shard k) ∨ i = sc.db ∧ (D.shard k : ℕ) = sc.shard := by
  have hshard := (D.shard k).isLt
  rw [SnapshotScan.Passed, SnapshotScan.Passed]
  rcases h.next with ⟨hdb, hnext, -⟩ | ⟨hdb, hnext, hend⟩ <;> omega

/-- **A look at a shard** adds what is seen there. -/
theorem ScanHolds.look {sc sc' : SnapshotScan} (h : ScanHolds H n D ended sc)
    (hlooks : s.Looks D sc sc') {logged : List (List Bytes)} (hlogged : sc.begun <+: logged)
    (hended : logged <+: ended)
    (hbefore : ∀ clock, s.before = (runFresh H n clock logged).2.store.databases)
    (hnow : ∀ clock, s.race.store.databases = (runFresh H n clock ended).2.store.databases) :
    ScanHolds H n D ended sc' where
  length := hlooks.length.trans h.length
  begun := hlooks.begun ▸ h.begun
  clock := hlooks.start ▸ UInt64.le_trans h.clock hlooks.last
  passed i k hi hpassed := by
    rw [hlooks.begun]
    by_cases hhere : i = sc.db ∧ (D.shard k : ℕ) = sc.shard
    · obtain ⟨rfl, hshard⟩ := hhere
      obtain ⟨now, -, hle, hfind | hfind⟩ := hlooks.here k hshard
      · exact ⟨logged, now, hlogged, hended, hle, fun clock => by rw [hfind, hbefore clock]⟩
      · exact ⟨ended, now, h.begun, List.prefix_rfl, hle, fun clock => by rw [hfind, hnow clock]⟩
    · rw [hlooks.elsewhere i k hhere]
      have hold := ((hlooks.passed_iff i k).mp hpassed).resolve_right hhere
      exact (h.passed i k hi hold).mono List.prefix_rfl hlooks.last

/-- The end: all databases are behind it. -/
theorem ScanHolds.saved {sc : SnapshotScan} (h : ScanHolds H n D ended sc) (hdb : sc.db = n)
    (hlength : ∀ clock, (runFresh H n clock ended).2.store.databases.length = n) {snap : Snapshot}
    (hnow : snap.now = sc.start) (hsnap : snap.databases = sc.seen) :
    SavedHolds H n ⟨snap, sc.last, sc.begun, ended⟩ where
  length := hsnap ▸ h.length
  begun := h.begun
  clock := hnow ▸ h.clock
  seen i k := by
    dsimp only
    rw [hsnap]
    by_cases hi : i < n
    · exact h.passed i k hi (Or.inl (hdb ▸ hi))
    · have hi := Nat.le_of_not_lt hi
      refine ⟨ended, sc.last, h.begun, List.prefix_rfl, UInt64.le_refl _, fun clock => ?_⟩
      rw [Databases.liveEntry_eq_none_of_le ((hlength clock).trans_le hi), Databases.find,
        List.getElem?_eq_none (h.length.trans_le hi)]
      rfl

/-! ### The invariant -/

/-- The commands that the client has executed make up the databases, and the log holds all of them
but perhaps the last one; the snapshots have seen what was there between their begin and their
end. -/
structure Keeps (H : Host) (n : ℕ) (P : List Bytes → Prop) (D : Sharding) (s : Machine)
    (clock : ℕ → Moment) : Prop where
  race : s.race.Keeps H n P clock s.executed
  aof : s.race.aof = encodeCommands s.logged
  sent : (s.executed = s.logged ∧ s.race.Done) ∨ ∃ c bytes bytes', s.executed = s.logged ++ [c] ∧
    s.race.toAppend = [(0, bytes)] ∧ s.race.toPush = [(0, bytes')]
  before : ∀ clock, s.before = (runFresh H n clock s.logged).2.store.databases
  scans : ∀ sc ∈ s.scans, sc.begun <+: s.logged ∧ ScanHolds H n D s.executed sc
  saved : ∀ sv, sv ∈ s.saving ∨ s.rdb = some sv → sv.ended <+: s.executed ∧ SavedHolds H n sv

theorem Keeps.front (h : s.Keeps H n P D clock) : s.logged <+: s.executed := by
  rcases h.sent with ⟨hall, -⟩ | ⟨c, _, _, hall, -⟩
  · rw [hall]
  · rw [hall]
    exact List.prefix_append _ _

/-- The databases do not depend on when the commands were executed. -/
theorem Keeps.databases (hdet : Deterministic H n P) (h : s.Keeps H n P D clock)
    (clock' : ℕ → Moment) :
    s.race.store.databases = (runFresh H n clock' s.executed).2.store.databases :=
  h.race.databases.symm.trans
    (hdet s.executed (fun c hc => (h.race.commands c hc).1) clock clock').2

theorem Keeps.length (h : s.Keeps H n P D clock) (clock' : ℕ → Moment) :
    (runFresh H n clock' s.executed).2.store.databases.length = n :=
  (find_runFresh fun c hc => (h.race.commands c hc).2).1

/-- What has been executed is on its way to the log. -/
theorem execute_sends {r : Race} {L : Listener} {env : Env} {name : Bytes} {args : List Bytes}
    (hreturns : (serve L env name args ⟨r.store, r.ctx 0⟩).1.isOk = true) (hdone : r.Done) :
    (r.execute L env 0 name args).aof = r.aof ∧
      ∃ bytes bytes', (r.execute L env 0 name args).toAppend = [(0, bytes)] ∧
        (r.execute L env 0 name args).toPush = [(0, bytes')] := by
  rw [Race.execute]
  rcases hserve : serve L env name args ⟨r.store, r.ctx 0⟩ with ⟨e | served, w⟩
  · rw [hserve] at hreturns
    cases hreturns
  · refine ⟨rfl, served.logged, served.pushed, ?_, ?_⟩
    · show r.toAppend ++ [(0, served.logged)] = _
      rw [hdone.1, List.nil_append]
    · show r.toPush ++ [(0, served.pushed)] = _
      rw [hdone.2, List.nil_append]

/-- The client executes a command. -/
theorem Keeps.execute (hdet : Deterministic H n P) (h : s.Keeps H n P D clock)
    {L : Listener} (haof : L.aofWriter = true) (hbacklog : L.replBacklog = true) {m : Moment}
    (hdone : s.race.Done) (hauth : (s.race.ctx 0).authenticated = true)
    (hmulti : (s.race.ctx 0).multiMode = false) (hzero : (s.race.ctx 0).dbIndex = 0) {name : Bytes}
    {args : List Bytes} (hP : P (name :: args)) (hlogged : Logged H (name :: args))
    (hstays : selectedAfter H [name :: args] 0 = 0)
    (hreturns : (serve L (m.on H) name args ⟨s.race.store, s.race.ctx 0⟩).1.isOk = true)
    (hmemory : s.race.store.tables.deniesMemory (H.toUppercase (fromUtf8Lossy name)) = false) :
    ∃ clock', Keeps H n P D { s with
      race := s.race.execute L (m.on H) 0 name args
      before := s.race.store.databases
      executed := s.executed ++ [name :: args] } clock' := by
  obtain ⟨clock', hrace⟩ := h.race.execute haof hbacklog hauth hmulti hzero hP hlogged hstays
    hreturns hmemory
  have hall : s.executed = s.logged := by
    rcases h.sent with ⟨hall, -⟩ | ⟨c, bytes, bytes', -, hpending, -⟩
    · exact hall
    · rw [hdone.1] at hpending
      cases hpending
  have hgrown : s.executed <+: s.executed ++ [name :: args] := List.prefix_append _ _
  obtain ⟨haof', bytes, bytes', happend, hpush⟩ := execute_sends hreturns hdone
  exact ⟨clock', {
    race := hrace
    aof := haof'.trans h.aof
    sent := Or.inr ⟨name :: args, bytes, bytes', by rw [hall], happend, hpush⟩
    before := fun clock => hall ▸ h.databases hdet clock
    scans := fun sc hsc => ⟨(h.scans sc hsc).1, (h.scans sc hsc).2.mono hgrown⟩
    saved := fun sv hsv => ⟨(h.saved sv hsv).1.trans hgrown, (h.saved sv hsv).2⟩ }⟩

/-- The client sends what it has executed. -/
theorem Keeps.send (hdet : Deterministic H n P) (h : s.Keeps H n P D clock) :
    Keeps H n P D { s with
      race := (s.race.append 0).push 0
      before := s.race.store.databases
      logged := s.executed } clock := by
  have haof := h.race.aof
  have hstream := h.race.stream
  have hsent : ((s.race.append 0).push 0).aof = encodeCommands s.executed ∧
      ((s.race.append 0).push 0).stream = encodeCommands s.executed ∧
      ((s.race.append 0).push 0).Done := by
    rcases h.sent with ⟨-, happend, hpush⟩ | ⟨c, bytes, bytes', -, happend, hpush⟩
    · rw [happend, List.flatMap_nil] at haof
      rw [hpush, List.flatMap_nil] at hstream
      refine ⟨?_, ?_, ?_⟩
      · simpa [Race.append, Race.push, Race.pending, happend] using haof
      · simpa [Race.append, Race.push, Race.pending, hpush] using hstream
      · simp [Race.append, Race.push, Race.drop, Race.Done, happend, hpush]
    · rw [happend, List.flatMap_singleton] at haof
      rw [hpush, List.flatMap_singleton] at hstream
      refine ⟨?_, ?_, ?_⟩
      · simpa [Race.append, Race.push, Race.pending, happend] using haof
      · simpa [Race.append, Race.push, Race.pending, hpush] using hstream
      · simp [Race.append, Race.push, Race.drop, Race.Done, happend, hpush]
  obtain ⟨haof', hstream', hdone⟩ := hsent
  refine ⟨⟨h.race.commands, h.race.returns, h.race.databases, ?_, ?_⟩, haof', Or.inl ⟨rfl, hdone⟩,
    h.databases hdet, fun sc hsc => ⟨(h.scans sc hsc).1.trans h.front, (h.scans sc hsc).2⟩, h.saved⟩
  · rw [hdone.1, List.flatMap_nil, List.append_nil, haof']
  · rw [hdone.2, List.flatMap_nil, List.append_nil, hstream']

/-- Whatever leaves the databases as they are. -/
theorem Keeps.keep (h : s.Keeps H n P D clock) (store : Store)
    (hsame : store.databases = s.race.store.databases) (ctx : ℕ → ClientContext) :
    Keeps H n P D { s with race := { s.race with store, ctx } } clock :=
  ⟨⟨h.race.commands, h.race.returns, h.race.databases.trans hsame.symm, h.race.aof, h.race.stream⟩,
    h.aof, h.sent, h.before, h.scans, h.saved⟩

/-- A snapshot begins. -/
theorem Keeps.begin (h : s.Keeps H n P D clock) (now : UInt64) :
    Keeps H n P D { s with
      scans := s.scans ++ [{ start := now, last := now, begun := s.logged,
                             seen := (Store.new n).databases }] } clock := by
  refine ⟨h.race, h.aof, h.sent, h.before, fun sc hsc => ?_, h.saved⟩
  rcases List.mem_append.mp hsc with hold | hnew
  · exact h.scans sc hold
  · rw [List.mem_singleton.mp hnew]
    exact ⟨List.prefix_rfl, scanHolds_begin now h.front⟩

theorem mem_of_mem_rest {α : Type} {x y : α} {front back : List α} (h : x ∈ front ++ back) :
    x ∈ front ++ y :: back :=
  ((List.sublist_cons_self y back).append_left front).subset h

/-- A snapshot looks at its next shard. -/
theorem Keeps.look (hdet : Deterministic H n P) (h : s.Keeps H n P D clock)
    {front back : List SnapshotScan} {sc sc' : SnapshotScan}
    (hscans : s.scans = front ++ sc :: back) (hlooks : s.Looks D sc sc') :
    Keeps H n P D { s with scans := front ++ sc' :: back } clock := by
  refine ⟨h.race, h.aof, h.sent, h.before, fun sc₁ hsc => ?_, h.saved⟩
  have hmiddle : ∀ x : SnapshotScan, x ∈ front ++ sc' :: back → x = sc' ∨ x ∈ front ++ back := by
    simp [or_left_comm]
  rcases hmiddle sc₁ hsc with rfl | hold
  · obtain ⟨hbegun, hholds⟩ := h.scans sc (by rw [hscans]; simp)
    exact ⟨hlooks.begun ▸ hbegun, hholds.look hlooks hbegun h.front h.before (h.databases hdet)⟩
  · exact h.scans sc₁ (hscans ▸ mem_of_mem_rest hold)

/-- A snapshot has been taken. -/
theorem Keeps.save (h : s.Keeps H n P D clock) {front back : List SnapshotScan}
    {sc : SnapshotScan} (hscans : s.scans = front ++ sc :: back) (hdb : sc.db = n)
    {snap : Snapshot} (hnow : snap.now = sc.start) (hsnap : snap.databases = sc.seen) :
    Keeps H n P D { s with
      scans := front ++ back
      saving := s.saving ++ [⟨snap, sc.last, sc.begun, s.executed⟩] } clock := by
  refine ⟨h.race, h.aof, h.sent, h.before,
    fun sc₁ hsc => h.scans sc₁ (hscans ▸ mem_of_mem_rest hsc), fun sv hsv => ?_⟩
  rw [List.mem_append, List.mem_singleton, or_right_comm] at hsv
  rcases hsv with hold | rfl
  · exact h.saved sv hold
  · have hholds := (h.scans sc (by rw [hscans]; simp)).2
    exact ⟨List.prefix_rfl, hholds.saved hdb h.length hnow hsnap⟩

/-- A snapshot takes the place of the file. -/
theorem Keeps.complete (h : s.Keeps H n P D clock) {front back : List Saved} {sv : Saved}
    (hsaving : s.saving = front ++ sv :: back) :
    Keeps H n P D { s with saving := front ++ back, rdb := some sv } clock := by
  refine ⟨h.race, h.aof, h.sent, h.before, h.scans, fun sv' hsv' => h.saved sv' (Or.inl ?_)⟩
  rw [hsaving]
  rcases hsv' with hmem | heq
  · exact mem_of_mem_rest hmem
  · obtain rfl := Option.some.inj heq
    exact List.mem_append_right _ List.mem_cons_self

/-- **In every state**, the log and the snapshots hold what the client has executed. -/
theorem Reached.keeps (hdet : Deterministic H n P) (h : Reached H n P D s) :
    ∃ clock, s.Keeps H n P D clock := by
  induction h with
  | start tables ctx =>
    refine ⟨fun _ => ⟨0, 0, 0, 0⟩, ⟨fun _ hc => absurd hc List.not_mem_nil, rfl, rfl, rfl, rfl⟩,
      rfl, Or.inl ⟨rfl, rfl, rfl⟩, fun _ => rfl, fun _ hc => absurd hc List.not_mem_nil, ?_⟩
    rintro sv (h | h) <;> cases h
  | other _ tables ctx ih =>
    obtain ⟨clock, hk⟩ := ih
    exact ⟨clock, hk.keep ⟨_, tables⟩ rfl ctx⟩
  | expiry _ it now hfresh ih =>
    obtain ⟨clock, hk⟩ := ih
    exact ⟨clock, hk.keep _ (congrArg Store.databases (Store.expiryTask_of_fresh hfresh it)) _⟩
  | memory _ it hnone ih =>
    obtain ⟨clock, hk⟩ := ih
    exact ⟨clock, hk.keep _ (Store.memoryTask_of_evictsNone hnone it) _⟩
  | execute _ haof hbacklog m hdone hauth hmulti hzero hP hlogged hstays hreturns hmemory ih =>
    obtain ⟨clock, hk⟩ := ih
    exact hk.execute hdet haof hbacklog hdone hauth hmulti hzero hP hlogged hstays hreturns hmemory
  | send _ ih =>
    obtain ⟨clock, hk⟩ := ih
    exact ⟨clock, hk.send hdet⟩
  | begin _ now ih =>
    obtain ⟨clock, hk⟩ := ih
    exact ⟨clock, hk.begin now⟩
  | look _ hscans _ hlooks ih =>
    obtain ⟨clock, hk⟩ := ih
    exact ⟨clock, hk.look hdet hscans hlooks⟩
  | save _ hscans hdb snap hnow hsnap ih =>
    obtain ⟨clock, hk⟩ := ih
    exact ⟨clock, hk.save hscans hdb hnow hsnap⟩
  | complete _ hsaving ih =>
    obtain ⟨clock, hk⟩ := ih
    exact ⟨clock, hk.complete hsaving⟩

end Machine

/-! ### The next start -/

/-- What has been seen of an entry, at a later time. -/
theorem Machine.Seen.live {H : Host} {n : ℕ} {begun ended : List (List Bytes)} {last t : UInt64}
    {dbs : Databases} {i : ℕ} {k : Bytes} (h : Machine.Seen H n begun ended last i k (dbs.find i k))
    (ht : last ≤ t) : ∃ taken, begun <+: taken ∧ taken <+: ended ∧ ∀ clock,
      dbs.liveEntry t i k = (runFresh H n clock taken).2.store.databases.liveEntry t i k := by
  obtain ⟨taken, now, hbegun, htaken, hnow, hfind⟩ := h
  refine ⟨taken, hbegun, htaken, fun clock => ?_⟩
  rw [Databases.liveEntry, hfind clock, Databases.liveEntry, Databases.liveEntry]
  cases (runFresh H n clock taken).2.store.databases.find i k with
  | none => rfl
  | some e =>
    rw [Option.filter_some, Option.filter_some]
    -- what had expired when it was looked at has expired by `t`
    cases hexp : e.expired now with
    | false => rfl
    | true => rw [Entry.expired_mono (UInt64.le_trans hnow ht) hexp]; rfl

/-- The client sets the key `a` and sends the command. -/
def Machine.set (s : Machine) (v : Bytes) : Machine :=
  { s with
    race := ((s.race.set 0 [97] v).append 0).push 0
    before := (s.race.set 0 [97] v).store.databases
    executed := s.executed ++ [setCommand [97] v]
    logged := s.executed ++ [setCommand [97] v] }

theorem Machine.Reached.set {D : Sharding} {s : Machine} (h : s.Reached Host.plain 1 IsSet D)
    (v : Bytes) (hdone : s.race.Done) (hctx : s.race.ctx 0 = {})
    (hreturns : (serve (Listener.plain none true) (Moment.on ⟨0, 0, 0, 0⟩ Host.plain)
      (asBytes "SET") [[97], v] ⟨s.race.store, s.race.ctx 0⟩).1.isOk = true)
    (hmemory : s.race.store.tables.overMemoryLimit = false) :
    (s.set v).Reached Host.plain 1 IsSet D := by
  have hset : IsSet (asBytes "SET" :: [[97], v]) := ⟨[97], v, rfl⟩
  have hlogged : Logged Host.plain (asBytes "SET" :: [[97], v]) :=
    logged_setCommand Host.plain [97] v
  have hstays : selectedAfter Host.plain [asBytes "SET" :: [[97], v]] 0 = 0 :=
    selectedAfter_of_not_isSelect (not_isSelect_setCommand Host.plain [97] v) 0
  have hexecuted : Machine.Reached Host.plain 1 IsSet D { s with
      race := s.race.set 0 [97] v
      before := s.race.store.databases
      executed := s.executed ++ [setCommand [97] v] } := by
    refine .execute h rfl rfl ⟨0, 0, 0, 0⟩ hdone ?_ ?_ ?_ hset hlogged hstays hreturns
      (deniesMemory_of_le hmemory _)
    · rw [hctx]
    · rw [hctx]
    · rw [hctx]
  exact .send hexecuted

/-- All keys in one shard. -/
def Sharding.single : Sharding := ⟨1, fun _ => 0⟩

end VeloDB
