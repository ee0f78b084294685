import VeloDB.Net.Sessions
import VeloDB.Cmd.Watched

/-!
# Watched keys under interleaving

Between `WATCH` and `EXEC` the other connections go on. Whether `EXEC` notices what they have done
to a watched key depends on how they did it: a change by `Store::set` leaves a version that the key
has not had before, as long as the entry stays, and no other change does.

`Attempt` is a `WATCH`, all that happens up to the `EXEC`, and what makes the `EXEC` one that has to
look at the watched key.

## Main results

* `keeps_run`, `paired_run` — what a connection watches along a run
* `Attempt.refused` — the runs in which `EXEC` notices a change
-/

namespace VeloDB

open Rust Proc

/-! ### Connections side by side -/

/-- What the connections share and what each of them has to itself. -/
structure Clients where
  store : Store
  ctx : ℕ → ClientContext

/-- What happens to a connection. -/
inductive Action
  /-- A connection is accepted. -/
  | accept (L : Listener)
  /-- A command in the normal loop. -/
  | command (L : Listener) (name : Bytes) (args : List Bytes)
  /-- A command in the loop in subscribe mode. -/
  | sub (name : Bytes) (args : List Bytes)
  /-- The end of a blocking wait. -/
  | resume (b : BlockState) (id : ℕ) (triggered : Bool)
  /-- What is no command, such as the expiry of keys. -/
  | background (store : Store)

/-- A connection, a moment and what happens to it then. -/
structure Turn where
  client : ℕ
  moment : Moment
  action : Action

/-- What an action does. -/
def Action.run (env : Env) (a : Action) (w : Whole) : Whole :=
  match a with
  | .accept L => { w with ctx := (Conn.accept L).ctx }
  | .command L name args => (serve L env name args w).2
  | .sub name args => (serveSub env name args w).2
  | .resume b id triggered =>
    (Net.resumeWait env ⟨{ store := w.store }, { ctx := w.ctx }⟩ b id triggered).whole
  | .background store => { w with store }

theorem Action.run_command {env : Env} {L : Listener} {name : Bytes} {args : List Bytes} {w : Whole} :
    (Action.command L name args).run env w = (serve L env name args w).2 := by
  rw [Action.run]

namespace Clients

/-- A server with some databases that nobody has connected to. -/
def start (n : ℕ) : Clients := ⟨Store.new n, fun _ => {}⟩

variable (H : Host)

/-- One turn. -/
def step (s : Clients) (t : Turn) : Clients :=
  let w := t.action.run (t.moment.on H) ⟨s.store, s.ctx t.client⟩
  ⟨w.store, Function.update s.ctx t.client w.ctx⟩

theorem step_store (s : Clients) (t : Turn) :
    (s.step H t).store = (t.action.run (t.moment.on H) ⟨s.store, s.ctx t.client⟩).store := rfl

theorem step_ctx_self (s : Clients) (t : Turn) : (s.step H t).ctx t.client
    = (t.action.run (t.moment.on H) ⟨s.store, s.ctx t.client⟩).ctx := Function.update_self ..

/-- Turns one after the other. -/
def run (s : Clients) (ts : List Turn) : Clients := ts.foldl (step H) s

/-- What is stored at a key. -/
def entryAt (s : Clients) (i : ℕ) (k : Bytes) : Option Entry := s.store.databases.find i k

end Clients

/-- The value and the expiry of what is stored at a key. -/
def seen (o : Option Entry) : Option (StorageValue × Option UInt64) :=
  o.map fun e => (e.value, e.expireAt)

/-- A turn of another connection changes the value, the existence or the expiry of a key. -/
def ChangedBy (H : Host) (i : ℕ) (k : Bytes) (c : ℕ) : Clients → List Turn → Prop
  | _, [] => False
  | s, t :: ts => t.client ≠ c ∧ seen ((s.step H t).entryAt i k) ≠ seen (s.entryAt i k) ∨
    ChangedBy H i k c (s.step H t) ts

/-- Every turn leaves a key as it is or calls `Store::set`. -/
def SetAlong (H : Host) (i : ℕ) (k : Bytes) : Clients → List Turn → Prop
  | _, [] => True
  | s, t :: ts => BySets (s.entryAt i k) ((s.step H t).entryAt i k) ∧
    SetAlong H i k (s.step H t) ts

/-- The action is a command that ends a watch, or the connection is a new one. -/
def Action.EndsWatch (H : Host) : Action → Prop
  | .accept _ => True
  | .command _ name _ | .sub name _ => H.toUppercase (fromUtf8Lossy name) ∈ endNames
  | .resume .. | .background _ => False

variable {H : Host}

/-! ### What a connection watches -/

/-- A relation that does not mind changes of the context, those of the watched keys apart. -/
theorem serves_of_watched {R : Whole → Whole → Prop} (hR : ∀ w c,
    c.watchedKeys = w.ctx.watchedKeys → c.watchedVersions = w.ctx.watchedVersions →
    R w { w with ctx := c }) : Serves R where
  authenticate w := hR w _ rfl rfl
  negotiate w _ _ := hR w _ rfl rfl
  enqueue w _ _ _ := hR w _ rfl rfl
  unblock w := hR w _ rfl rfl

/-- The connection of an action. -/
theorem keeps_action (m : Moment) {a : Action} (ha : ¬a.EndsWatch H) (w : Whole) :
    WholeKeepsWatch w (a.run (m.on H) w) := by
  have hdispatch : ∀ name args, upper (m.on H) name ∉ endNames →
      Moves WholeKeepsWatch (dispatch (m.on H) (upper (m.on H) name) args) :=
    fun _ args hname => keeps_dispatchDepth _ _ hname args
  cases a with
  | accept L => exact (ha trivial).elim
  | command L name args =>
    exact moves_serve (serves_of_watched fun _ _ => .of_eq) (hdispatch name args ha) w
  | sub name args => exact moves_serveSub (hdispatch name args ha) w
  | resume b id triggered =>
    have hctx := ctx_resumeWait (m.on H) ⟨{ store := w.store }, { ctx := w.ctx }⟩ b id triggered
    exact .of_eq (congrArg ClientContext.watchedKeys hctx)
      (congrArg ClientContext.watchedVersions hctx)
  | background store => exact .of_eq rfl rfl

theorem paired_action (m : Moment) (a : Action) (w : Whole) (hw : Paired w.ctx) :
    Paired (a.run (m.on H) w).ctx := by
  have hdispatch : ∀ name args,
      Moves WholePaired (dispatch (m.on H) (upper (m.on H) name) args) :=
    fun _ args => paired_dispatchDepth _ _ _ args
  cases a with
  | accept L => exact ⟨[], rfl, rfl⟩
  | command L name args =>
    have hserves : Serves WholePaired := serves_of_watched fun _ _ hkeys hversions =>
      (KeepsWatch.of_eq hkeys hversions).paired
    have hmoves : Moves WholePaired (serve L (m.on H) name args) :=
      moves_serve hserves (hdispatch name args)
    rw [Action.run_command]
    exact hmoves w hw
  | sub name args => exact moves_serveSub (hdispatch name args) w hw
  | resume b id triggered =>
    have hctx := ctx_resumeWait (m.on H) ⟨{ store := w.store }, { ctx := w.ctx }⟩ b id triggered
    exact (congrArg Paired hctx).mpr hw
  | background store => exact hw

namespace Clients

theorem keeps_run {c : ℕ} {ts : List Turn} (hts : ∀ t ∈ ts, t.client = c → ¬t.action.EndsWatch H)
    (s : Clients) : KeepsWatch (s.ctx c) ((s.run H ts).ctx c) := by
  induction ts generalizing s with
  | nil => exact .of_eq rfl rfl
  | cons t ts ih =>
    have hone : KeepsWatch (s.ctx c) ((s.step H t).ctx c) := by
      by_cases hc : t.client = c
      · subst hc
        have hkeeps := keeps_action t.moment (hts t List.mem_cons_self rfl) ⟨s.store, s.ctx t.client⟩
        rw [step]
        dsimp only
        rw [Function.update_self]
        exact hkeeps
      · have hsame : (s.step H t).ctx c = s.ctx c := Function.update_of_ne (Ne.symm hc) _ _
        rw [hsame]
        exact .of_eq rfl rfl
    exact hone.trans (ih (fun t ht => hts t (List.mem_cons_of_mem _ ht)) (s.step H t))

theorem paired_run (ts : List Turn) {s : Clients} (hs : ∀ j, Paired (s.ctx j)) (j : ℕ) :
    Paired ((s.run H ts).ctx j) := by
  induction ts generalizing s with
  | nil => exact hs j
  | cons t ts ih =>
    refine ih fun j => ?_
    by_cases hj : j = t.client
    · rw [hj, step]
      dsimp only
      rw [Function.update_self]
      exact paired_action t.moment t.action _ (hs t.client)
    · have hsame : (s.step H t).ctx j = s.ctx j := Function.update_of_ne hj _ _
      rw [hsame]
      exact hs j

end Clients

/-! ### `WATCH` -/

/-- **`WATCH`** outside of a transaction sees the versions that the keys have. -/
theorem dispatch_watch (env : Env) (keys : List Bytes) {w : Whole}
    (hmulti : w.ctx.multiMode = false) {l : List (Bytes × ℕ)} (hl : Watches w.ctx l) :
    ∃ w', dispatch env "WATCH" keys w = (.ok .ok, w') ∧ w'.store = w.store ∧
      Watches w'.ctx (l ++ keys.map fun key =>
        (key, (Cmd.versionOf env.now w.store.databases w.ctx.dbIndex key).getD 0)) := by
  have hmem : (⟨"WATCH", -2, .side Cmd.watch⟩ : CommandDef) ∈ commands := by
    simp [commands, Cmd.transactionCommands]
  have hgate : w.store.tables.deniesMemory "WATCH" = false :=
    w.store.tables.deniesMemory_of_allowed (by decide)
  have hrun : dispatch env "WATCH" keys w
      = catchError (Handler.run (dispatchDepth env env.nesting) env keys (.side Cmd.watch)) w :=
    dispatch_eq hmem env hgate rfl
  have hwatch : ∀ s : Side, s.ctx.multiMode = false →
      Cmd.watch env w.store.databases keys s = (.ok .ok, { s with ctx := { s.ctx with
        watchedKeys := s.ctx.watchedKeys ++ keys
        watchedVersions := s.ctx.watchedVersions ++ keys.map fun key =>
          (Cmd.versionOf env.now w.store.databases s.ctx.dbIndex key).getD 0 } }) := by
    intro s hs
    rw [Cmd.watch, Cmd.modifyCtx, Proc.modify_bind, if_neg (by simp [hs])]
    rfl
  rw [hrun, catchError, Handler.run]
  dsimp only
  rw [hwatch ⟨w.store.tables, w.ctx⟩ hmulti]
  have hadd := hl.add keys fun key =>
    (Cmd.versionOf env.now w.store.databases w.ctx.dbIndex key).getD 0
  exact ⟨_, rfl, rfl, hadd⟩

theorem serve_watch (L : Listener) {env : Env} {name : Bytes} (hname : upper env name = "WATCH")
    (keys : List Bytes) {w : Whole} (hauth : w.ctx.authenticated = true)
    (hmulti : w.ctx.multiMode = false) {l : List (Bytes × ℕ)} (hl : Watches w.ctx l) :
    (serve L env name keys w).2.store = w.store ∧
      Watches (serve L env name keys w).2.ctx (l ++ keys.map fun key =>
        (key, (Cmd.versionOf env.now w.store.databases w.ctx.dbIndex key).getD 0)) := by
  have hserve : serve L env name keys w = serveDirect L env name keys w := by
    rw [serve, hname, hauth, hmulti]
    rfl
  obtain ⟨w', hwatch, hstore, hwatches⟩ := dispatch_watch env keys hmulti hl
  have hexecute : execute L env (upper env name) keys w = (.ok .ok, w') := by
    rw [hname]
    exact hwatch
  obtain ⟨b, hsnd⟩ := serveDirect_snd L env name keys w
  rw [hserve, hsnd, hexecute]
  exact ⟨hstore, hwatches.keys, hwatches.versions⟩

/-! ### Versions -/

section Versions

variable {now : UInt64} {dbs : Databases} {i : ℕ} {k : Bytes}

/-- `WATCH` and `EXEC` see the version of a live entry. -/
theorem versionOf_eq (hi : i < dbs.length) :
    Cmd.versionOf now dbs i k = some (storedVersion (dbs.liveEntry now i k)) := by
  rw [Cmd.versionOf, Databases.getVersion, Databases.entry_eq hi]
  cases dbs.liveEntry now i k <;> rfl

theorem versionOf_eq_none (hi : dbs.length ≤ i) : Cmd.versionOf now dbs i k = none := by
  rw [Cmd.versionOf, Databases.getVersion, Databases.entry, Databases.db,
    List.getElem?_eq_none hi]
  rfl

/-- What has expired is seen with version 0. -/
theorem storedVersion_liveEntry_le :
    storedVersion (dbs.liveEntry now i k) ≤ storedVersion (dbs.find i k) := by
  rw [Databases.liveEntry]
  cases dbs.find i k with
  | none => exact le_rfl
  | some e =>
    rw [Option.filter_some]
    split
    · exact le_rfl
    · exact Nat.zero_le _

/-- The version that `WATCH` remembers is not more than that of the entry. -/
theorem versionOf_le : (Cmd.versionOf now dbs i k).getD 0 ≤ storedVersion (dbs.find i k) := by
  rcases Nat.lt_or_ge i dbs.length with hi | hi
  · rw [versionOf_eq hi]
    exact storedVersion_liveEntry_le
  · rw [versionOf_eq_none hi]
    exact Nat.zero_le _

/-- The version that `EXEC` sees of a live key is that of the entry. -/
theorem versionOf_of_live {e : Entry} (h : dbs.liveEntry now i k = some e) :
    Cmd.versionOf now dbs i k = some (storedVersion (dbs.find i k)) := by
  have hfind : dbs.find i k = some e := (Option.filter_eq_some_iff.mp h).1
  rw [versionOf_eq (Databases.lt_of_liveEntry h), h, hfind]

/-- The version that `EXEC` sees of a key that is not live. -/
theorem versionOf_ne_of_not_live (h : dbs.liveEntry now i k = none) {v : ℕ} (hv : v ≠ 0) :
    Cmd.versionOf now dbs i k ≠ some v := by
  rcases Nat.lt_or_ge i dbs.length with hi | hi
  · rw [versionOf_eq hi, h]
    exact fun heq => hv (Option.some.inj heq).symm
  · rw [versionOf_eq_none hi]
    exact fun heq => by cases heq

end Versions

variable {i : ℕ} {k : Bytes}

theorem SetAlong.version_le {s : Clients} {ts : List Turn} (h : SetAlong H i k s ts) :
    storedVersion (s.entryAt i k) ≤ storedVersion ((s.run H ts).entryAt i k) := by
  induction ts generalizing s with
  | nil => exact le_rfl
  | cons t ts ih => exact h.1.version_le.trans (ih h.2)

/-- **Where everybody calls `Store::set`, a change shows in the version.** -/
theorem SetAlong.version_lt {c : ℕ} {s : Clients} {ts : List Turn} (h : SetAlong H i k s ts)
    (hchanged : ChangedBy H i k c s ts) :
    storedVersion (s.entryAt i k) < storedVersion ((s.run H ts).entryAt i k) := by
  induction ts generalizing s with
  | nil => exact hchanged.elim
  | cons t ts ih =>
    rcases hchanged with ⟨-, hne⟩ | hchanged
    · have hlt := h.1.version_lt fun heq => hne (congrArg seen heq)
      exact hlt.trans_le h.2.version_le
    · exact h.1.version_le.trans_lt (ih h.2 hchanged)

/-- The action is a command that writes through `Store::set` or not at all, or no command that
touches a database. -/
def Action.Sets (H : Host) : Action → Prop
  | .accept _ => True
  | .command _ name _ | .sub name _ => setsOnly (H.toUppercase (fromUtf8Lossy name)) = true
  | .resume _ _ triggered => triggered = false
  | .background _ => False

theorem onlySets_action (m : Moment) {a : Action} (ha : a.Sets H) :
    ∀ w, WholeOnlySets w (a.run (m.on H) w) := by
  have hdispatch : ∀ name args, setsOnly (upper (m.on H) name) = true →
      Moves WholeOnlySets (dispatch (m.on H) (upper (m.on H) name) args) :=
    fun _ args hname => onlySets_dispatchDepth _ _ hname args
  intro w
  cases a with
  | accept L => exact onlySets_refl _
  | command L name args =>
    exact moves_serve (serves_of_watched fun _ _ _ _ => onlySets_refl _) (hdispatch name args ha) w
  | sub name args => exact moves_serveSub (hdispatch name args ha) w
  | resume b id triggered =>
    obtain rfl : triggered = false := ha
    exact onlySets_refl _
  | background store => exact ha.elim

theorem setAlong_of_sets {ts : List Turn} (hts : ∀ t ∈ ts, t.action.Sets H) (s : Clients) :
    SetAlong H i k s ts := by
  induction ts generalizing s with
  | nil => trivial
  | cons t ts ih =>
    exact ⟨onlySets_action t.moment (hts t List.mem_cons_self) ⟨s.store, s.ctx t.client⟩ i k,
      ih (fun t ht => hts t (List.mem_cons_of_mem _ ht)) _⟩

/-! ### Attempts -/

/-- A client watches a key, among others, and later sends `EXEC` inside a transaction without having
ended the watch. -/
structure Attempt (H : Host) where
  databases : ℕ
  before : List Turn
  client : ℕ
  moment : Moment
  listener : Listener
  name : Bytes
  keys : List Bytes
  key : Bytes
  between : List Turn
  /-- The moment of the `EXEC`. -/
  last : Moment
  watches : H.toUppercase (fromUtf8Lossy name) = "WATCH"
  mem : key ∈ keys
  keeps : ∀ t ∈ between, t.client = client → ¬t.action.EndsWatch H

namespace Attempt

variable (a : Attempt H)

/-- When the `WATCH` comes. -/
def first : Clients := (Clients.start a.databases).run H a.before

/-- After the `WATCH`. -/
def watched : Clients := a.first.step H ⟨a.client, a.moment, .command a.listener a.name a.keys⟩

/-- When the `EXEC` comes. -/
def final : Clients := a.watched.run H a.between

/-- The client as the `EXEC` finds it. -/
def whole : Whole := ⟨a.final.store, a.final.ctx a.client⟩

/-- The database in which the key is watched. -/
def db : ℕ := (a.first.ctx a.client).dbIndex

/-- The version that the `WATCH` sees. -/
def version : ℕ := (Cmd.versionOf a.moment.now a.first.store.databases a.db a.key).getD 0

/-- The `WATCH` is executed, and the `EXEC` belongs to a `MULTI`. -/
structure InOrder : Prop where
  authenticated : (a.first.ctx a.client).authenticated = true
  outside : (a.first.ctx a.client).multiMode = false
  inside : (a.final.ctx a.client).multiMode = true

/-- Another client changes the value, the existence or the expiry of the key. -/
def Changed : Prop := ChangedBy H a.db a.key a.client a.watched a.between

/-- The `EXEC` is answered with the null array and does nothing. -/
def Refused : Prop :=
  dispatch (a.last.on H) "EXEC" [] a.whole
    = (.ok (.array none), { a.whole with ctx := Cmd.takeTransaction a.whole.ctx })

/-- The `EXEC` looks at the database in which the key is watched, and the key either is live and has
been changed by `Store::set` only, or it is not, and was watched with a version other than 0. -/
def Tracked : Prop :=
  a.whole.ctx.dbIndex = a.db ∧
    ((a.final.store.databases.liveEntry a.last.now a.db a.key).isSome = true ∧
        SetAlong H a.db a.key a.watched a.between ∨
      a.final.store.databases.liveEntry a.last.now a.db a.key = none ∧ a.version ≠ 0)

variable {a}

/-- The `WATCH` is executed. -/
theorem InOrder.executed (h : a.InOrder) : ∃ l, a.watched.store = a.first.store ∧
    Watches (a.watched.ctx a.client) l ∧ (a.key, a.version) ∈ l := by
  have hstart : ∀ j, Paired ((Clients.start a.databases).ctx j) := fun _ => ⟨[], rfl, rfl⟩
  obtain ⟨l, hl⟩ := Clients.paired_run (H := H) a.before hstart a.client
  have hname : upper (a.moment.on H) a.name = "WATCH" := a.watches
  have hauth : (Whole.mk a.first.store (a.first.ctx a.client)).ctx.authenticated = true :=
    h.authenticated
  obtain ⟨hstore, hctx⟩ := serve_watch a.listener hname a.keys hauth h.outside hl
  rw [watched, Clients.step_store, Clients.step_ctx_self _ _ ⟨a.client, _, _⟩, Action.run_command]
  dsimp only
  exact ⟨_, hstore, hctx, List.mem_append_right _ (List.mem_map_of_mem a.mem)⟩

/-- What the client watches when the `EXEC` comes. -/
theorem InOrder.watches (h : a.InOrder) : ∃ l, Watches a.whole.ctx l ∧ (a.key, a.version) ∈ l := by
  obtain ⟨l, -, hl, hmem⟩ := h.executed
  obtain ⟨l', hl'⟩ := Clients.keeps_run a.keeps a.watched _ hl
  exact ⟨_, hl', List.mem_append_left _ hmem⟩

/-- **`EXEC` notices a change** in every run in which the key is tracked. -/
theorem refused (h : a.InOrder) (hchanged : a.Changed) (htracked : a.Tracked) : a.Refused := by
  obtain ⟨l, hl, hmem⟩ := h.watches
  obtain ⟨hdb, hcases⟩ := htracked
  refine dispatch_exec_refused (a.last.on H) hl h.inside hmem ?_
  rw [hdb]
  rcases hcases with ⟨hlive, hsets⟩ | ⟨hgone, hversion⟩
  · obtain ⟨e, he⟩ := Option.isSome_iff_exists.mp hlive
    have hfirst : a.version ≤ storedVersion (a.watched.entryAt a.db a.key) := by
      obtain ⟨-, hstore, -⟩ := h.executed
      rw [Clients.entryAt, hstore]
      exact versionOf_le
    have hlt := hfirst.trans_lt (hsets.version_lt hchanged)
    have hseen : Cmd.versionOf a.last.now a.final.store.databases a.db a.key
        = some (storedVersion (a.final.entryAt a.db a.key)) := versionOf_of_live he
    exact fun heq => hlt.ne (Option.some.inj (heq.symm.trans hseen))
  · exact versionOf_ne_of_not_live hgone hversion

end Attempt

/-! ### Two clients -/

/-- A connection without a password, at the beginning of time, sends a command. -/
def Turn.of (client : ℕ) (name : String) (args : List Bytes) : Turn :=
  ⟨client, ⟨0, 0, 0, 0⟩, .command (Listener.plain none false) (asBytes name) args⟩

/-- The key `k` is watched, a `SET` of it is queued, and then another client sends a command. -/
def Attempt.against (name : String) (args : List Bytes) : Attempt Host.plain where
  databases := 1
  before := []
  client := 0
  moment := ⟨0, 0, 0, 0⟩
  listener := Listener.plain none false
  name := asBytes "WATCH"
  keys := [[107]]
  key := [107]
  between := [.of 0 "MULTI" [], .of 0 "SET" [[107], [49]], .of 1 name args]
  last := ⟨0, 0, 0, 1⟩
  watches := by decide +kernel
  mem := List.mem_singleton.mpr rfl
  keeps := by
    simp only [List.forall_mem_cons]
    refine ⟨fun _ => ?_, fun _ => ?_, fun h => absurd h Nat.one_ne_zero, List.forall_mem_nil _⟩
    · show Host.plain.toUppercase (fromUtf8Lossy (asBytes "MULTI")) ∉ endNames
      decide +kernel
    · show Host.plain.toUppercase (fromUtf8Lossy (asBytes "SET")) ∉ endNames
      decide +kernel

/-- The other client sets the key. -/
theorem Attempt.refused_set : (Attempt.against "SET" [[107], [50]]).Refused := by
  have horder : (Attempt.against "SET" [[107], [50]]).InOrder := by
    constructor <;> decide +kernel
  have hsets : ∀ t ∈ (Attempt.against "SET" [[107], [50]]).between, t.action.Sets Host.plain := by
    simp only [Attempt.against, List.forall_mem_cons]
    refine ⟨?_, ?_, ?_, List.forall_mem_nil _⟩
    · show setsOnly (Host.plain.toUppercase (fromUtf8Lossy (asBytes "MULTI"))) = true
      decide +kernel
    · show setsOnly (Host.plain.toUppercase (fromUtf8Lossy (asBytes "SET"))) = true
      decide +kernel
    · show setsOnly (Host.plain.toUppercase (fromUtf8Lossy (asBytes "SET"))) = true
      decide +kernel
  refine Attempt.refused horder ?_
    ⟨by decide +kernel, Or.inl ⟨by decide +kernel, setAlong_of_sets hsets _⟩⟩
  exact Or.inr (Or.inr (Or.inl ⟨Nat.one_ne_zero, fun h =>
    absurd (congrArg Option.isSome h) (by decide +kernel)⟩))

/-- The other client pushes to the key, whose version stays 0: the queue is executed. -/
theorem Attempt.runs_push :
    (Attempt.against "LPUSH" [[107], [50]]).InOrder ∧
      (Attempt.against "LPUSH" [[107], [50]]).Changed ∧
      ¬(Attempt.against "LPUSH" [[107], [50]]).Refused := by
  refine ⟨by constructor <;> decide +kernel, Or.inr (Or.inr (Or.inl ⟨Nat.one_ne_zero, fun h =>
    absurd (congrArg Option.isSome h) (by decide +kernel)⟩)), fun h => ?_⟩
  -- the queued `SET` has replaced the list
  have hset : (dispatch ((Attempt.against "LPUSH" [[107], [50]]).last.on Host.plain) "EXEC" []
      (Attempt.against "LPUSH" [[107], [50]]).whole).2.store.databases.get 0 0 [107]
        = .ok (some [49]) := by decide +kernel
  have hlist : (Attempt.against "LPUSH" [[107], [50]]).whole.store.databases.get 0 0 [107]
        = .error .wrongType := by decide +kernel
  rw [h] at hset
  dsimp only at hset
  rw [hlist] at hset
  cases hset

end VeloDB
