import VeloDB.Lib.Movers
import VeloDB.Net.Watch
import VeloDB.Net.Writes

/-!
# What runs between the steps of `EXEC`

`EXEC` looks at the watched keys one after the other and then dispatches the queued commands one
after the other, and nothing is locked from one of these steps to the next. `ExecRace` is the server
while one connection is in `EXEC`; the turns of the other connections come in between.

The maps of the store are hash maps: in which order they iterate is nothing a connection can rely
on, so a step may find them in another order than the one before has left them in.

## Main results

* `ExecRace.steps_eq` — the steps in a row are `exec`
* `exec_one_block` — when the replies and the store are those of a serial order
-/

namespace VeloDB

open Rust Proc Movers

/-! ### Stores that differ in the order of their maps -/

/-- The score index of a sorted set. -/
def StorageValue.scores : StorageValue → Scores
  | .zset _ sc => sc
  | _ => []

/-- The same value, but for the order in which its maps iterate. -/
structure StorageValue.Reordered (v v' : StorageValue) : Prop where
  same : v.Same v'
  scores : List.Forall₂ (fun p q => p.1 = q.1 ∧ HashMap.Same p.2 q.2) v.scores v'.scores

/-- The same entry, but for the order in which the maps of its value iterate. -/
structure Entry.Reordered (e e' : Entry) : Prop where
  value : e.value.Reordered e'.value
  expireAt : e.expireAt = e'.expireAt
  version : e.version = e'.version

/-- The same group, but for the order in which its consumers iterate. -/
structure ConsumerGroup.Reordered (g g' : ConsumerGroup) : Prop where
  lastDeliveredMs : g.lastDeliveredMs = g'.lastDeliveredMs
  lastDeliveredSeq : g.lastDeliveredSeq = g'.lastDeliveredSeq
  consumers : HashMap.Same g.consumers g'.consumers
  pending : g.pending = g'.pending

/-- The same tables, but for the order in which they iterate. -/
structure Tables.Reordered (t t' : Tables) : Prop where
  waiters : HashMap.Same t.blockRegistry.waiters t'.blockRegistry.waiters
  nextId : t.blockRegistry.nextId = t'.blockRegistry.nextId
  channels : HashMap.Same t.pubsubRegistry.channels t'.pubsubRegistry.channels
  patterns : HashMap.Same t.pubsubRegistry.patterns t'.pubsubRegistry.patterns
  mailboxes : HashMap.Same t.pubsubRegistry.mailboxes t'.pubsubRegistry.mailboxes
  nextMailbox : t.pubsubRegistry.nextMailbox = t'.pubsubRegistry.nextMailbox
  luaScripts : HashMap.Same t.luaScripts.entries t'.luaScripts.entries
  scriptReaders : t.luaScripts.readers = t'.luaScripts.readers
  maxmemory : t.maxmemory = t'.maxmemory
  evictionPolicy : t.evictionPolicy = t'.evictionPolicy
  cachedMemoryUsage : t.cachedMemoryUsage = t'.cachedMemoryUsage
  scanCursors : HashMap.Same t.scanCursors t'.scanCursors
  nextScanCursor : t.nextScanCursor = t'.nextScanCursor
  consumerGroups : HashMap.SameBy ConsumerGroup.Reordered t.consumerGroups t'.consumerGroups
  woken : t.woken = t'.woken

/-- The same store, but for the order in which its maps iterate. -/
structure Store.Reordered (s s' : Store) : Prop where
  databases : List.Forall₂ (HashMap.SameBy Entry.Reordered) s.databases s'.databases
  tables : s.tables.Reordered s'.tables

theorem StorageValue.Same.trans {v v' v'' : StorageValue} (h : v.Same v') (h' : v'.Same v'') :
    v.Same v'' := by
  cases h with
  | string v => exact h'
  | list l => exact h'
  | stream es ms seq => exact h'
  | set h =>
    cases h' with
    | set h' => exact .set fun k => (h k).trans (h' k)
  | hash h =>
    cases h' with
    | hash h' => exact .hash fun k => (h k).trans (h' k)
  | zset h sc sc' =>
    cases h' with
    | zset h' => exact .zset (fun k => (h k).trans (h' k)) _ _
  | nestedHash h =>
    cases h' with
    | nestedHash h' =>
      exact .nestedHash (HashMap.SameBy.trans (fun h h' k => (h k).trans (h' k)) h h')

theorem forall₂_trans {α : Type} {r : α → α → Prop} (hr : ∀ {a b c}, r a b → r b c → r a c)
    {l l' l'' : List α} (h : List.Forall₂ r l l') (h' : List.Forall₂ r l' l'') :
    List.Forall₂ r l l'' := by
  induction h generalizing l'' with
  | nil => exact h'
  | cons hab _ ih =>
    obtain ⟨c, l'', hbc, htail, rfl⟩ := List.forall₂_cons_left_iff.mp h'
    exact .cons (hr hab hbc) (ih htail)

namespace StorageValue.Reordered

theorem refl (v : StorageValue) : v.Reordered v :=
  ⟨.refl v, List.forall₂_same.mpr fun _ _ => ⟨rfl, fun _ => rfl⟩⟩

theorem trans {v v' v'' : StorageValue} (h : v.Reordered v') (h' : v'.Reordered v'') :
    v.Reordered v'' where
  same := h.same.trans h'.same
  scores := forall₂_trans (fun h h' => ⟨h.1.trans h'.1, fun k => (h.2 k).trans (h'.2 k)⟩)
    h.scores h'.scores

end StorageValue.Reordered

theorem Entry.Reordered.refl (e : Entry) : e.Reordered e := ⟨.refl e.value, rfl, rfl⟩

theorem Entry.Reordered.trans {e e' e'' : Entry} (h : e.Reordered e') (h' : e'.Reordered e'') :
    e.Reordered e'' :=
  ⟨h.value.trans h'.value, h.expireAt.trans h'.expireAt, h.version.trans h'.version⟩

theorem ConsumerGroup.Reordered.refl (g : ConsumerGroup) : g.Reordered g :=
  ⟨rfl, rfl, fun _ => rfl, rfl⟩

theorem ConsumerGroup.Reordered.trans {g g' g'' : ConsumerGroup} (h : g.Reordered g')
    (h' : g'.Reordered g'') : g.Reordered g'' :=
  ⟨h.1.trans h'.1, h.2.trans h'.2, fun c => (h.3 c).trans (h'.3 c), h.4.trans h'.4⟩

theorem Tables.Reordered.refl (t : Tables) : t.Reordered t :=
  ⟨fun _ => rfl, rfl, fun _ => rfl, fun _ => rfl, fun _ => rfl, rfl, fun _ => rfl, rfl, rfl, rfl,
    rfl, fun _ => rfl, rfl, HashMap.SameBy.refl ConsumerGroup.Reordered.refl _, rfl⟩

theorem Tables.Reordered.trans {t t' t'' : Tables} (h : t.Reordered t') (h' : t'.Reordered t'') :
    t.Reordered t'' where
  waiters k := (h.waiters k).trans (h'.waiters k)
  nextId := h.nextId.trans h'.nextId
  channels k := (h.channels k).trans (h'.channels k)
  patterns k := (h.patterns k).trans (h'.patterns k)
  mailboxes k := (h.mailboxes k).trans (h'.mailboxes k)
  nextMailbox := h.nextMailbox.trans h'.nextMailbox
  luaScripts k := (h.luaScripts k).trans (h'.luaScripts k)
  scriptReaders := h.scriptReaders.trans h'.scriptReaders
  maxmemory := h.maxmemory.trans h'.maxmemory
  evictionPolicy := h.evictionPolicy.trans h'.evictionPolicy
  cachedMemoryUsage := h.cachedMemoryUsage.trans h'.cachedMemoryUsage
  scanCursors k := (h.scanCursors k).trans (h'.scanCursors k)
  nextScanCursor := h.nextScanCursor.trans h'.nextScanCursor
  consumerGroups := HashMap.SameBy.trans (r := ConsumerGroup.Reordered) .trans
    h.consumerGroups h'.consumerGroups
  woken := h.woken.trans h'.woken

theorem Tables.Reordered.deniesMemory_eq {t t' : Tables} (h : t.Reordered t') (name : String) :
    t.deniesMemory name = t'.deniesMemory name := by
  rw [Tables.deniesMemory, Tables.deniesMemory, Tables.overMemoryLimit, Tables.overMemoryLimit,
    h.maxmemory, h.cachedMemoryUsage, h.evictionPolicy]

theorem Store.Reordered.refl (s : Store) : s.Reordered s :=
  ⟨List.forall₂_same.mpr fun d _ => HashMap.SameBy.refl Entry.Reordered.refl d, .refl s.tables⟩

theorem Store.Reordered.trans {s s' s'' : Store} (h : s.Reordered s') (h' : s'.Reordered s'') :
    s.Reordered s'' :=
  ⟨forall₂_trans (r := HashMap.SameBy Entry.Reordered) (HashMap.SameBy.trans .trans)
      h.databases h'.databases, h.tables.trans h'.tables⟩

/-- The stores hold the same at a key, in every database. -/
structure SameAt (k : Bytes) (s s' : Store) : Prop where
  length : s.databases.length = s'.databases.length
  find : ∀ i, s.databases.find i k = s'.databases.find i k

theorem SameAt.entry_eq {k : Bytes} {s s' : Store} (h : SameAt k s s') (now : UInt64) (i : ℕ) :
    s.databases.entry now i k = s'.databases.entry now i k := by
  by_cases hi : i < s.databases.length
  · rw [Databases.entry_eq hi, Databases.entry_eq (h.length ▸ hi), Databases.liveEntry,
      Databases.liveEntry, h.find]
  · have hi := Nat.le_of_not_lt hi
    rw [Databases.entry, Databases.entry, Databases.db, Databases.db, List.getElem?_eq_none hi,
      List.getElem?_eq_none (h.length ▸ hi)]

/-- Nothing at the key differs after the procedure. -/
def WholeSameAt (k : Bytes) (w w' : Whole) : Prop := SameAt k w.store w'.store

instance reflWholeSameAt (k : Bytes) : Std.Refl (WholeSameAt k) := ⟨fun _ => ⟨rfl, fun _ => rfl⟩⟩

instance transWholeSameAt (k : Bytes) : IsTrans Whole (WholeSameAt k) :=
  ⟨fun _ _ _ h h' => ⟨h.length.trans h'.length, fun i => (h.find i).trans (h'.find i)⟩⟩

namespace Store.Reordered

variable {s s' : Store}

/-- What is found at a key. -/
theorem entry (h : s.Reordered s') (now : UInt64) (i : ℕ) (k : Bytes) :
    (∃ e, s.databases.entry now i k = .error e ∧ s'.databases.entry now i k = .error e) ∨
    ∃ o o', s.databases.entry now i k = .ok o ∧ s'.databases.entry now i k = .ok o' ∧
      Option.Rel Entry.Reordered o o' := by
  obtain ⟨hlen, hget⟩ := List.forall₂_iff_get.mp h.databases
  by_cases hi : i < s.databases.length
  · refine Or.inr ⟨_, _, Databases.entry_eq hi now k, Databases.entry_eq (hlen ▸ hi) now k, ?_⟩
    have hk := hget i hi (hlen ▸ hi) k
    rw [List.get_eq_getElem, List.get_eq_getElem] at hk
    rw [Databases.liveEntry_eq (List.getElem?_eq_getElem hi),
      Databases.liveEntry_eq (List.getElem?_eq_getElem (hlen ▸ hi))]
    have hfilter : ∀ {o o' : Option Entry}, Option.Rel Entry.Reordered o o' →
        Option.Rel Entry.Reordered (o.filter fun e => !e.expired now)
          (o'.filter fun e => !e.expired now) := by
      rintro _ _ (he | _)
      · rename_i e e'
        have hexpired : e.expired now = e'.expired now := by
          rw [Entry.expired, Entry.expired, he.expireAt]
        rw [Option.filter_some, Option.filter_some, hexpired]
        split_ifs
        · exact .some he
        · exact .none
      · exact .none
    exact hfilter hk
  · have hi := Nat.le_of_not_lt hi
    refine Or.inl ⟨.internal ("db " ++ toString i ++ " out of range"), ?_, ?_⟩
    · rw [Databases.entry, Databases.db, List.getElem?_eq_none hi]
      rfl
    · rw [Databases.entry, Databases.db, List.getElem?_eq_none (hlen ▸ hi)]
      rfl

theorem versionOf_eq (h : s.Reordered s') (now : UInt64) (i : ℕ) (k : Bytes) :
    Cmd.versionOf now s.databases i k = Cmd.versionOf now s'.databases i k := by
  rw [Cmd.versionOf, Cmd.versionOf, Databases.getVersion, Databases.getVersion]
  rcases h.entry now i k with ⟨e, he, he'⟩ | ⟨_, _, he, he', hab | _⟩
  · rw [he, he']
  · rw [he, he']
    exact congrArg some hab.version
  · rw [he, he']

theorem get_eq (h : s.Reordered s') (now : UInt64) (i : ℕ) (k : Bytes) :
    s.databases.get now i k = s'.databases.get now i k := by
  rw [Databases.get, Databases.get]
  rcases h.entry now i k with ⟨e, he, he'⟩ | ⟨_, _, he, he', hab | _⟩
  · rw [he, he']
  · rename_i a b
    obtain ⟨v, _, _⟩ := a
    obtain ⟨v', _, _⟩ := b
    have hsame : v.Same v' := hab.value.same
    rw [he, he']
    cases hsame <;> rfl
  · rw [he, he']

end Store.Reordered

/-! ### `EXEC` among the other connections -/

/-- What has come of an `EXEC` so far: the replies of its commands, or how it has ended. -/
inductive ExecOutcome
  | replies (l : List RespValue)
  | ended (r : Except Failure RespValue)

/-- The server while one connection is in `EXEC`. -/
structure ExecRace where
  clients : Clients
  outcome : ExecOutcome

/-- The steps of the `EXEC`, each at a moment of its own, and the turns of the other connections. -/
inductive ExecEvent
  /-- The connection looks at a watched key and the version that it has seen. -/
  | check (m : Moment) (key : Bytes) (version : Option ℕ)
  /-- It dispatches a queued command. -/
  | run (m : Moment) (args : List Bytes)
  | turn (t : Turn)

/-- The step belongs to the `EXEC`. -/
def ExecEvent.OfExec : ExecEvent → Prop
  | .check _ _ _ | .run _ _ => True
  | .turn _ => False

instance : DecidablePred ExecEvent.OfExec
  | .check _ _ _ | .run _ _ => inferInstanceAs (Decidable True)
  | .turn _ => inferInstanceAs (Decidable False)

/-- The watched keys with the versions beside them. -/
def watchChecks (m : Moment) : List Bytes → List ℕ → List ExecEvent
  | [], _ => []
  | key :: keys, versions => .check m key versions.head? :: watchChecks m keys versions.tail

/-- The steps of an `EXEC` all at one moment. -/
def ClientContext.execSteps (c : ClientContext) (m : Moment) : List ExecEvent :=
  watchChecks m c.watchedKeys c.watchedVersions ++ c.multiQueue.map (.run m)

/-- What `exec` returns. -/
def ExecOutcome.result : ExecOutcome → Except Failure RespValue
  | .replies l => .ok (.array (some l))
  | .ended r => r

namespace ExecRace

variable (H : Host) (c : ℕ)

/-- The loop body of `exec` over the watched keys. -/
def check (s : ExecRace) (m : Moment) (key : Bytes) (version : Option ℕ) : ExecRace :=
  match Cmd.versionOf m.now s.clients.store.databases (s.clients.ctx c).dbIndex key with
  | none => { s with outcome := .ended (.ok (.array none)) }
  | some current =>
    match version with
    | none => { s with outcome := .ended (.error .panic) }
    | some v => if current ≠ v then { s with outcome := .ended (.ok (.array none)) } else s

/-- The loop body of `exec` over the queue. -/
def dispatchQueued (s : ExecRace) (m : Moment) (replies : List RespValue) : List Bytes → ExecRace
  | [] => { s with outcome := .ended (.error .panic) }
  | name :: args =>
    let r := dispatchDepth (m.on H) m.nesting (upper (m.on H) name) args
      ⟨s.clients.store, s.clients.ctx c⟩
    { clients := ⟨r.2.store, Function.update s.clients.ctx c r.2.ctx⟩
      outcome := match r.1 with
        | .ok resp => .replies (replies ++ [resp])
        | .error e => .ended (.error e) }

/-- One step. The connection that is in `EXEC` has no turns of its own. -/
def step (s : ExecRace) : ExecEvent → ExecRace
  | .check m key version =>
    match s.outcome with
    | .replies _ => s.check c m key version
    | .ended _ => s
  | .run m args =>
    match s.outcome with
    | .replies l => s.dispatchQueued H c m l args
    | .ended _ => s
  | .turn t => if t.client = c then s else { s with clients := s.clients.step H t }

/-- The `EXEC` of a connection begins: what belongs to the transaction is taken. -/
def start (s : Clients) : ExecRace where
  clients := ⟨s.store, Function.update s.ctx c (Cmd.takeTransaction (s.ctx c))⟩
  outcome := .replies []

/-- Stores that differ in the order of their maps. -/
structure Reordered (s s' : ExecRace) : Prop where
  store : s.clients.store.Reordered s'.clients.store
  ctx : s.clients.ctx = s'.clients.ctx
  outcome : s.outcome = s'.outcome

theorem Reordered.refl (s : ExecRace) : s.Reordered s := ⟨.refl _, rfl, rfl⟩

theorem Reordered.trans {s s' s'' : ExecRace} (h : s.Reordered s') (h' : s'.Reordered s'') :
    s.Reordered s'' :=
  ⟨h.store.trans h'.store, h.ctx.trans h'.ctx, h.outcome.trans h'.outcome⟩

/-- A step, which may find the maps of the store in any order. -/
def Step : ExecEvent → ExecRace → ExecRace → Prop := UpTo Reordered (step H c)

/-- A run. -/
abbrev Runs : ExecRace → List ExecEvent → ExecRace → Prop := Steps (Step H c)

/-- The turns of the others in some order, and among them the steps of the `EXEC` with nothing in
between. -/
def SerialOrder (es fs : List ExecEvent) : Prop :=
  ∃ before after, fs = before ++ es.filter (fun e => e.OfExec) ++ after ∧
    (before ++ after).Perm (es.filter fun e => ¬e.OfExec)

/-! ### Steps in a row -/

variable {H : Host} {c : ℕ} {s : ExecRace}

/-- What the watched keys decide. -/
def checked (s : ExecRace) : Except Failure Bool → ExecRace
  | .ok true => s
  | .ok false => { s with outcome := .ended (.ok (.array none)) }
  | .error e => { s with outcome := .ended (.error e) }

/-- What comes of the queued commands. -/
def executed (l : List RespValue) : Except Failure (List RespValue) → ExecOutcome
  | .ok results => .replies (l ++ results)
  | .error e => .ended (.error e)

theorem foldl_ended {r : Except Failure RespValue} (h : s.outcome = .ended r) {es : List ExecEvent}
    (hes : ∀ e ∈ es, e.OfExec) : es.foldl (step H c) s = s := by
  induction es with
  | nil => rfl
  | cons e es ih =>
    have he : s.step H c e = s := by
      cases e with
      | check m key version => rw [step, h]
      | run m args => rw [step, h]
      | turn t => exact (hes _ List.mem_cons_self).elim
    rw [List.foldl_cons, he]
    exact ih fun f hf => hes f (List.mem_cons_of_mem e hf)

theorem ofExec_watchChecks (m : Moment) (keys : List Bytes) (versions : List ℕ) :
    ∀ e ∈ watchChecks m keys versions, e.OfExec := by
  induction keys generalizing versions with
  | nil => exact fun e he => absurd he List.not_mem_nil
  | cons key keys ih =>
    intro e he
    rcases List.mem_cons.mp he with rfl | he
    · trivial
    · exact ih versions.tail e he

theorem ofExec_runs (m : Moment) (queue : List (List Bytes)) :
    ∀ e ∈ queue.map (ExecEvent.run m), e.OfExec := by
  intro e he
  obtain ⟨args, -, rfl⟩ := List.mem_map.mp he
  trivial

theorem foldl_checks {l : List RespValue} (h : s.outcome = .replies l) (m : Moment)
    (keys : List Bytes) (versions : List ℕ) :
    (watchChecks m keys versions).foldl (step H c) s = s.checked (Cmd.checkWatched m.now
      s.clients.store.databases (s.clients.ctx c).dbIndex keys versions) := by
  induction keys generalizing versions with
  | nil => rfl
  | cons key keys ih =>
    have hend : ∀ r, (watchChecks m keys versions.tail).foldl (step H c)
        { s with outcome := .ended r } = { s with outcome := .ended r } :=
      fun r => foldl_ended rfl (ofExec_watchChecks m keys versions.tail)
    have hstep : s.step H c (.check m key versions.head?) = s.check c m key versions.head? := by
      rw [step, h]
    rw [watchChecks, List.foldl_cons, hstep, check, Cmd.checkWatched]
    cases Cmd.versionOf m.now s.clients.store.databases (s.clients.ctx c).dbIndex key with
    | none => exact hend _
    | some current =>
      cases versions with
      | nil => exact hend _
      | cons v versions =>
        by_cases hv : current = v
        · simp only [List.head?_cons, List.tail_cons, hv, ne_eq, not_true_eq_false, if_false]
          exact ih versions
        · simp only [List.head?_cons, ne_eq, hv, not_false_eq_true, if_true]
          exact hend _

theorem foldl_runs {l : List RespValue} (h : s.outcome = .replies l) (m : Moment)
    (queue : List (List Bytes)) :
    (queue.map (.run m)).foldl (step H c) s
      = let r := Cmd.execQueue (dispatchDepth (m.on H) m.nesting) (m.on H) queue
          ⟨s.clients.store, s.clients.ctx c⟩
        { clients := ⟨r.2.store, Function.update s.clients.ctx c r.2.ctx⟩
          outcome := executed l r.1 } := by
  induction queue generalizing s l with
  | nil =>
    rw [List.map_nil, List.foldl_nil]
    change s = ⟨⟨s.clients.store, Function.update s.clients.ctx c (s.clients.ctx c)⟩,
      .replies (l ++ [])⟩
    rw [Function.update_eq_self, List.append_nil, ← h]
  | cons args queue ih =>
    have hstep : s.step H c (.run m args) = s.dispatchQueued H c m l args := by rw [step, h]
    rw [List.map_cons, List.foldl_cons, hstep]
    cases args with
    | nil =>
      have hend : (s.dispatchQueued H c m l []).outcome = .ended (.error .panic) := rfl
      rw [foldl_ended hend (ofExec_runs m queue)]
      change (⟨s.clients, _⟩ : ExecRace)
        = ⟨⟨s.clients.store, Function.update s.clients.ctx c (s.clients.ctx c)⟩, _⟩
      rw [Function.update_eq_self]
      rfl
    | cons name args =>
      rw [dispatchQueued, Cmd.execQueue, arg_cons_zero, lift_ok_bind, List.tail_cons]
      rcases hr : dispatchDepth (m.on H) m.nesting (upper (m.on H) name) args
        ⟨s.clients.store, s.clients.ctx c⟩ with ⟨e | resp, w⟩
      · rw [Proc.bind_error hr, foldl_ended rfl (ofExec_runs m queue)]
        rfl
      · rw [Proc.bind_ok hr, ih rfl]
        dsimp only
        rw [Function.update_self, Function.update_idem]
        rcases hq : Cmd.execQueue (dispatchDepth (m.on H) m.nesting) (m.on H) queue ⟨w.store, w.ctx⟩
          with ⟨e | results, w'⟩
        · rw [Proc.bind_error hq]
          rfl
        · rw [Proc.bind_ok hq]
          change (⟨_, .replies (l ++ [resp] ++ results)⟩ : ExecRace)
            = ⟨_, .replies (l ++ (resp :: results))⟩
          rw [List.append_assoc, List.singleton_append]
          rfl

/-- **The steps in a row** are what `exec` does. -/
theorem steps_eq (s : Clients) (m : Moment) (hmulti : (s.ctx c).multiMode = true) :
    let r := Cmd.exec (dispatchDepth (m.on H) m.nesting) (m.on H) ⟨s.store, s.ctx c⟩
    let t := ((s.ctx c).execSteps m).foldl (step H c) (start c s)
    t.clients = ⟨r.2.store, Function.update s.ctx c r.2.ctx⟩ ∧ t.outcome.result = r.1 := by
  intro r t
  have hctx : (start c s).clients.ctx c = Cmd.takeTransaction (s.ctx c) := Function.update_self ..
  have hchecks := foldl_checks (H := H) (c := c) (s := start c s) rfl m (s.ctx c).watchedKeys
    (s.ctx c).watchedVersions
  have ht : t = ((s.ctx c).multiQueue.map (.run m)).foldl (step H c)
      ((start c s).checked (Cmd.checkWatched m.now s.store.databases (s.ctx c).dbIndex
        (s.ctx c).watchedKeys (s.ctx c).watchedVersions)) := by
    rw [hctx] at hchecks
    change List.foldl _ _ (_ ++ _) = _
    rw [List.foldl_append, hchecks]
    rfl
  have hr : r = (Proc.modify (fun w => { w with ctx := Cmd.takeTransaction w.ctx }) >>= fun _ =>
      lift (Cmd.checkWatched m.now s.store.databases (s.ctx c).dbIndex (s.ctx c).watchedKeys
        (s.ctx c).watchedVersions) >>= fun unchanged =>
      if unchanged then Cmd.execQueue (dispatchDepth (m.on H) m.nesting) (m.on H)
        (s.ctx c).multiQueue >>= fun results => pure (.array (some results))
      else pure (.array none)) ⟨s.store, s.ctx c⟩ := by
    change Cmd.exec _ _ _ = _
    rw [Cmd.exec, Proc.get_bind, hmulti]
    rfl
  rw [ht, hr, Proc.modify_bind]
  rcases Cmd.checkWatched m.now s.store.databases (s.ctx c).dbIndex (s.ctx c).watchedKeys
    (s.ctx c).watchedVersions with e | _ | _
  · rw [checked, foldl_ended rfl (ofExec_runs m _)]
    exact ⟨rfl, rfl⟩
  · rw [checked, foldl_ended rfl (ofExec_runs m _)]
    exact ⟨rfl, rfl⟩
  · rw [checked, foldl_runs rfl, hctx, lift_ok_bind, if_pos rfl]
    dsimp only [start]
    rcases hq : Cmd.execQueue (dispatchDepth (m.on H) m.nesting) (m.on H) (s.ctx c).multiQueue
      ⟨s.store, Cmd.takeTransaction (s.ctx c)⟩ with ⟨e | results, w⟩
    · rw [Proc.bind_error hq, Function.update_idem]
      exact ⟨rfl, rfl⟩
    · rw [Proc.bind_ok hq, Function.update_idem]
      exact ⟨rfl, rfl⟩

/-! ### Serial orders -/

/-- The steps of the `EXEC` and the turns of the others, up to some moment and from there on, can
change places: before the moment the turns go first, and after it the steps do. -/
structure Separable (H : Host) (c : ℕ) (before after : List ExecEvent) : Prop where
  before : before.Pairwise fun e f => e.OfExec → ¬f.OfExec → Swaps (Step H c) e f
  after : after.Pairwise fun e f => ¬e.OfExec → f.OfExec → Swaps (Step H c) e f

/-- **`EXEC` as one block.** Whatever runs between the steps of an `EXEC`, the replies, the store
and the contexts are those of a serial order, as long as there is a moment such that the turns of
the others before it change places with the steps before them, and those after it with the steps
after them. -/
theorem exec_one_block {s t : ExecRace} {before after : List ExecEvent}
    (hsep : Separable H c before after) (hrun : Runs H c s (before ++ after) t) :
    ∃ fs, SerialOrder (before ++ after) fs ∧ Runs H c s fs t := by
  refine ⟨_, ⟨_, _, rfl, ?_⟩, Steps.block hsep.before hsep.after hrun⟩
  rw [List.filter_append]

/-! ### Steps that change places -/

variable {e : ExecEvent} {t : Turn}

theorem step_turn (H : Host) (c : ℕ) (s : ExecRace) (t : Turn) :
    (s.step H c (.turn t)).outcome = s.outcome ∧ (s.step H c (.turn t)).clients
      = if t.client = c then s.clients else s.clients.step H t := by
  rw [step]
  split_ifs
  · exact ⟨rfl, rfl⟩
  · exact ⟨rfl, rfl⟩

/-- The step looks at the store and changes nothing but the outcome. -/
structure Observes (H : Host) (c : ℕ) (e : ExecEvent) : Prop where
  clients : ∀ s, (step H c s e).clients = s.clients
  outcome : ∀ s s' : ExecRace, s.Reordered s' → (s.step H c e).outcome = (s'.step H c e).outcome

/-- **A step that only looks** changes places with a turn that it does not notice. -/
theorem Observes.swaps (he : Observes H c e)
    (hturn : ∀ s : ExecRace, ((s.step H c (.turn t)).step H c e).outcome = (s.step H c e).outcome) :
    Swaps (Step H c) e (.turn t) ∧ Swaps (Step H c) (.turn t) e := by
  have hclients : ∀ s s' : ExecRace, s.clients = s'.clients →
      (s.step H c (.turn t)).clients = (s'.step H c (.turn t)).clients := by
    intro s s' hs
    rw [(step_turn H c s t).2, (step_turn H c s' t).2, hs]
  constructor
  · rintro s u v ⟨s₁, hs, hu⟩ ⟨u₁, hu₁, hv⟩
    have hmid := hu.trans hu₁
    -- the turn starts from the maps that it finds after the look, and the look comes after it
    let x : ExecRace := ⟨u₁.clients, s.outcome⟩
    have hx : s.Reordered x := by
      have hstore := hmid.store
      have hctx := hmid.ctx
      rw [he.clients] at hstore hctx
      exact ⟨hs.store.trans hstore, hs.ctx.trans hctx, rfl⟩
    refine ⟨x.step H c (.turn t), ⟨x, hx, .refl _⟩, x.step H c (.turn t), .refl _, ?_⟩
    have hout : ((x.step H c (.turn t)).step H c e).outcome = v.outcome := by
      rw [hturn x, ← he.outcome s x hx, he.outcome s s₁ hs, hmid.outcome,
        ← (step_turn H c u₁ t).1, hv.outcome]
    refine ⟨?_, ?_, hout⟩
    · rw [he.clients, hclients x u₁ rfl]
      exact hv.store
    · rw [he.clients, hclients x u₁ rfl]
      exact hv.ctx
  · rintro s u v ⟨s₁, hs, hu⟩ ⟨u₁, hu₁, hv⟩
    have hmid := hu.trans hu₁
    let x : ExecRace := ⟨s₁.clients, (s.step H c e).outcome⟩
    refine ⟨s.step H c e, ⟨s, .refl s, .refl _⟩, x, ⟨?_, ?_, rfl⟩, ?_⟩
    · rw [he.clients]
      exact hs.store
    · rw [he.clients]
      exact hs.ctx
    have hout : (x.step H c (.turn t)).outcome = v.outcome := by
      rw [(step_turn H c x t).1, ← hv.outcome, ← he.outcome _ u₁ hmid, hturn s₁]
      exact he.outcome s s₁ hs
    have hv₁ := hv.store
    have hv₂ := hv.ctx
    rw [he.clients] at hv₁ hv₂
    refine ⟨?_, ?_, hout⟩
    · rw [hclients x s₁ rfl]
      exact hmid.store.trans hv₁
    · rw [hclients x s₁ rfl]
      exact hmid.ctx.trans hv₂

theorem observes_check (m : Moment) (key : Bytes) (version : Option ℕ) :
    Observes H c (.check m key version) := by
  constructor
  · intro s
    rw [step]
    split
    · rw [check]
      split
      · rfl
      · split
        · rfl
        · split_ifs <;> rfl
    · rfl
  · intro s s' h
    rw [step, step, h.outcome, check, check, h.store.versionOf_eq, h.ctx]
    split
    · split
      · rfl
      · split
        · rfl
        · split_ifs
          · rfl
          · exact h.outcome
    · exact h.outcome

/-- A command that reads leaves everything as it is, and its reply is what its handler returns. -/
theorem dispatch_read {d : CommandDef} (hd : d ∈ commands)
    {f : Env → Databases → ℕ → List Bytes → Reply} (hread : d.handler = .read f) (env : Env) (n : ℕ)
    (args : List Bytes) (w : Whole) :
    (dispatchDepth env n d.name args w).2 = w ∧
    ∀ w' : Whole, w.store.tables.deniesMemory d.name = w'.store.tables.deniesMemory d.name →
      f env w.store.databases w.ctx.dbIndex args = f env w'.store.databases w'.ctx.dbIndex args →
      (dispatchDepth env n d.name args w).1 = (dispatchDepth env n d.name args w').1 := by
  cases n with
  | zero => exact ⟨rfl, fun _ _ _ => rfl⟩
  | succ n =>
    rw [dispatchDepth, dispatchWith, findCommand_of_mem hd]
    constructor
    · dsimp only
      split_ifs
      · rfl
      · rfl
      · rw [catchError_snd, hread]
        rfl
    · intro w' hgate hreply
      rw [dispatchWith, findCommand_of_mem hd, hgate]
      dsimp only
      split_ifs
      · rfl
      · rfl
      · rw [catchError_fst, catchError_fst, hread, Handler.run]
        dsimp only
        rw [hreply]

/-- A queued command that reads, whatever the order of the maps is. -/
theorem observes_read {d : CommandDef} (hd : d ∈ commands)
    {f : Env → Databases → ℕ → List Bytes → Reply} (hread : d.handler = .read f) (m : Moment)
    {args : List Bytes} (hf : ∀ (s s' : Store) i, s.Reordered s' →
      f (m.on H) s.databases i args = f (m.on H) s'.databases i args) :
    Observes H c (.run m (asBytes d.name :: args)) := by
  have hrun := fun s : ExecRace => dispatch_read hd hread (m.on H) m.nesting args
    ⟨s.clients.store, s.clients.ctx c⟩
  constructor
  · intro s
    rw [step]
    split
    · rw [dispatchQueued, upper_name hd, (hrun s).1]
      change (⟨s.clients.store, Function.update s.clients.ctx c (s.clients.ctx c)⟩ : Clients) = _
      rw [Function.update_eq_self]
    · rfl
  · intro s s' h
    have hreads : f (m.on H) s.clients.store.databases (s.clients.ctx c).dbIndex args
        = f (m.on H) s'.clients.store.databases (s'.clients.ctx c).dbIndex args := by
      rw [h.ctx]
      exact hf _ _ _ h.store
    have hreply := (hrun s).2 ⟨s'.clients.store, s'.clients.ctx c⟩
      (h.store.tables.deniesMemory_eq d.name) hreads
    rw [step, step, h.outcome]
    split
    · rw [dispatchQueued, dispatchQueued, upper_name hd]
      dsimp only
      rw [hreply]
    · exact h.outcome

/-! ### Turns that leave a key alone -/

/-- Whatever the server is like, the turn leaves what is at the key. -/
def LeavesKey (H : Host) (k : Bytes) (t : Turn) : Prop :=
  ∀ cl : Clients, SameAt k cl.store (cl.step H t).store

/-- A turn leaves alone what a command that writes to other keys leaves alone. -/
theorem leavesKey_command {d : CommandDef} (hd : d ∈ commands)
    {f : Env → ℕ → List Bytes → KeyM RespValue} (hwrite : d.handler = .write f) {keys : List Bytes}
    {args : List Bytes} (hf : ∀ env i, Moves (SameOff i keys) (f env i args)) {k : Bytes}
    (hk : k ∉ keys) (j : ℕ) (m : Moment) (L : Listener) :
    LeavesKey H k ⟨j, m, .command L (asBytes d.name) args⟩ := by
  intro cl
  have hdispatch : Moves (WholeSameAt k)
      (dispatch (m.on H) (upper (m.on H) (asBytes d.name)) args) := by
    intro w
    rw [upper_name hd]
    rcases dispatch_snd hd (m.on H) args w with hw | hw
    · rw [hw]
      exact refl_of (WholeSameAt k) w
    · rw [hw, hwrite]
      have hmoves := hf (m.on H) w.ctx.dbIndex { databases := w.store.databases }
      exact ⟨hmoves.length.symm, fun i => (hmoves.find i k (Or.inr hk)).symm⟩
  have hserve : Moves (WholeSameAt k) (serve L (m.on H) (asBytes d.name) args) :=
    moves_serve (serves_of_watched fun _ _ _ _ => ⟨rfl, fun _ => rfl⟩) hdispatch
  have haction : ∀ w : Whole, (Action.command L (asBytes d.name) args).run (m.on H) w
      = (serve L (m.on H) (asBytes d.name) args w).2 := fun w => rfl
  rw [Clients.step, haction]
  dsimp only
  exact hserve ⟨cl.store, cl.ctx j⟩

theorem sameAt_turn {k : Bytes} (ht : LeavesKey H k t) (s : ExecRace) :
    SameAt k s.clients.store (s.step H c (.turn t)).clients.store ∧
      s.clients.ctx c = (s.step H c (.turn t)).clients.ctx c := by
  rw [(step_turn H c s t).2]
  split_ifs with hclient
  · exact ⟨⟨rfl, fun _ => rfl⟩, rfl⟩
  · exact ⟨ht s.clients, (Function.update_of_ne (Ne.symm hclient) _ _).symm⟩

/-- **The check of a watched key** changes places with a turn that leaves the key alone. -/
theorem swaps_check {k : Bytes} (ht : LeavesKey H k t) (m : Moment) (version : Option ℕ) :
    Swaps (Step H c) (.check m k version) (.turn t) ∧
      Swaps (Step H c) (.turn t) (.check m k version) := by
  refine (observes_check m k version).swaps fun s => ?_
  obtain ⟨hstore, hctx⟩ := sameAt_turn (c := c) ht s
  have hversion : ∀ i, Cmd.versionOf m.now s.clients.store.databases i k
      = Cmd.versionOf m.now (s.step H c (.turn t)).clients.store.databases i k := by
    intro i
    rw [Cmd.versionOf, Cmd.versionOf, Databases.getVersion, Databases.getVersion, hstore.entry_eq]
  have hout := (step_turn H c s t).1
  generalize s.step H c (.turn t) = s' at hctx hversion hout
  rw [step, step, hout, check, check, hversion, hctx]
  split
  · split
    · rfl
    · split
      · rfl
      · split_ifs
        · rfl
        · exact hout
  · exact hout

theorem getDef_mem : (⟨"GET", 2, .read Cmd.get⟩ : CommandDef) ∈ commands := by
  simp [commands, Cmd.stringCommands]

theorem get_congr (env : Env) {dbs dbs' : Databases} {i : ℕ} {k : Bytes}
    (h : dbs.get env.now i k = dbs'.get env.now i k) :
    Cmd.get env dbs i [k] = Cmd.get env dbs' i [k] := by
  change (ofResult (dbs.get env.now i k) >>= fun v => pure (bulkOrNil v))
    = ofResult (dbs'.get env.now i k) >>= fun v => pure (bulkOrNil v)
  rw [h]

theorem observes_get (m : Moment) (k : Bytes) : Observes H c (.run m [asBytes "GET", k]) :=
  observes_read getDef_mem rfl m fun _ _ i h => get_congr (m.on H) (h.get_eq _ i k)

/-- **A queued `GET`** changes places with a turn that leaves the key alone. -/
theorem swaps_get {k : Bytes} (ht : LeavesKey H k t) (m : Moment) :
    Swaps (Step H c) (.run m [asBytes "GET", k]) (.turn t) ∧
      Swaps (Step H c) (.turn t) (.run m [asBytes "GET", k]) := by
  refine (observes_get m k).swaps fun s => ?_
  obtain ⟨hstore, hctx⟩ := sameAt_turn (c := c) ht s
  have hout := (step_turn H c s t).1
  generalize s.step H c (.turn t) = s' at hstore hctx hout
  have hget : ∀ i, s'.clients.store.databases.get m.now i k
      = s.clients.store.databases.get m.now i k := by
    intro i
    rw [Databases.get, Databases.get, hstore.entry_eq]
  have hgate : ∀ t : Tables, t.deniesMemory "GET" = false :=
    fun t => t.deniesMemory_of_allowed (by decide)
  have hreply := (dispatch_read getDef_mem rfl (m.on H) m.nesting [k]
    ⟨s'.clients.store, s'.clients.ctx c⟩).2 ⟨s.clients.store, s.clients.ctx c⟩
    ((hgate _).trans (hgate _).symm) (by rw [← hctx]; exact get_congr (m.on H) (hget _))
  rw [step, step, hout]
  split
  · have hname : upper (m.on H) (asBytes "GET") = "GET" := upper_name getDef_mem (m.on H)
    rw [dispatchQueued, dispatchQueued, hname]
    dsimp only at hreply ⊢
    rw [hreply]
  · exact hout

/-- `SET` leaves the other keys alone. -/
theorem sameOff_set (env : Env) (i : ℕ) (k v : Bytes) (flags : List Bytes) :
    Moves (SameOff i [k]) (Cmd.set env i (k :: v :: flags)) := by
  have hset : ∀ at_, Moves (SameOff i [k])
      (Keyspace.set i k v at_ >>= fun _ => pure RespValue.ok) :=
    fun at_ => (Keyspace.moves_set List.mem_cons_self v at_).bind fun _ => moves_pure _
  rw [Cmd.set, argsFrom_cons_succ, argsFrom_cons_succ, argsFrom_zero, lift_ok_bind, arg_cons_zero,
    lift_ok_bind, arg_cons_succ, arg_cons_zero, lift_ok_bind]
  split_ifs
  · refine (Keyspace.moves_read _).bind fun found => ?_
    split_ifs
    · exact moves_pure _
    · exact hset _
  · exact hset _

theorem leavesKey_set {k k' : Bytes} (hk : k ≠ k') (v : Bytes) (flags : List Bytes) (j : ℕ)
    (m : Moment) (L : Listener) :
    LeavesKey H k ⟨j, m, .command L (asBytes "SET") (k' :: v :: flags)⟩ :=
  leavesKey_command setDef_mem rfl (fun env i => sameOff_set env i k' v flags)
    (fun hmem => hk (List.mem_singleton.mp hmem)) j m L

/-! ### Two reads of one key -/

/-- A moment at which a command can run another one. -/
def execMoment : Moment := ⟨7, 0, 0, 1⟩

/-- A connection has queued two reads of a key, and watches some keys that nobody has set. -/
def readsQueued (watched : List Bytes) : Clients where
  store := Store.new 1
  ctx := Function.update (fun _ => {}) 0
    { multiMode := true, watchedKeys := watched, watchedVersions := watched.map fun _ => 0,
      multiQueue := [[asBytes "GET", asBytes "a"], [asBytes "GET", asBytes "a"]] }

/-- The key is read, and another connection sets a key. -/
def readThenSet (k : String) : List ExecEvent :=
  [.run execMoment [asBytes "GET", asBytes "a"],
    .turn ⟨1, execMoment, .command (.plain none false) (asBytes "SET") [asBytes k, asBytes "x"]⟩]

/-- The key is read again. -/
def readAgain : List ExecEvent := [.run execMoment [asBytes "GET", asBytes "a"]]

/-- Another key is set in between. -/
theorem exec_one_block_reads :
    ∃ fs, SerialOrder ((.check execMoment (asBytes "a") (some 0) :: readThenSet "b") ++ readAgain)
        fs ∧
      Runs Host.plain 0 (start 0 (readsQueued [asBytes "a"])) fs
        (((.check execMoment (asBytes "a") (some 0) :: readThenSet "b") ++ readAgain).foldl
          (step Host.plain 0) (start 0 (readsQueued [asBytes "a"]))) := by
  have hleaves : LeavesKey Host.plain (asBytes "a") ⟨1, execMoment, .command (.plain none false)
      (asBytes "SET") [asBytes "b", asBytes "x"]⟩ :=
    leavesKey_set (by decide) (asBytes "x") [] 1 execMoment (.plain none false)
  have hsep : Separable Host.plain 0
      (.check execMoment (asBytes "a") (some 0) :: readThenSet "b") readAgain := by
    constructor
    · simp only [readThenSet, List.pairwise_cons, List.mem_cons, List.not_mem_nil, or_false,
        forall_eq_or_imp, forall_eq, List.Pairwise.nil, and_true]
      refine ⟨⟨fun _ hf => (hf trivial).elim, fun _ _ => (swaps_check hleaves _ _).1⟩,
        fun _ _ => (swaps_get hleaves _).1, ?_⟩
      simp
    · exact List.pairwise_singleton _ _
  exact exec_one_block hsep (Steps.foldl Reordered.refl _ _ _)

/-- What comes of one more queued command. -/
def replied (l : List RespValue) : Except Failure RespValue → ExecOutcome
  | .ok resp => .replies (l ++ [resp])
  | .error e => .ended (.error e)

/-- A queued `GET` replies the same whatever the order of the maps is. -/
theorem exists_reply_get (s : ExecRace) (m : Moment) (k : Bytes) : ∃ r, ∀ (s' : ExecRace) l,
    s.clients.store.Reordered s'.clients.store → s.clients.ctx = s'.clients.ctx →
    s'.outcome = .replies l → (s'.step H c (.run m [asBytes "GET", k])).outcome = replied l r := by
  refine ⟨(dispatchDepth (m.on H) m.nesting "GET" [k] ⟨s.clients.store, s.clients.ctx c⟩).1,
    fun s' l hstore hctx hout => ?_⟩
  have hname : upper (m.on H) (asBytes "GET") = "GET" := upper_name getDef_mem (m.on H)
  have hreply := (dispatch_read getDef_mem rfl (m.on H) m.nesting [k]
    ⟨s.clients.store, s.clients.ctx c⟩).2 ⟨s'.clients.store, s'.clients.ctx c⟩
    (hstore.tables.deniesMemory_eq "GET")
    (by rw [hctx]; exact get_congr (m.on H) (hstore.get_eq _ _ k))
  have hstep : (s'.step H c (.run m [asBytes "GET", k])).outcome = replied l
      (dispatchDepth (m.on H) m.nesting "GET" [k] ⟨s'.clients.store, s'.clients.ctx c⟩).1 := by
    rw [step, hout]
    dsimp only
    rw [dispatchQueued, hname]
    rfl
  rw [hstep]
  exact congrArg (replied l) hreply.symm

theorem outcome_turns {s t : ExecRace} {es : List ExecEvent} (h : Runs H c s es t)
    (hes : ∀ e ∈ es, ¬e.OfExec) : t.outcome = s.outcome := by
  refine Steps.invariant (I := fun x => x.outcome = s.outcome) h ?_ rfl
  rintro e he x y ⟨x₁, hx, hy⟩ hout
  cases e with
  | turn t => rw [← hy.outcome, (step_turn H c x₁ t).1, ← hx.outcome, hout]
  | check m key version => exact (hes _ he trivial).elim
  | run m args => exact (hes _ he trivial).elim

/-- Two reads with nothing in between reply the same. -/
theorem equal_replies {s t : ExecRace} {m : Moment} {k : Bytes} {before after : List ExecEvent}
    (h : Runs H c s (before ++ [.run m [asBytes "GET", k], .run m [asBytes "GET", k]] ++ after) t)
    (hbefore : ∀ e ∈ before, ¬e.OfExec) (hafter : ∀ e ∈ after, ¬e.OfExec)
    (hs : s.outcome = .replies []) {a b : RespValue} (ht : t.outcome = .replies [a, b]) :
    a = b := by
  obtain ⟨w, hblock, hlast⟩ := Steps.append_iff.mp h
  obtain ⟨u, hfirst, hreads⟩ := Steps.append_iff.mp hblock
  obtain ⟨v, ⟨u₁, hu, hv⟩, hread⟩ := Steps.cons_iff.mp hreads
  obtain ⟨w', ⟨v₁, hv', hw⟩, hnil⟩ := Steps.cons_iff.mp hread
  obtain rfl := Steps.nil_iff.mp hnil
  have hout : u₁.outcome = .replies [] := by
    rw [← hu.outcome, outcome_turns hfirst hbefore, hs]
  have hmid := hv.trans hv'
  have hclients := (observes_get (H := H) (c := c) m k).clients u₁
  have hstore := hmid.store
  have hctx := hmid.ctx
  rw [hclients] at hstore hctx
  obtain ⟨r, hr⟩ := exists_reply_get (H := H) (c := c) u m k
  have hone : v₁.outcome = replied [] r := by
    rw [← hmid.outcome, hr u₁ [] hu.store hu.ctx hout]
  have hend : (v₁.step H c (.run m [asBytes "GET", k])).outcome = .replies [a, b] := by
    rw [hw.outcome, ← outcome_turns hlast hafter, ht]
  cases r with
  | error e =>
    rw [step, hone] at hend
    cases hone.symm.trans hend
  | ok resp =>
    rw [hr v₁ [resp] (hu.store.trans hstore) (hu.ctx.trans hctx) hone] at hend
    cases hend
    rfl

/-- The key itself is set in between. -/
theorem exec_not_one_block :
    ¬∃ fs, SerialOrder (readThenSet "a" ++ readAgain) fs ∧
      Runs Host.plain 0 (start 0 (readsQueued [])) fs
        ((readThenSet "a" ++ readAgain).foldl (step Host.plain 0) (start 0 (readsQueued []))) := by
  rintro ⟨_, ⟨before, after, rfl, hperm⟩, hrun⟩
  have hturns : ∀ e ∈ before ++ after, ¬e.OfExec := by
    intro e he
    exact of_decide_eq_true (List.mem_filter.mp (hperm.mem_iff.mp he)).2
  have hblock : (readThenSet "a" ++ readAgain).filter (fun e => e.OfExec)
      = [.run execMoment [asBytes "GET", asBytes "a"],
        .run execMoment [asBytes "GET", asBytes "a"]] := rfl
  rw [hblock] at hrun
  have hreplies : ((readThenSet "a" ++ readAgain).foldl (step Host.plain 0)
      (start 0 (readsQueued []))).outcome = .replies [.nil, .bulk (asBytes "x")] := by
    rfl
  have hequal := equal_replies hrun (fun e he => hturns e (List.mem_append_left _ he))
    (fun e he => hturns e (List.mem_append_right _ he)) rfl hreplies
  cases hequal

end ExecRace

end VeloDB
