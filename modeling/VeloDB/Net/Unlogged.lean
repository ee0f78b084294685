import VeloDB.Cmd.GroupLife
import VeloDB.Cmd.Local
import VeloDB.Cmd.Pending
import VeloDB.Cmd.Purged
import VeloDB.Net.Connection

/-!
# The commands that are not logged

A command that `is_write_command` does not name goes neither to the append-only file nor to the
backlog. Most of them cannot change the databases at all, and `INFO` and `DBSIZE` remove nothing
but expired entries. The blocking pops and `XGROUP CREATE` with `MKSTREAM` do change live data.

## Main definitions

* `SameVisible` — the same live keys, values and expiries
* `ChangesData` — the command finds something to pop, or a stream to make

## Main results

* `sameVisible_popFirst`, `sameVisible_unblockPop` — the loops of the blocking pops
* `unlogged_keeps_data` — what is not logged changes no live data, unless it `ChangesData`
-/

namespace VeloDB

open Rust Proc

/-! ### The same live data -/

namespace SameVisible

variable {now : UInt64} {dbs dbs' dbs'' : Databases}

instance : Std.Refl (SameVisible now) := ⟨fun _ => ⟨rfl, fun _ _ => rfl⟩⟩

instance : IsTrans Databases (SameVisible now) :=
  ⟨fun _ _ _ h h' => ⟨h.length.trans h'.length, fun i k => (h.live i k).trans (h'.live i k)⟩⟩

theorem symm (h : SameVisible now dbs dbs') : SameVisible now dbs' dbs :=
  ⟨h.length.symm, fun i k => (h.live i k).symm⟩

/-- The live value of a key. -/
theorem liveValue (h : SameVisible now dbs dbs') (i : ℕ) (k : Bytes) :
    (dbs.liveEntry now i k).map Entry.value = (dbs'.liveEntry now i k).map Entry.value := by
  have hlive := congrArg (Option.map Prod.fst) (h.live i k)
  rwa [Option.map_map, Option.map_map] at hlive

/-- Storing a live value once more. -/
theorem put_self {i : ℕ} {k : Bytes} {e e' : Entry} (he : dbs.liveEntry now i k = some e)
    (hvalue : e'.value = e.value) (hexpire : e'.expireAt = e.expireAt) :
    SameVisible now dbs (dbs.put i k e') where
  length := Databases.length_put.symm
  live := by
    intro j k'
    by_cases hne : j ≠ i ∨ k' ≠ k
    · rw [liveEntry_put_of_ne hne]
    · obtain ⟨rfl, rfl⟩ := not_or.mp hne |>.imp not_ne_iff.mp not_ne_iff.mp
      have hexpired : e'.expired now = false := by
        have hlive := (Option.filter_eq_some_iff.mp he).2
        rw [Entry.expired, hexpire, ← Entry.expired]
        simpa using hlive
      rw [liveEntry_put_self (Databases.lt_of_liveEntry he), Option.filter_some, hexpired, he]
      simp [hvalue, hexpire]

end SameVisible

/-- The same live data, of the databases during a command. -/
def ShowsSame (now : UInt64) (s s' : Keyspace) : Prop := SameVisible now s.databases s'.databases

namespace ShowsSame

variable {now : UInt64}

instance : Std.Refl (ShowsSame now) := ⟨fun s => refl_of (SameVisible now) s.databases⟩

instance : IsTrans Keyspace (ShowsSame now) :=
  ⟨fun _ _ _ h h' => trans_of (SameVisible now) h h'⟩

theorem moves_dbsize (i : ℕ) : Moves (ShowsSame now) (Keyspace.dbsize now i) := by
  rintro ⟨dbs, notified⟩
  by_cases hi : i < dbs.length
  · obtain ⟨hok, hsame⟩ := sameVisible_each_remove i (s := ⟨dbs, notified⟩)
      fun p hp => liveEntry_of_expired hi hp
    rw [Keyspace.dbsize, Proc.bind_ok (Keyspace.read_db hi notified),
      Proc.bind_ok (Prod.ext hok rfl)]
    exact hsame.symm
  · obtain ⟨e, he⟩ := Keyspace.read_db_error (Nat.le_of_not_lt hi) notified
    rw [Keyspace.dbsize, Proc.bind_error he]
    exact refl_of (ShowsSame now) _

end ShowsSame

/-! ### Popping -/

/-- The call of the store that pops. -/
def PopDirection.pop : PopDirection → UInt64 → ℕ → Bytes → KeyM (Option Bytes)
  | .left => Keyspace.lpopOne
  | .right => Keyspace.rpopOne

/-- What is popped off a list, and what remains. -/
def PopDirection.split : PopDirection → List Bytes → Option Bytes × List Bytes
  | .left, l => (l.head?, l.tail)
  | .right, l => (l.getLast?, l.dropLast)

theorem PopDirection.pop_eq (d : PopDirection) (now : UInt64) (i : ℕ) (k : Bytes) :
    d.pop now i k = Keyspace.updateAs .list now i k (.ok none)
      fun l => (.ok (d.split l).1, (d.split l).2) := by
  cases d <;> rfl

theorem PopDirection.split_cons (d : PopDirection) (a : Bytes) (l : List Bytes) :
    ∃ v, (d.split (a :: l)).1 = some v ∧ (d.split (a :: l)).2.length = l.length := by
  cases d with
  | left => exact ⟨a, rfl, rfl⟩
  | right => exact ⟨_, List.getLast?_eq_getLast_of_ne_nil (List.cons_ne_nil a l), by simp [split]⟩

theorem PopDirection.split_nil (d : PopDirection) : d.split [] = (none, []) := by
  cases d <;> rfl

/-- The key holds a live list with an element. -/
def HasElement (now : UInt64) (dbs : Databases) (i : ℕ) (k : Bytes) : Prop :=
  ∃ v a l, (dbs.liveEntry now i k).map Entry.value = some v ∧ Kind.list.unwrap v = some (a :: l)

/-- Some key holds a live list with an element, and no key before it is of another type. -/
def firstHas (now : UInt64) (dbs : Databases) (i : ℕ) : List Bytes → Bool
  | [] => false
  | k :: keys =>
    match (dbs.liveEntry now i k).map Entry.value with
    | none => firstHas now dbs i keys
    | some v =>
      match Kind.list.unwrap v with
      | none => false
      | some l => !l.isEmpty || firstHas now dbs i keys

section Pops

variable {now : UInt64} {i : ℕ} {k : Bytes}

theorem SameVisible.hasElement {dbs dbs' : Databases} (h : SameVisible now dbs dbs') :
    HasElement now dbs i k ↔ HasElement now dbs' i k := by
  rw [HasElement, HasElement, h.liveValue i k]

theorem SameVisible.firstHas {dbs dbs' : Databases} (h : SameVisible now dbs dbs')
    (keys : List Bytes) : firstHas now dbs i keys = VeloDB.firstHas now dbs' i keys := by
  induction keys with
  | nil => rfl
  | cons k keys ih => simp only [VeloDB.firstHas, h.liveValue i k, ih]

theorem firstHas_of_le {dbs : Databases} (hi : dbs.length ≤ i) (keys : List Bytes) :
    firstHas now dbs i keys = false := by
  induction keys with
  | nil => rfl
  | cons k keys ih =>
    simp only [firstHas, Databases.liveEntry_eq_none_of_le hi, Option.map_none, ih]

/-- A pop of a live list. -/
theorem pop_run (d : PopDirection) {dbs : Databases} {e : Entry} {l : List Bytes}
    (he : dbs.liveEntry now i k = some e) (hl : Kind.list.unwrap e.value = some l)
    (notified : List Bytes) : d.pop now i k ⟨dbs, notified⟩ = (.ok (d.split l).1,
      ⟨dbs.put i k { e with value := .list (d.split l).2 }, notified⟩) := by
  rw [d.pop_eq, Keyspace.updateAs,
    Proc.bind_ok (Keyspace.read_entry (Databases.lt_of_liveEntry he) now k notified), he]
  dsimp only
  rw [Keyspace.changeAs, hl]
  rfl

/-- Where there is no live list, a pop changes nothing. -/
theorem pop_same (d : PopDirection) {dbs : Databases} (hi : i < dbs.length)
    (h : ∀ e l, dbs.liveEntry now i k = some e → Kind.list.unwrap e.value ≠ some l)
    (notified : List Bytes) : d.pop now i k ⟨dbs, notified⟩
      = (match dbs.liveEntry now i k with
        | none => .ok none
        | some _ => .error (.error .wrongType), ⟨dbs, notified⟩) := by
  rw [d.pop_eq, Keyspace.updateAs, Proc.bind_ok (Keyspace.read_entry hi now k notified)]
  cases he : dbs.liveEntry now i k with
  | none => rfl
  | some e =>
    dsimp only
    rw [Keyspace.changeAs]
    cases hl : Kind.list.unwrap e.value with
    | none => rfl
    | some l => exact absurd hl (h e l he)

theorem hasElement_iff {dbs : Databases} {e : Entry} (he : dbs.liveEntry now i k = some e) :
    HasElement now dbs i k ↔ ∃ a l, Kind.list.unwrap e.value = some (a :: l) := by
  constructor
  · rintro ⟨v, a, l, hv, hl⟩
    rw [he] at hv
    obtain rfl := Option.some.inj hv
    exact ⟨a, l, hl⟩
  · rintro ⟨a, l, hl⟩
    exact ⟨e.value, a, l, by rw [he]; rfl, hl⟩

theorem not_hasElement {dbs : Databases} (he : dbs.liveEntry now i k = none) :
    ¬HasElement now dbs i k := by
  rintro ⟨v, a, l, hv, -⟩
  rw [he] at hv
  cases hv

/-- A list that has lost an element shows. -/
theorem not_sameVisible_put {dbs : Databases} {e : Entry} (he : dbs.liveEntry now i k = some e)
    {l l' : List Bytes} (hl : Kind.list.unwrap e.value = some l) (hlen : l'.length < l.length) :
    ¬SameVisible now dbs (dbs.put i k { e with value := .list l' }) := by
  intro hsame
  have hlive := hsame.liveValue i k
  have hexpired : e.expired now = false := by simpa using (Option.filter_eq_some_iff.mp he).2
  have hexpired' : ({ e with value := .list l' } : Entry).expired now = false := hexpired
  rw [liveEntry_put_self (Databases.lt_of_liveEntry he), Option.filter_some, hexpired', he] at hlive
  have hvalue : e.value = .list l' := Option.some.inj hlive
  rw [hvalue] at hl
  obtain rfl := Option.some.inj hl
  exact lt_irrefl _ hlen

/-- **What a pop does**: it fails, passes over the key, or takes an element. -/
theorem pop_cases (d : PopDirection) (now : UInt64) (i : ℕ) (k : Bytes) (s : Keyspace) :
    (∃ e, d.pop now i k s = (.error e, s) ∧ ¬HasElement now s.databases i k ∧
      ∀ keys, firstHas now s.databases i (k :: keys) = false) ∨
    (∃ s', d.pop now i k s = (.ok none, s') ∧ ¬HasElement now s.databases i k ∧
      ShowsSame now s s' ∧
      ∀ keys, firstHas now s.databases i (k :: keys) = firstHas now s.databases i keys) ∨
    (∃ v s', d.pop now i k s = (.ok (some v), s') ∧ HasElement now s.databases i k ∧
      ¬ShowsSame now s s' ∧ ∀ keys, firstHas now s.databases i (k :: keys) = true) := by
  obtain ⟨dbs, notified⟩ := s
  by_cases hi : i < dbs.length
  · cases he : dbs.liveEntry now i k with
    | none =>
      have hpop := pop_same d hi (fun e l h => by rw [he] at h; cases h) notified
      rw [he] at hpop
      refine Or.inr (Or.inl ⟨_, hpop, not_hasElement he, refl_of (ShowsSame now) _, fun keys => ?_⟩)
      simp only [firstHas, he, Option.map_none]
    | some e =>
      cases hl : Kind.list.unwrap e.value with
      | none =>
        have hpop := pop_same d hi (fun e' l h => by
          obtain rfl := Option.some.inj (he.symm.trans h)
          rw [hl]
          rintro ⟨⟩) notified
        rw [he] at hpop
        refine Or.inl ⟨_, hpop, fun h => ?_, fun keys => ?_⟩
        · obtain ⟨a, l, hl'⟩ := (hasElement_iff he).mp h
          cases hl.symm.trans hl'
        · simp only [firstHas, he, Option.map_some, hl]
      | some l =>
        have hpop := pop_run d he hl notified
        cases l with
        | nil =>
          rw [d.split_nil] at hpop
          refine Or.inr (Or.inl ⟨_, hpop, fun h => ?_, ?_, fun keys => ?_⟩)
          · obtain ⟨a, l, hl'⟩ := (hasElement_iff he).mp h
            cases hl.symm.trans hl'
          · refine SameVisible.put_self he ?_ rfl
            revert hl
            cases e.value with
            | list l => exact fun hl => congrArg StorageValue.list (Option.some.inj hl).symm
            | string | set | hash | zset | stream | nestedHash => exact fun hl => by cases hl
          · simp [firstHas, he, hl]
        | cons a l =>
          obtain ⟨v, hv, hlength⟩ := d.split_cons a l
          rw [hv] at hpop
          refine Or.inr (Or.inr ⟨v, _, hpop, (hasElement_iff he).mpr ⟨a, l, hl⟩,
            not_sameVisible_put he hl ?_, fun keys => ?_⟩)
          · rw [hlength, List.length_cons]
            exact Nat.lt_succ_self _
          · simp [firstHas, he, hl]
  · have hi := Nat.le_of_not_lt hi
    obtain ⟨e, he⟩ := Keyspace.read_entry_error hi now k notified
    have hpop : d.pop now i k ⟨dbs, notified⟩ = (.error (.error e), ⟨dbs, notified⟩) := by
      rw [d.pop_eq, Keyspace.updateAs, Proc.bind_error he]
    exact Or.inl ⟨_, hpop, not_hasElement (Databases.liveEntry_eq_none_of_le hi k),
      fun keys => firstHas_of_le hi (k :: keys)⟩

/-- **The loop of a blocking pop** keeps the live data, unless it finds an element. -/
theorem showsSame_popFirst (d : PopDirection) (now : UInt64) (i : ℕ) (keys : List Bytes)
    (s : Keyspace) : ShowsSame now s (Cmd.popFirst (d.pop now i) keys s).2 ↔
      firstHas now s.databases i keys = false := by
  induction keys generalizing s with
  | nil => exact iff_of_true (refl_of (ShowsSame now) s) rfl
  | cons k keys ih =>
    rw [Cmd.popFirst]
    rcases pop_cases d now i k s with ⟨e, hpop, -, hfirst⟩ | ⟨s', hpop, -, hsame, hfirst⟩ |
      ⟨v, s', hpop, -, hchanged, hfirst⟩
    · rw [Proc.bind_error hpop, hfirst]
      exact iff_of_true (refl_of (ShowsSame now) s) rfl
    · rw [Proc.bind_ok hpop, hfirst, hsame.firstHas, ← ih s']
      exact ⟨fun h => trans_of (SameVisible now) hsame.symm h, fun h => trans_of _ hsame h⟩
    · rw [Proc.bind_ok hpop, hfirst]
      exact iff_of_false hchanged Bool.noConfusion

theorem unblockPop_some {pop : Bytes → KeyM (Option Bytes)} {s s' : Keyspace} {v : Bytes}
    (h : pop k s = (.ok (some v), s')) (keys : List Bytes) :
    unblockPop pop (k :: keys) s = (.ok (bulks [k, v]), s') := by
  simp only [unblockPop, h]

theorem unblockPop_passed {pop : Bytes → KeyM (Option Bytes)} {s s' : Keyspace}
    {r : Except Failure (Option Bytes)} (h : pop k s = (r, s')) (hr : ∀ v, r ≠ .ok (some v))
    (keys : List Bytes) : unblockPop pop (k :: keys) s = unblockPop pop keys s' := by
  simp only [unblockPop, h]

/-- **The loop of `unblock_pop`** keeps the live data, unless some key has an element. -/
theorem showsSame_unblockPop (d : PopDirection) (now : UInt64) (i : ℕ) (keys : List Bytes)
    (s : Keyspace) : ShowsSame now s (unblockPop (d.pop now i) keys s).2 ↔
      ∀ k ∈ keys, ¬HasElement now s.databases i k := by
  induction keys generalizing s with
  | nil => exact iff_of_true (refl_of (ShowsSame now) s) fun k hk => absurd hk List.not_mem_nil
  | cons k keys ih =>
    rw [List.forall_mem_cons]
    rcases pop_cases d now i k s with ⟨e, hpop, hnot, -⟩ | ⟨s', hpop, hnot, hsame, -⟩ |
      ⟨v, s', hpop, hhas, hchanged, -⟩
    · rw [unblockPop_passed hpop (by rintro v ⟨⟩), ih s]
      exact (and_iff_right hnot).symm
    · have hkeys : (∀ k' ∈ keys, ¬HasElement now s.databases i k')
          ↔ ∀ k' ∈ keys, ¬HasElement now s'.databases i k' :=
        forall₂_congr fun k' _ => not_congr hsame.hasElement
      rw [unblockPop_passed hpop (by rintro v ⟨⟩), hkeys, ← ih s', and_iff_right hnot]
      exact ⟨fun h => trans_of (SameVisible now) hsame.symm h, fun h => trans_of _ hsame h⟩
    · rw [unblockPop_some hpop]
      exact iff_of_false hchanged fun h => h.1 hhas

end Pops

/-! ### Commands -/

/-- The command finds something to pop, or a stream to make. -/
def ChangesData (env : Env) (name : String) (args : List Bytes) (w : Whole) : Prop :=
  (name = "BLPOP" ∨ name = "BRPOP") ∧
      firstHas env.now w.store.databases w.ctx.dbIndex args.dropLast = true ∨
    name = "XGROUP" ∧ w.ctx.dbIndex < w.store.databases.length ∧
      ∃ k group startId, Cmd.xgroupCall env args = some (k, group, .create startId true) ∧
        w.store.databases.liveEntry env.now w.ctx.dbIndex k = none

/-- Making a group keeps the live data, unless it makes a stream. -/
theorem sameVisible_groupCall (now : UInt64) (i : ℕ) (k : Bytes) (group : String) (s : Store)
    (c : GroupCall) : SameVisible now s.databases (c.run now i k group s).databases ↔
      ¬(i < s.databases.length ∧ (∃ startId, c = .create startId true) ∧
        s.databases.liveEntry now i k = none) := by
  constructor
  · rintro hsame ⟨hi, ⟨startId, rfl⟩, hnone⟩
    have hlive := hsame.live i k
    rw [GroupCall.databases_made hi hnone, hnone, liveEntry_put_self hi] at hlive
    cases hlive
  · intro hnot
    rw [GroupCall.databases_kept hnot]
    exact refl_of (SameVisible now) _

/-- The handler cannot change the databases. -/
def Handler.sparesDatabases : Handler → Bool
  | .read _ | .side _ => true
  | .write _ | .whole _ | .exec | .eval | .evalsha => false

theorem sparesDatabases_run {h : Handler} (hh : h.sparesDatabases = true) (dispatch : Dispatch)
    (env : Env) (args : List Bytes) (w : Whole) :
    (h.run dispatch env args w).2.store.databases = w.store.databases := by
  cases h with
  | read | side => rfl
  | write | whole | exec | eval | evalsha => cases hh

/-- The commands that are not logged and could change the databases. -/
def mayChangeNames : List String := ["INFO", "DBSIZE", "BLPOP", "BRPOP", "XGROUP"]

theorem sparesDatabases_or {c : CommandDef} (hc : c ∈ commands) (hw : isWriteCommand c.name = false)
    (hcompound : c.name ∉ compoundNames) :
    c.handler.sparesDatabases = true ∧ c.name ∉ mayChangeNames ∨ c.name ∈ mayChangeNames := by
  have hall : (commands.all fun c => isWriteCommand c.name || decide (c.name ∈ compoundNames) ||
    (c.handler.sparesDatabases && decide (c.name ∉ mayChangeNames)) ||
      decide (c.name ∈ mayChangeNames)) = true := by decide +kernel
  have h := List.all_eq_true.mp hall c hc
  simpa [hw, hcompound] using h

/-- What holds of the five definitions that could change the databases. -/
theorem of_mayChange {P : CommandDef → Prop}
    (hinfo : ⟨"INFO", -1, .write Cmd.info⟩ ∈ commands → P ⟨"INFO", -1, .write Cmd.info⟩)
    (hdbsize : ⟨"DBSIZE", 1, .write Cmd.dbsizeCmd⟩ ∈ commands →
      P ⟨"DBSIZE", 1, .write Cmd.dbsizeCmd⟩)
    (hblpop : ⟨"BLPOP", -3, .whole Cmd.blpop⟩ ∈ commands → P ⟨"BLPOP", -3, .whole Cmd.blpop⟩)
    (hbrpop : ⟨"BRPOP", -3, .whole Cmd.brpop⟩ ∈ commands → P ⟨"BRPOP", -3, .whole Cmd.brpop⟩)
    (hxgroup : ⟨"XGROUP", -2, .whole Cmd.xgroup⟩ ∈ commands → P ⟨"XGROUP", -2, .whole Cmd.xgroup⟩)
    {c : CommandDef} (hc : c ∈ commands) (hname : c.name ∈ mayChangeNames) : P c := by
  refine of_definitions ?_ hc hname
  have hinfo' : (⟨"INFO", -1, .write Cmd.info⟩ : CommandDef) ∈ commands := by
    simp [commands, Cmd.serverCommands]
  have hdbsize' : (⟨"DBSIZE", 1, .write Cmd.dbsizeCmd⟩ : CommandDef) ∈ commands := by
    simp [commands, Cmd.genericCommands]
  have hblpop' : (⟨"BLPOP", -3, .whole Cmd.blpop⟩ : CommandDef) ∈ commands := by
    simp [commands, Cmd.listCommands]
  have hbrpop' : (⟨"BRPOP", -3, .whole Cmd.brpop⟩ : CommandDef) ∈ commands := by
    simp [commands, Cmd.listCommands]
  have hxgroup' : (⟨"XGROUP", -2, .whole Cmd.xgroup⟩ : CommandDef) ∈ commands := by
    simp [commands, Cmd.streamCommands]
  rw [mayChangeNames]
  simp only [List.forall_mem_cons]
  exact ⟨⟨_, hinfo', rfl, hinfo hinfo'⟩, ⟨_, hdbsize', rfl, hdbsize hdbsize'⟩,
    ⟨_, hblpop', rfl, hblpop hblpop'⟩, ⟨_, hbrpop', rfl, hbrpop hbrpop'⟩,
    ⟨_, hxgroup', rfl, hxgroup hxgroup'⟩, List.forall_mem_nil _⟩

section Unlogged

variable (env : Env) (args : List Bytes) (w : Whole)

/-- A command that only purges what has expired. -/
theorem sameVisible_purging {name : String} {arity : ℤ} {f : Env → ℕ → List Bytes → KeyM RespValue}
    (hc : ⟨name, arity, .write f⟩ ∈ commands)
    (hf : Moves (ShowsSame env.now) (f env w.ctx.dbIndex args)) :
    SameVisible env.now w.store.databases (dispatch env name args w).2.store.databases := by
  have hrun : SameVisible env.now w.store.databases
      (f env w.ctx.dbIndex args { databases := w.store.databases }).2.databases :=
    hf { databases := w.store.databases }
  rcases dispatch_snd hc env args w with h | h
  · have hsame : (dispatch env name args w).2 = w := h
    rw [hsame]
    exact refl_of (SameVisible env.now) _
  · have hsame : (dispatch env name args w).2 = _ := h
    rw [hsame]
    exact hrun

theorem dispatch_blockingPop (d d' : PopDirection) {name : String}
    (hc : ⟨name, -3, .whole (Cmd.blockingPop d.pop d')⟩ ∈ commands)
    (hoom : isDenyOomCommand name = false) :
    SameVisible env.now w.store.databases (dispatch env name args w).2.store.databases ↔
      firstHas env.now w.store.databases w.ctx.dbIndex args.dropLast = false := by
  have hmem : w.store.tables.deniesMemory name = false :=
    w.store.tables.deniesMemory_of_allowed hoom
  have hrun : dispatch env name args w
      = catchError (Handler.run (dispatchDepth env env.nesting) env args
          (.whole (Cmd.blockingPop d.pop d'))) w := dispatch_eq hc env hmem rfl
  rw [hrun, catchError_snd, Handler.run, blockingPop_databases]
  exact showsSame_popFirst d env.now w.ctx.dbIndex args.dropLast ⟨w.store.databases, []⟩

theorem dispatch_xgroup_sameVisible :
    SameVisible env.now w.store.databases (dispatch env "XGROUP" args w).2.store.databases ↔
      ¬(w.ctx.dbIndex < w.store.databases.length ∧
        ∃ k group startId, Cmd.xgroupCall env args = some (k, group, .create startId true) ∧
          w.store.databases.liveEntry env.now w.ctx.dbIndex k = none) := by
  rw [dispatch_xgroup]
  cases hcall : Cmd.xgroupCall env args with
  | none =>
    refine iff_of_true (refl_of (SameVisible env.now) _) ?_
    rintro ⟨-, k, group, startId, hcall, -⟩
    cases hcall
  | some call =>
    obtain ⟨k, group, c⟩ := call
    dsimp only
    rw [sameVisible_groupCall]
    refine not_congr ⟨?_, ?_⟩
    · rintro ⟨hi, ⟨startId, rfl⟩, hnone⟩
      exact ⟨hi, k, group, startId, rfl, hnone⟩
    · rintro ⟨hi, k', group', startId, heq, hnone⟩
      obtain ⟨rfl, h⟩ := Prod.mk.inj (Option.some.inj heq)
      obtain ⟨rfl, rfl⟩ := Prod.mk.inj h
      exact ⟨hi, ⟨startId, rfl⟩, hnone⟩

end Unlogged

/-- **What is not logged changes no live data**, unless a blocking pop finds an element, at once or
when it is woken, or `XGROUP CREATE` makes a stream. -/
theorem unlogged_keeps_data {c : CommandDef} (hc : c ∈ commands)
    (hw : isWriteCommand c.name = false) (hcompound : c.name ∉ compoundNames) (env : Env)
    (args : List Bytes) (w : Whole) :
    (SameVisible env.now w.store.databases (dispatch env c.name args w).2.store.databases ↔
      ¬ChangesData env c.name args w) ∧
    ∀ (d : PopDirection) (i : ℕ) (keys : List Bytes) (s : Keyspace),
      ShowsSame env.now s (unblockPop (d.pop env.now i) keys s).2 ↔
        ∀ k ∈ keys, ¬HasElement env.now s.databases i k := by
  refine ⟨?_, fun d i keys s => showsSame_unblockPop d env.now i keys s⟩
  rcases sparesDatabases_or hc hw hcompound with ⟨hspares, hname⟩ | hname
  · refine iff_of_true ?_ ?_
    · rcases dispatch_snd hc env args w with h | h
      · rw [h]
        exact refl_of (SameVisible env.now) _
      · rw [h, sparesDatabases_run hspares]
        exact refl_of (SameVisible env.now) _
    · rintro (⟨h | h, -⟩ | ⟨h, -⟩) <;> exact hname (by rw [h]; decide)
  · refine of_mayChange (P := fun c =>
      SameVisible env.now w.store.databases (dispatch env c.name args w).2.store.databases ↔
        ¬ChangesData env c.name args w) (fun hinfo => ?_) (fun hdbsize => ?_) (fun hblpop => ?_)
      (fun hbrpop => ?_) (fun _ => ?_) hc hname
    · refine iff_of_true
        (sameVisible_purging env args w hinfo (moves_info ShowsSame.moves_dbsize _ _)) ?_
      simp [ChangesData]
    · refine iff_of_true
        (sameVisible_purging env args w hdbsize (moves_dbsizeCmd ShowsSame.moves_dbsize _ _)) ?_
      simp [ChangesData]
    · refine (dispatch_blockingPop env args w .left .left hblpop (by decide)).trans ?_
      simp [ChangesData]
    · refine (dispatch_blockingPop env args w .right .right hbrpop (by decide)).trans ?_
      simp [ChangesData]
    · refine (dispatch_xgroup_sameVisible env args w).trans ?_
      simp [ChangesData]

/-- A store with a list of one element. -/
def oneElement : Databases :=
  (Store.new 1).databases.put 0 (asBytes "k") { value := .list [asBytes "x"] }

/-- A client of that store. -/
def popper : Whole := ⟨⟨oneElement, {}⟩, {}⟩

/-- A blocking pop of a key that is not there. -/
theorem unlogged_keeps_data_absent :
    SameVisible 8 oneElement (dispatch (Moment.on ⟨8, 0, 0, 1⟩ Host.plain) "BLPOP"
      [asBytes "absent", asBytes "0"] popper).2.store.databases := by
  have hblpop : (⟨"BLPOP", -3, .whole Cmd.blpop⟩ : CommandDef) ∈ commands := by
    simp [commands, Cmd.listCommands]
  refine (unlogged_keeps_data hblpop (by decide) (by decide) (Moment.on ⟨8, 0, 0, 1⟩ Host.plain)
    [asBytes "absent", asBytes "0"] popper).1.mpr ?_
  rintro (⟨-, h⟩ | ⟨h, -⟩)
  · have hfirst : firstHas 8 oneElement 0 [asBytes "absent"] = false := by decide +kernel
    cases hfirst.symm.trans h
  · exact absurd h (by decide)

/-- The list that is shown at a key, if it is shown at all. -/
def shownList (dbs : Databases) (k : String) : Option (Option (List Bytes)) :=
  ((dbs.liveEntry 8 0 (asBytes k)).map Entry.value).map Kind.list.unwrap

theorem SameVisible.shownList {dbs dbs' : Databases} (h : SameVisible 8 dbs dbs') (k : String) :
    shownList dbs k = VeloDB.shownList dbs' k :=
  congrArg (Option.map Kind.list.unwrap) (h.liveValue 0 (asBytes k))

/-- **The exceptions.** A blocking pop takes an element at once, and a woken one does so later; and
`XGROUP CREATE` makes a stream. None of them is logged. -/
theorem unlogged_change_data :
    (isWriteCommand "BLPOP" = false ∧ isWriteCommand "XGROUP" = false) ∧
    ¬SameVisible 8 oneElement (dispatch (Moment.on ⟨8, 0, 0, 1⟩ Host.plain) "BLPOP"
      [asBytes "k", asBytes "0"] popper).2.store.databases ∧
    ¬SameVisible 8 oneElement (unblockPop (PopDirection.left.pop 8 0) [asBytes "k"]
      ⟨oneElement, []⟩).2.databases ∧
    ¬SameVisible 8 oneElement (dispatch (Moment.on ⟨8, 0, 0, 1⟩ Host.plain) "XGROUP"
      [asBytes "CREATE", asBytes "s", asBytes "g", asBytes "$", asBytes "MKSTREAM"]
      popper).2.store.databases := by
  refine ⟨by decide, fun h => ?_, fun h => ?_, fun h => ?_⟩
  · exact absurd (h.shownList "k") (by decide +kernel)
  · exact absurd (h.shownList "k") (by decide +kernel)
  · exact absurd (h.shownList "s") (by decide +kernel)

end VeloDB
