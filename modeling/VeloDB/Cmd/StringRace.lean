import VeloDB.Cmd.Strings
import VeloDB.Lib.Run

/-!
# Strings between two calls of the store

`incr_fn` and `append` read a string with one call of the store and write it with another, and
between the two other clients take theirs. `StringRace` is the databases with the reads that wait
for their write, and a run is any list of such calls.

## Main definitions

* `StringUpdate.call_eq` — where the two calls are in a command
* `StringRace.run` — one call of the store
* `StringRace.Fresh` — what is written is computed from what is there

## Main results

* `StringRace.value_run` — what a call adds, exactly when it is fresh
* `no_lost_update` — a counter is what it was plus its increments, and a length what it was plus
  the lengths appended, at every moment exactly when every write is fresh
-/

namespace VeloDB

open Rust

/-- What a command makes of the string it has read. -/
inductive StringChange
  | add (by_ : Int64)
  | extend (suffix : Bytes)

/-- The commands that read a string with one call and write it with another. -/
inductive StringUpdate
  | incr
  | incrby (n : Bytes)
  | decr
  | decrby (n : Bytes)
  | append (suffix : Bytes)

namespace StringChange

/-- The rest of a command once it has read the string. -/
def finish (i : ℕ) (k : Bytes) (v : Option Bytes) : StringChange → KeyM RespValue
  | .add by_ => do
    let current := (v >>= parseI64).getD 0
    let new ← lift (orError (checkedAdd current by_) .overflow)
    Keyspace.set i k (i64Bytes new) none
    pure (.integer new)
  | .extend suffix => do
    let current := v.getD [] ++ suffix
    Keyspace.set i k current none
    pure (.count current.length)

/-- The string that is written, unless the sum overflows. -/
def result (v : Option Bytes) : StringChange → Option Bytes
  | .add by_ => (checkedAdd ((v >>= parseI64).getD 0) by_).map i64Bytes
  | .extend suffix => some (v.getD [] ++ suffix)

/-- What the client asks to add. -/
def size : StringChange → ℤ
  | .add by_ => by_.toInt
  | .extend suffix => suffix.length

theorem finish_eq (i : ℕ) (k : Bytes) (v : Option Bytes) (c : StringChange) (dbs : Databases)
    (hi : i < dbs.length) : (c.finish i k v ⟨dbs, []⟩).2.databases =
      match c.result v with
      | some new => dbs.put i k
          { value := .string new, expireAt := none,
            version := ((dbs.find i k).getD { value := .string [] }).version + 1 }
      | none => dbs := by
  cases c with
  | add by_ =>
    rw [finish, result]
    cases checkedAdd ((v >>= parseI64).getD 0) by_ with
    | none => rfl
    | some new =>
      rw [orError, lift_ok_bind, Proc.bind_ok (Keyspace.set_run hi _ _ _)]
      rfl
  | extend suffix =>
    rw [finish, Proc.bind_ok (Keyspace.set_run hi _ _ _)]
    rfl

end StringChange

namespace StringUpdate

/-- The command, as its client has sent it. -/
def call (env : Env) (i : ℕ) (k : Bytes) : StringUpdate → KeyM RespValue
  | .incr => Cmd.incr env i [k]
  | .incrby n => Cmd.incrby env i [k, n]
  | .decr => Cmd.decr env i [k]
  | .decrby n => Cmd.decrby env i [k, n]
  | .append suffix => Cmd.append env i [k, suffix]

/-- What the arguments ask for. -/
def change : StringUpdate → Except Failure StringChange
  | .incr => .ok (.add 1)
  | .incrby n => (orError (parseI64 n) .notInteger).map .add
  | .decr => .ok (.add (-1))
  | .decrby n => (orError (parseI64 n) .notInteger).map fun by_ => .add (-by_)
  | .append suffix => .ok (.extend suffix)

/-- A command is its two calls of the store. -/
theorem call_eq (env : Env) (i : ℕ) (k : Bytes) (u : StringUpdate) :
    u.call env i k = lift u.change >>= fun c =>
      Keyspace.read (fun dbs => dbs.get env.now i k) >>= fun v => c.finish i k v := by
  cases u with
  | incr => rfl
  | incrby n =>
    rw [call, Cmd.incrby, change, arg_cons_succ, arg_cons_zero, lift_ok_bind]
    cases parseI64 n <;> rfl
  | decr => rfl
  | decrby n =>
    rw [call, Cmd.decrby, change, arg_cons_succ, arg_cons_zero, lift_ok_bind]
    cases parseI64 n <;> rfl
  | append suffix => rfl

end StringUpdate

/-- The string at a key, expired or not. -/
def Databases.string? (dbs : Databases) (i : ℕ) (k : Bytes) : Option Bytes :=
  dbs.find i k >>= fun e => match e.value with
    | .string v => some v
    | _ => none

/-- What is counted about a string. -/
inductive Tally
  | number
  | length

namespace Tally

/-- The count of a string. One that is not a number counts as zero. -/
def value : Tally → Option Bytes → ℤ
  | .number, v => ((v >>= parseI64).getD 0).toInt
  | .length, v => (v.getD []).length

/-- The changes that add to the count. -/
def Counts : Tally → StringChange → Prop
  | .number, .add _ => True
  | .length, .extend _ => True
  | .number, .extend _ => False
  | .length, .add _ => False

theorem value_result {tally : Tally} {c : StringChange} (hc : tally.Counts c) {v : Option Bytes}
    {new : Bytes} (h : c.result v = some new) :
    tally.value (some new) = tally.value v + c.size := by
  cases tally with
  | number =>
    cases c with
    | add by_ =>
      obtain ⟨x, hx, rfl⟩ := Option.map_eq_some_iff.mp h
      rw [value, Option.bind_eq_bind, Option.bind_some, parseI64_i64Bytes, Option.getD_some,
        toInt_of_checkedAdd hx]
      rfl
    | extend suffix => exact hc.elim
  | length =>
    cases c with
    | add by_ => exact hc.elim
    | extend suffix =>
      obtain rfl := Option.some.inj h
      rw [value, Option.getD_some, List.length_append, Nat.cast_add]
      rfl

end Tally

/-- The databases, and the changes that have read their string. -/
structure StringRace where
  databases : Databases
  reads : ℕ → Option (StringChange × Option Bytes)

/-- A call of the store by the command with a number, or by somebody else. -/
inductive StringEvent
  | get (t : ℕ) (now : UInt64) (u : StringUpdate)
  | set (t : ℕ)
  | other (dbs : Databases)

namespace StringRace

variable (i : ℕ) (k : Bytes)

/-- One call. A command that fails is over. -/
def run (s : StringRace) : StringEvent → StringRace
  | .get t now u => { s with
      reads := Function.update s.reads t (u.change.toOption >>= fun c =>
        (s.databases.get now i k).toOption.map fun v => (c, v)) }
  | .set t =>
    match s.reads t with
    | some (c, v) =>
      { databases := (c.finish i k v ⟨s.databases, []⟩).2.databases
        reads := Function.update s.reads t none }
    | none => s
  | .other dbs => { s with databases := dbs }

/-- What a call adds: the size of the change, if it succeeds. -/
def added (s : StringRace) : StringEvent → ℤ
  | .set t =>
    match s.reads t with
    | some (c, v) => if (c.result v).isSome then c.size else 0
    | none => 0
  | .get .. | .other _ => 0

variable (tally : Tally)

/-- A change that is written has been computed from what is at the key. -/
def Fresh (s : StringRace) : StringEvent → Prop
  | .set t => ∀ c v, s.reads t = some (c, v) → (c.result v).isSome →
    tally.value v = tally.value (s.databases.string? i k)
  | .get .. | .other _ => True

/-- Only changes that add to the count are made at the key. -/
def Allowed (s : StringRace) : StringEvent → Prop
  | .get _ _ u => ∀ c, u.change = .ok c → tally.Counts c
  | .set _ => True
  | .other dbs => dbs.find i k = s.databases.find i k ∧ dbs.length = s.databases.length

/-- What waits for its write adds to the count, in a database that is there. -/
def Counted (s : StringRace) : Prop :=
  ∀ t c v, s.reads t = some (c, v) → tally.Counts c ∧ i < s.databases.length

variable {i k tally} {s : StringRace}

theorem lt_of_get {dbs : Databases} {now : UInt64} {v : Option Bytes}
    (h : (dbs.get now i k).toOption = some v) : i < dbs.length := by
  by_contra hi
  rw [Databases.get, Databases.entry, Databases.db,
    List.getElem?_eq_none (Nat.le_of_not_lt hi)] at h
  cases h

theorem length_finish (c : StringChange) (v : Option Bytes) {dbs : Databases}
    (hi : i < dbs.length) : (c.finish i k v ⟨dbs, []⟩).2.databases.length = dbs.length := by
  rw [StringChange.finish_eq i k v c dbs hi]
  split
  · exact Databases.length_put
  · rfl

theorem Counted.run (h : s.Counted i tally) {e : StringEvent} (he : s.Allowed i k tally e) :
    (s.run i k e).Counted i tally := by
  intro t c v hread
  cases e with
  | get t' now u =>
    rw [StringRace.run] at hread
    dsimp only at hread
    by_cases ht : t = t'
    · subst ht
      rw [Function.update_self] at hread
      obtain ⟨c', hc, hread⟩ := Option.bind_eq_some_iff.mp hread
      obtain ⟨v', hv, heq⟩ := Option.map_eq_some_iff.mp hread
      obtain ⟨rfl, rfl⟩ := Prod.mk.inj heq
      cases hu : u.change with
      | error e =>
        rw [hu] at hc
        cases hc
      | ok c'' =>
        rw [hu] at hc
        obtain rfl := Option.some.inj hc
        exact ⟨he c'' hu, lt_of_get hv⟩
    · rw [Function.update_of_ne ht] at hread
      exact h t c v hread
  | set t' =>
    rw [StringRace.run] at hread ⊢
    cases hr : s.reads t' with
    | none =>
      rw [hr] at hread
      exact h t c v hread
    | some p =>
      obtain ⟨c', v'⟩ := p
      rw [hr] at hread
      dsimp only at hread ⊢
      rw [length_finish c' v' (h t' c' v' hr).2]
      by_cases ht : t = t'
      · subst ht
        rw [Function.update_self] at hread
        cases hread
      · rw [Function.update_of_ne ht] at hread
        exact h t c v hread
  | other dbs =>
    obtain ⟨hc, hi⟩ := h t c v hread
    exact ⟨hc, he.2 ▸ hi⟩

/-- **What a call adds**, exactly when it is fresh. -/
theorem value_run (h : s.Counted i tally) {e : StringEvent} (he : s.Allowed i k tally e) :
    tally.value ((s.run i k e).databases.string? i k)
      = tally.value (s.databases.string? i k) + s.added e ↔ s.Fresh i k tally e := by
  cases e with
  | get t now u => exact iff_of_true (add_zero _).symm trivial
  | set t =>
    rw [StringRace.run, added, Fresh]
    cases hr : s.reads t with
    | none => exact iff_of_true (add_zero _).symm fun c v hread => by cases hread
    | some p =>
      obtain ⟨c, v⟩ := p
      obtain ⟨hc, hi⟩ := h t c v hr
      dsimp only
      rw [StringChange.finish_eq i k v c _ hi]
      cases hnew : c.result v with
      | none =>
        refine iff_of_true (add_zero _).symm fun c' v' hread hsome => ?_
        obtain ⟨rfl, rfl⟩ := Prod.mk.inj (Option.some.inj hread)
        rw [hnew] at hsome
        cases hsome
      | some new =>
        have hstring : ∀ e : Entry, e.value = .string new →
            (s.databases.put i k e).string? i k = some new := by
          intro e hvalue
          rw [Databases.string?, Databases.find_put_self hi, Option.bind_eq_bind, Option.bind_some,
            hvalue]
        dsimp only
        rw [hstring _ rfl, Tally.value_result hc hnew, Option.isSome_some, if_pos rfl,
          add_left_inj]
        constructor
        · intro heq c' v' hread _
          obtain ⟨rfl, rfl⟩ := Prod.mk.inj (Option.some.inj hread)
          exact heq
        · intro hfresh
          exact hfresh c v rfl (by rw [hnew]; rfl)
  | other dbs =>
    refine iff_of_true ?_ trivial
    rw [StringRace.run, Databases.string?, he.1, added, add_zero, Databases.string?]

end StringRace

/-- **No update is lost**, as long as every write is computed from what is at the key. For any
interleaving of the calls of any commands that increment, or that append, the number at the key is
the number it was plus the increments, and its length the length it was plus the lengths
appended. -/
theorem no_lost_update (tally : Tally) {i : ℕ} {k : Bytes} {dbs : Databases} {es : List StringEvent}
    (hes : Run.Along (StringRace.run i k) (StringRace.Allowed i k tally) ⟨dbs, fun _ => none⟩ es) :
    (∀ pre post, es = pre ++ post →
      tally.value ((pre.foldl (StringRace.run i k) ⟨dbs, fun _ => none⟩).databases.string? i k)
        = tally.value (dbs.string? i k)
          + Run.total (StringRace.run i k) StringRace.added ⟨dbs, fun _ => none⟩ pre) ↔
      Run.Along (StringRace.run i k) (StringRace.Fresh i k tally) ⟨dbs, fun _ => none⟩ es := by
  have hstart : StringRace.Counted i tally ⟨dbs, fun _ => none⟩ := by
    rintro t c v h
    cases h
  have hlocal := hes.iff (fun s e hs he => StringRace.Counted.run hs he)
    (fun s e hs he => StringRace.value_run hs he) hstart
  exact (Run.value_eq_add_total_iff fun s : StringRace =>
    tally.value (s.databases.string? i k)).trans hlocal

/-- A counter that two clients increment, one after the other. -/
def counted : List StringEvent :=
  [.get 0 8 .incr, .set 0, .get 1 9 (.incrby (asBytes "41")), .set 1]

theorem no_lost_update_counted :
    Tally.number.value ((counted.foldl (StringRace.run 0 (asBytes "k"))
      ⟨(Store.new 1).databases, fun _ => none⟩).databases.string? 0 (asBytes "k")) = 42 := by
  have hes : Run.Along (StringRace.run 0 (asBytes "k"))
      (StringRace.Allowed 0 (asBytes "k") .number) ⟨(Store.new 1).databases, fun _ => none⟩
      counted := by
    refine ⟨fun c hc => ?_, trivial, fun c hc => ?_, trivial, trivial⟩
    · obtain rfl := Except.ok.inj hc
      trivial
    · cases c with
      | add by_ => trivial
      | extend suffix => cases hc
  have hfresh : Run.Along (StringRace.run 0 (asBytes "k"))
      (StringRace.Fresh 0 (asBytes "k") .number) ⟨(Store.new 1).databases, fun _ => none⟩
      counted := by
    refine ⟨trivial, fun c v hread _ => ?_, trivial, fun c v hread _ => ?_, trivial⟩
    · have hnone : ((StringRace.run 0 (asBytes "k") ⟨(Store.new 1).databases, fun _ => none⟩
          (.get 0 8 .incr)).reads 0).map Prod.snd = some none := by
        decide +kernel
      rw [hread] at hnone
      obtain rfl := Option.some.inj hnone
      decide +kernel
    · have hone : (((counted.take 3).foldl (StringRace.run 0 (asBytes "k"))
          ⟨(Store.new 1).databases, fun _ => none⟩).reads 1).map Prod.snd
            = some (some (asBytes "1")) := by
        decide +kernel
      have hread' : ((counted.take 3).foldl (StringRace.run 0 (asBytes "k"))
          ⟨(Store.new 1).databases, fun _ => none⟩).reads 1 = some (c, v) := hread
      rw [hread'] at hone
      obtain rfl := Option.some.inj hone
      decide +kernel
  have htotal : Run.total (StringRace.run 0 (asBytes "k")) StringRace.added
      ⟨(Store.new 1).databases, fun _ => none⟩ counted = 42 := by
    decide +kernel
  rw [(no_lost_update .number hes).mpr hfresh counted [] rfl, htotal]
  rfl

/-- A store with a number in it. -/
def seven : StringRace :=
  ⟨(Store.new 1).databases.put 0 (asBytes "k") { value := .string (asBytes "7") }, fun _ => none⟩

/-- Two clients read the string before either of them writes it. -/
def overlappingUpdates (u : StringUpdate) : List StringEvent :=
  [.get 0 8 u, .get 1 8 u, .set 0, .set 1]

/-- What is counted at the key, after a run from `seven`. -/
def countAfter (tally : Tally) (es : List StringEvent) : ℤ :=
  tally.value ((es.foldl (StringRace.run 0 (asBytes "k")) seven).databases.string? 0 (asBytes "k"))

/-- **Of two updates that overlap, one is lost.** -/
theorem overlapping_update_lost :
    (countAfter .number [] = 7 ∧ countAfter .number (overlappingUpdates .incr) = 8 ∧
      Run.total (StringRace.run 0 (asBytes "k")) StringRace.added seven
        (overlappingUpdates .incr) = 2) ∧
    countAfter .length [] = 1 ∧
      countAfter .length (overlappingUpdates (.append (asBytes "xy"))) = 3 ∧
      Run.total (StringRace.run 0 (asBytes "k")) StringRace.added seven
        (overlappingUpdates (.append (asBytes "xy"))) = 4 := by
  decide +kernel

end VeloDB
