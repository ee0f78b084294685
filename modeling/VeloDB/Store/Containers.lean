import VeloDB.Store.Keyspace

/-!
# Methods on one value

Almost every method of the store looks at one key, expects a value of one kind there and answers
`WRONGTYPE` otherwise. There are three such patterns, and the methods of the containers are written
with them: reading a live value (`readAs`), changing a live value (`updateAs`), and changing a value
that is created when the key is absent (`upsertAs`). The last one does not look at the expiry.

`SameOff` says of a method that it leaves every other key as it is.
-/

namespace VeloDB

open Rust

/-- One kind of value: how it is recognised and how it is made. -/
structure Kind (α : Type) where
  unwrap : StorageValue → Option α
  wrap : α → StorageValue
  unwrap_wrap : ∀ a, unwrap (wrap a) = some a

namespace Kind

def string : Kind Bytes where
  unwrap
    | .string v => some v
    | _ => none
  wrap := .string
  unwrap_wrap _ := rfl

def list : Kind (List Bytes) where
  unwrap
    | .list l => some l
    | _ => none
  wrap := .list
  unwrap_wrap _ := rfl

def set : Kind (HashSet Bytes) where
  unwrap
    | .set s => some s
    | _ => none
  wrap := .set
  unwrap_wrap _ := rfl

def hash : Kind (HashMap Bytes Bytes) where
  unwrap
    | .hash h => some h
    | _ => none
  wrap := .hash
  unwrap_wrap _ := rfl

def zset : Kind (HashMap Bytes F64 × Scores) where
  unwrap
    | .zset members scores => some (members, scores)
    | _ => none
  wrap z := .zset z.1 z.2
  unwrap_wrap _ := rfl

def stream : Kind (List StreamEntry × UInt64 × UInt64) where
  unwrap
    | .stream entries ms seq => some (entries, ms, seq)
    | _ => none
  wrap s := .stream s.1 s.2.1 s.2.2
  unwrap_wrap _ := rfl

def nestedHash : Kind (HashMap Bytes (HashMap Bytes Bytes)) where
  unwrap
    | .nestedHash nh => some nh
    | _ => none
  wrap := .nestedHash
  unwrap_wrap _ := rfl

end Kind

/-- Unwrapping loses nothing. -/
class Kind.Exact {α : Type} (kind : Kind α) : Prop where
  wrap_unwrap : ∀ {v a}, kind.unwrap v = some a → kind.wrap a = v

instance : Kind.Exact .list := ⟨fun {v a} h => by cases v <;> cases h; rfl⟩

instance : Kind.Exact .set := ⟨fun {v a} h => by cases v <;> cases h; rfl⟩

instance : Kind.Exact .hash := ⟨fun {v a} h => by cases v <;> cases h; rfl⟩

instance : Kind.Exact .zset := ⟨fun {v a} h => by cases v <;> cases h; rfl⟩

instance : Kind.Exact .stream := ⟨fun {v a} h => by cases v <;> cases h; rfl⟩

instance : Kind.Exact .nestedHash := ⟨fun {v a} h => by cases v <;> cases h; rfl⟩

variable {α β γ : Type}

/-- Read a live value of one kind. -/
def Databases.readAs (kind : Kind α) (now : UInt64) (dbs : Databases) (i : ℕ) (k : Bytes)
    (missing : β) (f : α → β) : Except VeloDBError β := do
  match ← dbs.entry now i k with
  | some e =>
    match kind.unwrap e.value with
    | some a => pure (f a)
    | none => throw .wrongType
  | none => pure missing

namespace Keyspace

/-- Change the value of an entry: `f` gives the result and the new value. -/
def changeAs (kind : Kind α) (i : ℕ) (k : Bytes) (e : Entry) (f : α → Except Failure β × α) :
    KeyM β :=
  match kind.unwrap e.value with
  | some a => do
    put i k { e with value := kind.wrap (f a).2 }
    Proc.ofExcept (f a).1
  | none => throw .wrongType

/-- Change a live value of one kind; `missing` when there is no live entry. -/
def updateAs (kind : Kind α) (now : UInt64) (i : ℕ) (k : Bytes) (missing : Except Failure β)
    (f : α → Except Failure β × α) : KeyM β := do
  match ← read fun dbs => dbs.entry now i k with
  | some e => changeAs kind i k e f
  | none => Proc.ofExcept missing

/-- Change the value of a key, expired or not, that starts as `fresh` when it is absent. -/
def upsertAs (kind : Kind α) (i : ℕ) (k : Bytes) (fresh : α) (f : α → Except Failure β × α) :
    KeyM β := do
  let d ← read fun dbs => dbs.db i
  changeAs kind i k ((d.lookup k).getD { value := kind.wrap fresh }) f

end Keyspace

/-! ### What the procedures do -/

namespace Databases

variable {dbs : Databases} {i : ℕ}

theorem db_eq (hi : i < dbs.length) : dbs.db i = .ok dbs[i] := by
  rw [db, List.getElem?_eq_getElem hi]

theorem db_out (hi : dbs.length ≤ i) :
    dbs.db i = .error (.internal ("db " ++ toString i ++ " out of range")) := by
  rw [db, List.getElem?_eq_none hi]

theorem entry_eq (hi : i < dbs.length) (now : UInt64) (k : Bytes) :
    dbs.entry now i k = .ok (dbs.liveEntry now i k) := by
  rw [entry, db_eq hi, liveEntry, find, List.getElem?_eq_getElem hi]
  rfl

theorem isSome_of_existsKey {now : UInt64} {k : Bytes} {b : Bool}
    (h : dbs.existsKey now i k = .ok b) : (dbs.liveEntry now i k).isSome = b := by
  by_cases hi : i < dbs.length
  · rw [existsKey, entry_eq hi] at h
    exact Except.ok.inj h
  · rw [existsKey, entry, db_out (Nat.le_of_not_lt hi)] at h
    cases h

theorem lt_of_liveEntry {now : UInt64} {k : Bytes} {e : Entry}
    (h : dbs.liveEntry now i k = some e) : i < dbs.length := by
  by_contra hi
  rw [liveEntry_eq_none_of_le (Nat.le_of_not_lt hi)] at h
  cases h

/-- A live value of the right kind. -/
theorem readAs_some {kind : Kind α} {now : UInt64} {k : Bytes} {e : Entry}
    (he : dbs.liveEntry now i k = some e) {a : α} (ha : kind.unwrap e.value = some a) (missing : β)
    (f : α → β) : dbs.readAs kind now i k missing f = .ok (f a) := by
  have hentry := entry_eq (lt_of_liveEntry he) now k
  rw [he] at hentry
  rw [readAs, hentry]
  show (match kind.unwrap e.value with | some a => _ | none => _) = _
  rw [ha]
  rfl

/-- No live value. -/
theorem readAs_none {kind : Kind α} {now : UInt64} {k : Bytes} (hi : i < dbs.length)
    (h : dbs.liveEntry now i k = none) (missing : β) (f : α → β) :
    dbs.readAs kind now i k missing f = .ok missing := by
  rw [readAs, entry_eq hi, h]
  rfl

/-- A live value of another kind. -/
theorem readAs_wrong {kind : Kind α} {now : UInt64} {k : Bytes} {e : Entry}
    (he : dbs.liveEntry now i k = some e) (ha : kind.unwrap e.value = none) (missing : β)
    (f : α → β) : dbs.readAs kind now i k missing f = .error .wrongType := by
  rw [readAs, entry_eq (lt_of_liveEntry he), he]
  simp only [bind, Except.bind, ha]
  rfl

end Databases

namespace Keyspace

variable {dbs : Databases} {i : ℕ} {k : Bytes}

theorem read_db (hi : i < dbs.length) (notified : List Bytes) :
    read (fun dbs => dbs.db i) ⟨dbs, notified⟩ = (.ok dbs[i], ⟨dbs, notified⟩) := by
  rw [read, Databases.db_eq hi]
  rfl

theorem lookup_eq_find (hi : i < dbs.length) (k : Bytes) : dbs[i].lookup k = dbs.find i k := by
  rw [Databases.find, List.getElem?_eq_getElem hi]
  rfl

theorem set_run (hi : i < dbs.length) (v : Bytes) (at_ : Option UInt64) (notified : List Bytes) :
    set i k v at_ ⟨dbs, notified⟩ = (.ok (), ⟨dbs.put i k
      { value := .string v, expireAt := at_,
        version := ((dbs.find i k).getD { value := .string [] }).version + 1 }, notified⟩) := by
  rw [set, Proc.bind_ok (read_db hi notified), ← lookup_eq_find hi]
  rfl

theorem changeExpire_run (hi : i < dbs.length) {e : Entry} (he : dbs.find i k = some e)
    (at_ : Option UInt64) (notified : List Bytes) :
    changeExpire i k at_ ⟨dbs, notified⟩
      = (.ok true, ⟨dbs.put i k { e with expireAt := at_ }, notified⟩) := by
  rw [changeExpire, Proc.bind_ok (read_db hi notified), lookup_eq_find hi, he]
  rfl

theorem changeExpire_missing (hi : i < dbs.length) (hnone : dbs.find i k = none)
    (at_ : Option UInt64) (notified : List Bytes) :
    changeExpire i k at_ ⟨dbs, notified⟩ = (.ok false, ⟨dbs, notified⟩) := by
  rw [changeExpire, Proc.bind_ok (read_db hi notified), lookup_eq_find hi, hnone]
  rfl

theorem upsertAs_run (kind : Kind α) (hi : i < dbs.length) {fresh a : α}
    (ha : kind.unwrap ((dbs.find i k).getD { value := kind.wrap fresh }).value = some a)
    (f : α → Except Failure β × α) (notified : List Bytes) :
    upsertAs kind i k fresh f ⟨dbs, notified⟩ = ((f a).1, ⟨dbs.put i k
      { (dbs.find i k).getD { value := kind.wrap fresh } with value := kind.wrap (f a).2 },
        notified⟩) := by
  rw [upsertAs, Proc.bind_ok (read_db hi notified), changeAs, lookup_eq_find hi, ha]
  rfl

/-- Creating a value. -/
theorem upsertAs_new (kind : Kind α) (hi : i < dbs.length) (hnone : dbs.find i k = none) (new : α)
    (f : α → Except Failure β × α) (notified : List Bytes) :
    upsertAs kind i k new f ⟨dbs, notified⟩
      = ((f new).1, ⟨dbs.put i k { value := kind.wrap (f new).2 }, notified⟩) := by
  have hunwrap : kind.unwrap ((dbs.find i k).getD { value := kind.wrap new }).value = some new := by
    rw [hnone]
    exact kind.unwrap_wrap new
  rw [upsertAs_run kind hi hunwrap, hnone]
  rfl

theorem read_db_error (hi : dbs.length ≤ i) (notified : List Bytes) :
    ∃ e, read (fun dbs => dbs.db i) ⟨dbs, notified⟩ = (.error (.error e), ⟨dbs, notified⟩) := by
  rw [read, Databases.db, List.getElem?_eq_none hi]
  exact ⟨_, rfl⟩

theorem each_remove_run (l : List (Bytes × Entry)) (s : Keyspace) :
    (Proc.each l (fun p => remove i p.1) s).1 = .ok () ∧
      (Proc.each l (fun p => remove i p.1) s).2.databases.length = s.databases.length := by
  induction l generalizing s with
  | nil => exact ⟨rfl, rfl⟩
  | cons p l ih =>
    obtain ⟨hok, hlen⟩ := ih { s with databases := s.databases.remove i p.1 }
    exact ⟨hok, hlen.trans Databases.length_remove⟩

/-- `DBSIZE` counts what is live. -/
theorem dbsize_run {s : Keyspace} (hi : i < s.databases.length) (now : UInt64) :
    ∃ s', dbsize now i s = (.ok (Databases.live now s.databases[i]).length, s') ∧
      s'.databases.length = s.databases.length := by
  obtain ⟨dbs, notified⟩ := s
  obtain ⟨hok, hlen⟩ := each_remove_run (i := i)
    (dbs[i].pairs.filter fun p => p.2.expired now) ⟨dbs, notified⟩
  refine ⟨_, ?_, hlen⟩
  rw [dbsize, Proc.bind_ok (read_db hi notified), Proc.bind_ok (Prod.ext hok rfl)]
  rfl

theorem read_entry (hi : i < dbs.length) (now : UInt64) (k : Bytes) (notified : List Bytes) :
    read (fun dbs => dbs.entry now i k) ⟨dbs, notified⟩
      = (.ok (dbs.liveEntry now i k), ⟨dbs, notified⟩) := by
  rw [read, Databases.entry_eq hi]
  rfl

theorem read_entry_error (hi : dbs.length ≤ i) (now : UInt64) (k : Bytes) (notified : List Bytes) :
    ∃ e, read (fun dbs => dbs.entry now i k) ⟨dbs, notified⟩
      = (.error (.error e), ⟨dbs, notified⟩) := by
  rw [read, Databases.entry, Databases.db, List.getElem?_eq_none hi]
  exact ⟨_, rfl⟩

/-- **Everything an `upsertAs` can do.** -/
theorem upsertAs_cases (kind : Kind α) (i : ℕ) (k : Bytes) (fresh : α)
    (f : α → Except Failure β × α) (ks : Keyspace) :
    (∃ e, upsertAs kind i k fresh f ks = (.error (.error e), ks) ∧
      (i < ks.databases.length → e = .wrongType ∧
        kind.unwrap ((ks.databases.find i k).getD { value := kind.wrap fresh }).value = none)) ∨
    (∃ a, i < ks.databases.length ∧
      kind.unwrap ((ks.databases.find i k).getD { value := kind.wrap fresh }).value = some a ∧
      upsertAs kind i k fresh f ks = ((f a).1, ⟨ks.databases.put i k
        { (ks.databases.find i k).getD { value := kind.wrap fresh } with
          value := kind.wrap (f a).2 }, ks.notified⟩)) := by
  obtain ⟨dbs, notified⟩ := ks
  by_cases hi : i < dbs.length
  · cases ha : kind.unwrap ((dbs.find i k).getD { value := kind.wrap fresh }).value with
    | none =>
      refine Or.inl ⟨.wrongType, ?_, fun _ => ⟨rfl, rfl⟩⟩
      rw [upsertAs, Proc.bind_ok (read_db hi notified), changeAs, lookup_eq_find hi, ha]
      rfl
    | some a => exact Or.inr ⟨a, hi, rfl, upsertAs_run kind hi ha f notified⟩
  · obtain ⟨e, he⟩ := read_db_error (Nat.le_of_not_lt hi) notified
    exact Or.inl ⟨e, Proc.bind_error he, fun h => absurd h hi⟩

/-- Changing a live value of the kind. -/
theorem updateAs_run (kind : Kind α) {now : UInt64} {e : Entry}
    (he : dbs.liveEntry now i k = some e) {a : α} (ha : kind.unwrap e.value = some a)
    (missing : Except Failure β) (f : α → Except Failure β × α) (notified : List Bytes) :
    updateAs kind now i k missing f ⟨dbs, notified⟩
      = ((f a).1, ⟨dbs.put i k { e with value := kind.wrap (f a).2 }, notified⟩) := by
  rw [updateAs, Proc.bind_ok (read_entry (Databases.lt_of_liveEntry he) now k notified), he]
  dsimp only
  rw [changeAs, ha]
  rfl

/-- **Everything an `updateAs` can do.** -/
theorem updateAs_cases (kind : Kind α) (now : UInt64) (i : ℕ) (k : Bytes)
    (missing : Except Failure β) (f : α → Except Failure β × α) (ks : Keyspace) :
    (∃ e, updateAs kind now i k missing f ks = (.error (.error e), ks)) ∨
    (i < ks.databases.length ∧ ks.databases.liveEntry now i k = none ∧
      updateAs kind now i k missing f ks = (missing, ks)) ∨
    (∃ e a, i < ks.databases.length ∧ ks.databases.liveEntry now i k = some e ∧
      kind.unwrap e.value = some a ∧
      updateAs kind now i k missing f ks = ((f a).1,
        ⟨ks.databases.put i k { e with value := kind.wrap (f a).2 }, ks.notified⟩)) := by
  obtain ⟨dbs, notified⟩ := ks
  by_cases hi : i < dbs.length
  · rw [updateAs, Proc.bind_ok (read_entry hi now k notified)]
    cases he : dbs.liveEntry now i k with
    | none => exact Or.inr (Or.inl ⟨hi, rfl, rfl⟩)
    | some e =>
      dsimp only
      cases ha : kind.unwrap e.value with
      | none =>
        refine Or.inl ⟨.wrongType, ?_⟩
        rw [changeAs, ha]
        rfl
      | some a =>
        refine Or.inr (Or.inr ⟨e, a, hi, rfl, ha, ?_⟩)
        rw [changeAs, ha]
        rfl
  · obtain ⟨e, he⟩ := read_entry_error (Nat.le_of_not_lt hi) now k notified
    exact Or.inl ⟨e, Proc.bind_error he⟩

end Keyspace

/-! ### Frames -/

/-- Nothing but the given keys of database `i` differs. -/
structure SameOff (i : ℕ) (ks : List Bytes) (s s' : Keyspace) : Prop where
  length : s'.databases.length = s.databases.length
  find : ∀ j k, j ≠ i ∨ k ∉ ks → s'.databases.find j k = s.databases.find j k

namespace SameOff

variable {i : ℕ} {ks : List Bytes}

instance : Std.Refl (SameOff i ks) := ⟨fun _ => ⟨rfl, fun _ _ _ => rfl⟩⟩

instance : IsTrans Keyspace (SameOff i ks) :=
  ⟨fun _ _ _ h h' =>
    ⟨h'.length.trans h.length, fun j k hjk => (h'.find j k hjk).trans (h.find j k hjk)⟩⟩

end SameOff

namespace Keyspace

open Proc

variable {i : ℕ} {ks : List Bytes} {k : Bytes}

theorem moves_read {R : Keyspace → Keyspace → Prop} [Std.Refl R]
    (f : Databases → Except VeloDBError α) : Moves R (read f) := fun s => refl_of R s

theorem moves_throw {R : Keyspace → Keyspace → Prop} [Std.Refl R] (e : VeloDBError) :
    Moves R (throw e : KeyM α) := moves_fail _

theorem moves_put (hk : k ∈ ks) (e : Entry) : Moves (SameOff i ks) (put i k e) := by
  refine fun s => ⟨Databases.length_put, fun j k' hjk => Databases.find_put_of_ne ?_⟩
  exact hjk.imp_right fun hk' heq => hk' (heq ▸ hk)

theorem moves_set (hk : k ∈ ks) (v : Bytes) (at_ : Option UInt64) :
    Moves (SameOff i ks) (set i k v at_) :=
  (moves_read _).bind fun _ => moves_put hk _

end Keyspace

end VeloDB
