import VeloDB.Store.Types

/-!
# The keyspace

The databases of a store, and the methods of the store that work on keys as such. A method that
only reads takes the databases; a method that writes is a procedure over them. Pushing to a list or
a stream also notifies clients blocked on the key, so a procedure collects the keys it notifies.

`Databases.find` is what a database holds at a key, expired or not; every writing primitive has one
lemma that says what `find` answers after it.
-/

namespace VeloDB

open Rust

namespace Databases

/-- What is stored at a key, expired or not. -/
def find (dbs : Databases) (i : ℕ) (k : Bytes) : Option Entry := dbs[i]? >>= fun d => d.lookup k

/-- Store an entry. -/
def put (dbs : Databases) (i : ℕ) (k : Bytes) (e : Entry) : Databases :=
  dbs.modify i fun d => d.insert k e

/-- Remove a key. -/
def remove (dbs : Databases) (i : ℕ) (k : Bytes) : Databases := dbs.modify i fun d => d.erase k

/-- Remove every key. -/
def clear (dbs : Databases) (i : ℕ) : Databases := dbs.modify i fun _ => ∅

variable {dbs : Databases} {i j : ℕ} {k k' : Bytes} {e : Entry}

@[simp] theorem length_put : (dbs.put i k e).length = dbs.length := List.length_modify ..

@[simp] theorem length_remove : (dbs.remove i k).length = dbs.length := List.length_modify ..

@[simp] theorem length_clear : (dbs.clear i).length = dbs.length := List.length_modify ..

theorem find_modify_self (f : Db → Db) :
    find (dbs.modify i f) i k = dbs[i]? >>= fun d => (f d).lookup k := by
  rw [find, List.getElem?_modify]
  cases dbs[i]? with
  | none => rfl
  | some d => simp

theorem find_modify_of_ne (f : Db → Db) (h : i ≠ j) : find (dbs.modify i f) j k = dbs.find j k := by
  rw [find, List.getElem?_modify, find]
  cases dbs[j]? with
  | none => rfl
  | some d => simp [h]

/-- A change of a database that keeps one key. -/
theorem find_modify_of_lookup {f : Db → Db} (hf : ∀ d : Db, (f d).lookup k = d.lookup k) :
    find (dbs.modify i f) j k = dbs.find j k := by
  by_cases hij : i = j
  · subst hij
    rw [find_modify_self, find]
    simp only [hf]
  · exact find_modify_of_ne f hij

theorem find_put_self (hi : i < dbs.length) : (dbs.put i k e).find i k = some e := by
  rw [put, find_modify_self, List.getElem?_eq_getElem hi]
  exact AList.lookup_insert _

theorem find_put_of_ne (h : j ≠ i ∨ k' ≠ k) : (dbs.put i k e).find j k' = dbs.find j k' := by
  rcases h with hij | hk
  · exact find_modify_of_ne _ hij.symm
  · exact find_modify_of_lookup fun d => AList.lookup_insert_ne hk

theorem find_remove_self : (dbs.remove i k).find i k = none := by
  rw [remove, find_modify_self]
  cases dbs[i]? with
  | none => rfl
  | some d => exact AList.lookup_erase _ _

theorem find_remove_of_ne (h : j ≠ i ∨ k' ≠ k) : (dbs.remove i k).find j k' = dbs.find j k' := by
  rcases h with hij | hk
  · exact find_modify_of_ne _ hij.symm
  · exact find_modify_of_lookup fun d => AList.lookup_erase_ne hk

theorem lt_of_find (h : dbs.find i k = some e) : i < dbs.length := by
  by_contra hi
  rw [find, List.getElem?_eq_none (Nat.le_of_not_lt hi)] at h
  cases h

theorem find_new (n i : ℕ) (k : Bytes) : find (Store.new n).databases i k = none := by
  rw [find, Store.new, List.getElem?_replicate]
  split <;> rfl

end Databases

/-- The databases during a command, and the keys it has notified. -/
structure Keyspace where
  databases : Databases
  notified : List Bytes := []

/-- A procedure over the keyspace. -/
abbrev KeyM := Proc Keyspace Failure

/-- `VeloDBError`s as failures. -/
def ofResult {α : Type} : Except VeloDBError α → Except Failure α
  | .ok a => .ok a
  | .error e => .error (.error e)

namespace Keyspace

/-- A reading method. -/
def read {α : Type} (f : Databases → Except VeloDBError α) : KeyM α := fun ks =>
  (ofResult (f ks.databases), ks)

/-- Raise an error. -/
def throw {α : Type} (e : VeloDBError) : KeyM α := Proc.fail (.error e)

/-- Store an entry. -/
def put (i : ℕ) (k : Bytes) (e : Entry) : KeyM Unit :=
  Proc.modify fun ks => { ks with databases := ks.databases.put i k e }

/-- Remove a key. -/
def remove (i : ℕ) (k : Bytes) : KeyM Unit :=
  Proc.modify fun ks => { ks with databases := ks.databases.remove i k }

/-- `block_registry.notify`. -/
def notify (k : Bytes) : KeyM Unit :=
  Proc.modify fun ks => { ks with notified := ks.notified ++ [k] }

end Keyspace

/-! ### Reading -/

namespace Databases

/-- `Store::db`. -/
def db (dbs : Databases) (i : ℕ) : Except VeloDBError Db :=
  match dbs[i]? with
  | some d => .ok d
  | none => .error (.internal ("db " ++ toString i ++ " out of range"))

/-- `Store::entry`: the entry of a key that has not expired. -/
def entry (now : UInt64) (dbs : Databases) (i : ℕ) (k : Bytes) :
    Except VeloDBError (Option Entry) := do
  let d ← dbs.db i
  pure ((d.lookup k).filter fun e => !e.expired now)

/-- The entry a key has and that has not expired. -/
def liveEntry (now : UInt64) (dbs : Databases) (i : ℕ) (k : Bytes) : Option Entry :=
  (dbs.find i k).filter fun e => !e.expired now

/-- `Store::get`. -/
def get (now : UInt64) (dbs : Databases) (i : ℕ) (k : Bytes) :
    Except VeloDBError (Option Bytes) := do
  match ← dbs.entry now i k with
  | some e =>
    match e.value with
    | .string v => pure (some v)
    | _ => throw .wrongType
  | none => pure none

/-- `Store::exists`. -/
def existsKey (now : UInt64) (dbs : Databases) (i : ℕ) (k : Bytes) : Except VeloDBError Bool := do
  let e ← dbs.entry now i k
  pure e.isSome

/-- `Store::get_expire`. -/
def getExpire (now : UInt64) (dbs : Databases) (i : ℕ) (k : Bytes) :
    Except VeloDBError (Option UInt64) := do
  let e ← dbs.entry now i k
  pure (e.bind Entry.expireAt)

/-- `Store::get_type`. -/
def getType (now : UInt64) (dbs : Databases) (i : ℕ) (k : Bytes) :
    Except VeloDBError (Option String) := do
  let e ← dbs.entry now i k
  pure (e.map fun e => e.value.typeName)

/-- `Store::get_version`. -/
def getVersion (now : UInt64) (dbs : Databases) (i : ℕ) (k : Bytes) : Except VeloDBError ℕ := do
  match ← dbs.entry now i k with
  | some e => pure e.version
  | none => pure 0

/-- The live pairs of a database, in iteration order. -/
def live (now : UInt64) (d : Db) : List (Bytes × Entry) := d.pairs.filter fun p => !p.2.expired now

theorem mem_live {now : UInt64} {d : Db} {k : Bytes} {e : Entry} :
    (k, e) ∈ live now d ↔ d.lookup k = some e ∧ e.expired now = false := by
  rw [live, List.mem_filter, HashMap.mem_pairs, Bool.not_eq_true']

theorem nodup_live (now : UInt64) (d : Db) : ((live now d).map Prod.fst).Nodup :=
  d.nodup_pairs.sublist (List.filter_sublist.map _)

theorem liveEntry_eq {now : UInt64} {dbs : Databases} {i : ℕ} {d : Db} (hd : dbs[i]? = some d)
    (k : Bytes) : dbs.liveEntry now i k = (d.lookup k).filter fun e => !e.expired now := by
  rw [liveEntry, find, hd]
  rfl

theorem liveEntry_eq_some {now : UInt64} {dbs : Databases} {i : ℕ} {k : Bytes} {e : Entry} :
    dbs.liveEntry now i k = some e ↔ ∃ d, dbs[i]? = some d ∧ (k, e) ∈ live now d := by
  constructor
  · intro h
    obtain ⟨hfind, hexp⟩ := Option.filter_eq_some_iff.mp h
    obtain ⟨d, hd, hl⟩ := Option.bind_eq_some_iff.mp hfind
    exact ⟨d, hd, mem_live.mpr ⟨hl, by simpa using hexp⟩⟩
  · rintro ⟨d, hd, hp⟩
    obtain ⟨hl, hexp⟩ := mem_live.mp hp
    rw [liveEntry_eq hd, hl, Option.filter_some, hexp]
    rfl

theorem liveEntry_eq_none_of_le {now : UInt64} {dbs : Databases} {i : ℕ} (hi : dbs.length ≤ i)
    (k : Bytes) : dbs.liveEntry now i k = none := by
  rw [liveEntry, find, List.getElem?_eq_none hi]
  rfl

/-- What is not live does not become live with the time. -/
theorem liveEntry_mono {now t : UInt64} (h : now ≤ t) {dbs : Databases} {i : ℕ} {k : Bytes}
    (hnone : dbs.liveEntry now i k = none) : dbs.liveEntry t i k = none := by
  rw [liveEntry] at hnone ⊢
  cases hf : dbs.find i k with
  | none => rfl
  | some e =>
    rw [hf] at hnone
    have hexp : e.expired now = true := by
      by_contra hlive
      simp [Option.filter_some, hlive] at hnone
    rw [Option.filter_some, Entry.expired_mono h hexp]
    rfl

/-- The number of live entries, over all databases. -/
def liveCount (now : UInt64) (dbs : Databases) : ℕ := (dbs.map fun d => (live now d).length).sum

/-- `Store::iterate_db`. -/
def iterateDb (now : UInt64) (dbs : Databases) (i : ℕ) :
    Except VeloDBError (List (Bytes × Entry)) := do
  let d ← dbs.db i
  pure (live now d)

/-- `Store::expires_count`. -/
def expiresCount (now : UInt64) (dbs : Databases) (i : ℕ) : Except VeloDBError ℕ := do
  let d ← dbs.db i
  pure ((live now d).filter fun p => p.2.expireAt.isSome).length

/-- `Store::random_key`. -/
def randomKey (now : UInt64) (nanos : ℕ) (dbs : Databases) (i : ℕ) :
    Except VeloDBError (Option Bytes) := do
  let d ← dbs.db i
  let keys := (live now d).map Prod.fst
  pure keys[nanos % keys.length]?

end Databases

/-- One turn of the loop of `simple_match`, on byte positions. The position of the last `*` and
where its match began are remembered for backtracking. -/
def simpleMatchStep (s p : Bytes) :
    ℕ × ℕ × Option ℕ × ℕ → Option (ℕ × ℕ × Option ℕ × ℕ)
  | (si, pi, star, matchIdx) =>
    if pi < p.length ∧ (p[pi]? = some 63 ∨ p[pi]? = s[si]?) then some (si + 1, pi + 1, star, matchIdx)
    else if pi < p.length ∧ p[pi]? = some 42 then some (si, pi + 1, some pi, si)
    else match star with
      | some idx => some (matchIdx + 1, idx + 1, star, matchIdx + 1)
      | none => none

/-- The loop of `simple_match`. Every backtracking step moves `match_idx` forward, so
`(|s| + 1) * (|p| + 2)` turns are enough. -/
def simpleMatchLoop (s p : Bytes) : ℕ → ℕ × ℕ × Option ℕ × ℕ → Bool
  | 0, _ => false
  | fuel + 1, st =>
    if st.1 < s.length then
      match simpleMatchStep s p st with
      | some st' => simpleMatchLoop s p fuel st'
      | none => false
    else (p.drop st.2.1).all fun b => b == 42

/-- `simple_match`. -/
def simpleMatch (s p : String) : Bool :=
  simpleMatchLoop (asBytes s) (asBytes p)
    (((asBytes s).length + 1) * ((asBytes p).length + 2) + 1) (0, 0, none, 0)

/-- `Store::keys`. -/
def Databases.keys (now : UInt64) (dbs : Databases) (i : ℕ) (pattern : String) :
    Except VeloDBError (List Bytes) := do
  let d ← dbs.db i
  pure (((live now d).filter fun p => simpleMatch (fromUtf8Lossy p.1) pattern).map Prod.fst)

/-! ### Writing -/

namespace Keyspace

/-- `Store::set`. The key and its version are kept when they are there, expired or not. -/
def set (i : ℕ) (k v : Bytes) (expireMs : Option UInt64) : KeyM Unit := do
  let d ← read fun dbs => dbs.db i
  let e := (d.lookup k).getD { value := .string [] }
  put i k { value := .string v, expireAt := expireMs, version := e.version + 1 }

/-- `Store::del`. -/
def del (i : ℕ) (k : Bytes) : KeyM Bool := do
  let d ← read fun dbs => dbs.db i
  remove i k
  pure (d.lookup k).isSome

/-- Change the expiry of a key that is there, expired or not. -/
def changeExpire (i : ℕ) (k : Bytes) (at_ : Option UInt64) : KeyM Bool := do
  let d ← read fun dbs => dbs.db i
  match d.lookup k with
  | some e =>
    put i k { e with expireAt := at_ }
    pure true
  | none => pure false

/-- `Store::set_expire`. -/
def setExpire (i : ℕ) (k : Bytes) (atMs : UInt64) : KeyM Bool := changeExpire i k (some atMs)

/-- `Store::remove_expire`. -/
def removeExpire (i : ℕ) (k : Bytes) : KeyM Bool := changeExpire i k none

/-- `Store::rename`. -/
def rename (i : ℕ) (old new : Bytes) : KeyM Unit := do
  let d ← read fun dbs => dbs.db i
  match d.lookup old with
  | some e =>
    remove i old
    put i new e
  | none => throw .keyNotFound

/-- `Store::dbsize`: counts the live keys and removes the expired ones. -/
def dbsize (now : UInt64) (i : ℕ) : KeyM ℕ := do
  let d ← read fun dbs => dbs.db i
  Proc.each (d.pairs.filter fun p => p.2.expired now) fun p => remove i p.1
  pure (Databases.live now d).length

/-- `Store::flushdb`. -/
def flushdb (i : ℕ) : KeyM Unit := do
  let _ ← read fun dbs => dbs.db i
  Proc.modify fun ks => { ks with databases := ks.databases.clear i }

/-- `Store::flushall`. -/
def flushall : KeyM Unit :=
  Proc.modify fun ks => { ks with databases := ks.databases.map fun _ => ∅ }

/-- `Store::set_with_entry`. -/
def setWithEntry (i : ℕ) (k : Bytes) (v : StorageValue) (expireMs : Option UInt64) : KeyM Unit := do
  let d ← read fun dbs => dbs.db i
  match d.lookup k with
  | some e => put i k { value := v, expireAt := expireMs, version := e.version + 1 }
  | none => put i k { value := v, expireAt := expireMs, version := 0 }

end Keyspace

end VeloDB
