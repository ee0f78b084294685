import VeloDB.Lib.Framing
import VeloDB.Persist.RdbRoundTrip

/-!
# How far the loader gets

The reader of a snapshot indexes the file without asking whether the bytes are there, so a file that
stops inside a field panics. Every field is a language: lengths and counts choose what has to follow
them. `Body` describes, in these languages and without running the loader, the bodies that are read
to an end: how many of their entries are stored, and whether the end is an error.

## Main results

* `loadLoop_of_body`, `body_of_loadLoop` — `Body` is what the loader reads without a panic
* `loadRdb_returns_iff` — the files that `load_rdb` returns from
* `failsClean_iff` — the files whose failure leaves the store alone
-/

namespace VeloDB

open Rust Cursor

/-! ### The fields -/

/-- A length and that many bytes. -/
def bytesField : Language UInt8 := counted block

/-- A field and its value. -/
def pairField : Language UInt8 := bytesField * bytesField

/-- A count and that many pairs. -/
def pairsField : Language UInt8 := counted (pairField ^ ·)

/-- One entry of a stream. -/
def streamEntryField : Language UInt8 := block 8 * (block 8 * pairsField)

/-- What a value of this type is written as. -/
def valueField (typeByte : UInt8) : Language UInt8 :=
  if typeByte = typeString then bytesField
  else if typeByte = typeList ∨ typeByte = typeSet then counted (bytesField ^ ·)
  else if typeByte = typeHash then pairsField
  else if typeByte = typeZset then counted ((block 8 * bytesField) ^ ·)
  else if typeByte = typeStream then
    counted fun n => block 8 * (block 8 * streamEntryField ^ n)
  else counted ((bytesField * pairsField) ^ ·)

/-- A reader that fails only by running out of the file. -/
abbrev RdbFrames {α : Type} (c : RdbM α) (L : Language UInt8) : Prop := Frames LoadError.panic c L

theorem frames_counted {α : Type} {f : ℕ → RdbM α} {K : ℕ → Language UInt8}
    (hf : ∀ n, RdbFrames (f n) (K n)) : RdbFrames (readU32Be >>= f) (counted K) := by
  have hnum : RdbFrames readU32Be (block 4) := (frames_takeN 4).map _
  refine hnum.bind fun x hx n hn => ?_
  have hread : Reads readU32Be x (ofLeBytes x.reverse) :=
    (reads_takeN LoadError.panic hx).map fun b => ofLeBytes b.reverse
  have heq : n = ofLeBytes x.reverse :=
    congrArg Prod.fst (Except.ok.inj ((hn []).symm.trans (hread [])))
  rw [heq]
  exact hf _

theorem frames_u64Le : RdbFrames readU64Le (block 8) := (frames_takeN 8).map _

theorem frames_f64Le : RdbFrames readF64Le (block 8) := frames_u64Le.map _

theorem frames_bytesLen : RdbFrames readBytesLen bytesField :=
  frames_counted fun n => frames_takeN n

theorem frames_pair : RdbFrames readPair pairField :=
  frames_bytesLen.seq fun _ => frames_bytesLen.map _

theorem frames_hash : RdbFrames readHash pairsField :=
  frames_counted fun n => frames_loopN (fun _ => frames_pair.map _) n _

theorem frames_streamEntry : RdbFrames readStreamEntry streamEntryField :=
  frames_u64Le.seq fun _ => frames_u64Le.seq fun _ =>
    frames_counted fun n => (frames_loopN (fun _ => frames_pair.map _) n _).map _

/-- **Every kind of value.** -/
theorem frames_decodeValue {t : UInt8} (ht : t ≤ typeNh) :
    RdbFrames (decodeValue t) (valueField t) := by
  rw [decodeValue, valueField]
  by_cases hstring : t = typeString
  · rw [if_pos hstring, if_pos hstring]
    exact frames_bytesLen.map _
  rw [if_neg hstring, if_neg hstring]
  by_cases hlist : t = typeList
  · rw [if_pos hlist, if_pos (Or.inl hlist)]
    exact frames_counted fun n => (frames_loopN (fun _ => frames_bytesLen.map _) n _).map _
  rw [if_neg hlist]
  by_cases hset : t = typeSet
  · rw [if_pos hset, if_pos (Or.inr hset)]
    exact frames_counted fun n => (frames_loopN (fun _ => frames_bytesLen.map _) n _).map _
  rw [if_neg hset, if_neg (not_or.mpr ⟨hlist, hset⟩)]
  by_cases hhash : t = typeHash
  · rw [if_pos hhash, if_pos hhash]
    exact frames_hash.map _
  rw [if_neg hhash, if_neg hhash]
  by_cases hzset : t = typeZset
  · rw [if_pos hzset, if_pos hzset]
    exact frames_counted fun n => (frames_loopN (fun _ =>
      frames_f64Le.seq fun _ => frames_bytesLen.map _) n _).map _
  rw [if_neg hzset, if_neg hzset]
  by_cases hstream : t = typeStream
  · rw [if_pos hstream, if_pos hstream]
    exact frames_counted fun n => frames_u64Le.seq fun _ => frames_u64Le.seq fun _ =>
      (frames_loopN (fun _ => frames_streamEntry.map _) n _).map _
  rw [if_neg hstream, if_neg hstream]
  by_cases hnh : t = typeNh
  · rw [if_pos hnh]
    exact frames_counted fun n => (frames_loopN (fun _ =>
      frames_bytesLen.seq fun _ => frames_hash.map _) n _).map _
  · have hle : t.toNat ≤ 6 := ht
    have hne : t.toNat ≠ 0 ∧ t.toNat ≠ 1 ∧ t.toNat ≠ 2 ∧ t.toNat ≠ 3 ∧ t.toNat ≠ 4 ∧ t.toNat ≠ 5 ∧
        t.toNat ≠ 6 :=
      ⟨fun h => hstring (UInt8.toNat_inj.mp h), fun h => hlist (UInt8.toNat_inj.mp h),
        fun h => hset (UInt8.toNat_inj.mp h), fun h => hhash (UInt8.toNat_inj.mp h),
        fun h => hzset (UInt8.toNat_inj.mp h), fun h => hstream (UInt8.toNat_inj.mp h),
        fun h => hnh (UInt8.toNat_inj.mp h)⟩
    omega

/-! ### The bodies that are read to an end -/

/-- The expiry in front of an entry that has one. -/
def expiryField : Language UInt8 := {x : Bytes | x = [] ∨ ∃ at_ ∈ block 8, x = expireTime :: at_}

/-- An entry with this key field. -/
def entryField (key : Bytes) : Language UInt8 :=
  {x : Bytes | ∃ e ∈ expiryField, ∃ t ≤ typeNh, ∃ v ∈ valueField t, x = e ++ t :: (key ++ v)}

/-- The bodies that a loader with `n` databases reads to an end when it starts at a database: how
many entries it stores, and whether the end is an error. -/
inductive Body (n : ℕ) : ℕ → Bytes → ℕ → Bool → Prop
  | done {db : ℕ} : Body n db [] 0 false
  /-- An expiry that the file ends with. -/
  | expiry {db : ℕ} {at_ : Bytes} : at_ ∈ block 8 → Body n db (expireTime :: at_) 0 false
  | select {db stored : ℕ} {i : UInt8} {rest : Bytes} {failed : Bool} :
      Body n i.toNat rest stored failed → Body n db (dbSelect :: i :: rest) stored failed
  | close {db stored : ℕ} {rest : Bytes} {failed : Bool} :
      Body n db rest stored failed → Body n db (dbEnd :: rest) stored failed
  /-- An entry whose key field is only a length is dropped. -/
  | dropped {db stored : ℕ} {key x rest : Bytes} {failed : Bool} : key ∈ bytesField →
      key.length = 4 → x ∈ entryField key → Body n db rest stored failed →
        Body n db (x ++ rest) stored failed
  | stored {db stored : ℕ} {key x rest : Bytes} {failed : Bool} : key ∈ bytesField →
      key.length ≠ 4 → x ∈ entryField key → db < n → Body n db rest stored failed →
        Body n db (x ++ rest) (stored + 1) failed
  /-- An entry for a database that is not there. -/
  | refused {db : ℕ} {key x rest : Bytes} : key ∈ bytesField → key.length ≠ 4 →
      x ∈ entryField key → n ≤ db → Body n db (x ++ rest) 0 true
  | unknownOpcode {db : ℕ} {op : UInt8} {rest : Bytes} : typeNh < op → op ≠ dbSelect →
      op ≠ dbEnd → op ≠ expireTime → Body n db (op :: rest) 0 true
  /-- A type byte behind an expiry is looked at once the key has been read. -/
  | unknownType {db : ℕ} {at_ key rest : Bytes} {t : UInt8} : at_ ∈ block 8 → typeNh < t →
      key ∈ bytesField → Body n db (expireTime :: (at_ ++ t :: (key ++ rest))) 0 true

/-! ### One entry -/

/-- Reading a key field gives an empty key when the field is only a length. -/
theorem reads_key {key : Bytes} (h : key ∈ bytesField) :
    ∃ k, Reads readBytesLen key k ∧ (k = [] ↔ key.length = 4) := by
  obtain ⟨b, hb, y, hy, rfl⟩ := h
  have hnum : Reads readU32Be b (ofLeBytes b.reverse) :=
    (reads_takeN LoadError.panic hb).map fun b => ofLeBytes b.reverse
  refine ⟨y, hnum.bind (reads_takeN LoadError.panic hy), ?_⟩
  have hlen : b.length = 4 := hb
  rw [List.length_append, ← List.length_eq_zero_iff]
  omega

theorem decodeEntry_cons (t : UInt8) (r : Bytes) :
    decodeEntry (t :: r) = (readBytesLen >>= fun key => decodeValue t >>= fun value =>
      pure (key, value) : RdbM (Bytes × StorageValue)) r := rfl

/-- An entry leads to the store. -/
theorem loadStep_entryField {key x : Bytes} (hkey : key ∈ bytesField) (hx : x ∈ entryField key) :
    ∃ kv expireAt, (kv.1 = [] ↔ key.length = 4) ∧ ∀ (st : LoadState) (rest : Bytes),
      loadStep st (x ++ rest) = st.store kv expireAt >>= fun st => .ok (st, rest) := by
  obtain ⟨e, he, t, ht, v, hv, rfl⟩ := hx
  obtain ⟨k, hk, hnil⟩ := reads_key hkey
  obtain ⟨value, hvalue⟩ := (frames_decodeValue ht).reads v hv
  have hread : ∀ rest, decodeEntry (t :: (key ++ v) ++ rest) = .ok ((k, value), rest) := by
    intro rest
    rw [List.cons_append, decodeEntry_cons]
    exact hk.bind (hvalue.map fun value => (k, value)) rest
  rcases he with rfl | ⟨at_, hat, rfl⟩
  · refine ⟨(k, value), none, hnil, fun st rest => ?_⟩
    rw [List.nil_append, List.cons_append, loadStep_entry st ht, ← List.cons_append, hread rest]
    rfl
  · obtain ⟨a, ha⟩ := frames_u64Le.reads at_ hat
    refine ⟨(k, value), some a, hnil, fun st rest => ?_⟩
    rw [List.cons_append, List.cons_append, loadStep_expire, List.append_assoc, ha _]
    show (decodeEntry (t :: (key ++ v) ++ rest) >>= fun q =>
      st.store q.1 (some a) >>= fun st => Except.ok (st, q.2)) = _
    rw [hread rest]
    rfl

/-- What stands behind a type byte: a whole entry, or the loader panics. -/
theorem entry_or_panic {t : UInt8} (ht : t ≤ typeNh) (r : Bytes) :
    (∃ key ∈ bytesField, ∃ v ∈ valueField t, ∃ rest, r = key ++ v ++ rest) ∨
      decodeEntry (t :: r) = .error .panic := by
  have hframes : RdbFrames (readBytesLen >>= fun key => decodeValue t >>= fun value =>
      pure (key, value)) (bytesField * valueField t) :=
    frames_bytesLen.seq fun _ => (frames_decodeValue ht).map _
  rcases hframes.cases r with ⟨x, ⟨key, hkey, v, hv, rfl⟩, _, rest, rfl, -⟩ | hpanic
  · exact Or.inl ⟨key, hkey, v, hv, rest, rfl⟩
  · exact Or.inr hpanic

theorem decodeValue_unknown {t : UInt8} (ht : typeNh < t) :
    decodeValue t = throw (.invalidData ("Unknown type byte: " ++ toString t.toNat)) := by
  have hne : ∀ t' ≤ typeNh, t ≠ t' := by
    rintro t' ht' rfl
    exact absurd ht (UInt8.not_lt.mpr ht')
  rw [decodeValue, if_neg (hne _ (by decide)), if_neg (hne _ (by decide)),
    if_neg (hne _ (by decide)), if_neg (hne _ (by decide)), if_neg (hne _ (by decide)),
    if_neg (hne _ (by decide)), if_neg (hne _ (by decide))]

theorem decodeEntry_unknown {t : UInt8} (ht : typeNh < t) {key : Bytes} (hkey : key ∈ bytesField)
    (rest : Bytes) : decodeEntry (t :: (key ++ rest))
      = .error (.invalidData ("Unknown type byte: " ++ toString t.toNat)) := by
  obtain ⟨k, hk, -⟩ := reads_key hkey
  rw [decodeEntry_cons, decodeValue_unknown ht]
  show (readBytesLen (key ++ rest) >>= fun p => _) = _
  rw [hk rest]
  rfl

/-- Behind a byte that is no type, a key, or the loader panics. -/
theorem key_or_panic {t : UInt8} (ht : typeNh < t) (r : Bytes) :
    (∃ key ∈ bytesField, ∃ rest, r = key ++ rest) ∨ decodeEntry (t :: r) = .error .panic := by
  rcases frames_bytesLen.cases r with ⟨key, hkey, k, rest, rfl, hk⟩ | hpanic
  · exact Or.inl ⟨key, hkey, rest, rfl⟩
  · refine Or.inr ?_
    rw [decodeEntry_cons, decodeValue_unknown ht]
    show (readBytesLen r >>= fun p => _) = _
    rw [hpanic]
    rfl

/-! ### The store under the loader -/

/-- No entry goes away, and no version goes down. -/
def Ages (before after : Databases) : Prop :=
  ∀ i k e, before.find i k = some e → ∃ e', after.find i k = some e' ∧ e.version ≤ e'.version

theorem Ages.refl (dbs : Databases) : Ages dbs dbs := fun _ _ e he => ⟨e, he, le_rfl⟩

theorem Ages.trans {a b c : Databases} (h : Ages a b) (h' : Ages b c) : Ages a c := by
  intro i k e he
  obtain ⟨e', he', hle⟩ := h i k e he
  obtain ⟨e'', he'', hle'⟩ := h' i k e' he'
  exact ⟨e'', he'', hle.trans hle'⟩

/-- An entry newer than the one it replaces. -/
def Newer (dbs : Databases) (i : ℕ) (k : Bytes) (e : Entry) : Prop :=
  ∀ old, dbs.find i k = some old → old.version < e.version

theorem Newer.ages {dbs : Databases} {i : ℕ} {k : Bytes} {e : Entry} (h : Newer dbs i k e)
    (hi : i < dbs.length) : Ages dbs (dbs.put i k e) := by
  intro j k' old hold
  by_cases hjk : j = i ∧ k' = k
  · obtain ⟨rfl, rfl⟩ := hjk
    exact ⟨e, Databases.find_put_self hi, (h old hold).le⟩
  · exact ⟨old, (Databases.find_put_of_ne (not_and_or.mp hjk)).trans hold, le_rfl⟩

/-- What happens after a store cannot hide it. -/
theorem Newer.ne {dbs after : Databases} {i : ℕ} {k : Bytes} {e : Entry} (h : Newer dbs i k e)
    (hi : i < dbs.length) (hafter : Ages (dbs.put i k e) after) : after ≠ dbs := by
  rintro rfl
  obtain ⟨e', he', hle⟩ := hafter i k e (Databases.find_put_self hi)
  exact absurd (h e' he') (Nat.not_lt.mpr hle)

theorem store_dropped {st : LoadState} {kv : Bytes × StorageValue} (hkey : kv.1 = [])
    (expireAt : Option UInt64) : st.store kv expireAt = .ok st := by
  rw [LoadState.store, if_pos hkey]

theorem store_stored {st : LoadState} {kv : Bytes × StorageValue} (hkey : kv.1 ≠ [])
    (hdb : st.currentDb < st.databases.length) (expireAt : Option UInt64) :
    ∃ e, Newer st.databases st.currentDb kv.1 e ∧ st.store kv expireAt = .ok { st with
      databases := st.databases.put st.currentDb kv.1 e, count := st.count + 1 } := by
  refine ⟨_, fun old hold => ?_, store_of_lt hkey hdb expireAt⟩
  rw [hold]
  exact Nat.lt_succ_self _

theorem store_refused {st : LoadState} {kv : Bytes × StorageValue} (hkey : kv.1 ≠ [])
    (hdb : st.databases.length ≤ st.currentDb) (expireAt : Option UInt64) :
    ∃ e, st.store kv expireAt = .error (.store e) := by
  have hrun : Keyspace.setWithEntry st.currentDb kv.1 kv.2 expireAt
      { databases := st.databases } = (.error (.error (.internal _)), { databases := _ }) :=
    Proc.bind_error (by rw [Keyspace.read, Databases.db, List.getElem?_eq_none hdb]; rfl)
  rw [LoadState.store, if_neg hkey, hrun]
  exact ⟨_, rfl⟩

/-! ### The loop -/

/-- How the loader ends. -/
structure Ends (st : LoadState) (stored : ℕ) (failed : Bool)
    (r : Databases × Except LoadError ℕ) : Prop where
  /-- With the count of what has been stored. -/
  ok : failed = false → r.2 = .ok (st.count + stored)
  /-- With an error that `load_rdb` returns. -/
  error : failed = true → ∃ e, e ≠ .panic ∧ r.2 = .error e
  unchanged : stored = 0 → r.1 = st.databases
  changed : 0 < stored → r.1 ≠ st.databases
  ages : Ages st.databases r.1

/-- Over an opcode that changes neither the databases nor the count. -/
theorem Ends.of_eq {st st' : LoadState} {stored : ℕ} {failed : Bool}
    {r : Databases × Except LoadError ℕ} (h : Ends st' stored failed r)
    (hdbs : st'.databases = st.databases) (hcount : st'.count = st.count) :
    Ends st stored failed r where
  ok := hcount ▸ h.ok
  error := h.error
  unchanged := hdbs ▸ h.unchanged
  changed := hdbs ▸ h.changed
  ages := hdbs ▸ h.ages

theorem loadLoop_error {st : LoadState} {op : UInt8} {r : Bytes} {e : LoadError} {fuel : ℕ}
    (hfuel : (op :: r).length ≤ fuel) (h : loadStep st (op :: r) = .error e) :
    loadLoop fuel st (op :: r) = (st.databases, .error e) := by
  obtain ⟨fuel, rfl⟩ : ∃ n, fuel = n + 1 :=
    ⟨fuel - 1, by rw [List.length_cons] at hfuel; omega⟩
  rw [loadLoop_cons, h]

theorem ends_error {st : LoadState} {op : UInt8} {r : Bytes} {e : LoadError} {fuel : ℕ}
    (hfuel : (op :: r).length ≤ fuel) (h : loadStep st (op :: r) = .error e) (he : e ≠ .panic) :
    Ends st 0 true (loadLoop fuel st (op :: r)) := by
  rw [loadLoop_error hfuel h]
  exact ⟨fun h => absurd h (by decide), fun _ => ⟨e, he, rfl⟩, fun _ => rfl,
    fun h => absurd h (Nat.lt_irrefl 0), Ages.refl _⟩

theorem entryField_head {key x : Bytes} (hx : x ∈ entryField key) : ∃ op r, x = op :: r := by
  obtain ⟨e, he, t, -, v, -, rfl⟩ := hx
  rcases he with rfl | ⟨at_, -, rfl⟩
  · exact ⟨t, _, rfl⟩
  · exact ⟨expireTime, _, rfl⟩

/-- Over an entry that is taken. -/
theorem loads_entryField {st st' : LoadState} {key x : Bytes} (hx : x ∈ entryField key)
    (h : ∀ rest, loadStep st (x ++ rest) = .ok (st', rest)) : Loads st x st' := by
  obtain ⟨op, r, rfl⟩ := entryField_head hx
  exact loads_step h

/-- **What the loader does with a body.** -/
theorem loadLoop_of_body {n db stored : ℕ} {r : Bytes} {failed : Bool}
    (h : Body n db r stored failed) {st : LoadState} (hn : st.databases.length = n)
    (hdb : st.currentDb = db) {fuel : ℕ} (hfuel : r.length ≤ fuel) :
    Ends st stored failed (loadLoop fuel st r) := by
  induction h generalizing st fuel with
  | done =>
    have hend : loadLoop fuel st [] = (st.databases, .ok st.count) := by cases fuel <;> rfl
    rw [hend]
    exact ⟨fun _ => rfl, fun h => absurd h (by decide), fun _ => rfl,
      fun h => absurd h (Nat.lt_irrefl 0), Ages.refl _⟩
  | @expiry _ at_ hat =>
    obtain ⟨a, ha⟩ := frames_u64Le.reads at_ hat
    have hstep : loadStep st (expireTime :: at_) = .ok (st, []) := by
      have hread := ha []
      rw [List.append_nil] at hread
      rw [loadStep_expire, hread]
      rfl
    obtain ⟨fuel, rfl⟩ : ∃ n, fuel = n + 1 :=
      ⟨fuel - 1, by rw [List.length_cons] at hfuel; omega⟩
    have hend : loadLoop fuel st [] = (st.databases, .ok st.count) := by cases fuel <;> rfl
    rw [loadLoop_cons, hstep]
    dsimp only
    rw [hend]
    exact ⟨fun _ => rfl, fun h => absurd h (by decide), fun _ => rfl,
      fun h => absurd h (Nat.lt_irrefl 0), Ages.refl _⟩
  | @select _ _ i rest _ _ ih =>
    have hloads : Loads st [dbSelect, i] { st with currentDb := i.toNat } :=
      loads_step fun _ => rfl
    obtain ⟨fuel', hle, heq⟩ := hloads fuel rest hfuel
    rw [show dbSelect :: i :: rest = [dbSelect, i] ++ rest from rfl, heq]
    exact (@ih { st with currentDb := i.toNat } hn rfl fuel' hle).of_eq rfl rfl
  | @close _ _ rest _ _ ih =>
    have hloads : Loads st [dbEnd] st := loads_step fun _ => rfl
    obtain ⟨fuel', hle, heq⟩ := hloads fuel rest hfuel
    rw [show dbEnd :: rest = [dbEnd] ++ rest from rfl, heq]
    exact ih hn hdb hle
  | @dropped _ _ key x rest _ hkey hlen hx _ ih =>
    obtain ⟨kv, expireAt, hnil, hstep⟩ := loadStep_entryField hkey hx
    have hloads : Loads st x st := loads_entryField hx fun rest => by
      rw [hstep, store_dropped (hnil.mpr hlen)]
      rfl
    obtain ⟨fuel', hle, heq⟩ := hloads fuel rest hfuel
    rw [heq]
    exact ih hn hdb hle
  | @stored _ stored' key x rest _ hkey hlen hx hlt _ ih =>
    obtain ⟨kv, expireAt, hnil, hstep⟩ := loadStep_entryField hkey hx
    have hdbn : st.currentDb < st.databases.length := by omega
    obtain ⟨e, hnewer, hstore⟩ := store_stored (fun h => hlen (hnil.mp h)) hdbn expireAt
    have hloads : Loads st x _ := loads_entryField hx fun rest => by
      rw [hstep, hstore]
      rfl
    obtain ⟨fuel', hle, heq⟩ := hloads fuel rest hfuel
    have hends := @ih { st with
      databases := st.databases.put st.currentDb kv.1 e, count := st.count + 1 }
      (Databases.length_put.trans hn) hdb fuel' hle
    rw [heq]
    refine ⟨fun hok => ?_, hends.error, fun h => absurd h (Nat.succ_ne_zero _),
      fun _ => hnewer.ne hdbn hends.ages, (hnewer.ages hdbn).trans hends.ages⟩
    have hcount : st.count + 1 + stored' = st.count + (stored' + 1) := by omega
    rw [hends.ok hok]
    exact congrArg Except.ok hcount
  | @refused _ key x rest hkey hlen hx hge =>
    obtain ⟨kv, expireAt, hnil, hstep⟩ := loadStep_entryField hkey hx
    have hdbn : st.databases.length ≤ st.currentDb := by omega
    obtain ⟨e, hstore⟩ := store_refused (fun h => hlen (hnil.mp h)) hdbn expireAt
    obtain ⟨op, r, rfl⟩ := entryField_head hx
    refine ends_error hfuel (e := .store e) ?_ (fun h => by cases h)
    show loadStep st (op :: r ++ rest) = _
    rw [hstep, hstore]
    rfl
  | @unknownOpcode _ op rest hop hselect hend hexpire =>
    refine ends_error hfuel (e := .invalidData ("Unknown RDB opcode: " ++ toString op.toNat)) ?_
      (fun h => by cases h)
    unfold loadStep
    dsimp only
    rw [if_neg hselect, if_neg hend, if_neg hexpire, if_neg (UInt8.not_le.mpr hop)]
  | @unknownType _ at_ key rest t hat ht hkey =>
    obtain ⟨a, ha⟩ := frames_u64Le.reads at_ hat
    refine ends_error hfuel (e := .invalidData ("Unknown type byte: " ++ toString t.toNat)) ?_
      (fun h => by cases h)
    rw [loadStep_expire, ha]
    show (decodeEntry (t :: (key ++ rest)) >>= fun q => _) = _
    rw [decodeEntry_unknown ht hkey]
    rfl

/-- Where an entry may begin, there is a whole one, or the file stops behind the expiry, or its type
is unknown, or the loader panics. -/
theorem opcode_or_panic (st : LoadState) {op : UInt8} (hop : op = expireTime ∨ op ≤ typeNh)
    (r : Bytes) :
    (∃ key ∈ bytesField, ∃ x ∈ entryField key, ∃ rest, op :: r = x ++ rest) ∨
      (op = expireTime ∧ r ∈ block 8) ∨
      (op = expireTime ∧ ∃ at_ ∈ block 8, ∃ t > typeNh, ∃ key ∈ bytesField, ∃ rest,
        r = at_ ++ t :: (key ++ rest)) ∨
      loadStep st (op :: r) = .error .panic := by
  rcases hop with rfl | hop
  · rcases frames_u64Le.cases r with ⟨at_, hat, a, rest, rfl, ha⟩ | hpanic
    · have hstep : decodeEntry rest = .error .panic →
          loadStep st (expireTime :: (at_ ++ rest)) = .error .panic := by
        intro h
        rw [loadStep_expire, ha]
        show (decodeEntry rest >>= fun q => _) = _
        rw [h]
        rfl
      rcases rest with _ | ⟨t, rest⟩
      · exact Or.inr (Or.inl ⟨rfl, by rwa [List.append_nil]⟩)
      · rcases UInt8.le_or_lt t typeNh with ht | ht
        · rcases entry_or_panic ht rest with ⟨key, hkey, v, hv, rest, rfl⟩ | hpanic
          · refine Or.inl ⟨key, hkey, expireTime :: at_ ++ t :: (key ++ v),
              ⟨_, Or.inr ⟨at_, hat, rfl⟩, t, ht, v, hv, rfl⟩, rest, ?_⟩
            simp
          · exact Or.inr (Or.inr (Or.inr (hstep hpanic)))
        · rcases key_or_panic ht rest with ⟨key, hkey, rest, rfl⟩ | hpanic
          · exact Or.inr (Or.inr (Or.inl ⟨rfl, at_, hat, t, ht, key, hkey, rest, rfl⟩))
          · exact Or.inr (Or.inr (Or.inr (hstep hpanic)))
    · refine Or.inr (Or.inr (Or.inr ?_))
      rw [loadStep_expire, hpanic]
      rfl
  · rcases entry_or_panic hop r with ⟨key, hkey, v, hv, rest, rfl⟩ | hpanic
    · refine Or.inl ⟨key, hkey, op :: (key ++ v), ⟨[], Or.inl rfl, op, hop, v, hv, rfl⟩, rest, ?_⟩
      rw [List.cons_append]
    · refine Or.inr (Or.inr (Or.inr ?_))
      rw [loadStep_entry st hop, hpanic]
      rfl

/-- **What the loader reads without a panic is a body.** -/
theorem body_of_loadLoop (fuel : ℕ) (st : LoadState) (r : Bytes) (hfuel : r.length ≤ fuel)
    (h : (loadLoop fuel st r).2 ≠ .error .panic) :
    ∃ stored failed, Body st.databases.length st.currentDb r stored failed := by
  induction fuel generalizing st r with
  | zero =>
    obtain rfl := List.length_eq_zero_iff.mp (Nat.le_zero.mp hfuel)
    exact ⟨0, false, .done⟩
  | succ fuel ih =>
    rcases r with _ | ⟨op, r⟩
    · exact ⟨0, false, .done⟩
    have hpanic : loadStep st (op :: r) ≠ .error .panic := by
      intro hstep
      rw [loadLoop_cons, hstep] at h
      exact h rfl
    have hrest : ∀ st' rest, loadStep st (op :: r) = .ok (st', rest) → rest.length ≤ r.length →
        ∃ stored failed, Body st'.databases.length st'.currentDb rest stored failed := by
      intro st' rest hstep hle
      rw [loadLoop_cons, hstep] at h
      rw [List.length_cons] at hfuel
      exact ih st' rest (by omega) h
    by_cases hselect : op = dbSelect
    · subst hselect
      rcases r with _ | ⟨i, rest⟩
      · exact absurd rfl hpanic
      obtain ⟨stored, failed, hbody⟩ := hrest _ rest rfl (Nat.le_succ _)
      exact ⟨stored, failed, .select hbody⟩
    by_cases hend : op = dbEnd
    · subst hend
      obtain ⟨stored, failed, hbody⟩ := hrest _ r rfl le_rfl
      exact ⟨stored, failed, .close hbody⟩
    by_cases hop : op = expireTime ∨ op ≤ typeNh
    · rcases opcode_or_panic st hop r with ⟨key, hkey, x, hx, rest, heq⟩ | ⟨rfl, hat⟩ |
        ⟨rfl, at_, hat, t, ht, key, hkey, rest, rfl⟩ | hstep
      · obtain ⟨kv, expireAt, hnil, hstep⟩ := loadStep_entryField hkey hx
        have hle : rest.length ≤ r.length := by
          obtain ⟨op', r', rfl⟩ := entryField_head hx
          have hlen := congrArg List.length heq
          rw [List.length_append, List.length_cons, List.length_cons] at hlen
          omega
        rw [heq] at hrest ⊢
        by_cases hlen : key.length = 4
        · obtain ⟨stored, failed, hbody⟩ := hrest st rest
            (by rw [hstep, store_dropped (hnil.mpr hlen)]; rfl) hle
          exact ⟨stored, failed, .dropped hkey hlen hx hbody⟩
        · rcases Nat.lt_or_ge st.currentDb st.databases.length with hlt | hge
          · obtain ⟨e, -, hstore⟩ := store_stored (fun h => hlen (hnil.mp h)) hlt expireAt
            obtain ⟨stored, failed, hbody⟩ := hrest _ rest (by rw [hstep, hstore]; rfl) hle
            rw [Databases.length_put] at hbody
            exact ⟨stored + 1, failed, .stored hkey hlen hx hlt hbody⟩
          · exact ⟨0, true, .refused hkey hlen hx hge⟩
      · exact ⟨0, false, .expiry hat⟩
      · exact ⟨0, true, .unknownType hat ht hkey⟩
      · exact absurd hstep hpanic
    · obtain ⟨hexpire, hop⟩ := not_or.mp hop
      exact ⟨0, true, .unknownOpcode (UInt8.not_le.mp hop) hselect hend hexpire⟩

/-! ### The file -/

/-- A file that is refused before its body is read. -/
def Refused (data : Bytes) : Prop :=
  data.length < 16 ∨ data.take 4 ≠ asBytes "VELO" ∨
    UInt64.ofNat (ofLeBytes ((data.drop 8).take 8)) ≠ 0 ∧
      UInt64.ofNat (ofLeBytes ((data.drop 8).take 8)) ≠ crc64 (data.drop 16)

theorem loadRdb_of_refused {data : Bytes} (h : Refused data) (dbs : Databases) :
    ∃ e, e ≠ .panic ∧ loadRdb dbs data = (dbs, .error e) := by
  rw [loadRdb]
  by_cases hshort : data.length < 16
  · exact ⟨.invalidData _, (fun h => by cases h), if_pos hshort⟩
  rw [if_neg hshort]
  by_cases hmagic : data.take 4 ≠ asBytes "VELO"
  · exact ⟨.invalidData _, (fun h => by cases h), if_pos hmagic⟩
  rw [if_neg hmagic]
  have hcrc := (h.resolve_left hshort).resolve_left hmagic
  exact ⟨.invalidData _, (fun h => by cases h), if_pos hcrc⟩

theorem loadRdb_of_not_refused {data : Bytes} (h : ¬Refused data) (dbs : Databases) :
    loadRdb dbs data = loadLoop data.length { databases := dbs } (data.drop 16) := by
  obtain ⟨hshort, hmagic⟩ := not_or.mp h
  obtain ⟨hmagic, hcrc⟩ := not_or.mp hmagic
  rw [loadRdb, if_neg hshort, if_neg hmagic]
  exact if_neg hcrc

/-- `load_rdb` returns, with a value or with an error. -/
def LoadReturns (dbs : Databases) (data : Bytes) : Prop := (loadRdb dbs data).2 ≠ .error .panic

/-- The files whose load does not panic, in terms of their bytes. -/
theorem loadReturns_iff (dbs : Databases) (data : Bytes) :
    LoadReturns dbs data ↔
      Refused data ∨ ∃ stored failed, Body dbs.length 0 (data.drop 16) stored failed := by
  by_cases hrefused : Refused data
  · obtain ⟨e, he, hload⟩ := loadRdb_of_refused hrefused dbs
    refine iff_of_true ?_ (Or.inl hrefused)
    rw [LoadReturns, hload]
    exact fun h => he (Except.error.inj h)
  have hfuel : (data.drop 16).length ≤ data.length := by
    rw [List.length_drop]
    omega
  rw [LoadReturns, loadRdb_of_not_refused hrefused]
  constructor
  · exact fun h => Or.inr (body_of_loadLoop _ { databases := dbs } _ hfuel h)
  · rintro (h | ⟨stored, failed, hbody⟩)
    · exact absurd h hrefused
    · have hends : Ends { databases := dbs } stored failed _ := loadLoop_of_body hbody rfl rfl hfuel
      intro hpanic
      cases failed with
      | false =>
        have hok := hends.ok rfl
        rw [hpanic] at hok
        cases hok
      | true =>
        obtain ⟨e, he, herror⟩ := hends.error rfl
        rw [hpanic] at herror
        exact he (Except.error.inj herror).symm

/-- **`load_rdb` returns exactly from the files that it refuses before the body, and from those
whose body ends where a field ends or is refused between two fields.** -/
theorem loadRdb_returns_iff (dbs : Databases) (data : Bytes) :
    LoadReturns dbs data ↔
      Refused data ∨ ∃ stored failed, Body dbs.length 0 (data.drop 16) stored failed :=
  loadReturns_iff dbs data

/-- **A file can stop inside a field**: sixteen bytes of header without a checksum, and a type byte
with no key behind it. -/
theorem loadRdb_panics : ¬LoadReturns (Store.new 1).databases
    (rdbHeader ++ [0, 0, 0, 0, 0, 0, 0, 0] ++ [typeString]) :=
  not_not_intro rfl

/-- An error of `load_rdb` leaves the databases as they were, versions included. -/
def FailsClean (dbs : Databases) (data : Bytes) : Prop :=
  ∀ e, e ≠ .panic → (loadRdb dbs data).2 = .error e → (loadRdb dbs data).1 = dbs

/-- **A failed load leaves the store as it was exactly when the file is refused before its body, or
no entry has been stored when the error is met.** -/
theorem failsClean_iff (dbs : Databases) (data : Bytes) :
    FailsClean dbs data ↔
      Refused data ∨ ∀ stored, Body dbs.length 0 (data.drop 16) stored true → stored = 0 := by
  by_cases hrefused : Refused data
  · obtain ⟨e, -, hload⟩ := loadRdb_of_refused hrefused dbs
    refine iff_of_true (fun _ _ _ => ?_) (Or.inl hrefused)
    rw [hload]
  have hfuel : (data.drop 16).length ≤ data.length := by
    rw [List.length_drop]
    omega
  have hends : ∀ {stored failed}, Body dbs.length 0 (data.drop 16) stored failed →
      Ends { databases := dbs } stored failed
        (loadLoop data.length { databases := dbs } (data.drop 16)) :=
    fun hbody => loadLoop_of_body hbody rfl rfl hfuel
  rw [FailsClean, loadRdb_of_not_refused hrefused]
  constructor
  · intro h
    refine Or.inr fun stored hbody => ?_
    obtain ⟨e, he, herror⟩ := (hends hbody).error rfl
    by_contra hstored
    exact (hends hbody).changed (Nat.pos_of_ne_zero hstored) (h e he herror)
  · rintro (h | h) e he herror
    · exact absurd h hrefused
    · obtain ⟨stored, failed, hbody⟩ := body_of_loadLoop _ { databases := dbs } _ hfuel
        (by rw [herror]; exact fun h => he (Except.error.inj h))
      cases failed with
      | false =>
        have hok := (hends hbody).ok rfl
        rw [herror] at hok
        cases hok
      | true => exact (hends hbody).unchanged (h stored hbody)

/-- **What stands before the error stays**: a string under `k`, and an opcode that there is none
of. -/
theorem loadRdb_keeps_prefix : ¬FailsClean (Store.new 1).databases
    (rdbHeader ++ [0, 0, 0, 0, 0, 0, 0, 0] ++
      (encodeEntry (asBytes "k") (.string (asBytes "v")) ++ [7])) := by
  intro h
  have hsame := h (.invalidData "Unknown RDB opcode: 7") (fun h => by cases h) rfl
  have hfind := congrArg (fun dbs => (Databases.find dbs 0 (asBytes "k")).isSome) hsame
  exact absurd hfind (by decide)

end VeloDB
