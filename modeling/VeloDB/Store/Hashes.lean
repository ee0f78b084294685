import VeloDB.Store.Containers

/-!
# Hashes and nested hashes

The methods of the store on hashes, and on hashes of hashes.
-/

namespace VeloDB

open Rust

/-- `i64::from_str` after `from_utf8_lossy`. -/
def parseI64 (b : Bytes) : Option Int64 :=
  (parseSigned (2 ^ 63) (2 ^ 63 - 1) (fromUtf8Lossy b)).map Int64.ofInt

/-- `to_string().into_bytes()`. -/
def i64Bytes (x : Int64) : Bytes := asBytes (toString x.toInt)

/-- `i64::checked_add`. -/
def checkedAdd (a b : Int64) : Option Int64 :=
  if -2 ^ 63 ≤ a.toInt + b.toInt ∧ a.toInt + b.toInt < 2 ^ 63 then some (a + b) else none

theorem checkedAdd_zero (b : Int64) : checkedAdd 0 b = some (0 + b) := by
  have hlow := b.le_toInt
  have hhigh := b.toInt_lt
  refine if_pos ?_
  rw [Int64.toInt_zero]
  omega

theorem toInt_of_checkedAdd {a b c : Int64} (h : checkedAdd a b = some c) :
    c.toInt = a.toInt + b.toInt := by
  rw [checkedAdd] at h
  split at h
  · next hrange =>
    obtain rfl := Option.some.inj h
    rw [Int64.toInt_add]
    exact Int.bmod_eq_of_le (by omega) (by omega)
  · cases h

/-- A printed number is read as itself. -/
theorem parseI64_i64Bytes (x : Int64) : parseI64 (i64Bytes x) = some x := by
  have hlow := x.le_toInt
  have hhigh := x.toInt_lt
  rw [parseI64, i64Bytes, fromUtf8Lossy_asBytes, parseSigned_toString (by omega) (by omega),
    Option.map_some, Int64.ofInt_toInt]

namespace Databases

/-- `Store::hget`. -/
def hget (now : UInt64) (dbs : Databases) (i : ℕ) (k field : Bytes) :
    Except VeloDBError (Option Bytes) :=
  dbs.readAs .hash now i k none fun m => m.lookup field

/-- `Store::hexists`. -/
def hexists (now : UInt64) (dbs : Databases) (i : ℕ) (k field : Bytes) : Except VeloDBError Bool :=
  dbs.readAs .hash now i k false fun m => (m.lookup field).isSome

/-- `Store::hgetall`. -/
def hgetall (now : UInt64) (dbs : Databases) (i : ℕ) (k : Bytes) :
    Except VeloDBError (List (Bytes × Bytes)) :=
  dbs.readAs .hash now i k [] HashMap.pairs

/-- `Store::hkeys`. -/
def hkeys (now : UInt64) (dbs : Databases) (i : ℕ) (k : Bytes) : Except VeloDBError (List Bytes) :=
  dbs.readAs .hash now i k [] AList.keys

/-- `Store::hvals`. -/
def hvals (now : UInt64) (dbs : Databases) (i : ℕ) (k : Bytes) : Except VeloDBError (List Bytes) :=
  dbs.readAs .hash now i k [] fun m => m.pairs.map Prod.snd

/-- `Store::hlen`. -/
def hlen (now : UInt64) (dbs : Databases) (i : ℕ) (k : Bytes) : Except VeloDBError ℕ :=
  dbs.readAs .hash now i k 0 HashMap.size

/-- `Store::nhget`. -/
def nhget (now : UInt64) (dbs : Databases) (i : ℕ) (k field subfield : Bytes) :
    Except VeloDBError (Option Bytes) :=
  dbs.readAs .nestedHash now i k none fun m => m.lookup field >>= fun inner => inner.lookup subfield

/-- `Store::nhkeys`. -/
def nhkeys (now : UInt64) (dbs : Databases) (i : ℕ) (k : Bytes) (field : Option Bytes) :
    Except VeloDBError (List Bytes) :=
  dbs.readAs .nestedHash now i k [] fun m =>
    match field with
    | some f => ((m.lookup f).map AList.keys).getD []
    | none => m.keys

/-- `Store::nhvals`. -/
def nhvals (now : UInt64) (dbs : Databases) (i : ℕ) (k : Bytes) (field : Option Bytes) :
    Except VeloDBError (List Bytes) :=
  dbs.readAs .nestedHash now i k [] fun m =>
    match field with
    | some f => ((m.lookup f).map fun inner => inner.pairs.map Prod.snd).getD []
    | none => m.pairs.flatMap fun p => p.2.pairs.map Prod.snd

/-- `Store::nhgetall`. -/
def nhgetall (now : UInt64) (dbs : Databases) (i : ℕ) (k : Bytes) (field : Option Bytes) :
    Except VeloDBError (List (Bytes × Bytes)) :=
  dbs.readAs .nestedHash now i k [] fun m =>
    match field with
    | some f => ((m.lookup f).map HashMap.pairs).getD []
    | none => m.pairs.flatMap fun p => p.2.pairs.map fun q =>
        (asBytes (fromUtf8Lossy p.1 ++ ":" ++ fromUtf8Lossy q.1), q.2)

end Databases

namespace Keyspace

/-- `Store::hset`. -/
def hset (i : ℕ) (k : Bytes) (pairs : List (Bytes × Bytes)) : KeyM ℕ :=
  upsertAs .hash i k ∅ fun m =>
    let r := pairs.foldl (fun (r : ℕ × HashMap Bytes Bytes) p =>
      (if (r.2.lookup p.1).isSome then r.1 else r.1 + 1, r.2.insert p.1 p.2)) (0, m)
    (.ok r.1, r.2)

/-- `Store::hdel`. -/
def hdel (now : UInt64) (i : ℕ) (k : Bytes) (fields : List Bytes) : KeyM ℕ :=
  updateAs .hash now i k (.ok 0) fun m =>
    let r := fields.foldl (fun (r : ℕ × HashMap Bytes Bytes) f =>
      (if (r.2.lookup f).isSome then r.1 + 1 else r.1, r.2.erase f)) (0, m)
    (.ok r.1, r.2)

/-- `Store::hincrby`. A field that is not a number counts as zero. -/
def hincrby (i : ℕ) (k field : Bytes) (increment : Int64) : KeyM Int64 :=
  upsertAs .hash i k ∅ fun m =>
    let current := (m.lookup field >>= parseI64).getD 0
    match checkedAdd current increment with
    | some v => (.ok v, m.insert field (i64Bytes v))
    | none => (.error (.error .overflow), m)

/-- `Store::nhset`. -/
def nhset (i : ℕ) (k field subfield value : Bytes) : KeyM ℕ :=
  upsertAs .nestedHash i k ∅ fun m =>
    let inner : HashMap Bytes Bytes := (m.lookup field).getD ∅
    (.ok (if (inner.lookup subfield).isSome then 0 else 1),
      m.insert field (inner.insert subfield value))

/-- `Store::nhdel`. A field that loses its last subfield goes with it. -/
def nhdel (now : UInt64) (i : ℕ) (k field : Bytes) (subfield : Option Bytes) : KeyM ℕ :=
  updateAs .nestedHash now i k (.ok 0) fun m =>
    match subfield with
    | some sf =>
      match m.lookup field with
      | some inner =>
        if (inner.lookup sf).isSome then
          let inner' : HashMap Bytes Bytes := inner.erase sf
          (.ok 1, if inner'.size = 0 then m.erase field else m.insert field inner')
        else (.ok 0, m)
      | none => (.ok 0, m)
    | none => (.ok (if (m.lookup field).isSome then 1 else 0), m.erase field)

end Keyspace

end VeloDB
