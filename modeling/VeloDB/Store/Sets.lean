import VeloDB.Store.Lists

/-!
# Sets

The set methods of the store. Random choices are made from the nanoseconds of the clock; the loop
of `srandmember` draws the same position again as long as it has not found a new one, so a position
that is taken already means that it does not end.
-/

namespace VeloDB

open Rust

/-- Run a reading method whose own computation may fail. -/
def flatten {α : Type} (x : Except VeloDBError (Except Failure α)) : Except Failure α :=
  ofResult x >>= id

namespace Databases

/-- `Store::smembers`. -/
def smembers (now : UInt64) (dbs : Databases) (i : ℕ) (k : Bytes) :
    Except VeloDBError (List Bytes) :=
  dbs.readAs .set now i k [] AList.keys

/-- `Store::sismember`. -/
def sismember (now : UInt64) (dbs : Databases) (i : ℕ) (k member : Bytes) :
    Except VeloDBError Bool :=
  dbs.readAs .set now i k false fun s => (s.lookup member).isSome

/-- `Store::scard`. -/
def scard (now : UInt64) (dbs : Databases) (i : ℕ) (k : Bytes) : Except VeloDBError ℕ :=
  dbs.readAs .set now i k 0 HashMap.size

/-- `Store::get_set`. -/
def getSet (now : UInt64) (dbs : Databases) (i : ℕ) (k : Bytes) :
    Except VeloDBError (Option (HashSet Bytes)) :=
  dbs.readAs .set now i k none some

/-- The loop of `sinter` over the other keys. -/
def sinterLoop (now : UInt64) (dbs : Databases) (i : ℕ) :
    List Bytes → List Bytes → Except VeloDBError (List Bytes)
  | [], result => pure result
  | k :: ks, result => do
    match ← dbs.getSet now i k with
    | some s => sinterLoop now dbs i ks (result.filter fun v => (s.lookup v).isSome)
    | none => pure []

/-- `Store::sinter`. -/
def sinter (now : UInt64) (dbs : Databases) (i : ℕ) :
    List Bytes → Except VeloDBError (List Bytes)
  | [] => pure []
  | k :: ks => do
    match ← dbs.getSet now i k with
    | some s => sinterLoop now dbs i ks s.keys
    | none => pure []

/-- The loop of `sunion`. -/
def sunionLoop (now : UInt64) (dbs : Databases) (i : ℕ) :
    List Bytes → HashSet Bytes → Except VeloDBError (List Bytes)
  | [], result => pure result.keys
  | k :: ks, result => do
    match ← dbs.getSet now i k with
    | some s => sunionLoop now dbs i ks (s.keys.foldl (fun r v => r.insert v ()) result)
    | none => sunionLoop now dbs i ks result

/-- `Store::sunion`. -/
def sunion (now : UInt64) (dbs : Databases) (i : ℕ) (ks : List Bytes) :
    Except VeloDBError (List Bytes) :=
  sunionLoop now dbs i ks ∅

/-- The loop of `sdiff` over the other keys. -/
def sdiffLoop (now : UInt64) (dbs : Databases) (i : ℕ) :
    List Bytes → List Bytes → Except VeloDBError (List Bytes)
  | [], result => pure result
  | k :: ks, result => do
    match ← dbs.getSet now i k with
    | some s => sdiffLoop now dbs i ks (result.filter fun v => !(s.lookup v).isSome)
    | none => sdiffLoop now dbs i ks result

/-- `Store::sdiff`. -/
def sdiff (now : UInt64) (dbs : Databases) (i : ℕ) :
    List Bytes → Except VeloDBError (List Bytes)
  | [] => pure []
  | k :: ks => do
    let s ← dbs.getSet now i k
    sdiffLoop now dbs i ks ((s.map AList.keys).getD [])

/-- The loop of `srandmember` for `n` different members, when `n - fuel` of them are drawn. -/
def drawDistinct (members : List Bytes) (nano : ℕ) :
    ℕ → List ℕ → List Bytes → Except Failure (List Bytes)
  | 0, _, result => pure result
  | fuel + 1, used, result =>
    let idx := (nano + result.length * 31) % members.length
    if idx ∈ used then .error .hang
    else match members[idx]? with
      | some m => drawDistinct members nano fuel (idx :: used) (result ++ [m])
      | none => .error .panic

/-- How many values the array of a reply has room for: each of them takes 32 bytes. -/
def replyMax : ℕ := isizeMax / 32

/-- `Store::srandmember` of a set. A negative count draws with repetition, and a vector of more
members than the reply has room for is a panic. -/
def drawMembers (members : List Bytes) (nano : ℕ) (count : Option Int64) :
    Except Failure (List Bytes) :=
  if members = [] then pure []
  else match count with
    | none => pure [members[nano % members.length]?.getD []]
    | some n =>
      if n = 1 then pure [members[nano % members.length]?.getD []]
      else if 0 ≤ n then drawDistinct members nano (min (asUsize n) members.length) [] []
      else if replyMax < asUsize (-n) then .error .panic
      else pure ((List.range (asUsize (-n))).map fun i =>
        members[(nano + i * 31) % members.length]?.getD [])

/-- `Store::srandmember`. -/
def srandmember (now : UInt64) (nano : ℕ) (dbs : Databases) (i : ℕ) (k : Bytes)
    (count : Option Int64) : Except Failure (List Bytes) :=
  flatten (dbs.readAs .set now i k (.ok []) fun s => drawMembers s.keys nano count)

end Databases

namespace Keyspace

/-- `Store::sadd`. -/
def sadd (i : ℕ) (k : Bytes) (members : List Bytes) : KeyM ℕ :=
  upsertAs .set i k ∅ fun s =>
    let r := members.foldl (fun (r : ℕ × HashSet Bytes) m =>
      (if (r.2.lookup m).isSome then r.1 else r.1 + 1, r.2.insert m ())) (0, s)
    (.ok r.1, r.2)

/-- `Store::srem`. -/
def srem (now : UInt64) (i : ℕ) (k : Bytes) (members : List Bytes) : KeyM ℕ :=
  updateAs .set now i k (.ok 0) fun s =>
    let r := members.foldl (fun (r : ℕ × HashSet Bytes) m =>
      (if (r.2.lookup m).isSome then r.1 + 1 else r.1, r.2.erase m)) (0, s)
    (.ok r.1, r.2)

/-- `Store::spop`. -/
def spop (now : UInt64) (i : ℕ) (k : Bytes) (count : Option ℕ) : KeyM (List Bytes) :=
  updateAs .set now i k (.ok []) fun s =>
    let members := s.keys.take (min (count.getD 1) s.size)
    (.ok members, members.foldl (fun s m => s.erase m) s)

end Keyspace

end VeloDB
