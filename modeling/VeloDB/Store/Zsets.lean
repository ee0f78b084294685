import VeloDB.Store.Sets
import VeloDB.Store.ScoreIndex

/-!
# Sorted sets

The methods of the store on sorted sets. Reading by score goes through the score index, counting
through the members. `BTreeMap::range` panics when its lower bound is above its upper bound.
-/

namespace VeloDB

open Rust

/-- One bound of a score interval. -/
structure ScoreBound where
  value : F64
  exclusive : Bool
  deriving DecidableEq, Repr

namespace Databases

/-- `Store::zscore`. -/
def zscore (now : UInt64) (dbs : Databases) (i : ℕ) (k member : Bytes) :
    Except VeloDBError (Option F64) :=
  dbs.readAs .zset now i k none fun z => z.1.lookup member

/-- The loop of `zrank` over the score index. -/
def rankLoop (target : F64) (member : Bytes) : Scores → ℕ → Option ℕ
  | [], _ => none
  | (score, set) :: r, rank =>
    if score.lt target then rankLoop target member r (rank + set.size)
    else if score.eq target then some (rank + (set.keys.takeWhile (· != member)).length)
    else rankLoop target member r rank

/-- `Store::zrank`. -/
def zrank (now : UInt64) (dbs : Databases) (i : ℕ) (k member : Bytes) :
    Except VeloDBError (Option ℕ) :=
  dbs.readAs .zset now i k none fun z =>
    z.1.lookup member >>= fun target => rankLoop target member z.2 0

/-- The inner loop of `zrange_by_score`, over the members of a bucket: how many have been skipped,
and the result. -/
def takeBucket (offset count : ℕ) (score : F64) (withscores : Bool) :
    List Bytes → ℕ × List (Bytes × Option F64) → ℕ × List (Bytes × Option F64)
  | [], st => st
  | member :: set, (skipped, result) =>
    if skipped < offset then takeBucket offset count score withscores set (skipped + 1, result)
    else if count ≤ result.length then (skipped, result)
    else takeBucket offset count score withscores set
      (skipped, result ++ [(member, if withscores then some score else none)])

/-- The bounds exclude a score at one of the two ends. -/
def excludes (lo hi : ScoreBound) (score : F64) : Bool :=
  (lo.exclusive && score.eq lo.value) || (hi.exclusive && score.eq hi.value)

/-- The loop of `zrange_by_score` over the buckets of the range. -/
def takeBuckets (lo hi : ScoreBound) (offset count : ℕ) (withscores : Bool) :
    Scores → ℕ × List (Bytes × Option F64) → List (Bytes × Option F64)
  | [], st => st.2
  | (score, set) :: r, st =>
    if excludes lo hi score then takeBuckets lo hi offset count withscores r st
    else
      let st' := takeBucket offset count score withscores set.keys st
      if count ≤ st'.2.length then st'.2 else takeBuckets lo hi offset count withscores r st'

/-- `Store::zrange_by_score`. -/
def zrangeByScore (now : UInt64) (dbs : Databases) (i : ℕ) (k : Bytes) (lo hi : ScoreBound)
    (withscores : Bool) (limit : Option (ℕ × ℕ)) : Except Failure (List (Bytes × Option F64)) :=
  flatten (dbs.readAs .zset now i k (.ok []) fun z =>
    if hi.value.lt lo.value then .error .panic
    else
      let window := limit.getD (0, usizeMax)
      .ok (takeBuckets lo hi window.1 window.2 withscores
        (BTree.range orderedCmp lo.value hi.value z.2) (0, [])))

/-- `Store::zrange`. -/
def zrange (now : UInt64) (dbs : Databases) (i : ℕ) (k : Bytes) (start stop : Int64)
    (withscores : Bool) : Except Failure (List (Bytes × Option F64)) := do
  let all ← dbs.zrangeByScore now i k ⟨.negInfinity, true⟩ ⟨.infinity, true⟩ withscores none
  let s := rangeStart all.length start
  let e := rangeStop all.length stop
  pure (if e < s ∨ all.length ≤ s then [] else (all.drop s).take (e - s + 1))

/-- `Store::zcard`. -/
def zcard (now : UInt64) (dbs : Databases) (i : ℕ) (k : Bytes) : Except VeloDBError ℕ :=
  dbs.readAs .zset now i k 0 fun z => z.1.size

/-- `Store::zcount`. -/
def zcount (now : UInt64) (dbs : Databases) (i : ℕ) (k : Bytes) (lo hi : ScoreBound) :
    Except VeloDBError ℕ :=
  dbs.readAs .zset now i k 0 fun z =>
    (z.1.pairs.filter fun p =>
      (if lo.exclusive then lo.value.lt p.2 else lo.value.le p.2) &&
        (if hi.exclusive then p.2.lt hi.value else p.2.le hi.value)).length

end Databases

/-- One turn of the loop of `zadd`. -/
def zaddOne (r : ℕ × HashMap Bytes F64 × Scores) (item : F64 × Bytes) :
    ℕ × HashMap Bytes F64 × Scores :=
  let (added, members, scores) := r
  let (score, member) := item
  match members.lookup member with
  | some old =>
    (added, members.insert member score, (scores.remove old member).insert score member)
  | none => (added + 1, members.insert member score, scores.insert score member)

/-- One turn of the loop of `zrem`. -/
def zremOne (r : ℕ × HashMap Bytes F64 × Scores) (member : Bytes) :
    ℕ × HashMap Bytes F64 × Scores :=
  let (removed, members, scores) := r
  match members.lookup member with
  | some score => (removed + 1, members.erase member, scores.remove score member)
  | none => r

namespace Keyspace

/-- `Store::zadd`. -/
def zadd (i : ℕ) (k : Bytes) (items : List (F64 × Bytes)) : KeyM ℕ :=
  upsertAs .zset i k (∅, []) fun z =>
    let r := items.foldl zaddOne (0, z)
    (.ok r.1, r.2)

/-- `Store::zrem`. -/
def zrem (now : UInt64) (i : ℕ) (k : Bytes) (members : List Bytes) : KeyM ℕ :=
  updateAs .zset now i k (.ok 0) fun z =>
    let r := members.foldl zremOne (0, z)
    (.ok r.1, r.2)

end Keyspace

end VeloDB
