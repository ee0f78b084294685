import VeloDB.Cmd.Generic
import VeloDB.Store.Zsets

/-!
# Commands on lists, sets, hashes and sorted sets

Numbers that do not parse are replaced by a default in most list commands and are an error in most
others; each command keeps its own choice.
-/

namespace VeloDB.Cmd

open Rust

/-! ### Lists -/

/-- `lpush`. -/
def lpush (_ : Env) (i : ℕ) (args : List Bytes) : KeyM RespValue := do
  let len ← Keyspace.lpush i (← lift (arg args 0)) (← lift (argsFrom args 1))
  pure (.count len)

/-- `rpush`. -/
def rpush (_ : Env) (i : ℕ) (args : List Bytes) : KeyM RespValue := do
  let len ← Keyspace.rpush i (← lift (arg args 0)) (← lift (argsFrom args 1))
  pure (.count len)

/-- `lpop`. -/
def lpop (env : Env) (i : ℕ) (args : List Bytes) : KeyM RespValue := do
  let v ← Keyspace.lpopOne env.now i (← lift (arg args 0))
  pure (bulkOrNil v)

/-- `rpop`. -/
def rpop (env : Env) (i : ℕ) (args : List Bytes) : KeyM RespValue := do
  let v ← Keyspace.rpopOne env.now i (← lift (arg args 0))
  pure (bulkOrNil v)

/-- `llen`. -/
def llen (env : Env) (dbs : Databases) (i : ℕ) (args : List Bytes) : Reply := do
  let n ← ofResult (dbs.llen env.now i (← arg args 0))
  pure (.count n)

/-- `lrange`. -/
def lrange (env : Env) (dbs : Databases) (i : ℕ) (args : List Bytes) : Reply := do
  let start := (parseI64 (← arg args 1)).getD 0
  let stop := (parseI64 (← arg args 2)).getD (-1)
  let vals ← ofResult (dbs.lrange env.now i (← arg args 0) start stop)
  pure (bulks vals)

/-- `lindex`. -/
def lindex (env : Env) (dbs : Databases) (i : ℕ) (args : List Bytes) : Reply := do
  let idx := (parseI64 (← arg args 1)).getD 0
  let v ← ofResult (dbs.lindex env.now i (← arg args 0) idx)
  pure (bulkOrNil v)

/-- `lset`. -/
def lset (env : Env) (i : ℕ) (args : List Bytes) : KeyM RespValue := do
  let idx := (parseI64 (← lift (arg args 1))).getD 0
  Keyspace.lset env.now i (← lift (arg args 0)) idx (← lift (arg args 2))
  pure .ok

/-- `ltrim`. -/
def ltrim (env : Env) (i : ℕ) (args : List Bytes) : KeyM RespValue := do
  let start := (parseI64 (← lift (arg args 1))).getD 0
  let stop := (parseI64 (← lift (arg args 2))).getD (-1)
  Keyspace.ltrim env.now i (← lift (arg args 0)) start stop
  pure .ok

/-- `lrem`. -/
def lrem (env : Env) (i : ℕ) (args : List Bytes) : KeyM RespValue := do
  let count := (parseI64 (← lift (arg args 1))).getD 0
  let n ← Keyspace.lrem env.now i (← lift (arg args 0)) count (← lift (arg args 2))
  pure (.count n)

/-- A step over the databases, as part of a command that may change everything. Blocked clients are
notified at the end. -/
def onKeyspace {α : Type} (m : KeyM α) : WholeM α := fun w =>
  let r := m { databases := w.store.databases }
  (r.1, { w with store := { w.store with databases := r.2.databases } })

/-- The loop of the blocking pops over their keys. -/
def popFirst (pop : Bytes → KeyM (Option Bytes)) : List Bytes → KeyM (Option (Bytes × Bytes))
  | [] => pure none
  | key :: keys => do
    match ← pop key with
    | some val => pure (some (key, val))
    | none => popFirst pop keys

/-- `blpop` and `brpop`: pop at once, or leave it to the connection to wait. -/
def blockingPop (pop : UInt64 → ℕ → Bytes → KeyM (Option Bytes)) (direction : PopDirection)
    (env : Env) (args : List Bytes) : WholeM RespValue := do
  if args.length = 0 then Proc.fail .panic
  let keys := args.dropLast
  let timeout := (args.getLast? >>= parseI64).getD 0
  let w ← Proc.get
  match ← onKeyspace (popFirst (pop env.now w.ctx.dbIndex) keys) with
  | some (key, val) => pure (bulks [key, val])
  | none =>
    if timeout = 0 then pure .nil
    else
      Proc.modify fun w => { w with
        ctx := { w.ctx with blockState := some ⟨keys, timeout, direction⟩ } }
      pure .ok

/-- `blpop`. -/
def blpop : Env → List Bytes → WholeM RespValue := blockingPop Keyspace.lpopOne .left

/-- `brpop`. -/
def brpop : Env → List Bytes → WholeM RespValue := blockingPop Keyspace.rpopOne .right

/-- `list::COMMANDS`. -/
def listCommands : List CommandDef := [
  ⟨"LPUSH", -3, .write lpush⟩,
  ⟨"RPUSH", -3, .write rpush⟩,
  ⟨"LPOP", -2, .write lpop⟩,
  ⟨"RPOP", -2, .write rpop⟩,
  ⟨"LLEN", 2, .read llen⟩,
  ⟨"LRANGE", 4, .read lrange⟩,
  ⟨"LINDEX", 3, .read lindex⟩,
  ⟨"LSET", 4, .write lset⟩,
  ⟨"LTRIM", 4, .write ltrim⟩,
  ⟨"LREM", 4, .write lrem⟩,
  ⟨"BLPOP", -3, .whole blpop⟩,
  ⟨"BRPOP", -3, .whole brpop⟩]

/-! ### Sets -/

/-- `sadd`. -/
def sadd (_ : Env) (i : ℕ) (args : List Bytes) : KeyM RespValue := do
  let n ← Keyspace.sadd i (← lift (arg args 0)) (← lift (argsFrom args 1))
  pure (.count n)

/-- `srem`. -/
def srem (env : Env) (i : ℕ) (args : List Bytes) : KeyM RespValue := do
  let n ← Keyspace.srem env.now i (← lift (arg args 0)) (← lift (argsFrom args 1))
  pure (.count n)

/-- `smembers`. -/
def smembers (env : Env) (dbs : Databases) (i : ℕ) (args : List Bytes) : Reply := do
  let l ← ofResult (dbs.smembers env.now i (← arg args 0))
  pure (bulks l)

/-- `sismember`. -/
def sismember (env : Env) (dbs : Databases) (i : ℕ) (args : List Bytes) : Reply := do
  let b ← ofResult (dbs.sismember env.now i (← arg args 0) (← arg args 1))
  pure (flag b)

/-- `scard`. -/
def scard (env : Env) (dbs : Databases) (i : ℕ) (args : List Bytes) : Reply := do
  let n ← ofResult (dbs.scard env.now i (← arg args 0))
  pure (.count n)

/-- `sinter`. -/
def sinter (env : Env) (dbs : Databases) (i : ℕ) (args : List Bytes) : Reply := do
  let l ← ofResult (dbs.sinter env.now i args)
  pure (bulks l)

/-- `sunion`. -/
def sunion (env : Env) (dbs : Databases) (i : ℕ) (args : List Bytes) : Reply := do
  let l ← ofResult (dbs.sunion env.now i args)
  pure (bulks l)

/-- `sdiff`. -/
def sdiff (env : Env) (dbs : Databases) (i : ℕ) (args : List Bytes) : Reply := do
  let l ← ofResult (dbs.sdiff env.now i args)
  pure (bulks l)

/-- `srandmember`. -/
def srandmember (env : Env) (dbs : Databases) (i : ℕ) (args : List Bytes) : Reply := do
  let count := args[1]? >>= parseI64
  let l ← dbs.srandmember env.now env.nanos i (← arg args 0) count
  pure (if count = none ∨ count = some 1 then bulkOrNil l.head? else bulks l)

/-- `spop`. -/
def spop (env : Env) (i : ℕ) (args : List Bytes) : KeyM RespValue := do
  let count := args[1]?.map fun a => (argUsize a).getD 1
  let l ← Keyspace.spop env.now i (← lift (arg args 0)) count
  pure (if count = none ∨ count = some 1 then bulkOrNil l.head? else bulks l)

/-- `set::COMMANDS`. -/
def setCommands : List CommandDef := [
  ⟨"SADD", -3, .write sadd⟩,
  ⟨"SREM", -3, .write srem⟩,
  ⟨"SMEMBERS", 2, .read smembers⟩,
  ⟨"SISMEMBER", 3, .read sismember⟩,
  ⟨"SCARD", 2, .read scard⟩,
  ⟨"SINTER", -2, .read sinter⟩,
  ⟨"SUNION", -2, .read sunion⟩,
  ⟨"SDIFF", -2, .read sdiff⟩,
  ⟨"SRANDMEMBER", -2, .read srandmember⟩,
  ⟨"SPOP", -2, .write spop⟩]

/-! ### Hashes -/

/-- `hset`. -/
def hset (_ : Env) (i : ℕ) (args : List Bytes) : KeyM RespValue := do
  let pairs := parsePairs (← lift (argsFrom args 1))
  if pairs = [] then Keyspace.throw (.wrongNumberOfArgs "HSET")
  let n ← Keyspace.hset i (← lift (arg args 0)) pairs
  pure (.count n)

/-- `hget`. -/
def hget (env : Env) (dbs : Databases) (i : ℕ) (args : List Bytes) : Reply := do
  let v ← ofResult (dbs.hget env.now i (← arg args 0) (← arg args 1))
  pure (bulkOrNil v)

/-- `hdel`. -/
def hdel (env : Env) (i : ℕ) (args : List Bytes) : KeyM RespValue := do
  let n ← Keyspace.hdel env.now i (← lift (arg args 0)) (← lift (argsFrom args 1))
  pure (.count n)

/-- `hexists`. -/
def hexists (env : Env) (dbs : Databases) (i : ℕ) (args : List Bytes) : Reply := do
  let b ← ofResult (dbs.hexists env.now i (← arg args 0) (← arg args 1))
  pure (flag b)

/-- `hgetall`. -/
def hgetall (env : Env) (dbs : Databases) (i : ℕ) (args : List Bytes) : Reply := do
  let l ← ofResult (dbs.hgetall env.now i (← arg args 0))
  pure (bulkPairs l)

/-- `hkeys`. -/
def hkeys (env : Env) (dbs : Databases) (i : ℕ) (args : List Bytes) : Reply := do
  let l ← ofResult (dbs.hkeys env.now i (← arg args 0))
  pure (bulks l)

/-- `hvals`. -/
def hvals (env : Env) (dbs : Databases) (i : ℕ) (args : List Bytes) : Reply := do
  let l ← ofResult (dbs.hvals env.now i (← arg args 0))
  pure (bulks l)

/-- `hlen`. -/
def hlen (env : Env) (dbs : Databases) (i : ℕ) (args : List Bytes) : Reply := do
  let n ← ofResult (dbs.hlen env.now i (← arg args 0))
  pure (.count n)

/-- `hincrby`. -/
def hincrby (_ : Env) (i : ℕ) (args : List Bytes) : KeyM RespValue := do
  let incr ← lift (orError (parseI64 (← lift (arg args 2))) .notInteger)
  let v ← Keyspace.hincrby i (← lift (arg args 0)) (← lift (arg args 1)) incr
  pure (.integer v)

/-- `hash::COMMANDS`. -/
def hashCommands : List CommandDef := [
  ⟨"HSET", -4, .write hset⟩,
  ⟨"HGET", 3, .read hget⟩,
  ⟨"HDEL", -3, .write hdel⟩,
  ⟨"HEXISTS", 3, .read hexists⟩,
  ⟨"HGETALL", 2, .read hgetall⟩,
  ⟨"HKEYS", 2, .read hkeys⟩,
  ⟨"HVALS", 2, .read hvals⟩,
  ⟨"HLEN", 2, .read hlen⟩,
  ⟨"HINCRBY", 4, .write hincrby⟩]

/-! ### Nested hashes -/

/-- `nhset`. -/
def nhset (_ : Env) (i : ℕ) (args : List Bytes) : KeyM RespValue := do
  let n ← Keyspace.nhset i (← lift (arg args 0)) (← lift (arg args 1)) (← lift (arg args 2))
    (← lift (arg args 3))
  pure (.count n)

/-- `nhget`. -/
def nhget (env : Env) (dbs : Databases) (i : ℕ) (args : List Bytes) : Reply := do
  let v ← ofResult (dbs.nhget env.now i (← arg args 0) (← arg args 1) (← arg args 2))
  pure (bulkOrNil v)

/-- `nhdel`. -/
def nhdel (env : Env) (i : ℕ) (args : List Bytes) : KeyM RespValue := do
  let n ← Keyspace.nhdel env.now i (← lift (arg args 0)) (← lift (arg args 1)) args[2]?
  pure (.count n)

/-- `nhkeys`. -/
def nhkeys (env : Env) (dbs : Databases) (i : ℕ) (args : List Bytes) : Reply := do
  let l ← ofResult (dbs.nhkeys env.now i (← arg args 0) args[1]?)
  pure (bulks l)

/-- `nhvals`. -/
def nhvals (env : Env) (dbs : Databases) (i : ℕ) (args : List Bytes) : Reply := do
  let l ← ofResult (dbs.nhvals env.now i (← arg args 0) args[1]?)
  pure (bulks l)

/-- `nhgetall`. -/
def nhgetall (env : Env) (dbs : Databases) (i : ℕ) (args : List Bytes) : Reply := do
  let l ← ofResult (dbs.nhgetall env.now i (← arg args 0) args[1]?)
  pure (bulkPairs l)

/-- `nested_hash::COMMANDS`. -/
def nestedHashCommands : List CommandDef := [
  ⟨"NHSET", 5, .write nhset⟩,
  ⟨"NHGET", 4, .read nhget⟩,
  ⟨"NHDEL", -3, .write nhdel⟩,
  ⟨"NHKEYS", -2, .read nhkeys⟩,
  ⟨"NHVALS", -2, .read nhvals⟩,
  ⟨"NHGETALL", -2, .read nhgetall⟩]

/-! ### Sorted sets -/

/-- `parse_score_member_pairs`. A last score without a member is ignored. -/
def parseScoreMemberPairs (H : Host) : List Bytes → Except Failure (List (F64 × Bytes))
  | s :: m :: rest => do
    let score ← orError (H.parseF64 (fromUtf8Lossy s)) .minOrMaxNotValidFloat
    let pairs ← parseScoreMemberPairs H rest
    pure ((score, m) :: pairs)
  | _ => pure []

/-- `zadd`. -/
def zadd (env : Env) (i : ℕ) (args : List Bytes) : KeyM RespValue := do
  let pairs ← lift (parseScoreMemberPairs env.host (← lift (argsFrom args 1)))
  let n ← Keyspace.zadd i (← lift (arg args 0)) pairs
  pure (.count n)

/-- `zrem`. -/
def zrem (env : Env) (i : ℕ) (args : List Bytes) : KeyM RespValue := do
  let n ← Keyspace.zrem env.now i (← lift (arg args 0)) (← lift (argsFrom args 1))
  pure (.count n)

/-- `zscore`. -/
def zscore (env : Env) (dbs : Databases) (i : ℕ) (args : List Bytes) : Reply := do
  let s ← ofResult (dbs.zscore env.now i (← arg args 0) (← arg args 1))
  pure (bulkOrNil (s.map fun d => asBytes (env.host.displayF64 d)))

/-- `zrank`. -/
def zrank (env : Env) (dbs : Databases) (i : ℕ) (args : List Bytes) : Reply := do
  let r ← ofResult (dbs.zrank env.now i (← arg args 0) (← arg args 1))
  pure ((r.map RespValue.count).getD .nil)

/-- Members, each with its score behind it where there is one. -/
def memberScores (H : Host) (items : List (Bytes × Option F64)) : RespValue :=
  .array (some (items.flatMap fun p =>
    .bulk p.1 :: (p.2.map fun d => RespValue.bulk (asBytes (H.displayF64 d))).toList))

/-- `zrange`. -/
def zrange (env : Env) (dbs : Databases) (i : ℕ) (args : List Bytes) : Reply := do
  let start := (parseI64 (← arg args 1)).getD 0
  let stop := (parseI64 (← arg args 2)).getD (-1)
  let withscores := args[3]?.any fun a => upper env a = "WITHSCORES"
  let items ← dbs.zrange env.now i (← arg args 0) start stop withscores
  pure (memberScores env.host items)

/-- `parse_score_bound`. -/
def parseScoreBound (H : Host) (b : Bytes) : Except Failure ScoreBound :=
  let s := fromUtf8Lossy b
  if s = "-inf" ∨ s = "-infinity" then .ok ⟨.negInfinity, false⟩
  else if s = "+inf" ∨ s = "+infinity" ∨ s = "inf" then .ok ⟨.infinity, false⟩
  else match stripPrefix "(" s with
    | some r => do
      let d ← orError (H.parseF64 r) .minOrMaxNotValidFloat
      .ok ⟨d, true⟩
    | none => do
      let d ← orError (H.parseF64 s) .minOrMaxNotValidFloat
      .ok ⟨d, false⟩

/-- The loop of `zrangebyscore` over its options. -/
def rangeOptions (env : Env) : List Bytes → Bool × Option (ℕ × ℕ) → Bool × Option (ℕ × ℕ)
  | [], o => o
  | [f], o => if upper env f = "WITHSCORES" then (true, o.2) else o
  | [f, a], o =>
    if upper env f = "WITHSCORES" then rangeOptions env [a] (true, o.2)
    else rangeOptions env [a] o
  | f :: a :: b :: rest, o =>
    if upper env f = "WITHSCORES" then rangeOptions env (a :: b :: rest) (true, o.2)
    else if upper env f = "LIMIT" then
      rangeOptions env rest (o.1, some ((argUsize a).getD 0, (argUsize b).getD 0))
    else rangeOptions env (a :: b :: rest) o

/-- `zrangebyscore`. -/
def zrangebyscore (env : Env) (dbs : Databases) (i : ℕ) (args : List Bytes) : Reply := do
  let lo ← parseScoreBound env.host (← arg args 1)
  let hi ← parseScoreBound env.host (← arg args 2)
  let o := rangeOptions env (args.drop 3) (false, none)
  let items ← dbs.zrangeByScore env.now i (← arg args 0) lo hi o.1 o.2
  pure (memberScores env.host items)

/-- `zcard`. -/
def zcard (env : Env) (dbs : Databases) (i : ℕ) (args : List Bytes) : Reply := do
  let n ← ofResult (dbs.zcard env.now i (← arg args 0))
  pure (.count n)

/-- `zcount`. -/
def zcount (env : Env) (dbs : Databases) (i : ℕ) (args : List Bytes) : Reply := do
  let lo ← parseScoreBound env.host (← arg args 1)
  let hi ← parseScoreBound env.host (← arg args 2)
  let n ← ofResult (dbs.zcount env.now i (← arg args 0) lo hi)
  pure (.count n)

/-- `zset::COMMANDS`. -/
def zsetCommands : List CommandDef := [
  ⟨"ZADD", -4, .write zadd⟩,
  ⟨"ZREM", -3, .write zrem⟩,
  ⟨"ZSCORE", 3, .read zscore⟩,
  ⟨"ZRANK", 3, .read zrank⟩,
  ⟨"ZRANGE", -4, .read zrange⟩,
  ⟨"ZRANGEBYSCORE", -4, .read zrangebyscore⟩,
  ⟨"ZCARD", 2, .read zcard⟩,
  ⟨"ZCOUNT", 4, .read zcount⟩]

end VeloDB.Cmd
