import VeloDB.Cmd.Strings

/-!
# Commands on keys

Deleting, renaming, expiring and scanning. `DBSIZE` removes the expired keys that it finds, so it
is a writing command.
-/

namespace VeloDB

open Rust

/-! ### Scanning -/

/-- `MAX_SCAN_CURSORS`. -/
def maxScanCursors : ℕ := 1024

/-- `Vec<u8>`'s order, as a test. -/
def bytesLe (a b : Bytes) : Bool := compareOfLessAndEq a b != .gt

/-- The keys behind a key, in order. -/
def keysAfter (d : Db) (after : Option Bytes) : List Bytes :=
  (d.keys.filter fun k => match after with
    | some s => compareOfLessAndEq k s == .gt
    | none => true).mergeSort bytesLe

/-- `Store::scan_keys`. The page is cut before expired and unmatched keys are filtered out. -/
def Tables.scanKeys (now : UInt64) (dbs : Databases) (i : ℕ) (cursor : UInt64)
    (pattern : Option String) (count : ℕ) : TableM (ℕ × List Bytes) := do
  let d ← Proc.ofExcept (ofResult (dbs.db i))
  let t ← Proc.get
  match (if cursor = 0 then some none else (t.scanCursors.lookup cursor.toNat).map some) with
  | none => pure (0, [])
  | some after =>
    Proc.modify fun t => { t with scanCursors := t.scanCursors.erase cursor.toNat }
    let keys := keysAfter d after
    let page := keys.take (max count 1)
    let visible := page.filter fun k =>
      (match d.lookup k with
        | some e => !e.expired now
        | none => false) &&
      (match pattern with
        | some p => simpleMatch (fromUtf8Lossy k) p
        | none => true)
    if max count 1 < keys.length then
      let t ← Proc.get
      Proc.modify fun t => { t with
        scanCursors := (if maxScanCursors ≤ HashMap.size t.scanCursors then ∅
          else t.scanCursors).insert t.nextScanCursor (page.getLast?.getD [])
        nextScanCursor := t.nextScanCursor + 1 }
      pure (t.nextScanCursor, visible)
    else pure (0, visible)

/-- `Store::hscan`. -/
def Databases.hscan (now : UInt64) (dbs : Databases) (i : ℕ) (k : Bytes) :
    Except VeloDBError (ℕ × List (Bytes × Bytes)) :=
  dbs.readAs .hash now i k (0, []) fun h => (0, h.pairs)

/-- `Store::sscan`. -/
def Databases.sscan (now : UInt64) (dbs : Databases) (i : ℕ) (k : Bytes) :
    Except VeloDBError (ℕ × List Bytes) :=
  dbs.readAs .set now i k (0, []) fun s => (0, s.keys)

/-- `Store::zscan`. -/
def Databases.zscan (now : UInt64) (dbs : Databases) (i : ℕ) (k : Bytes) :
    Except VeloDBError (ℕ × List (Bytes × F64)) :=
  dbs.readAs .zset now i k (0, []) fun z => (0, z.1.pairs)

/-- A step over the tables, as part of a command that may also change the context. -/
def onTables {α : Type} (m : TableM α) : SideM α := fun s =>
  let r := m s.tables
  (r.1, { s with tables := r.2 })

namespace Cmd

/-- `parse_cursor`. -/
def parseCursor (raw : Bytes) : Except Failure UInt64 :=
  orError (argU64 raw) (.internal "ERR invalid cursor")

/-- `parse_scan_opts`. -/
def parseScanOpts (env : Env) : List Bytes → Option String × ℕ → Except Failure (Option String × ℕ)
  | [], o => .ok o
  | [_], _ => .error (.error .syntaxError)
  | f :: v :: rest, o =>
    if upper env f = "MATCH" then parseScanOpts env rest (some (fromUtf8Lossy v), o.2)
    else if upper env f = "COUNT" then
      match argUsize v with
      | some n => if n = 0 then .error (.error .syntaxError) else parseScanOpts env rest (o.1, n)
      | none => .error (.error .notInteger)
    else .error (.error .syntaxError)

/-- `scan_reply`. -/
def scanReply (cursor : ℕ) (items : List RespValue) : RespValue :=
  .array (some [.bulk (asBytes (toString cursor)), .array (some items)])

/-- `map_or(true, |p| simple_match(..))`. -/
def matchesPattern (pattern : Option String) (b : Bytes) : Bool :=
  match pattern with
  | some p => simpleMatch (fromUtf8Lossy b) p
  | none => true

/-- `format_score`. -/
def formatScore (H : Host) (d : F64) : String :=
  match d.toInt? with
  | some z => if z.natAbs < 10 ^ 17 then toString z else H.displayF64 d
  | none => H.displayF64 d

/-- `scan_cmd`. -/
def scanCmd (env : Env) (dbs : Databases) (args : List Bytes) : SideM RespValue := do
  let cursor ← lift (parseCursor (← lift (arg args 0)))
  let opts ← lift (parseScanOpts env (← lift (argsFrom args 1)) (none, 10))
  let s ← Proc.get
  let r ← onTables (Tables.scanKeys env.now dbs s.ctx.dbIndex cursor opts.1 opts.2)
  pure (scanReply r.1 (r.2.map .bulk))

/-- `hscan_cmd`. -/
def hscanCmd (env : Env) (dbs : Databases) (i : ℕ) (args : List Bytes) : Reply := do
  let _ ← parseCursor (← arg args 1)
  let opts ← parseScanOpts env (← argsFrom args 2) (none, 10)
  let r ← ofResult (dbs.hscan env.now i (← arg args 0))
  pure (scanReply r.1 ((r.2.filter fun p => matchesPattern opts.1 p.1).flatMap fun p =>
    [.bulk p.1, .bulk p.2]))

/-- `sscan_cmd`. -/
def sscanCmd (env : Env) (dbs : Databases) (i : ℕ) (args : List Bytes) : Reply := do
  let _ ← parseCursor (← arg args 1)
  let opts ← parseScanOpts env (← argsFrom args 2) (none, 10)
  let r ← ofResult (dbs.sscan env.now i (← arg args 0))
  pure (scanReply r.1 ((r.2.filter (matchesPattern opts.1)).map .bulk))

/-- `zscan_cmd`. -/
def zscanCmd (env : Env) (dbs : Databases) (i : ℕ) (args : List Bytes) : Reply := do
  let _ ← parseCursor (← arg args 1)
  let opts ← parseScanOpts env (← argsFrom args 2) (none, 10)
  let r ← ofResult (dbs.zscan env.now i (← arg args 0))
  pure (scanReply r.1 ((r.2.filter fun p => matchesPattern opts.1 p.1).flatMap fun p =>
    [.bulk p.1, .bulk (asBytes (formatScore env.host p.2))]))

/-! ### Keys -/

/-- `del`. -/
def del (_ : Env) (i : ℕ) (args : List Bytes) : KeyM RespValue := do
  let count ← Proc.foldEach args 0 fun n key => do
    let removed ← Keyspace.del i key
    pure (if removed then n + 1 else n)
  pure (.count count)

/-- `exists`. -/
def existsCmd (env : Env) (dbs : Databases) (i : ℕ) (args : List Bytes) : Reply := do
  let found ← args.mapM fun key => ofResult (dbs.existsKey env.now i key)
  pure (.count (found.filter id).length)

/-- The four commands that set an expiry differ in how they read their number. What is not a number
counts as zero; sums and products wrap. -/
def expireWith (time : UInt64 → UInt64) (i : ℕ) (args : List Bytes) : KeyM RespValue := do
  let n := (argU64 (← lift (arg args 1))).getD 0
  let changed ← Keyspace.setExpire i (← lift (arg args 0)) (time n)
  pure (flag changed)

/-- `expire`. -/
def expire (env : Env) : ℕ → List Bytes → KeyM RespValue :=
  expireWith fun seconds => env.now + seconds * 1000

/-- `expireat`. -/
def expireat (_ : Env) : ℕ → List Bytes → KeyM RespValue := expireWith fun ts => ts * 1000

/-- `pexpire`. -/
def pexpire (env : Env) : ℕ → List Bytes → KeyM RespValue := expireWith fun ms => env.now + ms

/-- `pexpireat`. -/
def pexpireat (_ : Env) : ℕ → List Bytes → KeyM RespValue := expireWith id

/-- What is left of the time of a key, in the unit of the command. -/
def ttlWith (scale : UInt64 → UInt64) (env : Env) (dbs : Databases) (i : ℕ) (args : List Bytes) :
    Reply := do
  match ← ofResult (dbs.getExpire env.now i (← arg args 0)) with
  | some at_ =>
    if env.now < at_ then pure (.integer (scale (at_ - env.now)).toInt64)
    else pure (.integer (-2))
  | none => pure (.integer (-1))

/-- `ttl`. -/
def ttl : Env → Databases → ℕ → List Bytes → Reply := ttlWith fun ms => ms / 1000

/-- `pttl`. -/
def pttl : Env → Databases → ℕ → List Bytes → Reply := ttlWith id

/-- `persist`. -/
def persist (_ : Env) (i : ℕ) (args : List Bytes) : KeyM RespValue := do
  let changed ← Keyspace.removeExpire i (← lift (arg args 0))
  pure (flag changed)

/-- `type_cmd`. -/
def typeCmd (env : Env) (dbs : Databases) (i : ℕ) (args : List Bytes) : Reply := do
  let t ← ofResult (dbs.getType env.now i (← arg args 0))
  pure (.simpleString (t.getD "none"))

/-- `rename_cmd`. -/
def renameCmd (env : Env) (i : ℕ) (args : List Bytes) : KeyM RespValue := do
  let old ← lift (arg args 0)
  let found ← Keyspace.read fun dbs => dbs.existsKey env.now i old
  if !found then Keyspace.throw .keyNotFound
  Keyspace.rename i old (← lift (arg args 1))
  pure .ok

/-- `renamenx`. -/
def renamenx (env : Env) (i : ℕ) (args : List Bytes) : KeyM RespValue := do
  let new ← lift (arg args 1)
  let taken ← Keyspace.read fun dbs => dbs.existsKey env.now i new
  if taken then pure (.integer 0)
  else
    let old ← lift (arg args 0)
    let found ← Keyspace.read fun dbs => dbs.existsKey env.now i old
    if !found then Keyspace.throw .keyNotFound
    Keyspace.rename i old new
    pure (.integer 1)

/-- `keys_cmd`. -/
def keysCmd (env : Env) (dbs : Databases) (i : ℕ) (args : List Bytes) : Reply := do
  let keys ← ofResult (dbs.keys env.now i (fromUtf8Lossy (← arg args 0)))
  pure (bulks keys)

/-- `dbsize_cmd`. -/
def dbsizeCmd (env : Env) (i : ℕ) (_ : List Bytes) : KeyM RespValue := do
  let n ← Keyspace.dbsize env.now i
  pure (.count n)

/-- `flushdb_cmd`. -/
def flushdbCmd (_ : Env) (i : ℕ) (_ : List Bytes) : KeyM RespValue := do
  Keyspace.flushdb i
  pure .ok

/-- `flushall_cmd`. -/
def flushallCmd (_ : Env) (_ : ℕ) (_ : List Bytes) : KeyM RespValue := do
  Keyspace.flushall
  pure .ok

/-- `randomkey_cmd`. -/
def randomkeyCmd (env : Env) (dbs : Databases) (i : ℕ) (_ : List Bytes) : Reply := do
  let k ← ofResult (dbs.randomKey env.now env.nanos i)
  pure (bulkOrNil k)

/-- `generic::COMMANDS`. -/
def genericCommands : List CommandDef := [
  ⟨"DEL", -2, .write del⟩,
  ⟨"EXISTS", -2, .read existsCmd⟩,
  ⟨"EXPIRE", 3, .write expire⟩,
  ⟨"EXPIREAT", 3, .write expireat⟩,
  ⟨"PEXPIRE", 3, .write pexpire⟩,
  ⟨"PEXPIREAT", 3, .write pexpireat⟩,
  ⟨"TTL", 2, .read ttl⟩,
  ⟨"PTTL", 2, .read pttl⟩,
  ⟨"PERSIST", 2, .write persist⟩,
  ⟨"TYPE", 2, .read typeCmd⟩,
  ⟨"RENAME", 3, .write renameCmd⟩,
  ⟨"RENAMENX", 3, .write renamenx⟩,
  ⟨"KEYS", 2, .read keysCmd⟩,
  ⟨"DBSIZE", 1, .write dbsizeCmd⟩,
  ⟨"FLUSHDB", 1, .write flushdbCmd⟩,
  ⟨"FLUSHALL", 1, .write flushallCmd⟩,
  ⟨"RANDOMKEY", 1, .read randomkeyCmd⟩,
  ⟨"SCAN", -2, .side scanCmd⟩,
  ⟨"HSCAN", -3, .read hscanCmd⟩,
  ⟨"SSCAN", -3, .read sscanCmd⟩,
  ⟨"ZSCAN", -3, .read zscanCmd⟩]

end Cmd

end VeloDB
