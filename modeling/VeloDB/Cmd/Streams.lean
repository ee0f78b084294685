import VeloDB.Cmd.Containers

/-!
# Stream commands

The commands of consumer groups change only the table of groups, except that `XGROUP CREATE` with
`MKSTREAM` also puts an empty stream under an absent key.
-/

namespace VeloDB

open Rust

/-- `Store::xgroup_create`. -/
def xgroupCreate (now : UInt64) (i : ℕ) (k : Bytes) (group : String) (startId : Bytes)
    (mkstream : Bool) : WholeM Unit := do
  let w ← Proc.get
  let type ← lift (ofResult (w.store.databases.getType now i k))
  match type with
  | none =>
    if !mkstream then Proc.fail (.error (.internal ("ERR The XGROUP subcommand requires the key to " ++
      "exist. Note that for CREATE you may want to use the MKSTREAM option to create an empty " ++
      "stream automatically.")))
    Proc.modify fun w => { w with store := { w.store with
      databases := w.store.databases.put i k { value := .stream [] 0 0 } } }
  | some t => if t ≠ "stream" then Proc.fail (.error .wrongType)
  let w ← Proc.get
  let start := if startId = asBytes "$" then w.store.databases.getStreamLastId now i k
    else parseStreamId startId true
  Proc.modify fun w => { w with store := { w.store with
    tables := { w.store.tables with
      consumerGroups := w.store.tables.consumerGroups.insert (Tables.cgKey i k group)
        { lastDeliveredMs := start.1, lastDeliveredSeq := start.2 } } } }

/-- A step over the tables, as part of a command that may change everything. -/
def onTablesOfStore {α : Type} (m : TableM α) : WholeM α := fun w =>
  let r := m w.store.tables
  (r.1, { w with store := { w.store with tables := r.2 } })

namespace Cmd

/-- The loop of `xadd` over its options: the last `MAXLEN ~ n`, and what is behind the options. -/
def xaddOptions (env : Env) : List Bytes → Option ℕ → Option ℕ × List Bytes
  | f :: t :: n :: rest, maxlen =>
    if upper env f = "MAXLEN" ∧ fromUtf8Lossy t = "~" then xaddOptions env rest (argUsize n)
    else (maxlen, f :: t :: n :: rest)
  | l, maxlen => (maxlen, l)

/-- `xadd`. -/
def xadd (env : Env) (i : ℕ) (args : List Bytes) : KeyM RespValue := do
  let o := xaddOptions env (args.drop 1) none
  match o.2 with
  | [] => Keyspace.throw .syntaxError
  | id :: rest =>
    let fields := parsePairs rest
    if fields = [] then Keyspace.throw .syntaxError
    let gid ← Keyspace.xadd env.now i (← lift (arg args 0)) id fields o.1
    pure (.bulk gid)

/-- `serialize_entry`. -/
def serializeEntry (e : StreamEntry) : RespValue :=
  .array (some [.bulk (formatId e.id), bulkPairs e.fields])

/-- The entries of a reply. -/
def serializeEntries (l : List StreamEntry) : RespValue := .array (some (l.map serializeEntry))

/-- The first `COUNT n` among the arguments from the fourth on. -/
def findCount (env : Env) : List Bytes → Option ℕ
  | f :: n :: rest => if upper env f = "COUNT" then argUsize n else findCount env (n :: rest)
  | _ => none

/-- `xrange`. -/
def xrange (env : Env) (dbs : Databases) (i : ℕ) (args : List Bytes) : Reply := do
  let count := findCount env (args.drop 3)
  let l ← ofResult (dbs.xrange env.now i (← arg args 0) (← arg args 1) (← arg args 2) count)
  pure (serializeEntries l)

/-- `xrevrange`. -/
def xrevrange (env : Env) (dbs : Databases) (i : ℕ) (args : List Bytes) : Reply := do
  let count := findCount env (args.drop 3)
  let l ← ofResult (dbs.xrevrange env.now i (← arg args 0) (← arg args 1) (← arg args 2) count)
  pure (serializeEntries l)

/-- `xlen`. -/
def xlen (env : Env) (dbs : Databases) (i : ℕ) (args : List Bytes) : Reply := do
  let n ← ofResult (dbs.xlen env.now i (← arg args 0))
  pure (.count n)

/-- `xdel`. -/
def xdel (env : Env) (i : ℕ) (args : List Bytes) : KeyM RespValue := do
  let ids := (← lift (argsFrom args 1)).map fromUtf8Lossy
  let n ← Keyspace.xdel env.now i (← lift (arg args 0)) ids
  pure (.count n)

/-- `xtrim`. -/
def xtrim (env : Env) (i : ℕ) (args : List Bytes) : KeyM RespValue := do
  if args.length < 4 ∨ args[1]?.map (upper env) ≠ some "MAXLEN" then Keyspace.throw .syntaxError
  let maxlen := (argUsize (← lift (arg args 3))).getD 0
  let n ← Keyspace.xtrim env.now i (← lift (arg args 0)) maxlen
  pure (.count n)

/-- `parse_stream_id` of the command module: no special forms except zero. -/
def parseId (b : Bytes) : StreamId :=
  let s := fromUtf8Lossy b
  if s = "0" ∨ s = "0-0" then (0, 0)
  else
    let parts := splitOnce '-' s
    ((parseU64 parts.1).getD 0, (parts.2 >>= parseU64).getD 0)

/-- The options of `XREAD`. -/
structure ReadOptions where
  count : Option ℕ := none
  blockMs : Option Int64 := none

/-- The loop of `xread` over its options: it goes on only while the argument has more than five
bytes, and stops behind `STREAMS`. -/
def xreadOptions (env : Env) : List Bytes → ReadOptions → ReadOptions × List Bytes
  | [], o => (o, [])
  | [f], o =>
    if f.length ≤ 5 then (o, [f]) else (o, [])
  | f :: v :: rest, o =>
    if f.length ≤ 5 then (o, f :: v :: rest)
    else if upper env f = "COUNT" then xreadOptions env rest { o with count := argUsize v }
    else if upper env f = "BLOCK" then xreadOptions env rest { o with blockMs := parseI64 v }
    else if upper env f = "STREAMS" then (o, v :: rest)
    else xreadOptions env (v :: rest) o

/-- `xread`. -/
def xread (env : Env) (dbs : Databases) (i : ℕ) (args : List Bytes) : Reply := do
  let (o, streams) := xreadOptions env args {}
  if streams = [] then throw (.error .syntaxError)
  let half := streams.length / 2
  let result ← ofResult (dbs.xread env.now i o.count (streams.take half)
    ((streams.drop half).map parseId))
  if result = [] then
    if o.blockMs ≠ none ∧ o.blockMs ≠ some 0 then pure (.simpleString "__BLOCK__")
    else pure .nil
  else pure (.array (some (result.map fun p =>
    .array (some [.bulk p.1, serializeEntries p.2]))))

/-- `xgroup`. -/
def xgroup (env : Env) (args : List Bytes) : WholeM RespValue := do
  let w ← Proc.get
  let i := w.ctx.dbIndex
  match args with
  | [] => Proc.fail (.error .syntaxError)
  | sub :: rest =>
    let sub := upper env sub
    if sub = "CREATE" ∨ sub = "SETID" then
      match rest with
      | k :: group :: startId :: opts =>
        -- `SETID` creates the group anew at the given position
        let mkstream := sub = "CREATE" ∧ opts.any fun a => upper env a = "MKSTREAM"
        xgroupCreate env.now i k (fromUtf8Lossy group) startId mkstream
        pure .ok
      | _ => Proc.fail (.error .syntaxError)
    else if sub = "DESTROY" then
      match rest with
      | k :: group :: _ =>
        let b ← onTablesOfStore (Tables.xgroupDestroy i k (fromUtf8Lossy group))
        pure (flag b)
      | _ => Proc.fail (.error .syntaxError)
    else if sub = "CREATECONSUMER" then
      match rest with
      | k :: group :: consumer :: _ =>
        let b ← onTablesOfStore
          (Tables.xgroupCreateConsumer i k (fromUtf8Lossy group) (fromUtf8Lossy consumer))
        pure (flag b)
      | _ => Proc.fail (.error .syntaxError)
    else if sub = "DELCONSUMER" then
      match rest with
      | k :: group :: consumer :: _ =>
        let n ← onTablesOfStore
          (Tables.xgroupDelConsumer i k (fromUtf8Lossy group) (fromUtf8Lossy consumer))
        pure (.count n)
      | _ => Proc.fail (.error .syntaxError)
    else Proc.fail (.error .syntaxError)

/-- The loop of `xreadgroup` over its options, up to `STREAMS`. -/
def xreadgroupOptions (env : Env) :
    List Bytes → Option ℕ × Bool → Except Failure ((Option ℕ × Bool) × List Bytes)
  | [], o => .ok (o, [])
  | [f], o =>
    if upper env f = "NOACK" then .ok ((o.1, true), [])
    else if upper env f = "STREAMS" then .ok (o, [])
    else .error (.error .syntaxError)
  | f :: v :: rest, o =>
    if upper env f = "COUNT" then xreadgroupOptions env rest (argUsize v, o.2)
    else if upper env f = "NOACK" then xreadgroupOptions env (v :: rest) (o.1, true)
    else if upper env f = "BLOCK" then xreadgroupOptions env rest o
    else if upper env f = "STREAMS" then .ok (o, v :: rest)
    else .error (.error .syntaxError)

/-- The loop of `xreadgroup` over its streams. -/
def xreadgroupStreams (env : Env) (dbs : Databases) (i : ℕ) (group consumer : String)
    (o : Option ℕ × Bool) : List (Bytes × Bytes) → SideM (List RespValue)
  | [] => pure []
  | (k, id) :: rest => do
    let start := if id = asBytes ">" then ReadGroupStart.new else .history (parseId id)
    let entries ← onTables (Tables.xreadgroup env.now dbs i k group consumer start o.1 o.2)
    let replies ← xreadgroupStreams env dbs i group consumer o rest
    pure (if entries ≠ [] ∨ id ≠ asBytes ">" then
      .array (some [.bulk k, serializeEntries entries]) :: replies else replies)

/-- `xreadgroup`. -/
def xreadgroup (env : Env) (dbs : Databases) (args : List Bytes) : SideM RespValue := do
  let s ← Proc.get
  if args.length < 6 ∨ args[0]?.map (upper env) ≠ some "GROUP" then
    Proc.fail (.error .syntaxError)
  let group := fromUtf8Lossy (← lift (arg args 1))
  let consumer := fromUtf8Lossy (← lift (arg args 2))
  let (o, streams) ← lift (xreadgroupOptions env (args.drop 3) (none, false))
  let half := streams.length / 2
  if half = 0 then Proc.fail (.error .syntaxError)
  let replies ← xreadgroupStreams env dbs s.ctx.dbIndex group consumer o
    ((streams.take half).zip (streams.drop half))
  pure (if replies.isEmpty then .nil else .array (some replies))

/-- `xack`. -/
def xack (_ : Env) (_ : Databases) (args : List Bytes) : SideM RespValue := do
  let s ← Proc.get
  let group := fromUtf8Lossy (← lift (arg args 1))
  let ids := (← lift (argsFrom args 2)).map parseId
  let n ← onTables (Tables.xack s.ctx.dbIndex (← lift (arg args 0)) group ids)
  pure (.count n)

/-- `parse_range_id`. -/
def parseRangeId (b : Bytes) (isStart : Bool) : StreamId :=
  let s := fromUtf8Lossy b
  let max := UInt64.ofNat (2 ^ 64 - 1)
  if s = "-" then (0, 0)
  else if s = "+" then (max, max)
  else if 45 ∈ b then parseId b
  else ((parseId b).1, if isStart then 0 else max)

/-- The reply of the summary form of `xpending`. -/
def pendingSummaryReply (s : Tables.PendingSummary) : RespValue :=
  if s.count = 0 then .array (some [.integer 0, .nil, .nil, .nil])
  else .array (some [.count s.count, bulkOrNil (s.minId.map formatId),
    bulkOrNil (s.maxId.map formatId),
    .array (some (s.perConsumer.map fun p => bulks [asBytes p.1, asBytes (toString p.2)]))])

/-- `xpending`. -/
def xpending (env : Env) (_ : Databases) (args : List Bytes) : SideM RespValue := do
  let s ← Proc.get
  let i := s.ctx.dbIndex
  let group := fromUtf8Lossy (← lift (arg args 1))
  let k ← lift (arg args 0)
  if args.length = 2 then
    let summary ← lift (Tables.xpendingSummary i k group s.tables)
    pure (pendingSummaryReply summary)
  else
    if args.length < 5 then Proc.fail (.error .syntaxError)
    let start := parseRangeId (← lift (arg args 2)) true
    let stop := parseRangeId (← lift (arg args 3)) false
    let count ← lift (orError (argUsize (← lift (arg args 4))) .notInteger)
    let details ← lift (Tables.xpendingRange env.now i k group start stop count
      (args[5]?.map fromUtf8Lossy) s.tables)
    pure (.array (some (details.map fun d => .array (some [.bulk (formatId d.id),
      .bulk (asBytes d.consumer), .count d.idleMs, .count d.deliveryCount]))))

/-- The loop of `xclaim` over its ids and options. -/
def xclaimOptions (env : Env) : List Bytes → List StreamId × Bool → List StreamId × Bool
  | [], o => o
  | [f], o =>
    if upper env f = "FORCE" then o
    else if upper env f = "JUSTID" then (o.1, true)
    else (o.1 ++ [parseId f], o.2)
  | f :: v :: rest, o =>
    if upper env f = "FORCE" then xclaimOptions env (v :: rest) o
    else if upper env f = "JUSTID" then xclaimOptions env (v :: rest) (o.1, true)
    else if upper env f ∈ ["IDLE", "TIME", "RETRYCOUNT", "LASTID"] then xclaimOptions env rest o
    else xclaimOptions env (v :: rest) (o.1 ++ [parseId f], o.2)

/-- `xclaim`. -/
def xclaim (env : Env) (dbs : Databases) (args : List Bytes) : SideM RespValue := do
  let s ← Proc.get
  let group := fromUtf8Lossy (← lift (arg args 1))
  let consumer := fromUtf8Lossy (← lift (arg args 2))
  let minIdleMs ← lift (orError (argU64 (← lift (arg args 3))) .notInteger)
  let (ids, justid) := xclaimOptions env (args.drop 4) ([], false)
  if ids = [] then Proc.fail (.error .syntaxError)
  let claimed ← onTables (Tables.xclaim env.now dbs s.ctx.dbIndex (← lift (arg args 0)) group
    consumer minIdleMs ids justid)
  pure (if justid then bulks (claimed.map fun e => formatId e.id) else serializeEntries claimed)

/-- `stream::COMMANDS`. -/
def streamCommands : List CommandDef := [
  ⟨"XADD", -4, .write xadd⟩,
  ⟨"XRANGE", -4, .read xrange⟩,
  ⟨"XREVRANGE", -4, .read xrevrange⟩,
  ⟨"XLEN", 2, .read xlen⟩,
  ⟨"XDEL", -3, .write xdel⟩,
  ⟨"XTRIM", 4, .write xtrim⟩,
  ⟨"XREAD", -4, .read xread⟩,
  ⟨"XGROUP", -2, .whole xgroup⟩,
  ⟨"XREADGROUP", -7, .side xreadgroup⟩,
  ⟨"XACK", -4, .side xack⟩,
  ⟨"XPENDING", -3, .side xpending⟩,
  ⟨"XCLAIM", -6, .side xclaim⟩]

end Cmd

end VeloDB
