import VeloDB.Lib.HashMap
import VeloDB.Lib.BTree
import VeloDB.Lib.Float
import VeloDB.Lib.Proc
import VeloDB.Lib.Text
import VeloDB.Host

/-!
# The data of the store

The seven kinds of values, the entries that hold them, and the tables beside the databases. What a
value *means* is `StorageValue.Same`: two hash maps are the same when they have the same lookups,
and the score index of a sorted set is not part of the meaning but has to fit the members
(`ScoreIndex`).
-/

namespace VeloDB

open Rust

/-! ### Errors -/

/-- `VeloDBError`, as far as it is raised. -/
inductive VeloDBError
  | unknownCommand (cmd : String)
  | wrongNumberOfArgs (cmd : String)
  | syntaxError
  | wrongType
  | keyNotFound
  | notInteger
  | overflow
  | indexOutOfRange
  | minOrMaxNotValidFloat
  | streamIdTooSmall
  | internal (msg : String)
  deriving DecidableEq, Repr

/-- The text of an error. -/
def VeloDBError.display : VeloDBError → String
  | .unknownCommand cmd => "ERR unknown command '" ++ cmd ++ "'"
  | .wrongNumberOfArgs cmd => "ERR wrong number of arguments for '" ++ cmd ++ "' command"
  | .syntaxError => "ERR syntax error"
  | .wrongType => "WRONGTYPE Operation against a key holding the wrong kind of value"
  | .keyNotFound => "ERR no such key"
  | .notInteger => "ERR value is not an integer or out of range"
  | .overflow => "ERR increment or decrement would overflow"
  | .indexOutOfRange => "ERR index out of range"
  | .minOrMaxNotValidFloat => "ERR min or max not a valid float"
  | .streamIdTooSmall =>
    "ERR The ID specified in XADD is equal or smaller than the target stream top item"
  | .internal msg => msg

/-- Why a command did not return a result: an error, a panic, or a loop that does not end. -/
inductive Failure
  | error (e : VeloDBError)
  | panic
  | hang
  deriving DecidableEq, Repr

/-! ### Values -/

structure StreamEntry where
  idMs : UInt64
  idSeq : UInt64
  fields : List (Bytes × Bytes)
  deriving DecidableEq, Repr

/-- `OrderedF64::cmp`: a NaN compares equal to everything. -/
def orderedCmp (a b : F64) : Ordering := (a.partialCmp b).getD .eq

/-- The score index of a sorted set: a `BTreeMap` from scores to the members with that score. -/
abbrev Scores := List (F64 × HashSet Bytes)

/-- `StorageValue`. -/
inductive StorageValue
  | string (v : Bytes)
  | list (l : List Bytes)
  | set (s : HashSet Bytes)
  | hash (h : HashMap Bytes Bytes)
  | zset (members : HashMap Bytes F64) (scores : Scores)
  | stream (entries : List StreamEntry) (lastIdMs lastIdSeq : UInt64)
  | nestedHash (nh : HashMap Bytes (HashMap Bytes Bytes))

/-- One key of a database. -/
structure Entry where
  value : StorageValue
  expireAt : Option UInt64 := none
  version : ℕ := 0

/-- One database. -/
abbrev Db := HashMap Bytes Entry

/-- The databases of a store. -/
abbrev Databases := List Db

namespace StorageValue

/-- `type_name`. -/
def typeName : StorageValue → String
  | string _ => "string"
  | list _ => "list"
  | set _ => "set"
  | hash _ => "hash"
  | zset _ _ => "zset"
  | stream _ _ _ => "stream"
  | nestedHash _ => "nh"

/-- `estimated_size`. -/
def estimatedSize : StorageValue → ℕ
  | string v => v.length
  | list l => (l.map fun v => v.length + 24).sum
  | set s => (s.keys.map fun v => v.length + 48).sum
  | hash h => (h.pairs.map fun p => p.1.length + p.2.length + 48).sum
  | zset members _ => (members.pairs.map fun p => p.1.length * 2 + 64).sum
  | stream entries _ _ => (entries.map fun e =>
      16 + (e.fields.map fun p => p.1.length + p.2.length + 48).sum).sum
  | nestedHash nh => (nh.pairs.map fun p =>
      p.1.length + 48 + (p.2.pairs.map fun q => q.1.length + q.2.length + 48).sum).sum

end StorageValue

/-- The expiry time has been reached. -/
def Entry.expired (now : UInt64) (e : Entry) : Bool :=
  match e.expireAt with
  | some at_ => at_ ≤ now
  | none => false

theorem Entry.expired_mono {now t : UInt64} (h : now ≤ t) {e : Entry}
    (he : e.expired now = true) : e.expired t = true := by
  rw [expired] at he ⊢
  cases hat : e.expireAt with
  | none => simp [hat] at he
  | some at_ =>
    simp only [hat, decide_eq_true_eq] at he ⊢
    exact UInt64.le_trans he h

/-! ### What values mean -/

/-- The score index fits the members: it is in order, no bucket is empty, and a member is in the
bucket of a score exactly when it has that score. -/
structure ScoreIndex (members : HashMap Bytes F64) (scores : Scores) : Prop where
  sorted : BTree.Sorted F64.rank (fun s => s.isNaN = false) scores
  nonempty : ∀ p ∈ scores, ∃ m, m ∈ p.2
  bucket : ∀ s m, s.isNaN = false →
    ((∃ b, BTree.get? orderedCmp s scores = some b ∧ m ∈ b) ↔
      ∃ s', members.lookup m = some s' ∧ s'.rank = s.rank)

/-- Two nested hashes with the same fields, subfields and values. -/
def SameNested (a b : HashMap Bytes (HashMap Bytes Bytes)) : Prop :=
  ∀ f, Option.Rel HashMap.Same (a.lookup f) (b.lookup f)

/-- The same value: equal contents, in the same order where there is one. -/
inductive StorageValue.Same : StorageValue → StorageValue → Prop
  | string (v : Bytes) : Same (.string v) (.string v)
  | list (l : List Bytes) : Same (.list l) (.list l)
  | set {s s' : HashSet Bytes} (h : HashMap.Same s s') : Same (.set s) (.set s')
  | hash {m m' : HashMap Bytes Bytes} (h : HashMap.Same m m') : Same (.hash m) (.hash m')
  | zset {m m' : HashMap Bytes F64} (h : HashMap.Same m m') (sc sc' : Scores) :
    Same (.zset m sc) (.zset m' sc')
  | stream (es : List StreamEntry) (ms seq : UInt64) : Same (.stream es ms seq) (.stream es ms seq)
  | nestedHash {m m' : HashMap Bytes (HashMap Bytes Bytes)} (h : SameNested m m') :
    Same (.nestedHash m) (.nestedHash m')

/-- The score index of a value, if it has one, fits. -/
def StorageValue.Indexed : StorageValue → Prop
  | .zset members scores => ScoreIndex members scores
  | _ => True

/-- The same value and the same expiry; the version is bookkeeping. -/
structure Entry.Same (e e' : Entry) : Prop where
  value : e.value.Same e'.value
  expireAt : e.expireAt = e'.expireAt

theorem StorageValue.Same.refl (v : StorageValue) : v.Same v := by
  cases v with
  | string v => exact .string v
  | list l => exact .list l
  | set s => exact .set fun _ => rfl
  | hash m => exact .hash fun _ => rfl
  | zset m sc => exact .zset (fun _ => rfl) sc sc
  | stream es ms seq => exact .stream es ms seq
  | nestedHash m =>
    refine .nestedHash fun f => ?_
    cases m.lookup f with
    | none => exact .none
    | some inner => exact .some fun _ => rfl

theorem Entry.Same.refl (e : Entry) : e.Same e := ⟨.refl e.value, rfl⟩

/-! ### The store -/

/-- Clients blocked on keys: the id and the notification handle of each. -/
structure BlockRegistry where
  waiters : HashMap Bytes (List (ℕ × ℕ)) := ∅
  nextId : ℕ := 1

/-- Subscribers, by the mailbox each reads from. A mailbox exists as long as its reader does. -/
structure PubSubRegistry where
  channels : HashMap Bytes (List ℕ) := ∅
  patterns : HashMap String (List ℕ) := ∅
  mailboxes : HashMap ℕ (List (Bytes × Bytes)) := ∅
  nextMailbox : ℕ := 0

inductive EvictionPolicy
  | noEviction
  | allKeysRandom
  | volatileRandom
  deriving DecidableEq, Repr

structure PendingEntry where
  consumer : String
  deliveryTimeMs : UInt64
  deliveryCount : ℕ
  deriving DecidableEq, Repr

/-- The order of stream ids. -/
def compareId (a b : UInt64 × UInt64) : Ordering :=
  (compare a.1 b.1).then (compare a.2 b.2)

structure ConsumerGroup where
  lastDeliveredMs : UInt64
  lastDeliveredSeq : UInt64
  consumers : HashSet String := ∅
  /-- A `BTreeMap` keyed by stream id. -/
  pending : List ((UInt64 × UInt64) × PendingEntry) := []

/-- `lua_scripts`. A reader of an entry keeps the shard of its key locked for writing. -/
structure ScriptMap where
  entries : HashMap String String := ∅
  /-- The keys of the entries that are being read, the one that was found last first. -/
  readers : List String := []

/-- Everything in the store except the databases. -/
structure Tables where
  blockRegistry : BlockRegistry := {}
  pubsubRegistry : PubSubRegistry := {}
  luaScripts : ScriptMap := {}
  maxmemory : ℕ := 0
  evictionPolicy : EvictionPolicy := .noEviction
  cachedMemoryUsage : ℕ := 0
  scanCursors : HashMap ℕ Bytes := ∅
  nextScanCursor : ℕ := 1
  consumerGroups : HashMap (ℕ × Bytes × String) ConsumerGroup := ∅
  /-- Notification handles that have been fired. -/
  woken : List ℕ := []

structure Store where
  databases : Databases
  tables : Tables := {}

/-- `Store::new`. -/
def Store.new (num : ℕ) : Store where
  databases := List.replicate num ∅

end VeloDB
