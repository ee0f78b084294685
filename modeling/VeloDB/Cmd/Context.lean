import VeloDB.Store.Lists
import VeloDB.Store.Hashes
import VeloDB.Store.Streams
import VeloDB.Resp.Parser

/-!
# What a command works on

A command gets the store, the context of its client and its arguments. Its type says which of these
it can change: most commands only read the databases or only change the databases, a few change
only the tables and the context, and very few change everything. `Handler` has one constructor for
each of these, so that what a command cannot touch need not be proved.

Indexing an argument that is not there is a panic, and so is a slice that starts past the end.
-/

namespace VeloDB

open Rust

inductive PopDirection
  | left
  | right
  deriving DecidableEq, Repr

structure BlockState where
  keys : List Bytes
  timeoutMs : Int64
  popDirection : PopDirection
  deriving DecidableEq

/-- `ClientContext`. The receiver of published messages is the mailbox it reads. -/
structure ClientContext where
  dbIndex : ℕ := 0
  blockState : Option BlockState := none
  subMode : Bool := false
  subscribedChannels : List Bytes := []
  subscribedPatterns : List String := []
  pubsubRx : Option ℕ := none
  multiMode : Bool := false
  multiQueue : List (List Bytes) := []
  watchedKeys : List Bytes := []
  watchedVersions : List ℕ := []
  authenticated : Bool := true
  protocol : ℕ := 2
  deriving DecidableEq

/-- What a command changes when it cannot change the databases. -/
structure Side where
  tables : Tables
  ctx : ClientContext

/-- What a command changes at most. -/
structure Whole where
  store : Store
  ctx : ClientContext

/-- A procedure over the tables and the context. -/
abbrev SideM := Proc Side Failure

/-- A procedure over everything. -/
abbrev WholeM := Proc Whole Failure

/-- A result of a reading method. -/
abbrev Reply := Except Failure RespValue

/-- The handler of a command, by what it can change. -/
inductive Handler
  /-- Reads one database. -/
  | read (f : Env → Databases → ℕ → List Bytes → Reply)
  /-- Changes databases. -/
  | write (f : Env → ℕ → List Bytes → KeyM RespValue)
  /-- Reads databases, changes the tables and the context. -/
  | side (f : Env → Databases → List Bytes → SideM RespValue)
  | whole (f : Env → List Bytes → WholeM RespValue)
  /-- The commands that run other commands. -/
  | exec
  | eval
  | evalsha

/-- The handler changes databases only. -/
def Handler.isWrite : Handler → Bool
  | .write _ => true
  | _ => false

structure CommandDef where
  name : String
  arity : ℤ
  handler : Handler

/-! ### Arguments -/

/-- `args[n]`. -/
def arg (args : List Bytes) (n : ℕ) : Except Failure Bytes :=
  match args[n]? with
  | some a => .ok a
  | none => .error .panic

/-- `&args[n..]`. -/
def argsFrom (args : List Bytes) (n : ℕ) : Except Failure (List Bytes) :=
  if args.length < n then .error .panic else .ok (args.drop n)

/-- `String::from_utf8_lossy(a).to_uppercase()`. -/
def upper (env : Env) (a : Bytes) : String := env.host.toUppercase (fromUtf8Lossy a)

/-- `parse::<u64>()`. -/
def argU64 (a : Bytes) : Option UInt64 := parseU64 (fromUtf8Lossy a)

/-- `parse::<usize>()`. -/
def argUsize (a : Bytes) : Option ℕ := parseUnsigned usizeMax (fromUtf8Lossy a)

/-- `ok_or(e)?`. -/
def orError {α : Type} (o : Option α) (e : VeloDBError) : Except Failure α :=
  match o with
  | some a => .ok a
  | none => .error (.error e)

/-- `chunks(2)` without a last chunk of one. -/
def parsePairs : List Bytes → List (Bytes × Bytes)
  | f :: v :: r => (f, v) :: parsePairs r
  | _ => []

/-- An array of bulk strings. -/
def bulks (l : List Bytes) : RespValue := .array (some (l.map .bulk))

/-- An array of alternating bulk strings. -/
def bulkPairs (l : List (Bytes × Bytes)) : RespValue :=
  .array (some (l.flatMap fun p => [.bulk p.1, .bulk p.2]))

/-- A bulk string, or nil. -/
def bulkOrNil : Option Bytes → RespValue
  | some b => .bulk b
  | none => .nil

/-- `b as i64`. -/
def flag (b : Bool) : RespValue := .count b.toNat

/-- A step of a handler that does not touch the state. -/
def lift {σ α : Type} (x : Except Failure α) : Proc σ Failure α := Proc.ofExcept x

@[simp] theorem arg_cons_zero (a : Bytes) (args : List Bytes) : arg (a :: args) 0 = .ok a := rfl

@[simp] theorem arg_cons_succ (a : Bytes) (args : List Bytes) (n : ℕ) :
    arg (a :: args) (n + 1) = arg args n := rfl

@[simp] theorem argsFrom_zero (args : List Bytes) : argsFrom args 0 = .ok args := rfl

@[simp] theorem argsFrom_cons_succ (a : Bytes) (args : List Bytes) (n : ℕ) :
    argsFrom (a :: args) (n + 1) = argsFrom args n := by
  simp [argsFrom]

theorem mem_take_of_arg {args : List Bytes} {k : Bytes} {n j : ℕ} (h : arg args n = .ok k)
    (hn : n < j) : k ∈ args.take j := by
  rw [arg] at h
  split at h
  · next a ha =>
    obtain rfl := Except.ok.inj h
    refine List.mem_of_getElem? (i := n) ?_
    rw [List.getElem?_take_of_lt hn, ha]
  · cases h

@[simp] theorem lift_ok_bind {σ α β : Type} (a : α) (f : α → Proc σ Failure β) :
    (lift (.ok a) >>= f) = f a := rfl

end VeloDB
