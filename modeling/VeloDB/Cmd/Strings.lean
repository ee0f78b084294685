import VeloDB.Cmd.Context

/-!
# String commands

Every writing command here goes through `Store::set`, most of them after a separate `get`.
-/

namespace VeloDB.Cmd

open Rust

/-- `get`. -/
def get (env : Env) (dbs : Databases) (i : ℕ) (args : List Bytes) : Reply := do
  let v ← ofResult (dbs.get env.now i (← arg args 0))
  pure (bulkOrNil v)

/-- The options of `SET`. -/
structure SetOptions where
  expireMs : Option UInt64 := none
  nx : Bool := false
  xx : Bool := false

/-- The expiry an option stands for. The sum and the product wrap. -/
def setExpiry (env : Env) (flag : String) (n : Int64) : UInt64 :=
  if flag = "EX" then env.now + (n * 1000).toUInt64
  else if flag = "PX" then env.now + n.toUInt64
  else if flag = "EXAT" then (n * 1000).toUInt64
  else n.toUInt64

/-- The loop of `set` over its flags. Unknown flags are skipped, and so is an expiry that is not a
number. -/
def setFlags (env : Env) : List Bytes → SetOptions → SetOptions
  | [], o => o
  | [f], o =>
    let flag := upper env f
    if flag = "NX" then { o with nx := true }
    else if flag = "XX" then { o with xx := true }
    else o
  | f :: v :: rest, o =>
    let flag := upper env f
    if flag = "EX" ∨ flag = "PX" ∨ flag = "EXAT" ∨ flag = "PXAT" then
      setFlags env rest (match parseI64 v with
        | some n => { o with expireMs := some (setExpiry env flag n) }
        | none => o)
    else if flag = "NX" then setFlags env (v :: rest) { o with nx := true }
    else if flag = "XX" then setFlags env (v :: rest) { o with xx := true }
    else setFlags env (v :: rest) o

/-- `set`. -/
def set (env : Env) (i : ℕ) (args : List Bytes) : KeyM RespValue := do
  let flags ← lift (argsFrom args 2)
  let o := setFlags env flags {}
  let key ← lift (arg args 0)
  let value ← lift (arg args 1)
  if o.nx ∨ o.xx then
    let exists_ ← Keyspace.read fun dbs => dbs.existsKey env.now i key
    if (o.nx ∧ exists_) ∨ (o.xx ∧ ¬exists_) then pure .nil
    else
      Keyspace.set i key value o.expireMs
      pure .ok
  else
    Keyspace.set i key value o.expireMs
    pure .ok

/-- `mget`. -/
def mget (env : Env) (dbs : Databases) (i : ℕ) (args : List Bytes) : Reply := do
  let results ← args.mapM fun key => ofResult (dbs.get env.now i key)
  pure (.array (some (results.map bulkOrNil)))

/-- `mset`. -/
def mset (_ : Env) (i : ℕ) (args : List Bytes) : KeyM RespValue := do
  if args.length % 2 ≠ 0 then Keyspace.throw (.wrongNumberOfArgs "MSET")
  Proc.each (parsePairs args) fun p => Keyspace.set i p.1 p.2 none
  pure .ok

/-- `incr_fn`. A value that is not a number counts as zero. -/
def incrFn (env : Env) (i : ℕ) (key : Bytes) (by_ : Int64) : KeyM RespValue := do
  let v ← Keyspace.read fun dbs => dbs.get env.now i key
  let current := (v >>= parseI64).getD 0
  let new ← lift (orError (checkedAdd current by_) .overflow)
  Keyspace.set i key (i64Bytes new) none
  pure (.integer new)

/-- `incr`. -/
def incr (env : Env) (i : ℕ) (args : List Bytes) : KeyM RespValue := do
  incrFn env i (← lift (arg args 0)) 1

/-- `incrby`. -/
def incrby (env : Env) (i : ℕ) (args : List Bytes) : KeyM RespValue := do
  let by_ ← lift (orError (parseI64 (← lift (arg args 1))) .notInteger)
  incrFn env i (← lift (arg args 0)) by_

/-- `decr`. -/
def decr (env : Env) (i : ℕ) (args : List Bytes) : KeyM RespValue := do
  incrFn env i (← lift (arg args 0)) (-1)

/-- `decrby`. The negation wraps. -/
def decrby (env : Env) (i : ℕ) (args : List Bytes) : KeyM RespValue := do
  let by_ ← lift (orError (parseI64 (← lift (arg args 1))) .notInteger)
  incrFn env i (← lift (arg args 0)) (-by_)

/-- `append`. -/
def append (env : Env) (i : ℕ) (args : List Bytes) : KeyM RespValue := do
  let key ← lift (arg args 0)
  let v ← Keyspace.read fun dbs => dbs.get env.now i key
  let current := v.getD [] ++ (← lift (arg args 1))
  Keyspace.set i key current none
  pure (.count current.length)

/-- `strlen`. -/
def strlen (env : Env) (dbs : Databases) (i : ℕ) (args : List Bytes) : Reply := do
  let v ← ofResult (dbs.get env.now i (← arg args 0))
  pure (.count ((v.map List.length).getD 0))

/-- The bytes `getrange` cuts out of a value. -/
def sliceBytes (val : Bytes) (start stop : Int64) : Bytes :=
  let len := Int64.ofNat val.length
  let s := asUsize (if start < 0 then max (len + start) 0 else min start (len - 1))
  let e := asUsize (if stop < 0 then max (len + stop) (-1) else min stop (len - 1))
  if e < s ∨ val.length ≤ s then [] else (val.drop s).take (min e (val.length - 1) + 1 - s)

/-- `getrange`. -/
def getrange (env : Env) (dbs : Databases) (i : ℕ) (args : List Bytes) : Reply := do
  let start := (parseI64 (← arg args 1)).getD 0
  let stop := (parseI64 (← arg args 2)).getD (-1)
  let v ← ofResult (dbs.get env.now i (← arg args 0))
  pure (.bulk ((v.map fun val => sliceBytes val start stop).getD []))

/-- What `setrange` writes into a value; `none` where it would ask for more bytes than a vector can
hold, or index out of bounds. -/
def overwrite (current : Bytes) (offset : ℕ) (patch : Bytes) : Option Bytes :=
  let stop := (offset + patch.length) % 2 ^ 64
  if current.length < stop ∧ isizeMax < stop then none
  else
    let current := if current.length < stop then
      current ++ List.replicate (stop - current.length) 0 else current
    if offset ≤ stop then some (current.take offset ++ patch ++ current.drop stop) else none

/-- `setrange`. -/
def setrange (env : Env) (i : ℕ) (args : List Bytes) : KeyM RespValue := do
  let offset := (argUsize (← lift (arg args 1))).getD 0
  let key ← lift (arg args 0)
  let v ← Keyspace.read fun dbs => dbs.get env.now i key
  let patch ← lift (arg args 2)
  match overwrite (v.getD []) offset patch with
  | some current =>
    Keyspace.set i key current none
    pure (.count current.length)
  | none => Proc.fail .panic

/-- `getset`. -/
def getset (env : Env) (i : ℕ) (args : List Bytes) : KeyM RespValue := do
  let key ← lift (arg args 0)
  let old ← Keyspace.read fun dbs => dbs.get env.now i key
  Keyspace.set i key (← lift (arg args 1)) none
  pure (bulkOrNil old)

/-- `string::COMMANDS`. -/
def stringCommands : List CommandDef := [
  ⟨"GET", 2, .read get⟩,
  ⟨"SET", -3, .write set⟩,
  ⟨"MGET", -2, .read mget⟩,
  ⟨"MSET", -3, .write mset⟩,
  ⟨"INCR", 2, .write incr⟩,
  ⟨"INCRBY", 3, .write incrby⟩,
  ⟨"DECR", 2, .write decr⟩,
  ⟨"DECRBY", 3, .write decrby⟩,
  ⟨"APPEND", 3, .write append⟩,
  ⟨"STRLEN", 2, .read strlen⟩,
  ⟨"GETRANGE", 4, .read getrange⟩,
  ⟨"SETRANGE", 4, .write setrange⟩,
  ⟨"GETSET", 3, .write getset⟩]

end VeloDB.Cmd
