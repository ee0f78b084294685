import VeloDB.Lib.Text
import VeloDB.Lib.Float

/-!
# What the server takes from outside

The parts of the server that are neither its own code nor simple enough to define exactly are
fields of one record, `Host`, and the whole model is parametric in it: printing and parsing of
floating-point numbers, the Unicode case tables outside ASCII, the SHA-1 and CRC16 digests, and
the Lua interpreter.

A Lua script is seen only through its calls of `redis.call`, so a run of the interpreter is a
`LuaProc`: it returns, raises an error, or makes a call and goes on with whatever the call answers.

Time and the nanosecond counter used for random choices change from command to command, so they
are not part of `Host` but of the `Moment` a command runs at.
-/

namespace VeloDB

open Rust

/-- `mlua::Value`, as far as scripts and the bridge exchange it. -/
inductive LuaValue
  | nil
  | boolean (b : Bool)
  | integer (i : Int64)
  | number (d : F64)
  | string (s : Bytes)
  | table (entries : List (LuaValue × LuaValue))
  | other

/-- How a call of `redis.call` goes wrong inside the script. A script can catch both. -/
inductive CallFailure
  | error (msg : String)
  | panic

/-- A script in execution. -/
inductive LuaProc
  /-- The script returned a value. -/
  | ret (v : LuaValue)
  /-- The script raised an error. -/
  | fail (msg : String)
  /-- A panic went through the script. -/
  | panic
  /-- The script calls `redis.call`; the continuation takes the answer, or the failure the call
  raised inside the script. -/
  | call (args : List LuaValue) (k : Except CallFailure LuaValue → LuaProc)

/-- Library code the server calls. -/
structure Host where
  /-- `f64`'s `Display`. -/
  displayF64 : F64 → String
  /-- `f64`'s `FromStr`. -/
  parseF64 : String → Option F64
  /-- `char::to_uppercase` outside ASCII. -/
  charToUppercase : Char → List Char
  /-- `str::to_lowercase` of a text that is not all ASCII. -/
  strToLowercase : String → String
  /-- The hexadecimal SHA-1 digest. -/
  sha1Hex : String → String
  /-- CRC16/XMODEM. -/
  crc16 : Bytes → UInt16
  /-- The shard of `lua_scripts` that a digest lies in; the hash that says so has random keys. -/
  scriptShard : String → ℕ
  /-- Loading and running a script with its `KEYS` and `ARGV`. -/
  lua : String → List String → List String → LuaProc

/-- A host for runs on fixed inputs: numbers without a fraction, ASCII text and no scripts. -/
def Host.plain : Host where
  displayF64 d := match d.toInt? with
    | some z => toString z
    | none => "NaN"
  parseF64 _ := none
  charToUppercase c := [c]
  strToLowercase s := s
  sha1Hex _ := ""
  crc16 _ := 0
  scriptShard _ := 0
  lua _ _ _ := .ret .nil

/-- What is different each time a command runs. -/
structure Moment where
  /-- Milliseconds since the epoch. -/
  now : UInt64
  /-- `subsec_nanos` of the clock. -/
  nanos : ℕ
  /-- Whole seconds since the process started. -/
  uptime : ℕ
  /-- How deep commands that run other commands can be nested before the stack overflows. -/
  nesting : ℕ

/-- What a command reads from outside. -/
structure Env extends Moment where
  host : Host

/-- The host at a moment. -/
def Moment.on (m : Moment) (H : Host) : Env := { m with host := H }

namespace Host

variable (H : Host)

/-- `char::to_uppercase`. -/
def upperChar (c : Char) : List Char :=
  if c.toNat < 0x80 then [c.toUpper] else H.charToUppercase c

/-- `str::to_uppercase`. -/
def toUppercase (s : String) : String := String.ofList (s.toList.flatMap H.upperChar)

/-- `str::to_lowercase`. -/
def toLowercase (s : String) : String :=
  if s.toList.all fun c => c.toNat < 0x80 then String.ofList (s.toList.map Char.toLower)
  else H.strToLowercase s

/-- Upper-case ASCII text stays as it is, whatever the Unicode tables say. -/
theorem toUppercase_of_upper {s : String}
    (h : s.toList.all (fun c => decide (c.toNat < 0x80) && c.toUpper == c) = true) :
    H.toUppercase s = s := by
  have key : ∀ l : List Char,
      l.all (fun c => decide (c.toNat < 0x80) && c.toUpper == c) = true →
        l.flatMap H.upperChar = l := by
    intro l hl
    induction l with
    | nil => rfl
    | cons c l ih =>
      rw [List.all_cons, Bool.and_eq_true, Bool.and_eq_true] at hl
      obtain ⟨⟨hc, hup⟩, hl⟩ := hl
      rw [List.flatMap_cons, ih hl, upperChar, if_pos (of_decide_eq_true hc), eq_of_beq hup,
        List.singleton_append]
  rw [toUppercase, key _ h, String.ofList_toList]

end Host

end VeloDB
