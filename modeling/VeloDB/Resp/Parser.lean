import VeloDB.Lib.Nom
import VeloDB.Lib.Float

/-!
# The RESP value type and its parser

`RespValue` has nine constructors; the parser reads the five that RESP2 has on the wire. A nested
array makes the parser recursive, and every level of nesting eats at least one byte, so the
recursion is written with the length of the input as fuel. `respValue_eq` is the recursive equation
of the program, with no fuel in it.

## Main results

* `stable_respValue`, `stable_parseCommand` — an accepted input stays accepted when bytes follow
* `consumes_respValue` — and at least one byte of it was eaten
* `parse_extended` — both, of values and of commands
* `complete_respValue` — every failure is `Err.error`; the parser never answers "incomplete"
-/

namespace VeloDB

open Rust Nom

/-- A reply or a request. -/
inductive RespValue
  | simpleString (s : String)
  | error (s : String)
  | integer (i : Int64)
  | bulkString (b : Option Bytes)
  | array (items : Option (List RespValue))
  /-- RESP3 map. -/
  | map (pairs : List (RespValue × RespValue))
  /-- RESP3 double. -/
  | double (d : F64)
  /-- RESP3 boolean. -/
  | boolean (b : Bool)
  /-- RESP3 null. -/
  | null

namespace RespValue

def ok : RespValue := simpleString "OK"
def pong : RespValue := simpleString "PONG"
def nil : RespValue := bulkString none
/-- `RespValue::bulk_string`. -/
def bulk (b : Bytes) : RespValue := bulkString (some b)
/-- An integer reply made from a length or a counter, as `n as i64` does. -/
def count (n : ℕ) : RespValue := integer (Int64.ofNat n)

/-- `as_bulk_string_owned`. -/
def asBulkString : RespValue → Option Bytes
  | bulkString (some b) => some b
  | simpleString s => some (asBytes s)
  | _ => none

/-- Whether a reply is an error. -/
def isError : RespValue → Bool
  | error _ => true
  | _ => false

end RespValue

/-! ### The parser -/

/-- The text between a tag byte and the end of the line. -/
def textLine (t : UInt8) (mk : String → RespValue) : Parser RespValue := fun i => do
  let (i, _) ← tag [t] i
  let (i, bytes) ← terminated (takeWhileMN 0 usizeMax fun b => b != 13) crlf i
  .ok (i, mk (fromUtf8Lossy bytes))

/-- `simple_string`. -/
def simpleString : Parser RespValue := textLine 43 .simpleString

/-- `parse_error`. -/
def parseError : Parser RespValue := textLine 45 .error

/-- `integer`. -/
def integer : Parser RespValue := fun i => do
  let (i, _) ← tag [58] i
  let (i, num) ← terminated i64 crlf i
  .ok (i, .integer num)

/-- `bulk_string` after its length. -/
def bulkBody (len : Int64) : Parser RespValue := fun i =>
  if len.toInt < 0 then .ok (i, .bulkString none)
  else do
    let (i, bytes) ← terminated (take len.toInt.toNat) crlf i
    .ok (i, .bulkString (some bytes))

/-- `bulk_string`. -/
def bulkString : Parser RespValue := fun i => do
  let (i, _) ← tag [36] i
  let (i, len) ← terminated i64 crlf i
  bulkBody len i

/-- `array` after its length, with the parser of its items as a parameter. -/
def arrayBody (item : Parser RespValue) (len : Int64) : Parser RespValue := fun i =>
  if len.toInt < 0 then .ok (i, .array none)
  else do
    let (i, items) ← manyMN len.toInt.toNat len.toInt.toNat item i
    .ok (i, .array (some items))

/-- `array`. -/
def array (item : Parser RespValue) : Parser RespValue := fun i => do
  let (i, _) ← tag [42] i
  let (i, len) ← terminated i64 crlf i
  arrayBody item len i

/-- The alternatives of `resp_value`, each with the byte it starts with. -/
def respBranches (item : Parser RespValue) : List (UInt8 × Parser RespValue) :=
  [(43, simpleString), (45, parseError), (58, integer), (36, bulkString), (42, array item)]

/-- One level of `resp_value`. -/
def respLevel (item : Parser RespValue) : Parser RespValue :=
  alt ((respBranches item).map Prod.snd)

/-- `resp_value`, to a given depth of nesting. -/
def respValueDepth : ℕ → Parser RespValue
  | 0 => fun _ => .error .error
  | fuel + 1 => respLevel (respValueDepth fuel)

/-- `resp_value`. -/
def respValue : Parser RespValue := fun i => respValueDepth (i.length + 1) i

/-- `parse_command`: the bulk (or simple) strings of an array; the empty list for any other
value. -/
def parseCommand : Parser (List Bytes) := fun i => do
  let (rest, value) ← respValue i
  match value with
  | .array (some items) => .ok (rest, items.filterMap RespValue.asBulkString)
  | _ => .ok (rest, [])

/-! ### One level -/

theorem stable_take_crlf (n : ℕ) : Stable (terminated (take n) crlf) :=
  (stable_take n).seq (q := fun a r => crlf r >>= fun rb => .ok (rb.1, a)) fun a =>
    stable_crlf.seq (q := fun _ r => .ok (r, a)) fun _ => stable_ok a

theorem stable_textLine (t : UInt8) (mk : String → RespValue) : Stable (textLine t mk) :=
  (stable_tag [t]).seq fun _ => (stable_line usizeMax).seq fun bytes =>
    stable_ok (mk (fromUtf8Lossy bytes))

theorem stable_integer : Stable integer :=
  (stable_tag [58]).seq fun _ => stable_terminated_i64_crlf.seq fun num =>
    stable_ok (RespValue.integer num)

theorem stable_bulkBody (len : Int64) : Stable (bulkBody len) := by
  intro i r v h x
  rw [bulkBody] at h ⊢
  split_ifs at h ⊢
  · exact stable_ok _ h x
  · exact (stable_take_crlf _).seq (fun bytes => stable_ok (RespValue.bulkString (some bytes))) h x

theorem stable_bulkString : Stable bulkString :=
  (stable_tag [36]).seq fun _ => stable_terminated_i64_crlf.seq stable_bulkBody

theorem stable_arrayBody {item : Parser RespValue} (hitem : Stable item) (len : Int64) :
    Stable (arrayBody item len) := by
  intro i r v h x
  rw [arrayBody] at h ⊢
  split_ifs at h ⊢
  · exact stable_ok _ h x
  · exact (stable_manyMN hitem _).seq (fun items => stable_ok (RespValue.array (some items))) h x

theorem stable_array {item : Parser RespValue} (hitem : Stable item) : Stable (array item) :=
  (stable_tag [42]).seq fun _ => stable_terminated_i64_crlf.seq (stable_arrayBody hitem)

theorem forall_mem_respBranches {item : Parser RespValue} {P : UInt8 × Parser RespValue → Prop}
    (h₁ : P (43, simpleString)) (h₂ : P (45, parseError)) (h₃ : P (58, integer))
    (h₄ : P (36, bulkString)) (h₅ : P (42, array item)) : ∀ q ∈ respBranches item, P q := by
  simp only [respBranches, List.forall_mem_cons, List.not_mem_nil, false_imp_iff, implies_true,
    and_true]
  exact ⟨h₁, h₂, h₃, h₄, h₅⟩

theorem headed_respBranches (item : Parser RespValue) :
    ∀ q ∈ respBranches item, Headed q.1 q.2 :=
  forall_mem_respBranches (headed_tag_bind 43 _) (headed_tag_bind 45 _) (headed_tag_bind 58 _)
    (headed_tag_bind 36 _) (headed_tag_bind 42 _)

theorem stable_respLevel {item : Parser RespValue} (hitem : Stable item) :
    Stable (respLevel item) :=
  stable_alt (by simp [respBranches]) fun q hq => ⟨headed_respBranches item q hq,
    forall_mem_respBranches (P := fun q => Stable q.2) (stable_textLine _ _) (stable_textLine _ _)
      stable_integer stable_bulkString (stable_array hitem) q hq⟩

theorem consumes_respLevel {item : Parser RespValue} (hitem : Suffixing item) :
    Consumes (respLevel item) := by
  have hline : Suffixing (terminated (takeWhileMN 0 usizeMax fun b => b != 13) crlf) :=
    suffixing_terminated (suffixing_takeWhileMN _ _ _) suffixing_crlf
  have hlen : Suffixing (terminated i64 crlf) := suffixing_terminated suffixing_i64 suffixing_crlf
  have htext : ∀ t mk, Consumes (textLine t mk) := fun t mk =>
    (consumes_tag t []).seq fun _ => hline.seq fun bytes => suffixing_ok (mk (fromUtf8Lossy bytes))
  have hbulk : ∀ len, Suffixing (bulkBody len) := by
    intro len i r v h
    rw [bulkBody] at h
    split_ifs at h
    · exact suffixing_ok _ h
    · exact (suffixing_terminated (suffixing_take _) suffixing_crlf).seq
        (fun bytes => suffixing_ok (RespValue.bulkString (some bytes))) h
  have harr : ∀ len, Suffixing (arrayBody item len) := by
    intro len i r v h
    rw [arrayBody] at h
    split_ifs at h
    · exact suffixing_ok _ h
    · exact (suffixing_manyMN hitem _ _).seq
        (fun items => suffixing_ok (RespValue.array (some items))) h
  refine consumes_alt fun p hp => ?_
  obtain ⟨q, hq, rfl⟩ := List.mem_map.mp hp
  exact forall_mem_respBranches (P := fun q => Consumes q.2) (htext _ _) (htext _ _)
    ((consumes_tag 58 []).seq fun _ => hlen.seq fun num => suffixing_ok (RespValue.integer num))
    ((consumes_tag 36 []).seq fun _ => hlen.seq hbulk)
    ((consumes_tag 42 []).seq fun _ => hlen.seq harr) q hq

theorem complete_respLevel {item : Parser RespValue} (hitem : Complete item) :
    Complete (respLevel item) := by
  have hline : Complete (terminated (takeWhileMN 0 usizeMax fun b => b != 13) crlf) :=
    complete_terminated (complete_takeWhileMN _ _ _) complete_crlf
  have hlen : Complete (terminated i64 crlf) := complete_terminated complete_i64 complete_crlf
  have htext : ∀ t mk, Complete (textLine t mk) := fun t mk =>
    (complete_tag [t]).seq fun _ => hline.seq fun bytes =>
      complete_ok fun i => (i, mk (fromUtf8Lossy bytes))
  have hbulk : ∀ len, Complete (bulkBody len) := by
    intro len i e h
    rw [bulkBody] at h
    split_ifs at h
    exact (complete_terminated (complete_take _) complete_crlf).seq
      (fun bytes => complete_ok fun i => (i, RespValue.bulkString (some bytes))) h
  have harr : ∀ len, Complete (arrayBody item len) := by
    intro len i e h
    rw [arrayBody] at h
    split_ifs at h
    exact (complete_manyMN hitem _).seq
      (fun items => complete_ok fun i => (i, RespValue.array (some items))) h
  refine complete_alt fun p hp => ?_
  obtain ⟨q, hq, rfl⟩ := List.mem_map.mp hp
  exact forall_mem_respBranches (P := fun q => Complete q.2) (htext _ _) (htext _ _)
    ((complete_tag [58]).seq fun _ => hlen.seq fun num =>
      complete_ok fun i => (i, RespValue.integer num))
    ((complete_tag [36]).seq fun _ => hlen.seq hbulk)
    ((complete_tag [42]).seq fun _ => hlen.seq harr) q hq

/-! ### All levels -/

theorem stable_respValueDepth (fuel : ℕ) : Stable (respValueDepth fuel) := by
  induction fuel with
  | zero => intro i r v h; cases h
  | succ fuel ih => exact stable_respLevel ih

theorem consumes_respValueDepth (fuel : ℕ) : Consumes (respValueDepth fuel) := by
  induction fuel with
  | zero => intro i r v h; cases h
  | succ fuel ih => exact consumes_respLevel ih.suffixing

theorem complete_respValueDepth (fuel : ℕ) : Complete (respValueDepth fuel) := by
  induction fuel with
  | zero => intro i e h; injection h with h; exact h.symm
  | succ fuel ih => exact complete_respLevel ih

/-- One level depends on the item parser only through inputs shorter than its own: the tag of the
array is gone before the first item is read. -/
theorem respLevel_congr {p q : Parser RespValue} (hp : Suffixing p) {n : ℕ}
    (h : ∀ i : Bytes, i.length < n → p i = q i) (i : Bytes) (hi : i.length ≤ n) :
    respLevel p i = respLevel q i := by
  have harr : array p i = array q i := by
    rw [array, array]
    cases ht : tag [42] i with
    | error e => rfl
    | ok ra =>
      have h₁ := consumes_tag 42 [] ht
      simp only [bind, Except.bind]
      cases hl : terminated i64 crlf ra.1 with
      | error e => rfl
      | ok rl =>
        have h₂ := suffixing_terminated suffixing_i64 suffixing_crlf hl
        have hlen : rl.1.length < n := by
          have := h₂.length_le
          omega
        have hmany : ∀ k, manyMN k k p rl.1 = manyMN k k q rl.1 := by
          intro k
          rw [manyMN, manyMN, if_neg (lt_irrefl k), if_neg (lt_irrefl k),
            manyLoop_congr (n := rl.1.length) hp (fun j hj => h j (by omega)) k k 0 rl.1 le_rfl]
        simp only [arrayBody, hmany]
  simp only [respLevel, respBranches, List.map_cons, List.map_nil, alt, harr]

/-- Fuel beyond the length of the input changes nothing. -/
theorem respValueDepth_eq {fuel fuel' : ℕ} {i : Bytes} (h : i.length < fuel)
    (h' : i.length < fuel') : respValueDepth fuel i = respValueDepth fuel' i := by
  induction fuel generalizing fuel' i with
  | zero => omega
  | succ fuel ih =>
    obtain ⟨fuel', rfl⟩ : ∃ k, fuel' = k + 1 := ⟨fuel' - 1, by omega⟩
    exact respLevel_congr (consumes_respValueDepth fuel).suffixing
      (fun j hj => ih (i := j) (by omega) (by omega)) i le_rfl

/-- **The recursive equation of `resp_value`.** -/
theorem respValue_eq (i : Bytes) : respValue i = respLevel respValue i := by
  refine respLevel_congr (consumes_respValueDepth _).suffixing (n := i.length) ?_ i le_rfl
  intro j hj
  exact respValueDepth_eq hj (Nat.lt_succ_self _)

theorem stable_respValue : Stable respValue := by
  intro i r v h x
  have hlen : i.length < (i ++ x).length + 1 := by
    rw [List.length_append]
    omega
  rw [respValue, respValueDepth_eq (Nat.lt_succ_self _) hlen] at h
  exact stable_respValueDepth _ h x

theorem consumes_respValue : Consumes respValue := fun _ _ _ h => consumes_respValueDepth _ h

theorem complete_respValue : Complete respValue := fun _ _ h => complete_respValueDepth _ h

/-! ### Commands -/

/-- The arguments a value carries as a command. -/
def commandArgs : RespValue → List Bytes
  | .array (some items) => items.filterMap RespValue.asBulkString
  | _ => []

theorem parseCommand_eq (i : Bytes) :
    parseCommand i = respValue i >>= fun rv => .ok (rv.1, commandArgs rv.2) := by
  rw [parseCommand]
  congr 1
  funext rv
  obtain ⟨r, v⟩ := rv
  dsimp only
  split
  · rfl
  · next h => rw [commandArgs.eq_def]; split
              · next items => exact absurd rfl (h items)
              · rfl

theorem stable_parseCommand : Stable parseCommand := by
  intro i r args h x
  rw [parseCommand_eq] at h ⊢
  exact stable_respValue.seq (fun v => stable_ok (commandArgs v)) h x

theorem consumes_parseCommand : Consumes parseCommand := by
  intro i r args h
  rw [parseCommand_eq] at h
  exact consumes_respValue.seq (fun v => suffixing_ok (commandArgs v)) h

theorem complete_parseCommand : Complete parseCommand := by
  intro i e h
  rw [parseCommand_eq] at h
  exact complete_respValue.seq (fun v => complete_ok fun i => (i, commandArgs v)) h

/-- **A frame means the same whatever arrives behind it**: its arguments and its value stay, what
was left over is left over in front of the new bytes, and what was eaten is not empty. -/
theorem parse_extended (b x r : Bytes) :
    (∀ args, parseCommand b = .ok (r, args) →
      parseCommand (b ++ x) = .ok (r ++ x, args) ∧ ∃ eaten, eaten ≠ [] ∧ b = eaten ++ r) ∧
    ∀ v, respValue b = .ok (r, v) →
      respValue (b ++ x) = .ok (r ++ x, v) ∧ ∃ eaten, eaten ≠ [] ∧ b = eaten ++ r := by
  constructor
  · intro args h
    exact ⟨stable_parseCommand h x, consumes_parseCommand.exists_eaten h⟩
  · intro v h
    exact ⟨stable_respValue h x, consumes_respValue.exists_eaten h⟩

/-- A `PING` with half of the next command behind it, and the other half. -/
theorem parse_extended_ping :
    parseCommand (asBytes "*1\r\n$4\r\nPING\r\n*1\r\n$4\r" ++ asBytes "\nQUIT\r\n")
      = .ok (asBytes "*1\r\n$4\r" ++ asBytes "\nQUIT\r\n", [asBytes "PING"]) :=
  ((parse_extended (asBytes "*1\r\n$4\r\nPING\r\n*1\r\n$4\r") (asBytes "\nQUIT\r\n")
    (asBytes "*1\r\n$4\r")).1 [asBytes "PING"] (by decide +kernel)).1

end VeloDB
