import VeloDB.Host
import VeloDB.Resp.Parser

/-!
# Serializing replies

`serialize_value` writes a value for protocol 2 or 3. Under RESP2 the four RESP3 types have no
frame of their own and are written as something older; `degrade` says what a RESP2 reader sees of
a value, and `respValue_serializeResponse` is the round trip over the whole type.

The length prefixes are read back as `i64`. The round trip asks that the serialized bytes be a
buffer Rust can hold, at most `isize::MAX` bytes; every length written in it is then in range.

## Main results

* `respValue_serializeResponse` — the round trip
-/

namespace VeloDB

open Rust Nom

/-- `\r\n`. -/
def crlfBytes : Bytes := [13, 10]

/-- `format_double`. -/
def formatDouble (H : Host) (d : F64) : String :=
  if d.isInfinite then (if d.negative then "-inf" else "inf")
  else if d.isNaN then "nan"
  else match d.toInt? with
    | some z => if z.natAbs < 10 ^ 17 then toString z else H.displayF64 d
    | none => H.displayF64 d

/-- A bulk string frame. -/
def bulkFrame (b : Bytes) : Bytes :=
  36 :: asBytes (toString b.length) ++ crlfBytes ++ b ++ crlfBytes

mutual

/-- `serialize_value`. -/
def serializeValue (H : Host) (protocol : ℕ) : RespValue → Bytes
  | .simpleString s => 43 :: asBytes s ++ crlfBytes
  | .error s => 45 :: asBytes s ++ crlfBytes
  | .integer i => 58 :: asBytes (toString i.toInt) ++ crlfBytes
  | .bulkString none =>
    if 3 ≤ protocol then asBytes "_" ++ crlfBytes else asBytes "$-1" ++ crlfBytes
  | .bulkString (some b) => bulkFrame b
  | .array none =>
    if 3 ≤ protocol then asBytes "_" ++ crlfBytes else asBytes "*-1" ++ crlfBytes
  | .array (some items) =>
    42 :: asBytes (toString items.length) ++ crlfBytes ++ serializeItems H protocol items
  | .map pairs =>
    (if 3 ≤ protocol then 37 :: asBytes (toString pairs.length)
      else 42 :: asBytes (toString (pairs.length * 2))) ++ crlfBytes
      ++ serializePairs H protocol pairs
  | .double d =>
    if 3 ≤ protocol then 44 :: asBytes (formatDouble H d) ++ crlfBytes
    else bulkFrame (asBytes (formatDouble H d))
  | .boolean b =>
    if 3 ≤ protocol then [35, if b then 116 else 102] ++ crlfBytes
    else [58, if b then 49 else 48] ++ crlfBytes
  | .null => if 3 ≤ protocol then asBytes "_" ++ crlfBytes else asBytes "$-1" ++ crlfBytes

/-- The items of an array, one after the other. -/
def serializeItems (H : Host) (protocol : ℕ) : List RespValue → Bytes
  | [] => []
  | v :: vs => serializeValue H protocol v ++ serializeItems H protocol vs

/-- The pairs of a map, key before value. -/
def serializePairs (H : Host) (protocol : ℕ) : List (RespValue × RespValue) → Bytes
  | [] => []
  | (k, v) :: ps =>
    serializeValue H protocol k ++ serializeValue H protocol v ++ serializePairs H protocol ps

end

/-- `serialize_response`: RESP2. -/
def serializeResponse (H : Host) (v : RespValue) : Bytes := serializeValue H 2 v

/-- `serialize_response_proto`. -/
def serializeResponseProto (H : Host) (v : RespValue) (protocol : ℕ) : Bytes :=
  serializeValue H protocol v

mutual

/-- What a RESP2 reader sees of a value. -/
def degrade (H : Host) : RespValue → RespValue
  | .array (some items) => .array (some (degradeItems H items))
  | .map pairs => .array (some (degradePairs H pairs))
  | .double d => .bulkString (some (asBytes (formatDouble H d)))
  | .boolean b => .integer (if b then 1 else 0)
  | .null => .bulkString none
  | .simpleString s => .simpleString s
  | .error s => .error s
  | .integer i => .integer i
  | .bulkString b => .bulkString b
  | .array none => .array none

/-- `degrade` on the items of an array. -/
def degradeItems (H : Host) : List RespValue → List RespValue
  | [] => []
  | v :: vs => degrade H v :: degradeItems H vs

/-- A map as the flat list of its degraded keys and values. -/
def degradePairs (H : Host) : List (RespValue × RespValue) → List RespValue
  | [] => []
  | (k, v) :: ps => degrade H k :: degrade H v :: degradePairs H ps

end

mutual

/-- No text payload holds a carriage return. -/
def NoCR : RespValue → Prop
  | .simpleString s => '\r' ∉ s.toList
  | .error s => '\r' ∉ s.toList
  | .array (some items) => NoCRItems items
  | .map pairs => NoCRPairs pairs
  | _ => True

/-- `NoCR` of every item. -/
def NoCRItems : List RespValue → Prop
  | [] => True
  | v :: vs => NoCR v ∧ NoCRItems vs

/-- `NoCR` of every key and value. -/
def NoCRPairs : List (RespValue × RespValue) → Prop
  | [] => True
  | (k, v) :: ps => NoCR k ∧ NoCR v ∧ NoCRPairs ps

end

/-! ### Reading back one frame -/

/-- A carriage return among the bytes of a text is one of its characters. -/
theorem ne_cr_of_mem_asBytes {s : String} (h : '\r' ∉ s.toList) :
    ∀ b ∈ asBytes s, (b != 13) = true := by
  intro b hb
  rw [bne_iff_ne]
  rintro rfl
  obtain ⟨c, hc, hmem⟩ := List.mem_flatMap.mp hb
  have hcr : c = '\r' := Char.toNat_inj.mp (toNat_eq_of_mem_utf8EncodeChar (by decide) hmem)
  exact h (hcr ▸ hc)

/-- The first byte of a frame picks the parser that reads it. -/
theorem respValue_of_branch {q : UInt8 × Parser RespValue} (hq : q ∈ respBranches respValue)
    {i r : Bytes} {v : RespValue} (hi : i.head? = some q.1) (hok : q.2 i = .ok (r, v)) :
    respValue i = .ok (r, v) := by
  rw [respValue_eq]
  exact alt_of_head (by simp [respBranches]) (headed_respBranches respValue) hq hi hok

theorem textLine_asBytes (t : UInt8) (mk : String → RespValue) {s : String}
    (hcr : '\r' ∉ s.toList) (hlen : (asBytes s).length < 2 ^ 63) (r : Bytes) :
    textLine t mk (t :: (asBytes s ++ 13 :: 10 :: r)) = .ok (r, mk s) := by
  have hrun := takeWhileMN_append (n := usizeMax) (ne_cr_of_mem_asBytes hcr)
    (show (asBytes s).length ≤ usizeMax by rw [usizeMax]; omega) (b := 13) rfl (10 :: r)
  refine bind_eq_ok.mpr ⟨_, tag_append [t] _, bind_eq_ok.mpr ⟨(r, asBytes s), ?_, ?_⟩⟩
  · exact bind_eq_ok.mpr ⟨_, hrun, rfl⟩
  · show Except.ok (r, mk (fromUtf8Lossy (asBytes s))) = _
    rw [fromUtf8Lossy_asBytes]

theorem integer_toString (n : Int64) (r : Bytes) :
    integer (58 :: (asBytes (toString n.toInt) ++ 13 :: 10 :: r)) = .ok (r, .integer n) :=
  bind_eq_ok.mpr ⟨_, tag_append [58] _, bind_eq_ok.mpr
    ⟨_, terminated_i64_crlf_toString n r, rfl⟩⟩

theorem bulkString_bulkFrame {b : Bytes} (hlen : b.length < 2 ^ 63) (r : Bytes) :
    bulkString (bulkFrame b ++ r) = .ok (r, .bulkString (some b)) := by
  have hn : (Int64.ofNat b.length).toInt = b.length := Int64.toInt_ofNat_of_lt hlen
  have hbody : terminated (take b.length) crlf (b ++ 13 :: 10 :: r) = .ok (r, b) :=
    bind_eq_ok.mpr ⟨_, take_append b _ rfl, rfl⟩
  have hframe : bulkFrame b ++ r
      = [36] ++ (asBytes (toString b.length) ++ 13 :: 10 :: (b ++ 13 :: 10 :: r)) := by
    simp [bulkFrame, crlfBytes]
  rw [hframe]
  refine bind_eq_ok.mpr ⟨_, tag_append [36] _, bind_eq_ok.mpr
    ⟨_, terminated_i64_crlf_toString_nat hlen _, ?_⟩⟩
  dsimp only
  rw [bulkBody, hn, if_neg (by omega), Int.toNat_natCast]
  exact bind_eq_ok.mpr ⟨_, hbody, rfl⟩

/-- An array whose items are read back one by one. -/
theorem array_of_items {n : ℕ} (hlen : n < 2 ^ 63) {body r : Bytes} {vs : List RespValue}
    (hitems : manyLoop respValue n n 0 body = .ok (r, vs)) :
    array respValue (42 :: (asBytes (toString n) ++ 13 :: 10 :: body))
      = .ok (r, .array (some vs)) := by
  have hn : (Int64.ofNat n).toInt = n := Int64.toInt_ofNat_of_lt hlen
  have hmany : manyMN n n respValue body = .ok (r, vs) := by
    rw [manyMN, if_neg (lt_irrefl n), hitems]
  refine bind_eq_ok.mpr ⟨_, tag_append [42] _, bind_eq_ok.mpr
    ⟨_, terminated_i64_crlf_toString_nat hlen _, ?_⟩⟩
  dsimp only
  rw [arrayBody, hn, if_neg (by omega), Int.toNat_natCast]
  exact bind_eq_ok.mpr ⟨_, hmany, rfl⟩

/-! ### Reading back a value -/

theorem serializeValue_ne_nil (H : Host) (protocol : ℕ) (v : RespValue) :
    serializeValue H protocol v ≠ [] := by
  cases v with
  | bulkString b =>
    cases b with
    | none => rw [serializeValue]; split_ifs <;> simp [crlfBytes]
    | some b => simp [serializeValue, bulkFrame]
  | array items =>
    cases items with
    | none => rw [serializeValue]; split_ifs <;> simp [crlfBytes]
    | some items => simp [serializeValue]
  | _ => simp [serializeValue, bulkFrame, crlfBytes] <;> split_ifs <;> simp

theorem length_le_serializeItems (H : Host) (protocol : ℕ) (vs : List RespValue) :
    vs.length ≤ (serializeItems H protocol vs).length := by
  induction vs with
  | nil => exact Nat.zero_le _
  | cons v vs ih =>
    have hv := List.length_pos_iff.mpr (serializeValue_ne_nil H protocol v)
    rw [serializeItems, List.length_append, List.length_cons]
    omega

theorem length_le_serializePairs (H : Host) (protocol : ℕ) (ps : List (RespValue × RespValue)) :
    ps.length * 2 ≤ (serializePairs H protocol ps).length := by
  induction ps with
  | nil => exact Nat.zero_le _
  | cons p ps ih =>
    obtain ⟨k, v⟩ := p
    have hk := List.length_pos_iff.mpr (serializeValue_ne_nil H protocol k)
    have hv := List.length_pos_iff.mpr (serializeValue_ne_nil H protocol v)
    rw [serializePairs, List.length_append, List.length_append, List.length_cons]
    omega

theorem respValue_nullBulk (r : Bytes) :
    respValue (asBytes "$-1" ++ crlfBytes ++ r) = .ok (r, .bulkString none) := by
  have hs : asBytes "$-1" ++ crlfBytes ++ r
      = [36] ++ (asBytes (toString (-1 : Int64).toInt) ++ 13 :: 10 :: r) := rfl
  refine respValue_of_branch (q := (36, bulkString)) (by simp [respBranches]) rfl ?_
  rw [hs]
  exact bind_eq_ok.mpr ⟨_, tag_append [36] _, bind_eq_ok.mpr
    ⟨_, terminated_i64_crlf_toString (-1) r, rfl⟩⟩

theorem respValue_nullArray (r : Bytes) :
    respValue (asBytes "*-1" ++ crlfBytes ++ r) = .ok (r, .array none) := by
  have hs : asBytes "*-1" ++ crlfBytes ++ r
      = [42] ++ (asBytes (toString (-1 : Int64).toInt) ++ 13 :: 10 :: r) := rfl
  refine respValue_of_branch (q := (42, array respValue)) (by simp [respBranches]) rfl ?_
  rw [hs]
  exact bind_eq_ok.mpr ⟨_, tag_append [42] _, bind_eq_ok.mpr
    ⟨_, terminated_i64_crlf_toString (-1) r, rfl⟩⟩

theorem respValue_bulkFrame {b : Bytes} (hlen : b.length < 2 ^ 63) (r : Bytes) :
    respValue (bulkFrame b ++ r) = .ok (r, .bulkString (some b)) :=
  respValue_of_branch (q := (36, bulkString)) (by simp [respBranches]) rfl
    (bulkString_bulkFrame hlen r)

theorem length_le_bulkFrame (b : Bytes) : b.length ≤ (bulkFrame b).length := by
  rw [bulkFrame, List.length_append, List.length_append]
  omega

mutual

/-- The induction behind the round trip: over the value, with the items of arrays and maps as
runs of the loop of `many_m_n`. -/
theorem respValue_serializeValue (H : Host) : ∀ (v : RespValue), NoCR v →
    (serializeValue H 2 v).length < 2 ^ 63 → ∀ r,
      respValue (serializeValue H 2 v ++ r) = .ok (r, degrade H v)
  | .simpleString s, hcr, hlen, r => by
    rw [NoCR] at hcr
    rw [serializeValue, List.length_append, List.length_cons] at hlen
    have h := textLine_asBytes 43 .simpleString hcr (by omega) r
    rw [serializeValue, degrade]
    refine respValue_of_branch (q := (43, simpleString)) (by simp [respBranches]) rfl ?_
    simpa [crlfBytes, simpleString] using h
  | .error s, hcr, hlen, r => by
    rw [NoCR] at hcr
    rw [serializeValue, List.length_append, List.length_cons] at hlen
    have h := textLine_asBytes 45 .error hcr (by omega) r
    rw [serializeValue, degrade]
    refine respValue_of_branch (q := (45, parseError)) (by simp [respBranches]) rfl ?_
    simpa [crlfBytes, parseError] using h
  | .integer n, _, _, r => by
    rw [serializeValue, degrade]
    refine respValue_of_branch (q := (58, integer)) (by simp [respBranches]) rfl ?_
    simpa [crlfBytes] using integer_toString n r
  | .bulkString none, _, _, r => by
    rw [serializeValue, degrade]
    exact respValue_nullBulk r
  | .bulkString (some b), _, hlen, r => by
    rw [serializeValue] at hlen ⊢
    rw [degrade]
    exact respValue_bulkFrame (lt_of_le_of_lt (length_le_bulkFrame b) hlen) r
  | .array none, _, _, r => by
    rw [serializeValue, degrade]
    exact respValue_nullArray r
  | .array (some items), hcr, hlen, r => by
    rw [NoCR] at hcr
    rw [serializeValue, List.length_append] at hlen
    have hle := length_le_serializeItems H 2 items
    have h := array_of_items (n := items.length) (by omega)
      (manyLoop_serializeItems H items hcr (by omega) items.length 0 r)
    rw [serializeValue, degrade]
    refine respValue_of_branch (q := (42, array respValue)) (by simp [respBranches]) rfl ?_
    simpa [crlfBytes] using h
  | .map pairs, hcr, hlen, r => by
    rw [NoCR] at hcr
    rw [serializeValue, List.length_append] at hlen
    have hle := length_le_serializePairs H 2 pairs
    have h := array_of_items (n := pairs.length * 2) (by omega)
      (manyLoop_serializePairs H pairs hcr (by omega) (pairs.length * 2) 0 r)
    rw [serializeValue, degrade]
    refine respValue_of_branch (q := (42, array respValue)) (by simp [respBranches]) rfl ?_
    simpa [crlfBytes] using h
  | .double d, _, hlen, r => by
    rw [serializeValue] at hlen ⊢
    rw [degrade]
    exact respValue_bulkFrame (lt_of_le_of_lt (length_le_bulkFrame _) hlen) r
  | .boolean b, _, _, r => by
    rw [serializeValue, degrade]
    refine respValue_of_branch (q := (58, integer)) (by simp [respBranches]) rfl ?_
    cases b with
    | false => exact integer_toString 0 r
    | true => exact integer_toString 1 r
  | .null, _, _, r => by
    rw [serializeValue, degrade]
    exact respValue_nullBulk r

theorem manyLoop_serializeItems (H : Host) : ∀ (vs : List RespValue), NoCRItems vs →
    (serializeItems H 2 vs).length < 2 ^ 63 → ∀ (min count : ℕ) (r : Bytes),
      manyLoop respValue min vs.length count (serializeItems H 2 vs ++ r)
        = .ok (r, degradeItems H vs)
  | [], _, _, _, _, _ => rfl
  | v :: vs, hcr, hlen, min, count, r => by
    rw [NoCRItems] at hcr
    rw [serializeItems, List.length_append] at hlen
    rw [serializeItems, degradeItems, List.append_assoc, List.length_cons]
    exact manyLoop_cons (serializeValue_ne_nil H 2 v)
      (respValue_serializeValue H v hcr.1 (by omega) _)
      (manyLoop_serializeItems H vs hcr.2 (by omega) min (count + 1) r)

theorem manyLoop_serializePairs (H : Host) : ∀ (ps : List (RespValue × RespValue)),
    NoCRPairs ps → (serializePairs H 2 ps).length < 2 ^ 63 → ∀ (min count : ℕ) (r : Bytes),
      manyLoop respValue min (ps.length * 2) count (serializePairs H 2 ps ++ r)
        = .ok (r, degradePairs H ps)
  | [], _, _, _, _, _ => rfl
  | (k, v) :: ps, hcr, hlen, min, count, r => by
    rw [NoCRPairs] at hcr
    rw [serializePairs, List.length_append, List.length_append] at hlen
    rw [serializePairs, degradePairs, List.append_assoc, List.append_assoc, List.length_cons,
      Nat.add_mul]
    refine manyLoop_cons (serializeValue_ne_nil H 2 k)
      (respValue_serializeValue H k hcr.1 (by omega) _) ?_
    exact manyLoop_cons (serializeValue_ne_nil H 2 v)
      (respValue_serializeValue H v hcr.2.1 (by omega) _)
      (manyLoop_serializePairs H ps hcr.2.2 (by omega) min (count + 1 + 1) r)

end

/-- **The RESP2 round trip.** Whatever follows it on the wire, a serialized value is read back
as its degraded form and the reader stops at the end of its frame. -/
theorem respValue_serializeResponse (H : Host) (v : RespValue) (hcr : NoCR v)
    (hlen : (serializeResponse H v).length < 2 ^ 63) (rest : Bytes) :
    respValue (serializeResponse H v ++ rest) = .ok (rest, degrade H v) :=
  respValue_serializeValue H v hcr hlen rest

/-- A nested value with an extreme integer, a payload that holds `CRLF`, and RESP3 types. -/
def nestedReply : RespValue :=
  .array (some [.simpleString "OK", .integer (-9223372036854775808), .bulkString (some [13, 10]),
    .map [(.bulkString none, .boolean true), (.null, .array none)], .error "ERR"])

theorem respValue_nestedReply :
    respValue (serializeResponse Host.plain nestedReply ++ [42])
      = .ok ([42], degrade Host.plain nestedReply) :=
  respValue_serializeResponse Host.plain nestedReply
    (by simp [nestedReply, NoCR, NoCRItems, NoCRPairs]) (by decide) [42]

end VeloDB
