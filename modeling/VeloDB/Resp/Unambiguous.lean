import VeloDB.Resp.Serializer

/-!
# RESP3 frames are unambiguous

Nothing in the repository reads RESP3, so there is no decoder to invert. What a client needs of the
serializer is that two different replies never share their bytes, whatever follows them.

Every frame is a first byte, a text up to `CRLF`, and a body. The first byte tells the kind of
value, the text has no carriage return and so ends at the first one, and it says how long the body
is. `SameReply` names what the bytes do not tell apart: the three nulls, and doubles with one text.

The text of a double with a fraction comes from the standard library. That it holds no carriage
return is a hypothesis about `Display` of `f64`.

## Main results

* `frame_unique` — the first line of a frame, and what is left
* `serializeResponseProto_unique` — whole values
-/

namespace VeloDB

open Rust Nom

/-- The nulls: RESP3 has one frame for them. -/
inductive IsNull : RespValue → Prop
  | bulkString : IsNull (.bulkString none)
  | array : IsNull (.array none)
  | null : IsNull .null

/-- Two values a RESP3 client cannot tell apart. -/
inductive SameReply (H : Host) : RespValue → RespValue → Prop
  | simpleString (s : String) : SameReply H (.simpleString s) (.simpleString s)
  | error (s : String) : SameReply H (.error s) (.error s)
  | integer (i : Int64) : SameReply H (.integer i) (.integer i)
  | bulkString (b : Bytes) : SameReply H (.bulkString (some b)) (.bulkString (some b))
  | boolean (b : Bool) : SameReply H (.boolean b) (.boolean b)
  | null {v w : RespValue} (hv : IsNull v) (hw : IsNull w) : SameReply H v w
  | double {d e : F64} (h : formatDouble H d = formatDouble H e) :
      SameReply H (.double d) (.double e)
  | array {vs ws : List RespValue} (h : List.Forall₂ (SameReply H) vs ws) :
      SameReply H (.array (some vs)) (.array (some ws))
  | map {ps qs : List (RespValue × RespValue)}
      (hkeys : List.Forall₂ (SameReply H) (ps.map Prod.fst) (qs.map Prod.fst))
      (hvals : List.Forall₂ (SameReply H) (ps.map Prod.snd) (qs.map Prod.snd)) :
      SameReply H (.map ps) (.map qs)

/-! ### The three parts of a frame -/

/-- The byte a RESP3 frame starts with. -/
def frameTag : RespValue → UInt8
  | .simpleString _ => 43
  | .error _ => 45
  | .integer _ => 58
  | .bulkString (some _) => 36
  | .array (some _) => 42
  | .map _ => 37
  | .double _ => 44
  | .boolean _ => 35
  | .bulkString none | .array none | .null => 95

/-- The rest of its first line. -/
def frameText (H : Host) : RespValue → Bytes
  | .simpleString s => asBytes s
  | .error s => asBytes s
  | .integer i => asBytes (toString i.toInt)
  | .bulkString (some b) => asBytes (toString b.length)
  | .array (some items) => asBytes (toString items.length)
  | .map pairs => asBytes (toString pairs.length)
  | .double d => asBytes (formatDouble H d)
  | .boolean b => [if b then 116 else 102]
  | .bulkString none | .array none | .null => []

/-- What comes behind it. -/
def frameBody (H : Host) : RespValue → Bytes
  | .bulkString (some b) => b ++ crlfBytes
  | .array (some items) => serializeItems H 3 items
  | .map pairs => serializePairs H 3 pairs
  | _ => []

theorem serializeValue_eq_frame (H : Host) (v : RespValue) :
    serializeValue H 3 v = frameTag v :: frameText H v ++ crlfBytes ++ frameBody H v := by
  have hnull : asBytes "_" = [95] := rfl
  rcases v with s | s | i | (_ | b) | (_ | items) | pairs | d | b | _ <;>
    simp [serializeValue, frameTag, frameText, frameBody, bulkFrame, hnull]

/-- Two values of one kind. -/
inductive SameKind : RespValue → RespValue → Prop
  | simpleString (s s' : String) : SameKind (.simpleString s) (.simpleString s')
  | error (s s' : String) : SameKind (.error s) (.error s')
  | integer (i j : Int64) : SameKind (.integer i) (.integer j)
  | bulkString (b c : Bytes) : SameKind (.bulkString (some b)) (.bulkString (some c))
  | array (vs ws : List RespValue) : SameKind (.array (some vs)) (.array (some ws))
  | map (ps qs : List (RespValue × RespValue)) : SameKind (.map ps) (.map qs)
  | double (d e : F64) : SameKind (.double d) (.double e)
  | boolean (b c : Bool) : SameKind (.boolean b) (.boolean c)
  | null {v w : RespValue} (hv : IsNull v) (hw : IsNull w) : SameKind v w

/-- **The first byte tells the kind.** -/
theorem sameKind_of_frameTag {v w : RespValue} (h : frameTag v = frameTag w) : SameKind v w := by
  rcases v with s | s | i | (_ | b) | (_ | items) | pairs | d | b | _ <;>
    rcases w with s' | s' | j | (_ | c) | (_ | items') | pairs' | e | c | _ <;>
    first
    | constructor <;> constructor
    | simp [frameTag] at h

/-! ### The first line -/

/-- Lines without a carriage return, each ended by `CRLF`. -/
theorem line_unique {a b x y : Bytes} (ha : ∀ c ∈ a, (c != 13) = true)
    (hb : ∀ c ∈ b, (c != 13) = true) (h : a ++ (crlfBytes ++ x) = b ++ (crlfBytes ++ y)) :
    a = b ∧ x = y := by
  obtain rfl : a = b := by
    have htake := takeWhile_append_stop ha (b := 13) rfl (10 :: x)
    have hline : a ++ 13 :: 10 :: x = b ++ 13 :: 10 :: y := h
    rw [hline, takeWhile_append_stop hb rfl] at htake
    exact htake.symm
  exact ⟨rfl, (List.cons.inj (List.cons.inj (List.append_cancel_left h)).2).2⟩

theorem ne_cr_of_mem_digitBytes {n : ℕ} : ∀ c ∈ digitBytes n, (c != 13) = true := by
  intro c hc
  rw [bne_iff_ne]
  rintro rfl
  exact absurd (isDigit_of_mem_digitBytes hc) (by decide)

theorem ne_cr_of_mem_nat (n : ℕ) : ∀ c ∈ asBytes (toString n), (c != 13) = true := by
  rw [asBytes_toString_nat]
  exact ne_cr_of_mem_digitBytes

theorem ne_cr_of_mem_int (z : ℤ) : ∀ c ∈ asBytes (toString z), (c != 13) = true := by
  rw [asBytes_toString_int]
  split_ifs
  · exact List.forall_mem_cons.mpr ⟨by decide, ne_cr_of_mem_digitBytes⟩
  · exact ne_cr_of_mem_digitBytes

/-- What the standard library prints for a number is one line. -/
def PrintsLines (H : Host) : Prop := ∀ d, '\r' ∉ (H.displayF64 d).toList

theorem ne_cr_of_mem_formatDouble {H : Host} (hdisplay : PrintsLines H) (d : F64) :
    ∀ c ∈ asBytes (formatDouble H d), (c != 13) = true := by
  rw [formatDouble]
  have hlib := ne_cr_of_mem_asBytes (hdisplay d)
  split_ifs
  · exact ne_cr_of_mem_asBytes (by decide)
  · exact ne_cr_of_mem_asBytes (by decide)
  · exact ne_cr_of_mem_asBytes (by decide)
  · cases d.toInt? with
    | none => exact hlib
    | some z =>
      dsimp only
      split_ifs
      · exact ne_cr_of_mem_int z
      · exact hlib

theorem ne_cr_of_mem_frameText {H : Host} (hdisplay : PrintsLines H) {v : RespValue}
    (hv : NoCR v) : ∀ c ∈ frameText H v, (c != 13) = true := by
  rcases v with s | s | i | (_ | b) | (_ | items) | pairs | d | b | _
  · rw [NoCR] at hv
    exact ne_cr_of_mem_asBytes hv
  · rw [NoCR] at hv
    exact ne_cr_of_mem_asBytes hv
  · exact ne_cr_of_mem_int _
  · exact List.forall_mem_nil _
  · exact ne_cr_of_mem_nat _
  · exact List.forall_mem_nil _
  · exact ne_cr_of_mem_nat _
  · exact ne_cr_of_mem_nat _
  · exact ne_cr_of_mem_formatDouble hdisplay d
  · cases b <;> exact List.forall_mem_singleton.mpr (by decide)
  · exact List.forall_mem_nil _

/-- **The first line of a frame**, and what is left when it has been read. -/
theorem frame_unique {H : Host} (hdisplay : PrintsLines H) {v w : RespValue} (hv : NoCR v)
    (hw : NoCR w) {x y : Bytes} (h : serializeValue H 3 v ++ x = serializeValue H 3 w ++ y) :
    SameKind v w ∧ frameText H v = frameText H w ∧
      frameBody H v ++ x = frameBody H w ++ y := by
  rw [serializeValue_eq_frame, serializeValue_eq_frame] at h
  simp only [List.cons_append, List.append_assoc] at h
  obtain ⟨htag, hrest⟩ := List.cons.inj h
  exact ⟨sameKind_of_frameTag htag,
    line_unique (ne_cr_of_mem_frameText hdisplay hv) (ne_cr_of_mem_frameText hdisplay hw) hrest⟩

theorem length_of_text {m n : ℕ} (h : asBytes (toString m) = asBytes (toString n)) : m = n :=
  toString_nat_injective (asBytes_injective h)

theorem int64_of_text {i j : Int64}
    (h : asBytes (toString i.toInt) = asBytes (toString j.toInt)) : i = j := by
  have hi := terminated_i64_crlf_toString i []
  rw [h, terminated_i64_crlf_toString] at hi
  exact (Prod.mk.inj (Except.ok.inj hi)).2.symm

/-! ### Whole values -/

theorem null_unique {H : Host} (hdisplay : PrintsLines H) {v w : RespValue} (hnull : IsNull v)
    (hv : NoCR v) (hw : NoCR w) {x y : Bytes}
    (h : serializeValue H 3 v ++ x = serializeValue H 3 w ++ y) : SameReply H v w ∧ x = y := by
  obtain ⟨hkind, -, hrest⟩ := frame_unique hdisplay hv hw h
  cases hkind with
  | null _ hnull' =>
    refine ⟨.null hnull hnull', ?_⟩
    cases hnull <;> cases hnull' <;> exact hrest
  | _ => cases hnull

mutual

/-- The induction is on the first value; the second one follows its kind. -/
theorem serializeValue_unique {H : Host} (hdisplay : PrintsLines H) :
    ∀ (v w : RespValue), NoCR v → NoCR w → ∀ x y,
      serializeValue H 3 v ++ x = serializeValue H 3 w ++ y → SameReply H v w ∧ x = y
  | .simpleString s, w, hv, hw, x, y, h => by
    obtain ⟨hkind, htext, hrest⟩ := frame_unique hdisplay hv hw h
    cases hkind with
    | simpleString _ s' =>
      obtain rfl := asBytes_injective htext
      exact ⟨.simpleString s, hrest⟩
    | null hnull _ => cases hnull
  | .error s, w, hv, hw, x, y, h => by
    obtain ⟨hkind, htext, hrest⟩ := frame_unique hdisplay hv hw h
    cases hkind with
    | error _ s' =>
      obtain rfl := asBytes_injective htext
      exact ⟨.error s, hrest⟩
    | null hnull _ => cases hnull
  | .integer i, w, hv, hw, x, y, h => by
    obtain ⟨hkind, htext, hrest⟩ := frame_unique hdisplay hv hw h
    cases hkind with
    | integer _ j =>
      obtain rfl := int64_of_text htext
      exact ⟨.integer i, hrest⟩
    | null hnull _ => cases hnull
  | .bulkString none, _, hv, hw, _, _, h => null_unique hdisplay .bulkString hv hw h
  | .bulkString (some b), w, hv, hw, x, y, h => by
    obtain ⟨hkind, htext, hrest⟩ := frame_unique hdisplay hv hw h
    cases hkind with
    | bulkString _ c =>
      rw [frameBody, frameBody, List.append_assoc, List.append_assoc] at hrest
      obtain ⟨rfl, hend⟩ := List.append_inj hrest (length_of_text htext)
      exact ⟨.bulkString b, List.append_cancel_left hend⟩
    | null hnull _ => cases hnull
  | .array none, _, hv, hw, _, _, h => null_unique hdisplay .array hv hw h
  | .array (some vs), w, hv, hw, x, y, h => by
    obtain ⟨hkind, htext, hrest⟩ := frame_unique hdisplay hv hw h
    cases hkind with
    | array _ ws =>
      rw [NoCR] at hv hw
      obtain ⟨hsame, hxy⟩ :=
        serializeItems_unique hdisplay vs ws (length_of_text htext) hv hw x y hrest
      exact ⟨.array hsame, hxy⟩
    | null hnull _ => cases hnull
  | .map ps, w, hv, hw, x, y, h => by
    obtain ⟨hkind, htext, hrest⟩ := frame_unique hdisplay hv hw h
    cases hkind with
    | map _ qs =>
      rw [NoCR] at hv hw
      obtain ⟨hkeys, hvals, hxy⟩ :=
        serializePairs_unique hdisplay ps qs (length_of_text htext) hv hw x y hrest
      exact ⟨.map hkeys hvals, hxy⟩
    | null hnull _ => cases hnull
  | .double d, w, hv, hw, x, y, h => by
    obtain ⟨hkind, htext, hrest⟩ := frame_unique hdisplay hv hw h
    cases hkind with
    | double _ e => exact ⟨.double (asBytes_injective htext), hrest⟩
    | null hnull _ => cases hnull
  | .boolean b, w, hv, hw, x, y, h => by
    obtain ⟨hkind, htext, hrest⟩ := frame_unique hdisplay hv hw h
    cases hkind with
    | boolean _ c =>
      rw [frameText, frameText] at htext
      obtain rfl : b = c := by
        cases b <;> cases c <;> first | rfl | exact absurd htext (by decide)
      exact ⟨.boolean b, hrest⟩
    | null hnull _ => cases hnull
  | .null, _, hv, hw, _, _, h => null_unique hdisplay .null hv hw h

theorem serializeItems_unique {H : Host} (hdisplay : PrintsLines H) :
    ∀ (vs ws : List RespValue), vs.length = ws.length → NoCRItems vs → NoCRItems ws → ∀ x y,
      serializeItems H 3 vs ++ x = serializeItems H 3 ws ++ y →
        List.Forall₂ (SameReply H) vs ws ∧ x = y
  | [], [], _, _, _, x, y, h => ⟨.nil, h⟩
  | [], _ :: _, hlen, _, _, _, _, _ => absurd hlen (by simp)
  | _ :: _, [], hlen, _, _, _, _, _ => absurd hlen (by simp)
  | v :: vs, w :: ws, hlen, hv, hw, x, y, h => by
    rw [NoCRItems] at hv hw
    rw [serializeItems, serializeItems, List.append_assoc, List.append_assoc] at h
    obtain ⟨hone, hrest⟩ := serializeValue_unique hdisplay v w hv.1 hw.1 _ _ h
    obtain ⟨hall, hxy⟩ :=
      serializeItems_unique hdisplay vs ws (Nat.succ.inj hlen) hv.2 hw.2 x y hrest
    exact ⟨.cons hone hall, hxy⟩

theorem serializePairs_unique {H : Host} (hdisplay : PrintsLines H) :
    ∀ (ps qs : List (RespValue × RespValue)), ps.length = qs.length → NoCRPairs ps →
      NoCRPairs qs → ∀ x y,
      serializePairs H 3 ps ++ x = serializePairs H 3 qs ++ y →
        List.Forall₂ (SameReply H) (ps.map Prod.fst) (qs.map Prod.fst) ∧
          List.Forall₂ (SameReply H) (ps.map Prod.snd) (qs.map Prod.snd) ∧ x = y
  | [], [], _, _, _, x, y, h => ⟨.nil, .nil, h⟩
  | [], _ :: _, hlen, _, _, _, _, _ => absurd hlen (by simp)
  | _ :: _, [], hlen, _, _, _, _, _ => absurd hlen (by simp)
  | (k, v) :: ps, (k', v') :: qs, hlen, hv, hw, x, y, h => by
    rw [NoCRPairs] at hv hw
    rw [serializePairs, serializePairs] at h
    simp only [List.append_assoc] at h
    obtain ⟨hkey, h⟩ := serializeValue_unique hdisplay k k' hv.1 hw.1 _ _ h
    obtain ⟨hval, h⟩ := serializeValue_unique hdisplay v v' hv.2.1 hw.2.1 _ _ h
    obtain ⟨hkeys, hvals, hxy⟩ :=
      serializePairs_unique hdisplay ps qs (Nat.succ.inj hlen) hv.2.2 hw.2.2 x y h
    exact ⟨.cons hkey hkeys, .cons hval hvals, hxy⟩

end

/-- **RESP3 output is uniquely decodable.** If the frames of two values begin the same bytes, the
values are the same to a client and so is everything behind them. -/
theorem serializeResponseProto_unique {H : Host} (hdisplay : PrintsLines H) {v w : RespValue}
    (hv : NoCR v) (hw : NoCR w) {x y : Bytes}
    (h : serializeResponseProto H v 3 ++ x = serializeResponseProto H w 3 ++ y) :
    x = y ∧ SameReply H v w :=
  (serializeValue_unique hdisplay v w hv hw x y h).symm

theorem printsLines_plain : PrintsLines Host.plain := by
  intro d
  have hplain : Host.plain.displayF64 d = (d.toInt?.map toString).getD "NaN" := by
    simp only [Host.plain]
    cases d.toInt? <;> rfl
  rw [hplain]
  cases d.toInt? with
  | none => decide
  | some z =>
    intro hz
    have hmem : (13 : UInt8) ∈ asBytes (toString z) :=
      List.mem_flatMap.mpr ⟨'\r', hz, by decide⟩
    exact absurd (ne_cr_of_mem_int z 13 hmem) (by decide)

/-- A map whose value is another null, and the other zero: the same bytes, and the same reply. -/
theorem serializeResponseProto_unique_zeros :
    SameReply Host.plain
      (.array (some [.map [(.simpleString "a", .null)], .double ⟨0⟩]))
      (.array (some [.map [(.simpleString "a", .array none)],
        .double ⟨9223372036854775808⟩])) :=
  (serializeResponseProto_unique printsLines_plain
    (v := .array (some [.map [(.simpleString "a", .null)], .double ⟨0⟩]))
    (w := .array (some [.map [(.simpleString "a", .array none)],
      .double ⟨9223372036854775808⟩]))
    (x := [7]) (y := [7]) (by simp [NoCR, NoCRItems, NoCRPairs])
    (by simp [NoCR, NoCRItems, NoCRPairs]) (by decide +kernel)).2

end VeloDB
