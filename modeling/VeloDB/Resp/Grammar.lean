import VeloDB.Lib.Accepts
import VeloDB.Resp.Serializer

/-!
# The wire format

`Frame v w` is the grammar of requests: the bytes `w` spell the value `v`. It says nothing of how
they are read. The parser accepts the inputs that begin with a frame, and no others; which frame
that is, is settled by the input, since no frame is the beginning of another one.

The grammar is a little larger than what a client should write. A length may have a sign and
leading zeros, every negative number is the length of a null, and text that is not UTF-8 is taken
with its ill-formed parts replaced.

## Main results

* `respValue_eq_ok_iff` — the parser against the grammar
* `parseCommand_frames` — the same for commands, and frames are not ambiguous
-/

namespace VeloDB

open Rust Nom

/-- The bytes that spell a value. The two bounds are those of the machine: a line is not longer
than a `usize` counts, and a length is an `i64`. -/
inductive Frame : RespValue → Bytes → Prop
  | simpleString {line : Bytes} (hcr : 13 ∉ line) (hlen : line.length ≤ usizeMax) :
    Frame (.simpleString (fromUtf8Lossy line)) (43 :: line ++ crlfBytes)
  | error {line : Bytes} (hcr : 13 ∉ line) (hlen : line.length ≤ usizeMax) :
    Frame (.error (fromUtf8Lossy line)) (45 :: line ++ crlfBytes)
  | integer {n : Int64} {num : Bytes} (hnum : Decimal n.toInt num) :
    Frame (.integer n) (58 :: num ++ crlfBytes)
  | nullBulk {n : Int64} {num : Bytes} (hnum : Decimal n.toInt num) (hneg : n.toInt < 0) :
    Frame (.bulkString none) (36 :: num ++ crlfBytes)
  | bulk {b num : Bytes} (hnum : Decimal b.length num) (hlen : b.length < 2 ^ 63) :
    Frame (.bulkString (some b)) (36 :: num ++ crlfBytes ++ b ++ crlfBytes)
  | nullArray {n : Int64} {num : Bytes} (hnum : Decimal n.toInt num) (hneg : n.toInt < 0) :
    Frame (.array none) (42 :: num ++ crlfBytes)
  | array {items : List (RespValue × Bytes)} {num : Bytes} (hnum : Decimal items.length num)
    (hlen : items.length < 2 ^ 63) (hitems : ∀ p ∈ items, Frame p.1 p.2) :
    Frame (.array (some (items.map Prod.fst)))
      (42 :: num ++ crlfBytes ++ (items.map Prod.snd).flatten)

/-! ### The branches of the parser -/

theorem textLine_eq_ok_iff {t : UInt8} {mk : String → RespValue} {i r : Bytes} {v : RespValue} :
    textLine t mk i = .ok (r, v) ↔ ∃ line : Bytes, 13 ∉ line ∧ line.length ≤ usizeMax ∧
      i = t :: (line ++ 13 :: 10 :: r) ∧ mk (fromUtf8Lossy line) = v := by
  rw [textLine, tag_bind_eq_ok_iff]
  constructor
  · rintro ⟨s, rfl, h⟩
    obtain ⟨⟨r', line⟩, hline, h⟩ := bind_eq_ok.mp h
    obtain ⟨rfl, rfl⟩ := Prod.mk.inj (Except.ok.inj h)
    obtain ⟨hcr, hlen, rfl⟩ := line_eq_ok_iff.mp hline
    exact ⟨line, hcr, hlen, rfl, rfl⟩
  · rintro ⟨line, hcr, hlen, rfl, rfl⟩
    exact ⟨_, rfl, bind_eq_ok.mpr ⟨_, line_eq_ok_iff.mpr ⟨hcr, hlen, rfl⟩, rfl⟩⟩

theorem integer_eq_ok_iff {i r : Bytes} {v : RespValue} :
    integer i = .ok (r, v) ↔ ∃ (n : Int64) (num : Bytes), Decimal n.toInt num ∧
      i = 58 :: (num ++ 13 :: 10 :: r) ∧ .integer n = v := by
  rw [integer, tag_bind_eq_ok_iff]
  constructor
  · rintro ⟨s, rfl, h⟩
    obtain ⟨⟨r', n⟩, hline, h⟩ := bind_eq_ok.mp h
    obtain ⟨rfl, rfl⟩ := Prod.mk.inj (Except.ok.inj h)
    obtain ⟨num, hnum, rfl⟩ := i64_crlf_eq_ok_iff.mp hline
    exact ⟨n, num, hnum, rfl, rfl⟩
  · rintro ⟨n, num, hnum, rfl, rfl⟩
    exact ⟨_, rfl, bind_eq_ok.mpr ⟨_, i64_crlf_eq_ok_iff.mpr ⟨num, hnum, rfl⟩, rfl⟩⟩

/-- A tag, a length on its line, and what the length asks for. -/
theorem counted_eq_ok_iff {t : UInt8} {body : Int64 → Parser RespValue} {i r : Bytes}
    {v : RespValue} :
    ((tag [t] i >>= fun ia => terminated i64 crlf ia.1 >>= fun il => body il.2 il.1)
        = .ok (r, v)) ↔
      ∃ (n : Int64) (num s : Bytes), Decimal n.toInt num ∧ i = t :: (num ++ 13 :: 10 :: s) ∧
        body n s = .ok (r, v) := by
  rw [tag_bind_eq_ok_iff]
  constructor
  · rintro ⟨s, rfl, h⟩
    obtain ⟨⟨s', n⟩, hline, hbody⟩ := bind_eq_ok.mp h
    obtain ⟨num, hnum, rfl⟩ := i64_crlf_eq_ok_iff.mp hline
    exact ⟨n, num, s', hnum, rfl, hbody⟩
  · rintro ⟨n, num, s, hnum, rfl, h⟩
    exact ⟨_, rfl, bind_eq_ok.mpr ⟨_, i64_crlf_eq_ok_iff.mpr ⟨num, hnum, rfl⟩, h⟩⟩

theorem bulkBody_eq_ok_iff {n : Int64} {i r : Bytes} {v : RespValue} :
    bulkBody n i = .ok (r, v) ↔ (n.toInt < 0 ∧ i = r ∧ .bulkString none = v) ∨
      ∃ b : Bytes, n.toInt = b.length ∧ i = b ++ 13 :: 10 :: r ∧ .bulkString (some b) = v := by
  rw [bulkBody]
  split_ifs with hneg
  · constructor
    · intro h
      obtain ⟨rfl, rfl⟩ := Prod.mk.inj (Except.ok.inj h)
      exact .inl ⟨hneg, rfl, rfl⟩
    · rintro (⟨-, rfl, rfl⟩ | ⟨b, hlen, -⟩)
      · rfl
      · omega
  · constructor
    · intro h
      obtain ⟨⟨r', b⟩, hbody, h⟩ := bind_eq_ok.mp h
      obtain ⟨rfl, rfl⟩ := Prod.mk.inj (Except.ok.inj h)
      obtain ⟨hlen, rfl⟩ := take_crlf_eq_ok_iff.mp hbody
      exact .inr ⟨b, by omega, rfl, rfl⟩
    · rintro (⟨h, -⟩ | ⟨b, hlen, rfl, rfl⟩)
      · exact absurd h hneg
      · exact bind_eq_ok.mpr ⟨_, take_crlf_eq_ok_iff.mpr ⟨by omega, rfl⟩, rfl⟩

theorem arrayBody_eq_ok_iff {item : Parser RespValue} (hitem : Consumes item) {n : Int64}
    {i r : Bytes} {v : RespValue} :
    arrayBody item n i = .ok (r, v) ↔ (n.toInt < 0 ∧ i = r ∧ .array none = v) ∨
      ∃ vs : List RespValue, n.toInt = vs.length ∧ Many item i vs r ∧ .array (some vs) = v := by
  rw [arrayBody]
  split_ifs with hneg
  · constructor
    · intro h
      obtain ⟨rfl, rfl⟩ := Prod.mk.inj (Except.ok.inj h)
      exact .inl ⟨hneg, rfl, rfl⟩
    · rintro (⟨-, rfl, rfl⟩ | ⟨vs, hlen, -⟩)
      · rfl
      · omega
  · constructor
    · intro h
      obtain ⟨⟨r', vs⟩, hbody, h⟩ := bind_eq_ok.mp h
      obtain ⟨rfl, rfl⟩ := Prod.mk.inj (Except.ok.inj h)
      obtain ⟨hlen, hmany⟩ := (manyMN_eq_ok_iff hitem).mp hbody
      exact .inr ⟨vs, by omega, hmany, rfl⟩
    · rintro (⟨h, -⟩ | ⟨vs, hlen, hmany, rfl⟩)
      · exact absurd h hneg
      · exact bind_eq_ok.mpr ⟨_, (manyMN_eq_ok_iff hitem).mpr ⟨by omega, hmany⟩, rfl⟩

theorem respValue_branches {i r : Bytes} {v : RespValue} :
    respValue i = .ok (r, v) ↔ ∃ q ∈ respBranches respValue, q.2 i = .ok (r, v) := by
  rw [respValue_eq, respLevel]
  exact alt_eq_ok_iff (by simp [respBranches]) (headed_respBranches respValue)

/-! ### The grammar -/

/-- What is read is a frame. The items of an array are shorter than the array. -/
theorem frame_of_respValue (n : ℕ) : ∀ {i r : Bytes} {v : RespValue}, i.length ≤ n →
    respValue i = .ok (r, v) → ∃ w, Frame v w ∧ i = w ++ r := by
  induction n with
  | zero =>
    intro i r v hlen h
    exact absurd (consumes_respValue h).2 (by omega)
  | succ n ih =>
    intro i r v hlen h
    have hitems : ∀ {s r' : Bytes} {vs : List RespValue}, s.length ≤ n → Many respValue s vs r' →
        ∃ items : List (RespValue × Bytes), (∀ p ∈ items, Frame p.1 p.2) ∧
          items.map Prod.fst = vs ∧ s = (items.map Prod.snd).flatten ++ r' := by
      intro s r' vs hs hmany
      induction hmany with
      | nil => exact ⟨[], by simp, rfl, rfl⟩
      | @cons s s' r' v vs head tail ihtail =>
        obtain ⟨w, hw, rfl⟩ := ih hs head
        have hs' : s'.length ≤ n := by
          rw [List.length_append] at hs
          omega
        obtain ⟨items, hframes, rfl, rfl⟩ := ihtail hs'
        exact ⟨(v, w) :: items, List.forall_mem_cons.mpr ⟨hw, hframes⟩, rfl, by simp⟩
    obtain ⟨q, hq, hqi⟩ := respValue_branches.mp h
    simp only [respBranches, List.mem_cons, List.not_mem_nil, or_false] at hq
    obtain rfl | rfl | rfl | rfl | rfl := hq
    · obtain ⟨line, hcr, hline, rfl, rfl⟩ := textLine_eq_ok_iff.mp hqi
      exact ⟨_, .simpleString hcr hline, by simp [crlfBytes]⟩
    · obtain ⟨line, hcr, hline, rfl, rfl⟩ := textLine_eq_ok_iff.mp hqi
      exact ⟨_, .error hcr hline, by simp [crlfBytes]⟩
    · obtain ⟨m, num, hnum, rfl, rfl⟩ := integer_eq_ok_iff.mp hqi
      exact ⟨_, .integer hnum, by simp [crlfBytes]⟩
    · obtain ⟨m, num, s, hnum, rfl, hbody⟩ := counted_eq_ok_iff.mp hqi
      obtain ⟨hneg, rfl, rfl⟩ | ⟨b, hb, rfl, rfl⟩ := bulkBody_eq_ok_iff.mp hbody
      · exact ⟨_, .nullBulk hnum hneg, by simp [crlfBytes]⟩
      · have hmax := Int64.toInt_lt m
        exact ⟨_, .bulk (hb ▸ hnum) (by omega), by simp [crlfBytes]⟩
    · obtain ⟨m, num, s, hnum, rfl, hbody⟩ := counted_eq_ok_iff.mp hqi
      obtain ⟨hneg, rfl, rfl⟩ | ⟨vs, hvs, hmany, rfl⟩ :=
        (arrayBody_eq_ok_iff consumes_respValue).mp hbody
      · exact ⟨_, .nullArray hnum hneg, by simp [crlfBytes]⟩
      · simp only [List.length_cons, List.length_append] at hlen
        obtain ⟨items, hframes, rfl, rfl⟩ := hitems (by omega) hmany
        rw [List.length_map] at hvs
        have hmax := Int64.toInt_lt m
        exact ⟨_, .array (hvs ▸ hnum) (by omega) hframes, by simp [crlfBytes]⟩

/-- A frame is read, whatever follows it. -/
theorem Frame.respValue_append {v : RespValue} {w : Bytes} (h : Frame v w) (r : Bytes) :
    respValue (w ++ r) = .ok (r, v) := by
  rw [respValue_branches]
  induction h generalizing r with
  | @simpleString line hcr hlen =>
    exact ⟨(43, VeloDB.simpleString), by simp [respBranches],
      textLine_eq_ok_iff.mpr ⟨line, hcr, hlen, by simp [crlfBytes], rfl⟩⟩
  | @error line hcr hlen =>
    exact ⟨(45, parseError), by simp [respBranches],
      textLine_eq_ok_iff.mpr ⟨line, hcr, hlen, by simp [crlfBytes], rfl⟩⟩
  | @integer n num hnum =>
    exact ⟨(58, VeloDB.integer), by simp [respBranches],
      integer_eq_ok_iff.mpr ⟨n, num, hnum, by simp [crlfBytes], rfl⟩⟩
  | @nullBulk n num hnum hneg =>
    exact ⟨(36, bulkString), by simp [respBranches], counted_eq_ok_iff.mpr
      ⟨n, num, r, hnum, by simp [crlfBytes], bulkBody_eq_ok_iff.mpr (.inl ⟨hneg, rfl, rfl⟩)⟩⟩
  | @bulk b num hnum hlen =>
    have hn : (Int64.ofNat b.length).toInt = b.length := Int64.toInt_ofNat_of_lt hlen
    exact ⟨(36, bulkString), by simp [respBranches], counted_eq_ok_iff.mpr
      ⟨.ofNat b.length, num, b ++ 13 :: 10 :: r, hn.symm ▸ hnum, by simp [crlfBytes],
        bulkBody_eq_ok_iff.mpr (.inr ⟨b, hn, rfl, rfl⟩)⟩⟩
  | @nullArray n num hnum hneg =>
    exact ⟨(42, VeloDB.array respValue), by simp [respBranches], counted_eq_ok_iff.mpr
      ⟨n, num, r, hnum, by simp [crlfBytes],
        (arrayBody_eq_ok_iff consumes_respValue).mpr (.inl ⟨hneg, rfl, rfl⟩)⟩⟩
  | @array items num hnum hlen hitems ih =>
    have hn : (Int64.ofNat items.length).toInt = items.length := Int64.toInt_ofNat_of_lt hlen
    have hmany : Many respValue ((items.map Prod.snd).flatten ++ r) (items.map Prod.fst) r := by
      clear hnum hlen hn hitems
      induction items with
      | nil => exact .nil
      | cons p items ihitems =>
        have hhead := respValue_branches.mpr
          (ih p List.mem_cons_self ((items.map Prod.snd).flatten ++ r))
        have htail := ihitems fun q hq => ih q (List.mem_cons_of_mem _ hq)
        simpa using Many.cons hhead htail
    exact ⟨(42, VeloDB.array respValue), by simp [respBranches], counted_eq_ok_iff.mpr
      ⟨.ofNat items.length, num, _, hn.symm ▸ hnum, by simp [crlfBytes],
        (arrayBody_eq_ok_iff consumes_respValue).mpr
          (.inr ⟨items.map Prod.fst, by rw [hn, List.length_map], hmany, rfl⟩)⟩⟩

/-- **The parser accepts the inputs that begin with a frame.** -/
theorem respValue_eq_ok_iff {i r : Bytes} {v : RespValue} :
    respValue i = .ok (r, v) ↔ ∃ w, Frame v w ∧ i = w ++ r := by
  constructor
  · exact frame_of_respValue i.length le_rfl
  · rintro ⟨w, hw, rfl⟩
    exact hw.respValue_append r

/-- **Commands are frames, and frames are not ambiguous.** A command is read if and only if the
input begins with a frame whose strings are the arguments; and an input begins with one frame at
most. -/
theorem parseCommand_frames :
    (∀ i r args, parseCommand i = .ok (r, args) ↔
      ∃ v w, Frame v w ∧ i = w ++ r ∧ commandArgs v = args) ∧
    ∀ v v' w w' r r', Frame v w → Frame v' w' → w ++ r = w' ++ r' → v = v' ∧ w = w' := by
  constructor
  · intro i r args
    rw [parseCommand_eq, bind_eq_ok]
    constructor
    · rintro ⟨⟨r', v⟩, hvalue, h⟩
      obtain ⟨rfl, rfl⟩ := Prod.mk.inj (Except.ok.inj h)
      obtain ⟨w, hw, rfl⟩ := respValue_eq_ok_iff.mp hvalue
      exact ⟨v, w, hw, rfl, rfl⟩
    · rintro ⟨v, w, hw, rfl, rfl⟩
      exact ⟨(r, v), hw.respValue_append r, rfl⟩
  · intro v v' w w' r r' hv hv' heq
    have hread := hv.respValue_append r
    rw [heq, hv'.respValue_append r'] at hread
    obtain ⟨rfl, rfl⟩ := Prod.mk.inj (Except.ok.inj hread)
    exact ⟨rfl, List.append_cancel_right heq⟩

end VeloDB
