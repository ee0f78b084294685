import VeloDB.Lib.Nom

/-!
# What the combinators accept

For each combinator of the byte parser, the inputs on which it succeeds and what it answers there,
as an equivalence. A grammar for a parser that is built from them can then be read off: whatever
the parser accepts is a word of the grammar in front of the rest, and the other way round.

* `Decimal z w` is a decimal numeral of `z`: a sign or none, and digits, leading zeros included;
* `Many p i vs r` says that `p` reads the items `vs` one behind the other from `i`, up to `r`.

## Main results

* `line_eq_ok_iff`, `i64_crlf_eq_ok_iff`, `take_crlf_eq_ok_iff` — the pieces of a line protocol
* `manyMN_eq_ok_iff` — a fixed number of items
* `alt_eq_ok_iff` — branches told apart by their first byte
-/

namespace Nom

open Rust

variable {α β : Type}

/-! ### Pieces -/

theorem tag_bind_eq_ok_iff {t : UInt8} {f : Bytes × Bytes → Except Err (Bytes × α)} {i r : Bytes}
    {a : α} : (tag [t] i >>= f) = .ok (r, a) ↔ ∃ s, i = t :: s ∧ f (s, [t]) = .ok (r, a) := by
  constructor
  · intro h
    obtain ⟨⟨s, b⟩, ht, hf⟩ := bind_eq_ok.mp h
    rw [tag] at ht
    split_ifs at ht with hpre
    obtain ⟨s', rfl⟩ := List.isPrefixOf_iff_prefix.mp hpre
    obtain ⟨rfl, rfl⟩ := Prod.mk.inj (Except.ok.inj ht)
    exact ⟨s', rfl, hf⟩
  · rintro ⟨s, rfl, hf⟩
    exact bind_eq_ok.mpr ⟨_, tag_append [t] s, hf⟩

theorem crlf_eq_ok_iff {i r a : Bytes} :
    crlf i = .ok (r, a) ↔ i = 13 :: 10 :: r ∧ a = [13, 10] := by
  constructor
  · intro h
    obtain rfl := crlf_eq_ok h
    exact ⟨rfl, (Prod.mk.inj (Except.ok.inj h)).2.symm⟩
  · rintro ⟨rfl, rfl⟩
    rfl

theorem terminated_crlf_eq_ok_iff {p : Parser α} {i r : Bytes} {a : α} :
    terminated p crlf i = .ok (r, a) ↔ p i = .ok (13 :: 10 :: r, a) := by
  constructor
  · intro h
    obtain ⟨⟨s, b⟩, hp, h⟩ := bind_eq_ok.mp h
    obtain ⟨⟨s', c⟩, hcrlf, h⟩ := bind_eq_ok.mp h
    obtain ⟨rfl, rfl⟩ := Prod.mk.inj (Except.ok.inj h)
    exact (crlf_eq_ok_iff.mp hcrlf).1 ▸ hp
  · intro h
    exact bind_eq_ok.mpr ⟨_, h, bind_eq_ok.mpr ⟨_, crlf_cons r, rfl⟩⟩

theorem take_eq_ok_iff {n : ℕ} {i r a : Bytes} :
    take n i = .ok (r, a) ↔ a.length = n ∧ i = a ++ r := by
  constructor
  · intro h
    rw [take] at h
    split_ifs at h with hn
    obtain ⟨rfl, rfl⟩ := Prod.mk.inj (Except.ok.inj h)
    exact ⟨List.length_take_of_le (Nat.not_lt.mp hn), (List.take_append_drop n i).symm⟩
  · rintro ⟨hn, rfl⟩
    exact take_append a r hn

theorem take_crlf_eq_ok_iff {n : ℕ} {i r a : Bytes} :
    terminated (take n) crlf i = .ok (r, a) ↔ a.length = n ∧ i = a ++ 13 :: 10 :: r := by
  rw [terminated_crlf_eq_ok_iff, take_eq_ok_iff]

/-- **A line**: no carriage return, and not longer than allowed. -/
theorem line_eq_ok_iff {n : ℕ} {i r a : Bytes} :
    terminated (takeWhileMN 0 n fun b => b != 13) crlf i = .ok (r, a) ↔
      13 ∉ a ∧ a.length ≤ n ∧ i = a ++ 13 :: 10 :: r := by
  rw [terminated_crlf_eq_ok_iff]
  constructor
  · intro h
    rw [takeWhileMN, if_neg (Nat.not_lt_zero _)] at h
    obtain ⟨hrest, rfl⟩ := Prod.mk.inj (Except.ok.inj h)
    have hle : min (i.takeWhile fun b => b != 13).length n ≤ i.length :=
      (min_le_left _ _).trans (List.takeWhile_prefix _).length_le
    refine ⟨fun hmem => ?_, ?_, ?_⟩
    · rw [min_comm, ← List.take_take, ← List.prefix_iff_eq_take.mp (List.takeWhile_prefix _)]
        at hmem
      exact absurd (List.mem_takeWhile_imp (List.mem_of_mem_take hmem)) (by decide)
    · rw [List.length_take_of_le hle]
      exact min_le_right _ _
    · rw [← hrest, List.take_append_drop]
  · rintro ⟨hcr, hn, rfl⟩
    refine takeWhileMN_append (fun b hb => ?_) hn rfl _
    rw [bne_iff_ne]
    rintro rfl
    exact hcr hb

/-! ### Numbers -/

/-- A decimal numeral. -/
inductive Decimal : ℤ → Bytes → Prop
  | plain {ds : Bytes} (hne : ds ≠ []) (hdigits : ∀ d ∈ ds, isDigit d = true) :
    Decimal (digitsValue ds) ds
  | plus {ds : Bytes} (hne : ds ≠ []) (hdigits : ∀ d ∈ ds, isDigit d = true) :
    Decimal (digitsValue ds) (43 :: ds)
  | minus {ds : Bytes} (hne : ds ≠ []) (hdigits : ∀ d ∈ ds, isDigit d = true) :
    Decimal (-digitsValue ds) (45 :: ds)

/-- A numeral is what `sign` makes of it: a sign and a run of digits. -/
theorem Decimal.sign_eq {z : ℤ} {w : Bytes} (h : Decimal z w) :
    ∃ neg ds, ds ≠ [] ∧ (∀ d ∈ ds, isDigit d = true) ∧ signedValue neg ds = z ∧
      ∀ r, sign (w ++ r) = (neg, ds ++ r) := by
  cases h with
  | @plain ds hne hdigits =>
    refine ⟨false, w, hne, hdigits, rfl, fun r => ?_⟩
    obtain ⟨b, ds, rfl⟩ := List.exists_cons_of_ne_nil hne
    have hb := hdigits b List.mem_cons_self
    rw [List.cons_append, sign.eq_def]
    split
    · next h => obtain ⟨rfl, -⟩ := List.cons.inj h; exact absurd hb (by decide)
    · next h => obtain ⟨rfl, -⟩ := List.cons.inj h; exact absurd hb (by decide)
    · rfl
  | @plus ds hne hdigits => exact ⟨false, ds, hne, hdigits, rfl, fun r => rfl⟩
  | @minus ds hne hdigits => exact ⟨true, ds, hne, hdigits, rfl, fun r => rfl⟩

theorem decimal_of_sign {i ds r : Bytes} {neg : Bool} (hsign : sign i = (neg, ds ++ r))
    (hne : ds ≠ []) (hdigits : ∀ d ∈ ds, isDigit d = true) :
    ∃ w, Decimal (signedValue neg ds) w ∧ i = w ++ r := by
  rw [sign.eq_def] at hsign
  split at hsign
  · obtain ⟨rfl, rfl⟩ := Prod.mk.inj hsign
    exact ⟨43 :: ds, .plus hne hdigits, rfl⟩
  · obtain ⟨rfl, rfl⟩ := Prod.mk.inj hsign
    exact ⟨45 :: ds, .minus hne hdigits, rfl⟩
  · obtain ⟨rfl, rfl⟩ := Prod.mk.inj hsign
    exact ⟨ds, .plain hne hdigits, rfl⟩

/-- **A number on a line of its own**: a numeral of it, and none of a number out of range. -/
theorem i64_crlf_eq_ok_iff {i r : Bytes} {v : Int64} :
    terminated i64 crlf i = .ok (r, v) ↔ ∃ w, Decimal v.toInt w ∧ i = w ++ 13 :: 10 :: r := by
  rw [terminated_crlf_eq_ok_iff]
  constructor
  · intro h
    rcases hs : sign i with ⟨neg, s⟩
    simp only [i64, hs] at h
    split_ifs at h with hne hrange
    obtain ⟨hrest, rfl⟩ := Prod.mk.inj (Except.ok.inj h)
    have hsplit : sign i = (neg, s.takeWhile isDigit ++ 13 :: 10 :: r) := by
      rw [hs, ← hrest, List.takeWhile_append_dropWhile]
    obtain ⟨w, hw, hi⟩ := decimal_of_sign hsplit hne fun d hd => List.mem_takeWhile_imp hd
    refine ⟨w, ?_, hi⟩
    rwa [Int64.toInt_ofInt_of_le hrange.1 hrange.2]
  · rintro ⟨w, hw, rfl⟩
    obtain ⟨neg, ds, hne, hdigits, hvalue, hsign⟩ := hw.sign_eq
    have htake : (ds ++ 13 :: 10 :: r).takeWhile isDigit = ds :=
      takeWhile_append_stop hdigits rfl _
    have hdrop : (ds ++ 13 :: 10 :: r).dropWhile isDigit = 13 :: 10 :: r :=
      dropWhile_append_stop hdigits rfl _
    simp only [i64, hsign, htake, hdrop, hvalue, if_neg hne, Int64.ofInt_toInt]
    rw [if_pos ⟨Int64.le_toInt v, Int64.toInt_lt v⟩]

/-! ### Items -/

/-- `p` reads `vs` from the front of `i`, one behind the other, and leaves `r`. -/
inductive Many (p : Parser α) : Bytes → List α → Bytes → Prop
  | nil {r : Bytes} : Many p r [] r
  | cons {i s r : Bytes} {v : α} {vs : List α} (head : p i = .ok (s, v)) (tail : Many p s vs r) :
    Many p i (v :: vs) r

theorem manyLoop_eq_ok_iff {p : Parser α} (hp : Consumes p) {n fuel count : ℕ}
    (hn : count + fuel = n) {i r : Bytes} {vs : List α} :
    manyLoop p n fuel count i = .ok (r, vs) ↔ vs.length = fuel ∧ Many p i vs r := by
  induction fuel generalizing count i vs with
  | zero =>
    constructor
    · intro h
      obtain ⟨rfl, rfl⟩ := Prod.mk.inj (Except.ok.inj h)
      exact ⟨rfl, .nil⟩
    · rintro ⟨hlen, hmany⟩
      obtain rfl := List.length_eq_zero_iff.mp hlen
      cases hmany
      rfl
  | succ fuel ih =>
    constructor
    · intro h
      rw [manyLoop] at h
      cases hpi : p i with
      | error e =>
        rw [hpi] at h
        cases e with
        | error =>
          dsimp only at h
          rw [if_pos (by omega)] at h
          cases h
        | incomplete => cases h
        | failure => cases h
      | ok sv =>
        obtain ⟨s, v⟩ := sv
        rw [hpi] at h
        dsimp only at h
        rw [if_neg (hp hpi).2.ne] at h
        cases hloop : manyLoop p n fuel (count + 1) s with
        | error e => rw [hloop] at h; cases h
        | ok rvs =>
          obtain ⟨r', vs'⟩ := rvs
          rw [hloop] at h
          obtain ⟨rfl, rfl⟩ := Prod.mk.inj (Except.ok.inj h)
          obtain ⟨hlen, hmany⟩ := (ih (by omega)).mp hloop
          exact ⟨congrArg (· + 1) hlen, .cons hpi hmany⟩
    · rintro ⟨hlen, hmany⟩
      cases hmany with
      | nil => cases hlen
      | cons head tail =>
        have hcount : count + 1 + fuel = n := by omega
        have hloop := (ih hcount).mpr ⟨Nat.succ.inj hlen, tail⟩
        rw [manyLoop, head]
        dsimp only
        rw [if_neg (hp head).2.ne, hloop]

/-- **So many items, and no fewer.** -/
theorem manyMN_eq_ok_iff {p : Parser α} (hp : Consumes p) {n : ℕ} {i r : Bytes} {vs : List α} :
    manyMN n n p i = .ok (r, vs) ↔ vs.length = n ∧ Many p i vs r := by
  rw [manyMN, if_neg (lt_irrefl n), manyLoop_eq_ok_iff hp (Nat.zero_add n)]

/-! ### Branches -/

/-- **One of the branches.** -/
theorem alt_eq_ok_iff {ps : List (UInt8 × Parser α)} (hnd : (ps.map Prod.fst).Nodup)
    (h : ∀ q ∈ ps, Headed q.1 q.2) {i r : Bytes} {a : α} :
    alt (ps.map Prod.snd) i = .ok (r, a) ↔ ∃ q ∈ ps, q.2 i = .ok (r, a) := by
  constructor
  · intro hok
    obtain ⟨p, hp, hpi⟩ := exists_of_alt_ok hok
    obtain ⟨q, hq, rfl⟩ := List.mem_map.mp hp
    exact ⟨q, hq, hpi⟩
  · rintro ⟨q, hq, hqi⟩
    refine alt_of_head hnd h hq ?_ hqi
    by_contra hne
    rw [h q hq i hne] at hqi
    cases hqi

end Nom
