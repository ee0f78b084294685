import VeloDB.Lib.Text

/-!
# The `nom` combinators, in their `complete` form

Parsers take the input left to read and return what is left after them. The *complete* versions of
`nom`'s combinators treat the input as all there is: running out of bytes is `Err.error`, never
`Err.incomplete`. That distinction is part of the model, because callers branch on it.

## The properties a caller needs

* `Stable p` — appending bytes to an input that `p` accepts changes nothing but the rest;
* `Consumes p` — a success eats a non-empty piece off the front;
* `Complete p` — a failure is always `Err.error`;
* `Yields Q p` — every value that is read is in `Q`.

Stability is not automatic: a number or a `take_while` at the end of the input may go on when more
bytes arrive. It holds as soon as a terminator follows (`stable_terminated_i64_crlf`,
`stable_line`), and `alt` keeps it when its branches are told apart by their first byte
(`stable_alt`).
-/

namespace Nom

open Rust

/-- `nom::Err`, without the payloads. -/
inductive Err
  | incomplete
  | error
  | failure
  deriving DecidableEq, Repr

/-- A parser over byte slices. The result type is `nom::IResult`: an error, or the rest of the
input and a value. -/
abbrev Parser (α : Type) := Bytes → Except Err (Bytes × α)

variable {α β : Type}

/-! ### Combinators -/

/-- `tag`. -/
def tag (t : Bytes) : Parser Bytes := fun i =>
  if t.isPrefixOf i then .ok (i.drop t.length, t) else .error .error

/-- `take`. -/
def take (n : ℕ) : Parser Bytes := fun i =>
  if i.length < n then .error .error else .ok (i.drop n, i.take n)

/-- `take_while_m_n`: the longest run satisfying `pred`, at least `m` and at most `n` bytes. -/
def takeWhileMN (m n : ℕ) (pred : UInt8 → Bool) : Parser Bytes := fun i =>
  let k := (i.takeWhile pred).length
  if k < m then .error .error else .ok (i.drop (min k n), i.take (min k n))

/-- `crlf`. -/
def crlf : Parser Bytes
  | 13 :: 10 :: r => .ok (r, [13, 10])
  | _ => .error .error

/-- `terminated`. -/
def terminated (p : Parser α) (q : Parser β) : Parser α := fun i => do
  let (r, a) ← p i
  let (r, _) ← q r
  .ok (r, a)

/-- An ASCII digit. -/
def isDigit (b : UInt8) : Bool := 48 ≤ b.toNat ∧ b.toNat ≤ 57

/-- The value of a run of digits. -/
def digitsValue (ds : Bytes) : ℕ := ds.foldl (fun v b => v * 10 + (b.toNat - 48)) 0

/-- The optional sign in front of a number; `true` for `-`. -/
def sign : Bytes → Bool × Bytes
  | 43 :: r => (false, r)
  | 45 :: r => (true, r)
  | r => (false, r)

/-- The value of a signed run of digits. -/
def signedValue (neg : Bool) (ds : Bytes) : ℤ :=
  if neg then -(digitsValue ds : ℤ) else digitsValue ds

/-- `character::complete::i64`: a sign, a non-empty run of digits, and no overflow. -/
def i64 : Parser Int64 := fun i =>
  let (neg, r) := sign i
  let ds := r.takeWhile isDigit
  if ds = [] then .error .error
  else if -(2 ^ 63 : ℤ) ≤ signedValue neg ds ∧ signedValue neg ds < 2 ^ 63 then
    .ok (r.dropWhile isDigit, Int64.ofInt (signedValue neg ds))
  else .error .error

/-- The loop of `many_m_n`: `count` items are done and at most `fuel` more are tried. -/
def manyLoop (p : Parser α) (min : ℕ) : (fuel count : ℕ) → Parser (List α)
  | 0, _, i => .ok (i, [])
  | fuel + 1, count, i =>
    match p i with
    | .ok (tail, v) =>
      -- nom refuses an item that consumed nothing
      if tail.length = i.length then .error .error
      else match manyLoop p min fuel (count + 1) tail with
        | .ok (r, vs) => .ok (r, v :: vs)
        | .error e => .error e
    | .error .error => if count < min then .error .error else .ok (i, [])
    | .error e => .error e

/-- `many_m_n`. -/
def manyMN (min max : ℕ) (p : Parser α) : Parser (List α) := fun i =>
  if max < min then .error .failure else manyLoop p min max 0 i

/-- `alt`: the first branch that does not fail with `Err.error`. -/
def alt : List (Parser α) → Parser α
  | [], _ => .error .error
  | p :: ps, i =>
    match p i with
    | .error .error => alt ps i
    | r => r

/-! ### Success on an encoded input -/

@[simp] theorem tag_append (t r : Bytes) : tag t (t ++ r) = .ok (r, t) := by
  have h : t.isPrefixOf (t ++ r) = true := List.isPrefixOf_iff_prefix.mpr ⟨r, rfl⟩
  rw [tag, if_pos h, List.drop_left]

@[simp] theorem take_append {n : ℕ} (a r : Bytes) (h : a.length = n) :
    take n (a ++ r) = .ok (r, a) := by
  subst h
  rw [take, if_neg (by simp), List.drop_left, List.take_left]

@[simp] theorem crlf_cons (r : Bytes) : crlf (13 :: 10 :: r) = .ok (r, [13, 10]) := rfl

theorem takeWhile_append_stop {pred : UInt8 → Bool} {a : Bytes} (ha : ∀ b ∈ a, pred b = true)
    {b : UInt8} (hb : pred b = false) (r : Bytes) :
    (a ++ b :: r).takeWhile pred = a := by
  rw [List.takeWhile_append_of_pos ha, List.takeWhile_cons_of_neg (by simp [hb]), List.append_nil]

theorem dropWhile_append_stop {pred : UInt8 → Bool} {a : Bytes} (ha : ∀ b ∈ a, pred b = true)
    {b : UInt8} (hb : pred b = false) (r : Bytes) :
    (a ++ b :: r).dropWhile pred = b :: r := by
  rw [List.dropWhile_append_of_pos ha, List.dropWhile_cons_of_neg (by simp [hb])]

theorem takeWhileMN_append {n : ℕ} {pred : UInt8 → Bool} {a : Bytes}
    (ha : ∀ b ∈ a, pred b = true) (hn : a.length ≤ n) {b : UInt8} (hb : pred b = false)
    (r : Bytes) : takeWhileMN 0 n pred (a ++ b :: r) = .ok (b :: r, a) := by
  have hk := takeWhile_append_stop ha hb r
  simp only [takeWhileMN, hk, Nat.not_lt_zero, if_false, Nat.min_eq_left hn, List.drop_left,
    List.take_left]

/-- A run of decimal digits as bytes, and its value. -/
theorem digitsValue_map_toNat {ds : List Char} (h : ∀ c ∈ ds, c.isDigit = true) :
    digitsValue (ds.map fun c => UInt8.ofNat c.toNat) = Nat.ofDigitChars 10 ds 0 := by
  rw [digitsValue, Nat.ofDigitChars_eq_foldl, List.foldl_map]
  generalize (0 : ℕ) = v
  induction ds generalizing v with
  | nil => rfl
  | cons c ds ih =>
    have hc := toNat_lt_of_isDigit (h c List.mem_cons_self)
    have hb : (UInt8.ofNat c.toNat).toNat = c.toNat := by
      rw [UInt8.toNat_ofNat']; exact Nat.mod_eq_of_lt (by omega)
    rw [List.foldl_cons, List.foldl_cons, ih fun d hd => h d (List.mem_cons_of_mem _ hd), hb,
      Nat.mul_comm]
    rfl

theorem isDigit_ofNat_toNat {c : Char} (h : c.isDigit = true) :
    isDigit (UInt8.ofNat c.toNat) = true := by
  have hc := toNat_lt_of_isDigit h
  have hb : (UInt8.ofNat c.toNat).toNat = c.toNat := by
    rw [UInt8.toNat_ofNat']; exact Nat.mod_eq_of_lt (by omega)
  simp only [Char.isDigit, Bool.and_eq_true, decide_eq_true_eq, ge_iff_le] at h
  have h1 : 48 ≤ c.val.toNat := by simpa using UInt32.le_iff_toNat_le.mp h.1
  have h2 : c.val.toNat ≤ 57 := by simpa using UInt32.le_iff_toNat_le.mp h.2
  simp only [isDigit, hb, decide_eq_true_eq]
  exact ⟨h1, h2⟩

/-- The decimal digits of `n`, as bytes. -/
def digitBytes (n : ℕ) : Bytes := (Nat.toDigits 10 n).map fun c => UInt8.ofNat c.toNat

theorem isDigit_of_mem_digitBytes {n : ℕ} {b : UInt8} (h : b ∈ digitBytes n) :
    isDigit b = true := by
  obtain ⟨c, hc, rfl⟩ := List.mem_map.mp h
  exact isDigit_ofNat_toNat (isDigit_of_mem_toDigits hc)

theorem digitBytes_ne_nil (n : ℕ) : digitBytes n ≠ [] := by
  simp [digitBytes, Nat.toDigits_ne_nil]

@[simp] theorem digitsValue_digitBytes (n : ℕ) : digitsValue (digitBytes n) = n := by
  rw [digitBytes, digitsValue_map_toNat fun c hc => isDigit_of_mem_toDigits hc,
    Nat.ofDigitChars_ten_toDigits]

theorem asBytes_toString_nat (n : ℕ) : asBytes (toString n) = digitBytes n := by
  rw [asBytes_of_ascii (fun c hc => toNat_lt_of_isDigit (isDigit_of_mem_toDigits
    (by rwa [toList_toString_nat] at hc))), toList_toString_nat, digitBytes]

theorem asBytes_toString_int (i : ℤ) :
    asBytes (toString i) = if i < 0 then 45 :: digitBytes i.natAbs else digitBytes i.natAbs := by
  cases i with
  | ofNat n =>
    have hs : toString (Int.ofNat n) = toString n := rfl
    rw [hs, asBytes_toString_nat, if_neg (by simp)]
    rfl
  | negSucc n =>
    have hs : toString (Int.negSucc n) = "-" ++ toString (n + 1) := rfl
    have hm : asBytes "-" = [45] := by decide
    rw [hs, asBytes_append, asBytes_toString_nat, if_pos (Int.negSucc_lt_zero n), hm]
    rfl

theorem sign_digitBytes (n : ℕ) (r : Bytes) :
    sign (digitBytes n ++ r) = (false, digitBytes n ++ r) := by
  obtain ⟨b, ds, hds⟩ := List.exists_cons_of_ne_nil (digitBytes_ne_nil n)
  have hb : isDigit b = true := isDigit_of_mem_digitBytes (n := n) (by rw [hds]; simp)
  rw [hds, List.cons_append, sign.eq_def]
  split
  · next h => obtain ⟨rfl, -⟩ := List.cons.inj h; exact absurd hb (by decide)
  · next h => obtain ⟨rfl, -⟩ := List.cons.inj h; exact absurd hb (by decide)
  · rfl

/-- **A printed `i64` is read back**, up to the byte that ends its digits. -/
theorem i64_toString (i : Int64) {b : UInt8} (hb : isDigit b = false) (r : Bytes) :
    i64 (asBytes (toString i.toInt) ++ b :: r) = .ok (b :: r, i) := by
  have hlo := Int64.le_toInt i
  have hhi := Int64.toInt_lt i
  have key : ∀ neg, sign (asBytes (toString i.toInt) ++ b :: r)
      = (neg, digitBytes i.toInt.natAbs ++ b :: r) →
      signedValue neg (digitBytes i.toInt.natAbs) = i.toInt →
      i64 (asBytes (toString i.toInt) ++ b :: r) = .ok (b :: r, i) := by
    intro neg hs hv
    have ht : (digitBytes i.toInt.natAbs ++ b :: r).takeWhile isDigit
        = digitBytes i.toInt.natAbs :=
      takeWhile_append_stop (fun c hc => isDigit_of_mem_digitBytes hc) hb r
    have hd : (digitBytes i.toInt.natAbs ++ b :: r).dropWhile isDigit = b :: r :=
      dropWhile_append_stop (fun c hc => isDigit_of_mem_digitBytes hc) hb r
    simp only [i64, hs, ht, hd, hv, if_neg (digitBytes_ne_nil _), Int64.ofInt_toInt]
    rw [if_pos ⟨hlo, hhi⟩]
  rw [asBytes_toString_int] at key ⊢
  by_cases hneg : i.toInt < 0
  · rw [if_pos hneg] at key ⊢
    refine key true rfl ?_
    rw [signedValue, if_pos rfl, digitsValue_digitBytes]
    omega
  · rw [if_neg hneg] at key ⊢
    refine key false (sign_digitBytes _ _) ?_
    rw [signedValue, digitsValue_digitBytes]
    simp only [Bool.false_eq_true, if_false]
    omega

theorem terminated_i64_crlf_toString (i : Int64) (r : Bytes) :
    terminated i64 crlf (asBytes (toString i.toInt) ++ 13 :: 10 :: r) = .ok (r, i) := by
  rw [terminated, i64_toString i (by decide)]
  rfl

/-- The same for a length, printed as a `usize` and read back as an `i64`. -/
theorem terminated_i64_crlf_toString_nat {n : ℕ} (h : n < 2 ^ 63) (r : Bytes) :
    terminated i64 crlf (asBytes (toString n) ++ 13 :: 10 :: r) = .ok (r, Int64.ofNat n) := by
  have hn : (Int64.ofNat n).toInt = n := Int64.toInt_ofNat_of_lt h
  have key := terminated_i64_crlf_toString (Int64.ofNat n) r
  rwa [hn] at key

/-- One more item in front of a loop that succeeds. -/
theorem manyLoop_cons {p : Parser α} {e s r : Bytes} {v : α} {vs : List α} {min fuel count : ℕ}
    (he : e ≠ []) (hp : p (e ++ s) = .ok (s, v))
    (hs : manyLoop p min fuel (count + 1) s = .ok (r, vs)) :
    manyLoop p min (fuel + 1) count (e ++ s) = .ok (r, v :: vs) := by
  have hlen : s.length ≠ (e ++ s).length := by
    have := List.length_pos_iff.mpr he
    rw [List.length_append]
    omega
  rw [manyLoop, hp]
  dsimp only
  rw [if_neg hlen, hs]

/-! ### Stability under extension of the input -/

/-- More input behind an accepted one only makes the rest longer. -/
def Stable (p : Parser α) : Prop :=
  ∀ ⦃i r : Bytes⦄ ⦃a : α⦄, p i = .ok (r, a) → ∀ x, p (i ++ x) = .ok (r ++ x, a)

theorem stable_ok (f : α) : Stable fun i => (.ok (i, f) : Except Err (Bytes × α)) := by
  intro i r a h x
  injection h with h
  obtain ⟨rfl, rfl⟩ := Prod.mk.inj h
  rfl

theorem bind_eq_ok {ε γ δ : Type} {m : Except ε γ} {f : γ → Except ε δ} {d : δ} :
    (m >>= f) = .ok d ↔ ∃ c, m = .ok c ∧ f c = .ok d := by
  cases m with
  | error e => simp [bind, Except.bind]
  | ok c => simp [bind, Except.bind]

theorem Stable.seq {p : Parser α} {q : α → Parser β} (hp : Stable p) (hq : ∀ a, Stable (q a)) :
    Stable fun i => p i >>= fun ra => q ra.2 ra.1 := by
  intro i r b h x
  obtain ⟨⟨r', a⟩, hpi, hqi⟩ := bind_eq_ok.mp h
  exact bind_eq_ok.mpr ⟨(r' ++ x, a), hp hpi x, hq a hqi x⟩

theorem stable_tag (t : Bytes) : Stable (tag t) := by
  intro i r a h x
  rw [tag] at h
  split_ifs at h with ht
  injection h with h
  obtain ⟨rfl, rfl⟩ := Prod.mk.inj h
  obtain ⟨s, rfl⟩ := List.isPrefixOf_iff_prefix.mp ht
  rw [List.append_assoc, tag_append, List.drop_left]

theorem stable_take (n : ℕ) : Stable (take n) := by
  intro i r a h x
  rw [take] at h
  split_ifs at h with hn
  injection h with h
  obtain ⟨rfl, rfl⟩ := Prod.mk.inj h
  have hn' : n ≤ i.length := Nat.not_lt.mp hn
  rw [take, if_neg (by rw [List.length_append]; omega), List.drop_append_of_le_length hn',
    List.take_append_of_le_length hn']

theorem crlf_eq_ok {i r a : Bytes} (h : crlf i = .ok (r, a)) : i = 13 :: 10 :: r := by
  rw [crlf.eq_def] at h
  split at h
  · injection h with h
    obtain ⟨rfl, -⟩ := Prod.mk.inj h
    rfl
  · cases h

theorem stable_crlf : Stable crlf := by
  intro i r a h x
  have hi := crlf_eq_ok h
  subst hi
  injection h with h
  obtain ⟨-, rfl⟩ := Prod.mk.inj h
  rfl

/-- A run that stops inside the input stops there whatever follows. -/
theorem takeWhile_append_of_stop {pred : UInt8 → Bool} {i s : Bytes} {b : UInt8}
    (h : i.dropWhile pred = b :: s) (x : Bytes) :
    (i ++ x).takeWhile pred = i.takeWhile pred ∧ (i ++ x).dropWhile pred = b :: s ++ x := by
  have hb : pred b = false := by
    have := List.head?_dropWhile_not pred i
    rw [h] at this
    simpa using this
  have hi : i ++ x = i.takeWhile pred ++ b :: (s ++ x) := by
    rw [← List.cons_append, ← h, ← List.append_assoc, List.takeWhile_append_dropWhile]
  have ha : ∀ c ∈ i.takeWhile pred, pred c = true := fun c hc => List.mem_takeWhile_imp hc
  rw [hi]
  exact ⟨takeWhile_append_stop ha hb _, dropWhile_append_stop ha hb _⟩

theorem sign_append {i : Bytes} (h : i ≠ []) (x : Bytes) :
    sign (i ++ x) = ((sign i).1, (sign i).2 ++ x) := by
  obtain ⟨b, s, rfl⟩ := List.exists_cons_of_ne_nil h
  rw [List.cons_append, sign.eq_def, sign.eq_def]
  split
  · next heq =>
    obtain ⟨rfl, rfl⟩ := List.cons.inj heq
    rfl
  · next heq =>
    obtain ⟨rfl, rfl⟩ := List.cons.inj heq
    rfl
  · next h₁ h₂ =>
    split
    · next heq => obtain ⟨rfl, rfl⟩ := List.cons.inj heq; exact absurd rfl (h₁ _)
    · next heq => obtain ⟨rfl, rfl⟩ := List.cons.inj heq; exact absurd rfl (h₂ _)
    · rfl

theorem i64_eq_ok {i r : Bytes} {v : Int64} (h : i64 i = .ok (r, v)) :
    (sign i).2.dropWhile isDigit = r ∧ (sign i).2.takeWhile isDigit ≠ [] := by
  simp only [i64] at h
  split_ifs at h with h₁ h₂
  injection h with h
  exact ⟨(Prod.mk.inj h).1, h₁⟩

theorem stable_terminated_i64_crlf : Stable (terminated i64 crlf) := by
  intro i r v h x
  obtain ⟨⟨r₁, v₁⟩, h64, h₂⟩ := bind_eq_ok.mp h
  obtain ⟨⟨r₂, a⟩, hcr, h₃⟩ := bind_eq_ok.mp h₂
  injection h₃ with h₃
  obtain ⟨rfl, rfl⟩ := Prod.mk.inj h₃
  obtain ⟨hdrop, hne⟩ := i64_eq_ok h64
  have hr₁ := crlf_eq_ok hcr
  have hi : i ≠ [] := by
    rintro rfl
    exact hne rfl
  have hrun := takeWhile_append_of_stop (hdrop.trans hr₁) x
  refine bind_eq_ok.mpr ⟨(r₁ ++ x, v₁), ?_, bind_eq_ok.mpr ⟨(r₂ ++ x, a), stable_crlf hcr x, rfl⟩⟩
  simp only [i64, sign_append hi, hrun] at h64 ⊢
  rw [hr₁]
  split_ifs at h64 ⊢ with h₁ h₂
  injection h64 with h64
  rw [(Prod.mk.inj h64).2]

theorem drop_length_takeWhile (pred : UInt8 → Bool) (i : Bytes) :
    i.drop (i.takeWhile pred).length = i.dropWhile pred ∧
      i.take (i.takeWhile pred).length = i.takeWhile pred := by
  have h : i.takeWhile pred ++ i.dropWhile pred = i := List.takeWhile_append_dropWhile
  generalize i.takeWhile pred = a, i.dropWhile pred = d at h ⊢
  subst h
  exact ⟨List.drop_left, List.take_left⟩

/-- A line: everything up to the carriage return of its `CRLF`. When the cut at `n` bytes falls
inside the run, the next byte is not a carriage return and the terminator fails. -/
theorem stable_line (n : ℕ) : Stable (terminated (takeWhileMN 0 n fun b => b != 13) crlf) := by
  intro i r v h x
  obtain ⟨⟨r₁, v₁⟩, hrun, h₂⟩ := bind_eq_ok.mp h
  obtain ⟨⟨r₂, a⟩, hcr, h₃⟩ := bind_eq_ok.mp h₂
  injection h₃ with h₃
  obtain ⟨rfl, rfl⟩ := Prod.mk.inj h₃
  have hr₁ := crlf_eq_ok hcr
  simp only [takeWhileMN, Nat.not_lt_zero, if_false] at hrun
  injection hrun with hrun
  obtain ⟨hr, rfl⟩ := Prod.mk.inj hrun
  have hle : (i.takeWhile fun b => b != 13).length ≤ n := by
    by_contra hlt
    have hmin : min (i.takeWhile fun b => b != 13).length n = n := by omega
    rw [hmin, hr₁] at hr
    have hget : i[n]? = some 13 := by
      have := congrArg List.head? hr
      rwa [List.head?_drop] at this
    have hmem : (i.takeWhile fun b => b != 13)[n]? = some 13 := by
      have hpre := List.takeWhile_prefix (fun b : UInt8 => b != 13) (l := i)
      rw [← hget, List.prefix_iff_getElem?.mp hpre n (by omega), List.getElem?_eq_getElem]
    have := List.mem_takeWhile_imp (List.mem_of_getElem? hmem)
    simp at this
  rw [Nat.min_eq_left hle, (drop_length_takeWhile _ i).1] at hr
  have hstop := takeWhile_append_of_stop (hr.trans hr₁) x
  refine bind_eq_ok.mpr ⟨(r₁ ++ x, _), ?_, bind_eq_ok.mpr ⟨(r₂ ++ x, a), stable_crlf hcr x, rfl⟩⟩
  have htake := drop_length_takeWhile (fun b => b != 13) (i ++ x)
  rw [hstop.1, hstop.2] at htake
  simp only [takeWhileMN, Nat.not_lt_zero, if_false, Nat.min_eq_left hle, hstop.1]
  rw [htake.1, htake.2, (drop_length_takeWhile _ i).2, hr₁]

theorem stable_manyLoop {p : Parser α} (hp : Stable p) {min : ℕ} :
    ∀ {fuel count : ℕ}, count + fuel = min → Stable (manyLoop p min fuel count) := by
  intro fuel
  induction fuel with
  | zero =>
    intro count _ i r vs h x
    injection h with h
    obtain ⟨rfl, rfl⟩ := Prod.mk.inj h
    rfl
  | succ fuel ih =>
    intro count hc i r vs h x
    rw [manyLoop] at h ⊢
    cases hpi : p i with
    | error e =>
      rw [hpi] at h
      cases e with
      | error => simp only [if_pos (show count < min by omega)] at h; cases h
      | incomplete => cases h
      | failure => cases h
    | ok tv =>
      obtain ⟨tail, v⟩ := tv
      rw [hpi] at h
      rw [hp hpi x]
      dsimp only at h ⊢
      split_ifs at h with hlen
      have hlen' : (tail ++ x).length ≠ (i ++ x).length := by
        simp only [List.length_append]; omega
      rw [if_neg hlen']
      cases hrec : manyLoop p min fuel (count + 1) tail with
      | error e => rw [hrec] at h; cases h
      | ok rv =>
        obtain ⟨r', vs'⟩ := rv
        rw [hrec] at h
        rw [ih (by omega) hrec x]
        injection h with h
        obtain ⟨rfl, rfl⟩ := Prod.mk.inj h
        rfl

/-- With equal bounds every item is required, so the loop never stops early. -/
theorem stable_manyMN {p : Parser α} (hp : Stable p) (n : ℕ) : Stable (manyMN n n p) := by
  intro i r vs h x
  rw [manyMN, if_neg (lt_irrefl n)] at h ⊢
  exact stable_manyLoop hp (Nat.zero_add n) h x

/-- `p` fails unless the input starts with `t`. -/
def Headed (t : UInt8) (p : Parser α) : Prop :=
  ∀ i : Bytes, i.head? ≠ some t → p i = .error .error

theorem headed_tag_bind (t : UInt8) (f : Bytes × Bytes → Except Err (Bytes × α)) :
    Headed t fun i => tag [t] i >>= f := by
  intro i hi
  have ht : ¬[t].isPrefixOf i = true := by
    intro h
    obtain ⟨s, rfl⟩ := List.isPrefixOf_iff_prefix.mp h
    exact hi rfl
  simp only [tag, if_neg ht]
  rfl

theorem head?_of_alt_ok {ps : List (UInt8 × Parser α)} (h : ∀ q ∈ ps, Headed q.1 q.2)
    {i r : Bytes} {a : α} (hok : alt (ps.map Prod.snd) i = .ok (r, a)) :
    ∃ q ∈ ps, i.head? = some q.1 := by
  induction ps with
  | nil => cases hok
  | cons q ps ih =>
    by_cases hq : i.head? = some q.1
    · exact ⟨q, List.mem_cons_self, hq⟩
    · rw [List.map_cons, alt, h q List.mem_cons_self i hq] at hok
      obtain ⟨q', hq', hh⟩ := ih (fun q' hq' => h q' (List.mem_cons_of_mem _ hq')) hok
      exact ⟨q', List.mem_cons_of_mem _ hq', hh⟩

/-- **Branches told apart by their first byte.** A branch that refused the input refuses every
extension of it, because the first byte stays the same. -/
theorem stable_alt {ps : List (UInt8 × Parser α)} (hnd : (ps.map Prod.fst).Nodup)
    (h : ∀ q ∈ ps, Headed q.1 q.2 ∧ Stable q.2) : Stable (alt (ps.map Prod.snd)) := by
  induction ps with
  | nil => intro i r a hok; cases hok
  | cons q ps ih =>
    intro i r a hok x
    have hps := fun q' hq' => h q' (List.mem_cons_of_mem q hq')
    rw [List.map_cons] at hnd
    obtain ⟨hq, hnd'⟩ := List.nodup_cons.mp hnd
    rw [List.map_cons, alt] at hok ⊢
    cases hqi : q.2 i with
    | ok ra =>
      rw [hqi] at hok
      dsimp only at hok
      rw [(h q List.mem_cons_self).2 (hqi.trans hok) x]
    | error e =>
      rw [hqi] at hok
      cases e with
      | incomplete => cases hok
      | failure => cases hok
      | error =>
        dsimp only at hok
        obtain ⟨q', hq', hh⟩ := head?_of_alt_ok (fun q hq => (hps q hq).1) hok
        have hne : (i ++ x).head? ≠ some q.1 := by
          rw [List.head?_append, hh]
          intro heq
          have hqq : q'.1 = q.1 := by simpa using heq
          exact hq (List.mem_map.mpr ⟨q', hq', hqq⟩)
        rw [(h q List.mem_cons_self).1 _ hne]
        exact ih hnd' hps hok x

/-- The first byte picks the branch. -/
theorem alt_of_head {ps : List (UInt8 × Parser α)} (hnd : (ps.map Prod.fst).Nodup)
    (h : ∀ q ∈ ps, Headed q.1 q.2) {q : UInt8 × Parser α} (hq : q ∈ ps) {i r : Bytes} {a : α}
    (hi : i.head? = some q.1) (hok : q.2 i = .ok (r, a)) :
    alt (ps.map Prod.snd) i = .ok (r, a) := by
  induction ps with
  | nil => cases hq
  | cons q' ps ih =>
    rw [List.map_cons] at hnd
    obtain ⟨hnot, hnd'⟩ := List.nodup_cons.mp hnd
    rw [List.map_cons, alt]
    rcases List.mem_cons.mp hq with rfl | hmem
    · rw [hok]
    · have hne : i.head? ≠ some q'.1 := by
        rw [hi]
        intro heq
        exact hnot (List.mem_map.mpr ⟨q, hmem, Option.some.inj heq⟩)
      rw [h q' List.mem_cons_self i hne]
      exact ih hnd' (fun p hp => h p (List.mem_cons_of_mem _ hp)) hmem

/-! ### Consumption -/

/-- What is left after `p` is a suffix of its input. -/
def Suffixing (p : Parser α) : Prop :=
  ∀ ⦃i r : Bytes⦄ ⦃a : α⦄, p i = .ok (r, a) → r <:+ i

/-- And a proper one: something was eaten. -/
def Consumes (p : Parser α) : Prop :=
  ∀ ⦃i r : Bytes⦄ ⦃a : α⦄, p i = .ok (r, a) → r <:+ i ∧ r.length < i.length

theorem Consumes.suffixing {p : Parser α} (h : Consumes p) : Suffixing p :=
  fun _ _ _ hok => (h hok).1

/-- What was eaten. -/
theorem Consumes.exists_eaten {p : Parser α} (h : Consumes p) {i r : Bytes} {a : α}
    (hok : p i = .ok (r, a)) : ∃ eaten, eaten ≠ [] ∧ i = eaten ++ r := by
  obtain ⟨⟨eaten, rfl⟩, hlen⟩ := h hok
  refine ⟨eaten, ?_, rfl⟩
  rintro rfl
  exact absurd hlen (lt_irrefl _)

theorem suffixing_ok (f : α) : Suffixing fun i => (.ok (i, f) : Except Err (Bytes × α)) := by
  intro i r a h
  injection h with h
  exact (Prod.mk.inj h).1 ▸ List.suffix_rfl

theorem Suffixing.seq {p : Parser α} {q : α → Parser β} (hp : Suffixing p)
    (hq : ∀ a, Suffixing (q a)) : Suffixing fun i => p i >>= fun ra => q ra.2 ra.1 := by
  intro i r b h
  obtain ⟨⟨r', a⟩, hpi, hqi⟩ := bind_eq_ok.mp h
  exact (hq a hqi).trans (hp hpi)

theorem Consumes.seq {p : Parser α} {q : α → Parser β} (hp : Consumes p)
    (hq : ∀ a, Suffixing (q a)) : Consumes fun i => p i >>= fun ra => q ra.2 ra.1 := by
  intro i r b h
  obtain ⟨⟨r', a⟩, hpi, hqi⟩ := bind_eq_ok.mp h
  have hr := hq a hqi
  exact ⟨hr.trans (hp hpi).1, lt_of_le_of_lt hr.length_le (hp hpi).2⟩

theorem consumes_tag (b : UInt8) (t : Bytes) : Consumes (tag (b :: t)) := by
  intro i r a h
  rw [tag] at h
  split_ifs at h with ht
  injection h with h
  obtain ⟨rfl, rfl⟩ := Prod.mk.inj h
  obtain ⟨s, rfl⟩ := List.isPrefixOf_iff_prefix.mp ht
  refine ⟨List.drop_suffix _ _, ?_⟩
  rw [List.drop_left, List.length_append, List.length_cons]
  omega

theorem suffixing_take (n : ℕ) : Suffixing (take n) := by
  intro i r a h
  rw [take] at h
  split_ifs at h
  injection h with h
  exact (Prod.mk.inj h).1 ▸ List.drop_suffix _ _

theorem suffixing_takeWhileMN (m n : ℕ) (pred : UInt8 → Bool) :
    Suffixing (takeWhileMN m n pred) := by
  intro i r a h
  simp only [takeWhileMN] at h
  split_ifs at h
  injection h with h
  exact (Prod.mk.inj h).1 ▸ List.drop_suffix _ _

theorem suffixing_crlf : Suffixing crlf := by
  intro i r a h
  rw [crlf_eq_ok h]
  exact ⟨[13, 10], rfl⟩

theorem sign_suffix (i : Bytes) : (sign i).2 <:+ i := by
  rw [sign.eq_def]
  split
  · exact List.suffix_cons _ _
  · exact List.suffix_cons _ _
  · exact List.suffix_rfl

theorem suffixing_i64 : Suffixing i64 := by
  intro i r v h
  exact (i64_eq_ok h).1 ▸ (List.dropWhile_suffix _).trans (sign_suffix i)

theorem suffixing_terminated {p : Parser α} {q : Parser β} (hp : Suffixing p)
    (hq : Suffixing q) : Suffixing (terminated p q) := by
  intro i r a h
  obtain ⟨⟨r₁, a₁⟩, hpi, h₂⟩ := bind_eq_ok.mp h
  obtain ⟨⟨r₂, b⟩, hqi, h₃⟩ := bind_eq_ok.mp h₂
  injection h₃ with h₃
  exact (Prod.mk.inj h₃).1 ▸ (hq hqi).trans (hp hpi)

theorem suffixing_manyLoop {p : Parser α} (hp : Suffixing p) (min : ℕ) :
    ∀ fuel count : ℕ, Suffixing (manyLoop p min fuel count) := by
  intro fuel
  induction fuel with
  | zero => intro count i r vs h; injection h with h; exact (Prod.mk.inj h).1 ▸ List.suffix_rfl
  | succ fuel ih =>
    intro count i r vs h
    rw [manyLoop] at h
    cases hpi : p i with
    | error e =>
      rw [hpi] at h
      cases e with
      | incomplete => cases h
      | failure => cases h
      | error =>
        dsimp only at h
        split_ifs at h
        injection h with h
        exact (Prod.mk.inj h).1 ▸ List.suffix_rfl
    | ok tv =>
      rw [hpi] at h
      dsimp only at h
      split_ifs at h
      cases hrec : manyLoop p min fuel (count + 1) tv.1 with
      | error e => rw [hrec] at h; cases h
      | ok rv =>
        rw [hrec] at h
        injection h with h
        exact (Prod.mk.inj h).1 ▸ (ih _ hrec).trans (hp hpi)

theorem suffixing_manyMN {p : Parser α} (hp : Suffixing p) (m n : ℕ) :
    Suffixing (manyMN m n p) := by
  intro i r vs h
  rw [manyMN] at h
  split_ifs at h
  exact suffixing_manyLoop hp m n 0 h

/-- What `alt` answers is the answer of one of its branches. -/
theorem exists_of_alt_ok {ps : List (Parser α)} {i r : Bytes} {a : α}
    (hok : alt ps i = .ok (r, a)) : ∃ p ∈ ps, p i = .ok (r, a) := by
  induction ps with
  | nil => cases hok
  | cons p ps ih =>
    rw [alt] at hok
    cases hpi : p i with
    | ok ra =>
      rw [hpi] at hok
      exact ⟨p, List.mem_cons_self, hpi.trans hok⟩
    | error e =>
      rw [hpi] at hok
      cases e with
      | incomplete => cases hok
      | failure => cases hok
      | error =>
        obtain ⟨q, hq, h⟩ := ih hok
        exact ⟨q, List.mem_cons_of_mem _ hq, h⟩

theorem consumes_alt {ps : List (Parser α)} (h : ∀ p ∈ ps, Consumes p) : Consumes (alt ps) := by
  intro i r a hok
  obtain ⟨p, hp, hpi⟩ := exists_of_alt_ok hok
  exact h p hp hpi

/-- Two item parsers that agree on every input up to a length give the same loop there, because
the inputs of the later items are suffixes of the first. -/
theorem manyLoop_congr {p q : Parser α} {n : ℕ} (hp : Suffixing p)
    (hpq : ∀ i : Bytes, i.length ≤ n → p i = q i) (min : ℕ) :
    ∀ (fuel count : ℕ) (i : Bytes), i.length ≤ n →
      manyLoop p min fuel count i = manyLoop q min fuel count i := by
  intro fuel
  induction fuel with
  | zero => intro count i _; rfl
  | succ fuel ih =>
    intro count i hi
    rw [manyLoop, manyLoop, ← hpq i hi]
    cases hpi : p i with
    | error e => cases e <;> rfl
    | ok tv =>
      dsimp only
      rw [ih (count + 1) tv.1 ((hp hpi).length_le.trans hi)]

/-! ### Failures -/

/-- Every failure is `Err.error`: the parser never asks for more input. -/
def Complete (p : Parser α) : Prop :=
  ∀ ⦃i : Bytes⦄ ⦃e : Err⦄, p i = .error e → e = .error

theorem complete_ok (f : Bytes → Bytes × α) : Complete fun i => .ok (f i) := by
  intro i e h
  cases h

theorem Complete.seq {p : Parser α} {q : α → Parser β} (hp : Complete p)
    (hq : ∀ a, Complete (q a)) : Complete fun i => p i >>= fun ra => q ra.2 ra.1 := by
  intro i e h
  cases hpi : p i with
  | error e' =>
    simp only [hpi] at h
    injection h with h
    exact h ▸ hp hpi
  | ok ra =>
    simp only [hpi] at h
    exact hq ra.2 h

theorem complete_of_ite {p : Bytes → Prop} [DecidablePred p] {f : Bytes → Bytes × α} :
    Complete fun i => if p i then .ok (f i) else .error .error := by
  intro i e h
  dsimp only at h
  split_ifs at h
  injection h with h
  exact h.symm

theorem complete_tag (t : Bytes) : Complete (tag t) := complete_of_ite

theorem complete_take (n : ℕ) : Complete (take n) := by
  intro i e h
  rw [take] at h
  split_ifs at h
  injection h with h
  exact h.symm

theorem complete_takeWhileMN (m n : ℕ) (pred : UInt8 → Bool) :
    Complete (takeWhileMN m n pred) := by
  intro i e h
  simp only [takeWhileMN] at h
  split_ifs at h
  injection h with h
  exact h.symm

theorem complete_crlf : Complete crlf := by
  intro i e h
  rw [crlf.eq_def] at h
  split at h
  · cases h
  · injection h with h
    exact h.symm

theorem complete_i64 : Complete i64 := by
  intro i e h
  simp only [i64] at h
  split_ifs at h
  · injection h with h; exact h.symm
  · injection h with h; exact h.symm

theorem complete_terminated {p : Parser α} {q : Parser β} (hp : Complete p) (hq : Complete q) :
    Complete (terminated p q) :=
  hp.seq (q := fun a r => q r >>= fun rb => .ok (rb.1, a)) fun a =>
    hq.seq (q := fun _ r => .ok (r, a)) fun _ => complete_ok fun r => (r, a)

theorem complete_manyLoop {p : Parser α} (hp : Complete p) (min : ℕ) :
    ∀ fuel count : ℕ, Complete (manyLoop p min fuel count) := by
  intro fuel
  induction fuel with
  | zero => intro count i e h; cases h
  | succ fuel ih =>
    intro count i e h
    rw [manyLoop] at h
    cases hpi : p i with
    | error e' =>
      obtain rfl := hp hpi
      rw [hpi] at h
      dsimp only at h
      split_ifs at h
      injection h with h
      exact h.symm
    | ok tv =>
      rw [hpi] at h
      dsimp only at h
      split_ifs at h
      · injection h with h; exact h.symm
      · cases hrec : manyLoop p min fuel (count + 1) tv.1 with
        | ok rv => rw [hrec] at h; cases h
        | error e' =>
          rw [hrec] at h
          injection h with h
          exact h ▸ ih _ hrec

theorem complete_manyMN {p : Parser α} (hp : Complete p) (n : ℕ) : Complete (manyMN n n p) := by
  intro i e h
  rw [manyMN, if_neg (lt_irrefl n)] at h
  exact complete_manyLoop hp n n 0 h

theorem complete_alt {ps : List (Parser α)} (h : ∀ p ∈ ps, Complete p) : Complete (alt ps) := by
  induction ps with
  | nil => intro i e hf; injection hf with hf; exact hf.symm
  | cons p ps ih =>
    intro i e hf
    rw [alt] at hf
    cases hpi : p i with
    | ok ra => rw [hpi] at hf; cases hf
    | error e' =>
      obtain rfl := h p List.mem_cons_self hpi
      rw [hpi] at hf
      exact ih (fun q hq => h q (List.mem_cons_of_mem _ hq)) hf

/-! ### What is read -/

/-- Every value that is read is in `Q`. -/
def Yields (Q : α → Prop) (p : Parser α) : Prop :=
  ∀ {i r : Bytes} {a : α}, p i = .ok (r, a) → Q a

theorem yields_alt {Q : α → Prop} {ps : List (Parser α)} (h : ∀ p ∈ ps, Yields Q p) :
    Yields Q (alt ps) := by
  intro i r a hok
  obtain ⟨p, hp, hpi⟩ := exists_of_alt_ok hok
  exact h p hp hpi

theorem yields_manyLoop {Q : α → Prop} {p : Parser α} (hp : Yields Q p) (min : ℕ) :
    ∀ fuel count : ℕ, Yields (fun as => ∀ a ∈ as, Q a) (manyLoop p min fuel count) := by
  intro fuel
  induction fuel with
  | zero =>
    intro count i r as h
    obtain ⟨rfl, rfl⟩ := Prod.mk.inj (Except.ok.inj h)
    exact List.forall_mem_nil _
  | succ fuel ih =>
    intro count i r as h
    rw [manyLoop] at h
    cases hpi : p i with
    | error e =>
      rw [hpi] at h
      cases e with
      | incomplete => cases h
      | failure => cases h
      | error =>
        dsimp only at h
        split_ifs at h
        obtain ⟨rfl, rfl⟩ := Prod.mk.inj (Except.ok.inj h)
        exact List.forall_mem_nil _
    | ok tv =>
      obtain ⟨tail, v⟩ := tv
      rw [hpi] at h
      dsimp only at h
      split_ifs at h
      cases hrec : manyLoop p min fuel (count + 1) tail with
      | error e => rw [hrec] at h; cases h
      | ok rv =>
        rw [hrec] at h
        obtain ⟨rfl, rfl⟩ := Prod.mk.inj (Except.ok.inj h)
        exact List.forall_mem_cons.mpr ⟨hp hpi, ih (count + 1) hrec⟩

theorem yields_manyMN {Q : α → Prop} {p : Parser α} (hp : Yields Q p) (m n : ℕ) :
    Yields (fun as => ∀ a ∈ as, Q a) (manyMN m n p) := by
  intro i r as h
  rw [manyMN] at h
  split_ifs at h
  exact yields_manyLoop hp m n 0 h

end Nom
