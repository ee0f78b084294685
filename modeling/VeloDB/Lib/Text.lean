import Mathlib.Data.List.TakeWhile
import Mathlib.Data.List.DropRight
import Mathlib.Tactic.Ring

/-!
# Byte strings and text

A Rust program moves between three views of the same data: raw bytes (`Vec<u8>`), text (`String`,
always valid UTF-8) and numbers (through `to_string` and `parse`). This file fixes those views and
the round trips between them, for use by any model of such a program.

* bytes are `List UInt8`; text is Lean's own `String`, whose `toList` is the sequence of Unicode
  scalar values that a Rust `String` holds;
* `asBytes` is `str::as_bytes` and `fromUtf8Lossy` is `String::from_utf8_lossy`, which replaces
  each maximal ill-formed part by one `U+FFFD`;
* `parseUnsigned` and `parseSigned` are `str::parse` at the integer types, with the bounds of the
  type as parameters.

## Main results

* `fromUtf8Lossy_asBytes` — lossy decoding gives back the text that was encoded
* `asBytes_injective` — so the encoding is injective
* `parseUnsigned_toString`, `parseSigned_toString` — a printed integer parses to itself
* `parseSigned_eq_some_iff` — a type reads the number that a text denotes, if it has that value
-/

namespace Rust

/-- `Vec<u8>`. -/
abbrev Bytes := List UInt8

/-! ### UTF-8 -/

/-- `str::as_bytes`: the UTF-8 encoding. -/
def asBytes (s : String) : Bytes := s.toList.flatMap String.utf8EncodeChar

/-- Whether `n₁` may follow the lead byte `n₀` of a sequence of two or more bytes. The narrowed
ranges after `E0`, `ED`, `F0` and `F4` exclude overlong forms, surrogates and values past
`U+10FFFF`. -/
def secondByteOk (n₀ n₁ : ℕ) : Bool :=
  if 0xC2 ≤ n₀ ∧ n₀ ≤ 0xDF then 0x80 ≤ n₁ ∧ n₁ ≤ 0xBF
  else if n₀ = 0xE0 then 0xA0 ≤ n₁ ∧ n₁ ≤ 0xBF
  else if n₀ = 0xED then 0x80 ≤ n₁ ∧ n₁ ≤ 0x9F
  else if 0xE1 ≤ n₀ ∧ n₀ ≤ 0xEF then 0x80 ≤ n₁ ∧ n₁ ≤ 0xBF
  else if n₀ = 0xF0 then 0x90 ≤ n₁ ∧ n₁ ≤ 0xBF
  else if 0xF1 ≤ n₀ ∧ n₀ ≤ 0xF3 then 0x80 ≤ n₁ ∧ n₁ ≤ 0xBF
  else if n₀ = 0xF4 then 0x80 ≤ n₁ ∧ n₁ ≤ 0x8F
  else false

/-- A continuation byte. -/
def isCont (n : ℕ) : Bool := 0x80 ≤ n ∧ n ≤ 0xBF

/-- The characters of a byte string, each maximal ill-formed part read as one `U+FFFD`. -/
def lossyChars : Bytes → List Char
  | [] => []
  | b₀ :: r₀ =>
    if b₀.toNat < 0x80 then Char.ofNat b₀.toNat :: lossyChars r₀
    else match r₀ with
      | [] => ['\uFFFD']
      | b₁ :: r₁ =>
        if secondByteOk b₀.toNat b₁.toNat = false then '\uFFFD' :: lossyChars (b₁ :: r₁)
        else if b₀.toNat < 0xE0 then
          Char.ofNat (b₀.toNat % 32 * 64 + b₁.toNat % 64) :: lossyChars r₁
        else match r₁ with
          | [] => ['\uFFFD']
          | b₂ :: r₂ =>
            if isCont b₂.toNat = false then '\uFFFD' :: lossyChars (b₂ :: r₂)
            else if b₀.toNat < 0xF0 then
              Char.ofNat (b₀.toNat % 16 * 4096 + b₁.toNat % 64 * 64 + b₂.toNat % 64)
                :: lossyChars r₂
            else match r₂ with
              | [] => ['\uFFFD']
              | b₃ :: r₃ =>
                if isCont b₃.toNat = false then '\uFFFD' :: lossyChars (b₃ :: r₃)
                else
                  Char.ofNat (b₀.toNat % 8 * 262144 + b₁.toNat % 64 * 4096 + b₂.toNat % 64 * 64
                    + b₃.toNat % 64) :: lossyChars r₃

/-- `String::from_utf8_lossy`. -/
def fromUtf8Lossy (b : Bytes) : String := String.ofList (lossyChars b)

theorem lossyChars_cons_ascii {b : UInt8} (h : b.toNat < 0x80) (r : Bytes) :
    lossyChars (b :: r) = Char.ofNat b.toNat :: lossyChars r := by
  rw [lossyChars.eq_def]
  simp only [if_pos h]

/-! ### Trimming and splitting -/

/-- `char::is_whitespace`: the Unicode property `White_Space`. -/
def isWhitespace (c : Char) : Bool :=
  let n := c.toNat
  (9 ≤ n ∧ n ≤ 13) ∨ n = 0x20 ∨ n = 0x85 ∨ n = 0xA0 ∨ n = 0x1680 ∨ (0x2000 ≤ n ∧ n ≤ 0x200A) ∨
    n = 0x2028 ∨ n = 0x2029 ∨ n = 0x202F ∨ n = 0x205F ∨ n = 0x3000

/-- `str::trim_end`. -/
def trimEnd (s : String) : String := String.ofList (s.toList.rdropWhile isWhitespace)

/-- `str::trim_start_matches` of a character. -/
def trimStartMatches (c : Char) (s : String) : String :=
  String.ofList (s.toList.dropWhile (· == c))

/-- `str::trim`. -/
def trim (s : String) : String :=
  String.ofList ((s.toList.dropWhile isWhitespace).rdropWhile isWhitespace)

/-- `str::split` at a character. -/
def split (c : Char) (s : String) : List String := (s.toList.splitOn c).map String.ofList

/-- `splitn(2, c)`: what is in front of the first `c`, and what is behind it if there is one. -/
def splitOnce (c : Char) (s : String) : String × Option String :=
  let l := s.toList.takeWhile (· != c)
  (String.ofList l,
    if c ∈ s.toList then some (String.ofList (s.toList.drop (l.length + 1))) else none)

/-- `str::strip_prefix`. -/
def stripPrefix (p s : String) : Option String :=
  if p.toList.isPrefixOf s.toList then some (String.ofList (s.toList.drop p.toList.length))
  else none

theorem stripPrefix_append (p s : String) : stripPrefix p (p ++ s) = some s := by
  rw [stripPrefix, String.toList_append, if_pos (by simp), List.drop_left, String.ofList_toList]

/-- `str::strip_suffix`. -/
def stripSuffix (p s : String) : Option String :=
  if p.toList.isSuffixOf s.toList then
    some (String.ofList (s.toList.take (s.toList.length - p.toList.length)))
  else none

theorem stripSuffix_eq_some_iff {p s t : String} : stripSuffix p s = some t ↔ s = t ++ p := by
  rw [stripSuffix]
  constructor
  · intro h
    split_ifs at h with hsuffix
    obtain ⟨l, hl⟩ := List.isSuffixOf_iff_suffix.mp hsuffix
    obtain rfl := Option.some.inj h
    rw [← String.toList_inj, String.toList_append, String.toList_ofList, ← hl, List.length_append,
      Nat.add_sub_cancel, List.take_left]
  · rintro rfl
    have hsuffix : p.toList.isSuffixOf (t ++ p).toList = true := by
      rw [List.isSuffixOf_iff_suffix, String.toList_append]
      exact List.suffix_append _ _
    rw [if_pos hsuffix, String.toList_append, List.length_append, Nat.add_sub_cancel,
      List.take_left, String.ofList_toList]

theorem splitOnce_append {c : Char} {s : String} (hs : c ∉ s.toList) (t : String) :
    splitOnce c (s ++ (String.singleton c ++ t)) = (s, some t) := by
  have htoList : (s ++ (String.singleton c ++ t)).toList = s.toList ++ c :: t.toList := by
    simp
  have hne : ∀ d ∈ s.toList, (d != c) = true := by
    intro d hd
    rw [bne_iff_ne]
    rintro rfl
    exact hs hd
  have htake : (s.toList ++ c :: t.toList).takeWhile (· != c) = s.toList := by
    rw [List.takeWhile_append_of_pos hne]
    simp
  have hdrop : (s.toList ++ c :: t.toList).drop (s.toList.length + 1) = t.toList := by
    rw [List.drop_append]
    simp
  rw [splitOnce, htoList, htake, hdrop, if_pos (by simp), String.ofList_toList,
    String.ofList_toList]

/-- Only the whitespace behind a text is cut off. -/
theorem trimEnd_append {s t : String} (hs : ∀ c ∈ s.toList.getLast?, isWhitespace c = false)
    (ht : ∀ c ∈ t.toList, isWhitespace c = true) : trimEnd (s ++ t) = s := by
  have htail : (s ++ t).toList.rdropWhile isWhitespace = s.toList.rdropWhile isWhitespace := by
    rw [String.toList_append, List.rdropWhile, List.reverse_append, List.dropWhile_append,
      List.dropWhile_eq_nil_iff.mpr fun c hc => ht c (List.mem_reverse.mp hc)]
    rfl
  have hself : s.toList.rdropWhile isWhitespace = s.toList := by
    rw [List.rdropWhile_eq_self_iff]
    intro hne
    have hlast := hs _ (List.getLast?_eq_some_getLast hne)
    simp [hlast]
  rw [trimEnd, htail, hself, String.ofList_toList]

/-- A text with no whitespace at either end stays as it is. -/
theorem trim_eq_self {s : String} (hs : ∀ c ∈ s.toList, isWhitespace c = false) : trim s = s := by
  have hstart : s.toList.dropWhile isWhitespace = s.toList := by
    rw [List.dropWhile_eq_self_iff]
    intro hne
    simp [hs _ (List.getElem_mem hne)]
  have hend : s.toList.rdropWhile isWhitespace = s.toList := by
    rw [List.rdropWhile_eq_self_iff]
    intro hne
    simp [hs _ (List.getLast_mem hne)]
  rw [trim, hstart, hend, String.ofList_toList]

/-! ### Integers as text -/

/-- `usize::MAX`. -/
def usizeMax : ℕ := 2 ^ 64 - 1

/-- `isize::MAX`, the largest number of bytes that a vector can hold. -/
def isizeMax : ℕ := 2 ^ 63 - 1

/-- `str::parse` at an unsigned type with largest value `max`: an optional `+`, at least one
digit, nothing else, and no overflow. -/
def parseUnsigned (max : ℕ) (s : String) : Option ℕ :=
  let ds := match s.toList with
    | '+' :: r => r
    | r => r
  if ds ≠ [] ∧ ds.all Char.isDigit ∧ Nat.ofDigitChars 10 ds 0 ≤ max then
    some (Nat.ofDigitChars 10 ds 0)
  else none

/-- What is left of a text that ends in a letter still ends in it. -/
theorem toList_trim_concat {s : String} {l : List Char} {c : Char} (hs : s.toList = l ++ [c])
    (hc : isWhitespace c = false) : ∃ l', (trim s).toList = l' ++ [c] := by
  have hstart : ∃ l', s.toList.dropWhile isWhitespace = l' ++ [c] := by
    rw [hs, List.dropWhile_append]
    split_ifs
    · exact ⟨[], by rw [List.dropWhile_cons_of_neg (by simp [hc]), List.nil_append]⟩
    · exact ⟨_, rfl⟩
  obtain ⟨l', hl'⟩ := hstart
  refine ⟨l', ?_⟩
  rw [trim, String.toList_ofList, hl', List.rdropWhile_concat_neg _ _ _ (by simp [hc])]

/-- The last letter of a number is a digit. -/
theorem isDigit_of_parseUnsigned {max n : ℕ} {s : String} (h : parseUnsigned max s = some n)
    {l : List Char} {c : Char} (hs : s.toList = l ++ [c]) : c.isDigit = true := by
  rw [parseUnsigned, hs] at h
  split_ifs at h with hds
  obtain ⟨hne, hall, -⟩ := hds
  rw [List.all_eq_true] at hall
  cases l with
  | nil =>
    rw [List.nil_append] at hne hall
    split at hall
    · next r heq =>
      obtain ⟨rfl, rfl⟩ := List.cons.inj heq
      exact absurd rfl hne
    · exact hall c List.mem_cons_self
  | cons d l =>
    rw [List.cons_append] at hall
    split at hall
    · next r heq =>
      obtain ⟨-, rfl⟩ := List.cons.inj heq
      exact hall c (by simp)
    · exact hall c (by simp)

/-- `str::parse` at a signed type with values `-min, …, max`. -/
def parseSigned (min max : ℕ) (s : String) : Option ℤ :=
  match s.toList with
  | '-' :: ds =>
    if ds ≠ [] ∧ ds.all Char.isDigit ∧ Nat.ofDigitChars 10 ds 0 ≤ min then
      some (-(Nat.ofDigitChars 10 ds 0 : ℤ))
    else none
  | _ => (parseUnsigned max s).map Int.ofNat

theorem toList_toString_nat (n : ℕ) : (toString n).toList = Nat.toDigits 10 n :=
  Nat.toList_repr

theorem isDigit_of_mem_toDigits {n : ℕ} {c : Char} (h : c ∈ Nat.toDigits 10 n) :
    c.isDigit = true :=
  Nat.isDigit_of_mem_toDigits (by decide) (by decide) h

theorem toNat_lt_of_isDigit {c : Char} (h : c.isDigit = true) : c.toNat < 0x80 := by
  simp only [Char.isDigit, Bool.and_eq_true, decide_eq_true_eq] at h
  have h2 : c.val.toNat ≤ 57 := by simpa using UInt32.le_iff_toNat_le.mp h.2
  exact lt_of_le_of_lt h2 (by decide)

/-- A printed natural number parses to itself, if it is not too large. -/
theorem parseUnsigned_toString_eq (max n : ℕ) :
    parseUnsigned max (toString n) = if n ≤ max then some n else none := by
  have hd : ∀ c ∈ Nat.toDigits 10 n, c.isDigit = true := fun c => isDigit_of_mem_toDigits
  have hds : (match (toString n).toList with | '+' :: r => r | r => r) = Nat.toDigits 10 n := by
    rw [toList_toString_nat]
    split
    · next r heq =>
      have hplus := hd '+' (by rw [heq]; exact List.mem_cons_self)
      exact absurd hplus (by decide)
    · rfl
  simp only [parseUnsigned, hds]
  rw [Nat.ofDigitChars_ten_toDigits]
  by_cases h : n ≤ max
  · rw [if_pos ⟨Nat.toDigits_ne_nil, List.all_eq_true.mpr hd, h⟩, if_pos h]
  · rw [if_neg fun hall => h hall.2.2, if_neg h]

/-- **A printed natural number parses to itself.** -/
theorem parseUnsigned_toString {max n : ℕ} (h : n ≤ max) :
    parseUnsigned max (toString n) = some n :=
  (parseUnsigned_toString_eq max n).trans (if_pos h)

theorem toString_nat_injective : Function.Injective (toString : ℕ → String) := by
  intro n m h
  have hn := parseUnsigned_toString (le_max_left n m)
  rw [h, parseUnsigned_toString (le_max_right n m)] at hn
  exact (Option.some.inj hn).symm

theorem toList_toString_negSucc (n : ℕ) :
    (toString (Int.negSucc n)).toList = '-' :: Nat.toDigits 10 (n + 1) := by
  have h : toString (Int.negSucc n) = "-" ++ toString (n + 1) := rfl
  rw [h, String.toList_append, toList_toString_nat]
  rfl

/-- **A printed integer parses to itself.** -/
theorem parseSigned_toString {min max : ℕ} {i : ℤ} (hlo : -(min : ℤ) ≤ i) (hhi : i ≤ max) :
    parseSigned min max (toString i) = some i := by
  cases i with
  | ofNat n =>
    have hs : toString (Int.ofNat n) = toString n := rfl
    have hn : n ≤ max := by simpa using hhi
    rw [parseSigned, hs]
    split
    · next ds heq =>
      rw [toList_toString_nat] at heq
      have hminus : '-'.isDigit = true :=
        isDigit_of_mem_toDigits (n := n) (by rw [heq]; exact List.mem_cons_self)
      exact absurd hminus (by decide)
    · rw [parseUnsigned_toString hn]
      rfl
  | negSucc n =>
    have hd : ∀ c ∈ Nat.toDigits 10 (n + 1), c.isDigit = true := fun c => isDigit_of_mem_toDigits
    have hn : n + 1 ≤ min := by omega
    rw [parseSigned, toList_toString_negSucc]
    change (if _ then some (-(Nat.ofDigitChars 10 (Nat.toDigits 10 (n + 1)) 0 : ℤ)) else none) = _
    rw [if_pos ⟨Nat.toDigits_ne_nil, List.all_eq_true.mpr hd,
      by rw [Nat.ofDigitChars_ten_toDigits]; exact hn⟩, Nat.ofDigitChars_ten_toDigits]
    rfl

/-! ### The number that a text denotes -/

/-- An integer type that is large enough reads the number from the text. -/
def Denotes (s : String) (n : ℤ) : Prop := ∃ min max, parseSigned min max s = some n

theorem parseUnsigned_shape (s : String) : ∃ ds : List Char, ∀ max, parseUnsigned max s =
    if ds ≠ [] ∧ ds.all Char.isDigit ∧ Nat.ofDigitChars 10 ds 0 ≤ max then
      some (Nat.ofDigitChars 10 ds 0) else none :=
  ⟨_, fun _ => rfl⟩

theorem parseUnsigned_minus {s : String} {ds : List Char} (h : s.toList = '-' :: ds) (max : ℕ) :
    parseUnsigned max s = none := by
  rw [parseUnsigned, h]
  exact if_neg fun hall => absurd hall.2.1 (by simp)

theorem parseSigned_minus {s : String} {ds : List Char} (h : s.toList = '-' :: ds) (min max : ℕ) :
    parseSigned min max s = if ds ≠ [] ∧ ds.all Char.isDigit ∧ Nat.ofDigitChars 10 ds 0 ≤ min then
      some (-(Nat.ofDigitChars 10 ds 0 : ℤ)) else none := by
  rw [parseSigned, h]
  rfl

theorem parseSigned_plus {s : String} (h : ∀ ds, s.toList ≠ '-' :: ds) (min max : ℕ) :
    parseSigned min max s = (parseUnsigned max s).map fun m : ℕ => (m : ℤ) := by
  rw [parseSigned]
  split
  · next ds hs => exact absurd hs (h ds)
  · rfl

theorem parseUnsigned_le {s : String} {max m : ℕ} (h : parseUnsigned max s = some m) :
    m ≤ max := by
  obtain ⟨ds, hds⟩ := parseUnsigned_shape s
  rw [hds] at h
  split_ifs at h with hall
  obtain rfl := Option.some.inj h
  exact hall.2.2

theorem parseUnsigned_mono {s : String} {max max' m : ℕ} (h : parseUnsigned max s = some m)
    (hm : m ≤ max') : parseUnsigned max' s = some m := by
  obtain ⟨ds, hds⟩ := parseUnsigned_shape s
  rw [hds] at h ⊢
  split_ifs at h with hall
  obtain rfl := Option.some.inj h
  exact if_pos ⟨hall.1, hall.2.1, hm⟩

theorem parseUnsigned_unique {s : String} {max max' m m' : ℕ} (h : parseUnsigned max s = some m)
    (h' : parseUnsigned max' s = some m') : m = m' := by
  have hm := parseUnsigned_mono h (le_max_left m m')
  have hm' := parseUnsigned_mono h' (le_max_right m m')
  exact Option.some.inj (hm.symm.trans hm')

/-- **What a type reads** is the number that the text denotes, if that is a value of the type. -/
theorem parseSigned_eq_some_iff {s : String} {min max : ℕ} {n : ℤ} :
    parseSigned min max s = some n ↔ Denotes s n ∧ -(min : ℤ) ≤ n ∧ n ≤ max := by
  by_cases hminus : ∃ ds, s.toList = '-' :: ds
  · obtain ⟨ds, hs⟩ := hminus
    constructor
    · intro h
      refine ⟨⟨min, max, h⟩, ?_⟩
      rw [parseSigned_minus hs] at h
      split_ifs at h with hall
      obtain rfl := Option.some.inj h
      omega
    · rintro ⟨⟨min', max', h⟩, hlow, -⟩
      rw [parseSigned_minus hs] at h ⊢
      split_ifs at h with hall
      obtain rfl := Option.some.inj h
      exact if_pos ⟨hall.1, hall.2.1, by omega⟩
  · rw [not_exists] at hminus
    constructor
    · intro h
      refine ⟨⟨min, max, h⟩, ?_⟩
      rw [parseSigned_plus hminus] at h
      obtain ⟨m, hm, rfl⟩ := Option.map_eq_some_iff.mp h
      obtain ⟨ds, hds⟩ := parseUnsigned_shape s
      rw [hds] at hm
      split_ifs at hm with hall
      obtain rfl := Option.some.inj hm
      exact ⟨by omega, by omega⟩
    · rintro ⟨⟨min', max', h⟩, -, hhigh⟩
      rw [parseSigned_plus hminus] at h ⊢
      obtain ⟨m, hm, rfl⟩ := Option.map_eq_some_iff.mp h
      rw [parseUnsigned_mono hm (by omega), Option.map_some]

theorem Denotes.unique {s : String} {n n' : ℤ} (h : Denotes s n) (h' : Denotes s n') : n = n' := by
  obtain ⟨min, max, hn⟩ := h
  obtain ⟨min', max', hn'⟩ := h'
  have hbounds := (parseSigned_eq_some_iff.mp hn).2
  have hbounds' := (parseSigned_eq_some_iff.mp hn').2
  have hboth : ∀ k : ℤ, Denotes s k → -((min + min' : ℕ) : ℤ) ≤ k → k ≤ (max + max' : ℕ) →
      parseSigned (min + min') (max + max') s = some k := fun k hk hlow hhigh =>
    parseSigned_eq_some_iff.mpr ⟨hk, hlow, hhigh⟩
  have hsome := hboth n ⟨min, max, hn⟩ (by omega) (by omega)
  have hsome' := hboth n' ⟨min', max', hn'⟩ (by omega) (by omega)
  exact Option.some.inj (hsome.symm.trans hsome')

theorem denotes_of_parseUnsigned {s : String} {max m : ℕ} (h : parseUnsigned max s = some m) :
    Denotes s m := by
  refine ⟨0, max, ?_⟩
  rw [parseSigned_plus, h]
  · rfl
  · intro ds hs
    cases (parseUnsigned_minus hs max).symm.trans h

/-- An unsigned type does not read a minus in front of a zero either, but a zero is what it takes
instead. -/
theorem getD_parseUnsigned {s : String} {max : ℕ} {n : ℤ} (h : Denotes s n) (hlow : 0 ≤ n)
    (hhigh : n ≤ max) : (((parseUnsigned max s).getD 0 : ℕ) : ℤ) = n := by
  have hsigned : parseSigned 0 max s = some n :=
    parseSigned_eq_some_iff.mpr ⟨h, by omega, hhigh⟩
  by_cases hminus : ∃ ds, s.toList = '-' :: ds
  · obtain ⟨ds, hs⟩ := hminus
    rw [parseSigned_minus hs 0] at hsigned
    split_ifs at hsigned with hall
    have hn := Option.some.inj hsigned
    rw [parseUnsigned_minus hs, Option.getD_none]
    omega
  · rw [parseSigned_plus (not_exists.mp hminus) 0] at hsigned
    obtain ⟨m, hm, rfl⟩ := Option.map_eq_some_iff.mp hsigned
    rw [hm]
    rfl

/-! ### Lossy decoding -/

theorem lossyChars_two {b₀ b₁ : UInt8} (h₀ : 0x80 ≤ b₀.toNat) (h₀' : b₀.toNat < 0xE0)
    (h₁ : secondByteOk b₀.toNat b₁.toNat = true) (r : Bytes) :
    lossyChars (b₀ :: b₁ :: r) =
      Char.ofNat (b₀.toNat % 32 * 64 + b₁.toNat % 64) :: lossyChars r := by
  rw [lossyChars.eq_def]
  simp only [if_neg (Nat.not_lt.mpr h₀), h₁, if_pos h₀', Bool.true_eq_false, if_false]

theorem lossyChars_three {b₀ b₁ b₂ : UInt8} (h₀ : 0xE0 ≤ b₀.toNat) (h₀' : b₀.toNat < 0xF0)
    (h₁ : secondByteOk b₀.toNat b₁.toNat = true) (h₂ : isCont b₂.toNat = true) (r : Bytes) :
    lossyChars (b₀ :: b₁ :: b₂ :: r) =
      Char.ofNat (b₀.toNat % 16 * 4096 + b₁.toNat % 64 * 64 + b₂.toNat % 64)
        :: lossyChars r := by
  have h80 : ¬b₀.toNat < 0x80 := by omega
  rw [lossyChars.eq_def]
  simp only [if_neg h80, h₁, h₂, if_neg (Nat.not_lt.mpr h₀), if_pos h₀', Bool.true_eq_false,
    if_false]

theorem lossyChars_four {b₀ b₁ b₂ b₃ : UInt8} (h₀ : 0xF0 ≤ b₀.toNat)
    (h₁ : secondByteOk b₀.toNat b₁.toNat = true) (h₂ : isCont b₂.toNat = true)
    (h₃ : isCont b₃.toNat = true) (r : Bytes) :
    lossyChars (b₀ :: b₁ :: b₂ :: b₃ :: r) =
      Char.ofNat (b₀.toNat % 8 * 262144 + b₁.toNat % 64 * 4096 + b₂.toNat % 64 * 64
        + b₃.toNat % 64) :: lossyChars r := by
  have h80 : ¬b₀.toNat < 0x80 := by omega
  have hE0 : ¬b₀.toNat < 0xE0 := by omega
  rw [lossyChars.eq_def]
  simp only [if_neg h80, h₁, h₂, h₃, if_neg hE0, if_neg (Nat.not_lt.mpr h₀), Bool.true_eq_false,
    if_false]

theorem secondByteOk_iff {n₀ n₁ : ℕ} : secondByteOk n₀ n₁ = true ↔
    (0xC2 ≤ n₀ ∧ n₀ ≤ 0xF4) ∧ (0x80 ≤ n₁ ∧ n₁ ≤ 0xBF) ∧ (n₀ = 0xE0 → 0xA0 ≤ n₁) ∧
      (n₀ = 0xED → n₁ ≤ 0x9F) ∧ (n₀ = 0xF0 → 0x90 ≤ n₁) ∧ (n₀ = 0xF4 → n₁ ≤ 0x8F) := by
  rw [secondByteOk]
  split_ifs <;> simp <;> omega

/-- Decoding one encoded character and going on with what follows it. The four cases are the four
lengths of a UTF-8 sequence; the surrogate gap in `Char` is what makes `ED` sequences pass. -/
theorem lossyChars_utf8EncodeChar (c : Char) (r : Bytes) :
    lossyChars (String.utf8EncodeChar c ++ r) = c :: lossyChars r := by
  have hv : c.val.toNat < 0xD800 ∨ 0xDFFF < c.val.toNat ∧ c.val.toNat < 0x110000 := c.valid
  have hc : ∀ n, n = c.val.toNat → Char.ofNat n = c := fun n hn => by
    rw [hn]; exact Char.ofNat_toNat c
  have hb : ∀ n < 256, (UInt8.ofNat n).toNat = n := fun n hn => by
    rw [UInt8.toNat_ofNat']; exact Nat.mod_eq_of_lt hn
  rw [String.utf8EncodeChar]
  generalize c.val.toNat = v at hv hc
  split_ifs with h1 h2 h3
  · rw [List.singleton_append, lossyChars_cons_ascii (by rw [hb v (by omega)]; omega),
      hb v (by omega), hc v rfl]
  · have e₀ := hb (v / 64 % 32 + 192) (by omega)
    have e₁ := hb (v % 64 + 128) (by omega)
    rw [List.cons_append, List.singleton_append, lossyChars_two (by omega) (by omega)
      (by rw [secondByteOk_iff]; omega), hc _ (by omega)]
  · have e₀ := hb (v / 4096 % 16 + 224) (by omega)
    have e₁ := hb (v / 64 % 64 + 128) (by omega)
    have e₂ := hb (v % 64 + 128) (by omega)
    rw [List.cons_append, List.cons_append, List.singleton_append,
      lossyChars_three (by omega) (by omega) (by rw [secondByteOk_iff]; omega)
        (by rw [e₂]; simp [isCont]; omega), hc _ (by omega)]
  · have e₀ := hb (v / 262144 % 8 + 240) (by omega)
    have e₁ := hb (v / 4096 % 64 + 128) (by omega)
    have e₂ := hb (v / 64 % 64 + 128) (by omega)
    have e₃ := hb (v % 64 + 128) (by omega)
    rw [List.cons_append, List.cons_append, List.cons_append, List.singleton_append,
      lossyChars_four (by omega) (by rw [secondByteOk_iff]; omega)
        (by rw [e₂]; simp [isCont]; omega) (by rw [e₃]; simp [isCont]; omega), hc _ (by omega)]

theorem lossyChars_flatMap_append (l : List Char) (r : Bytes) :
    lossyChars (l.flatMap String.utf8EncodeChar ++ r) = l ++ lossyChars r := by
  induction l with
  | nil => rfl
  | cons c l ih =>
    rw [List.flatMap_cons, List.append_assoc, lossyChars_utf8EncodeChar, ih, List.cons_append]

/-- **Decoding what was encoded.** -/
@[simp] theorem fromUtf8Lossy_asBytes (s : String) : fromUtf8Lossy (asBytes s) = s := by
  have h := lossyChars_flatMap_append s.toList []
  rw [List.append_nil, lossyChars, List.append_nil] at h
  rw [fromUtf8Lossy, asBytes, h, String.ofList_toList]

theorem toNat_charOfNat (n : ℕ) : (Char.ofNat n).toNat = if n.isValidChar then n else 0 := by
  by_cases h : n.isValidChar
  · rw [Char.ofNat, dif_pos h, if_pos h]
    rfl
  · rw [Char.ofNat, dif_neg h, if_neg h]
    rfl

/-- An ASCII character at the front is read from its own byte. -/
theorem lossyChars_head_ascii {k : Bytes} {c : Char} {cs : List Char} (hc : c.toNat < 0x80)
    (h : lossyChars k = c :: cs) : ∃ r, k = UInt8.ofNat c.toNat :: r ∧ cs = lossyChars r := by
  rcases k with _ | ⟨b₀, r₀⟩
  · cases h
  by_cases hb : b₀.toNat < 0x80
  · rw [lossyChars_cons_ascii hb] at h
    obtain ⟨rfl, rfl⟩ := List.cons.inj h
    have hvalid : b₀.toNat.isValidChar := Or.inl (by omega)
    rw [toNat_charOfNat, if_pos hvalid, UInt8.ofNat_toNat]
    exact ⟨r₀, rfl, rfl⟩
  · have hlarge : ∀ n cs', n.isValidChar → 0x80 ≤ n → Char.ofNat n :: cs' ≠ c :: cs := by
      intro n cs' hvalid hn heq
      rw [← (List.cons.inj heq).1, toNat_charOfNat, if_pos hvalid] at hc
      omega
    have hreplaced : ∀ cs', '\uFFFD' :: cs' ≠ c :: cs :=
      fun cs' => hlarge 0xFFFD cs' (by decide) (by decide)
    exfalso
    rw [lossyChars.eq_def] at h
    simp only [if_neg hb] at h
    split at h
    · exact hreplaced _ h
    next b₁ r₁ =>
    by_cases h₁ : secondByteOk b₀.toNat b₁.toNat = false
    · rw [if_pos h₁] at h
      exact hreplaced _ h
    rw [if_neg h₁] at h
    have hok := secondByteOk_iff.mp (by simpa using h₁)
    by_cases h₂ : b₀.toNat < 0xE0
    · rw [if_pos h₂] at h
      exact hlarge _ _ (Or.inl (by omega)) (by omega) h
    rw [if_neg h₂] at h
    split at h
    · exact hreplaced _ h
    next b₂ r₂ =>
    by_cases h₃ : isCont b₂.toNat = false
    · rw [if_pos h₃] at h
      exact hreplaced _ h
    rw [if_neg h₃] at h
    by_cases h₄ : b₀.toNat < 0xF0
    · rw [if_pos h₄] at h
      refine hlarge _ _ ?_ (by omega) h
      rw [Nat.isValidChar]
      omega
    rw [if_neg h₄] at h
    split at h
    · exact hreplaced _ h
    next b₃ r₃ =>
    by_cases h₅ : isCont b₃.toNat = false
    · rw [if_pos h₅] at h
      exact hreplaced _ h
    rw [if_neg h₅] at h
    refine hlarge _ _ ?_ (by omega) h
    rw [Nat.isValidChar]
    omega

/-- Decoding takes some bytes from the front for each character. -/
theorem lossyChars_step {k : Bytes} (h : k ≠ []) :
    ∃ c r, lossyChars k = c :: lossyChars r ∧ r <:+ k ∧ r ≠ k := by
  have hof : ∀ {c : Char} {p r : Bytes}, p ≠ [] → lossyChars k = c :: lossyChars r → k = p ++ r →
      ∃ c r, lossyChars k = c :: lossyChars r ∧ r <:+ k ∧ r ≠ k := by
    rintro c p r hp hc hk
    refine ⟨c, r, hc, ⟨p, hk.symm⟩, fun hr => hp ?_⟩
    have hlen := congrArg List.length (hk.symm.trans hr.symm)
    rw [List.length_append] at hlen
    exact List.length_eq_zero_iff.mp (by omega)
  rcases k with _ | ⟨b₀, r₀⟩
  · exact absurd rfl h
  have heq := lossyChars.eq_def (b₀ :: r₀)
  dsimp only at heq
  by_cases h₀ : b₀.toNat < 0x80
  · rw [if_pos h₀] at heq
    exact hof (p := [b₀]) (List.cons_ne_nil _ _) heq rfl
  rw [if_neg h₀] at heq
  rcases r₀ with _ | ⟨b₁, r₁⟩
  · exact hof (r := []) (p := [b₀]) (List.cons_ne_nil _ _) heq rfl
  dsimp only at heq
  split at heq
  · exact hof (p := [b₀]) (List.cons_ne_nil _ _) heq rfl
  split at heq
  · exact hof (p := [b₀, b₁]) (List.cons_ne_nil _ _) heq rfl
  rcases r₁ with _ | ⟨b₂, r₂⟩
  · exact hof (r := []) (p := [b₀, b₁]) (List.cons_ne_nil _ _) heq rfl
  dsimp only at heq
  split at heq
  · exact hof (p := [b₀, b₁]) (List.cons_ne_nil _ _) heq rfl
  split at heq
  · exact hof (p := [b₀, b₁, b₂]) (List.cons_ne_nil _ _) heq rfl
  rcases r₂ with _ | ⟨b₃, r₃⟩
  · exact hof (r := []) (p := [b₀, b₁, b₂]) (List.cons_ne_nil _ _) heq rfl
  dsimp only at heq
  split at heq
  · exact hof (p := [b₀, b₁, b₂]) (List.cons_ne_nil _ _) heq rfl
  · exact hof (p := [b₀, b₁, b₂, b₃]) (List.cons_ne_nil _ _) heq rfl

/-- An ASCII character is read from its own byte. -/
theorem mem_of_mem_lossyChars {c : Char} (hc : c.toNat < 0x80) {k : Bytes}
    (h : c ∈ lossyChars k) : UInt8.ofNat c.toNat ∈ k := by
  induction hn : k.length using Nat.strong_induction_on generalizing k with
  | _ n ih =>
    have hnil : k ≠ [] := by
      rintro rfl
      rw [lossyChars] at h
      cases h
    obtain ⟨d, r, hstep, hsuffix, hne⟩ := lossyChars_step hnil
    rw [hstep] at h
    rcases List.mem_cons.mp h with rfl | h
    · obtain ⟨r', rfl, -⟩ := lossyChars_head_ascii hc hstep
      exact List.mem_cons_self
    · have hlt : r.length < k.length :=
        lt_of_le_of_ne hsuffix.length_le fun h => hne (hsuffix.eq_of_length h)
      exact hsuffix.subset (ih r.length (hn ▸ hlt) h rfl)

theorem lossyChars_eq_nil {k : Bytes} (h : lossyChars k = []) : k = [] := by
  rcases k with _ | ⟨b₀, r₀⟩
  · rfl
  · exfalso
    rw [lossyChars.eq_def] at h
    dsimp only at h
    repeat' split at h
    all_goals exact absurd h (List.cons_ne_nil _ _)

theorem asBytes_injective : Function.Injective asBytes :=
  Function.LeftInverse.injective fromUtf8Lossy_asBytes

theorem asBytes_ofList_cons {c : Char} (hc : c.toNat < 0x80) (cs : List Char) :
    asBytes (String.ofList (c :: cs)) = UInt8.ofNat c.toNat :: asBytes (String.ofList cs) := by
  have hone : String.utf8EncodeChar c = [UInt8.ofNat c.toNat] := by
    rw [String.utf8EncodeChar, if_pos (show c.val.toNat ≤ 127 from Nat.le_of_lt_succ hc)]
    rfl
  rw [asBytes, asBytes, String.toList_ofList, String.toList_ofList, List.flatMap_cons, hone,
    List.singleton_append]

/-- An ASCII byte at the front of decoded text is one at the front of the bytes. -/
theorem asBytes_fromUtf8Lossy_cons {k t : Bytes} {b : UInt8} (hb : b.toNat < 0x80) :
    asBytes (fromUtf8Lossy k) = b :: t ↔ ∃ r, k = b :: r ∧ t = asBytes (fromUtf8Lossy r) := by
  have hvalid : b.toNat.isValidChar := Or.inl (by omega)
  have hnat : (Char.ofNat b.toNat).toNat = b.toNat := by rw [toNat_charOfNat, if_pos hvalid]
  constructor
  · intro h
    have hchars : lossyChars k = Char.ofNat b.toNat :: lossyChars t := by
      have hagain := congrArg String.toList (fromUtf8Lossy_asBytes (fromUtf8Lossy k))
      rwa [h, fromUtf8Lossy, fromUtf8Lossy, String.toList_ofList, String.toList_ofList,
        lossyChars_cons_ascii hb, eq_comm] at hagain
    obtain ⟨r, hk, hr⟩ := lossyChars_head_ascii (by omega) hchars
    rw [hnat, UInt8.ofNat_toNat] at hk
    refine ⟨r, hk, ?_⟩
    rw [fromUtf8Lossy, hchars, asBytes_ofList_cons (by omega), hr] at h
    exact (List.cons.inj h).2.symm
  · rintro ⟨r, rfl, rfl⟩
    rw [fromUtf8Lossy, lossyChars_cons_ascii hb, asBytes_ofList_cons (by omega), hnat,
      UInt8.ofNat_toNat, fromUtf8Lossy]

@[simp] theorem asBytes_append (s t : String) : asBytes (s ++ t) = asBytes s ++ asBytes t := by
  simp [asBytes]

/-- ASCII text is its own encoding, one byte a character. -/
theorem asBytes_of_ascii {s : String} (h : ∀ c ∈ s.toList, c.toNat < 0x80) :
    asBytes s = s.toList.map fun c => UInt8.ofNat c.toNat := by
  rw [asBytes]
  generalize s.toList = l at h
  induction l with
  | nil => rfl
  | cons c l ih =>
    have hc : c.val.toNat ≤ 127 := Nat.le_of_lt_succ (h c List.mem_cons_self)
    rw [List.flatMap_cons, ih fun d hd => h d (List.mem_cons_of_mem _ hd), List.map_cons,
      String.utf8EncodeChar]
    simp only [if_pos hc, List.singleton_append]
    rfl

/-- An ASCII byte in the encoding of a character is that character. -/
theorem toNat_eq_of_mem_utf8EncodeChar {b : UInt8} {c : Char} (hb : b.toNat < 0x80)
    (h : b ∈ String.utf8EncodeChar c) : c.toNat = b.toNat := by
  have hlead : ∀ n, 128 ≤ n → n < 256 → b ≠ UInt8.ofNat n := by
    rintro n hn hn' rfl
    rw [UInt8.toNat_ofNat', Nat.mod_eq_of_lt hn'] at hb
    omega
  have hval : c.toNat = c.val.toNat := rfl
  rw [String.utf8EncodeChar] at h
  generalize c.val.toNat = v at h hval
  split_ifs at h with h1 h2 h3
  · obtain rfl := List.mem_singleton.mp h
    rw [hval, UInt8.toNat_ofNat', Nat.mod_eq_of_lt (by omega)]
  all_goals
    simp only [List.mem_cons, List.not_mem_nil, or_false] at h
    exact absurd h (by
      simp only [not_or]
      refine ⟨hlead _ (by omega) (by omega), ?_⟩
      first
      | exact hlead _ (by omega) (by omega)
      | exact ⟨hlead _ (by omega) (by omega), hlead _ (by omega) (by omega)⟩
      | exact ⟨hlead _ (by omega) (by omega), hlead _ (by omega) (by omega),
          hlead _ (by omega) (by omega)⟩)

end Rust
