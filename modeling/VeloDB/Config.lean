import VeloDB.Host

/-!
# Memory sizes in the configuration

`parse_memory_size` reads a number with an optional unit. It looks for the longer suffixes first,
because every one of them ends in `b`; `Written` says what a directive means without an order: some
unit of the table behind a number. The two agree, since a number ends in a digit.

The product of number and unit is not checked. In a release build it wraps, so from `2 ^ 64` bytes
on the limit is smaller than the one that is written, and for whole multiples of `2 ^ 64` it is
zero, which `over_memory_limit` takes for no limit. (A debug build panics there.)

## Main results

* `parseMemorySize_of_written`, `written_of_parseMemorySize` — the reading
* `parseMemorySize_exact_iff` — when it is exact
-/

namespace VeloDB

open Rust

/-- The number and the multiplier of a lower-case size. -/
def memoryUnit (v : String) : String × ℕ :=
  match stripSuffix "gb" v with
  | some n => (n, 1024 * 1024 * 1024)
  | none =>
    match stripSuffix "mb" v with
    | some n => (n, 1024 * 1024)
    | none =>
      match stripSuffix "kb" v with
      | some n => (n, 1024)
      | none =>
        match stripSuffix "b" v with
        | some n => (n, 1)
        | none => (v, 1)

/-- `parse_memory_size`. The product wraps. -/
def parseMemorySize (H : Host) (value : String) : Option UInt64 :=
  let r := memoryUnit (H.toLowercase (trim value))
  (parseUnsigned (2 ^ 64 - 1) (trim r.1)).map fun n => UInt64.ofNat n * UInt64.ofNat r.2

/-- The units and what they multiply by. -/
def memoryUnits : List (String × ℕ) :=
  [("gb", 1024 ^ 3), ("mb", 1024 ^ 2), ("kb", 1024), ("b", 1), ("", 1)]

/-- A text is a number, however large. -/
def Numeral (s : String) (n : ℕ) : Prop := ∃ max, parseUnsigned max s = some n

/-- `value` is the number `n` and behind it a unit of `mult` bytes, in any case. -/
def Written (H : Host) (value : String) (n mult : ℕ) : Prop :=
  ∃ num unit, H.toLowercase (trim value) = num ++ unit ∧ (unit, mult) ∈ memoryUnits ∧
    Numeral (trim num) n

theorem Numeral.unique {s : String} {n n' : ℕ} (h : Numeral s n) (h' : Numeral s n') : n = n' := by
  obtain ⟨max, h⟩ := h
  obtain ⟨max', h'⟩ := h'
  exact parseUnsigned_unique h h'

/-- A number does not end in a letter, before or after trimming. -/
theorem Numeral.not_ends {num : String} {n : ℕ} (h : Numeral (trim num) n) {t : String} {c : Char}
    (hspace : isWhitespace c = false) (hdigit : c.isDigit = false) :
    num ≠ t ++ String.singleton c := by
  rintro rfl
  obtain ⟨max, hmax⟩ := h
  have hlist : (t ++ String.singleton c).toList = t.toList ++ [c] := by simp
  obtain ⟨l, hl⟩ := toList_trim_concat hlist hspace
  rw [isDigit_of_parseUnsigned hmax hl] at hdigit
  cases hdigit

/-! ### Which unit is found -/

theorem memoryUnit_spec (v : String) :
    ∃ unit, v = (memoryUnit v).1 ++ unit ∧ (unit, (memoryUnit v).2) ∈ memoryUnits := by
  rw [memoryUnit]
  cases hgb : stripSuffix "gb" v with
  | some n => exact ⟨"gb", stripSuffix_eq_some_iff.mp hgb, by simp [memoryUnits]⟩
  | none =>
    cases hmb : stripSuffix "mb" v with
    | some n => exact ⟨"mb", stripSuffix_eq_some_iff.mp hmb, by simp [memoryUnits]⟩
    | none =>
      cases hkb : stripSuffix "kb" v with
      | some n => exact ⟨"kb", stripSuffix_eq_some_iff.mp hkb, by simp [memoryUnits]⟩
      | none =>
        cases hb : stripSuffix "b" v with
        | some n => exact ⟨"b", stripSuffix_eq_some_iff.mp hb, by simp [memoryUnits]⟩
        | none => exact ⟨"", String.append_empty.symm, by simp [memoryUnits]⟩

/-- A text with another ending. -/
theorem stripSuffix_eq_none {p s : String} (h : ∀ t, s ≠ t ++ p) : stripSuffix p s = none := by
  cases hs : stripSuffix p s with
  | none => rfl
  | some t => exact absurd (stripSuffix_eq_some_iff.mp hs) (h t)

theorem stripSuffix_append (p s : String) : stripSuffix p (s ++ p) = some s :=
  stripSuffix_eq_some_iff.mpr rfl

/-- Texts whose endings have one length end alike. -/
theorem ending_eq {s t p q : String} (h : s ++ p = t ++ q)
    (hlen : p.toList.length = q.toList.length) : s = t ∧ p = q := by
  have hlist : s.toList ++ p.toList = t.toList ++ q.toList := by
    rw [← String.toList_append, h, String.toList_append]
  obtain ⟨hs, hp⟩ := List.append_inj' hlist hlen
  exact ⟨String.toList_inj.mp hs, String.toList_inj.mp hp⟩

/-- **The unit that is found is the one behind the number**, although one unit ends in another. -/
theorem memoryUnit_append {num unit : String} {n mult : ℕ} (hunit : (unit, mult) ∈ memoryUnits)
    (hnum : Numeral (trim num) n) : memoryUnit (num ++ unit) = (num, mult) := by
  -- nothing is found in the number itself, and no letter of a unit is taken from it
  have hends : ∀ (c : Char) (t : String), isWhitespace c = false → c.isDigit = false →
      num ≠ t ++ String.singleton c := fun c t hspace hdigit => hnum.not_ends hspace hdigit
  have htwo : ∀ p q : String, p.toList.length = q.toList.length → p ≠ q →
      stripSuffix q (num ++ p) = none := fun p q hlen hne =>
    stripSuffix_eq_none fun t h => hne (ending_eq h hlen).2
  have hone : ∀ (c : Char) (q : String), isWhitespace c = false → c.isDigit = false →
      q = String.singleton c ++ "b" → stripSuffix q (num ++ "b") = none := by
    rintro c q hspace hdigit rfl
    refine stripSuffix_eq_none fun t h => hends c t hspace hdigit ?_
    rw [← String.append_assoc] at h
    exact (ending_eq h rfl).1
  have hnone : ∀ q t : String, q = t ++ "b" → stripSuffix q num = none := by
    rintro q t rfl
    refine stripSuffix_eq_none fun s h => hends 'b' (s ++ t) (by decide) (by decide) ?_
    rw [h, ← String.append_assoc]
    rfl
  simp only [memoryUnits, List.mem_cons, Prod.mk.injEq, List.not_mem_nil, or_false] at hunit
  rcases hunit with ⟨rfl, rfl⟩ | ⟨rfl, rfl⟩ | ⟨rfl, rfl⟩ | ⟨rfl, rfl⟩ | ⟨rfl, rfl⟩
  · rw [memoryUnit, stripSuffix_append]
    norm_num
  · rw [memoryUnit, htwo "mb" "gb" rfl (by decide), stripSuffix_append]
    norm_num
  · rw [memoryUnit, htwo "kb" "gb" rfl (by decide), htwo "kb" "mb" rfl (by decide),
      stripSuffix_append]
  · rw [memoryUnit, hone 'g' "gb" (by decide) (by decide) rfl,
      hone 'm' "mb" (by decide) (by decide) rfl, hone 'k' "kb" (by decide) (by decide) rfl,
      stripSuffix_append]
  · rw [String.append_empty, memoryUnit, hnone "gb" "g" rfl, hnone "mb" "m" rfl,
      hnone "kb" "k" rfl, hnone "b" "" rfl]

/-! ### What is read -/

section Read

variable {H : Host} {value : String}

theorem Written.unique {n n' mult mult' : ℕ} (h : Written H value n mult)
    (h' : Written H value n' mult') : n = n' ∧ mult = mult' := by
  obtain ⟨num, unit, hv, hunit, hnum⟩ := h
  obtain ⟨num', unit', hv', hunit', hnum'⟩ := h'
  have hsame := memoryUnit_append hunit hnum
  rw [← hv, hv', memoryUnit_append hunit' hnum'] at hsame
  obtain ⟨rfl, rfl⟩ := Prod.mk.inj hsame
  exact ⟨hnum.unique hnum', rfl⟩

/-- A number that fits is read, and multiplied modulo `2 ^ 64`. -/
theorem parseMemorySize_of_written {n mult : ℕ} (h : Written H value n mult) (hn : n < 2 ^ 64) :
    parseMemorySize H value = some (UInt64.ofNat n * UInt64.ofNat mult) := by
  obtain ⟨num, unit, hv, hunit, max, hmax⟩ := h
  have hfits : parseUnsigned (2 ^ 64 - 1) (trim num) = some n :=
    parseUnsigned_mono hmax (Nat.le_sub_one_of_lt hn)
  rw [parseMemorySize, hv, memoryUnit_append hunit ⟨max, hmax⟩]
  dsimp only
  rw [hfits, Option.map_some]

/-- What is read is written. -/
theorem written_of_parseMemorySize {r : UInt64} (h : parseMemorySize H value = some r) :
    ∃ n mult, Written H value n mult ∧ n < 2 ^ 64 ∧ r = UInt64.ofNat n * UInt64.ofNat mult := by
  rw [parseMemorySize] at h
  obtain ⟨n, hn, rfl⟩ := Option.map_eq_some_iff.mp h
  obtain ⟨unit, hv, hunit⟩ := memoryUnit_spec (H.toLowercase (trim value))
  have hle := parseUnsigned_le hn
  exact ⟨n, _, ⟨_, unit, hv, hunit, _, hn⟩, by omega, rfl⟩

theorem toNat_product (n mult : ℕ) :
    (UInt64.ofNat n * UInt64.ofNat mult).toNat = n * mult % 2 ^ 64 := by
  rw [UInt64.toNat_mul, UInt64.toNat_ofNat', UInt64.toNat_ofNat', ← Nat.mul_mod]

/-- **When memory sizes parse exactly**: unless the number fits and its product does not. -/
theorem parseMemorySize_exact_iff (H : Host) (value : String) :
    (parseMemorySize H value = none ∨ ∃ r n mult, parseMemorySize H value = some r ∧
        Written H value n mult ∧ r.toNat = n * mult) ↔
      ∀ n mult, Written H value n mult → n < 2 ^ 64 → n * mult < 2 ^ 64 := by
  constructor
  · intro hexact n mult hw hn
    have hread := parseMemorySize_of_written hw hn
    rcases hexact with hnone | ⟨r, n', mult', hr, hw', htotal⟩
    · rw [hread] at hnone
      cases hnone
    · obtain ⟨rfl, rfl⟩ := hw.unique hw'
      rw [← htotal]
      exact r.toNat_lt
  · intro hfits
    cases hr : parseMemorySize H value with
    | none => exact Or.inl rfl
    | some r =>
      obtain ⟨n, mult, hw, hn, rfl⟩ := written_of_parseMemorySize hr
      refine Or.inr ⟨_, n, mult, rfl, hw, ?_⟩
      rw [toNat_product, Nat.mod_eq_of_lt (hfits n mult hw hn)]

end Read

/-- A limit of `2 ^ 64` bytes is read as no limit. -/
theorem parseMemorySize_unlimited : ¬∀ (H : Host) (value : String),
    parseMemorySize H value = none ∨ ∃ r n mult, parseMemorySize H value = some r ∧
      Written H value n mult ∧ r.toNat = n * mult := by
  intro h
  have hread : parseMemorySize Host.plain "17179869184gb" = some 0 := by decide +kernel
  have hw : Written Host.plain "17179869184gb" 17179869184 (1024 ^ 3) :=
    ⟨"17179869184", "gb", by decide +kernel, by simp [memoryUnits], 2 ^ 64, by decide +kernel⟩
  rcases h Host.plain "17179869184gb" with hnone | ⟨r, n, mult, hr, hw', htotal⟩
  · rw [hread] at hnone
    cases hnone
  · obtain ⟨rfl, rfl⟩ := hw.unique hw'
    rw [hread] at hr
    obtain rfl := Option.some.inj hr
    exact absurd htotal (by decide)

end VeloDB
