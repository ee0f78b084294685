import VeloDB.Store.Keyspace
import VeloDB.Lib.Glob
import Mathlib.Logic.Relation

/-!
# `simple_match`

The matcher walks over the subject and the pattern with two positions. It remembers the last star
that it has passed and where the match behind it began, and goes back there when it gets stuck;
earlier stars are given up. `Tracks` is what holds at the head of the loop, `Accepts` is what the
loop still can find, and each turn keeps it (`step_spec`).

The comparison of two bytes comes before the look for a star. A star of the pattern that stands
before a star of the subject is therefore taken for that byte.

## Main results

* `simpleMatch_iff` — the matcher decides `Glob.MatchesLiterally`
* `loop_ends` — the loop ends
* `glob_exact_starfree`, `glob_exact_iff` — the matcher against `Glob.Matches`
-/

namespace VeloDB

open Rust

namespace GlobMatch

/-- A pattern, a subject: `*` and `?`. -/
abbrev Literally (p s : Bytes) : Prop := Glob.MatchesLiterally 42 63 p s

/-- The head of the loop: the positions in the subject and in the pattern, the position of the last
star, and where the match behind it began. -/
abbrev State := ℕ × ℕ × Option ℕ × ℕ

/-- One turn of the loop; `none` when it has ended. -/
def turn (s p : Bytes) (st : State) : Option State :=
  if st.1 < s.length then simpleMatchStep s p st else none

/-- The result of the function, when the loop has ended. -/
def result (s p : Bytes) (st : State) : Bool :=
  if st.1 < s.length then false else (p.drop st.2.1).all fun b => b == 42

/-- Behind the last star the pattern agrees with the subject, from where the match began. -/
structure Segment (s p : Bytes) (si pi idx matchIdx : ℕ) : Prop where
  began : matchIdx ≤ si
  agrees : ∃ u, p.drop (idx + 1) = u ++ p.drop pi ∧ u.length = si - matchIdx ∧
    Glob.Agrees 63 u (s.drop matchIdx)

/-- What holds at the head of the loop. -/
structure Tracks (s p : Bytes) (si pi : ℕ) (star : Option ℕ) (matchIdx : ℕ) : Prop where
  subject : si ≤ s.length
  pattern : pi ≤ p.length
  began : matchIdx ≤ si
  segment : ∀ idx ∈ star, idx < pi ∧ Segment s p si pi idx matchIdx

/-- What the loop can still find: a match of what is left, or a later one behind the last star. -/
def Accepts (s p : Bytes) (si pi : ℕ) (star : Option ℕ) (matchIdx : ℕ) : Prop :=
  Literally (p.drop pi) (s.drop si) ∨
    ∃ idx ∈ star, ∃ t, t <:+ s.drop (matchIdx + 1) ∧ Literally (p.drop (idx + 1)) t

/-- How much is left to do. -/
def rank (s p : Bytes) (pi matchIdx : ℕ) : ℕ :=
  (s.length - matchIdx) * (p.length + 2) + (p.length + 1 - pi)

section Lemmas

variable {s p : Bytes} {si pi matchIdx : ℕ} {star : Option ℕ}

theorem suffix_drop_iff {l t : Bytes} {n : ℕ} :
    t <:+ l.drop n ↔ t = l.drop n ∨ t <:+ l.drop (n + 1) := by
  rcases Nat.lt_or_ge n l.length with h | h
  · rw [List.drop_eq_getElem_cons h, List.suffix_cons_iff]
  · rw [List.drop_of_length_le h, List.drop_of_length_le (Nat.le_succ_of_le h), List.suffix_nil,
      or_self]

theorem agrees_concat {u a : Bytes} {c : UInt8} (hu : Glob.Agrees 63 u a) {d : UInt8} {t : Bytes}
    (ht : a.drop u.length = d :: t) (hcd : c = 63 ∨ c = d) : Glob.Agrees 63 (u ++ [c]) a := by
  induction u generalizing a with
  | nil => exact ⟨d, t, ht, hcd, trivial⟩
  | cons b u ih =>
    obtain ⟨d', a, rfl, hb, hrest⟩ := hu
    exact ⟨d', a, rfl, hb, ih hrest ht⟩

/-- A later match behind the last star is a match of what is left from here on. -/
theorem Segment.exists_suffix {idx : ℕ} (h : Segment s p si pi idx matchIdx) {t : Bytes}
    (ht : t <:+ s.drop (matchIdx + 1)) (hp : Literally (p.drop (idx + 1)) t) :
    ∃ t', t' <:+ s.drop si ∧ Literally (p.drop pi) t' := by
  obtain ⟨u, hsplit, hlength, hagrees⟩ := h.agrees
  rw [hsplit] at hp
  obtain ⟨t', ht', hp'⟩ := Glob.exists_suffix_of_append (by decide) hagrees
    (suffix_drop_iff.mpr (Or.inr ht)) hp
  have hsum : matchIdx + u.length = si := by
    have hbegan := h.began
    omega
  rw [List.drop_drop, hsum] at ht'
  exact ⟨t', ht', hp'⟩

/-- Two bytes agree. -/
theorem step_compare (h : Tracks s p si pi star matchIdx) (hsi : si < s.length) (hpi : pi < p.length)
    (hcd : p[pi] = 63 ∨ p[pi] = s[si]) :
    Tracks s p (si + 1) (pi + 1) star matchIdx ∧
      (Accepts s p si pi star matchIdx ↔ Accepts s p (si + 1) (pi + 1) star matchIdx) ∧
      rank s p (pi + 1) matchIdx < rank s p pi matchIdx := by
  refine ⟨⟨hsi, hpi, Nat.le_succ_of_le h.began, fun idx hidx => ?_⟩, ?_, ?_⟩
  · obtain ⟨hlt, hbegan, u, hsplit, hlength, hagrees⟩ := h.segment idx hidx
    refine ⟨Nat.lt_succ_of_lt hlt, Nat.le_succ_of_le hbegan, u ++ [p[pi]], ?_, ?_, ?_⟩
    · rw [hsplit, List.drop_eq_getElem_cons hpi, List.append_assoc, List.singleton_append]
    · rw [List.length_append, hlength, List.length_singleton]
      omega
    · refine agrees_concat hagrees (t := s.drop (si + 1)) ?_ hcd
      rw [List.drop_drop, hlength, Nat.add_sub_cancel' hbegan, List.drop_eq_getElem_cons hsi]
  · rw [Accepts, Accepts, List.drop_eq_getElem_cons hpi, List.drop_eq_getElem_cons hsi]
    exact or_congr_left (Glob.matchesLiterally_cons (by decide) hcd _ _)
  · rw [rank, rank]
    omega

/-- A star: what was possible before is possible behind it. -/
theorem step_star (h : Tracks s p si pi star matchIdx) (hsi : si < s.length) (hpi : pi < p.length)
    (hstar : p[pi] = 42) (hne : s[si] ≠ 42) :
    Tracks s p si (pi + 1) (some pi) si ∧
      (Accepts s p si pi star matchIdx ↔ Accepts s p si (pi + 1) (some pi) si) ∧
      rank s p (pi + 1) si < rank s p pi matchIdx := by
  have hhead : (s.drop si).head? ≠ some 42 := by
    rw [List.drop_eq_getElem_cons hsi, List.head?_cons]
    exact fun heq => hne (Option.some.inj heq)
  have hrest : Literally (p.drop pi) (s.drop si) ↔
      ∃ t, t <:+ s.drop si ∧ Literally (p.drop (pi + 1)) t := by
    rw [List.drop_eq_getElem_cons hpi, hstar]
    exact Glob.matchesLiterally_star hhead _
  refine ⟨⟨h.subject, hpi, le_rfl, fun idx hidx => ?_⟩, ?_, ?_⟩
  · obtain rfl := Option.mem_some_iff.mp hidx
    exact ⟨Nat.lt_succ_self _, le_rfl, [], rfl, (Nat.sub_self si).symm, trivial⟩
  · have hbehind : Accepts s p si (pi + 1) (some pi) si ↔
        ∃ t, t <:+ s.drop si ∧ Literally (p.drop (pi + 1)) t := by
      rw [Accepts]
      constructor
      · rintro (hnow | ⟨idx, hidx, t, ht, hp⟩)
        · exact ⟨_, List.suffix_rfl, hnow⟩
        · obtain rfl := Option.mem_some_iff.mp hidx
          exact ⟨t, suffix_drop_iff.mpr (Or.inr ht), hp⟩
      · rintro ⟨t, ht, hp⟩
        rcases suffix_drop_iff.mp ht with rfl | ht
        · exact Or.inl hp
        · exact Or.inr ⟨pi, rfl, t, ht, hp⟩
    rw [hbehind, Accepts, hrest]
    refine or_iff_left_of_imp ?_
    -- the match that an earlier star would find passes through this one
    rintro ⟨idx, hidx, t, ht, hp⟩
    obtain ⟨t', ht', hp'⟩ := (h.segment idx hidx).2.exists_suffix ht hp
    rw [List.drop_eq_getElem_cons hpi, hstar] at hp'
    by_cases hhead' : t'.head? = some 42
    · obtain ⟨t'', rfl⟩ := List.head?_eq_some_iff.mp hhead'
      exact ⟨t'', (List.suffix_cons _ _).trans ht', (Glob.matchesLiterally_star_self _ _).mp hp'⟩
    · obtain ⟨t'', ht'', hp''⟩ := (Glob.matchesLiterally_star hhead' _).mp hp'
      exact ⟨t'', ht''.trans ht', hp''⟩
  · rw [rank, rank]
    have hle : (s.length - si) * (p.length + 2) ≤ (s.length - matchIdx) * (p.length + 2) :=
      Nat.mul_le_mul_right _ (Nat.sub_le_sub_left h.began _)
    omega

/-- Where neither is possible, what is left does not match. -/
theorem not_literally (hsi : si < s.length)
    (hcompare : ∀ hpi : pi < p.length, ¬(p[pi] = 63 ∨ p[pi] = s[si]))
    (hstar : ∀ hpi : pi < p.length, p[pi] ≠ 42) : ¬Literally (p.drop pi) (s.drop si) := by
  rw [List.drop_eq_getElem_cons hsi]
  rcases Nat.lt_or_ge pi p.length with hpi | hpi
  · rw [List.drop_eq_getElem_cons hpi]
    exact fun h => hcompare hpi ((Glob.matchesLiterally_letter (hstar hpi) _ _ _).mp h).1
  · rw [List.drop_of_length_le hpi]
    exact List.cons_ne_nil _ _

/-- Back behind the last star. -/
theorem step_back {idx : ℕ} (h : Tracks s p si pi (some idx) matchIdx) (hsi : si < s.length)
    (hnot : ¬Literally (p.drop pi) (s.drop si)) :
    Tracks s p (matchIdx + 1) (idx + 1) (some idx) (matchIdx + 1) ∧
      (Accepts s p si pi (some idx) matchIdx ↔
        Accepts s p (matchIdx + 1) (idx + 1) (some idx) (matchIdx + 1)) ∧
      rank s p (idx + 1) (matchIdx + 1) < rank s p pi matchIdx := by
  obtain ⟨hlt, hsegment⟩ := h.segment idx rfl
  have hbegan := h.began
  have hpattern := h.pattern
  refine ⟨⟨by omega, by omega, le_rfl, fun idx' hidx => ?_⟩, ?_, ?_⟩
  · obtain rfl := Option.mem_some_iff.mp hidx
    exact ⟨Nat.lt_succ_self _, le_rfl, [], rfl, (Nat.sub_self _).symm, trivial⟩
  · rw [Accepts, or_iff_right hnot, Accepts]
    constructor
    · rintro ⟨idx', hidx, t, ht, hp⟩
      obtain rfl := Option.mem_some_iff.mp hidx
      rcases suffix_drop_iff.mp ht with rfl | ht
      · exact Or.inl hp
      · exact Or.inr ⟨idx, rfl, t, ht, hp⟩
    · rintro (hnow | ⟨idx', hidx, t, ht, hp⟩)
      · exact ⟨idx, rfl, _, List.suffix_rfl, hnow⟩
      · exact ⟨idx', hidx, t, suffix_drop_iff.mpr (Or.inr ht), hp⟩
  · rw [rank, rank]
    obtain ⟨m, hm⟩ : ∃ m, s.length - matchIdx = m + 1 := ⟨s.length - matchIdx - 1, by omega⟩
    have hm' : s.length - (matchIdx + 1) = m := by omega
    rw [hm, hm', Nat.succ_mul]
    omega

/-- The loop has ended. -/
theorem end_spec (h : Tracks s p si pi star matchIdx) (hsi : ¬si < s.length) :
    result s p (si, pi, star, matchIdx) = true ↔ Accepts s p si pi star matchIdx := by
  have hnil : s.drop si = [] := List.drop_of_length_le (Nat.le_of_not_lt hsi)
  have hleft : Accepts s p si pi star matchIdx ↔ Literally (p.drop pi) [] := by
    rw [Accepts, hnil]
    refine or_iff_left_of_imp ?_
    rintro ⟨idx, hidx, t, ht, hp⟩
    obtain ⟨t', ht', hp'⟩ := (h.segment idx hidx).2.exists_suffix ht hp
    rw [hnil, List.suffix_nil] at ht'
    rwa [ht'] at hp'
  rw [hleft, Literally, Glob.matchesLiterally_nil_iff, result, if_neg hsi, List.all_eq_true]
  exact forall₂_congr fun b _ => beq_iff_eq

/-- **Everything a turn can do.** -/
theorem step_spec (h : Tracks s p si pi star matchIdx) :
    turn s p (si, pi, star, matchIdx) = none ∧
      (result s p (si, pi, star, matchIdx) = true ↔ Accepts s p si pi star matchIdx) ∨
    ∃ si' pi' star' matchIdx', turn s p (si, pi, star, matchIdx) = some (si', pi', star', matchIdx') ∧
      Tracks s p si' pi' star' matchIdx' ∧
      (Accepts s p si pi star matchIdx ↔ Accepts s p si' pi' star' matchIdx') ∧
      rank s p pi' matchIdx' < rank s p pi matchIdx := by
  by_cases hsi : si < s.length
  · have hturn : turn s p (si, pi, star, matchIdx)
        = simpleMatchStep s p (si, pi, star, matchIdx) := if_pos hsi
    rw [hturn, simpleMatchStep.eq_def]
    dsimp only
    by_cases hcompare : pi < p.length ∧ (p[pi]? = some 63 ∨ p[pi]? = s[si]?)
    · obtain ⟨hpi, hcd⟩ := hcompare
      rw [List.getElem?_eq_getElem hpi, List.getElem?_eq_getElem hsi, Option.some.injEq,
        Option.some.injEq] at hcd
      refine Or.inr ⟨_, _, _, _, if_pos ⟨hpi, ?_⟩, step_compare h hsi hpi hcd⟩
      rwa [List.getElem?_eq_getElem hpi, List.getElem?_eq_getElem hsi, Option.some.injEq,
        Option.some.injEq]
    · have hdiffers : ∀ hpi : pi < p.length, ¬(p[pi] = 63 ∨ p[pi] = s[si]) := by
        intro hpi hcd
        refine hcompare ⟨hpi, ?_⟩
        rwa [List.getElem?_eq_getElem hpi, List.getElem?_eq_getElem hsi, Option.some.injEq,
          Option.some.injEq]
      rw [if_neg hcompare]
      by_cases hstar : pi < p.length ∧ p[pi]? = some 42
      · obtain ⟨hpi, hbyte⟩ := hstar
        rw [List.getElem?_eq_getElem hpi, Option.some.injEq] at hbyte
        rw [if_pos ⟨hpi, by rw [List.getElem?_eq_getElem hpi, hbyte]⟩]
        refine Or.inr ⟨_, _, _, _, rfl, step_star h hsi hpi hbyte fun hs => ?_⟩
        exact hdiffers hpi (Or.inr (hbyte.trans hs.symm))
      · have hletter : ∀ hpi : pi < p.length, p[pi] ≠ 42 := fun hpi hbyte =>
          hstar ⟨hpi, by rw [List.getElem?_eq_getElem hpi, hbyte]⟩
        have hnot := not_literally hsi hdiffers hletter
        rw [if_neg hstar]
        cases star with
        | none =>
          refine Or.inl ⟨rfl, iff_of_false ?_ ?_⟩
          · rw [result, if_pos hsi]
            exact Bool.false_ne_true
          · rintro (hnow | ⟨idx, hidx, -⟩)
            · exact hnot hnow
            · cases hidx
        | some idx => exact Or.inr ⟨_, _, _, _, rfl, step_back h hsi hnot⟩
  · exact Or.inl ⟨if_neg hsi, end_spec h hsi⟩

end Lemmas

/-! ### The loop -/

section Loop

variable {s p : Bytes}

theorem loop_of_turn {st st' : State} (h : turn s p st = some st') (fuel : ℕ) :
    simpleMatchLoop s p (fuel + 1) st = simpleMatchLoop s p fuel st' := by
  rw [turn] at h
  rw [simpleMatchLoop]
  split at h
  · next hlt => rw [if_pos hlt, h]
  · cases h

theorem loop_of_end {st : State} (h : turn s p st = none) (fuel : ℕ) :
    simpleMatchLoop s p (fuel + 1) st = result s p st := by
  rw [turn] at h
  rw [simpleMatchLoop, result]
  split at h
  · next hlt => rw [if_pos hlt, if_pos hlt, h]
  · next hge => rw [if_neg hge, if_neg hge]

/-- **The loop** finds what it can find. -/
theorem loop_iff (fuel : ℕ) {si pi : ℕ} {star : Option ℕ} {matchIdx : ℕ}
    (h : Tracks s p si pi star matchIdx) (hfuel : rank s p pi matchIdx < fuel) :
    simpleMatchLoop s p fuel (si, pi, star, matchIdx) = true ↔
      Accepts s p si pi star matchIdx := by
  induction fuel generalizing si pi star matchIdx with
  | zero => exact absurd hfuel (Nat.not_lt_zero _)
  | succ fuel ih =>
    rcases step_spec h with ⟨hend, hresult⟩ | ⟨si', pi', star', matchIdx', hturn, h', hsame, hless⟩
    · rw [loop_of_end hend, hresult]
    · rw [loop_of_turn hturn, hsame]
      exact ih h' (by omega)

/-- **The loop ends.** -/
theorem loop_ends {si pi : ℕ} {star : Option ℕ} {matchIdx : ℕ}
    (h : Tracks s p si pi star matchIdx) :
    ∃ st, Relation.ReflTransGen (fun a b => turn s p a = some b) (si, pi, star, matchIdx) st ∧
      turn s p st = none ∧ (result s p st = true ↔ Accepts s p si pi star matchIdx) := by
  induction hrank : rank s p pi matchIdx using Nat.strong_induction_on
    generalizing si pi star matchIdx with
  | _ n ih =>
    rcases step_spec h with ⟨hend, hresult⟩ | ⟨si', pi', star', matchIdx', hturn, h', hsame, hless⟩
    · exact ⟨_, .refl, hend, hresult⟩
    · obtain ⟨st, hreach, hend, hresult⟩ := ih _ (hrank ▸ hless) h' rfl
      exact ⟨st, .head hturn hreach, hend, hresult.trans hsame.symm⟩

theorem tracks_start : Tracks s p 0 0 none 0 where
  subject := Nat.zero_le _
  pattern := Nat.zero_le _
  began := le_rfl
  segment _ h := nomatch h

theorem accepts_start : Accepts s p 0 0 none 0 ↔ Literally p s := by
  rw [Accepts, List.drop_zero, List.drop_zero]
  refine or_iff_left ?_
  rintro ⟨idx, hidx, -⟩
  cases hidx

end Loop

/-- The start of the loop. -/
def start : State := (0, 0, none, 0)

/-- From the start of the loop to its end. -/
theorem start_ends (s p : Bytes) :
    ∃ st, Relation.ReflTransGen (fun a b => turn s p a = some b) start st ∧
      turn s p st = none ∧ (result s p st = true ↔ Literally p s) := by
  obtain ⟨st, hreach, hend, hresult⟩ := loop_ends (tracks_start (s := s) (p := p))
  exact ⟨st, hreach, hend, hresult.trans accepts_start⟩

/-- What the pattern `*` matches literally. -/
theorem literally_star_iff (s : Bytes) : Literally [42] s ↔ ¬∃ t, t ≠ [] ∧ s = 42 :: t := by
  by_cases hhead : s.head? = some 42
  · obtain ⟨t, rfl⟩ := List.head?_eq_some_iff.mp hhead
    rw [Literally, Glob.matchesLiterally_star_self, Glob.MatchesLiterally]
    constructor
    · rintro rfl ⟨t', hne, heq⟩
      exact hne (List.cons.inj heq).2.symm
    · intro h
      by_contra hne
      exact h ⟨t, hne, rfl⟩
  · rw [Literally, Glob.matchesLiterally_star hhead]
    refine iff_of_true ⟨[], List.nil_suffix, rfl⟩ ?_
    rintro ⟨t, -, rfl⟩
    exact hhead rfl

end GlobMatch

open GlobMatch

/-- **The matcher** decides whether the pattern matches literally. -/
theorem simpleMatch_iff (s p : String) :
    simpleMatch s p = true ↔ Literally (asBytes p) (asBytes s) := by
  rw [simpleMatch, ← accepts_start]
  refine loop_iff _ tracks_start ?_
  rw [rank, Nat.sub_zero, Nat.sub_zero, Nat.succ_mul]
  omega

/-- A text that begins with a star and goes on uses up the star of the pattern. -/
theorem simpleMatch_star (s : String) :
    simpleMatch s "*" = true ↔ ¬∃ t, t ≠ [] ∧ asBytes s = 42 :: t := by
  have hstar : asBytes "*" = [42] := rfl
  rw [simpleMatch_iff, hstar, literally_star_iff]

/-- **On a subject without the byte `*`** the loop ends, and the matcher is exact. -/
theorem glob_exact_starfree (s p : String) (hs : 42 ∉ asBytes s) :
    (∃ st, Relation.ReflTransGen (fun a b => turn (asBytes s) (asBytes p) a = some b) start st ∧
      turn (asBytes s) (asBytes p) st = none ∧
      simpleMatch s p = result (asBytes s) (asBytes p) st) ∧
    (simpleMatch s p = true ↔ Glob.Matches 42 63 (asBytes p) (asBytes s)) := by
  have hmatch := simpleMatch_iff s p
  obtain ⟨st, hreach, hend, hresult⟩ := start_ends (asBytes s) (asBytes p)
  refine ⟨⟨st, hreach, hend, ?_⟩, hmatch.trans (Glob.matchesLiterally_iff hs _)⟩
  exact Bool.eq_iff_iff.mpr (hmatch.trans hresult.symm)

/-- `a?c*` on `abcd`. -/
theorem glob_exact_starfree_letters :
    simpleMatch "abcd" "a?c*" = true ↔ Glob.Matches 42 63 (asBytes "a?c*") (asBytes "abcd") :=
  (glob_exact_starfree "abcd" "a?c*" (by decide +kernel)).2

/-- **On any subject** the matcher is exact if and only if a pattern that matches also matches with
every star that stands before a `*` of the subject taken for that byte. The pattern `*` matches all
subjects but those that begin with `*` and go on. -/
theorem glob_exact_iff (s p : String) :
    ((simpleMatch s p = true ↔ Glob.Matches 42 63 (asBytes p) (asBytes s)) ↔
      (Glob.Matches 42 63 (asBytes p) (asBytes s) →
        Glob.MatchesLiterally 42 63 (asBytes p) (asBytes s))) ∧
    (simpleMatch s "*" = true ↔ ¬∃ t, t ≠ [] ∧ asBytes s = 42 :: t) := by
  refine ⟨?_, simpleMatch_star s⟩
  rw [simpleMatch_iff]
  exact ⟨fun h => h.mpr, fun h => ⟨Glob.matches_of_literally, h⟩⟩

/-- **The pattern `*` does not match `*a`**: `KEYS *` does not list a key of that name. -/
theorem star_misses_starred :
    let dbs := (Store.new 1).databases.put 0 (asBytes "*a") { value := .string [118] }
    42 ∈ asBytes "*a" ∧ simpleMatch "*a" "*" = false ∧
      Glob.Matches 42 63 (asBytes "*") (asBytes "*a") ∧
      ¬(simpleMatch "*a" "*" = true ↔ Glob.Matches 42 63 (asBytes "*") (asBytes "*a")) ∧
      (dbs.liveEntry 0 0 (asBytes "*a")).isSome ∧ dbs.keys 0 0 "*" = .ok [] := by
  intro dbs
  have hfalse : simpleMatch "*a" "*" = false := by decide +kernel
  have hmatches : Glob.Matches 42 63 (asBytes "*") (asBytes "*a") := by
    have hstar : asBytes "*" = [42] := by decide +kernel
    rw [hstar, Glob.Matches, if_pos rfl]
    exact ⟨[], List.nil_suffix, rfl⟩
  refine ⟨by decide +kernel, hfalse, hmatches, fun h => ?_, by decide +kernel, by decide +kernel⟩
  exact Bool.false_ne_true (hfalse.symm.trans (h.mpr hmatches))

end VeloDB
