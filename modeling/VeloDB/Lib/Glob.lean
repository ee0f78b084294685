import Mathlib.Data.List.Infix

/-!
# Glob patterns

A pattern over some alphabet has two wildcards, `star` for any sequence and `any` for any one
letter. `Matches` is what it means for a pattern to match a subject.

A matcher that compares letters before it looks for a wildcard takes a `star` of the pattern for an
ordinary letter where the subject has the very same letter. `MatchesLiterally` is the meaning of
patterns with this one exception. It is less than `Matches` (`matches_of_literally`) and the same
for subjects without that letter (`matchesLiterally_iff`).

What such a matcher relies on when it gives up an earlier star for a later one is
`exists_suffix_of_append`: whichever way the first part of a pattern is matched, the rest of it is
matched by an end of the subject that starts no earlier than where a letter by letter match of the
first part stops.
-/

namespace Glob

variable {α : Type} [DecidableEq α] (star any : α)

/-- The pattern matches the subject. -/
def Matches : List α → List α → Prop
  | [], s => s = []
  | c :: p, s =>
    if c = star then ∃ t, t <:+ s ∧ Matches p t
    else ∃ d t, s = d :: t ∧ (c = any ∨ c = d) ∧ Matches p t

/-- The pattern matches the subject when a star that stands before the letter `star` of the subject
is that letter and nothing else. -/
def MatchesLiterally : List α → List α → Prop
  | [], s => s = []
  | c :: p, s =>
    if c = star then
      if s.head? = some star then MatchesLiterally p s.tail else ∃ t, t <:+ s ∧ MatchesLiterally p t
    else ∃ d t, s = d :: t ∧ (c = any ∨ c = d) ∧ MatchesLiterally p t

/-- The pattern and the subject agree letter by letter, as far as the pattern goes. -/
def Agrees : List α → List α → Prop
  | [], _ => True
  | c :: p, s => ∃ d t, s = d :: t ∧ (c = any ∨ c = d) ∧ Agrees p t

variable {star any}

theorem matchesLiterally_star_self (p s : List α) :
    MatchesLiterally star any (star :: p) (star :: s) ↔ MatchesLiterally star any p s := by
  rw [MatchesLiterally, if_pos rfl, List.head?_cons, if_pos rfl, List.tail_cons]

theorem matchesLiterally_star {s : List α} (h : s.head? ≠ some star) (p : List α) :
    MatchesLiterally star any (star :: p) s ↔ ∃ t, t <:+ s ∧ MatchesLiterally star any p t := by
  rw [MatchesLiterally, if_pos rfl, if_neg h]

theorem matchesLiterally_letter {c : α} (hc : c ≠ star) (d : α) (p s : List α) :
    MatchesLiterally star any (c :: p) (d :: s) ↔
      (c = any ∨ c = d) ∧ MatchesLiterally star any p s := by
  rw [MatchesLiterally, if_neg hc]
  constructor
  · rintro ⟨d', t, heq, hcd, hp⟩
    obtain ⟨rfl, rfl⟩ := List.cons.inj heq
    exact ⟨hcd, hp⟩
  · rintro ⟨hcd, hp⟩
    exact ⟨d, s, rfl, hcd, hp⟩

/-- A letter by letter step. -/
theorem matchesLiterally_cons {c d : α} (hany : any ≠ star) (h : c = any ∨ c = d) (p s : List α) :
    MatchesLiterally star any (c :: p) (d :: s) ↔ MatchesLiterally star any p s := by
  by_cases hc : c = star
  · subst hc
    obtain rfl : c = d := h.resolve_left hany.symm
    exact matchesLiterally_star_self p s
  · rw [matchesLiterally_letter hc]
    exact and_iff_right h

/-- Only stars match what is empty. -/
theorem matchesLiterally_nil_iff (p : List α) :
    MatchesLiterally star any p [] ↔ ∀ c ∈ p, c = star := by
  induction p with
  | nil => exact iff_of_true rfl (List.forall_mem_nil _)
  | cons c p ih =>
    rw [List.forall_mem_cons]
    by_cases hc : c = star
    · subst hc
      rw [matchesLiterally_star (by simp), and_iff_right rfl, ← ih]
      constructor
      · rintro ⟨t, ht, hp⟩
        rwa [List.suffix_nil.mp ht] at hp
      · exact fun hp => ⟨[], List.suffix_rfl, hp⟩
    · rw [MatchesLiterally, if_neg hc]
      refine iff_of_false ?_ fun h => hc h.1
      rintro ⟨d, t, heq, -⟩
      cases heq

/-- What matches literally matches. -/
theorem matches_of_literally {p s : List α} (h : MatchesLiterally star any p s) :
    Matches star any p s := by
  induction p generalizing s with
  | nil => exact h
  | cons c p ih =>
    rw [MatchesLiterally] at h
    rw [Matches]
    by_cases hc : c = star
    · rw [if_pos hc] at h ⊢
      split at h
      · exact ⟨s.tail, List.tail_suffix s, ih h⟩
      · obtain ⟨t, ht, hp⟩ := h
        exact ⟨t, ht, ih hp⟩
    · rw [if_neg hc] at h ⊢
      obtain ⟨d, t, heq, hcd, hp⟩ := h
      exact ⟨d, t, heq, hcd, ih hp⟩

/-- For a subject without the letter `star` there is no difference. -/
theorem matchesLiterally_iff {s : List α} (hs : star ∉ s) (p : List α) :
    MatchesLiterally star any p s ↔ Matches star any p s := by
  induction p generalizing s with
  | nil => exact Iff.rfl
  | cons c p ih =>
    rw [Matches]
    by_cases hc : c = star
    · subst hc
      have hhead : s.head? ≠ some c := fun h => hs (List.mem_of_head? h)
      rw [matchesLiterally_star hhead, if_pos rfl]
      refine exists_congr fun t => and_congr_right fun ht => ih fun hmem => hs (ht.subset hmem)
    · rw [MatchesLiterally, if_neg hc, if_neg hc]
      refine exists_congr fun d => exists_congr fun t => and_congr_right fun heq =>
        and_congr_right fun _ => ih fun hmem => hs ?_
      rw [heq]
      exact List.mem_cons_of_mem d hmem

/-- **Changing to a later star.** `u` agrees with the beginning of `a`. However `u ++ q` matches an
end of `a`, the rest `q` matches an end of what is left of `a` behind `u`. -/
theorem exists_suffix_of_append (hany : any ≠ star) {u q a b : List α} (hu : Agrees any u a)
    (hb : b <:+ a) (h : MatchesLiterally star any (u ++ q) b) :
    ∃ t, t <:+ a.drop u.length ∧ MatchesLiterally star any q t := by
  induction u generalizing a b with
  | nil => exact ⟨b, hb, h⟩
  | cons c u ih =>
    obtain ⟨d, a, rfl, hcd, hrest⟩ := hu
    rw [List.cons_append] at h
    rw [List.length_cons, List.drop_succ_cons]
    rcases List.suffix_cons_iff.mp hb with rfl | hb
    · -- `u` is matched where it agrees
      rw [matchesLiterally_cons hany hcd] at h
      exact ih hrest List.suffix_rfl h
    · -- or it is matched later
      by_cases hc : c = star
      · subst hc
        by_cases hhead : b.head? = some c
        · obtain ⟨b, rfl⟩ := List.head?_eq_some_iff.mp hhead
          rw [matchesLiterally_star_self] at h
          exact ih hrest ((List.suffix_cons c b).trans hb) h
        · obtain ⟨t, ht, hp⟩ := (matchesLiterally_star hhead _).mp h
          exact ih hrest (ht.trans hb) hp
      · rw [MatchesLiterally, if_neg hc] at h
        obtain ⟨d', t, rfl, -, hp⟩ := h
        exact ih hrest ((List.suffix_cons d' t).trans hb) hp

end Glob
