import Mathlib.Data.List.Basic

/-!
# Moving the steps of a run past each other

A step relates the states before and after an event. Two events in a row can change places when
what they lead to, one after the other, they also lead to the other way round. From this, a run in
which some of the events form a block with others in between has a run with the same outcome in
which nothing is in between: the others before some moment go before the block, and those after it
go after the block.

## Main results

* `Steps.sorted` — the events of one kind go after the others
* `Steps.block` — nothing is left between the events of a block
* `Steps.foldl` — a run of a step function is one
-/

namespace Movers

variable {σ ε : Type}

/-- The states that a list of events leads to. -/
inductive Steps (step : ε → σ → σ → Prop) : σ → List ε → σ → Prop
  | nil (s : σ) : Steps step s [] s
  | cons {s t u : σ} {e : ε} {es : List ε} (he : step e s t) (hes : Steps step t es u) :
    Steps step s (e :: es) u

/-- One event and then the other lead nowhere else than the other way round. -/
def Swaps (step : ε → σ → σ → Prop) (a b : ε) : Prop :=
  ∀ s t u, step a s t → step b t u → ∃ v, step b s v ∧ step a v u

/-- The step of a function, up to a relation between states. -/
def UpTo (r : σ → σ → Prop) (next : σ → ε → σ) (e : ε) (s t : σ) : Prop :=
  ∃ s', r s s' ∧ r (next s' e) t

namespace Steps

variable {step : ε → σ → σ → Prop} {s t u : σ} {e : ε} {es fs : List ε}

theorem cons_iff : Steps step s (e :: es) t ↔ ∃ u, step e s u ∧ Steps step u es t := by
  constructor
  · rintro (_ | ⟨he, hes⟩)
    exact ⟨_, he, hes⟩
  · rintro ⟨u, he, hes⟩
    exact .cons he hes

theorem nil_iff : Steps step s [] t ↔ s = t := by
  constructor
  · rintro (_ | _)
    rfl
  · rintro rfl
    exact .nil s

theorem append_iff : Steps step s (es ++ fs) t ↔ ∃ u, Steps step s es u ∧ Steps step u fs t := by
  induction es generalizing s with
  | nil => simp [nil_iff]
  | cons e es ih =>
    rw [List.cons_append, cons_iff]
    constructor
    · rintro ⟨v, he, h⟩
      obtain ⟨u, hes, hfs⟩ := ih.mp h
      exact ⟨u, .cons he hes, hfs⟩
    · rintro ⟨u, h, hfs⟩
      obtain ⟨v, he, hes⟩ := cons_iff.mp h
      exact ⟨v, he, ih.mpr ⟨u, hes, hfs⟩⟩

/-- **What every step keeps.** -/
theorem invariant {I : σ → Prop} (h : Steps step s es t)
    (hstep : ∀ e ∈ es, ∀ s t, step e s t → I s → I t) (hs : I s) : I t := by
  induction h with
  | nil s => exact hs
  | cons he _ ih =>
    exact ih (fun f hf => hstep f (List.mem_cons_of_mem _ hf))
      (hstep _ List.mem_cons_self _ _ he hs)

/-- An event goes behind the events after it. -/
theorem delay (hswaps : ∀ f ∈ es, Swaps step e f) (h : Steps step s (e :: (es ++ fs)) t) :
    Steps step s (es ++ e :: fs) t := by
  induction es generalizing s with
  | nil => exact h
  | cons f es ih =>
    obtain ⟨u, he, hrest⟩ := cons_iff.mp h
    obtain ⟨v, hf, hrest⟩ := cons_iff.mp hrest
    obtain ⟨w, hf', he'⟩ := hswaps f List.mem_cons_self s u v he hf
    exact .cons hf' (ih (fun g hg => hswaps g (List.mem_cons_of_mem f hg)) (.cons he' hrest))

/-- **Sorting.** The events of one kind go behind the others when each of them can. -/
theorem sorted {p : ε → Prop} [DecidablePred p]
    (hswaps : es.Pairwise fun a b => p a → ¬p b → Swaps step a b) (h : Steps step s es t) :
    Steps step s (es.filter (fun e => ¬p e) ++ es.filter (fun e => p e)) t := by
  induction h with
  | nil s => exact .nil s
  | @cons s u t e es he hes ih =>
    obtain ⟨hfirst, hrest⟩ := List.pairwise_cons.mp hswaps
    have hsorted := ih hrest
    by_cases hp : p e
    · rw [List.filter_cons_of_neg (by simpa using hp), List.filter_cons_of_pos (by simpa using hp)]
      refine delay (fun f hf => ?_) (.cons he hsorted)
      obtain ⟨hmem, hnot⟩ := List.mem_filter.mp hf
      exact hfirst f hmem hp (of_decide_eq_true hnot)
    · rw [List.filter_cons_of_pos (by simpa using hp), List.filter_cons_of_neg (by simpa using hp)]
      exact .cons he hsorted

/-- **A block.** Before some moment the events of the block can go behind the others, and after it
the others can go behind the events of the block. -/
theorem block {p : ε → Prop} [DecidablePred p] {pre post : List ε}
    (hpre : pre.Pairwise fun a b => p a → ¬p b → Swaps step a b)
    (hpost : post.Pairwise fun a b => ¬p a → p b → Swaps step a b)
    (h : Steps step s (pre ++ post) t) :
    Steps step s (pre.filter (fun e => ¬p e) ++ (pre ++ post).filter (fun e => p e)
      ++ post.filter (fun e => ¬p e)) t := by
  obtain ⟨u, hbefore, hafter⟩ := append_iff.mp h
  have hpost' : post.Pairwise fun a b => ¬p a → ¬¬p b → Swaps step a b :=
    hpost.imp fun hab ha hb => hab ha (not_not.mp hb)
  have hlast := sorted hpost' hafter
  have hnn : post.filter (fun e => ¬¬p e) = post.filter (fun e => p e) :=
    List.filter_congr fun e _ => by simp
  rw [hnn] at hlast
  have hall := append_iff.mpr ⟨u, sorted hpre hbefore, hlast⟩
  rw [List.filter_append]
  rwa [List.append_assoc, ← List.append_assoc (pre.filter fun e => p e), ← List.append_assoc]
    at hall

/-- A run of a step function. -/
theorem foldl {r : σ → σ → Prop} (hr : ∀ s, r s s) (next : σ → ε → σ) (s : σ) (es : List ε) :
    Steps (UpTo r next) s es (es.foldl next s) := by
  induction es generalizing s with
  | nil => exact .nil s
  | cons e es ih => exact .cons ⟨s, hr s, hr _⟩ (ih _)

end Steps

end Movers
