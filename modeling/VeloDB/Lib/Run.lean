import Mathlib.Algebra.Group.Defs
import Mathlib.Logic.Basic

/-!
# Runs of a step function

A system is a partial step function `step : σ → ε → Option σ`; `none` means that the event cannot
happen in that state. A run is a list of events that all can. Invariants may speak about the events
so far, which is how a ghost history enters a statement without being part of the state.
-/

namespace Run

variable {σ ε : Type} (step : σ → ε → Option σ)

/-- The state after a list of events. -/
def run : σ → List ε → Option σ
  | s, [] => some s
  | s, e :: es => step s e >>= fun s' => run s' es

@[simp] theorem run_nil (s : σ) : run step s [] = some s := rfl

theorem run_cons (s : σ) (e : ε) (es : List ε) :
    run step s (e :: es) = step s e >>= fun s' => run step s' es := rfl

theorem run_append (s : σ) (es fs : List ε) :
    run step s (es ++ fs) = run step s es >>= fun s' => run step s' fs := by
  induction es generalizing s with
  | nil => rfl
  | cons e es ih =>
    rw [List.cons_append, run_cons, run_cons]
    cases step s e with
    | none => rfl
    | some s' => exact ih s'

variable {step}

/-- **Invariants along a run.** What every step carries from the events before it to the events
with it holds after the whole run. -/
theorem run_invariant {P : List ε → σ → Prop}
    (hstep : ∀ past s e s', P past s → step s e = some s' → P (past ++ [e]) s')
    (past : List ε) {es : List ε} {s s' : σ} (hs : P past s) (hrun : run step s es = some s') :
    P (past ++ es) s' := by
  induction es generalizing past s with
  | nil =>
    obtain rfl := Option.some.inj hrun
    rwa [List.append_nil]
  | cons e es ih =>
    obtain ⟨t, ht, hrest⟩ := Option.bind_eq_some_iff.mp hrun
    have h := ih _ (hstep past s e t hs ht) hrest
    rwa [List.append_assoc, List.singleton_append] at h

/-- **Runs that an invariant keeps going.** If every event can happen where the invariant holds, and
keeps it, then every list of events is a run and ends with it. -/
theorem run_total {P : List ε → σ → Prop}
    (hstep : ∀ past s e, P past s → ∃ s', step s e = some s' ∧ P (past ++ [e]) s')
    (past : List ε) (es : List ε) {s : σ} (hs : P past s) :
    ∃ s', run step s es = some s' ∧ P (past ++ es) s' := by
  induction es generalizing past s with
  | nil => exact ⟨s, rfl, by rwa [List.append_nil]⟩
  | cons e es ih =>
    obtain ⟨t, ht, hP⟩ := hstep past s e hs
    obtain ⟨s', hrun, hP'⟩ := ih _ hP
    refine ⟨s', by rw [run_cons, ht]; exact hrun, ?_⟩
    rwa [List.append_assoc, List.singleton_append] at hP'

/-! ### Runs that cannot get stuck -/

section Total

variable (next : σ → ε → σ) (P : σ → ε → Prop)

/-- Every event of the run is as `P` says in the state in which it happens. -/
def Along : σ → List ε → Prop
  | _, [] => True
  | s, e :: es => P s e ∧ Along (next s e) es

variable {next P}

instance decidableAlong [∀ s e, Decidable (P s e)] :
    (s : σ) → (es : List ε) → Decidable (Along next P s es)
  | _, [] => inferInstanceAs (Decidable True)
  | s, e :: es =>
    have := decidableAlong (next s e) es
    inferInstanceAs (Decidable (P s e ∧ Along next P (next s e) es))

/-- The events so far, collected one by one. -/
theorem foldl_snoc (past es : List ε) : es.foldl (fun past e => past ++ [e]) past = past ++ es := by
  induction es generalizing past with
  | nil => rw [List.foldl_nil, List.append_nil]
  | cons e es ih => rw [List.foldl_cons, ih, List.append_assoc, List.singleton_append]

theorem along_append {s : σ} {es fs : List ε} :
    Along next P s (es ++ fs) ↔ Along next P s es ∧ Along next P (es.foldl next s) fs := by
  induction es generalizing s with
  | nil => simp [Along]
  | cons e es ih => rw [List.cons_append, Along, Along, ih, List.foldl_cons, and_assoc]

theorem Along.mono {Q : σ → ε → Prop} (h : ∀ s e, P s e → Q s e) {s : σ} {es : List ε}
    (hes : Along next P s es) : Along next Q s es := by
  induction es generalizing s with
  | nil => trivial
  | cons e es ih => exact ⟨h s e hes.1, ih hes.2⟩

theorem Along.and {Q : σ → ε → Prop} {s : σ} {es : List ε} (hP : Along next P s es)
    (hQ : Along next Q s es) : Along next (fun s e => P s e ∧ Q s e) s es := by
  induction es generalizing s with
  | nil => trivial
  | cons e es ih => exact ⟨⟨hP.1, hQ.1⟩, ih hP.2 hQ.2⟩

theorem along_of_forall {Q : ε → Prop} {s : σ} {es : List ε} (h : ∀ e ∈ es, Q e) :
    Along next (fun _ e => Q e) s es := by
  induction es generalizing s with
  | nil => trivial
  | cons e es ih =>
    exact ⟨h e List.mem_cons_self, ih fun f hf => h f (List.mem_cons_of_mem _ hf)⟩

/-- Every event of a run is as `P` says exactly when none of them is not. -/
theorem along_iff_forall {s : σ} {es : List ε} : Along next P s es ↔
    ∀ pre e post, es = pre ++ e :: post → P (pre.foldl next s) e := by
  constructor
  · rintro h pre e post rfl
    exact (along_append.mp h).2.1
  · intro h
    induction es generalizing s with
    | nil => trivial
    | cons e es ih =>
      refine ⟨h [] e es rfl, ih fun pre f post heq => ?_⟩
      exact h (e :: pre) f post (by rw [heq, List.cons_append])

/-- **Invariants along such a run.** -/
theorem Along.invariant {I : σ → Prop} (hnext : ∀ s e, I s → P s e → I (next s e)) {s : σ}
    {es : List ε} (hes : Along next P s es) (hs : I s) : I (es.foldl next s) := by
  induction es generalizing s with
  | nil => exact hs
  | cons e es ih => exact ih hes.2 (hnext s e hs hes.1)

/-- One condition for another, where an invariant makes them agree. -/
theorem Along.iff {Q R : σ → ε → Prop} {I : σ → Prop}
    (hnext : ∀ s e, I s → P s e → I (next s e)) (h : ∀ s e, I s → P s e → (Q s e ↔ R s e)) {s : σ}
    {es : List ε} (hes : Along next P s es) (hs : I s) : Along next Q s es ↔ Along next R s es := by
  induction es generalizing s with
  | nil => exact Iff.rfl
  | cons e es ih => exact and_congr (h s e hs hes.1) (ih hes.2 (hnext s e hs hes.1))

/-- What the events of a run give, one after the other. -/
def gathered {α : Type} (next : σ → ε → σ) (gives : σ → ε → List α) : σ → List ε → List α
  | _, [] => []
  | s, e :: es => gives s e ++ gathered next gives (next s e) es

/-- **Two systems in step.** Where related states give the same for every event and stay related,
two runs over the same events give the same and end in related states. -/
theorem gathered_related {τ α : Type} {next' : τ → ε → τ} {gives : σ → ε → List α}
    {gives' : τ → ε → List α} {R : σ → τ → Prop}
    (hnext : ∀ s t e, R s t → gives s e = gives' t e ∧ R (next s e) (next' t e)) {s : σ} {t : τ}
    (hR : R s t) (es : List ε) : gathered next gives s es = gathered next' gives' t es ∧
      R (es.foldl next s) (es.foldl next' t) := by
  induction es generalizing s t with
  | nil => exact ⟨rfl, hR⟩
  | cons e es ih =>
    obtain ⟨hone, hR'⟩ := hnext s t e hR
    obtain ⟨hrest, hend⟩ := ih hR'
    exact ⟨by rw [gathered, gathered, hone, hrest], hend⟩

/-- **Conservation.** What was there and what has been put in is what has been taken out and what is
there, up to a relation that respects appending, if this is so of every event. -/
theorem Along.conserved {α : Type} {R : List α → List α → Prop} (hrefl : ∀ l, R l l)
    (htrans : ∀ {a b c}, R a b → R b c → R a c) (happend : ∀ {a b} c, R a b → R (a ++ c) (b ++ c))
    (hprepend : ∀ {a b} c, R a b → R (c ++ a) (c ++ b)) {I : σ → Prop} {value : σ → List α}
    {gives takes : σ → ε → List α} (hnext : ∀ s e, I s → P s e → I (next s e) ∧
      R (value s ++ gives s e) (takes s e ++ value (next s e))) {s : σ} {es : List ε}
    (hes : Along next P s es) (hs : I s) :
    R (value s ++ gathered next gives s es)
      (gathered next takes s es ++ value (es.foldl next s)) := by
  induction es generalizing s with
  | nil =>
    rw [gathered, gathered, List.append_nil]
    exact hrefl _
  | cons e es ih =>
    obtain ⟨hI, hone⟩ := hnext s e hs hes.1
    rw [gathered, gathered, ← List.append_assoc, List.append_assoc (takes s e)]
    refine htrans (happend _ hone) ?_
    rw [List.append_assoc]
    exact hprepend _ (ih hes.2 hI)

/-! ### What a run adds up to -/

section Gains

variable {M : Type} [AddMonoid M] {gain : σ → ε → M}

variable (next gain) in
/-- The sum of what the events of a run add. -/
def total : σ → List ε → M
  | _, [] => 0
  | s, e :: es => gain s e + total (next s e) es

/-- **A value is what it was plus what the events have added**, at every moment of a run, exactly
when no event loses anything. -/
theorem value_eq_add_total_iff (value : σ → M) {s : σ} {es : List ε} :
    (∀ pre post, es = pre ++ post → value (pre.foldl next s) = value s + total next gain s pre) ↔
      Along next (fun s e => value (next s e) = value s + gain s e) s es := by
  induction es generalizing s with
  | nil =>
    refine iff_of_true (fun pre post h => ?_) trivial
    rw [(List.append_eq_nil_iff.mp h.symm).1]
    exact (add_zero (value s)).symm
  | cons e es ih =>
    rw [Along, ← ih]
    constructor
    · intro h
      have hhead := h [e] es rfl
      rw [total, total, add_zero] at hhead
      refine ⟨hhead, fun pre post hpost => ?_⟩
      rw [show value (next s e) = _ from hhead, add_assoc]
      exact h (e :: pre) post (by rw [hpost, List.cons_append])
    · rintro ⟨hhead, htail⟩ pre post hpost
      rcases List.append_eq_cons_iff.mp hpost.symm with ⟨rfl, -⟩ | ⟨pre', rfl, hes⟩
      · exact (add_zero (value s)).symm
      · rw [List.foldl_cons, htail pre' post hes, hhead, total, add_assoc]

end Gains

end Total

/-! ### Switches -/

section Switches

variable {α : Type} {on off : α → Prop} {before : Prop}

/-- The last event that switches has switched on, or none has switched off what was on before. -/
def SwitchedOn (on off : α → Prop) (before : Prop) (events : List α) : Prop :=
  (∃ pre e post, events = pre ++ e :: post ∧ on e ∧ ∀ f ∈ post, ¬off f) ∨
    before ∧ ∀ e ∈ events, ¬off e

theorem switchedOn_append {events events' : List α} :
    SwitchedOn on off before (events ++ events')
      ↔ SwitchedOn on off (SwitchedOn on off before events) events' := by
  constructor
  · rintro (⟨pre, e, post, heq, hon, hoff⟩ | ⟨hbefore, hoff⟩)
    · rcases List.append_eq_append_iff.mp heq with ⟨mid, rfl, hevents'⟩ | ⟨mid, hevents, hpost⟩
      · exact Or.inl ⟨mid, e, post, hevents', hon, hoff⟩
      · cases mid with
        | nil => exact Or.inl ⟨[], e, post, hpost.symm, hon, hoff⟩
        | cons d mid =>
          obtain ⟨rfl, rfl⟩ := List.cons.inj hpost
          refine Or.inr ⟨Or.inl ⟨pre, e, mid, hevents, hon, fun f hf => ?_⟩, fun f hf => ?_⟩
          · exact hoff f (List.mem_append_left _ hf)
          · exact hoff f (List.mem_append_right _ hf)
    · exact Or.inr ⟨Or.inr ⟨hbefore, fun e he => hoff e (List.mem_append_left _ he)⟩,
        fun e he => hoff e (List.mem_append_right _ he)⟩
  · rintro (⟨pre, e, post, rfl, hon, hoff⟩ |
      ⟨⟨pre, e, post, rfl, hon, hoff⟩ | ⟨hbefore, hoff⟩, hoff'⟩)
    · exact Or.inl ⟨events ++ pre, e, post, (List.append_assoc _ _ _).symm, hon, hoff⟩
    · refine Or.inl ⟨pre, e, post ++ events', by simp, hon, fun f hf => ?_⟩
      exact (List.mem_append.mp hf).elim (hoff f) (hoff' f)
    · exact Or.inr ⟨hbefore, fun e he => (List.mem_append.mp he).elim (hoff e) (hoff' e)⟩

theorem switchedOn_nil : SwitchedOn on off before [] ↔ before := by
  simp [SwitchedOn]

theorem switchedOn_singleton {e : α} :
    SwitchedOn on off before [e] ↔ on e ∨ before ∧ ¬off e := by
  constructor
  · rintro (⟨pre, d, post, heq, hon, -⟩ | ⟨hbefore, hoff⟩)
    · have hd : d ∈ [e] := heq ▸ List.mem_append_right pre List.mem_cons_self
      exact Or.inl (List.mem_singleton.mp hd ▸ hon)
    · exact Or.inr ⟨hbefore, hoff e List.mem_cons_self⟩
  · rintro (hon | ⟨hbefore, hoff⟩)
    · exact Or.inl ⟨[], e, [], rfl, hon, List.forall_mem_nil _⟩
    · exact Or.inr ⟨hbefore, List.forall_mem_singleton.mpr hoff⟩

/-- **A switch along a run.** What some events turn on and others off is on after the run when it
has been turned on and not off since. -/
theorem Along.switched {next : σ → ε → σ} {P : σ → ε → Prop} {gives : σ → ε → List α}
    {Q : σ → Prop} (hnext : ∀ s e, P s e → (Q (next s e) ↔ SwitchedOn on off (Q s) (gives s e)))
    {s : σ} {es : List ε} (hes : Along next P s es) :
    Q (es.foldl next s) ↔ SwitchedOn on off (Q s) (gathered next gives s es) := by
  induction es generalizing s with
  | nil => exact switchedOn_nil.symm
  | cons e es ih =>
    rw [List.foldl_cons, ih hes.2, gathered, switchedOn_append, propext (hnext s e hes.1)]

end Switches

end Run
