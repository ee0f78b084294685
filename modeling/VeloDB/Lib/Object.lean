import VeloDB.Lib.Run

/-!
# Sequential objects

An object is what its clients can see of something: in a state, which answers an operation may give,
and which state it may leave behind. Several answers may be allowed, and a client can rely on none
of them in particular.

A system implements an object when its histories, operations with their answers, are histories of
the object. Objects are independent of each other: to say of every one of many objects that it is
implemented is to say it of the events on it, whatever happens in between.
-/

/-- The answers that are allowed, with the states they leave. -/
def Object (σ ω ρ : Type) := σ → ω → ρ → σ → Prop

namespace Object

variable {σ ω ρ τ ε : Type} (O : Object σ ω ρ)

/-- Operations with their answers, one after the other. -/
inductive History : σ → List (ω × ρ) → σ → Prop
  | nil (s : σ) : History s [] s
  | cons {s t u : σ} {o : ω} {r : ρ} {h : List (ω × ρ)} (hone : O s o r t) (hrest : History t h u) :
    History s ((o, r) :: h) u

variable {O}

/-- **A run implements the object** when each of its events either answers an operation as the
object allows, or answers none and leaves the object alone. -/
theorem history_of_run {next : τ → ε → τ} {seen : τ → ε → List (ω × ρ)} (I : τ → Prop)
    (state : τ → σ) {es : List ε} (hstep : ∀ t, ∀ e ∈ es, I t → I (next t e) ∧
      (seen t e = [] ∧ state (next t e) = state t ∨
        ∃ o r, seen t e = [(o, r)] ∧ O (state t) o r (state (next t e)))) {t : τ} (ht : I t) :
    O.History (state t) (Run.gathered next seen t es) (state (es.foldl next t)) := by
  induction es generalizing t with
  | nil => exact .nil _
  | cons e es ih =>
    obtain ⟨hnext, hone⟩ := hstep t e List.mem_cons_self ht
    have hrest := ih (fun t f hf => hstep t f (List.mem_cons_of_mem _ hf)) hnext
    rw [Run.gathered, List.foldl_cons]
    rcases hone with ⟨hnone, hsame⟩ | ⟨o, r, hseen, hallowed⟩
    · rwa [hnone, List.nil_append, ← hsame]
    · rw [hseen, List.singleton_append]
      exact .cons hallowed hrest

end Object
