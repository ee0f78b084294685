import VeloDB.Lib.Proc
import VeloDB.Lib.Run
import Mathlib.Data.Fintype.Defs
import Mathlib.Logic.Function.Basic

/-!
# Programs of several calls, and their interleavings

A procedure runs as a whole. A program of type `Calls` takes the state call by call, and between two
of its calls other programs take theirs. Every call is given an input, such as the time at which it
happens.

`Calls.alone` runs a program without interruption, which gives a procedure again. A `Pool` is a
state with the programs that work on it, and a run of it is any list of their calls, with changes of
the state by somebody else among them.

## Main results

* `Calls.alone_bind`, `Calls.alone_atomic` — what a program does when nothing comes in between
* `Pool.step_atomic_bind` — a call of a program that starts with a procedure
-/

/-- A program over a state `σ`. -/
inductive Calls (ι σ ε α : Type)
  | done (r : Except ε α)
  /-- Change the state, and go on with what the state was. -/
  | call (effect : ι → σ → σ) (next : ι → σ → Calls ι σ ε α)

namespace Calls

variable {ι σ ε α β : Type}

/-- Run `f` on the result of a program, unless it failed. -/
def andThen (f : α → Calls ι σ ε β) : Calls ι σ ε α → Calls ι σ ε β
  | .done (.ok a) => f a
  | .done (.error e) => .done (.error e)
  | .call effect next => .call effect fun x s => (next x s).andThen f

instance : Monad (Calls ι σ ε) where
  pure a := .done (.ok a)
  bind m f := m.andThen f

/-- A procedure as one call. -/
def atomic (m : ι → Proc σ ε α) : Calls ι σ ε α :=
  .call (fun x s => (m x s).2) fun x s => .done (m x s).1

/-- A computation that does not touch the state. -/
def ofExcept (r : Except ε α) : Calls ι σ ε α := .done r

/-- The result of a program that is done. -/
def result : Calls ι σ ε α → Option (Except ε α)
  | .done r => some r
  | .call _ _ => none

/-- One program for each element, from left to right. -/
def each {γ : Type} : List γ → (γ → Calls ι σ ε Unit) → Calls ι σ ε Unit
  | [], _ => pure ()
  | a :: as, f => f a >>= fun _ => each as f

/-- The program without interruption, every call with the same input. -/
def alone : Calls ι σ ε α → ι → Proc σ ε α
  | .done r, _ => Proc.ofExcept r
  | .call effect next, x => fun s => (next x s).alone x (effect x s)

@[simp] theorem result_done (r : Except ε α) : (done r : Calls ι σ ε α).result = some r := rfl

@[simp] theorem result_call (effect : ι → σ → σ) (next : ι → σ → Calls ι σ ε α) :
    (call effect next).result = none := rfl

@[simp] theorem alone_pure (a : α) (x : ι) : (pure a : Calls ι σ ε α).alone x = pure a := rfl

@[simp] theorem alone_ofExcept (r : Except ε α) (x : ι) :
    (ofExcept r : Calls ι σ ε α).alone x = Proc.ofExcept r := rfl

@[simp] theorem alone_atomic (m : ι → Proc σ ε α) (x : ι) : (atomic m).alone x = m x := rfl

/-- **Sequencing.** -/
@[simp] theorem alone_bind (m : Calls ι σ ε α) (f : α → Calls ι σ ε β) (x : ι) :
    (m >>= f).alone x = m.alone x >>= fun a => (f a).alone x := by
  induction m with
  | done r =>
    cases r with
    | ok a => rfl
    | error e => rfl
  | call effect next ih =>
    funext s
    exact congrFun (ih x s) (effect x s)

/-- Every call of the program, in any state with `I`, keeps `I` and is as `Q` says, of the state
before it, the state after it, and the result if it was the last call. Between two calls the state
may change, as long as `I` holds. -/
def Guarantees (I : σ → Prop) (Q : σ → σ → Option (Except ε α) → Prop) : Calls ι σ ε α → Prop
  | .done _ => True
  | .call effect next => ∀ x s, I s → I (effect x s) ∧ Q s (effect x s) (next x s).result ∧
    (next x s).Guarantees I Q

theorem ite_alone {p : Prop} [Decidable p] (a b : Calls ι σ ε α) (x : ι) :
    (if p then a else b).alone x = if p then a.alone x else b.alone x := by
  split <;> rfl

end Calls

/-- Programs over one state, and which of them have begun. -/
structure Pool (T ι σ ε α : Type) where
  state : σ
  program : T → Calls ι σ ε α
  begun : T → Bool := fun _ => false

/-- The next call of a program, or a change of the state by somebody else. -/
inductive PoolEvent (T ι σ : Type)
  | call (t : T) (x : ι)
  | other (s : σ)

namespace Pool

variable {T ι σ ε α β : Type}

/-- One call. A program that is done makes no more calls. -/
def step [DecidableEq T] (p : Pool T ι σ ε α) : PoolEvent T ι σ → Pool T ι σ ε α
  | .call t x =>
    match p.program t with
    | .done _ => p
    | .call effect next => {
        state := effect x p.state
        program := Function.update p.program t (next x p.state)
        begun := Function.update p.begun t true }
  | .other s => { p with state := s }

/-- The result of a program that is done. -/
def result (p : Pool T ι σ ε α) (t : T) : Option (Except ε α) := (p.program t).result

/-- The program is between two of its calls. -/
def Open (p : Pool T ι σ ε α) (t : T) : Prop := p.begun t = true ∧ p.result t = none

/-- A program begins when no other one is between two of its calls. -/
def Orderly (p : Pool T ι σ ε α) : PoolEvent T ι σ → Prop
  | .call t _ => p.begun t = false → ∀ u, u ≠ t → ¬p.Open u
  | .other _ => True

instance decidableOpen (p : Pool T ι σ ε α) (t : T) : Decidable (p.Open t) :=
  inferInstanceAs (Decidable (_ ∧ _))

instance decidableOrderly [Fintype T] [DecidableEq T] (p : Pool T ι σ ε α) :
    (e : PoolEvent T ι σ) → Decidable (p.Orderly e)
  | .call t _ => inferInstanceAs (Decidable (p.begun t = false → ∀ u, u ≠ t → ¬p.Open u))
  | .other _ => inferInstanceAs (Decidable True)

variable {p : Pool T ι σ ε α} {t u : T} {x : ι}

theorem result_of_done {r : Except ε α} (h : p.program t = .done r) : p.result t = some r := by
  rw [result, h, Calls.result]

theorem program_of_result {r : Except ε α} (h : p.result t = some r) : p.program t = .done r := by
  rw [result] at h
  cases hp : p.program t with
  | done r' =>
    rw [hp] at h
    obtain rfl := Option.some.inj h
    rfl
  | call effect next =>
    rw [hp] at h
    cases h

variable [DecidableEq T]

theorem step_done {r : Except ε α} (h : p.program t = .done r) : p.step (.call t x) = p := by
  rw [step, h]

theorem step_call {effect : ι → σ → σ} {next : ι → σ → Calls ι σ ε α}
    (h : p.program t = .call effect next) : p.step (.call t x) = {
      state := effect x p.state
      program := Function.update p.program t (next x p.state)
      begun := Function.update p.begun t true } := by
  rw [step, h]

theorem result_step_self {effect : ι → σ → σ} {next : ι → σ → Calls ι σ ε α}
    (h : p.program t = .call effect next) :
    (p.step (.call t x)).result t = (next x p.state).result := by
  rw [step_call h, result]
  dsimp only
  rw [Function.update_self]

/-- A call of a program that starts with a procedure. -/
theorem step_atomic_bind {m : ι → Proc σ ε β} {f : β → Calls ι σ ε α}
    (h : p.program t = Calls.atomic m >>= f) : p.step (.call t x) = {
      state := (m x p.state).2
      program := Function.update p.program t (Calls.ofExcept (m x p.state).1 >>= f)
      begun := Function.update p.begun t true } :=
  step_call h

/-- A step leaves the other programs where they are. -/
theorem program_step_of_ne (h : u ≠ t) : (p.step (.call t x)).program u = p.program u := by
  rw [step]
  split
  · rfl
  · exact Function.update_of_ne h _ _

theorem begun_step_of_ne (h : u ≠ t) : (p.step (.call t x)).begun u = p.begun u := by
  rw [step]
  split
  · rfl
  · exact Function.update_of_ne h _ _

theorem result_step_of_ne (h : u ≠ t) : (p.step (.call t x)).result u = p.result u := by
  rw [result, program_step_of_ne h, result]

theorem open_step_of_ne (h : u ≠ t) : (p.step (.call t x)).Open u ↔ p.Open u := by
  rw [Open, begun_step_of_ne h, result_step_of_ne h, Open]

/-- **A call of a program keeps its guarantee**, and leaves those of the other programs. -/
theorem step_guarantees {I : σ → Prop} {Q : T → σ → σ → Option (Except ε α) → Prop}
    (h : ∀ u, (p.program u).Guarantees I (Q u)) (hI : I p.state) (ht : p.result t = none) (x : ι) :
    I (p.step (.call t x)).state ∧
      Q t p.state (p.step (.call t x)).state ((p.step (.call t x)).result t) ∧
      ∀ u, ((p.step (.call t x)).program u).Guarantees I (Q u) := by
  cases hp : p.program t with
  | done r =>
    rw [result_of_done hp] at ht
    cases ht
  | call effect next =>
    have hcall := h t
    rw [hp] at hcall
    obtain ⟨hkeeps, hQ, hnext⟩ := hcall x p.state hI
    rw [result_step_self hp, step_call hp]
    refine ⟨hkeeps, hQ, fun u => ?_⟩
    dsimp only
    by_cases hut : u = t
    · subst hut
      rw [Function.update_self]
      exact hnext
    · rw [Function.update_of_ne hut]
      exact h u

end Pool
