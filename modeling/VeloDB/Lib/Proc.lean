import Mathlib.Order.Defs.Unbundled
import VeloDB.Lib.Run

/-!
# Procedures whose effects survive a failure

A procedure reads and changes a state and may fail; unlike a transaction it does not roll back, so
the state at the moment of the failure is part of its result.

`Moves R m` says that every run of `m`, failed or not, takes the state along `R`. For a reflexive
and transitive `R` it is closed under sequencing, which is how frame conditions ("only these keys
changed") and monotonicity facts are proved of whole command bodies. `MovesIf` says it of the runs
with a given kind of result only, such as the failed ones. `Delivers P Q m` is about the results
themselves: a value in `Q` or a failure in `P`.
-/

/-- A procedure over state `σ` that may fail with `ε`. -/
def Proc (σ ε α : Type) := σ → Except ε α × σ

namespace Proc

variable {σ ε α β : Type}

/-- Run `f` on the result of `m`, unless `m` failed. -/
def andThen (m : Proc σ ε α) (f : α → Proc σ ε β) : Proc σ ε β := fun s =>
  match m s with
  | (.ok a, s') => f a s'
  | (.error e, s') => (.error e, s')

instance : Monad (Proc σ ε) where
  pure a := fun s => (.ok a, s)
  bind := andThen

/-- Fail. -/
def fail (e : ε) : Proc σ ε α := fun s => (.error e, s)

/-- The state. -/
def get : Proc σ ε σ := fun s => (.ok s, s)

/-- Change the state. -/
def modify (f : σ → σ) : Proc σ ε Unit := fun s => (.ok (), f s)

/-- A computation that does not touch the state. -/
def ofExcept (x : Except ε α) : Proc σ ε α := fun s => (x, s)

/-- One procedure for each element, from left to right. -/
def each : List α → (α → Proc σ ε Unit) → Proc σ ε Unit
  | [], _ => pure ()
  | a :: as, f => f a >>= fun _ => each as f

/-- Thread a value through one procedure for each element. -/
def foldEach : List α → β → (β → α → Proc σ ε β) → Proc σ ε β
  | [], b, _ => pure b
  | a :: as, b, f => f b a >>= fun b' => foldEach as b' f

@[simp] theorem pure_run (a : α) (s : σ) : (pure a : Proc σ ε α) s = (.ok a, s) := rfl

@[simp] theorem fail_run (e : ε) (s : σ) : (fail e : Proc σ ε α) s = (.error e, s) := rfl

@[simp] theorem get_run (s : σ) : (get : Proc σ ε σ) s = (.ok s, s) := rfl

@[simp] theorem modify_run (f : σ → σ) (s : σ) : (modify f : Proc σ ε Unit) s = (.ok (), f s) := rfl

@[simp] theorem ofExcept_run (x : Except ε α) (s : σ) : (ofExcept x : Proc σ ε α) s = (x, s) := rfl

theorem bind_ok {m : Proc σ ε α} {f : α → Proc σ ε β} {s s' : σ} {a : α} (h : m s = (.ok a, s')) :
    (m >>= f) s = f a s' := by
  show andThen m f s = _
  rw [andThen, h]

theorem bind_error {m : Proc σ ε α} {f : α → Proc σ ε β} {s s' : σ} {e : ε}
    (h : m s = (.error e, s')) : (m >>= f) s = (.error e, s') := by
  show andThen m f s = _
  rw [andThen, h]

@[simp] theorem pure_bind (a : α) (f : α → Proc σ ε β) : (pure a : Proc σ ε α) >>= f = f a := rfl

theorem bind_assoc {γ : Type} (m : Proc σ ε α) (f : α → Proc σ ε β) (g : β → Proc σ ε γ) :
    (m >>= f) >>= g = m >>= fun a => f a >>= g := by
  funext s
  rcases hm : m s with ⟨e | a, s'⟩
  · rw [bind_error hm, bind_error (bind_error hm)]
  · rw [bind_ok hm]
    show andThen (andThen m f) g s = andThen (f a) g s'
    rw [andThen, andThen, hm, andThen]

@[simp] theorem get_bind (f : σ → Proc σ ε β) (s : σ) :
    ((get : Proc σ ε σ) >>= f) s = f s s := rfl

@[simp] theorem modify_bind (g : σ → σ) (f : Unit → Proc σ ε β) (s : σ) :
    ((modify g : Proc σ ε Unit) >>= f) s = f () (g s) := rfl

@[simp] theorem fail_bind (e : ε) (f : α → Proc σ ε β) :
    (fail e : Proc σ ε α) >>= f = fail e := rfl

/-- Two procedures that do the same first. -/
theorem bind_congr_left {m m' : Proc σ ε α} {f : α → Proc σ ε β} {s : σ} (h : m s = m' s) :
    (m >>= f) s = (m' >>= f) s := by
  show andThen m f s = andThen m' f s
  rw [andThen, andThen, h]

/-- Two procedures that do the same after a computation that does not touch the state. -/
theorem ofExcept_bind_congr {x : Except ε α} {f g : α → Proc σ ε β} {s : σ}
    (h : ∀ a, x = .ok a → f a s = g a s) : (ofExcept x >>= f) s = (ofExcept x >>= g) s := by
  cases x with
  | error e => rfl
  | ok a => exact h a rfl

/-- A result that is only rewritten. -/
theorem bind_pure_snd (m : Proc σ ε α) (g : α → β) (s : σ) :
    ((m >>= fun a => pure (g a)) s).2 = (m s).2 := by
  rcases hm : m s with ⟨_ | a, s'⟩
  · rw [bind_error hm]
  · rw [bind_ok hm, pure_run]

/-- A loop that collects what its turns give. -/
theorem foldEach_collect (gives : σ → α → List β) (next : σ → α → σ)
    {f : List β → α → Proc σ ε (List β)}
    (hf : ∀ acc a s, f acc a s = (.ok (acc ++ gives s a), next s a)) (as : List α) (acc : List β)
    (s : σ) :
    foldEach as acc f s = (.ok (acc ++ Run.gathered next gives s as), as.foldl next s) := by
  induction as generalizing acc s with
  | nil =>
    rw [Run.gathered, List.append_nil]
    rfl
  | cons a as ih =>
    rw [foldEach, bind_ok (hf acc a s), ih, Run.gathered, List.append_assoc, List.foldl_cons]

/-! ### Where a procedure can take the state -/

/-- Every run takes the state along `R`. -/
def Moves (R : σ → σ → Prop) (m : Proc σ ε α) : Prop := ∀ s, R s (m s).2

variable {R : σ → σ → Prop}

theorem moves_pure [Std.Refl R] (a : α) : Moves R (pure a : Proc σ ε α) := fun s => refl_of R s

theorem moves_fail [Std.Refl R] (e : ε) : Moves R (fail e : Proc σ ε α) := fun s => refl_of R s

theorem moves_get [Std.Refl R] : Moves R (get : Proc σ ε σ) := fun s => refl_of R s

theorem moves_ofExcept [Std.Refl R] (x : Except ε α) : Moves R (ofExcept x : Proc σ ε α) :=
  fun s => refl_of R s

/-- **Sequencing.** -/
theorem Moves.bind [IsTrans σ R] {m : Proc σ ε α} {f : α → Proc σ ε β} (hm : Moves R m)
    (hf : ∀ a, Moves R (f a)) : Moves R (m >>= f) := by
  intro s
  have h := hm s
  rcases hr : m s with ⟨_ | a, s'⟩
  · rw [bind_error hr]
    rwa [hr] at h
  · rw [bind_ok hr]
    rw [hr] at h
    exact trans_of R h (hf a s')

/-- **Sequencing** with what leaves the state alone, for a relation that need not be transitive. -/
theorem Moves.eq_bind [Std.Refl R] {m : Proc σ ε α} {f : α → Proc σ ε β} (hm : Moves Eq m)
    (hf : ∀ a, Moves R (f a)) : Moves R (m >>= f) := by
  intro s
  have h := hm s
  rcases hr : m s with ⟨_ | a, s'⟩
  · rw [hr] at h
    obtain rfl : s = s' := h
    rw [bind_error hr]
    exact refl_of R s
  · rw [hr] at h
    obtain rfl : s = s' := h
    rw [bind_ok hr]
    exact hf a s

theorem Moves.bind_eq {m : Proc σ ε α} {f : α → Proc σ ε β} (hm : Moves R m)
    (hf : ∀ a, Moves Eq (f a)) : Moves R (m >>= f) := by
  intro s
  have h := hm s
  rcases hr : m s with ⟨_ | a, s'⟩
  · rw [bind_error hr]
    rwa [hr] at h
  · rw [bind_ok hr, ← hf a s']
    rwa [hr] at h

theorem moves_foldEach [Std.Refl R] [IsTrans σ R] {as : List α} {f : β → α → Proc σ ε β}
    (hf : ∀ b, ∀ a ∈ as, Moves R (f b a)) (b : β) : Moves R (foldEach as b f) := by
  induction as generalizing b with
  | nil => exact moves_pure b
  | cons a as ih =>
    exact (hf b a List.mem_cons_self).bind
      (ih fun b c hc => hf b c (List.mem_cons_of_mem _ hc))

theorem moves_each [Std.Refl R] [IsTrans σ R] {as : List α} {f : α → Proc σ ε Unit}
    (hf : ∀ a ∈ as, Moves R (f a)) : Moves R (each as f) := by
  induction as with
  | nil => exact moves_pure ()
  | cons a as ih =>
    exact (hf a List.mem_cons_self).bind fun _ => ih fun c hc => hf c (List.mem_cons_of_mem _ hc)

/-! ### Runs that end badly -/

/-- Every run with a `bad` result takes the state along `R`. -/
def MovesIf (R : σ → σ → Prop) (bad : Except ε α → Prop) (m : Proc σ ε α) : Prop :=
  ∀ s, bad (m s).1 → R s (m s).2

/-- The run failed. -/
def Failed (x : Except ε α) : Prop := ∃ e, x = .error e

theorem not_failed_ok (a : α) : ¬Failed (.ok a : Except ε α) := fun ⟨_, h⟩ => nomatch h

theorem Moves.movesIf {m : Proc σ ε α} (h : Moves R m) (bad : Except ε α → Prop) :
    MovesIf R bad m := fun s _ => h s

/-- A result that never comes. -/
theorem movesIf_of_never {bad : Except ε α → Prop} {m : Proc σ ε α} (h : ∀ s, ¬bad (m s).1) :
    MovesIf R bad m := fun s hs => absurd hs (h s)

/-- **First what only reads.** -/
theorem Moves.bind_movesIf [IsTrans σ R] {bad : Except ε β → Prop} {m : Proc σ ε α}
    {f : α → Proc σ ε β} (hm : Moves R m) (hf : ∀ a, MovesIf R bad (f a)) :
    MovesIf R bad (m >>= f) := by
  intro s
  have h := hm s
  rcases hr : m s with ⟨_ | a, s'⟩
  · rw [bind_error hr]
    rw [hr] at h
    exact fun _ => h
  · rw [bind_ok hr]
    rw [hr] at h
    exact fun hbad => trans_of R h (hf a s' hbad)

/-- **Last what cannot end badly.** -/
theorem MovesIf.bind {bad : Except ε α → Prop} {bad' : Except ε β → Prop} {m : Proc σ ε α}
    {f : α → Proc σ ε β} (hm : MovesIf R bad m) (he : ∀ e, bad' (.error e) → bad (.error e))
    (hf : ∀ a s, ¬bad' (f a s).1) : MovesIf R bad' (m >>= f) := by
  intro s
  have h := hm s
  rcases hr : m s with ⟨e | a, s'⟩
  · rw [bind_error hr]
    rw [hr] at h
    exact fun hbad => h (he e hbad)
  · rw [bind_ok hr]
    exact fun hbad => absurd hbad (hf a s')

theorem MovesIf.bind_failed {bad : Except ε β → Prop} {m : Proc σ ε α} {f : α → Proc σ ε β}
    (hm : MovesIf R Failed m) (hf : ∀ a s, ¬bad (f a s).1) : MovesIf R bad (m >>= f) :=
  hm.bind (fun e _ => ⟨e, rfl⟩) hf

/-- A loop whose steps all succeed as long as `P` holds, and do nothing otherwise. -/
theorem movesIf_foldEach [Std.Refl R] {P : σ → Prop} {as : List α} {f : β → α → Proc σ ε β}
    (hf : ∀ b a s, P s → ∃ b', (f b a s).1 = .ok b' ∧ P (f b a s).2)
    (hnot : ∀ b a s, ¬P s → Failed (f b a s).1 ∧ R s (f b a s).2) (b : β) :
    MovesIf R Failed (foldEach as b f) := by
  have hall : ∀ as b s, P s → ¬Failed (foldEach as b f s).1 := by
    intro as
    induction as with
    | nil => exact fun b _ _ => not_failed_ok b
    | cons a as ih =>
      intro b s hs
      obtain ⟨b', hb', hs'⟩ := hf b a s hs
      rw [foldEach, bind_ok (Prod.ext hb' rfl)]
      exact ih b' _ hs'
  intro s hbad
  by_cases hs : P s
  · exact absurd hbad (hall as b s hs)
  · cases as with
    | nil => exact refl_of R s
    | cons a as =>
      obtain ⟨⟨e, he⟩, hR⟩ := hnot b a s hs
      rw [foldEach, bind_error (Prod.ext he rfl)]
      exact hR

theorem each_eq_foldEach (as : List α) (f : α → Proc σ ε Unit) :
    each as f = foldEach as () fun _ a => f a := by
  induction as with
  | nil => rfl
  | cons a as ih => rw [each, foldEach, ih]

/-! ### What a run delivers -/

/-- A value in `Q`, or a failure in `P`. -/
def OkOr (P : ε → Prop) (Q : α → Prop) : Except ε α → Prop
  | .ok a => Q a
  | .error e => P e

/-- Every run ends with a value in `Q` or a failure in `P`. -/
def Delivers (P : ε → Prop) (Q : α → Prop) (m : Proc σ ε α) : Prop := ∀ s, OkOr P Q (m s).1

section Delivers

variable {P P' : ε → Prop} {Q : α → Prop} {Q' : β → Prop}

theorem OkOr.mono {R : α → Prop} {x : Except ε α} (hx : OkOr P Q x) (hP : ∀ e, P e → P' e)
    (hQ : ∀ a, Q a → R a) : OkOr P' R x := by
  cases x with
  | error e => exact hP e hx
  | ok a => exact hQ a hx

/-- **Sequencing.** -/
theorem OkOr.bind {x : Except ε α} {f : α → Except ε β} (hx : OkOr P Q x)
    (hf : ∀ a, Q a → OkOr P Q' (f a)) : OkOr P Q' (x >>= f) := by
  cases x with
  | error e => exact hx
  | ok a => exact hf a hx

/-- One value for each element of a list. -/
theorem okOr_mapM {γ : Type} {f : γ → Except ε α} (hf : ∀ c, OkOr P Q (f c)) (l : List γ) :
    OkOr P (fun as => ∀ a ∈ as, Q a) (l.mapM f) := by
  induction l with
  | nil => exact List.forall_mem_nil Q
  | cons c l ih =>
    rw [List.mapM_cons]
    exact (hf c).bind fun a ha => ih.bind fun as has => List.forall_mem_cons.mpr ⟨ha, has⟩

theorem Delivers.mono {m : Proc σ ε α} {R : α → Prop} (hm : Delivers P Q m) (hP : ∀ e, P e → P' e)
    (hQ : ∀ a, Q a → R a) : Delivers P' R m := fun s => (hm s).mono hP hQ

theorem delivers_pure {a : α} (h : Q a) : Delivers P Q (pure a : Proc σ ε α) := fun _ => h

theorem delivers_fail {e : ε} (h : P e) : Delivers P Q (fail e : Proc σ ε α) := fun _ => h

theorem delivers_get : Delivers P (fun _ => True) (get : Proc σ ε σ) := fun _ => trivial

theorem delivers_modify (f : σ → σ) : Delivers P (fun _ => True) (modify f : Proc σ ε Unit) :=
  fun _ => trivial

theorem delivers_ofExcept {x : Except ε α} (h : OkOr P Q x) :
    Delivers P Q (ofExcept x : Proc σ ε α) := fun _ => h

/-- **Sequencing.** -/
theorem Delivers.bind {m : Proc σ ε α} {f : α → Proc σ ε β} (hm : Delivers P Q m)
    (hf : ∀ a, Q a → Delivers P Q' (f a)) : Delivers P Q' (m >>= f) := by
  intro s
  have h := hm s
  rcases hr : m s with ⟨e | a, s'⟩
  · rw [hr] at h
    rw [bind_error hr]
    exact h
  · rw [hr] at h
    rw [bind_ok hr]
    exact hf a h s'

theorem delivers_foldEach {Q : β → Prop} {as : List α} {f : β → α → Proc σ ε β}
    (hf : ∀ b a, Q b → Delivers P Q (f b a)) {b : β} (hb : Q b) :
    Delivers P Q (foldEach as b f) := by
  induction as generalizing b with
  | nil => exact delivers_pure hb
  | cons a as ih => exact (hf b a hb).bind fun _ hb' => ih hb'

theorem delivers_each {as : List α} {f : α → Proc σ ε Unit}
    (hf : ∀ a, Delivers P (fun _ => True) (f a)) : Delivers P (fun _ => True) (each as f) := by
  induction as with
  | nil => exact delivers_pure trivial
  | cons a as ih => exact (hf a).bind fun _ _ => ih

end Delivers

end Proc
