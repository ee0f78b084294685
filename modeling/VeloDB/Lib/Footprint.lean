import Mathlib.Data.Set.Basic
import VeloDB.Lib.Proc

/-!
# Procedures with a footprint

A state is seen through its cells, and through a frame that everybody may look at and nobody
changes. A procedure is local to some cells when it leaves all others as they are, and does with its
own what they and the frame tell it to: from two states that it cannot tell apart it returns the
same and goes to two such states again.

Local procedures are closed under sequencing. What they are good for is `Local.interleaved`: when
every client works on cells of its own, each one gets the results that it would get alone.

## Main results

* `Local.bind`, `Local.mono` — the rules
* `Local.interleaved` — clients with cells of their own
-/

namespace Proc

/-- How a state is seen: a value in every cell, and a frame. -/
structure View (σ κ γ τ : Type) where
  cell : σ → κ → γ
  frame : σ → τ

variable {σ κ γ τ ε α β : Type}

/-- Two states with one frame that look the same on some cells. -/
structure View.Agree (v : View σ κ γ τ) (K : Set κ) (s s' : σ) : Prop where
  frame : v.frame s = v.frame s'
  cell : ∀ c ∈ K, v.cell s c = v.cell s' c

/-- The procedure works on the cells `K` only. -/
structure Local (v : View σ κ γ τ) (K : Set κ) (m : Proc σ ε α) : Prop where
  frame : ∀ s, v.frame (m s).2 = v.frame s
  outside : ∀ s c, c ∉ K → v.cell (m s).2 c = v.cell s c
  agrees : ∀ s s', v.Agree K s s' → (m s).1 = (m s').1 ∧
    ∀ c ∈ K, v.cell (m s).2 c = v.cell (m s').2 c

variable {v : View σ κ γ τ} {K K' : Set κ}

theorem View.Agree.refl (v : View σ κ γ τ) (K : Set κ) (s : σ) : v.Agree K s s :=
  ⟨rfl, fun _ _ => rfl⟩

theorem View.Agree.mono {s s' : σ} (h : v.Agree K' s s') (hK : K ⊆ K') : v.Agree K s s' :=
  ⟨h.frame, fun c hc => h.cell c (hK hc)⟩

namespace Local

/-- The states that a local procedure leaves still look the same. -/
theorem agree {m : Proc σ ε α} (h : Local v K m) {s s' : σ} (hs : v.Agree K s s') :
    v.Agree K (m s).2 (m s').2 := by
  refine ⟨?_, (h.agrees s s' hs).2⟩
  rw [h.frame, h.frame, hs.frame]

theorem mono {m : Proc σ ε α} (h : Local v K m) (hK : K ⊆ K') : Local v K' m := by
  refine ⟨h.frame, fun s c hc => h.outside s c fun hmem => hc (hK hmem), fun s s' hs => ?_⟩
  refine ⟨(h.agrees s s' (hs.mono hK)).1, fun c hc => ?_⟩
  by_cases hmem : c ∈ K
  · exact (h.agrees s s' (hs.mono hK)).2 c hmem
  · rw [h.outside s c hmem, h.outside s' c hmem, hs.cell c hc]

/-- A result that is read off the cells and the frame. -/
theorem reads {f : σ → Except ε α} (hf : ∀ s s', v.Agree K s s' → f s = f s') :
    Local v K fun s => (f s, s) :=
  ⟨fun _ => rfl, fun _ _ _ => rfl, fun s s' hs => ⟨hf s s' hs, hs.cell⟩⟩

/-- A procedure that is chosen by the frame. -/
theorem ofFrame {m : τ → Proc σ ε α} (hm : ∀ t, Local v K (m t)) :
    Local v K fun s => m (v.frame s) s := by
  refine ⟨fun s => (hm _).frame s, fun s c hc => (hm _).outside s c hc, fun s s' hs => ?_⟩
  show (m (v.frame s) s).1 = (m (v.frame s') s').1 ∧
    ∀ c ∈ K, v.cell (m (v.frame s) s).2 c = v.cell (m (v.frame s') s').2 c
  rw [← hs.frame]
  exact (hm _).agrees s s' hs

/-- The result is looked at once more. -/
theorem mapResult {m : Proc σ ε α} (hm : Local v K m) (g : Except ε α → Except ε β) :
    Local v K fun s => (g (m s).1, (m s).2) :=
  ⟨hm.frame, hm.outside, fun s s' hs =>
    ⟨congrArg g (hm.agrees s s' hs).1, (hm.agrees s s' hs).2⟩⟩

theorem ofExcept (x : Except ε α) : Local v K (Proc.ofExcept x) := reads fun _ _ _ => rfl

theorem pure (a : α) : Local v K (Pure.pure a : Proc σ ε α) := ofExcept (.ok a)

theorem fail (e : ε) : Local v K (Proc.fail e : Proc σ ε α) := ofExcept (.error e)

/-- **One procedure after another.** -/
theorem bind {m : Proc σ ε α} {f : α → Proc σ ε β} (hm : Local v K m)
    (hf : ∀ a, Local v K (f a)) : Local v K (m >>= f) := by
  have herror : ∀ {s e}, (m s).1 = .error e → (m >>= f) s = (.error e, (m s).2) :=
    fun h => bind_error (Prod.ext h rfl)
  have hok : ∀ {s a}, (m s).1 = .ok a → (m >>= f) s = f a (m s).2 :=
    fun h => bind_ok (Prod.ext h rfl)
  refine ⟨fun s => ?_, fun s c hc => ?_, fun s s' hs => ?_⟩
  · cases hms : (m s).1 with
    | error e =>
      rw [herror hms]
      exact hm.frame s
    | ok a =>
      rw [hok hms]
      exact ((hf a).frame _).trans (hm.frame s)
  · cases hms : (m s).1 with
    | error e =>
      rw [herror hms]
      exact hm.outside s c hc
    | ok a =>
      rw [hok hms]
      exact ((hf a).outside _ c hc).trans (hm.outside s c hc)
  · have hsame := (hm.agrees s s' hs).1
    have hnext := hm.agree hs
    cases hms : (m s).1 with
    | error e =>
      rw [herror hms, herror (hsame.symm.trans hms)]
      exact ⟨rfl, hnext.cell⟩
    | ok a =>
      rw [hok hms, hok (hsame.symm.trans hms)]
      exact (hf a).agrees _ _ hnext

theorem foldEach {l : List α} {f : β → α → Proc σ ε β} (hf : ∀ b, ∀ a ∈ l, Local v K (f b a))
    (b : β) : Local v K (Proc.foldEach l b f) := by
  induction l generalizing b with
  | nil => exact pure b
  | cons a l ih =>
    exact (hf b a List.mem_cons_self).bind fun b' =>
      ih (fun b a ha => hf b a (List.mem_cons_of_mem _ ha)) b'

theorem each {l : List α} {f : α → Proc σ ε Unit} (hf : ∀ a ∈ l, Local v K (f a)) :
    Local v K (Proc.each l f) := by
  induction l with
  | nil => exact pure ()
  | cons a l ih =>
    exact (hf a List.mem_cons_self).bind fun _ => ih fun a ha => hf a (List.mem_cons_of_mem _ ha)

/-! ### Clients with cells of their own -/

section Interleaved

variable {E ω : Type} [DecidableEq ω] (act : E → Proc σ ε α) (foot : E → Set κ) (client : E → ω)
  (owner : κ → ω)

/-- **Nobody notices the others.** When the cells of every event belong to its client, a client gets
in any interleaving the results that its own events give on their own, and finds its cells in the
end as these leave them. -/
theorem interleaved {es : List E} (hlocal : ∀ e ∈ es, Local v (foot e) (act e))
    (howned : ∀ e ∈ es, ∀ c ∈ foot e, owner c = client e) (o : ω) {s s' : σ}
    (hs : v.Agree {c | owner c = o} s s') :
    (Run.gathered (fun s e => (act e s).2) (fun s e => [(e, (act e s).1)]) s es).filter
        (fun r => client r.1 = o)
      = Run.gathered (fun s e => (act e s).2) (fun s e => [(e, (act e s).1)]) s'
          (es.filter fun e => client e = o) ∧
    v.Agree {c | owner c = o} (es.foldl (fun s e => (act e s).2) s)
      ((es.filter fun e => client e = o).foldl (fun s e => (act e s).2) s') := by
  induction es generalizing s s' with
  | nil => exact ⟨rfl, hs⟩
  | cons e es ih =>
    have hone := hlocal e List.mem_cons_self
    have hmine := howned e List.mem_cons_self
    have hrest : ∀ {t t' : σ}, v.Agree {c | owner c = o} t t' → _ := fun h =>
      ih (fun e he => hlocal e (List.mem_cons_of_mem _ he))
        (fun e he => howned e (List.mem_cons_of_mem _ he)) h
    by_cases hclient : client e = o
    · -- an event of the client: both runs take it
      have hsub : foot e ⊆ {c | owner c = o} := fun c hc => (hmine c hc).trans hclient
      have hresult := ((hone.mono hsub).agrees s s' hs).1
      obtain ⟨hgives, hend⟩ := hrest ((hone.mono hsub).agree hs)
      rw [List.filter_cons_of_pos (by simpa using hclient), Run.gathered, Run.gathered,
        List.singleton_append, List.singleton_append,
        List.filter_cons_of_pos (by simpa using hclient), hgives, hresult]
      exact ⟨rfl, hend⟩
    · -- an event of somebody else: only the first run takes it, and the cells stay
      have hstays : v.Agree {c | owner c = o} (act e s).2 s' := by
        refine ⟨(hone.frame s).trans hs.frame, fun c hc => ?_⟩
        have hnot : c ∉ foot e := fun hmem => hclient ((hmine c hmem).symm.trans hc)
        rw [hone.outside s c hnot, hs.cell c hc]
      obtain ⟨hgives, hend⟩ := hrest hstays
      rw [List.filter_cons_of_neg (by simpa using hclient), Run.gathered, List.singleton_append,
        List.filter_cons_of_neg (by simpa using hclient), hgives]
      exact ⟨rfl, hend⟩

end Interleaved

end Local

end Proc
