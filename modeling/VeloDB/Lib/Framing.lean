import Mathlib.Computability.Language
import VeloDB.Lib.Cursor

/-!
# What a reader needs to find

A reader that never looks at what it reads except to learn how much more there is succeeds on the
inputs that start with a word of a language and fails on all others in one way. `Frames eof c L`
says that `L` is this language for `c`. The languages of readers follow their programs: a sequence
is a product, a fixed number of turns is a power, and a count in front chooses the power.
-/

namespace Rust

namespace Cursor

variable {ε α β : Type} {eof : ε} {c : Cursor ε α} {L : Language UInt8}

/-- The words of `n` bytes. -/
def block (n : ℕ) : Language UInt8 := {x : Bytes | x.length = n}

/-- A word of `L`, and behind it a word of the language that this one asks for. -/
def followedBy (L : Language UInt8) (K : Bytes → Language UInt8) : Language UInt8 :=
  {z : Bytes | ∃ x ∈ L, ∃ y ∈ K x, x ++ y = z}

/-- A big-endian count of four bytes, and what it asks for. -/
def counted (K : ℕ → Language UInt8) : Language UInt8 :=
  followedBy (block 4) fun b => K (ofLeBytes b.reverse)

/-- `c` gets over every word of `L`, and runs out of input where no word of `L` stands. -/
structure Frames (eof : ε) (c : Cursor ε α) (L : Language UInt8) : Prop where
  reads : ∀ x ∈ L, ∃ v, Reads c x v
  runsOut : ∀ i : Bytes, (∀ x ∈ L, ¬x <+: i) → c i = .error eof

/-- What a reader does with any input. -/
theorem Frames.cases (h : Frames eof c L) (i : Bytes) :
    (∃ x ∈ L, ∃ v rest, i = x ++ rest ∧ Reads c x v) ∨ c i = .error eof := by
  by_cases hfound : ∃ x ∈ L, x <+: i
  · obtain ⟨x, hx, rest, rfl⟩ := hfound
    obtain ⟨v, hv⟩ := h.reads x hx
    exact Or.inl ⟨x, hx, v, rest, rfl, hv⟩
  · exact Or.inr (h.runsOut i fun x hx hpre => hfound ⟨x, hx, hpre⟩)

theorem frames_pure (v : α) : Frames eof (pure v : Cursor ε α) 1 where
  reads := by
    rintro x rfl
    exact ⟨v, reads_pure v⟩
  runsOut := fun i h => absurd List.nil_prefix (h [] Language.nil_mem_one)

theorem Frames.map (h : Frames eof c L) (f : α → β) :
    Frames eof (c >>= fun a => pure (f a)) L where
  reads := by
    intro x hx
    obtain ⟨v, hv⟩ := h.reads x hx
    exact ⟨f v, hv.map f⟩
  runsOut := by
    intro i hi
    show (c i >>= fun p => .ok (f p.1, p.2)) = _
    rw [h.runsOut i hi]
    rfl

theorem Frames.bind {K : Bytes → Language UInt8} {f : α → Cursor ε β} (h : Frames eof c L)
    (hf : ∀ x ∈ L, ∀ v, Reads c x v → Frames eof (f v) (K x)) :
    Frames eof (c >>= f) (followedBy L K) where
  reads := by
    rintro z ⟨x, hx, y, hy, rfl⟩
    obtain ⟨v, hv⟩ := h.reads x hx
    obtain ⟨w, hw⟩ := (hf x hx v hv).reads y hy
    exact ⟨w, hv.bind hw⟩
  runsOut := by
    intro i hi
    show (c i >>= fun p => f p.1 p.2) = _
    rcases h.cases i with ⟨x, hx, v, rest, rfl, hv⟩ | heof
    · rw [hv rest]
      refine (hf x hx v hv).runsOut rest fun y hy hpre => ?_
      exact hi (x ++ y) ⟨x, hx, y, hy, rfl⟩ ((List.prefix_append_right_inj x).mpr hpre)
    · rw [heof]
      rfl

/-- Where what follows does not depend on what was read. -/
theorem Frames.seq {K : Language UInt8} {f : α → Cursor ε β} (h : Frames eof c L)
    (hf : ∀ v, Frames eof (f v) K) : Frames eof (c >>= f) (L * K) :=
  h.bind (K := fun _ => K) fun _ _ v _ => hf v

theorem frames_takeN (n : ℕ) : Frames eof (takeN eof n) (block n) where
  reads := fun x hx => ⟨x, reads_takeN eof hx⟩
  runsOut := by
    intro i hi
    have hlt : i.length < n := by
      by_contra hle
      exact hi (i.take n) (List.length_take_of_le (Nat.le_of_not_lt hle)) (List.take_prefix n i)
    rw [takeN, if_pos hlt]

/-- **Loops.** -/
theorem frames_loopN {body : β → Cursor ε β} (h : ∀ b, Frames eof (body b) L) (n : ℕ) (b : β) :
    Frames eof (loopN n b body) (L ^ n) := by
  induction n generalizing b with
  | zero => exact frames_pure b
  | succ n ih =>
    rw [pow_succ']
    exact (h b).seq ih

end Cursor

end Rust
