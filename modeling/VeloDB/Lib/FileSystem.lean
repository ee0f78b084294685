import Mathlib.Data.Nat.Notation
import Mathlib.Logic.Function.Basic

/-!
# Files and their names

A name stands for a file, and a program that has opened a file keeps it under whatever name, or
under none: removing a name, or giving it to another file, does not touch the files. Names are over
any type `P`, and files are numbered in the order in which they are made.
-/

/-- Named files. -/
structure FileSystem (P : Type) where
  /-- The file that a name stands for. -/
  file : P → Option ℕ
  contents : ℕ → List UInt8
  next : ℕ
  file_lt : ∀ p n, file p = some n → n < next

namespace FileSystem

variable {P : Type} {fs : FileSystem P} {p q : P} {n m : ℕ} {data : List UInt8}

/-- The contents of the file with a name. -/
def read (fs : FileSystem P) (p : P) : Option (List UInt8) := (fs.file p).map fs.contents

/-- Append to an open file. -/
def append (fs : FileSystem P) (n : ℕ) (data : List UInt8) : FileSystem P :=
  { fs with contents := Function.update fs.contents n (fs.contents n ++ data) }

theorem read_eq (h : fs.file p = some n) : fs.read p = some (fs.contents n) := by
  rw [read, h, Option.map_some]

@[simp] theorem file_append (fs : FileSystem P) (n : ℕ) (data : List UInt8) :
    (fs.append n data).file = fs.file := rfl

theorem contents_append_self (fs : FileSystem P) (n : ℕ) (data : List UInt8) :
    (fs.append n data).contents n = fs.contents n ++ data := Function.update_self ..

theorem contents_append_of_ne (h : m ≠ n) : (fs.append n data).contents m = fs.contents m :=
  Function.update_of_ne h ..

/-- **Appends reach a name** exactly as long as it stands for the file. -/
theorem read_append_iff {c : List UInt8} (hc : fs.read p = some c) (n : ℕ) :
    (∀ data, (fs.append n data).read p = some (c ++ data)) ↔ fs.file p = some n := by
  obtain ⟨m, hm, rfl⟩ := Option.map_eq_some_iff.mp hc
  constructor
  · intro h
    by_contra hne
    have hmn : m ≠ n := fun heq => hne (hm.trans (congrArg some heq))
    have hfile : (fs.append n [0]).file p = some m := hm
    have hone := h [0]
    rw [read_eq hfile, contents_append_of_ne hmn] at hone
    simp at hone
  · intro h data
    obtain rfl := Option.some.inj (hm.symm.trans h)
    have hfile : (fs.append m data).file p = some m := hm
    rw [read_eq hfile, contents_append_self]

variable [DecidableEq P]

/-- Let a name stand for a file, or for none. -/
def bind (fs : FileSystem P) (p : P) (o : Option ℕ) (h : ∀ n, o = some n → n < fs.next) :
    FileSystem P :=
  { fs with
    file := Function.update fs.file p o
    file_lt := by
      intro q n hn
      by_cases hq : q = p
      · subst hq
        rw [Function.update_self] at hn
        exact h n hn
      · rw [Function.update_of_ne hq] at hn
        exact fs.file_lt q n hn }

/-- `remove_file`. -/
def remove (fs : FileSystem P) (p : P) : FileSystem P :=
  fs.bind p none fun _ h => absurd h (Option.some_ne_none _).symm

/-- `rename`. The name that the file gets may have stood for another file. -/
def rename (fs : FileSystem P) (p q : P) : FileSystem P :=
  (fs.bind q (fs.file p) fun n h => fs.file_lt p n h).remove p

/-- A new file. -/
def add (fs : FileSystem P) (p : P) : FileSystem P where
  file := Function.update fs.file p (some fs.next)
  contents := Function.update fs.contents fs.next []
  next := fs.next + 1
  file_lt := by
    intro q n hn
    by_cases hq : q = p
    · subst hq
      rw [Function.update_self] at hn
      exact Option.some.inj hn ▸ Nat.lt_succ_self _
    · rw [Function.update_of_ne hq] at hn
      exact Nat.lt_succ_of_lt (fs.file_lt q n hn)

/-- `OpenOptions::create(true).append(true).open`. -/
def openAppend (fs : FileSystem P) (p : P) : FileSystem P × ℕ :=
  match fs.file p with
  | some n => (fs, n)
  | none => (fs.add p, fs.next)

/-- `File::create`: a file that is there is emptied. -/
def create (fs : FileSystem P) (p : P) : FileSystem P × ℕ :=
  match fs.file p with
  | some n => ({ fs with contents := Function.update fs.contents n [] }, n)
  | none => (fs.add p, fs.next)

@[simp] theorem contents_remove (fs : FileSystem P) (p : P) :
    (fs.remove p).contents = fs.contents := rfl

@[simp] theorem contents_rename (fs : FileSystem P) (p q : P) :
    (fs.rename p q).contents = fs.contents := rfl

theorem file_remove_self (fs : FileSystem P) (p : P) : (fs.remove p).file p = none :=
  Function.update_self ..

theorem file_remove_of_ne (h : q ≠ p) : (fs.remove p).file q = fs.file q :=
  Function.update_of_ne h ..

theorem file_rename_new (h : q ≠ p) : (fs.rename p q).file q = fs.file p := by
  rw [rename, file_remove_of_ne h]
  exact Function.update_self ..

theorem file_add_self (fs : FileSystem P) (p : P) : (fs.add p).file p = some fs.next :=
  Function.update_self ..

theorem file_add_of_ne (h : q ≠ p) : (fs.add p).file q = fs.file q := Function.update_of_ne h ..

theorem openAppend_of_file (h : fs.file p = some n) : fs.openAppend p = (fs, n) := by
  rw [openAppend, h]

/-- What making a file leaves alone, and what it makes. -/
theorem create_spec (fs : FileSystem P) (p : P) :
    (∀ q, q ≠ p → (fs.create p).1.file q = fs.file q) ∧
      (fs.create p).1.file p = some (fs.create p).2 ∧
      (fs.create p).1.contents (fs.create p).2 = [] ∧
      ∀ q m, fs.file q = some m → fs.file p ≠ some m →
        m ≠ (fs.create p).2 ∧ (fs.create p).1.contents m = fs.contents m := by
  rw [create]
  cases hp : fs.file p with
  | some n =>
    refine ⟨fun q _ => rfl, hp, Function.update_self .., fun q m _ hne => ?_⟩
    have hmn : m ≠ n := fun h => hne (congrArg some h.symm)
    exact ⟨hmn, Function.update_of_ne hmn ..⟩
  | none =>
    refine ⟨fun q hq => file_add_of_ne hq, file_add_self fs p, Function.update_self ..,
      fun q m hm _ => ?_⟩
    have hlt := fs.file_lt q m hm
    exact ⟨Nat.ne_of_lt hlt, Function.update_of_ne (Nat.ne_of_lt hlt) ..⟩

/-! ### Files with one name -/

/-- No file has two names. -/
def Unlinked (fs : FileSystem P) : Prop := ∀ p q n, fs.file p = some n → fs.file q = some n → p = q

omit [DecidableEq P] in
theorem Unlinked.append (h : fs.Unlinked) (n : ℕ) (data : List UInt8) :
    (fs.append n data).Unlinked := h

/-- A new file gets one name. -/
theorem Unlinked.create (h : fs.Unlinked) (p : P) : (fs.create p).1.Unlinked := by
  rw [FileSystem.create]
  cases hp : fs.file p with
  | some n => exact h
  | none =>
    have hnew : ∀ q r n, q ≠ r → (fs.add p).file q = some n → (fs.add p).file r ≠ some n := by
      intro q r n hqr hq hr
      by_cases hqp : q = p
      · subst hqp
        obtain rfl := Option.some.inj ((file_add_self fs q).symm.trans hq)
        rw [file_add_of_ne hqr.symm] at hr
        exact Nat.lt_irrefl _ (fs.file_lt r _ hr)
      · rw [file_add_of_ne hqp] at hq
        by_cases hrp : r = p
        · subst hrp
          obtain rfl := Option.some.inj ((file_add_self fs r).symm.trans hr)
          exact Nat.lt_irrefl _ (fs.file_lt q _ hq)
        · rw [file_add_of_ne hrp] at hr
          exact hqr (h q r n hq hr)
    exact fun q r n hq hr => by_contra fun hqr => hnew q r n hqr hq hr

theorem file_rename_of_ne {r : P} (hp : r ≠ p) (hq : r ≠ q) :
    (fs.rename p q).file r = fs.file r := by
  rw [rename, file_remove_of_ne hp]
  exact Function.update_of_ne hq ..

theorem file_rename_old (fs : FileSystem P) (p q : P) : (fs.rename p q).file p = none :=
  file_remove_self _ p

/-- The old name is gone. -/
theorem Unlinked.rename (h : fs.Unlinked) (hpq : q ≠ p) : (fs.rename p q).Unlinked := by
  -- what a name stands for afterwards, a name stood for before
  have hold : ∀ r n, (fs.rename p q).file r = some n →
      r ≠ p ∧ fs.file (if r = q then p else r) = some n := by
    intro r n hr
    have hrp : r ≠ p := by
      rintro rfl
      cases (file_rename_old fs r q).symm.trans hr
    refine ⟨hrp, ?_⟩
    split
    · next hrq => rwa [hrq, file_rename_new hpq] at hr
    · next hrq => rwa [file_rename_of_ne hrp hrq] at hr
  intro r r' n hr hr'
  obtain ⟨hrp, hr⟩ := hold r n hr
  obtain ⟨hrp', hr'⟩ := hold r' n hr'
  have hsame := h _ _ n hr hr'
  by_cases h1 : r = q <;> by_cases h2 : r' = q
  · rw [h1, h2]
  · rw [if_pos h1, if_neg h2] at hsame
    exact absurd hsame.symm hrp'
  · rw [if_neg h1, if_pos h2] at hsame
    exact absurd hsame hrp
  · rwa [if_neg h1, if_neg h2] at hsame

end FileSystem
