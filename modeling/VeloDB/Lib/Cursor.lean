import VeloDB.Lib.Text

/-!
# Reading a byte buffer from front to back

A cursor reads from the bytes that are left and either fails or hands on what is left after it.
`Reads c enc v` says that `c` reads the value `v` off any input that starts with `enc` and stops
right behind it; it is closed under sequencing and under loops, so a round trip is proved by
following the decoder.
-/

namespace Rust

/-- A reader over a byte buffer. -/
abbrev Cursor (ε α : Type) := StateT Bytes (Except ε) α

namespace Cursor

variable {ε α β γ : Type}

/-- The next `n` bytes; `eof` when there are not that many. -/
def takeN (eof : ε) (n : ℕ) : Cursor ε Bytes := fun i =>
  if i.length < n then .error eof else .ok (i.take n, i.drop n)

/-- Run a body a fixed number of times. -/
def loopN : ℕ → β → (β → Cursor ε β) → Cursor ε β
  | 0, b, _ => pure b
  | n + 1, b, body => body b >>= fun b' => loopN n b' body

/-- `c` reads `v` off the encoding `enc`, whatever follows it. -/
def Reads (c : Cursor ε α) (enc : Bytes) (v : α) : Prop :=
  ∀ rest, c (enc ++ rest) = .ok (v, rest)

theorem reads_pure (v : α) : Reads (pure v : Cursor ε α) [] v := fun _ => rfl

theorem Reads.bind {c : Cursor ε α} {f : α → Cursor ε β} {e e' : Bytes} {v : α} {v' : β}
    (hc : Reads c e v) (hf : Reads (f v) e' v') : Reads (c >>= f) (e ++ e') v' := by
  intro rest
  show (c (e ++ e' ++ rest) >>= fun p => f p.1 p.2) = _
  rw [List.append_assoc, hc (e' ++ rest)]
  exact hf rest

/-- The last step of a sequence, which only builds the result. -/
theorem Reads.map {c : Cursor ε α} {e : Bytes} {v : α} (hc : Reads c e v) (f : α → β) :
    Reads (c >>= fun a => pure (f a)) e (f v) := by
  intro rest
  show (c (e ++ rest) >>= fun p => .ok (f p.1, p.2)) = _
  rw [hc rest]
  rfl

theorem reads_takeN (eof : ε) {n : ℕ} {b : Bytes} (h : b.length = n) :
    Reads (takeN eof n) b b := by
  intro rest
  subst h
  rw [takeN, if_neg (by simp), List.take_left, List.drop_left]

/-- **Loops.** When each turn reads the encoding of one item, the loop reads all of them. -/
theorem reads_loopN {body : β → Cursor ε β} {enc : γ → Bytes} {next : β → γ → β} {xs : List γ}
    (h : ∀ b, ∀ x ∈ xs, Reads (body b) (enc x) (next b x)) (b : β) :
    Reads (loopN xs.length b body) (xs.flatMap enc) (xs.foldl next b) := by
  induction xs generalizing b with
  | nil => exact reads_pure b
  | cons x xs ih =>
    rw [List.length_cons, List.flatMap_cons, List.foldl_cons]
    exact (h b x List.mem_cons_self).bind (ih (fun b y hy => h b y (List.mem_cons_of_mem _ hy)) _)

end Cursor

/-! ### Fixed-width integers -/

/-- The `k` low bytes of a number, least significant first. -/
def leBytes : ℕ → ℕ → Bytes
  | 0, _ => []
  | k + 1, n => UInt8.ofNat (n % 256) :: leBytes k (n / 256)

/-- The number with these bytes, least significant first. -/
def ofLeBytes : Bytes → ℕ
  | [] => 0
  | b :: bs => b.toNat + 256 * ofLeBytes bs

theorem length_leBytes (k n : ℕ) : (leBytes k n).length = k := by
  induction k generalizing n with
  | zero => rfl
  | succ k ih => rw [leBytes, List.length_cons, ih]

theorem ofLeBytes_leBytes {k n : ℕ} (h : n < 256 ^ k) : ofLeBytes (leBytes k n) = n := by
  induction k generalizing n with
  | zero =>
    rw [pow_zero] at h
    rw [leBytes, ofLeBytes]
    omega
  | succ k ih =>
    have hdiv : n / 256 < 256 ^ k := by
      rw [pow_succ] at h
      exact Nat.div_lt_of_lt_mul (by rwa [Nat.mul_comm] at h)
    have hb : (UInt8.ofNat (n % 256)).toNat = n % 256 := by
      rw [UInt8.toNat_ofNat']
      exact Nat.mod_eq_of_lt (Nat.mod_lt _ (by norm_num))
    rw [leBytes, ofLeBytes, ih hdiv, hb, Nat.mod_add_div]

/-- `to_be_bytes`: the same bytes in the other order. -/
def beBytes (k n : ℕ) : Bytes := (leBytes k n).reverse

theorem length_beBytes (k n : ℕ) : (beBytes k n).length = k := by
  rw [beBytes, List.length_reverse, length_leBytes]

theorem ofLeBytes_reverse_beBytes {k n : ℕ} (h : n < 256 ^ k) :
    ofLeBytes (beBytes k n).reverse = n := by
  rw [beBytes, List.reverse_reverse, ofLeBytes_leBytes h]

end Rust
