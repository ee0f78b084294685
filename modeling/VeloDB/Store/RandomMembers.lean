import VeloDB.Store.Sets
import VeloDB.Store.IndexRanges
import Mathlib.Data.Nat.Prime.Basic
import Mathlib.Data.Int.ModEq
import Mathlib.Tactic.NormNum.Prime

/-!
# `SRANDMEMBER`

The members that are drawn are `31` positions apart, counted around the set. A turn of the loop that
comes to a position it has used draws nothing, and as the position depends on how many members have
been drawn, so does every turn after it. The positions repeat after all members when the size of the
set is no multiple of `31`, and after a `31`st of them when it is (`distinct_iff`).

## Main results

* `drawDistinct_iff` — the loop ends if and only if the positions are distinct
* `srandmember_draws` — the method
-/

namespace VeloDB

open Rust

/-- The position of the `j`th draw. -/
def drawIndex (size nano j : ℕ) : ℕ := (nano + j * 31) % size

/-- The members that the first `n` draws give. -/
def draws (members : List Bytes) (nano n : ℕ) : List Bytes :=
  (List.range n).map fun j => members[drawIndex members.length nano j]?.getD []

/-- The positions of the first `n` draws, the last one first. -/
def drawn (size nano n : ℕ) : List ℕ := ((List.range n).map (drawIndex size nano)).reverse

/-- The first `n` positions differ. -/
def DistinctDraws (size nano n : ℕ) : Prop :=
  ∀ j < n, drawIndex size nano j ∉ drawn size nano j

/-- One turn of the loop: `used.insert(idx)`, and `result.push` if the position is new. -/
def drawTurn (members : List Bytes) (nano : ℕ) (s : List ℕ × List Bytes) : List ℕ × List Bytes :=
  let idx := (nano + s.2.length * 31) % members.length
  if idx ∈ s.1 then s else (idx :: s.1, s.2 ++ [members[idx]?.getD []])

/-! ### The loop -/

section Loop

variable {members : List Bytes} {nano : ℕ}

theorem length_draws (n : ℕ) : (draws members nano n).length = n := by
  rw [draws, List.length_map, List.length_range]

theorem draws_succ (n : ℕ) : draws members nano (n + 1)
    = draws members nano n ++ [members[drawIndex members.length nano n]?.getD []] := by
  rw [draws, List.range_succ, List.map_append, draws]
  rfl

theorem drawn_succ (size n : ℕ) :
    drawn size nano (n + 1) = drawIndex size nano n :: drawn size nano n := by
  rw [drawn, List.range_succ, List.map_append, List.reverse_append, drawn]
  rfl

theorem mem_drawn {size n p : ℕ} : p ∈ drawn size nano n ↔ ∃ j < n, drawIndex size nano j = p := by
  rw [drawn, List.mem_reverse, List.mem_map]
  simp only [List.mem_range]

/-- A turn after `j` draws. -/
theorem drawTurn_eq (j : ℕ) :
    drawTurn members nano (drawn members.length nano j, draws members nano j)
      = if drawIndex members.length nano j ∈ drawn members.length nano j then
          (drawn members.length nano j, draws members nano j)
        else (drawn members.length nano (j + 1), draws members nano (j + 1)) := by
  rw [drawTurn, length_draws, drawn_succ, draws_succ]
  rfl

/-- As long as the positions differ, each turn draws. -/
theorem drawTurn_iterate {n : ℕ} (h : DistinctDraws members.length nano n) :
    (drawTurn members nano)^[n] ([], []) = (drawn members.length nano n, draws members nano n) := by
  induction n with
  | zero => rfl
  | succ n ih =>
    rw [Function.iterate_succ_apply', ih fun j hj => h j (by omega), drawTurn_eq,
      if_neg (h n (by omega))]

/-- A repeated position stops it for good. -/
theorem drawTurn_stuck {n : ℕ} (h : ¬DistinctDraws members.length nano n) (t : ℕ) :
    ((drawTurn members nano)^[t] ([], [])).2.length < n := by
  have hsome : ∃ j, j < n ∧ drawIndex members.length nano j ∈ drawn members.length nano j := by
    simpa [DistinctDraws] using h
  -- the first repeated position
  obtain ⟨hlt, hrepeat⟩ := Nat.find_spec hsome
  have hfirst : ∀ j < Nat.find hsome,
      drawIndex members.length nano j ∉ drawn members.length nano j :=
    fun j hj hmem => Nat.find_min hsome hj ⟨by omega, hmem⟩
  rcases Nat.lt_or_ge t (Nat.find hsome) with ht | ht
  · rw [drawTurn_iterate fun j hj => hfirst j (by omega), length_draws]
    omega
  · obtain ⟨m, rfl⟩ := Nat.exists_eq_add_of_le ht
    have hfixed : drawTurn members nano
        (drawn members.length nano (Nat.find hsome), draws members nano (Nat.find hsome))
        = (drawn members.length nano (Nat.find hsome), draws members nano (Nat.find hsome)) := by
      rw [drawTurn_eq, if_pos hrepeat]
    rw [Nat.add_comm, Function.iterate_add_apply, drawTurn_iterate hfirst,
      Function.iterate_fixed hfixed, length_draws]
    exact hlt

/-- **The loop** ends if and only if the positions differ. -/
theorem drawTurn_ends_iff (n : ℕ) :
    (∃ t, n ≤ ((drawTurn members nano)^[t] ([], [])).2.length) ↔
      DistinctDraws members.length nano n := by
  constructor
  · rintro ⟨t, ht⟩
    by_contra hnot
    exact absurd (drawTurn_stuck hnot t) (by omega)
  · intro h
    refine ⟨n, ?_⟩
    rw [drawTurn_iterate h, length_draws]

/-- What the rest of the loop does after `j` draws. -/
theorem drawDistinct_from (hne : members ≠ []) (fuel j : ℕ)
    (hbefore : DistinctDraws members.length nano j) :
    Databases.drawDistinct members nano fuel (drawn members.length nano j) (draws members nano j)
        = .ok (draws members nano (j + fuel)) ∧ DistinctDraws members.length nano (j + fuel) ∨
      Databases.drawDistinct members nano fuel (drawn members.length nano j) (draws members nano j)
        = .error .hang ∧ ¬DistinctDraws members.length nano (j + fuel) := by
  induction fuel generalizing j with
  | zero => exact Or.inl ⟨rfl, hbefore⟩
  | succ fuel ih =>
    have hindex : drawIndex members.length nano j < members.length :=
      Nat.mod_lt _ (List.length_pos_iff.mpr hne)
    have hsum : j + (fuel + 1) = j + 1 + fuel := by omega
    rw [Databases.drawDistinct, length_draws, ← drawIndex, hsum]
    by_cases hmem : drawIndex members.length nano j ∈ drawn members.length nano j
    · refine Or.inr ⟨if_pos hmem, fun h => ?_⟩
      exact h j (by omega) hmem
    · have hnext := ih (j + 1) fun i hi => by
        rcases Nat.lt_succ_iff_lt_or_eq.mp hi with hlt | rfl
        · exact hbefore i hlt
        · exact hmem
      rw [if_neg hmem, List.getElem?_eq_getElem hindex]
      rw [drawn_succ, draws_succ, List.getElem?_eq_getElem hindex, Option.getD_some] at hnext
      exact hnext

/-- **The loop as one function** gives the members if and only if the positions differ. -/
theorem drawDistinct_iff (hne : members ≠ []) (nano n : ℕ) :
    Databases.drawDistinct members nano n [] [] = .ok (draws members nano n) ∧
        DistinctDraws members.length nano n ∨
      Databases.drawDistinct members nano n [] [] = .error .hang ∧
        ¬DistinctDraws members.length nano n := by
  have hnone : DistinctDraws members.length nano 0 := fun j hj => absurd hj (Nat.not_lt_zero j)
  have h := drawDistinct_from hne n 0 hnone
  rwa [Nat.zero_add] at h

end Loop

/-! ### The positions -/

section Positions

variable {size nano n : ℕ}

theorem drawIndex_eq_iff {i j : ℕ} (h : i ≤ j) :
    drawIndex size nano i = drawIndex size nano j ↔ size ∣ (j - i) * 31 := by
  have hmod : drawIndex size nano i = drawIndex size nano j ↔ i * 31 ≡ j * 31 [MOD size] :=
    ⟨fun heq => Nat.ModEq.add_left_cancel' nano heq, fun heq => Nat.ModEq.add_left nano heq⟩
  rw [hmod, Nat.modEq_iff_dvd' (Nat.mul_le_mul_right 31 h), Nat.sub_mul]

/-- The positions differ when no two draws are a multiple of the size apart. -/
theorem distinct_iff_not_dvd :
    DistinctDraws size nano n ↔ ∀ d, 0 < d → d < n → ¬size ∣ d * 31 := by
  constructor
  · intro h d hpos hlt hdvd
    refine h d hlt (mem_drawn.mpr ⟨0, hpos, ?_⟩)
    rwa [drawIndex_eq_iff (Nat.zero_le d), Nat.sub_zero]
  · intro h j hj hmem
    obtain ⟨i, hi, heq⟩ := mem_drawn.mp hmem
    exact h (j - i) (by omega) (by omega) ((drawIndex_eq_iff (Nat.le_of_lt hi)).mp heq)

/-- **The positions** of the first `n` draws, not more than there are members, differ if and only if
the size is no multiple of `31`, or `n` is at most a `31`st of it. -/
theorem distinct_iff (hpos : 0 < size) (hn : n ≤ size) :
    DistinctDraws size nano n ↔ ¬31 ∣ size ∨ n ≤ size / 31 := by
  have hprime : Nat.Prime 31 := by norm_num
  rw [distinct_iff_not_dvd]
  by_cases hdvd : 31 ∣ size
  · obtain ⟨q, rfl⟩ := hdvd
    rw [Nat.mul_div_cancel_left q (by norm_num)]
    constructor
    · intro h
      refine Or.inr ?_
      by_contra hlt
      exact h q (by omega) (by omega) ⟨1, by ring⟩
    · rintro (h | hle) d hd hlt hd31
      · exact h ⟨q, rfl⟩
      · rw [Nat.mul_comm] at hd31
        have hle' := Nat.le_of_dvd hd (Nat.dvd_of_mul_dvd_mul_right (by norm_num) hd31)
        omega
  · refine iff_of_true (fun d hd hlt hd31 => ?_) (Or.inl hdvd)
    have hcoprime : Nat.Coprime size 31 := (hprime.coprime_iff_not_dvd.mpr hdvd).symm
    have hle := Nat.le_of_dvd hd (hcoprime.dvd_of_dvd_mul_right hd31)
    omega

end Positions

/-! ### The members -/

section Members

variable {members : List Bytes} {nano n : ℕ}

theorem mem_of_mem_draws (hne : members ≠ []) {m : Bytes} (h : m ∈ draws members nano n) :
    m ∈ members := by
  obtain ⟨j, -, rfl⟩ := List.mem_map.mp h
  have hindex : drawIndex members.length nano j < members.length :=
    Nat.mod_lt _ (List.length_pos_iff.mpr hne)
  rw [List.getElem?_eq_getElem hindex]
  exact List.getElem_mem hindex

theorem nodup_draws (hne : members ≠ []) (hnd : members.Nodup)
    (h : DistinctDraws members.length nano n) : (draws members nano n).Nodup := by
  refine List.Nodup.map_on (fun i hi j hj heq => ?_) List.nodup_range
  have hindex : ∀ j, drawIndex members.length nano j < members.length :=
    fun j => Nat.mod_lt _ (List.length_pos_iff.mpr hne)
  rw [List.getElem?_eq_getElem (hindex i), List.getElem?_eq_getElem (hindex j), Option.getD_some,
    Option.getD_some, hnd.getElem_inj_iff] at heq
  rw [List.mem_range] at hi hj
  rcases Nat.lt_trichotomy i j with hlt | hij | hlt
  · exact absurd (mem_drawn.mpr ⟨i, hlt, heq⟩) (h j hj)
  · exact hij
  · exact absurd (mem_drawn.mpr ⟨j, hlt, heq.symm⟩) (h i hi)

end Members

/-- The answer of a draw of `n` different members. -/
structure DrawsDistinct (members : List Bytes) (n : ℕ) (r : List Bytes) : Prop where
  length : r.length = min n members.length
  nodup : r.Nodup
  mem : ∀ m ∈ r, m ∈ members

/-- **`srandmember`** answers that many different members, and its loop ends, if and only if the
size of the set is no multiple of `31` or the count is at most a `31`st of it. -/
theorem srandmember_draws {now : UInt64} {dbs : Databases} {i : ℕ} {k : Bytes} {e : Entry}
    {s : HashSet Bytes} (he : dbs.liveEntry now i k = some e) (hv : e.value = .set s)
    (hne : s.keys ≠ []) (nano : ℕ) {count : Int64} (hcount : 0 ≤ count.toInt) :
    ((∃ r, dbs.srandmember now nano i k (some count) = .ok r ∧
        DrawsDistinct s.keys count.toInt.toNat r) ↔
      ¬31 ∣ s.keys.length ∨ count.toInt.toNat ≤ s.keys.length / 31) ∧
    ((∃ t, min count.toInt.toNat s.keys.length
        ≤ ((drawTurn s.keys nano)^[t] ([], [])).2.length) ↔
      ¬31 ∣ s.keys.length ∨ count.toInt.toNat ≤ s.keys.length / 31) := by
  have hpos : 0 < s.keys.length := List.length_pos_iff.mpr hne
  have hn : min count.toInt.toNat s.keys.length ≤ s.keys.length := Nat.min_le_right _ _
  have hcondition : DistinctDraws s.keys.length nano (min count.toInt.toNat s.keys.length) ↔
      ¬31 ∣ s.keys.length ∨ count.toInt.toNat ≤ s.keys.length / 31 := by
    rw [distinct_iff hpos hn]
    have hdiv : s.keys.length / 31 < s.keys.length := Nat.div_lt_self hpos (by norm_num)
    omega
  have hunwrap : Kind.set.unwrap e.value = some s := by
    rw [hv]
    rfl
  have hread : dbs.srandmember now nano i k (some count)
      = Databases.drawMembers s.keys nano (some count) := by
    rw [Databases.srandmember, Databases.readAs_some he hunwrap]
    rfl
  refine ⟨?_, by rw [drawTurn_ends_iff, hcondition]⟩
  rw [hread, Databases.drawMembers, if_neg hne]
  by_cases hone : count = 1
  · subst hone
    have hindex : nano % s.keys.length < s.keys.length := Nat.mod_lt _ hpos
    have htoNat : (1 : Int64).toInt.toNat = 1 := rfl
    rw [if_pos rfl, List.getElem?_eq_getElem hindex, htoNat]
    refine iff_of_true ⟨_, rfl, ?_, List.nodup_singleton _, ?_⟩ ?_
    · exact (Nat.min_eq_left hpos).symm
    · exact List.forall_mem_singleton.mpr (List.getElem_mem hindex)
    · by_cases hdvd : 31 ∣ s.keys.length
      · exact Or.inr ((Nat.one_le_div_iff (by norm_num)).mpr (Nat.le_of_dvd hpos hdvd))
      · exact Or.inl hdvd
  · rw [if_neg hone, if_pos ((zero_le_iff count).mpr hcount), asUsize_of_nonneg hcount, ← hcondition]
    rcases drawDistinct_iff hne nano (min count.toInt.toNat s.keys.length) with
      ⟨hok, hdistinct⟩ | ⟨hhang, hrepeat⟩
    · rw [hok]
      exact iff_of_true ⟨_, rfl, length_draws _, nodup_draws hne s.keys_nodup hdistinct,
        fun m hm => mem_of_mem_draws hne hm⟩ hdistinct
    · rw [hhang]
      refine iff_of_false ?_ hrepeat
      rintro ⟨r, hr, -⟩
      cases hr

/-- The one-byte strings below a number. -/
def firstBytes (n : ℕ) : HashSet Bytes :=
  (List.range n).foldl (fun s n => s.insert [UInt8.ofNat n] ()) ∅

/-- One database, in which `s` holds them. -/
def setOfFirst (n : ℕ) : Databases :=
  (Store.new 1).databases.put 0 [115] { value := .set (firstBytes n) }

/-- Five members of seven, where the loop begins at position 3. -/
theorem srandmember_draws_five :
    (∃ r, (setOfFirst 7).srandmember 0 10 0 [115] (some 5) = .ok r ∧
        DrawsDistinct (firstBytes 7).keys 5 r) ∧
      ∃ t, 5 ≤ ((drawTurn (firstBytes 7).keys 10)^[t] ([], [])).2.length := by
  have he : (setOfFirst 7).liveEntry 0 0 [115] = some { value := .set (firstBytes 7) } := rfl
  have hdraws :=
    srandmember_draws he rfl (by decide +kernel) 10 (show 0 ≤ (5 : Int64).toInt by decide)
  have hcondition : ¬31 ∣ (firstBytes 7).keys.length := by decide +kernel
  exact ⟨hdraws.1.mpr (Or.inl hcondition), hdraws.2.mpr (Or.inl hcondition)⟩

/-- **Two different members** of a set with `31` members are never found: the second draw comes to
the position of the first one, again and again. -/
theorem srandmember_hangs :
    (setOfFirst 31).liveEntry 0 0 [115] = some { value := .set (firstBytes 31) } ∧
      (firstBytes 31).keys.length = 31 ∧
      (setOfFirst 31).srandmember 0 0 0 [115] (some 2) = .error .hang ∧
      (¬∃ r, (setOfFirst 31).srandmember 0 0 0 [115] (some 2) = .ok r ∧
        DrawsDistinct (firstBytes 31).keys 2 r) ∧
      drawTurn (firstBytes 31).keys 0 (drawTurn (firstBytes 31).keys 0 ([], []))
        = drawTurn (firstBytes 31).keys 0 ([], []) := by
  have hhang : (setOfFirst 31).srandmember 0 0 0 [115] (some 2) = .error .hang := by rfl
  refine ⟨rfl, by decide +kernel, hhang, ?_, by decide +kernel⟩
  rintro ⟨r, hr, -⟩
  cases hhang.symm.trans hr

end VeloDB
