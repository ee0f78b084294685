import VeloDB.Store.Memory

/-!
# Eviction

The store goes round its databases and removes from each the first candidate that the iteration
yields, until its running estimate has come down to the target or a whole round has found no
candidate. The order of the iteration is a parameter, and it may be another one each time.

## Main results

* `evictUntilUnder_returns` — that the loop ends, and where
-/

namespace VeloDB

open Rust

/-- In which order a database is iterated, the n-th time that one is. -/
structure Iteration where
  order : ℕ → Db → List (Bytes × Entry)
  perm : ∀ n d, (order n d).Perm d.pairs

/-- The pairs as they are stored. -/
def Iteration.stored : Iteration := ⟨fun _ d => d.pairs, fun _ d => List.Perm.refl d.pairs⟩

/-- The filter of a policy. -/
def EvictionPolicy.candidate (policy : EvictionPolicy) (e : Entry) : Bool :=
  match policy with
  | .volatileRandom => e.expireAt.isSome
  | _ => true

/-! ### The loops -/

/-- The state of `evict_until_under`, with the keys that it has removed, in order. -/
structure Eviction where
  databases : Databases
  usage : ℕ
  evicted : ℕ := 0
  progressed : Bool := false
  log : List (ℕ × Bytes) := []
  /-- How often a database has been iterated. -/
  scans : ℕ := 0

namespace Eviction

variable (it : Iteration) (target : ℕ) (policy : EvictionPolicy)

/-- One database. The `break` of the source leaves the databases behind it alone, and a database is
left alone here when the usage has come down. -/
def turn (st : Eviction) (i : ℕ) : Eviction :=
  if st.usage ≤ target then st
  else
    let candidate := (((it.order st.scans (st.databases[i]?.getD ∅)).filter fun p =>
      policy.candidate p.2).map fun p => (p.1, entrySize p.1 p.2)).head?
    match candidate with
    | some (key, size) =>
      if (st.databases.find i key).isSome then
        { databases := st.databases.remove i key
          usage := st.usage - size
          evicted := st.evicted + 1
          progressed := true
          log := st.log ++ [(i, key)]
          scans := st.scans + 1 }
      else { st with scans := st.scans + 1 }
    | none => { st with scans := st.scans + 1 }

/-- All databases, one after the other. -/
def round (st : Eviction) : Eviction :=
  (List.range st.databases.length).foldl (turn it target policy) { st with progressed := false }

/-- Rounds, until the usage has come down or a round makes no progress. -/
def loop : ℕ → Eviction → Option Eviction
  | 0, _ => none
  | fuel + 1, st =>
    if target < st.usage then
      let st := round it target policy st
      if st.progressed then loop fuel st else some st
    else some st

end Eviction

/-- `Store::evict_until_under`: how many keys have been evicted, which ones, and the store. -/
def Store.evictUntilUnder (it : Iteration) (target : ℕ) (policy : EvictionPolicy) (fuel : ℕ)
    (s : Store) : Option (ℕ × List (ℕ × Bytes) × Store) :=
  if policy = .noEviction then some (0, [], s)
  else
    (Eviction.loop it target policy fuel
      { databases := s.databases, usage := s.databases.estimatedMemory }).map fun st =>
      (st.evicted, st.log,
        ⟨st.databases, { s.tables with cachedMemoryUsage := st.usage }⟩)

/-! ### Runs of evictions -/

/-- The keys are removed one after the other. Each is a candidate that is there, and when it is
removed the estimate is over the target. -/
inductive Evicts (target : ℕ) (policy : EvictionPolicy) (dbs : Databases) :
    List (ℕ × Bytes) → Databases → Prop
  | nil : Evicts target policy dbs [] dbs
  | snoc {log : List (ℕ × Bytes)} {dbs' : Databases} {i : ℕ} {k : Bytes} {e : Entry} :
    Evicts target policy dbs log dbs' → target < dbs'.estimatedMemory →
    dbs'.find i k = some e → policy.candidate e = true →
    Evicts target policy dbs (log ++ [(i, k)]) (dbs'.remove i k)

namespace Evicts

variable {target : ℕ} {policy : EvictionPolicy} {dbs dbs' : Databases} {log : List (ℕ × Bytes)}
  {i : ℕ} {k : Bytes} {e : Entry}

theorem keyCount (h : Evicts target policy dbs log dbs') :
    dbs'.keyCount + log.length = dbs.keyCount := by
  induction h with
  | nil => rfl
  | snoc _ _ he _ ih =>
    have hone := Databases.weigh_remove_some (fun _ _ => 1) _ _ _ he
    rw [List.length_append, List.length_singleton]
    rw [Databases.keyCount] at ih ⊢
    omega

/-- Nothing is added or changed. -/
theorem find_of_find (h : Evicts target policy dbs log dbs') (he : dbs'.find i k = some e) :
    dbs.find i k = some e := by
  induction h with
  | nil => exact he
  | @snoc log' dbs'' j k' _ _ _ _ _ ih =>
    by_cases hk : i = j ∧ k = k'
    · obtain ⟨rfl, rfl⟩ := hk
      rw [Databases.find_remove_self] at he
      cases he
    · rw [Databases.find_remove_of_ne (not_and_or.mp hk)] at he
      exact ih he

/-- What is no candidate stays. -/
theorem find_of_not_candidate (h : Evicts target policy dbs log dbs') (he : dbs.find i k = some e)
    (hnot : policy.candidate e = false) : dbs'.find i k = some e := by
  induction h with
  | nil => exact he
  | @snoc log' dbs'' j k' e' _ _ he' hcand ih =>
    have hne : i ≠ j ∨ k ≠ k' := by
      by_contra hsame
      rw [not_or, not_not, not_not] at hsame
      obtain ⟨rfl, rfl⟩ := hsame
      obtain rfl := Option.some.inj (ih.symm.trans he')
      exact absurd hcand (by rw [hnot]; exact Bool.false_ne_true)
    rw [Databases.find_remove_of_ne hne]
    exact ih

end Evicts

/-! ### What the loops do -/

namespace Eviction

variable {it : Iteration} {target : ℕ} {policy : EvictionPolicy} {st : Eviction} {i : ℕ}

/-- No entry of a database is a candidate. -/
def Exhausted (policy : EvictionPolicy) (dbs : Databases) (i : ℕ) : Prop :=
  ∀ k e, dbs.find i k = some e → policy.candidate e = false

/-- **One turn.** The target has been reached, or there is no candidate in the database, or one is
removed. -/
theorem turn_cases (it : Iteration) (target : ℕ) (policy : EvictionPolicy) (st : Eviction) (i : ℕ) :
    (st.usage ≤ target ∧ turn it target policy st i = st) ∨
    (Exhausted policy st.databases i ∧
      turn it target policy st i = { st with scans := st.scans + 1 }) ∨
    ∃ k e, target < st.usage ∧ st.databases.find i k = some e ∧ policy.candidate e = true ∧
      turn it target policy st i = { databases := st.databases.remove i k
                                     usage := st.usage - entrySize k e
                                     evicted := st.evicted + 1
                                     progressed := true
                                     log := st.log ++ [(i, k)]
                                     scans := st.scans + 1 } := by
  have hmem : ∀ k e, (k, e) ∈ it.order st.scans (st.databases[i]?.getD ∅) ↔
      st.databases.find i k = some e := by
    intro k e
    rw [(it.perm _ _).mem_iff, HashMap.mem_pairs, Databases.find]
    cases st.databases[i]? with
    | none => exact Iff.rfl
    | some d => exact Iff.rfl
  by_cases hover : st.usage ≤ target
  · exact Or.inl ⟨hover, if_pos hover⟩
  · rw [turn, if_neg hover]
    cases hcand : (it.order st.scans (st.databases[i]?.getD ∅)).filter
        fun p => policy.candidate p.2 with
    | nil =>
      refine Or.inr (Or.inl ⟨fun k e he => ?_, rfl⟩)
      have hnot := List.filter_eq_nil_iff.mp hcand (k, e) ((hmem k e).mpr he)
      simpa using hnot
    | cons p ps =>
      obtain ⟨hp, hpolicy⟩ := List.mem_filter.mp (hcand ▸ List.mem_cons_self : p ∈ _)
      have hfind := (hmem p.1 p.2).mp hp
      refine Or.inr (Or.inr ⟨p.1, p.2, Nat.lt_of_not_le hover, hfind, hpolicy, ?_⟩)
      exact if_pos (by rw [hfind]; rfl)

/-- What holds of the state between two turns. -/
structure Good (target : ℕ) (policy : EvictionPolicy) (dbs : Databases) (st : Eviction) : Prop where
  evicts : Evicts target policy dbs st.log st.databases
  usage : st.usage = st.databases.estimatedMemory
  evicted : st.evicted = st.log.length

variable {dbs : Databases}

/-- **Step.** -/
theorem Good.turn (h : Good target policy dbs st) (i : ℕ) :
    Good target policy dbs (st.turn it target policy i) := by
  rcases turn_cases it target policy st i with ⟨-, heq⟩ | ⟨-, heq⟩ | ⟨k, e, hover, he, hc, heq⟩
  · rwa [heq]
  · rw [heq]
    exact ⟨h.evicts, h.usage, h.evicted⟩
  · have hweigh := Databases.weigh_remove_some entrySize st.databases i k he
    rw [heq]
    refine ⟨.snoc h.evicts (h.usage ▸ hover) he hc, ?_, ?_⟩
    · change st.usage - entrySize k e = _
      rw [h.usage]
      exact (Nat.eq_sub_of_add_eq hweigh).symm
    · rw [List.length_append, h.evicted]
      rfl

theorem Good.foldl (h : Good target policy dbs st) (is : List ℕ) :
    Good target policy dbs (is.foldl (Eviction.turn it target policy) st) := by
  induction is generalizing st with
  | nil => exact h
  | cons i is ih => exact ih (h.turn i)

theorem Good.round (h : Good target policy dbs st) :
    Good target policy dbs (st.round it target policy) := by
  have hstart : Good target policy dbs { st with progressed := false } :=
    ⟨h.evicts, h.usage, h.evicted⟩
  exact hstart.foldl _

theorem Good.keyCount (h : Good target policy dbs st) :
    st.databases.keyCount + st.evicted = dbs.keyCount := by
  rw [h.evicted]
  exact h.evicts.keyCount

/-- Turns that make no progress have found no candidate. -/
theorem foldl_turn_stuck (is : List ℕ)
    (h : (is.foldl (turn it target policy) st).progressed = false) :
    (is.foldl (turn it target policy) st).databases = st.databases ∧
      ∀ i ∈ is, st.usage ≤ target ∨ Exhausted policy st.databases i := by
  have hkept : ∀ (is : List ℕ) (st : Eviction), st.progressed = true →
      (is.foldl (turn it target policy) st).progressed = true := by
    intro is
    induction is with
    | nil => exact fun _ hst => hst
    | cons i is ih =>
      intro st hst
      refine ih _ ?_
      rcases turn_cases it target policy st i with ⟨-, heq⟩ | ⟨-, heq⟩ | ⟨k, e, -, -, -, heq⟩
      · rwa [heq]
      · rwa [heq]
      · rw [heq]
  induction is generalizing st with
  | nil => exact ⟨rfl, fun i hi => absurd hi List.not_mem_nil⟩
  | cons i is ih =>
    rw [List.foldl_cons] at h ⊢
    obtain ⟨hdbs, hstuck⟩ := ih h
    rcases turn_cases it target policy st i with ⟨hle, heq⟩ | ⟨hnone, heq⟩ | ⟨k, e, -, -, -, heq⟩
    · rw [heq] at hdbs hstuck ⊢
      exact ⟨hdbs, List.forall_mem_cons.mpr ⟨Or.inl hle, hstuck⟩⟩
    · rw [heq] at hdbs hstuck ⊢
      exact ⟨hdbs, List.forall_mem_cons.mpr ⟨Or.inr hnone, hstuck⟩⟩
    · rw [heq] at h
      rw [hkept is _ rfl] at h
      cases h

/-- Turns that make progress have removed something. -/
theorem foldl_turn_evicted (is : List ℕ) (st : Eviction) :
    st.evicted ≤ (is.foldl (turn it target policy) st).evicted ∧
      ((is.foldl (turn it target policy) st).progressed = true →
        st.progressed = true ∨ st.evicted < (is.foldl (turn it target policy) st).evicted) := by
  induction is generalizing st with
  | nil => exact ⟨le_rfl, Or.inl⟩
  | cons i is ih =>
    obtain ⟨hle, hlt⟩ := ih (turn it target policy st i)
    rw [List.foldl_cons]
    rcases turn_cases it target policy st i with ⟨-, heq⟩ | ⟨-, heq⟩ | ⟨k, e, -, -, -, heq⟩
    · rw [heq] at hle hlt ⊢
      exact ⟨hle, hlt⟩
    · rw [heq] at hle hlt ⊢
      exact ⟨hle, hlt⟩
    · rw [heq] at hle ⊢
      exact ⟨Nat.le_of_succ_le hle, fun _ => Or.inr hle⟩

/-- The databases that a round without progress leaves. -/
theorem round_stuck (hover : target < st.usage)
    (h : (st.round it target policy).progressed = false) (i : ℕ) :
    Exhausted policy (st.round it target policy).databases i := by
  obtain ⟨hdbs, hstuck⟩ := foldl_turn_stuck _ h
  rw [round, hdbs]
  by_cases hi : i < st.databases.length
  · exact (hstuck i (List.mem_range.mpr hi)).resolve_left (Nat.not_le_of_lt hover)
  · intro k e he
    rw [Databases.find, List.getElem?_eq_none (Nat.le_of_not_lt hi)] at he
    cases he

/-- **The loop ends**: every round but the last removes a key. -/
theorem Good.loop_returns (it : Iteration) (h : Good target policy dbs st) :
    ∃ st', (∀ fuel, st.databases.keyCount < fuel → loop it target policy fuel st = some st') ∧
      Good target policy dbs st' ∧
      (st'.usage ≤ target ∨ ∀ i, Exhausted policy st'.databases i) := by
  induction hn : st.databases.keyCount using Nat.strong_induction_on generalizing st with
  | _ n ih =>
    subst hn
    by_cases hover : target < st.usage
    · cases hp : (st.round it target policy).progressed with
      | false =>
        refine ⟨st.round it target policy, fun fuel hfuel => ?_, h.round,
          Or.inr (round_stuck hover hp)⟩
        obtain ⟨fuel, rfl⟩ := Nat.exists_eq_add_one_of_ne_zero (Nat.ne_zero_of_lt hfuel)
        rw [loop, if_pos hover, if_neg (by rw [hp]; exact Bool.false_ne_true)]
      | true =>
        have hfewer : (st.round it target policy).databases.keyCount < st.databases.keyCount := by
          have hevicted := (foldl_turn_evicted (List.range st.databases.length)
            { st with progressed := false }).2 hp
          have hlt := hevicted.resolve_left Bool.false_ne_true
          have hround : Good target policy dbs (st.round it target policy) := h.round
          have hcount := hround.keyCount
          have hcount' := h.keyCount
          rw [← Eviction.round] at hlt
          dsimp only at hlt
          omega
        obtain ⟨st', hloop, hgood, hend⟩ := ih _ hfewer h.round rfl
        refine ⟨st', fun fuel hfuel => ?_, hgood, hend⟩
        obtain ⟨fuel, rfl⟩ := Nat.exists_eq_add_one_of_ne_zero (Nat.ne_zero_of_lt hfuel)
        rw [loop, if_pos hover, if_pos hp]
        exact hloop fuel (by omega)
    · refine ⟨st, fun fuel hfuel => ?_, h, Or.inl (Nat.le_of_not_lt hover)⟩
      obtain ⟨fuel, rfl⟩ := Nat.exists_eq_add_one_of_ne_zero (Nat.ne_zero_of_lt hfuel)
      rw [loop, if_neg hover]

end Eviction

/-! ### The result -/

/-- What `evict_until_under` returns and leaves. -/
structure EvictionResult (target : ℕ) (policy : EvictionPolicy) (s : Store) (evicted : ℕ)
    (log : List (ℕ × Bytes)) (s' : Store) : Prop where
  /-- Every eviction is that of a candidate, while the estimate is over the target. -/
  evicts : Evicts target policy s.databases log s'.databases
  count : evicted = log.length
  removed : s'.databases.keyCount + evicted = s.databases.keyCount
  kept : ∀ i k e, s'.databases.find i k = some e → s.databases.find i k = some e
  volatile : policy = .volatileRandom → ∀ i k e, s.databases.find i k = some e →
    e.expireAt = none → s'.databases.find i k = some e
  stop : s'.databases.estimatedMemory ≤ target ∨
    ∀ i k e, s'.databases.find i k = some e → policy.candidate e = false
  cached : s'.tables.cachedMemoryUsage = s'.databases.estimatedMemory

/-- **Eviction ends**, at the target or without candidates, whatever the orders of the iterations
are. -/
theorem evictUntilUnder_returns (it : Iteration) (target : ℕ) {policy : EvictionPolicy}
    (hpolicy : policy ≠ .noEviction) (s : Store) :
    ∃ evicted log s', (∀ fuel, s.databases.keyCount < fuel →
        s.evictUntilUnder it target policy fuel = some (evicted, log, s')) ∧
      EvictionResult target policy s evicted log s' := by
  have hstart : Eviction.Good target policy s.databases
      { databases := s.databases, usage := s.databases.estimatedMemory } := ⟨.nil, rfl, rfl⟩
  obtain ⟨st, hloop, hgood, hend⟩ := hstart.loop_returns it
  refine ⟨st.evicted, st.log, ⟨st.databases, { s.tables with cachedMemoryUsage := st.usage }⟩,
    fun fuel hfuel => ?_, ?_⟩
  · rw [Store.evictUntilUnder, if_neg hpolicy, hloop fuel hfuel]
    rfl
  · exact {
      evicts := hgood.evicts
      count := hgood.evicted
      removed := hgood.keyCount
      kept := fun i k e he => hgood.evicts.find_of_find he
      volatile := by
        rintro rfl i k e he hnone
        refine hgood.evicts.find_of_not_candidate he ?_
        rw [EvictionPolicy.candidate, hnone]
        rfl
      stop := hend.imp_left fun hle => hgood.usage ▸ hle
      cached := hgood.usage }

/-- A store with one key, which has to go. -/
theorem evictUntilUnder_returns_one :
    let s : Store := ⟨(Store.new 1).databases.put 0 [107] { value := .string [118] }, {}⟩
    ∃ evicted log s', (∀ fuel, s.databases.keyCount < fuel →
        s.evictUntilUnder Iteration.stored 0 .allKeysRandom fuel = some (evicted, log, s')) ∧
      EvictionResult 0 .allKeysRandom s evicted log s' :=
  evictUntilUnder_returns Iteration.stored 0 (by decide) _

end VeloDB
