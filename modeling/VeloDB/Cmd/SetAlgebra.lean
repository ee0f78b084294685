import VeloDB.Cmd.Containers

/-!
# Intersection, union and difference

The three commands go through their keys and stop at the first one that holds something else than a
set. An absent key is an empty set; only the intersection stops there, too, so a key of the wrong
type behind it is not seen.

## Main results

* `setAlgebra` — what the three commands answer, for every list of keys
-/

namespace VeloDB

open Rust

namespace Databases

variable (now : UInt64) (dbs : Databases) (i : ℕ)

/-- The key is live and not a set. -/
def NotSet (k : Bytes) : Prop :=
  ∃ e, dbs.liveEntry now i k = some e ∧ Kind.set.unwrap e.value = none

/-- The members of the set at a key; none where there is no live set. -/
def members (k : Bytes) : Set Bytes :=
  {m | ∃ e s, dbs.liveEntry now i k = some e ∧ Kind.set.unwrap e.value = some s ∧ m ∈ s}

/-- A key is not a set, and all keys in front of it are live. -/
def WrongFirst (ks : List Bytes) : Prop :=
  ∃ before k after, ks = before ++ k :: after ∧ dbs.NotSet now i k ∧
    ∀ b ∈ before, (dbs.liveEntry now i b).isSome = true

variable {now dbs i} {k : Bytes} {ks : List Bytes}

theorem wrongFirst_cons : dbs.WrongFirst now i (k :: ks) ↔
    dbs.NotSet now i k ∨ (dbs.liveEntry now i k).isSome = true ∧ dbs.WrongFirst now i ks := by
  constructor
  · rintro ⟨before, k', after, hks, hnot, hlive⟩
    cases before with
    | nil =>
      obtain ⟨rfl, rfl⟩ := List.cons.inj hks
      exact Or.inl hnot
    | cons b before =>
      obtain ⟨rfl, rfl⟩ := List.cons.inj hks
      exact Or.inr ⟨hlive k List.mem_cons_self, before, k', after, rfl, hnot,
        fun b hb => hlive b (List.mem_cons_of_mem _ hb)⟩
  · rintro (hnot | ⟨hk, before, k', after, rfl, hnot, hlive⟩)
    · exact ⟨[], k, ks, rfl, hnot, fun b hb => absurd hb List.not_mem_nil⟩
    · exact ⟨k :: before, k', after, rfl, hnot, List.forall_mem_cons.mpr ⟨hk, hlive⟩⟩

theorem not_wrongFirst_nil : ¬dbs.WrongFirst now i [] := by
  rintro ⟨before, k, after, hks, -⟩
  exact List.append_ne_nil_of_right_ne_nil before (List.cons_ne_nil k after) hks.symm

/-- **What `get_set` finds.** -/
theorem getSet_cases (hi : i < dbs.length) (now : UInt64) (k : Bytes) :
    (dbs.getSet now i k = .ok none ∧ dbs.liveEntry now i k = none ∧ dbs.members now i k = ∅) ∨
    (∃ s : HashSet Bytes, dbs.getSet now i k = .ok (some s) ∧
      (dbs.liveEntry now i k).isSome = true ∧ ∀ m, m ∈ dbs.members now i k ↔ m ∈ s) ∨
    (dbs.getSet now i k = .error .wrongType ∧ dbs.NotSet now i k) := by
  cases he : dbs.liveEntry now i k with
  | none =>
    refine Or.inl ⟨readAs_none hi he none some, rfl, Set.eq_empty_iff_forall_notMem.mpr ?_⟩
    rintro m ⟨e, s, he', -⟩
    cases he.symm.trans he'
  | some e =>
    cases hs : Kind.set.unwrap e.value with
    | none => exact Or.inr (Or.inr ⟨readAs_wrong he hs none some, e, he, hs⟩)
    | some s =>
      refine Or.inr (Or.inl ⟨s, readAs_some he hs none some, rfl,
        fun m => ⟨?_, fun hm => ⟨e, s, he, hs, hm⟩⟩⟩)
      rintro ⟨e', s', he', hs', hm⟩
      obtain rfl := Option.some.inj (he.symm.trans he')
      obtain rfl := Option.some.inj (hs.symm.trans hs')
      exact hm

theorem mem_members_iff (hi : i < dbs.length) {s : HashSet Bytes}
    (h : dbs.getSet now i k = .ok (some s)) {m : Bytes} : m ∈ dbs.members now i k ↔ m ∈ s := by
  rcases getSet_cases hi now k with ⟨hget, -, -⟩ | ⟨s', hget, -, hmem⟩ | ⟨hget, -⟩
  · cases h.symm.trans hget
  · obtain rfl := Option.some.inj (Except.ok.inj (h.symm.trans hget))
    exact hmem m
  · cases h.symm.trans hget

theorem not_notSet_of_none (h : dbs.liveEntry now i k = none) : ¬dbs.NotSet now i k := by
  rintro ⟨e, he, -⟩
  cases h.symm.trans he

theorem getSet_of_notSet (h : dbs.NotSet now i k) : dbs.getSet now i k = .error .wrongType := by
  obtain ⟨e, he, hs⟩ := h
  exact readAs_wrong he hs none some

theorem not_notSet_of_ok {o : Option (HashSet Bytes)} (h : dbs.getSet now i k = .ok o) :
    ¬dbs.NotSet now i k := by
  intro hnot
  cases h.symm.trans (getSet_of_notSet hnot)

end Databases

/-! ### The loops -/

/-- A computation fails with the error of a wrong type, or it gives the values of a set, each
once. -/
structure GivesSet (x : Except VeloDBError (List Bytes)) (wrong : Prop) (values : Set Bytes) :
    Prop where
  error : wrong → x = .error .wrongType
  ok : ¬wrong → ∃ l, x = .ok l ∧ l.Nodup ∧ ∀ m, m ∈ l ↔ m ∈ values

namespace GivesSet

variable {x : Except VeloDBError (List Bytes)} {wrong wrong' : Prop} {values values' : Set Bytes}

theorem of_ok {l : List Bytes} (hwrong : ¬wrong) (hnd : l.Nodup)
    (hl : ∀ m, m ∈ l ↔ m ∈ values) : GivesSet (.ok l) wrong values where
  error h := absurd h hwrong
  ok _ := ⟨l, rfl, hnd, hl⟩

theorem of_error (hwrong : wrong) : GivesSet (.error .wrongType) wrong values where
  error _ := rfl
  ok h := absurd hwrong h

theorem congr (h : GivesSet x wrong values) (hwrong : wrong ↔ wrong')
    (hvalues : ¬wrong → values = values') : GivesSet x wrong' values' where
  error hw := h.error (hwrong.mpr hw)
  ok hw := by
    have hnot : ¬wrong := fun hw' => hw (hwrong.mp hw')
    rw [← hvalues hnot]
    exact h.ok hnot

end GivesSet

namespace Databases

variable {now : UInt64} {dbs : Databases} {i : ℕ}

/-- Some key is not a set. -/
def SomeNotSet (now : UInt64) (dbs : Databases) (i : ℕ) (ks : List Bytes) : Prop :=
  ∃ k ∈ ks, dbs.NotSet now i k

theorem someNotSet_cons {k : Bytes} {ks : List Bytes} : dbs.SomeNotSet now i (k :: ks) ↔
    dbs.NotSet now i k ∨ dbs.SomeNotSet now i ks := by
  simp [SomeNotSet]

theorem not_someNotSet_nil : ¬dbs.SomeNotSet now i [] := by
  rintro ⟨k, hk, -⟩
  exact absurd hk List.not_mem_nil

theorem sinterLoop_givesSet (hi : i < dbs.length) (ks : List Bytes) {result : List Bytes}
    (hnd : result.Nodup) : GivesSet (dbs.sinterLoop now i ks result) (dbs.WrongFirst now i ks)
      {m | m ∈ result ∧ ∀ k ∈ ks, m ∈ dbs.members now i k} := by
  induction ks generalizing result with
  | nil => exact .of_ok not_wrongFirst_nil hnd fun m => by simp
  | cons k ks ih =>
    rcases getSet_cases hi now k with ⟨hget, hnone, hempty⟩ | ⟨s, hget, hlive, hmem⟩ | ⟨hget, hnot⟩
    · -- an absent key ends the loop, whatever comes after it
      rw [sinterLoop, hget]
      refine .of_ok ?_ List.nodup_nil fun m => ?_
      · rw [wrongFirst_cons, hnone]
        simp [not_notSet_of_none hnone]
      · simp [hempty]
    · rw [sinterLoop, hget]
      refine (ih (hnd.filter _)).congr ?_ fun _ => Set.ext fun m => ?_
      · simp [wrongFirst_cons, not_notSet_of_ok hget, hlive]
      · simp [hmem m, AList.lookup_isSome, and_assoc]
    · rw [sinterLoop, hget]
      exact .of_error (wrongFirst_cons.mpr (Or.inl hnot))

theorem sdiffLoop_givesSet (hi : i < dbs.length) (ks : List Bytes) {result : List Bytes}
    (hnd : result.Nodup) : GivesSet (dbs.sdiffLoop now i ks result) (dbs.SomeNotSet now i ks)
      {m | m ∈ result ∧ ∀ k ∈ ks, m ∉ dbs.members now i k} := by
  induction ks generalizing result with
  | nil => exact .of_ok not_someNotSet_nil hnd fun m => by simp
  | cons k ks ih =>
    rcases getSet_cases hi now k with ⟨hget, hnone, hempty⟩ | ⟨s, hget, hlive, hmem⟩ | ⟨hget, hnot⟩
    · rw [sdiffLoop, hget]
      refine (ih hnd).congr ?_ fun _ => Set.ext fun m => ?_
      · simp [someNotSet_cons, not_notSet_of_ok hget]
      · simp [hempty]
    · rw [sdiffLoop, hget]
      refine (ih (hnd.filter _)).congr ?_ fun _ => Set.ext fun m => ?_
      · simp [someNotSet_cons, not_notSet_of_ok hget]
      · simp [hmem m, ← AList.lookup_eq_none, and_assoc]
    · rw [sdiffLoop, hget]
      exact .of_error (someNotSet_cons.mpr (Or.inl hnot))

theorem mem_foldl_insert (l : List Bytes) (r : HashSet Bytes) (m : Bytes) :
    m ∈ l.foldl (fun r v => r.insert v ()) r ↔ m ∈ r ∨ m ∈ l := by
  induction l generalizing r with
  | nil => simp
  | cons v l ih => rw [List.foldl_cons, ih, AList.mem_insert, List.mem_cons, or_assoc,
      or_left_comm]

theorem sunionLoop_givesSet (hi : i < dbs.length) (ks : List Bytes) (result : HashSet Bytes) :
    GivesSet (dbs.sunionLoop now i ks result) (dbs.SomeNotSet now i ks)
      {m | m ∈ result ∨ ∃ k ∈ ks, m ∈ dbs.members now i k} := by
  induction ks generalizing result with
  | nil => exact .of_ok not_someNotSet_nil result.keys_nodup fun m => by simp [AList.mem_keys]
  | cons k ks ih =>
    rcases getSet_cases hi now k with ⟨hget, hnone, hempty⟩ | ⟨s, hget, hlive, hmem⟩ | ⟨hget, hnot⟩
    · rw [sunionLoop, hget]
      refine (ih result).congr ?_ fun _ => Set.ext fun m => ?_
      · simp [someNotSet_cons, not_notSet_of_ok hget]
      · simp [hempty]
    · rw [sunionLoop, hget]
      refine (ih _).congr ?_ fun _ => Set.ext fun m => ?_
      · simp [someNotSet_cons, not_notSet_of_ok hget]
      · have hor : (∃ key ∈ k :: ks, m ∈ dbs.members now i key) ↔
            m ∈ s ∨ ∃ key ∈ ks, m ∈ dbs.members now i key := by
          simp only [List.mem_cons, exists_eq_or_imp, hmem m]
        rw [Set.mem_ofPred_eq, Set.mem_ofPred_eq, mem_foldl_insert, hor, or_assoc, AList.mem_keys]
        exact Iff.rfl
    · rw [sunionLoop, hget]
      exact .of_error (someNotSet_cons.mpr (Or.inl hnot))

/-- **`SINTER`**, of the store. -/
theorem sinter_givesSet (hi : i < dbs.length) (ks : List Bytes) :
    GivesSet (dbs.sinter now i ks) (dbs.WrongFirst now i ks)
      {m | ks ≠ [] ∧ ∀ key ∈ ks, m ∈ dbs.members now i key} := by
  cases ks with
  | nil => exact .of_ok not_wrongFirst_nil List.nodup_nil fun m => by simp
  | cons k ks =>
    rcases getSet_cases hi now k with ⟨hget, hnone, hempty⟩ | ⟨s, hget, hlive, hmem⟩ | ⟨hget, hnot⟩
    · rw [sinter, hget]
      refine .of_ok ?_ List.nodup_nil fun m => ?_
      · rw [wrongFirst_cons, hnone]
        simp [not_notSet_of_none hnone]
      · simp [hempty]
    · rw [sinter, hget]
      refine (sinterLoop_givesSet hi ks s.keys_nodup).congr ?_ fun _ => Set.ext fun m => ?_
      · simp [wrongFirst_cons, not_notSet_of_ok hget, hlive]
      · rw [Set.mem_ofPred_eq, Set.mem_ofPred_eq, List.forall_mem_cons, hmem m, AList.mem_keys]
        simp
    · rw [sinter, hget]
      exact .of_error (wrongFirst_cons.mpr (Or.inl hnot))

/-- **`SUNION`**, of the store. -/
theorem sunion_givesSet (hi : i < dbs.length) (ks : List Bytes) :
    GivesSet (dbs.sunion now i ks) (dbs.SomeNotSet now i ks)
      {m | ∃ key ∈ ks, m ∈ dbs.members now i key} := by
  refine (sunionLoop_givesSet hi ks ∅).congr Iff.rfl fun _ => Set.ext fun m => ?_
  have hempty : m ∉ (∅ : HashSet Bytes) := AList.notMem_empty m
  exact or_iff_right hempty

/-- **`SDIFF`**, of the store. -/
theorem sdiff_givesSet (hi : i < dbs.length) (ks : List Bytes) :
    GivesSet (dbs.sdiff now i ks) (dbs.SomeNotSet now i ks)
      {m | ∃ k rest, ks = k :: rest ∧ m ∈ dbs.members now i k ∧
        ∀ key ∈ rest, m ∉ dbs.members now i key} := by
  cases ks with
  | nil => exact .of_ok not_someNotSet_nil List.nodup_nil fun m => by simp
  | cons k ks =>
    have hvalues : ∀ m, m ∈ {m | ∃ k' rest, k :: ks = k' :: rest ∧ m ∈ dbs.members now i k' ∧
        ∀ key ∈ rest, m ∉ dbs.members now i key} ↔
          m ∈ dbs.members now i k ∧ ∀ key ∈ ks, m ∉ dbs.members now i key := by
      intro m
      constructor
      · rintro ⟨k', rest, hks, hm⟩
        obtain ⟨rfl, rfl⟩ := List.cons.inj hks
        exact hm
      · exact fun hm => ⟨k, ks, rfl, hm⟩
    rcases getSet_cases hi now k with ⟨hget, hnone, hempty⟩ | ⟨s, hget, hlive, hmem⟩ | ⟨hget, hnot⟩
    · rw [sdiff, hget]
      refine (sdiffLoop_givesSet hi ks List.nodup_nil).congr ?_ fun _ => Set.ext fun m => ?_
      · simp [someNotSet_cons, not_notSet_of_ok hget]
      · rw [hvalues]
        simp [hempty]
    · rw [sdiff, hget]
      refine (sdiffLoop_givesSet hi ks s.keys_nodup).congr ?_ fun _ => Set.ext fun m => ?_
      · simp [someNotSet_cons, not_notSet_of_ok hget]
      · rw [hvalues, Set.mem_ofPred_eq, hmem m, AList.mem_keys]
    · rw [sdiff, hget]
      exact .of_error (someNotSet_cons.mpr (Or.inl hnot))

end Databases

/-! ### The commands -/

/-- What a command answers that gives the values of a set. -/
structure AnswersSet (r : Reply) (wrong : Prop) (values : Set Bytes) : Prop where
  error : wrong → r = .error (.error .wrongType)
  ok : ¬wrong → ∃ l, r = .ok (bulks l) ∧ l.Nodup ∧ ∀ m, m ∈ l ↔ m ∈ values

theorem GivesSet.answersSet {x : Except VeloDBError (List Bytes)} {wrong : Prop}
    {values : Set Bytes} (h : GivesSet x wrong values) :
    AnswersSet (ofResult x >>= fun l => pure (bulks l)) wrong values where
  error hw := by
    rw [h.error hw]
    rfl
  ok hw := by
    obtain ⟨l, hx, hl⟩ := h.ok hw
    rw [hx]
    exact ⟨l, rfl, hl⟩

/-- **Set algebra.** `SUNION` and `SDIFF` fail exactly if some key is not a set, and `SINTER` if the
keys in front of such a key are all live. Without an error the answer is the union, the difference,
the intersection, each member once, and empty if there are no keys. -/
theorem setAlgebra (env : Env) {dbs : Databases} {i : ℕ} (hi : i < dbs.length) (ks : List Bytes) :
    AnswersSet (Cmd.sinter env dbs i ks) (dbs.WrongFirst env.now i ks)
        {m | ks ≠ [] ∧ ∀ key ∈ ks, m ∈ dbs.members env.now i key} ∧
      AnswersSet (Cmd.sunion env dbs i ks) (dbs.SomeNotSet env.now i ks)
        {m | ∃ key ∈ ks, m ∈ dbs.members env.now i key} ∧
      AnswersSet (Cmd.sdiff env dbs i ks) (dbs.SomeNotSet env.now i ks)
        {m | ∃ k rest, ks = k :: rest ∧ m ∈ dbs.members env.now i k ∧
          ∀ key ∈ rest, m ∉ dbs.members env.now i key} :=
  ⟨(Databases.sinter_givesSet hi ks).answersSet, (Databases.sunion_givesSet hi ks).answersSet,
    (Databases.sdiff_givesSet hi ks).answersSet⟩

/-- The sets `{1, 2}` at `a` and `{2, 3}` at `b`, and a string at `c`. -/
def twoSets : Databases :=
  (((Store.new 1).databases.put 0 [97] { value := .set (([[1], [2]] : List Bytes).foldl
      (fun s m => s.insert m ()) ∅) }).put 0 [98] { value := .set (([[2], [3]] : List Bytes).foldl
      (fun s m => s.insert m ()) ∅) }).put 0 [99] { value := .string [5] }

/-- `SINTER a b a`, `SUNION a b a d` and `SDIFF a b b`, and `SUNION a c`. -/
theorem setAlgebra_twoSets :
    (∃ l, Cmd.sinter (Moment.on ⟨1, 0, 0, 1⟩ Host.plain) twoSets 0 [[97], [98], [97]]
      = .ok (bulks l) ∧ l.Nodup ∧ ∀ m, m ∈ l ↔ m = [2]) ∧
    (∃ l, Cmd.sunion (Moment.on ⟨1, 0, 0, 1⟩ Host.plain) twoSets 0 [[97], [98], [97], [100]]
      = .ok (bulks l) ∧ l.Nodup ∧ ∀ m, m ∈ l ↔ m = [1] ∨ m = [2] ∨ m = [3]) ∧
    (∃ l, Cmd.sdiff (Moment.on ⟨1, 0, 0, 1⟩ Host.plain) twoSets 0 [[97], [98], [98]]
      = .ok (bulks l) ∧ l.Nodup ∧ ∀ m, m ∈ l ↔ m = [1]) ∧
    Cmd.sunion (Moment.on ⟨1, 0, 0, 1⟩ Host.plain) twoSets 0 [[97], [99]]
      = .error (.error .wrongType) := by
  have hi : 0 < twoSets.length := by decide
  have ha : ∀ m, m ∈ twoSets.members 1 0 [97] ↔ m = [1] ∨ m = [2] := fun m => by
    rw [Databases.mem_members_iff hi rfl, Databases.mem_foldl_insert]
    simp [AList.notMem_empty]
  have hb : ∀ m, m ∈ twoSets.members 1 0 [98] ↔ m = [2] ∨ m = [3] := fun m => by
    rw [Databases.mem_members_iff hi rfl, Databases.mem_foldl_insert]
    simp [AList.notMem_empty]
  have hd : ∀ m, m ∉ twoSets.members 1 0 [100] := by
    rintro m ⟨e, s, he, -⟩
    cases he
  have hok : ∀ k ∈ ([[97], [98], [100]] : List Bytes), ¬twoSets.NotSet 1 0 k := by
    simp only [List.forall_mem_cons]
    exact ⟨Databases.not_notSet_of_ok rfl, Databases.not_notSet_of_ok rfl,
      Databases.not_notSet_of_ok rfl, List.forall_mem_nil _⟩
  have hall : ∀ ks : List Bytes, ks ⊆ [[97], [98], [100]] → ¬twoSets.SomeNotSet 1 0 ks :=
    fun ks hks ⟨k, hk, hnot⟩ => hok k (hks hk) hnot
  refine ⟨?_, ?_, ?_, ?_⟩
  · have hfirst : ¬twoSets.WrongFirst 1 0 [[97], [98], [97]] := by
      rintro ⟨before, k, after, hks, hnot, -⟩
      exact hall [[97], [98], [97]] (by decide) ⟨k, by rw [hks]; simp, hnot⟩
    obtain ⟨l, hrun, hnd, hl⟩ := (setAlgebra (Moment.on ⟨1, 0, 0, 1⟩ Host.plain) hi _).1.ok hfirst
    refine ⟨l, hrun, hnd, fun m => (hl m).trans ?_⟩
    simp only [Set.mem_ofPred_eq, List.forall_mem_cons, Moment.on]
    rw [ha, hb]
    constructor
    · rintro ⟨-, rfl | rfl, h, -⟩
      · exact absurd h (by decide)
      · rfl
    · rintro rfl
      simp
  · obtain ⟨l, hrun, hnd, hl⟩ := (setAlgebra (Moment.on ⟨1, 0, 0, 1⟩ Host.plain) hi _).2.1.ok
      (hall [[97], [98], [97], [100]] (by decide))
    refine ⟨l, hrun, hnd, fun m => (hl m).trans ?_⟩
    simp only [Set.mem_ofPred_eq, List.mem_cons, exists_eq_or_imp, exists_eq_left, Moment.on, ha, hb,
      hd, List.not_mem_nil, or_false]
    tauto
  · obtain ⟨l, hrun, hnd, hl⟩ := (setAlgebra (Moment.on ⟨1, 0, 0, 1⟩ Host.plain) hi _).2.2.ok
      (hall [[97], [98], [98]] (by decide))
    refine ⟨l, hrun, hnd, fun m => (hl m).trans ?_⟩
    constructor
    · rintro ⟨k, rest, hks, hm, hnot⟩
      obtain ⟨rfl, rfl⟩ := List.cons.inj hks
      rcases (ha m).mp hm with rfl | rfl
      · rfl
      · exact absurd ((hb _).mpr (Or.inl rfl)) (hnot [98] (by decide))
    · rintro rfl
      refine ⟨[97], [[98], [98]], rfl, (ha _).mpr (Or.inl rfl), fun key hkey hmem => ?_⟩
      obtain rfl : key = [98] := by simpa using hkey
      simpa using (hb _).mp hmem
  · exact (setAlgebra (Moment.on ⟨1, 0, 0, 1⟩ Host.plain) hi _).2.1.error
      ⟨[99], by decide, _, rfl, rfl⟩

end VeloDB
