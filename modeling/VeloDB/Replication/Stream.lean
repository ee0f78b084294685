import VeloDB.Persist.Aof
import VeloDB.Replication.Replica

/-!
# Applying the stream

Behind the handshake a replica parses one command after the other off its socket, counts its bytes
and dispatches it. What does not parse is thrown away, and that is also what happens to the first
part of a command whose second part has not arrived yet.

## Main results

* `applyLoop_encoded` — the inner loop over the commands in its buffer
* `streamCommands_applies_iff` — which ways of splitting the stream are applied
* `streamCommands_aligned` — what the replica holds after a stream that is read command by command
-/

namespace VeloDB

open Rust Nom

/-! ### The loop -/

/-- A replica while it follows the stream. -/
structure Applying where
  buf : Bytes
  offset : ℤ
  whole : Whole
  /-- What was dispatched. -/
  applied : List (List Bytes) := []
  /-- The panic that has ended the task. -/
  failure : Option Failure := none

section Loop

variable (H : Host) (clock : ℕ → Moment)

/-- Count a command and dispatch it. Its reply is dropped. -/
def Applying.applyOne (s : Applying) (name : Bytes) (args : List Bytes) (remaining : Bytes) :
    Applying :=
  let env := (clock s.applied.length).on H
  let r := dispatch env (upper env name) args s.whole
  { buf := remaining
    offset := s.offset + (s.buf.length - remaining.length : ℕ)
    whole := r.2
    applied := s.applied ++ [name :: args]
    failure := match r.1 with
      | .ok _ => none
      | .error f => some f }

/-- The inner loop of `stream_commands`. Every turn but the last eats at least one byte. -/
def Applying.applyLoop : ℕ → Applying → Applying
  | 0, s => s
  | fuel + 1, s =>
    if s.buf = [] ∨ s.failure.isSome then s
    else match parseCommand s.buf with
      | .ok (remaining, name :: args) => applyLoop fuel (s.applyOne H clock name args remaining)
      | .ok (_, []) => s
      | .error .incomplete => s
      | .error _ => { s with buf := [] }

/-- One read, and the inner loop behind it. -/
def Applying.feed (s : Applying) (chunk : Bytes) : Applying :=
  if s.failure.isSome then s
  else applyLoop H clock (s.buf ++ chunk).length { s with buf := s.buf ++ chunk }

/-- `stream_commands`, with what the handshake left in the buffer, over the reads that follow. An
empty read is the end of the connection. -/
def streamCommands (store : Store) (buf : Bytes) (offset : ℤ) (reads : List Bytes) : Applying :=
  (reads.takeWhile (· != [])).foldl (Applying.feed H clock)
    (Applying.applyLoop H clock buf.length { buf, offset, whole := { store, ctx := {} } })

end Loop

variable {H : Host} {clock : ℕ → Moment}

namespace Applying

/-! ### Counting -/

variable (H clock) in
/-- No more bytes are counted than there are in the buffer. -/
theorem applyLoop_offset_le (fuel : ℕ) (s : Applying) :
    (applyLoop H clock fuel s).offset + (applyLoop H clock fuel s).buf.length
      ≤ s.offset + s.buf.length := by
  induction fuel generalizing s with
  | zero => exact le_rfl
  | succ fuel ih =>
    rw [applyLoop]
    split_ifs with hstop
    · exact le_rfl
    · split
      · next remaining name args hparse =>
        have hshort := (consumes_parseCommand hparse).2
        refine (ih _).trans ?_
        rw [applyOne]
        dsimp only
        omega
      · exact le_rfl
      · exact le_rfl
      · show s.offset + (0 : ℕ) ≤ _
        omega

theorem foldl_feed_failed {s : Applying} (h : s.failure.isSome = true) (chunks : List Bytes) :
    chunks.foldl (feed H clock) s = s := by
  induction chunks with
  | nil => rfl
  | cons c chunks ih =>
    rw [List.foldl_cons, feed, if_pos h]
    exact ih

variable (H clock) in
theorem foldl_feed_offset_le (chunks : List Bytes) (s : Applying) :
    (chunks.foldl (feed H clock) s).offset
      ≤ s.offset + (s.buf.length + chunks.flatten.length : ℕ) := by
  induction chunks generalizing s with
  | nil =>
    simp only [List.foldl_nil]
    omega
  | cons c chunks ih =>
    rw [List.foldl_cons, List.flatten_cons, List.length_append]
    by_cases hfail : s.failure.isSome = true
    · have hstay : feed H clock s c = s := if_pos hfail
      rw [hstay, foldl_feed_failed hfail]
      omega
    · have hloop := applyLoop_offset_le H clock (s.buf ++ c).length
        { s with buf := s.buf ++ c }
      have hfeed : feed H clock s c
          = applyLoop H clock (s.buf ++ c).length { s with buf := s.buf ++ c } := if_neg hfail
      rw [← hfeed] at hloop
      have hrest := ih (feed H clock s c)
      simp only [List.length_append] at hloop
      omega

/-! ### Commands in the buffer -/

/-- Where commands that return lead to. -/
def after (s : Applying) (cmds : List (List Bytes)) (rest : Bytes) (w : Whole) : Applying where
  buf := rest
  offset := s.offset + (encodeCommands cmds).length
  whole := w
  applied := s.applied ++ cmds

theorem applyLoop_failed {s : Applying} (h : s.failure.isSome = true) (fuel : ℕ) :
    applyLoop H clock fuel s = s := by
  cases fuel with
  | zero => rfl
  | succ fuel => rw [applyLoop, if_pos (Or.inr h)]

/-- One turn over a whole command. -/
theorem applyLoop_cons {name : Bytes} {args : List Bytes}
    (hlen : (encodeCommandForAof (name :: args)).length < 2 ^ 63) {s : Applying}
    (hs : s.failure = none) {rest : Bytes} (hbuf : s.buf = encodeCommandForAof (name :: args) ++ rest)
    (fuel : ℕ) :
    applyLoop H clock (fuel + 1) s
      = applyLoop H clock fuel (s.applyOne H clock name args rest) := by
  have hstop : ¬(s.buf = [] ∨ s.failure.isSome = true) := by
    rw [hs, hbuf]
    simp [encodeCommandForAof_ne_nil]
  rw [applyLoop, if_neg hstop, hbuf, parseCommand_encodeCommand hlen rest]

theorem after_after (s : Applying) (cmds cmds' : List (List Bytes)) (rest rest' : Bytes)
    (w w' : Whole) :
    (s.after cmds rest w).after cmds' rest' w' = s.after (cmds ++ cmds') rest' w' := by
  simp only [after, encodeCommands_append, List.length_append, List.append_assoc, Nat.cast_add,
    Int.add_assoc]

section One

variable {s : Applying} {name : Bytes} {args : List Bytes} {rest : Bytes} {w : Whole}

theorem applyOne_offset (hbuf : s.buf = encodeCommandForAof (name :: args) ++ rest) :
    (s.applyOne H clock name args rest).offset
      = s.offset + (encodeCommands [name :: args]).length := by
  have hone : encodeCommands [name :: args] = encodeCommandForAof (name :: args) := by
    simp [encodeCommands]
  show s.offset + (s.buf.length - rest.length : ℕ) = _
  rw [hone, hbuf, List.length_append, Nat.add_sub_cancel]

theorem applyOne_ok (hbuf : s.buf = encodeCommandForAof (name :: args) ++ rest) {r : RespValue}
    (hd : dispatch ((clock s.applied.length).on H) (upper ((clock s.applied.length).on H) name) args
      s.whole = (.ok r, w)) :
    s.applyOne H clock name args rest = s.after [name :: args] rest w := by
  have hoffset : (s.applyOne H clock name args rest).offset = _ := applyOne_offset hbuf
  rw [applyOne, hd] at hoffset ⊢
  rw [after, ← hoffset]

end One

variable (H clock) in
/-- **The commands in the buffer.** Either all of them return and the loop goes on with what is
behind them, or it ends with the first one that does not. -/
theorem applyLoop_encoded {cmds : List (List Bytes)} (hne : ∀ c ∈ cmds, c ≠ [])
    (hlen : ∀ c ∈ cmds, (encodeCommandForAof c).length < 2 ^ 63) {rest : Bytes} {s : Applying}
    (hs : s.failure = none) (hbuf : s.buf = encodeCommands cmds ++ rest) {fuel : ℕ}
    (hfuel : s.buf.length ≤ fuel) :
    (∃ fuel' w', rest.length ≤ fuel' ∧
      runCommands H clock s.applied.length cmds s.whole
        = (.ok (s.applied.length + cmds.length), w') ∧
      applyLoop H clock fuel s = applyLoop H clock fuel' (s.after cmds rest w')) ∨
    (∃ ran c todo, cmds = ran ++ c :: todo ∧ Returns H clock s.applied.length ran s.whole ∧
      ¬Returns H clock s.applied.length (ran ++ [c]) s.whole ∧
      (applyLoop H clock fuel s).failure.isSome = true ∧
      (applyLoop H clock fuel s).applied = s.applied ++ (ran ++ [c]) ∧
      (applyLoop H clock fuel s).offset = s.offset + (encodeCommands (ran ++ [c])).length ∧
      ∃ e, runCommands H clock s.applied.length (ran ++ [c]) s.whole
        = (.error e, (applyLoop H clock fuel s).whole)) := by
  induction cmds generalizing s fuel with
  | nil =>
    refine Or.inl ⟨fuel, s.whole, ?_, rfl, congrArg (applyLoop H clock fuel) ?_⟩
    · rw [hbuf] at hfuel
      exact hfuel
    · obtain ⟨buf, offset, whole, applied, failure⟩ := s
      obtain rfl : buf = rest := hbuf
      obtain rfl : failure = none := hs
      simp [after, encodeCommands]
  | cons c cmds ih =>
    obtain ⟨name, args, rfl⟩ := List.exists_cons_of_ne_nil (hne c List.mem_cons_self)
    have hbuf' : s.buf = encodeCommandForAof (name :: args) ++ (encodeCommands cmds ++ rest) := by
      rw [hbuf, encodeCommands, List.flatMap_cons, List.append_assoc]
      rfl
    have hpos := List.length_pos_iff.mpr (encodeCommandForAof_ne_nil (name :: args))
    have hsize : (encodeCommands cmds ++ rest).length < s.buf.length := by
      rw [hbuf', @List.length_append _ (encodeCommandForAof (name :: args))]
      omega
    obtain ⟨fuel, rfl⟩ : ∃ f, fuel = f + 1 := ⟨fuel - 1, by omega⟩
    rw [applyLoop_cons (hlen _ List.mem_cons_self) hs hbuf']
    rcases hd : dispatch ((clock s.applied.length).on H)
      (upper ((clock s.applied.length).on H) name) args s.whole with ⟨f | r, w₁⟩
    · -- the loop ends with this one
      have hfail : (s.applyOne H clock name args (encodeCommands cmds ++ rest)).failure.isSome
          = true := by
        rw [applyOne, hd]
        rfl
      refine Or.inr ⟨[], name :: args, cmds, rfl, rfl, ?_, ?_⟩
      · rw [Returns, List.nil_append, runCommands, Proc.bind_error hd]
        exact fun h => by cases h
      · rw [applyLoop_failed hfail]
        refine ⟨hfail, rfl, applyOne_offset hbuf', f, ?_⟩
        rw [List.nil_append, runCommands, Proc.bind_error hd, applyOne, hd]
    · have hone : runCommands H clock s.applied.length [name :: args] s.whole
          = (.ok (s.applied.length + [name :: args].length), w₁) := by
        rw [runCommands, Proc.bind_ok hd]
        rfl
      have hcount : (s.after [name :: args] (encodeCommands cmds ++ rest) w₁).applied.length
          = s.applied.length + [name :: args].length := List.length_append
      rw [applyOne_ok hbuf' hd]
      have hnext := @ih (fun c hc => hne c (List.mem_cons_of_mem _ hc))
        (fun c hc => hlen c (List.mem_cons_of_mem _ hc))
        (s.after [name :: args] (encodeCommands cmds ++ rest) w₁) rfl rfl fuel
        (Nat.le_of_lt_succ (hsize.trans_le hfuel))
      rw [hcount] at hnext
      rcases hnext with ⟨fuel', w', hfuel', hok, hloop⟩ | ⟨ran, c, todo, rfl, hran, hnot, hend⟩
      · refine Or.inl ⟨fuel', w', hfuel', ?_, ?_⟩
        · rw [← List.singleton_append, runCommands_append hone, List.length_append, ← Nat.add_assoc]
          exact hok
        · rw [hloop, after_after, List.singleton_append]
      · obtain ⟨hfail, happlied, hoffset, e, herror⟩ := hend
        refine Or.inr ⟨(name :: args) :: ran, c, todo, rfl, ?_, ?_, hfail, ?_, ?_, e, ?_⟩
        · rw [← List.singleton_append, returns_append hone]
          exact hran
        · rw [← List.singleton_append, List.append_assoc, returns_append hone]
          exact hnot
        · rw [happlied, after]
          simp only [List.append_assoc, List.cons_append, List.nil_append]
        · have hsplit : encodeCommands ((name :: args) :: ran ++ [c])
              = encodeCommands [name :: args] ++ encodeCommands (ran ++ [c]) :=
            encodeCommands_append [name :: args] (ran ++ [c])
          rw [hoffset, hsplit, List.length_append, Nat.cast_add, ← Int.add_assoc]
          rfl
        · rw [List.cons_append, ← List.singleton_append, runCommands_append hone]
          exact herror

/-! ### The stream -/

/-- Everything was dispatched and counted. -/
def AppliedAll (s s' : Applying) (cmds : List (List Bytes)) : Prop :=
  s'.applied = s.applied ++ cmds ∧ s'.offset = s.offset + (encodeCommands cmds).length

/-- Between two reads, with nothing in the buffer. -/
structure Waiting (s : Applying) : Prop where
  buf : s.buf = []
  failure : s.failure = none

theorem Waiting.feed {s : Applying} (h : s.Waiting) (c : Bytes) :
    s.feed H clock c = applyLoop H clock c.length { s with buf := c } := by
  rw [Applying.feed, h.failure, h.buf]
  rfl

variable (H clock) in
/-- A read of whole commands. -/
theorem feed_whole {s : Applying} (hs : s.Waiting) {done : List (List Bytes)}
    (hne : ∀ c ∈ done, c ≠ []) (hlen : ∀ c ∈ done, (encodeCommandForAof c).length < 2 ^ 63) :
    (∃ w', runCommands H clock s.applied.length done s.whole
        = (.ok (s.applied.length + done.length), w') ∧
      s.feed H clock (encodeCommands done) = s.after done [] w') ∨
    (∃ ran c todo, done = ran ++ c :: todo ∧ Returns H clock s.applied.length ran s.whole ∧
      ¬Returns H clock s.applied.length (ran ++ [c]) s.whole ∧
      (s.feed H clock (encodeCommands done)).failure.isSome = true ∧
      AppliedAll s (s.feed H clock (encodeCommands done)) (ran ++ [c]) ∧
      ∃ e, runCommands H clock s.applied.length (ran ++ [c]) s.whole
        = (.error e, (s.feed H clock (encodeCommands done)).whole)) := by
  rw [hs.feed]
  rcases applyLoop_encoded H clock hne hlen
    (s := { s with buf := encodeCommands done }) hs.failure (List.append_nil _).symm le_rfl
    with ⟨fuel, w', -, hrun, hloop⟩ | ⟨ran, c, todo, hdone, hran, hnot, hfail, happ, hoff, herr⟩
  · refine Or.inl ⟨w', hrun, hloop.trans ?_⟩
    cases fuel with
    | zero => rfl
    | succ fuel => exact if_pos (Or.inl rfl)
  · exact Or.inr ⟨ran, c, todo, hdone, hran, hnot, hfail, ⟨happ, hoff⟩, herr⟩

variable (H clock) in
/-- A read that ends inside a command counts none of that command. -/
theorem feed_cut {s : Applying} (hs : s.Waiting) {done : List (List Bytes)}
    (hne : ∀ c ∈ done, c ≠ []) (hlen : ∀ c ∈ done, (encodeCommandForAof c).length < 2 ^ 63)
    {p : Bytes} (hne' : p ≠ []) (hp : parseCommand p = .error .error) :
    let s' := s.feed H clock (encodeCommands done ++ p)
    s'.offset ≤ s.offset + (encodeCommands done).length ∧
      (s'.failure.isSome = true ∨ s'.buf = []) := by
  intro s'
  have hs' : s' = _ := hs.feed _
  rcases applyLoop_encoded H clock hne hlen
    (s := { s with buf := encodeCommands done ++ p }) hs.failure rfl le_rfl
    with ⟨fuel, w', hfuel, -, hloop⟩ | ⟨ran, c, todo, rfl, -, -, hfail, -, hoffset, -⟩
  · have hpos := List.length_pos_iff.mpr hne'
    obtain ⟨fuel, rfl⟩ : ∃ f, fuel = f + 1 := ⟨fuel - 1, by omega⟩
    have hclear : s' = s.after done [] w' := by
      rw [hs', hloop, applyLoop, if_neg (by simp [after, hne'])]
      show (match parseCommand p with
        | .ok (remaining, name :: args) => _
        | .ok (_, []) => _
        | .error .incomplete => _
        | .error _ => _) = _
      rw [hp]
      rfl
    rw [hclear]
    exact ⟨le_rfl, Or.inr rfl⟩
  · rw [hs']
    refine ⟨?_, Or.inl hfail⟩
    rw [hoffset, List.append_cons, encodeCommands_append (ran ++ [c]), List.length_append]
    show s.offset + _ ≤ s.offset + _
    omega

theorem appliedAll_append {s s' : Applying} {done todo : List (List Bytes)} (rest : Bytes)
    (w : Whole) : AppliedAll (s.after done rest w) s' todo ↔ AppliedAll s s' (done ++ todo) := by
  rw [AppliedAll, AppliedAll, after, List.append_assoc, encodeCommands_append, List.length_append,
    Nat.cast_add, Int.add_assoc]

theorem aligned_nil {chunks : List Bytes} (h : chunks.flatten = []) : Aligned [] chunks := by
  refine ⟨chunks.map fun _ => [], by simp, ?_⟩
  rw [List.map_map]
  exact (List.map_congr_left fun c hc => (List.flatten_eq_nil_iff.mp h c hc).symm).trans
    (List.map_id chunks)

theorem returns_dropLast_append {n : ℕ} {done todo : List (List Bytes)} {w w' : Whole}
    (h : runCommands H clock n done w = (.ok (n + done.length), w')) :
    Returns H clock n (done ++ todo).dropLast w ↔
      Returns H clock (n + done.length) todo.dropLast w' := by
  rcases List.eq_nil_or_concat todo with rfl | ⟨todo, c, rfl⟩
  · have hdone : Returns H clock n done w := congrArg Prod.fst h
    rw [List.append_nil]
    exact ⟨fun _ => rfl, fun _ => hdone.dropLast⟩
  · rw [List.concat_eq_append, ← List.append_assoc, List.dropLast_concat, List.dropLast_concat]
    exact returns_append h

/-- **The reads one after the other.** -/
theorem foldl_feed_iff {chunks : List Bytes} {cmds : List (List Bytes)} (hne : ∀ c ∈ cmds, c ≠ [])
    (hlen : ∀ c ∈ cmds, (encodeCommandForAof c).length < 2 ^ 63)
    (hflat : chunks.flatten = encodeCommands cmds) {s : Applying} (hs : s.Waiting) :
    AppliedAll s (chunks.foldl (feed H clock) s) cmds ↔
      Aligned cmds chunks ∧ Returns H clock s.applied.length cmds.dropLast s.whole := by
  induction chunks generalizing cmds s with
  | nil =>
    obtain rfl := eq_nil_of_encodeCommands hflat.symm
    refine ⟨fun _ => ⟨⟨[], rfl, rfl⟩, rfl⟩, fun _ => ⟨(List.append_nil _).symm, ?_⟩⟩
    exact (Int.add_zero _).symm
  | cons c cs ih =>
    rw [List.flatten_cons] at hflat
    obtain ⟨done, todo, p, rfl, rfl, hend⟩ := split_encodeCommands hflat
    have hne_done : ∀ c ∈ done, c ≠ [] := fun c hc => hne c (List.mem_append_left _ hc)
    have hlen_done : ∀ c ∈ done, (encodeCommandForAof c).length < 2 ^ 63 :=
      fun c hc => hlen c (List.mem_append_left _ hc)
    rw [List.foldl_cons]
    rcases hend with ⟨rfl, hrest⟩ | ⟨cmd, todo, x, rfl, hp, hx, hcut⟩
    · rw [List.append_nil, aligned_cons]
      rcases feed_whole H clock hs hne_done hlen_done with
        ⟨w', hrun, hfeed⟩ | ⟨ran, c, todo', rfl, hran, hnot, hfail, happlied, -⟩
      · rw [hfeed, ← appliedAll_append [] w', returns_dropLast_append hrun,
          ih (fun c hc => hne c (List.mem_append_right _ hc))
            (fun c hc => hlen c (List.mem_append_right _ hc)) hrest ⟨rfl, rfl⟩]
        rw [after, List.length_append]
      · -- the task has ended: with the last command, or too early
        have hsplit : ran ++ c :: todo' ++ todo = (ran ++ [c]) ++ (todo' ++ todo) := by simp
        rw [foldl_feed_failed hfail, hsplit]
        cases hmore : todo' ++ todo with
        | nil =>
          obtain ⟨rfl, rfl⟩ := List.append_eq_nil_iff.mp hmore
          simp only [List.append_nil, List.dropLast_concat]
          exact ⟨fun _ => ⟨aligned_nil hrest, hran⟩, fun _ => happlied⟩
        | cons c' more =>
          refine ⟨fun h => ?_, fun h => ?_⟩
          · have happ := List.append_cancel_left (happlied.1.symm.trans h.1)
            exact absurd (List.self_eq_append_right.mp happ) (List.cons_ne_nil c' more)
          · rw [List.dropLast_append_of_ne_nil (List.cons_ne_nil c' more)] at h
            exact absurd h.2.front hnot
    · refine ⟨fun h => ?_, fun h => absurd h.1 (not_aligned_cut hp hx hcut cs)⟩
      have hbad := parseCommand_cut (hlen cmd (by simp)) hcut hx
      obtain ⟨hoffset, hstate⟩ := feed_cut H clock hs hne_done hlen_done hp hbad
      have hpos := List.length_pos_iff.mpr hp
      have htotal := congrArg List.length hflat
      simp only [List.length_append] at htotal
      have hshort : (cs.foldl (feed H clock) (feed H clock s (encodeCommands done ++ p))).offset
          ≤ s.offset + ((encodeCommands done).length + cs.flatten.length : ℕ) := by
        rcases hstate with hfail | hbuf
        · rw [foldl_feed_failed hfail]
          omega
        · have hle := foldl_feed_offset_le H clock cs
            (feed H clock s (encodeCommands done ++ p))
          rw [hbuf, List.length_nil] at hle
          omega
      have hall := h.2
      omega

variable (H clock) in
/-- **Reads of whole commands** run the commands. -/
theorem foldl_feed_groups {groups : List (List (List Bytes))} (hne : ∀ c ∈ groups.flatten, c ≠ [])
    (hlen : ∀ c ∈ groups.flatten, (encodeCommandForAof c).length < 2 ^ 63) {s : Applying}
    (hs : s.Waiting) :
    let s' := (groups.map encodeCommands).foldl (feed H clock) s
    let r := runCommands H clock s.applied.length groups.flatten s.whole
    s'.whole = r.2 ∧ (s'.failure = none ↔ r.1 = .ok (s.applied.length + groups.flatten.length)) := by
  induction groups generalizing s with
  | nil => exact ⟨rfl, fun _ => rfl, fun _ => hs.failure⟩
  | cons g gs ih =>
    rw [List.flatten_cons] at hne hlen
    rw [List.map_cons, List.foldl_cons, List.flatten_cons]
    rcases feed_whole H clock hs (fun c hc => hne c (List.mem_append_left _ hc))
      (fun c hc => hlen c (List.mem_append_left _ hc)) with
      ⟨w', hrun, hfeed⟩ | ⟨ran, c, todo, rfl, -, -, hfail, -, e, herror⟩
    · have hrest := ih (fun c hc => hne c (List.mem_append_right _ hc))
        (fun c hc => hlen c (List.mem_append_right _ hc)) (s := s.after g [] w') ⟨rfl, rfl⟩
      have hcount : (s.after g [] w').applied.length = s.applied.length + g.length :=
        List.length_append
      rw [hcount] at hrest
      rw [hfeed, runCommands_append hrun, List.length_append, ← Nat.add_assoc]
      exact hrest
    · have hsplit : ran ++ c :: todo ++ gs.flatten = (ran ++ [c]) ++ (todo ++ gs.flatten) := by simp
      rw [foldl_feed_failed hfail, hsplit, runCommands_append_error herror]
      refine ⟨rfl, fun hnone => ?_, fun hok => nomatch hok⟩
      rw [hnone] at hfail
      cases hfail

end Applying

/-- **The stream.** Its commands are dispatched in order and its bytes are counted, all of them,
exactly when every read ends where a command ends and no command but the last fails to return. -/
theorem streamCommands_applies_iff {cmds : List (List Bytes)} (hne : ∀ c ∈ cmds, c ≠ [])
    (hlen : (encodeCommands cmds).length < 2 ^ 63) {buf : Bytes} {reads : List Bytes}
    (hreads : ∀ c ∈ reads, c ≠ []) (hbytes : buf ++ reads.flatten = encodeCommands cmds)
    (store : Store) (offset : ℤ) :
    let s := streamCommands H clock store buf offset reads
    (s.applied = cmds ∧ s.offset = offset + (encodeCommands cmds).length) ↔
      Aligned cmds (buf :: reads) ∧ Returns H clock 0 cmds.dropLast { store, ctx := {} } := by
  have hopen : reads.takeWhile (· != []) = reads :=
    List.takeWhile_eq_self_iff.mpr fun c hc => bne_iff_ne.mpr (hreads c hc)
  have hflat : (buf :: reads).flatten = encodeCommands cmds := hbytes
  rw [streamCommands, hopen]
  exact Applying.foldl_feed_iff hne
    (fun c hc => (length_le_of_mem_encodeCommands hc).trans_lt hlen) hflat
    (s := { buf := [], offset, whole := { store, ctx := {} } }) ⟨rfl, rfl⟩

/-- **A stream that is read command by command** is run. -/
theorem streamCommands_aligned {cmds : List (List Bytes)} (hne : ∀ c ∈ cmds, c ≠ [])
    (hlen : ∀ c ∈ cmds, (encodeCommandForAof c).length < 2 ^ 63) {buf : Bytes} {reads : List Bytes}
    (hreads : ∀ c ∈ reads, c ≠ []) (h : Aligned cmds (buf :: reads)) (store : Store) (offset : ℤ) :
    let s := streamCommands H clock store buf offset reads
    s.whole = (runCommands H clock 0 cmds { store, ctx := {} }).2 ∧
      (s.failure = none ↔ Returns H clock 0 cmds { store, ctx := {} }) := by
  have hopen : reads.takeWhile (· != []) = reads :=
    List.takeWhile_eq_self_iff.mpr fun c hc => bne_iff_ne.mpr (hreads c hc)
  obtain ⟨groups, rfl, hgroups⟩ := h
  have hrun := Applying.foldl_feed_groups H clock hne hlen
    (s := { buf := [], offset, whole := { store, ctx := {} } }) ⟨rfl, rfl⟩
  rw [hgroups] at hrun
  rw [streamCommands, hopen]
  exact hrun

/-- Two commands in two reads. -/
theorem streamCommands_applies_two :
    let cmds := [setCommand [107] [118], setCommand [107] [119]]
    let s := streamCommands Host.plain (fun _ => ⟨0, 0, 0, 0⟩) (Store.new 1) [] 100
      (cmds.map encodeCommandForAof)
    s.applied = cmds ∧ s.offset = 100 + (encodeCommands cmds).length := by
  intro cmds s
  have haligned : Aligned cmds ([] :: cmds.map encodeCommandForAof) :=
    ⟨[] :: cmds.map fun c => [c], by decide +kernel, by decide +kernel⟩
  have hreturns : Returns Host.plain (fun _ => ⟨0, 0, 0, 0⟩) 0 cmds.dropLast
      { store := Store.new 1, ctx := {} } := by
    rw [Returns]
    decide +kernel
  exact (streamCommands_applies_iff (by decide +kernel) (by decide +kernel) (by decide +kernel)
    (by decide +kernel) (Store.new 1) 100).mpr ⟨haligned, hreturns⟩

/-- One command in two reads: its first part does not parse and is thrown away, its second part is
no command. -/
theorem streamCommands_drops_cut :
    let cmds := [setCommand [107] [118]]
    let reads := [(encodeCommands cmds).take 20, (encodeCommands cmds).drop 20]
    let s := streamCommands Host.plain (fun _ => ⟨0, 0, 0, 0⟩) (Store.new 1) [] 100 reads
    reads = [asBytes "*3\r\n$3\r\nSET\r\n$1\r\nk\r\n", asBytes "$1\r\nv\r\n"] ∧
      reads.flatten = encodeCommands cmds ∧ s.applied = [] ∧ s.offset = 100 ∧
      ¬(s.applied = cmds ∧ s.offset = 100 + (encodeCommands cmds).length) := by
  decide +kernel

end VeloDB
