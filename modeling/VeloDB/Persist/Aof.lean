import VeloDB.Resp.Serializer
import VeloDB.Cmd.Table

/-!
# The append-only file

The log is a sequence of commands, each an array of bulk strings. Replaying it parses one command
after the other and dispatches it from a fresh context; the loop stops at the first thing that is
not a command. A rewritten log has one constructing command for each key, or one for each entry of a
stream and each subfield of a nested hash.

## Main results

* `parseCommand_encodeCommand` — a logged command is read back
* `parseCommand_cut` — a command that is cut off does not parse
* `replay_encoded` — replaying a log runs its commands
* `replayAof_torn` — replaying a log that is cut off
-/

namespace VeloDB

open Rust Nom

/-! ### Commands as bytes -/

/-- The arguments of a command, one bulk string each. -/
def encodeArgs (args : List Bytes) : Bytes := args.flatMap bulkFrame

/-- `encode_command_for_aof`. -/
def encodeCommandForAof (args : List Bytes) : Bytes :=
  42 :: asBytes (toString args.length) ++ crlfBytes ++ encodeArgs args

theorem length_le_encodeArgs (args : List Bytes) : args.length ≤ (encodeArgs args).length := by
  induction args with
  | nil => exact Nat.zero_le _
  | cons a args ih =>
    rw [encodeArgs, List.flatMap_cons, List.length_append, ← encodeArgs, List.length_cons]
    have hframe : 0 < (bulkFrame a).length := by simp [bulkFrame]
    omega

theorem manyLoop_encodeArgs (args : List Bytes) (hlen : (encodeArgs args).length < 2 ^ 63)
    (min count : ℕ) (r : Bytes) :
    manyLoop respValue min args.length count (encodeArgs args ++ r)
      = .ok (r, args.map RespValue.bulk) := by
  induction args generalizing count with
  | nil => rfl
  | cons a args ih =>
    have hsplit : encodeArgs (a :: args) = bulkFrame a ++ encodeArgs args := rfl
    rw [hsplit, List.length_append] at hlen
    have hle := length_le_bulkFrame a
    rw [hsplit, List.append_assoc, List.length_cons]
    exact manyLoop_cons (by simp [bulkFrame]) (respValue_bulkFrame (by omega) _)
      (ih (by omega) (count + 1))

/-- **A logged command is read back.** -/
theorem parseCommand_encodeCommand {args : List Bytes}
    (hlen : (encodeCommandForAof args).length < 2 ^ 63) (r : Bytes) :
    parseCommand (encodeCommandForAof args ++ r) = .ok (r, args) := by
  rw [encodeCommandForAof, List.length_append] at hlen
  have hle := length_le_encodeArgs args
  have harray := array_of_items (n := args.length) (by omega)
    (manyLoop_encodeArgs args (by omega) args.length 0 r)
  have hvalue : respValue (encodeCommandForAof args ++ r)
      = .ok (r, .array (some (args.map RespValue.bulk))) := by
    refine respValue_of_branch (q := (42, array respValue)) (by simp [respBranches]) rfl ?_
    simpa [encodeCommandForAof, crlfBytes] using harray
  have hargs : commandArgs (.array (some (args.map RespValue.bulk))) = args := by
    rw [commandArgs, List.filterMap_map]
    exact List.filterMap_some
  rw [parseCommand_eq, hvalue]
  exact congrArg (fun a => Except.ok (r, a)) hargs

theorem encodeCommandForAof_ne_nil (args : List Bytes) : encodeCommandForAof args ≠ [] := by
  simp [encodeCommandForAof]

/-! ### Cutting a sequence of commands -/

/-- The encodings of commands, one after the other. -/
def encodeCommands (cmds : List (List Bytes)) : Bytes := cmds.flatMap encodeCommandForAof

/-- `SET k v`. -/
def setCommand (k v : Bytes) : List Bytes := [asBytes "SET", k, v]

/-- **A command that is cut off does not parse.** -/
theorem parseCommand_cut {cmd : List Bytes} (hlen : (encodeCommandForAof cmd).length < 2 ^ 63)
    {p x : Bytes} (hcut : p ++ x = encodeCommandForAof cmd) (hx : x ≠ []) :
    parseCommand p = .error .error := by
  cases hp : parseCommand p with
  | error e => rw [complete_parseCommand hp]
  | ok ra =>
    -- what follows it would then stay behind the command
    have hmore := stable_parseCommand hp x
    have hwhole := parseCommand_encodeCommand hlen []
    rw [List.append_nil, ← hcut] at hwhole
    rw [hwhole] at hmore
    have hrest : [] = ra.1 ++ x := congrArg Prod.fst (Except.ok.inj hmore)
    exact absurd (List.append_eq_nil_iff.mp hrest.symm).2 hx

theorem length_le_encodeCommands (cmds : List (List Bytes)) :
    cmds.length ≤ (encodeCommands cmds).length := by
  induction cmds with
  | nil => exact Nat.zero_le _
  | cons c cmds ih =>
    have hc := List.length_pos_iff.mpr (encodeCommandForAof_ne_nil c)
    rw [encodeCommands, List.flatMap_cons, List.length_append, ← encodeCommands, List.length_cons]
    omega

/-- The first part of the input: some whole commands, and then at most the beginning of one. -/
theorem split_encodeCommands {cmds : List (List Bytes)} {c rest : Bytes}
    (h : c ++ rest = encodeCommands cmds) :
    ∃ done todo p, cmds = done ++ todo ∧ c = encodeCommands done ++ p ∧
      (p = [] ∧ rest = encodeCommands todo ∨
        ∃ cmd todo' x, todo = cmd :: todo' ∧ p ≠ [] ∧ x ≠ [] ∧
          p ++ x = encodeCommandForAof cmd) := by
  induction cmds generalizing c with
  | nil =>
    obtain ⟨rfl, rfl⟩ := List.append_eq_nil_iff.mp h
    exact ⟨[], [], [], rfl, rfl, Or.inl ⟨rfl, rfl⟩⟩
  | cons cmd cmds ih =>
    have hcons : encodeCommands (cmd :: cmds) = encodeCommandForAof cmd ++ encodeCommands cmds := rfl
    rw [hcons] at h
    rcases List.append_eq_append_iff.mp h with ⟨x, hcmd, hrest⟩ | ⟨c', hc, hrest⟩
    · by_cases hx : x = []
      · subst hx
        rw [List.append_nil] at hcmd
        refine ⟨[cmd], cmds, [], rfl, ?_, Or.inl ⟨rfl, hrest⟩⟩
        rw [← hcmd]
        simp [encodeCommands]
      · by_cases hc : c = []
        · subst hc
          exact ⟨[], cmd :: cmds, [], rfl, rfl, Or.inl ⟨rfl, h⟩⟩
        · exact ⟨[], cmd :: cmds, c, rfl, rfl, Or.inr ⟨cmd, cmds, x, rfl, hc, hx, hcmd.symm⟩⟩
    · obtain ⟨done, todo, p, rfl, rfl, hend⟩ := ih hrest.symm
      refine ⟨cmd :: done, todo, p, rfl, ?_, hend⟩
      rw [hc, ← List.append_assoc]
      rfl

theorem encodeCommands_append (cmds cmds' : List (List Bytes)) :
    encodeCommands (cmds ++ cmds') = encodeCommands cmds ++ encodeCommands cmds' :=
  List.flatMap_append

theorem eq_nil_of_encodeCommands {cmds : List (List Bytes)} (h : encodeCommands cmds = []) :
    cmds = [] := by
  have hle := length_le_encodeCommands cmds
  rw [h] at hle
  exact List.length_eq_zero_iff.mp (Nat.le_zero.mp hle)

/-- The reads are the encodings of consecutive groups of commands. -/
def Aligned (cmds : List (List Bytes)) (chunks : List Bytes) : Prop :=
  ∃ groups : List (List (List Bytes)), groups.flatten = cmds ∧ groups.map encodeCommands = chunks

theorem aligned_cons {done todo : List (List Bytes)} {cs : List Bytes} :
    Aligned (done ++ todo) (encodeCommands done :: cs) ↔ Aligned todo cs := by
  constructor
  · rintro ⟨groups, hflat, hmap⟩
    obtain ⟨g, gs, rfl, hg, rfl⟩ := List.map_eq_cons_iff.mp hmap
    rw [List.flatten_cons] at hflat
    rcases List.append_eq_append_iff.mp hflat with ⟨x, rfl, hgs⟩ | ⟨x, rfl, htodo⟩
    · rw [encodeCommands_append] at hg
      obtain rfl := eq_nil_of_encodeCommands (List.self_eq_append_right.mp hg)
      exact ⟨gs, hgs, rfl⟩
    · rw [encodeCommands_append] at hg
      obtain rfl := eq_nil_of_encodeCommands (List.self_eq_append_right.mp hg.symm)
      exact ⟨gs, htodo.symm, rfl⟩
  · rintro ⟨groups, rfl, rfl⟩
    exact ⟨done :: groups, rfl, rfl⟩

/-- A read that ends inside a command is not aligned. -/
theorem not_aligned_cut {done todo : List (List Bytes)} {cmd : List Bytes} {p x : Bytes}
    (hp : p ≠ []) (hx : x ≠ []) (hcut : p ++ x = encodeCommandForAof cmd) (cs : List Bytes) :
    ¬Aligned (done ++ cmd :: todo) ((encodeCommands done ++ p) :: cs) := by
  rintro ⟨groups, hflat, hmap⟩
  obtain ⟨g, gs, rfl, hg, rfl⟩ := List.map_eq_cons_iff.mp hmap
  rw [List.flatten_cons] at hflat
  rcases List.append_eq_append_iff.mp hflat with ⟨y, rfl, -⟩ | ⟨y, rfl, hy⟩
  · -- the group would be shorter than the whole commands of the read
    rw [encodeCommands_append, List.append_assoc] at hg
    exact hp (List.append_eq_nil_iff.mp (List.self_eq_append_right.mp hg)).2
  · rw [encodeCommands_append] at hg
    have hyp : encodeCommands y = p := List.append_cancel_left hg
    cases y with
    | nil => exact hp hyp.symm
    | cons cmd' y =>
      -- it would hold the whole command that is cut
      obtain ⟨rfl, -⟩ := List.cons.inj (hy.trans rfl)
      have hlong : encodeCommands (cmd :: y) = encodeCommandForAof cmd ++ encodeCommands y := rfl
      rw [hlong, ← hcut, List.append_assoc] at hyp
      exact hx (List.append_eq_nil_iff.mp (List.self_eq_append_right.mp hyp.symm)).1

/-! ### Replaying -/

section Replay

variable (H : Host) (clock : ℕ → Moment)

/-- The loop of `replay_aof`; `n` commands have been replayed before. Every command eats at least
one byte, so the length of the buffer is fuel enough. -/
def replayLoop : (fuel n : ℕ) → Bytes → WholeM ℕ
  | 0, n, _ => pure n
  | fuel + 1, n, buf =>
    if buf = [] then pure n
    else match parseCommand buf with
      | .ok (remaining, name :: args) => do
        let env := (clock n).on H
        let _ ← dispatch env (upper env name) args
        replayLoop fuel (n + 1) remaining
      -- an empty command, and what the parser refuses
      | _ => pure n

/-- `replay_aof`: the number of commands replayed. -/
def replayAof (data : Bytes) : WholeM ℕ := replayLoop H clock data.length 0 data

/-- Run commands one after the other; `n` commands have been run before. -/
def runCommands : (n : ℕ) → List (List Bytes) → WholeM ℕ
  | n, [] => pure n
  | n, [] :: _ => pure n
  | n, (name :: args) :: cmds => do
    let env := (clock n).on H
    let _ ← dispatch env (upper env name) args
    runCommands (n + 1) cmds

/-- All of the commands return; one that panics or hangs ends the run. -/
def Returns (n : ℕ) (cmds : List (List Bytes)) (w : Whole) : Prop :=
  (runCommands H clock n cmds w).1 = .ok (n + cmds.length)

variable {H clock}

/-- Commands that all run hand over to what is behind them. -/
theorem runCommands_append {n : ℕ} {cmds : List (List Bytes)} {w w' : Whole}
    (h : runCommands H clock n cmds w = (.ok (n + cmds.length), w')) (cmds' : List (List Bytes)) :
    runCommands H clock n (cmds ++ cmds') w = runCommands H clock (n + cmds.length) cmds' w' := by
  induction cmds generalizing n w with
  | nil =>
    obtain ⟨-, rfl⟩ := Prod.mk.inj h
    rfl
  | cons c cmds ih =>
    cases c with
    | nil =>
      -- the loop stops here, one command short
      obtain ⟨hcount, -⟩ := Prod.mk.inj h
      have : n = n + (cmds.length + 1) := Except.ok.inj hcount
      omega
    | cons name args =>
      rw [runCommands] at h
      rw [List.cons_append, runCommands]
      rcases hd : dispatch ((clock n).on H) (upper ((clock n).on H) name) args w with ⟨e | r, w₁⟩
      · rw [Proc.bind_error hd] at h
        cases h
      · rw [Proc.bind_ok hd] at h ⊢
        have hlen : n + (cmds.length + 1) = n + 1 + cmds.length := by omega
        rw [List.length_cons, hlen] at h ⊢
        exact ih h

theorem Returns.run {n : ℕ} {cmds : List (List Bytes)} {w : Whole} (h : Returns H clock n cmds w) :
    runCommands H clock n cmds w
      = (.ok (n + cmds.length), (runCommands H clock n cmds w).2) := Prod.ext h rfl

/-- A command that does not return ends the run, whatever is behind it. -/
theorem runCommands_append_error {n : ℕ} {cmds : List (List Bytes)} {w w' : Whole} {e : Failure}
    (h : runCommands H clock n cmds w = (.error e, w')) (cmds' : List (List Bytes)) :
    runCommands H clock n (cmds ++ cmds') w = (.error e, w') := by
  induction cmds generalizing n w with
  | nil => cases h
  | cons c cmds ih =>
    cases c with
    | nil => cases h
    | cons name args =>
      rw [runCommands] at h
      rw [List.cons_append, runCommands]
      rcases hd : dispatch ((clock n).on H) (upper ((clock n).on H) name) args w with ⟨e | r, w₁⟩
      · rw [Proc.bind_error hd] at h ⊢
        exact h
      · rw [Proc.bind_ok hd] at h ⊢
        exact ih h

/-- Only the moments at which the commands are run matter. -/
theorem runCommands_clock {clock' : ℕ → Moment} {cmds : List (List Bytes)} {n k : ℕ}
    (h : ∀ j < cmds.length, clock (n + j) = clock' (k + j)) (w : Whole) :
    (runCommands H clock n cmds w).2 = (runCommands H clock' k cmds w).2 ∧
      (Returns H clock n cmds w ↔ Returns H clock' k cmds w) := by
  induction cmds generalizing n k w with
  | nil => exact ⟨rfl, fun _ => rfl, fun _ => rfl⟩
  | cons c cmds ih =>
    cases c with
    | nil =>
      refine ⟨rfl, fun hn => ?_, fun hk => ?_⟩
      · exact absurd (Except.ok.inj hn) (Nat.ne_of_lt (Nat.lt_add_of_pos_right (Nat.succ_pos _)))
      · exact absurd (Except.ok.inj hk) (Nat.ne_of_lt (Nat.lt_add_of_pos_right (Nat.succ_pos _)))
    | cons name args =>
      have h₀ : clock n = clock' k := h 0 (Nat.zero_lt_succ _)
      have hrest : ∀ j < cmds.length, clock (n + 1 + j) = clock' (k + 1 + j) := by
        intro j hj
        rw [Nat.add_right_comm, Nat.add_right_comm k]
        exact h (j + 1) (Nat.succ_lt_succ hj)
      have hlen : ∀ m, m + (cmds.length + 1) = m + 1 + cmds.length := by omega
      rw [Returns, Returns, runCommands, runCommands, ← h₀, List.length_cons, hlen n, hlen k]
      rcases hd : dispatch ((clock n).on H) (upper ((clock n).on H) name) args w with ⟨e | r, w₁⟩
      · rw [Proc.bind_error hd, Proc.bind_error hd]
        exact ⟨rfl, fun h => (nomatch h), fun h => (nomatch h)⟩
      · rw [Proc.bind_ok hd, Proc.bind_ok hd]
        exact ih hrest w₁

/-- What is in front of commands that return returns. -/
theorem Returns.front {n : ℕ} {cmds cmds' : List (List Bytes)} {w : Whole}
    (h : Returns H clock n (cmds ++ cmds') w) : Returns H clock n cmds w := by
  induction cmds generalizing n w with
  | nil => rfl
  | cons c cmds ih =>
    rw [Returns, List.cons_append] at h
    rw [Returns]
    cases c with
    | nil =>
      have hcount : n = n + (cmds ++ cmds').length.succ := Except.ok.inj h
      omega
    | cons name args =>
      rw [runCommands] at h ⊢
      rcases hd : dispatch ((clock n).on H) (upper ((clock n).on H) name) args w with ⟨e | r, w₁⟩
      · rw [Proc.bind_error hd] at h
        cases h
      · rw [Proc.bind_ok hd] at h ⊢
        have hlen : ∀ m, n + (m + 1) = n + 1 + m := by omega
        rw [List.length_cons, hlen (cmds ++ cmds').length] at h
        rw [List.length_cons, hlen cmds.length]
        exact ih h

theorem Returns.dropLast {n : ℕ} {cmds : List (List Bytes)} {w : Whole}
    (h : Returns H clock n cmds w) : Returns H clock n cmds.dropLast w := by
  rcases List.eq_nil_or_concat cmds with rfl | ⟨front, c, rfl⟩
  · exact h
  · rw [List.concat_eq_append] at h ⊢
    rw [List.dropLast_concat]
    exact h.front

/-- Commands return when they do so one part after the other. -/
theorem returns_append {n : ℕ} {cmds cmds' : List (List Bytes)} {w w' : Whole}
    (h : runCommands H clock n cmds w = (.ok (n + cmds.length), w')) :
    Returns H clock n (cmds ++ cmds') w ↔ Returns H clock (n + cmds.length) cmds' w' := by
  rw [Returns, Returns, runCommands_append h, List.length_append, Nat.add_assoc]

/-- The loop runs the commands of the log up to something that does not parse. -/
theorem replayLoop_encoded {cmds : List (List Bytes)} (hne : ∀ c ∈ cmds, c ≠ [])
    (hlen : ∀ c ∈ cmds, (encodeCommandForAof c).length < 2 ^ 63) {p : Bytes}
    (hp : p = [] ∨ parseCommand p = .error .error) {fuel : ℕ}
    (hfuel : (encodeCommands cmds ++ p).length ≤ fuel) (n : ℕ) :
    replayLoop H clock fuel n (encodeCommands cmds ++ p) = runCommands H clock n cmds := by
  induction cmds generalizing fuel n with
  | nil =>
    rw [runCommands]
    rcases hp with rfl | hp
    · cases fuel <;> rfl
    · cases fuel with
      | zero => rfl
      | succ fuel =>
        have hnone : encodeCommands [] ++ p = p := rfl
        rw [replayLoop, hnone, hp]
        split <;> rfl
  | cons c cmds ih =>
    obtain ⟨name, args, rfl⟩ := List.exists_cons_of_ne_nil (hne c List.mem_cons_self)
    have hcons : encodeCommands ((name :: args) :: cmds) ++ p
        = encodeCommandForAof (name :: args) ++ (encodeCommands cmds ++ p) := by
      rw [encodeCommands, List.flatMap_cons, List.append_assoc]
      rfl
    have hpos := List.length_pos_iff.mpr (encodeCommandForAof_ne_nil (name :: args))
    rw [hcons, List.length_append] at hfuel
    obtain ⟨fuel, rfl⟩ : ∃ f, fuel = f + 1 := ⟨fuel - 1, by omega⟩
    have hparse := parseCommand_encodeCommand (hlen _ List.mem_cons_self) (encodeCommands cmds ++ p)
    have hnil : encodeCommandForAof (name :: args) ++ (encodeCommands cmds ++ p) ≠ [] :=
      List.append_ne_nil_of_left_ne_nil (encodeCommandForAof_ne_nil _) _
    have hfuel' : (encodeCommands cmds ++ p).length ≤ fuel := by omega
    have hrest := ih (fun c hc => hne c (List.mem_cons_of_mem _ hc))
      (fun c hc => hlen c (List.mem_cons_of_mem _ hc)) hfuel'
    rw [hcons, replayLoop, if_neg hnil, hparse, runCommands]
    dsimp only
    simp only [hrest]

/-- A command is no longer than the log it is in. -/
theorem length_le_of_mem_encodeCommands {cmds : List (List Bytes)} {c : List Bytes} (hc : c ∈ cmds) :
    (encodeCommandForAof c).length ≤ (encodeCommands cmds).length := by
  obtain ⟨before, after, rfl⟩ := List.append_of_mem hc
  simp only [encodeCommands, List.flatMap_append, List.flatMap_cons, List.length_append]
  omega

/-- **Replaying a log runs its commands.** -/
theorem replay_encoded {cmds : List (List Bytes)} (hne : ∀ c ∈ cmds, c ≠ [])
    (hlen : (cmds.flatMap encodeCommandForAof).length < 2 ^ 63) :
    replayAof H clock (cmds.flatMap encodeCommandForAof) = runCommands H clock 0 cmds := by
  have hall : encodeCommands cmds ++ [] = cmds.flatMap encodeCommandForAof := List.append_nil _
  rw [replayAof, ← hall]
  exact replayLoop_encoded hne (fun c hc => (length_le_of_mem_encodeCommands hc).trans_lt hlen)
    (Or.inl rfl) le_rfl 0

/-- **Replaying a torn log.** Wherever the log is cut, exactly the commands that are wholly in
front of the cut are run. -/
theorem replayAof_torn {cmds : List (List Bytes)} (hne : ∀ c ∈ cmds, c ≠ [])
    (hlen : (encodeCommands cmds).length < 2 ^ 63) {data : Bytes}
    (hdata : data <+: encodeCommands cmds) :
    ∃ whole : List (List Bytes), whole <+: cmds ∧ encodeCommands whole <+: data ∧
      (∀ more, more <+: cmds → encodeCommands more <+: data → more <+: whole) ∧
      replayAof H clock data = runCommands H clock 0 whole := by
  obtain ⟨rest, hrest⟩ := hdata
  obtain ⟨done, todo, p, rfl, rfl, hend⟩ := split_encodeCommands hrest
  have hlen' : ∀ c ∈ done ++ todo, (encodeCommandForAof c).length < 2 ^ 63 :=
    fun c hc => (length_le_of_mem_encodeCommands hc).trans_lt hlen
  have hp : p = [] ∨ parseCommand p = .error .error := by
    rcases hend with ⟨hnil, -⟩ | ⟨cmd, todo', x, rfl, -, hx, hcut⟩
    · exact Or.inl hnil
    · exact Or.inr (parseCommand_cut (hlen' cmd (by simp)) hcut hx)
  refine ⟨done, List.prefix_append _ _, List.prefix_append _ _, fun more hmore hfits => ?_,
    replayLoop_encoded (fun c hc => hne c (List.mem_append_left _ hc))
      (fun c hc => hlen' c (List.mem_append_left _ hc)) hp le_rfl 0⟩
  -- more commands than these would need the whole of the command that is cut
  rcases List.prefix_or_prefix_of_prefix hmore (List.prefix_append done todo) with h | h
  · exact h
  · obtain ⟨extra, rfl⟩ := h
    rw [encodeCommands_append, List.prefix_append_right_inj] at hfits
    rw [List.prefix_append_right_inj] at hmore
    cases extra with
    | nil =>
      exact ⟨[], by simp⟩
    | cons c extra =>
      have hlong : (encodeCommandForAof c).length ≤ p.length :=
        (length_le_of_mem_encodeCommands List.mem_cons_self).trans hfits.length_le
      have hpos := List.length_pos_iff.mpr (encodeCommandForAof_ne_nil c)
      rcases hend with ⟨rfl, -⟩ | ⟨cmd, todo', x, rfl, -, hx, hcut⟩
      · exact absurd (hpos.trans_le hlong) (Nat.lt_irrefl 0)
      · obtain ⟨_, heq⟩ := hmore
        obtain ⟨rfl, -⟩ := List.cons.inj heq
        have hshort := congrArg List.length hcut
        rw [List.length_append] at hshort
        have hxpos := List.length_pos_iff.mpr hx
        omega

/-- A log of `SET a b` and `SET c` with the second value torn off, which itself looks like the
beginning of a command. -/
theorem replayAof_torn_value :
    let cmds : List (List Bytes) := [[asBytes "SET", asBytes "a", asBytes "b"],
      [asBytes "SET", asBytes "c", asBytes "*1\r\n$4\r\nPING\r\n"]]
    ∃ whole : List (List Bytes), whole <+: cmds ∧
      encodeCommands whole <+: (encodeCommands cmds).dropLast ∧
      (∀ more, more <+: cmds → encodeCommands more <+: (encodeCommands cmds).dropLast →
        more <+: whole) ∧
      replayAof Host.plain (fun _ => ⟨0, 0, 0, 0⟩) (encodeCommands cmds).dropLast
        = runCommands Host.plain (fun _ => ⟨0, 0, 0, 0⟩) 0 whole :=
  replayAof_torn (by decide) (by decide +kernel) (List.dropLast_prefix _)

end Replay

/-! ### Rewriting -/

/-- A field and its value, one after the other. -/
def flatPairs (l : List (Bytes × Bytes)) : List Bytes := l.flatMap fun p => [p.1, p.2]

/-- `commands_for_value`. -/
def commandsForValue (H : Host) (key : Bytes) : StorageValue → List (List Bytes)
  | .string v => [[asBytes "SET", key, v]]
  | .list l => if l = [] then [] else [asBytes "RPUSH" :: key :: l]
  | .set s => if s.keys = [] then [] else [asBytes "SADD" :: key :: s.keys]
  | .hash h => if h.pairs = [] then [] else [asBytes "HSET" :: key :: flatPairs h.pairs]
  | .zset members _ =>
    if members.pairs = [] then []
    else [asBytes "ZADD" :: key ::
      members.pairs.flatMap fun p => [asBytes (H.displayF64 p.2), p.1]]
  | .stream entries _ _ =>
    entries.map fun e => asBytes "XADD" :: key :: formatId e.id :: flatPairs e.fields
  | .nestedHash nh =>
    nh.pairs.flatMap fun p => p.2.pairs.map fun q => [asBytes "NHSET", key, p.1, q.1, q.2]

/-- What `write_dataset` writes for one entry. -/
def commandsForEntry (H : Host) (p : Bytes × Entry) : List (List Bytes) :=
  commandsForValue H p.1 p.2.value ++
    match p.2.expireAt with
    | some at_ => [[asBytes "PEXPIREAT", p.1, asBytes (toString at_.toNat)]]
    | none => []

/-- What `write_dataset` writes for one database. -/
def commandsForDb (H : Host) (now : UInt64) (dbs : Databases) (i : ℕ) : List (List Bytes) :=
  match dbs.iterateDb now i with
  | .error _ => []
  | .ok entries =>
    if entries = [] then []
    else (if 1 < dbs.length then [[asBytes "SELECT", asBytes (toString i)]] else []) ++
      entries.flatMap (commandsForEntry H)

/-- The commands `write_dataset` writes. -/
def datasetCommands (H : Host) (now : UInt64) (dbs : Databases) : List (List Bytes) :=
  (List.range dbs.length).flatMap (commandsForDb H now dbs)

/-- `write_dataset`. -/
def writeDataset (H : Host) (now : UInt64) (dbs : Databases) : Bytes :=
  (datasetCommands H now dbs).flatMap encodeCommandForAof

end VeloDB
