import VeloDB.Cmd.Arity
import VeloDB.Cmd.ReplyFrame
import VeloDB.Store.RandomMembers
import VeloDB.Store.ZsetIndex

/-!
# Commands that never answer

A command that gets the arguments it is declared to take answers, with these exceptions. `SETRANGE`
adds the offset to the length of what it writes: the sum wraps, or is more than a vector can hold.
`ZRANGEBYSCORE` asks a tree for a range whose ends are in the wrong order. `SRANDMEMBER` does not
leave its loop when the positions that it tries repeat, and with a count far below zero it draws
more members than a reply has room for. `EVAL` adds two to the number of keys, and the slice of the
keys ends before it starts when that sum wraps. `EVALSHA` keeps the shard of its script locked, and
`SCRIPT`, called from there, waits for it when it is to change the shard. `EXEC` fails with the
commands of its queue, and there and in scripts nobody has counted the arguments. A script is told
that a call has panicked and may go on, but a call that hangs takes the script with it.

The main result is `dispatch_answers_iff`.
-/

namespace VeloDB

open Rust Proc

/-- How a command ends without an answer. -/
inductive Fault
  | panic
  | hang
  deriving DecidableEq

/-! ### Faults of the handlers -/

namespace Cmd

/-- Writing behind the offset asks for more bytes than a vector can hold, or for a slice that ends
before it starts. -/
def Overruns (current : Bytes) (offset : ℕ) (patch : Bytes) : Prop :=
  let stop := (offset + patch.length) % 2 ^ 64
  current.length < stop ∧ isizeMax < stop ∨ stop < offset

instance (current : Bytes) (offset : ℕ) (patch : Bytes) :
    Decidable (Overruns current offset patch) := inferInstanceAs (Decidable (_ ∨ _))

/-- `SETRANGE` finds a string, or nothing, in which it cannot write. -/
def SetrangePanics (env : Env) (dbs : Databases) (i : ℕ) : List Bytes → Prop
  | key :: offset :: patch :: _ => ∃ v, dbs.get env.now i key = .ok v ∧
      Overruns (v.getD []) ((argUsize offset).getD 0) patch
  | _ => False

/-- `ZRANGEBYSCORE` finds a sorted set and the lower bound is above the upper one, or there is no
upper one. -/
def ZrangebyscorePanics (env : Env) (dbs : Databases) (i : ℕ) : List Bytes → Prop
  | key :: lo :: hi :: _ => ∃ l h e members scores, parseScoreBound env.host lo = .ok l ∧
      parseScoreBound env.host hi = .ok h ∧ dbs.liveEntry env.now i key = some e ∧
      e.value = .zset members scores ∧ h.value.lt l.value
  | [_, lo] => ∃ l, parseScoreBound env.host lo = .ok l
  | _ => False

/-- Drawing `n` members of a set that has `size`: the size is a multiple of `31` and more than a
`31`st of it is to be drawn, or more are to be drawn with repetition than a reply has room for. -/
def DrawFails (size : ℕ) (n : Int64) : Fault → Prop
  | .hang => 31 ∣ size ∧ size / 31 < n.toInt.toNat
  | .panic => n.toInt < 0 ∧ Databases.replyMax < n.toInt.natAbs

/-- `SRANDMEMBER` finds a set, of which it cannot draw that many members. -/
def SrandmemberFails (env : Env) (dbs : Databases) (i : ℕ) (f : Fault) : List Bytes → Prop
  | key :: count :: _ => ∃ e s n, dbs.liveEntry env.now i key = some e ∧ e.value = .set s ∧
      parseI64 count = some n ∧ s.keys ≠ [] ∧ DrawFails s.keys.length n f
  | _ => False

/-- `SCRIPT` is to change a shard that is locked. -/
def ScriptHangs (env : Env) (scripts : ScriptMap) : List Bytes → Prop
  | sub :: rest =>
    upper env sub = "LOAD" ∧ (∃ script ∈ rest.head?,
      lockedShard env.host scripts (env.host.sha1Hex (fromUtf8Lossy script)) = true) ∨
    upper env sub = "FLUSH" ∧ scripts.readers ≠ []
  | [] => False

/-! ### Faults of scripts and transactions -/

/-- A call of a script that hangs. -/
def CallHangs (fails : Fault → String → List Bytes → Whole → Prop) (env : Env) (db : ℕ)
    (args : List LuaValue) (w : Whole) : Prop :=
  ∃ name rest, callArgs env.host args = .ok (name :: rest) ∧
    fails .hang (upper env name) rest { w with ctx := { dbIndex := db } }

/-- A script that panics, or makes a call that hangs. -/
def ScriptFails (dispatch : Dispatch) (fails : Fault → String → List Bytes → Whole → Prop)
    (env : Env) (db : ℕ) (f : Fault) : LuaProc → Whole → Prop
  | .ret _, _ => False
  | .fail _, _ => False
  | .panic, _ => f = .panic
  | .call args k, w => f = .hang ∧ CallHangs fails env db args w ∨
      ∃ answer w', redisCall dispatch env db args w = (.ok answer, w') ∧
        ScriptFails dispatch fails env db f (k answer) w'

/-- `EVAL` takes a number of keys that wraps, or its script fails. -/
def EvalFails (dispatch : Dispatch) (fails : Fault → String → List Bytes → Whole → Prop)
    (env : Env) (args : List Bytes) (w : Whole) (f : Fault) : Prop :=
  match args with
  | script :: numKeys :: rest =>
    let stop := min ((2 + (argUsize numKeys).getD 0) % 2 ^ 64) args.length
    if stop < 2 then f = .panic
    else ScriptFails dispatch fails env w.ctx.dbIndex f (env.host.lua (fromUtf8Lossy script)
      ((rest.take (stop - 2)).map fromUtf8Lossy) ((rest.drop (stop - 2)).map fromUtf8Lossy)) w
  | _ => False

/-- `EVALSHA` finds a script that fails as one of `EVAL`, while its shard is locked. -/
def EvalshaFails (dispatch : Dispatch) (fails : Fault → String → List Bytes → Whole → Prop)
    (env : Env) (args : List Bytes) (w : Whole) (f : Fault) : Prop :=
  match args with
  | sha :: numKeys :: rest => ∃ script,
      w.store.tables.luaScripts.entries.lookup (fromUtf8Lossy sha) = some script ∧
      EvalFails dispatch fails env (asBytes script :: numKeys :: rest)
        (setReaders (fromUtf8Lossy sha :: w.store.tables.luaScripts.readers) w) f
  | _ => False

/-- The watched keys are as they were, as far as there are versions, and there are too few. -/
def LacksVersions (now : UInt64) (dbs : Databases) (i : ℕ) : List Bytes → List ℕ → Prop
  | [], _ => False
  | key :: _, [] => (versionOf now dbs i key).isSome
  | key :: keys, v :: versions => versionOf now dbs i key = some v ∧
      LacksVersions now dbs i keys versions

/-- A command of the queue fails, in the state in which it runs, and those in front of it do not. -/
def QueueFails (dispatch : Dispatch) (fails : Fault → String → List Bytes → Whole → Prop)
    (env : Env) (f : Fault) : List (List Bytes) → Whole → Prop
  | [], _ => False
  | [] :: _, _ => f = .panic
  | (name :: args) :: queue, w => fails f (upper env name) args w ∨
      (∀ f', ¬fails f' (upper env name) args w) ∧
        QueueFails dispatch fails env f queue (dispatch (upper env name) args w).2

/-- `EXEC` finds too few versions, or runs a queue that fails. -/
def ExecFails (dispatch : Dispatch) (fails : Fault → String → List Bytes → Whole → Prop)
    (env : Env) (w : Whole) (f : Fault) : Prop :=
  w.ctx.multiMode = true ∧
    (f = .panic ∧ LacksVersions env.now w.store.databases w.ctx.dbIndex w.ctx.watchedKeys
        w.ctx.watchedVersions ∨
      checkWatched env.now w.store.databases w.ctx.dbIndex w.ctx.watchedKeys w.ctx.watchedVersions
        = .ok true ∧
      QueueFails dispatch fails env f w.ctx.multiQueue { w with ctx := takeTransaction w.ctx })

end Cmd

/-- How a handler fails by itself when it has the arguments that it needs. -/
def CommandDef.HandlerFails (env : Env) (args : List Bytes) (w : Whole) (c : CommandDef)
    (f : Fault) : Prop :=
  f = .panic ∧ c.name = "SETRANGE" ∧ Cmd.SetrangePanics env w.store.databases w.ctx.dbIndex args ∨
    f = .panic ∧ c.name = "ZRANGEBYSCORE" ∧
      Cmd.ZrangebyscorePanics env w.store.databases w.ctx.dbIndex args ∨
    c.name = "SRANDMEMBER" ∧ Cmd.SrandmemberFails env w.store.databases w.ctx.dbIndex f args ∨
    f = .hang ∧ c.name = "SCRIPT" ∧ Cmd.ScriptHangs env w.store.tables.luaScripts args

/-- How the handler of a command fails when it has the arguments that it needs. -/
def CommandDef.Fails (dispatch : Dispatch) (fails : Fault → String → List Bytes → Whole → Prop)
    (env : Env) (args : List Bytes) (w : Whole) (c : CommandDef) (f : Fault) : Prop :=
  match c.handler with
  | .exec => Cmd.ExecFails dispatch fails env w f
  | .eval => Cmd.EvalFails dispatch fails env args w f
  | .evalsha => Cmd.EvalshaFails dispatch fails env args w f
  | _ => c.HandlerFails env args w f

/-- How a command fails, down to a given depth of nesting: the command is let through, and its
handler lacks arguments, or fails. -/
def Fails (env : Env) : ℕ → Fault → String → List Bytes → Whole → Prop
  | 0, f, _, _, _ => f = .panic
  | depth + 1, f, name, args, w => ∃ c, findCommand name = some c ∧
      w.store.tables.deniesMemory name = false ∧ c.refuses args = false ∧
      (f = .panic ∧ args.length < c.needs ∨
        c.Fails (dispatchDepth env depth) (Fails env depth) env args w f)

/-! ### Results -/

/-- The result is one of the two faults exactly if it `fails` so. -/
def EndsAs {α : Type} (fails : Fault → Prop) : Except Failure α → Prop
  | .error .panic => fails .panic ∧ ¬fails .hang
  | .error .hang => fails .hang ∧ ¬fails .panic
  | _ => ∀ f, ¬fails f

section EndsAs

variable {α β : Type} {fails fails' : Fault → Prop}

theorem EndsAs.congr {x : Except Failure α} (h : EndsAs fails x) (hsame : ∀ f, fails f ↔ fails' f) :
    EndsAs fails' x := by
  rwa [show fails' = fails from funext fun f => propext (hsame f).symm]

theorem ends_panic (hpanic : fails .panic) (hhang : ¬fails .hang) :
    EndsAs fails (.error .panic : Except Failure α) := ⟨hpanic, hhang⟩

/-- A result that is no fault. -/
theorem ends_of_never {Q : α → Prop} {x : Except Failure α} (hx : OkOr (Blames False) Q x)
    (h : ∀ f, ¬fails f) : EndsAs fails x := by
  rcases x with (e | _ | _) | a
  · exact h
  · exact hx.elim
  · exact hx.elim
  · exact h

/-- What runs after a step that is no fault. -/
theorem EndsAs.bind {Q : α → Prop} {x : Except Failure α} {f : α → Except Failure β}
    (hx : OkOr (Blames False) Q x) (herror : ∀ e, x = .error e → ∀ f, ¬fails f)
    (hf : ∀ a, x = .ok a → EndsAs fails (f a)) : EndsAs fails (x >>= f) := by
  rcases x with (e | _ | _) | a
  · exact herror _ rfl
  · exact hx.elim
  · exact hx.elim
  · exact hf a rfl

theorem EndsAs.eq_panic {x : Except Failure α} (h : EndsAs fails x) (hpanic : fails .panic) :
    x = .error .panic := by
  rcases x with (e | _ | _) | a
  · exact absurd hpanic (h _)
  · rfl
  · exact absurd hpanic h.2
  · exact absurd hpanic (h _)

theorem EndsAs.map {x : Except Failure α} (h : EndsAs fails x) (g : α → β) :
    EndsAs fails (x >>= fun a => .ok (g a)) := by
  rcases x with (e | _ | _) | a <;> exact h

theorem ends_catchError {m : WholeM RespValue} {w : Whole} (h : EndsAs fails (m w).1) :
    EndsAs fails (catchError m w).1 := by
  rw [catchError_fst]
  rcases hm : (m w).1 with (e | _ | _) | r
  · rw [hm] at h
    exact h
  · rw [hm] at h
    exact h
  · rw [hm] at h
    exact h
  · rw [hm] at h
    exact h

/-- A reply, exactly if nothing fails. -/
theorem EndsAs.answers_iff {m : WholeM RespValue} {w : Whole} (h : EndsAs fails (m w).1) :
    (∃ r, (catchError m w).1 = .ok r) ↔ ∀ f, ¬fails f := by
  rw [catchError_fst]
  rcases hm : (m w).1 with (e | _ | _) | r
  · rw [hm] at h
    exact iff_of_true ⟨_, rfl⟩ h
  · rw [hm] at h
    refine iff_of_false ?_ fun hnot => hnot _ h.1
    rintro ⟨r, hr⟩
    cases hr
  · rw [hm] at h
    refine iff_of_false ?_ fun hnot => hnot _ h.1
    rintro ⟨r, hr⟩
    cases hr
  · rw [hm] at h
    exact iff_of_true ⟨_, rfl⟩ h

end EndsAs

/-! ### Missing arguments -/

/-- With less than `n` arguments the handler panics. -/
def Handler.PanicsBelow (n : ℕ) : Handler → Prop
  | .read f => ∀ env dbs i args, args.length < n → f env dbs i args = .error .panic
  | .write f => ∀ env i s args, args.length < n → (f env i args s).1 = .error .panic
  | .side f => ∀ env dbs s args, args.length < n → (f env dbs args s).1 = .error .panic
  | .whole f => ∀ env w args, args.length < n → (f env args w).1 = .error .panic
  | .exec | .eval | .evalsha => n = 0

section Below

variable {P : List Bytes → Prop}

theorem below_one (h : P []) (args : List Bytes) (hargs : args.length < 1) : P args := by
  obtain rfl := List.length_eq_zero_iff.mp (Nat.lt_one_iff.mp hargs)
  exact h

theorem below_two (h : P []) (hone : ∀ a, P [a]) (args : List Bytes) (hargs : args.length < 2) :
    P args := by
  rcases args with _ | ⟨a, _ | ⟨b, args⟩⟩
  · exact h
  · exact hone a
  · simp only [List.length_cons] at hargs
    omega

theorem below_three (h : P []) (hone : ∀ a, P [a]) (htwo : ∀ a b, P [a, b]) (args : List Bytes)
    (hargs : args.length < 3) : P args := by
  rcases args with _ | ⟨a, args⟩
  · exact h
  · exact below_two (P := fun l => P (a :: l)) (hone a) (htwo a) args (Nat.lt_of_succ_lt_succ hargs)

theorem below_four (h : P []) (hone : ∀ a, P [a]) (htwo : ∀ a b, P [a, b])
    (hthree : ∀ a b c, P [a, b, c]) (args : List Bytes) (hargs : args.length < 4) : P args := by
  rcases args with _ | ⟨a, args⟩
  · exact h
  · exact below_three (P := fun l => P (a :: l)) (hone a) (htwo a) (hthree a) args
      (Nat.lt_of_succ_lt_succ hargs)

end Below

theorem Handler.panicsBelow_zero : (h : Handler) → h.PanicsBelow 0
  | .read _ => fun _ _ _ _ hargs => absurd hargs (Nat.not_lt_zero _)
  | .write _ => fun _ _ _ _ hargs => absurd hargs (Nat.not_lt_zero _)
  | .side _ => fun _ _ _ _ hargs => absurd hargs (Nat.not_lt_zero _)
  | .whole _ => fun _ _ _ hargs => absurd hargs (Nat.not_lt_zero _)
  | .exec | .eval | .evalsha => rfl

/-- The command panics if it does not get the arguments that its handler needs. -/
def CommandDef.PanicsBelow (c : CommandDef) : Prop :=
  0 < c.arity ∨ c.handler.PanicsBelow (indexedArgs c.name)

section Table

variable {name : String} {arity : ℤ} {h : Handler}

theorem panics_of_never (hnever : 0 < arity ∨ indexedArgs name = 0) :
    CommandDef.PanicsBelow ⟨name, arity, h⟩ := by
  refine hnever.imp_right fun hzero => ?_
  dsimp only
  rw [hzero]
  exact h.panicsBelow_zero

theorem panics_of_indexed {n : ℕ} (hn : indexedArgs name = n) (hh : h.PanicsBelow n) :
    CommandDef.PanicsBelow ⟨name, arity, h⟩ := Or.inr (hn ▸ hh)

theorem panics_write {f : Env → ℕ → List Bytes → KeyM RespValue} (hn : indexedArgs name = 1)
    (hf : ∀ env i s, (f env i [] s).1 = .error .panic) :
    CommandDef.PanicsBelow ⟨name, arity, .write f⟩ :=
  panics_of_indexed hn fun env i s => below_one (hf env i s)

theorem panics_read {f : Env → Databases → ℕ → List Bytes → Reply} (hn : indexedArgs name = 1)
    (hf : ∀ env dbs i, f env dbs i [] = .error .panic) :
    CommandDef.PanicsBelow ⟨name, arity, .read f⟩ :=
  panics_of_indexed hn fun env dbs i => below_one (hf env dbs i)

end Table

namespace Cmd

theorem panics_stringCommands : ∀ c ∈ stringCommands, c.PanicsBelow := by
  simp (disch := decide) only [stringCommands, List.forall_mem_cons, panics_of_never, true_and,
    List.not_mem_nil, false_imp_iff, implies_true, and_true]
  exact panics_of_indexed (n := 2) (by decide) fun _ _ _ => below_two rfl fun _ => rfl

theorem panics_genericCommands : ∀ c ∈ genericCommands, c.PanicsBelow := by
  simp (disch := decide) only [genericCommands, List.forall_mem_cons, panics_of_never, true_and,
    List.not_mem_nil, false_imp_iff, implies_true, and_true]
  exact ⟨panics_of_indexed (n := 1) (by decide) fun _ _ _ => below_one rfl,
    panics_of_indexed (n := 2) (by decide) fun _ _ _ => below_two rfl fun _ => rfl,
    panics_of_indexed (n := 2) (by decide) fun _ _ _ => below_two rfl fun _ => rfl,
    panics_of_indexed (n := 2) (by decide) fun _ _ _ => below_two rfl fun _ => rfl⟩

theorem panics_listCommands : ∀ c ∈ listCommands, c.PanicsBelow := by
  simp (disch := decide) only [listCommands, List.forall_mem_cons, panics_of_never, true_and,
    List.not_mem_nil, false_imp_iff, implies_true, and_true]
  exact ⟨panics_write (by decide) fun _ _ _ => rfl,
    panics_write (by decide) fun _ _ _ => rfl,
    panics_write (by decide) fun _ _ _ => rfl,
    panics_write (by decide) fun _ _ _ => rfl,
    panics_of_indexed (n := 1) (by decide) fun _ _ => below_one rfl,
    panics_of_indexed (n := 1) (by decide) fun _ _ => below_one rfl⟩

theorem panics_setCommands : ∀ c ∈ setCommands, c.PanicsBelow := by
  simp (disch := decide) only [setCommands, List.forall_mem_cons, panics_of_never, true_and,
    List.not_mem_nil, false_imp_iff, implies_true, and_true]
  exact ⟨panics_write (by decide) fun _ _ _ => rfl,
    panics_write (by decide) fun _ _ _ => rfl,
    panics_read (by decide) fun _ _ _ => rfl,
    panics_write (by decide) fun _ _ _ => rfl⟩

theorem panics_hashCommands : ∀ c ∈ hashCommands, c.PanicsBelow := by
  simp (disch := decide) only [hashCommands, List.forall_mem_cons, panics_of_never, true_and,
    List.not_mem_nil, false_imp_iff, implies_true, and_true]
  exact ⟨panics_write (by decide) fun _ _ _ => rfl,
    panics_write (by decide) fun _ _ _ => rfl⟩

theorem panics_nestedHashCommands : ∀ c ∈ nestedHashCommands, c.PanicsBelow := by
  simp (disch := decide) only [nestedHashCommands, List.forall_mem_cons, panics_of_never, true_and,
    List.not_mem_nil, false_imp_iff, implies_true, and_true]
  exact ⟨panics_of_indexed (n := 2) (by decide) fun _ _ _ => below_two rfl fun _ => rfl,
    panics_read (by decide) fun _ _ _ => rfl,
    panics_read (by decide) fun _ _ _ => rfl,
    panics_read (by decide) fun _ _ _ => rfl⟩

theorem panics_zsetCommands : ∀ c ∈ zsetCommands, c.PanicsBelow := by
  simp (disch := decide) only [zsetCommands, List.forall_mem_cons, panics_of_never, true_and,
    List.not_mem_nil, false_imp_iff, implies_true, and_true]
  exact ⟨panics_write (by decide) fun _ _ _ => rfl,
    panics_write (by decide) fun _ _ _ => rfl,
    panics_of_indexed (n := 3) (by decide) fun _ _ _ =>
      below_three rfl (fun _ => rfl) fun _ _ => rfl,
    panics_of_indexed (n := 2) (by decide) fun _ _ _ => below_two rfl fun _ => rfl⟩

theorem panics_streamCommands : ∀ c ∈ streamCommands, c.PanicsBelow := by
  simp (disch := decide) only [streamCommands, List.forall_mem_cons, panics_of_never, true_and,
    List.not_mem_nil, false_imp_iff, implies_true, and_true]
  exact ⟨panics_of_indexed (n := 3) (by decide) fun _ _ _ =>
      below_three rfl (fun _ => rfl) fun _ _ => rfl,
    panics_of_indexed (n := 3) (by decide) fun _ _ _ =>
      below_three rfl (fun _ => rfl) fun _ _ => rfl,
    panics_write (by decide) fun _ _ _ => rfl,
    panics_of_indexed (n := 2) (by decide) fun _ _ _ => below_two rfl fun _ => rfl,
    panics_of_indexed (n := 2) (by decide) fun _ _ _ => below_two rfl fun _ => rfl,
    panics_of_indexed (n := 4) (by decide) fun _ _ _ =>
      below_four rfl (fun _ => rfl) (fun _ _ => rfl) fun _ _ _ => rfl⟩

theorem panics_otherCommands : ∀ c ∈ pubsubCommands ++ transactionCommands ++ luaCommands ++
    clusterCommands, c.PanicsBelow := by
  simp (disch := decide) only [pubsubCommands, transactionCommands, luaCommands, clusterCommands,
    List.cons_append, List.nil_append, List.forall_mem_cons, panics_of_never, true_and,
    List.not_mem_nil, false_imp_iff, implies_true]

theorem panics_serverCommands : ∀ c ∈ serverCommands, c.PanicsBelow := by
  simp (disch := decide) only [serverCommands, List.forall_mem_cons, panics_of_never, true_and,
    List.not_mem_nil, false_imp_iff, implies_true]

end Cmd

theorem panics_commands : ∀ c ∈ commands, c.PanicsBelow :=
  forall_commands Cmd.panics_serverCommands Cmd.panics_stringCommands Cmd.panics_genericCommands
    Cmd.panics_listCommands Cmd.panics_setCommands Cmd.panics_hashCommands Cmd.panics_zsetCommands
    Cmd.panics_streamCommands Cmd.panics_nestedHashCommands Cmd.panics_otherCommands

/-! ### The four handlers -/

namespace Cmd

theorem overwrite_eq_none_iff (current : Bytes) (offset : ℕ) (patch : Bytes) :
    overwrite current offset patch = none ↔ Overruns current offset patch := by
  simp only [overwrite, Overruns]
  by_cases hlong : current.length < (offset + patch.length) % 2 ^ 64 ∧
      isizeMax < (offset + patch.length) % 2 ^ 64
  · rw [if_pos hlong]
    exact iff_of_true rfl (Or.inl hlong)
  · rw [if_neg hlong, or_iff_right hlong]
    by_cases hslice : offset ≤ (offset + patch.length) % 2 ^ 64
    · rw [if_pos hslice]
      exact iff_of_false (Option.some_ne_none _) (Nat.not_lt_of_le hslice)
    · rw [if_neg hslice]
      exact iff_of_true rfl (Nat.lt_of_not_le hslice)

section Handlers

variable (env : Env) (dbs : Databases) (i : ℕ)

theorem setrange_ends {args : List Bytes} (hargs : 3 ≤ args.length) (s : Keyspace) :
    EndsAs (fun f => f = .panic ∧ SetrangePanics env s.databases i args)
      (setrange env i args s).1 := by
  rcases args with _ | ⟨key, _ | ⟨offset, _ | ⟨patch, rest⟩⟩⟩
  · cases hargs
  · simp at hargs
  · simp at hargs
  show EndsAs _ ((Keyspace.read (fun dbs => dbs.get env.now i key) >>= _) s).1
  cases hget : s.databases.get env.now i key with
  | error e =>
    have hread : Keyspace.read (fun dbs => dbs.get env.now i key) s = (.error (.error e), s) := by
      rw [Keyspace.read, hget]
      rfl
    rw [bind_error hread]
    rintro f ⟨-, v, hv, -⟩
    rw [hget] at hv
    cases hv
  | ok v =>
    have hread : Keyspace.read (fun dbs => dbs.get env.now i key) s = (.ok v, s) := by
      rw [Keyspace.read, hget]
      rfl
    have hpatch : lift (arg (key :: offset :: patch :: rest) 2) s = (.ok patch, s) := rfl
    rw [bind_ok hread, bind_ok hpatch]
    cases hwrite : overwrite (v.getD []) ((argUsize offset).getD 0) patch with
    | none =>
      exact ends_panic ⟨rfl, v, hget, (overwrite_eq_none_iff ..).mp hwrite⟩ fun h => by cases h.1
    | some current =>
      refine ends_of_never (Q := Whatever)
        (((does_set i key current none).bind fun _ _ => delivers_pure trivial) s) ?_
      rintro f ⟨-, v', hv', hover⟩
      obtain rfl := Except.ok.inj (hget.symm.trans hv')
      rw [← overwrite_eq_none_iff, hwrite] at hover
      cases hover

/-- Reading a live value in a way that may fail. -/
theorem ends_readAs {α β : Type} {kind : Kind α} {now : UInt64} {k : Bytes}
    {missing : Except Failure β} {f : α → Except Failure β} {fails : α → Fault → Prop}
    (hmissing : Reads False missing) (hf : ∀ a, EndsAs (fails a) (f a)) :
    EndsAs (fun fault => ∃ e a, dbs.liveEntry now i k = some e ∧ kind.unwrap e.value = some a ∧
      fails a fault) (flatten (dbs.readAs kind now i k missing f)) := by
  cases hlive : dbs.liveEntry now i k with
  | none =>
    refine ends_of_never (Q := Whatever) ?_ (by rintro fault ⟨e, a, he, -⟩; cases he)
    by_cases hi : i < dbs.length
    · rw [Databases.readAs_none hi hlive]
      exact hmissing
    · rw [Databases.readAs, Databases.entry, Databases.db_out (Nat.le_of_not_lt hi)]
      exact oneLine_out i
  | some e =>
    cases hkind : kind.unwrap e.value with
    | none =>
      rw [Databases.readAs_wrong hlive hkind]
      rintro fault ⟨e', a, he, ha, -⟩
      obtain rfl := Option.some.inj he
      rw [hkind] at ha
      cases ha
    | some a =>
      rw [Databases.readAs_some hlive hkind]
      refine (hf a).congr fun fault => ⟨fun h => ⟨e, a, rfl, hkind, h⟩, ?_⟩
      rintro ⟨e', a', he, ha, h⟩
      obtain rfl := Option.some.inj he
      obtain rfl := Option.some.inj (hkind.symm.trans ha)
      exact h

theorem zrangeByScore_ends (now : UInt64) (k : Bytes) (lo hi : ScoreBound) (withscores : Bool)
    (limit : Option (ℕ × ℕ)) :
    EndsAs (fun f => f = .panic ∧ ∃ e members scores, dbs.liveEntry now i k = some e ∧
      e.value = .zset members scores ∧ hi.value.lt lo.value)
      (dbs.zrangeByScore now i k lo hi withscores limit) := by
  have hread : EndsAs (fun f => ∃ e z, dbs.liveEntry now i k = some e ∧
      Kind.zset.unwrap e.value = some z ∧ f = .panic ∧ hi.value.lt lo.value)
      (dbs.zrangeByScore now i k lo hi withscores limit) := by
    refine ends_readAs dbs i (show Reads False (.ok []) from trivial) fun z => ?_
    split
    · next hlt => exact ends_panic ⟨rfl, hlt⟩ fun h => by cases h.1
    · next hnot => exact fun f h => hnot h.2
  refine hread.congr fun f => ⟨?_, ?_⟩
  · rintro ⟨e, z, he, hz, hf, hlt⟩
    exact ⟨hf, e, z.1, z.2, he, zset_of_unwrap hz, hlt⟩
  · rintro ⟨hf, e, members, scores, he, hv, hlt⟩
    exact ⟨e, (members, scores), he, by rw [hv]; rfl, hf, hlt⟩

theorem zrangebyscore_ends {args : List Bytes} (hargs : 2 ≤ args.length) :
    EndsAs (fun f => f = .panic ∧ ZrangebyscorePanics env dbs i args)
      (zrangebyscore env dbs i args) := by
  rcases args with _ | ⟨key, _ | ⟨lo, rest⟩⟩
  · cases hargs
  · simp at hargs
  cases rest with
  | nil =>
    have hrun : zrangebyscore env dbs i [key, lo]
        = parseScoreBound env.host lo >>= fun _ => .error .panic := rfl
    rw [hrun]
    refine EndsAs.bind (reads_parseScoreBound _ lo) ?_ fun l hl => ends_panic ⟨rfl, l, hl⟩ ?_
    · rintro e he f ⟨-, l, hl⟩
      cases he.symm.trans hl
    · exact fun h => by cases h.1
  | cons hi rest =>
    have hrun : zrangebyscore env dbs i (key :: lo :: hi :: rest)
        = parseScoreBound env.host lo >>= fun l => parseScoreBound env.host hi >>= fun h =>
          dbs.zrangeByScore env.now i key l h (rangeOptions env rest (false, none)).1
            (rangeOptions env rest (false, none)).2 >>= fun items =>
          .ok (memberScores env.host items) := rfl
    rw [hrun]
    refine EndsAs.bind (reads_parseScoreBound _ lo) ?_ fun l hl =>
      EndsAs.bind (reads_parseScoreBound _ hi) ?_ fun h hh => ?_
    · rintro e he f ⟨-, l, h, e', members, scores, hl, -⟩
      cases he.symm.trans hl
    · rintro e he f ⟨-, l, h, e', members, scores, -, hh, -⟩
      cases he.symm.trans hh
    · refine ((zrangeByScore_ends dbs i env.now key l h _ _).map _).congr fun f => ⟨?_, ?_⟩
      · rintro ⟨hf, e, members, scores, he, hv, hlt⟩
        exact ⟨hf, l, h, e, members, scores, hl, hh, he, hv, hlt⟩
      · rintro ⟨hf, l', h', e, members, scores, hl', hh', he, hv, hlt⟩
        obtain rfl := Except.ok.inj (hl.symm.trans hl')
        obtain rfl := Except.ok.inj (hh.symm.trans hh')
        exact ⟨hf, e, members, scores, he, hv, hlt⟩

/-- The draw of different members ends unless its positions repeat too early. -/
theorem drawDistinct_ends {members : List Bytes} (hne : members ≠ []) (nano : ℕ) {n : Int64}
    (hint : 0 ≤ n.toInt) : EndsAs (DrawFails members.length n)
      (Databases.drawDistinct members nano (min n.toInt.toNat members.length) [] []) := by
  have hpos : 0 < members.length := List.length_pos_iff.mpr hne
  have hdistinct : DistinctDraws members.length nano (min n.toInt.toNat members.length) ↔ _ :=
    distinct_iff hpos (Nat.min_le_right _ _)
  have hdiv : members.length / 31 < members.length := Nat.div_lt_self hpos (by norm_num)
  rcases drawDistinct_iff hne nano (min n.toInt.toNat members.length) with
    ⟨hok, hdraws⟩ | ⟨hhang, hrepeat⟩
  · rw [hok]
    rintro (_ | _) ⟨hfirst, hlt⟩
    · omega
    · rcases hdistinct.mp hdraws with hnot | hle
      · exact hnot hfirst
      · omega
  · rw [hhang]
    rw [hdistinct, not_or, not_not] at hrepeat
    exact ⟨⟨hrepeat.1, by omega⟩, fun h => absurd h.1 (Int.not_lt.mpr hint)⟩

/-- The draw with repetition fails when the reply has no room for so many members. -/
theorem drawRepeating_ends (members : List Bytes) (nano : ℕ) {n : Int64} (hint : n.toInt < 0) :
    EndsAs (DrawFails members.length n)
      (if Databases.replyMax < asUsize (-n) then .error .panic
      else pure ((List.range (asUsize (-n))).map fun i =>
        members[(nano + i * 31) % members.length]?.getD [])) := by
  have hdrawn : asUsize (-n) = n.toInt.natAbs := by
    have hneg := asUsize_neg hint
    omega
  have hhang : ¬DrawFails members.length n .hang := fun h => by
    have hlt := h.2
    omega
  rw [hdrawn]
  by_cases hroom : Databases.replyMax < n.toInt.natAbs
  · rw [if_pos hroom]
    exact ends_panic ⟨hint, hroom⟩ hhang
  · rw [if_neg hroom]
    rintro (_ | _) h
    · exact hroom h.2
    · exact hhang h

theorem drawMembers_ends (members : List Bytes) (nano : ℕ) (count : Option Int64) :
    EndsAs (fun f => ∃ n, count = some n ∧ members ≠ [] ∧ DrawFails members.length n f)
      (Databases.drawMembers members nano count) := by
  rw [Databases.drawMembers.eq_def]
  by_cases hne : members = []
  · rw [if_pos hne]
    rintro f ⟨n, -, hn, -⟩
    exact hn hne
  rw [if_neg hne]
  cases count with
  | none =>
    rintro f ⟨n, hn, -⟩
    cases hn
  | some n =>
    have hcount : ∀ f, (∃ n', some n = some n' ∧ members ≠ [] ∧ DrawFails members.length n' f) ↔
        DrawFails members.length n f := fun f => by simp [hne]
    refine EndsAs.congr ?_ fun f => (hcount f).symm
    dsimp only
    by_cases hone : n = 1
    · -- one member is taken without a loop, and one is never too many for it
      have hint : n.toInt = 1 := by rw [hone]; rfl
      have hpos : 0 < members.length := List.length_pos_iff.mpr hne
      rw [if_pos hone]
      rintro (_ | _) ⟨hfirst, hlt⟩
      · omega
      · have hle := (Nat.one_le_div_iff (by norm_num)).mpr (Nat.le_of_dvd hpos hfirst)
        omega
    rw [if_neg hone]
    by_cases hnonneg : 0 ≤ n
    · have hint : 0 ≤ n.toInt := (zero_le_iff n).mp hnonneg
      rw [if_pos hnonneg, asUsize_of_nonneg hint]
      exact drawDistinct_ends hne nano hint
    · rw [if_neg hnonneg]
      exact drawRepeating_ends members nano (Int.not_le.mp fun h => hnonneg ((zero_le_iff n).mpr h))

theorem set_of_unwrap {v : StorageValue} {s : HashSet Bytes} (h : Kind.set.unwrap v = some s) :
    v = .set s := by
  cases v <;> simp only [Kind.set, reduceCtorEq] at h
  obtain rfl := Option.some.inj h
  rfl

theorem srandmember_ends {args : List Bytes} (hargs : 1 ≤ args.length) :
    EndsAs (fun f => SrandmemberFails env dbs i f args) (srandmember env dbs i args) := by
  rcases args with _ | ⟨key, rest⟩
  · cases hargs
  have hread : EndsAs (fun f => ∃ e s, dbs.liveEntry env.now i key = some e ∧
      Kind.set.unwrap e.value = some s ∧ ∃ n, rest[0]? >>= parseI64 = some n ∧
      s.keys ≠ [] ∧ DrawFails s.keys.length n f)
      (dbs.srandmember env.now env.nanos i key (rest[0]? >>= parseI64)) :=
    ends_readAs dbs i (show Reads False (.ok []) from trivial) fun s => drawMembers_ends _ _ _
  refine (hread.map _).congr fun f => ⟨?_, ?_⟩
  · rintro ⟨e, s, he, hs, n, hn, hdraw⟩
    cases rest with
    | nil => cases hn
    | cons count rest => exact ⟨e, s, n, he, set_of_unwrap hs, hn, hdraw⟩
  · intro h
    cases rest with
    | nil => exact h.elim
    | cons count rest =>
      obtain ⟨e, s, n, he, hv, hn, hdraw⟩ := h
      exact ⟨e, s, he, by rw [hv]; rfl, n, hn, hdraw⟩

theorem scriptCmd_ends (args : List Bytes) (s : Side) :
    EndsAs (fun f => f = .hang ∧ ScriptHangs env s.tables.luaScripts args)
      (scriptCmd env dbs args s).1 := by
  have hnever : ∀ {x : Reply}, OkOr (Blames False) Whatever x →
      ¬ScriptHangs env s.tables.luaScripts args →
      EndsAs (fun f => f = .hang ∧ ScriptHangs env s.tables.luaScripts args) x :=
    fun hx hnot => ends_of_never hx fun f h => hnot h.2
  rw [scriptCmd, get_bind]
  rcases args with _ | ⟨sub, rest⟩
  · exact fun f h => h.2
  dsimp only
  by_cases hload : upper env sub = "LOAD"
  · rw [if_pos hload]
    have hflush : upper env sub ≠ "FLUSH" := by
      rw [hload]
      decide
    rcases rest with _ | ⟨script, rest⟩
    · refine fun f h => h.2.elim ?_ fun h => hflush h.1
      rintro ⟨-, script, hscript, -⟩
      cases hscript
    · dsimp only
      by_cases hlocked : lockedShard env.host s.tables.luaScripts
          (env.host.sha1Hex (fromUtf8Lossy script)) = true
      · rw [if_pos hlocked]
        exact ⟨⟨rfl, Or.inl ⟨hload, script, rfl, hlocked⟩⟩, fun h => by cases h.1⟩
      · rw [if_neg hlocked]
        refine hnever trivial ?_
        rintro (⟨-, script', hscript, h⟩ | h)
        · obtain rfl := Option.some.inj hscript
          exact hlocked h
        · exact hflush h.1
  rw [if_neg hload]
  by_cases hexists : upper env sub = "EXISTS"
  · rw [if_pos hexists]
    refine hnever trivial ?_
    rintro (h | h)
    · exact hload h.1
    · exact absurd (hexists.symm.trans h.1) (by decide)
  rw [if_neg hexists]
  by_cases hflush : upper env sub = "FLUSH"
  · rw [if_pos hflush]
    by_cases hreaders : s.tables.luaScripts.readers = []
    · rw [if_pos hreaders]
      refine hnever trivial ?_
      rintro (h | h)
      · exact hload h.1
      · exact h.2 hreaders
    · rw [if_neg hreaders]
      exact ⟨⟨rfl, Or.inr ⟨hflush, hreaders⟩⟩, fun h => by cases h.1⟩
  · rw [if_neg hflush]
    refine fun f h => h.2.elim ?_ ?_
    · exact fun h => hload h.1
    · exact fun h => hflush h.1

end Handlers

end Cmd

/-! ### Scripts -/

/-- The commands that a handler runs end as `fails` says, and without an error. -/
structure Tells (dispatch : Dispatch) (fails : Fault → String → List Bytes → Whole → Prop) :
    Prop where
  ends : ∀ name args w, EndsAs (fun f => fails f name args w) (dispatch name args w).1
  catches : ∀ name args w e, (dispatch name args w).1 ≠ .error (.error e)

namespace Cmd

section Scripts

variable {dispatch : Dispatch} {fails : Fault → String → List Bytes → Whole → Prop} (env : Env)

/-- A call fails only by hanging. -/
theorem redisCall_cases (hdispatch : Tells dispatch fails) (db : ℕ) (args : List LuaValue)
    (w : Whole) :
    (∃ w', redisCall dispatch env db args w = (.error .hang, w')) ∧
        CallHangs fails env db args w ∨
      (∃ answer w', redisCall dispatch env db args w = (.ok answer, w')) ∧
        ¬CallHangs fails env db args w := by
  rw [redisCall]
  cases hargs : callArgs env.host args with
  | error msg =>
    refine Or.inr ⟨⟨_, _, rfl⟩, ?_⟩
    rintro ⟨name, rest, h, -⟩
    rw [hargs] at h
    cases h
  | ok l =>
    cases l with
    | nil =>
      refine Or.inr ⟨⟨_, _, rfl⟩, ?_⟩
      rintro ⟨name, rest, h, -⟩
      rw [hargs] at h
      cases h
    | cons name rest =>
      have hhangs : CallHangs fails env db args w ↔
          fails .hang (upper env name) rest { w with ctx := { dbIndex := db } } := by
        refine ⟨?_, fun h => ⟨name, rest, hargs, h⟩⟩
        rintro ⟨name', rest', h, hfails⟩
        obtain ⟨rfl, rfl⟩ := List.cons.inj (Except.ok.inj (hargs.symm.trans h))
        exact hfails
      have hends := hdispatch.ends (upper env name) rest { w with ctx := { dbIndex := db } }
      rw [hhangs]
      dsimp only [withContext]
      rcases hrun : dispatch (upper env name) rest { w with ctx := { dbIndex := db } } with
        ⟨(e | _ | _) | resp, w'⟩
      · rw [hrun] at hends
        exact Or.inr ⟨⟨_, _, rfl⟩, hends .hang⟩
      · rw [hrun] at hends
        exact Or.inr ⟨⟨_, _, rfl⟩, hends.2⟩
      · rw [hrun] at hends
        exact Or.inl ⟨⟨_, rfl⟩, hends.1⟩
      · rw [hrun] at hends
        exact Or.inr ⟨⟨_, _, rfl⟩, hends .hang⟩

theorem runScript_ends (hdispatch : Tells dispatch fails) (db : ℕ) (p : LuaProc) (w : Whole) :
    EndsAs (fun f => ScriptFails dispatch fails env db f p w)
      (runScript dispatch env db p w).1 := by
  induction p generalizing w with
  | ret v => exact fun f h => h
  | fail msg => exact fun f h => h
  | panic => exact ends_panic rfl fun h => by cases h
  | call args k ih =>
    rw [runScript]
    rcases redisCall_cases env hdispatch db args w with
      ⟨⟨w', hcall⟩, hhangs⟩ | ⟨⟨answer, w', hcall⟩, hnot⟩
    · rw [bind_error hcall]
      refine ⟨Or.inl ⟨rfl, hhangs⟩, ?_⟩
      rintro (⟨h, -⟩ | ⟨answer, w'', h, -⟩)
      · cases h
      · rw [hcall] at h
        cases h
    · rw [bind_ok hcall]
      refine (ih answer w').congr fun f => ⟨fun h => Or.inr ⟨answer, w', hcall, h⟩, ?_⟩
      rintro (⟨-, h⟩ | ⟨answer', w'', h, hfails⟩)
      · exact absurd h hnot
      · rw [hcall] at h
        obtain ⟨hanswer, rfl⟩ := Prod.mk.inj h
        obtain rfl := Except.ok.inj hanswer
        exact hfails

theorem evalCmd_ends (hdispatch : Tells dispatch fails) (args : List Bytes) (w : Whole) :
    EndsAs (EvalFails dispatch fails env args w) (evalCmd dispatch env args w).1 := by
  rcases args with _ | ⟨script, _ | ⟨numKeys, rest⟩⟩
  · exact fun f h => h
  · exact fun f h => h
  rw [evalCmd, get_bind]
  dsimp only
  by_cases hstop : min ((2 + (argUsize numKeys).getD 0) % 2 ^ 64)
      (script :: numKeys :: rest).length < 2
  · rw [if_pos hstop]
    have hfails : ∀ f, EvalFails dispatch fails env (script :: numKeys :: rest) w f ↔ f = .panic :=
      fun f => iff_of_eq (if_pos hstop)
    exact ends_panic ((hfails _).mpr rfl) fun h => by cases (hfails _).mp h
  · rw [if_neg hstop]
    exact (runScript_ends env hdispatch _ _ w).congr fun f => iff_of_eq (if_neg hstop).symm

theorem evalshaCmd_ends (hdispatch : Tells dispatch fails) (args : List Bytes) (w : Whole) :
    EndsAs (EvalshaFails dispatch fails env args w) (evalshaCmd dispatch env args w).1 := by
  rcases args with _ | ⟨sha, _ | ⟨numKeys, rest⟩⟩
  · exact fun f h => h
  · exact fun f h => h
  rw [evalshaCmd, get_bind]
  dsimp only
  cases hsha : w.store.tables.luaScripts.entries.lookup (fromUtf8Lossy sha) with
  | none =>
    rintro f ⟨script, h, -⟩
    rw [hsha] at h
    cases h
  | some script =>
    dsimp only
    rw [readingScript_fst]
    refine (evalCmd_ends env hdispatch _ _).congr fun f => ⟨fun h => ⟨script, hsha, h⟩, ?_⟩
    rintro ⟨script', h, hfails⟩
    obtain rfl := Option.some.inj (hsha.symm.trans h)
    exact hfails

end Scripts

/-! ### `EXEC` -/

section Exec

variable {dispatch : Dispatch} {fails : Fault → String → List Bytes → Whole → Prop} (env : Env)

theorem execQueue_ends (hdispatch : Tells dispatch fails) (queue : List (List Bytes)) (w : Whole) :
    EndsAs (fun f => QueueFails dispatch fails env f queue w)
      (execQueue dispatch env queue w).1 := by
  induction queue generalizing w with
  | nil => exact fun f h => h
  | cons c queue ih =>
    cases c with
    | nil => exact ends_panic rfl fun h => by cases h
    | cons name args =>
      have hname := hdispatch.ends (upper env name) args w
      have hqueue := ih (dispatch (upper env name) args w).2
      rw [execQueue, arg_cons_zero, lift_ok_bind, List.tail_cons]
      rcases hrun : dispatch (upper env name) args w with ⟨(e | _ | _) | r, w'⟩
      · exact absurd (congrArg Prod.fst hrun) (hdispatch.catches _ _ _ e)
      · rw [hrun] at hname
        rw [bind_error hrun]
        refine ends_panic (Or.inl hname.1) ?_
        rintro (h | ⟨h, -⟩)
        · exact hname.2 h
        · exact h _ hname.1
      · rw [hrun] at hname
        rw [bind_error hrun]
        refine ⟨Or.inl hname.1, ?_⟩
        rintro (h | ⟨h, -⟩)
        · exact hname.2 h
        · exact h _ hname.1
      · rw [hrun] at hname
        have hrest : EndsAs (fun f => QueueFails dispatch fails env f ((name :: args) :: queue) w)
            (execQueue dispatch env queue (dispatch (upper env name) args w).2).1 :=
          hqueue.congr fun f => ⟨fun h => Or.inr ⟨hname, h⟩,
            fun h => (h.resolve_left (hname f)).2⟩
        rw [hrun] at hrest
        rw [bind_ok hrun]
        rcases hrun' : execQueue dispatch env queue w' with ⟨f | rs, w''⟩
        · rw [hrun'] at hrest
          rw [bind_error hrun']
          exact hrest.map fun rs => r :: rs
        · rw [hrun'] at hrest
          rw [bind_ok hrun']
          exact hrest

theorem checkWatched_ends (now : UInt64) (dbs : Databases) (i : ℕ) (keys : List Bytes)
    (versions : List ℕ) :
    EndsAs (fun f => f = .panic ∧ LacksVersions now dbs i keys versions)
      (checkWatched now dbs i keys versions) := by
  induction keys generalizing versions with
  | nil => exact fun f h => h.2
  | cons key keys ih =>
    rw [checkWatched]
    cases versions with
    | nil =>
      cases hversion : versionOf now dbs i key with
      | none =>
        rintro f ⟨-, h⟩
        rw [LacksVersions, hversion] at h
        cases h
      | some current =>
        refine ends_panic ⟨rfl, ?_⟩ fun h => by cases h.1
        rw [LacksVersions, hversion]
        rfl
    | cons v versions =>
      cases hversion : versionOf now dbs i key with
      | none =>
        rintro f ⟨-, h, -⟩
        rw [hversion] at h
        cases h
      | some current =>
        dsimp only
        by_cases hsame : current = v
        · rw [if_neg (not_not.mpr hsame)]
          refine (ih versions).congr fun f => and_congr_right fun _ => ?_
          rw [LacksVersions, hversion, hsame, eq_self, true_and]
        · rw [if_pos hsame]
          rintro f ⟨-, h, -⟩
          rw [hversion] at h
          exact hsame (Option.some.inj h)

theorem exec_ends (hdispatch : Tells dispatch fails) (w : Whole) :
    EndsAs (ExecFails dispatch fails env w) (exec dispatch env w).1 := by
  rw [exec, get_bind]
  cases hmulti : w.ctx.multiMode with
  | false =>
    rintro f ⟨h, -⟩
    rw [hmulti] at h
    cases h
  | true =>
    rw [if_neg (by simp), modify_bind]
    have hends := checkWatched_ends env.now w.store.databases w.ctx.dbIndex w.ctx.watchedKeys
      w.ctx.watchedVersions
    cases hwatched : checkWatched env.now w.store.databases w.ctx.dbIndex w.ctx.watchedKeys
        w.ctx.watchedVersions with
    | error fault =>
      rw [hwatched] at hends
      have hsame : ∀ f, (f = Fault.panic ∧ LacksVersions env.now w.store.databases w.ctx.dbIndex
          w.ctx.watchedKeys w.ctx.watchedVersions) ↔ ExecFails dispatch fails env w f := by
        intro f
        rw [ExecFails, hwatched]
        simp [hmulti]
      exact (hends.congr hsame).map fun _ => RespValue.nil
    | ok unchanged =>
      rw [hwatched] at hends
      rw [lift_ok_bind]
      cases unchanged with
      | false =>
        rintro f ⟨-, h | ⟨h, -⟩⟩
        · exact hends f h
        · rw [hwatched] at h
          cases h
      | true =>
        have hsame : ∀ f, QueueFails dispatch fails env f w.ctx.multiQueue
            { w with ctx := takeTransaction w.ctx } ↔ ExecFails dispatch fails env w f := by
          intro f
          rw [ExecFails, hwatched]
          simp only [hmulti, true_and]
          exact (or_iff_right (hends f)).symm
        have hqueue := (execQueue_ends env hdispatch w.ctx.multiQueue
          { w with ctx := takeTransaction w.ctx }).congr hsame
        rw [if_pos rfl]
        rcases hrun : execQueue dispatch env w.ctx.multiQueue
          { w with ctx := takeTransaction w.ctx } with ⟨f | rs, w'⟩
        · rw [hrun] at hqueue
          rw [bind_error hrun]
          exact hqueue.map fun rs => RespValue.array (some rs)
        · rw [hrun] at hqueue
          rw [bind_ok hrun]
          exact hqueue

end Exec

end Cmd

/-! ### Dispatching -/

section Dispatching

variable {dispatch : Dispatch} {fails : Fault → String → List Bytes → Whole → Prop} {env : Env}

variable {c : CommandDef} {args : List Bytes} {w : Whole} {f : Fault}

theorem CommandDef.HandlerFails.name_mem (h : c.HandlerFails env args w f) :
    c.name ∈ faultyCommands := by
  rcases h with ⟨-, hname, -⟩ | ⟨-, hname, -⟩ | ⟨hname, -⟩ | ⟨-, hname, -⟩ <;> rw [hname] <;> decide

theorem ends_faulty (dispatch : Dispatch) (fails : Fault → String → List Bytes → Whole → Prop)
    (env : Env) : ∀ name ∈ faultyCommands, ∃ c ∈ commands, c.name = name ∧
      ∀ args w, c.needs ≤ args.length →
        EndsAs (c.Fails dispatch fails env args w) (c.handler.run dispatch env args w).1 := by
  simp only [faultyCommands, List.forall_mem_cons]
  refine ⟨⟨⟨"SETRANGE", 4, .write Cmd.setrange⟩, by simp [commands, Cmd.stringCommands], rfl,
      fun args w hargs => ?_⟩,
    ⟨⟨"SRANDMEMBER", -2, .read Cmd.srandmember⟩, by simp [commands, Cmd.setCommands], rfl,
      fun args w hargs => ?_⟩,
    ⟨⟨"ZRANGEBYSCORE", -4, .read Cmd.zrangebyscore⟩, by simp [commands, Cmd.zsetCommands], rfl,
      fun args w hargs => ?_⟩,
    ⟨⟨"SCRIPT", -2, .side Cmd.scriptCmd⟩, by simp [commands, Cmd.luaCommands], rfl,
      fun args w hargs => ?_⟩, List.forall_mem_nil _⟩
  · exact (Cmd.setrange_ends env w.ctx.dbIndex hargs { databases := w.store.databases }).congr
      fun f => by simp [CommandDef.Fails, CommandDef.HandlerFails]
  · exact (Cmd.srandmember_ends env w.store.databases w.ctx.dbIndex hargs).congr
      fun f => by simp [CommandDef.Fails, CommandDef.HandlerFails]
  · exact (Cmd.zrangebyscore_ends env w.store.databases w.ctx.dbIndex hargs).congr
      fun f => by simp [CommandDef.Fails, CommandDef.HandlerFails]
  · exact (Cmd.scriptCmd_ends env w.store.databases args
      { tables := w.store.tables, ctx := w.ctx }).congr
      fun f => by simp [CommandDef.Fails, CommandDef.HandlerFails]

/-- A handler that has what it needs ends as it should. -/
theorem CommandDef.ends_run (hdispatch : Tells dispatch fails) {c : CommandDef}
    (hc : c ∈ commands) {args : List Bytes} (hargs : c.needs ≤ args.length) (w : Whole) :
    EndsAs (c.Fails dispatch fails env args w) (c.handler.run dispatch env args w).1 := by
  by_cases hfaulty : c.name ∈ faultyCommands
  · exact of_definitions (ends_faulty dispatch fails env) hc hfaulty args w hargs
  by_cases hname : c.name = "CLUSTER"
  · obtain rfl := List.inj_on_of_nodup_map nodup_commands hc cluster_mem_commands hname
    have hnone : ∀ f, ¬CommandDef.Fails dispatch fails env args w
        ⟨"CLUSTER", -2, .read Cmd.clusterCmd⟩ f := fun f h => hfaulty h.name_mem
    by_cases hknown : ∀ sub, args.head? = some sub → upper env sub ∈ Cmd.clusterSubcommands
    · exact ends_of_never
        (Cmd.clusterCmd_replies env w.store.databases w.ctx.dbIndex args hknown) hnone
    · push Not at hknown
      obtain ⟨sub, hsub, hnot⟩ := hknown
      obtain ⟨rest, rfl⟩ := List.head?_eq_some_iff.mp hsub
      rw [Handler.run_read, Cmd.clusterCmd_unknown env w.store.databases w.ctx.dbIndex hnot rest]
      exact hnone
  · have hanswers := answersNeeds_commands c hc hname
    have hfine : c.name ∈ faultyCommands ∨ args.length < c.needs → False :=
      fun h => h.elim hfaulty (Nat.not_lt_of_le hargs)
    rw [CommandDef.AnswersNeeds] at hanswers
    obtain ⟨name, arity, handler⟩ := c
    cases handler with
    | exec => exact Cmd.exec_ends env hdispatch w
    | eval => exact Cmd.evalCmd_ends env hdispatch args w
    | evalsha => exact Cmd.evalshaCmd_ends env hdispatch args w
    | read f =>
      exact ends_of_never ((hanswers env w.store.databases w.ctx.dbIndex args).mono
        (Blames.mono hfine) fun _ h => h) fun f h => hfaulty h.name_mem
    | write f =>
      exact ends_of_never ((hanswers env w.ctx.dbIndex args
        { databases := w.store.databases }).mono (Blames.mono hfine) fun _ h => h)
        fun f h => hfaulty h.name_mem
    | side f =>
      exact ends_of_never ((hanswers env w.store.databases args
        { tables := w.store.tables, ctx := w.ctx }).mono (Blames.mono hfine) fun _ h => h)
        fun f h => hfaulty h.name_mem
    | whole f =>
      exact ends_of_never ((hanswers env args w).mono (Blames.mono hfine) fun _ h => h)
        fun f h => hfaulty h.name_mem

theorem needs_of_nonpos (h : ¬0 < c.arity) : c.needs = indexedArgs c.name := if_neg h

/-- A command with a positive arity gets what its handler needs. -/
theorem needs_le_length (hrefuses : c.refuses args = false) (hpos : 0 < c.arity) :
    c.needs ≤ args.length := by
  have hmod : ((args.length : ℤ) + 1).bmod (2 ^ 32) = c.arity := by
    by_contra hne
    rw [(refuses_iff c args).mpr ⟨hpos, hne⟩] at hrefuses
    cases hrefuses
  rw [CommandDef.needs, if_pos hpos]
  rw [Int.bmod_def] at hmod
  split at hmod <;> omega

/-- `SRANDMEMBER` does not hang without a key, and `SCRIPT` indexes nothing. -/
theorem not_hangs_of_lt (hneg : ¬0 < c.arity) (hargs : args.length < c.needs) :
    ¬c.HandlerFails env args w .hang := by
  rw [needs_of_nonpos hneg] at hargs
  rintro (⟨h, -⟩ | ⟨h, -⟩ | ⟨hname, hfails⟩ | ⟨-, hname, -⟩)
  · cases h
  · cases h
  · have hone : indexedArgs "SRANDMEMBER" = 1 := by decide
    rw [hname, hone] at hargs
    obtain rfl := List.length_eq_zero_iff.mp (Nat.lt_one_iff.mp hargs)
    exact hfails
  · have hzero : indexedArgs "SCRIPT" = 0 := by decide
    rw [hname, hzero] at hargs
    exact absurd hargs (Nat.not_lt_zero _)

/-- A handler that lacks an argument panics. -/
theorem CommandDef.panics_run (hc : c ∈ commands) (hneg : ¬0 < c.arity)
    (hargs : args.length < c.needs) (w : Whole) :
    EndsAs (fun f => f = .panic ∧ args.length < c.needs ∨ c.Fails dispatch fails env args w f)
      (c.handler.run dispatch env args w).1 := by
  have hpanics := (panics_commands c hc).resolve_left hneg
  have hhang : ¬c.HandlerFails env args w .hang := not_hangs_of_lt hneg hargs
  have hindexed := hargs
  rw [needs_of_nonpos hneg] at hindexed
  have hends : ∀ {x : Reply}, x = .error .panic →
      (¬c.Fails dispatch fails env args w .hang) →
      EndsAs (fun f => f = .panic ∧ args.length < c.needs ∨
        c.Fails dispatch fails env args w f) x := by
    rintro x rfl hnot
    exact ends_panic (Or.inl ⟨rfl, hargs⟩) fun h => h.elim (fun h => by cases h.1) hnot
  obtain ⟨name, arity, handler⟩ := c
  cases handler with
  | read f => exact hends (hpanics env w.store.databases w.ctx.dbIndex args hindexed) hhang
  | write f =>
    exact hends (hpanics env w.ctx.dbIndex { databases := w.store.databases } args hindexed) hhang
  | side f =>
    exact hends (hpanics env w.store.databases { tables := w.store.tables, ctx := w.ctx } args
      hindexed) hhang
  | whole f => exact hends (hpanics env w args hindexed) hhang
  | exec => exact absurd hindexed (by rw [show indexedArgs name = 0 from hpanics]; omega)
  | eval => exact absurd hindexed (by rw [show indexedArgs name = 0 from hpanics]; omega)
  | evalsha => exact absurd hindexed (by rw [show indexedArgs name = 0 from hpanics]; omega)

/-- A handler that is let through ends as it should. -/
theorem CommandDef.ends_allowed (hdispatch : Tells dispatch fails) (hc : c ∈ commands)
    (hrefuses : c.refuses args = false) (w : Whole) :
    EndsAs (fun f => f = .panic ∧ args.length < c.needs ∨ c.Fails dispatch fails env args w f)
      (c.handler.run dispatch env args w).1 := by
  by_cases hargs : c.needs ≤ args.length
  · exact (CommandDef.ends_run hdispatch hc hargs w).congr fun f =>
      (or_iff_right fun h => Nat.not_lt_of_le hargs h.2).symm
  · exact CommandDef.panics_run hc (fun hpos => hargs (needs_le_length hrefuses hpos))
      (Nat.lt_of_not_le hargs) w

end Dispatching

theorem dispatchDepth_ne_error (env : Env) (depth : ℕ) (name : String) (args : List Bytes)
    (w : Whole) (e : VeloDBError) :
    (dispatchDepth env depth name args w).1 ≠ .error (.error e) := by
  intro he
  have hframed := framed_dispatchDepth env depth name args w
  rw [he] at hframed
  exact hframed e rfl

/-- **How a command ends**, at every depth of nesting. -/
theorem tells_dispatchDepth (env : Env) (depth : ℕ) :
    Tells (dispatchDepth env depth) (Fails env depth) := by
  refine ⟨?_, dispatchDepth_ne_error env depth⟩
  induction depth with
  | zero => exact fun name args w => ends_panic rfl fun h => by cases h
  | succ depth ih =>
    intro name args w
    rw [dispatchDepth, dispatchWith]
    cases hdenied : w.store.tables.deniesMemory name with
    | true =>
      rw [if_pos rfl]
      rintro f ⟨c, -, h, -⟩
      rw [hdenied] at h
      cases h
    | false =>
      rw [if_neg (by simp)]
      cases hfind : findCommand name with
      | none =>
        rintro f ⟨c, h, -⟩
        rw [hfind] at h
        cases h
      | some c =>
        obtain ⟨hc, -⟩ := mem_of_findCommand hfind
        cases hrefuses : c.refuses args with
        | true =>
          dsimp only
          rw [if_pos hrefuses]
          rintro f ⟨c', h, -, h', -⟩
          obtain rfl := Option.some.inj (hfind.symm.trans h)
          rw [hrefuses] at h'
          cases h'
        | false =>
          dsimp only
          rw [if_neg (by simp [hrefuses])]
          have hallowed : EndsAs (fun f => f = .panic ∧ args.length < c.needs ∨
              c.Fails (dispatchDepth env depth) (Fails env depth) env args w f)
              (c.handler.run (dispatchDepth env depth) env args w).1 :=
            CommandDef.ends_allowed ⟨ih, dispatchDepth_ne_error env depth⟩ hc hrefuses w
          refine (ends_catchError hallowed).congr fun f =>
            ⟨fun h => ⟨c, hfind, hdenied, hrefuses, h⟩, ?_⟩
          rintro ⟨c', h, -, -, hfails⟩
          obtain rfl := Option.some.inj (hfind.symm.trans h)
          exact hfails

/-- A well-counted command is let through, with all that its handler needs. -/
theorem allowed_of_not_violates {c : CommandDef} (hc : c ∈ commands) {args : List Bytes}
    (h : ¬c.Violates args) : c.refuses args = false ∧ c.needs ≤ args.length := by
  have hneeds := needs_le c hc
  have hsmall : ∀ c ∈ commands, c.arity < 2 ^ 31 := by decide +kernel
  have harity := hsmall c hc
  rw [CommandDef.Violates] at h
  by_cases hpos : 0 < c.arity
  · rw [if_pos hpos, not_not] at h
    have hlen : args.length + 1 < 2 ^ 31 := by omega
    refine ⟨refuses_of_length h.symm hlen, ?_⟩
    omega
  · rw [if_neg hpos] at h
    refine ⟨?_, ?_⟩
    · rw [CommandDef.refuses]
      simp [hpos]
    · have habs := Int.abs_eq_natAbs c.arity
      omega

/-- **Which commands answer.** A well-counted command is answered exactly where the memory gate
stops it or its handler does not fail: `SETRANGE` has room for what it writes, `ZRANGEBYSCORE` has
its bounds in order, `SRANDMEMBER` has few enough members to draw, `SCRIPT` finds the shards that it
changes unlocked, `EVAL` has a number of keys whose sum with two does not wrap, and what scripts and
transactions run does not fail in turn. -/
theorem dispatch_answers_iff {c : CommandDef} (hc : c ∈ commands) (env : Env) (args : List Bytes)
    (w : Whole) (h : ¬c.Violates args) : (∃ r, (dispatch env c.name args w).1 = .ok r) ↔
      w.store.tables.deniesMemory c.name = true ∨
        ∀ f, ¬c.Fails (dispatchDepth env env.nesting) (Fails env env.nesting) env args w f := by
  obtain ⟨hrefuses, hneeds⟩ := allowed_of_not_violates hc h
  cases hdenied : w.store.tables.deniesMemory c.name with
  | true =>
    refine iff_of_true ?_ (Or.inl rfl)
    rw [dispatch_eq_entry hc, dispatchEntry_denied hdenied]
    exact ⟨_, rfl⟩
  | false =>
    rw [dispatch_eq hc env hdenied hrefuses, or_iff_right (by simp)]
    exact (CommandDef.ends_run (tells_dispatchDepth env env.nesting) hc hneeds w).answers_iff

/-- `SETRANGE` behind the end of a string is answered. -/
theorem dispatch_answers_setrange :
    ∃ r, (dispatch plainEnv "SETRANGE" [asBytes "k", asBytes "2", asBytes "ab"] nothing).1
      = .ok r := by
  have hfits : ¬Cmd.Overruns [] ((argUsize (asBytes "2")).getD 0) (asBytes "ab") := by
    decide +kernel
  refine (dispatch_answers_iff (c := ⟨"SETRANGE", 4, .write Cmd.setrange⟩)
    (by simp [commands, Cmd.stringCommands]) plainEnv _ nothing (by decide)).mpr (Or.inr ?_)
  rintro f (⟨-, -, v, hv, hover⟩ | ⟨-, h, -⟩ | ⟨h, -⟩ | ⟨-, h, -⟩)
  · cases hv
    exact hfits hover
  · exact absurd h (by decide)
  · exact absurd h (by decide)
  · exact absurd h (by decide)

/-- **An offset at the end of its type.** The sum of the offset and the length wraps to `0`, and the
slice that is to be written ends before it starts. -/
theorem dispatch_setrange_panics :
    ¬CommandDef.Violates ⟨"SETRANGE", 4, .write Cmd.setrange⟩
      [asBytes "k", asBytes "18446744073709551615", asBytes "a"] ∧
    (dispatch plainEnv "SETRANGE" [asBytes "k", asBytes "18446744073709551615", asBytes "a"]
      nothing).1 = .error .panic := by
  have hover : Cmd.Overruns [] ((argUsize (asBytes "18446744073709551615")).getD 0)
      (asBytes "a") := by decide +kernel
  have hname : findCommand "SETRANGE" = some ⟨"SETRANGE", 4, .write Cmd.setrange⟩ :=
    findCommand_of_mem (c := ⟨"SETRANGE", 4, .write Cmd.setrange⟩)
      (by simp [commands, Cmd.stringCommands])
  refine ⟨by decide, ((tells_dispatchDepth plainEnv 2).ends _ _ _).eq_panic
    ⟨_, hname, rfl, by decide, Or.inr (Or.inl ⟨rfl, rfl, none, rfl, hover⟩)⟩⟩

end VeloDB
