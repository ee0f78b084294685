import VeloDB.Cmd.Table

/-!
# Arities

The table declares how many words a command takes, the name counted: exactly so many if the number
is positive, at least so many if it is negative. `dispatch` compares the count with the positive
numbers only. A command with a negative one gets its arguments however few they are, and its handler
indexes them.

The main result is `arityEnforced_iff`.
-/

namespace VeloDB

open Rust

/-- `dispatch` once it has found the entry. -/
def dispatchEntry (dispatch : Dispatch) (env : Env) (c : CommandDef) (args : List Bytes) :
    WholeM RespValue := fun w =>
  if w.store.tables.deniesMemory c.name then
    (.ok (.error "OOM command not allowed when used memory > 'maxmemory'."), w)
  else if c.refuses args then
    (.ok (.error ("ERR wrong number of arguments for '" ++ env.host.toLowercase c.name ++
      "' command")), w)
  else catchError (c.handler.run dispatch env args) w

theorem dispatchDepth_eq_entry {c : CommandDef} (hc : c ∈ commands) (env : Env) (depth : ℕ)
    (args : List Bytes) : dispatchDepth env (depth + 1) c.name args
      = dispatchEntry (dispatchDepth env depth) env c args := by
  funext w
  rw [dispatchDepth, dispatchWith, findCommand_of_mem hc]
  rfl

theorem dispatch_eq_entry {c : CommandDef} (hc : c ∈ commands) (env : Env) (args : List Bytes) :
    dispatch env c.name args = dispatchEntry (dispatchDepth env env.nesting) env c args :=
  dispatchDepth_eq_entry hc env env.nesting args

section Entry

variable {dispatch : Dispatch} {env : Env} {c : CommandDef} {args : List Bytes} {w : Whole}

theorem dispatchEntry_denied (h : w.store.tables.deniesMemory c.name = true) :
    dispatchEntry dispatch env c args w
      = (.ok (.error "OOM command not allowed when used memory > 'maxmemory'."), w) := if_pos h

theorem dispatchEntry_refused (h : w.store.tables.deniesMemory c.name = false)
    (hargs : c.refuses args = true) : dispatchEntry dispatch env c args w
      = (.ok (.error ("ERR wrong number of arguments for '" ++ env.host.toLowercase c.name ++
          "' command")), w) := by
  rw [dispatchEntry, if_neg (by simp [h]), if_pos hargs]

theorem dispatchEntry_run (h : w.store.tables.deniesMemory c.name = false)
    (hargs : c.refuses args = false) :
    dispatchEntry dispatch env c args w = catchError (c.handler.run dispatch env args) w := by
  rw [dispatchEntry, if_neg (by simp [h]), if_neg (by simp [hargs])]

end Entry

/-- The count of words is not as declared. -/
def CommandDef.Violates (c : CommandDef) (args : List Bytes) : Prop :=
  if 0 < c.arity then (args.length : ℤ) + 1 ≠ c.arity else (args.length : ℤ) + 1 < |c.arity|

instance (c : CommandDef) (args : List Bytes) : Decidable (c.Violates args) :=
  inferInstanceAs (Decidable (ite _ _ _))

/-- The arguments are refused for their number, and nothing else comes of the command, whatever its
handler would have done. -/
structure ArityEnforced (env : Env) (c : CommandDef) (args : List Bytes) (w : Whole) : Prop where
  refused : dispatch env c.name args w = (.ok (.error ("ERR wrong number of arguments for '" ++
    env.host.toLowercase c.name ++ "' command")), w)
  notRun : ∀ handler, dispatchEntry (dispatchDepth env env.nesting) env { c with handler } args w
    = dispatch env c.name args w

theorem refuses_iff (c : CommandDef) (args : List Bytes) : c.refuses args = true ↔
    0 < c.arity ∧ ((args.length : ℤ) + 1).bmod (2 ^ 32) ≠ c.arity := by
  rw [CommandDef.refuses, Bool.and_eq_true, decide_eq_true_iff, decide_eq_true_iff]

/-- **Where the arity is enforced.** A count that is not as declared is refused exactly where the
memory gate lets the command through, the declared number is positive, and the count is still
another one in 32 bits. -/
theorem arityEnforced_iff {c : CommandDef} (hc : c ∈ commands) (env : Env) (args : List Bytes)
    (w : Whole) : (c.Violates args → ArityEnforced env c args w) ↔
      ¬c.Violates args ∨ w.store.tables.deniesMemory c.name = false ∧
        0 < c.arity ∧ ((args.length : ℤ) + 1).bmod (2 ^ 32) ≠ c.arity := by
  rw [← refuses_iff]
  constructor
  · intro h
    by_cases hviolates : c.Violates args
    · obtain ⟨hrefused, hnotRun⟩ := h hviolates
      let other : CommandDef := { c with handler := .read fun _ _ _ _ => .ok .ok }
      have hentry := (hnotRun other.handler).trans hrefused
      cases hdenies : w.store.tables.deniesMemory c.name with
      | true =>
        have htext := congrArg (fun r : Except Failure RespValue × Whole => r.1)
          ((dispatchEntry_denied (c := other) hdenies).symm.trans hentry)
        simp only [Except.ok.injEq, RespValue.error.injEq] at htext
        have hhead := congrArg (fun s : String => s.toList.head?) htext
        simp at hhead
      | false =>
        refine Or.inr ⟨rfl, ?_⟩
        cases hrefuses : c.refuses args with
        | true => rfl
        | false =>
          cases congrArg (fun r : Except Failure RespValue × Whole => r.1)
            ((dispatchEntry_run (c := other) hdenies hrefuses).symm.trans hentry)
    · exact Or.inl hviolates
  · rintro (hnot | ⟨hdenies, hrefuses⟩) hviolates
    · exact absurd hviolates hnot
    · have hself := (congrFun (dispatch_eq_entry hc env args) w).trans
        (dispatchEntry_refused hdenies hrefuses)
      exact ⟨hself, fun handler =>
        (dispatchEntry_refused (c := { c with handler }) hdenies hrefuses).trans hself.symm⟩

/-- `GET` without a key is refused. -/
theorem arityEnforced_get : ArityEnforced (Moment.on ⟨0, 0, 0, 1⟩ Host.plain)
    ⟨"GET", 2, .read Cmd.get⟩ [] { store := Store.new 1, ctx := {} } :=
  (arityEnforced_iff (by simp [commands, Cmd.stringCommands]) _ _ _).mpr
    (Or.inr ⟨rfl, by decide, by decide⟩) (by decide)

/-- **`SET` with a key and no value gets to the handler**, which indexes the value. -/
theorem arity_of_set_not_enforced :
    ¬(CommandDef.Violates ⟨"SET", -3, .write Cmd.set⟩ [asBytes "k"] →
      ArityEnforced (Moment.on ⟨0, 0, 0, 1⟩ Host.plain) ⟨"SET", -3, .write Cmd.set⟩ [asBytes "k"]
        { store := Store.new 1, ctx := {} }) ∧
    (dispatch (Moment.on ⟨0, 0, 0, 1⟩ Host.plain) "SET" [asBytes "k"]
      { store := Store.new 1, ctx := {} }).1 = .error .panic := by
  refine ⟨fun h => ?_, rfl⟩
  have hrefused := congrArg (fun r : Except Failure RespValue × Whole => r.1)
    (h (by decide)).refused
  cases hrefused

end VeloDB
