import VeloDB.Cmd.Methods

/-!
# What the writing commands do to the store

Every command that writes does so through a few steps on the database of its client: an entry is
stored or removed, a waiting client is notified, a database is emptied. What these steps preserve,
the commands preserve.

## Main results

* `Keyspace.WriteClosed.commands` — a relation that holds across the steps holds across the commands
* `stays_dispatch` — a command brings nothing into another database
-/

namespace VeloDB

open Rust Proc

/-- The relation holds across each step that writes to database `i`, and across those that remove
something anywhere. -/
structure Keyspace.WriteClosed (R : Keyspace → Keyspace → Prop) (i : ℕ) : Prop where
  put : ∀ k e, Moves R (Keyspace.put i k e)
  remove : ∀ j k, Moves R (Keyspace.remove j k)
  notify : ∀ k, Moves R (Keyspace.notify k)
  clear : ∀ s : Keyspace, R s { s with databases := s.databases.clear i }
  clearAll : ∀ s : Keyspace, R s { s with databases := s.databases.map fun _ => ∅ }

namespace Keyspace.WriteClosed

variable {R : Keyspace → Keyspace → Prop} [Std.Refl R] [IsTrans Keyspace R] {i : ℕ}

variable (h : WriteClosed R i)

include h

/-! ### Methods of the store -/

section Methods

variable {α β : Type} (kind : Kind α) (k : Bytes) (f : α → Except Failure β × α)

theorem changeAs (e : Entry) : Moves R (Keyspace.changeAs kind i k e f) := by
  rw [Keyspace.changeAs]
  cases kind.unwrap e.value with
  | none => exact moves_throw _
  | some a => exact (h.put k _).bind fun _ => moves_ofExcept _

theorem updateAs (now : UInt64) (missing : Except Failure β) :
    Moves R (Keyspace.updateAs kind now i k missing f) := by
  refine (moves_read _).bind fun e => ?_
  cases e with
  | none => exact moves_ofExcept _
  | some e => exact h.changeAs kind k f e

theorem upsertAs (fresh : α) : Moves R (Keyspace.upsertAs kind i k fresh f) :=
  (moves_read _).bind fun _ => h.changeAs kind k f _

end Methods

theorem set (k v : Bytes) (at_ : Option UInt64) : Moves R (Keyspace.set i k v at_) :=
  (moves_read _).bind fun _ => h.put k _

theorem del (k : Bytes) : Moves R (Keyspace.del i k) :=
  (moves_read _).bind fun _ => (h.remove i k).bind fun _ => moves_pure _

theorem changeExpire (k : Bytes) (at_ : Option UInt64) :
    Moves R (Keyspace.changeExpire i k at_) := by
  refine (moves_read _).bind fun d => ?_
  cases d.lookup k with
  | none => exact moves_pure _
  | some e => exact (h.put k _).bind fun _ => moves_pure _

theorem rename (old new : Bytes) : Moves R (Keyspace.rename i old new) := by
  refine (moves_read _).bind fun d => ?_
  cases d.lookup old with
  | none => exact moves_throw _
  | some e => exact (h.remove i old).bind fun _ => h.put new _

theorem dbsize (now : UInt64) (j : ℕ) : Moves R (Keyspace.dbsize now j) :=
  (moves_read _).bind fun _ => (moves_each fun p _ => h.remove j p.1).bind fun _ => moves_pure _

/-- The methods of the store, whatever the key. -/
theorem methods (now : UInt64) : MethodsHave (fun _ m => Moves R m) now i fun _ => True where
  ofExcept := moves_ofExcept
  bind := Moves.bind
  get _ := moves_read _
  existsKey _ := moves_read _
  generateStreamId _ _ := moves_read _
  streamLastId _ := moves_read _
  updateAs kind k missing f := h.updateAs kind k f now missing
  upsertAs kind k _ fresh f := h.upsertAs kind k f fresh
  set _ := h.set _
  changeExpire _ := h.changeExpire _
  rename old new _ := h.rename old new
  del := h.del
  notify := h.notify
  flushdb := (moves_read _).bind fun _ => fun s => h.clear s
  flushall := h.clearAll

end Keyspace.WriteClosed

/-- What the handler writes, it writes along `R`. -/
def Handler.WritesAlong (R : Keyspace → Keyspace → Prop) (i : ℕ) : Handler → Prop
  | .write f => ∀ env args, Moves R (f env i args)
  | _ => True

namespace Keyspace.WriteClosed

variable {R : Keyspace → Keyspace → Prop} [Std.Refl R] [IsTrans Keyspace R] {i : ℕ}

/-- **What holds across the steps holds across the commands.** -/
theorem commands (h : WriteClosed R i) : ∀ c ∈ VeloDB.commands, c.handler.WritesAlong R i := by
  intro c hc
  cases hf : c.handler with
  | write f =>
    intro env args
    by_cases hpurges : c.name ∈ purgingNames
    · exact moves_purging (h.dbsize env.now) hc hpurges i args hf
    · exact (h.methods env.now).commands args c hc hpurges (fun _ _ => trivial)
        (fun _ _ => trivial) f hf
  | _ => trivial

end Keyspace.WriteClosed

/-- What a blocking pop does to the databases is what its loop does. -/
theorem blockingPop_databases (pop : UInt64 → ℕ → Bytes → KeyM (Option Bytes))
    (direction : PopDirection) (env : Env) (args : List Bytes) (w : Whole) :
    (Cmd.blockingPop pop direction env args w).2.store.databases
      = (Cmd.popFirst (pop env.now w.ctx.dbIndex) args.dropLast
          ⟨w.store.databases, []⟩).2.databases := by
  rw [Cmd.blockingPop]
  dsimp only
  by_cases hargs : args.length = 0
  · rw [if_pos hargs, List.length_eq_zero_iff.mp hargs]
    rfl
  · rw [if_neg hargs, Proc.get_bind]
    rcases hloop : Cmd.popFirst (pop env.now w.ctx.dbIndex) args.dropLast ⟨w.store.databases, []⟩
      with ⟨r, s⟩
    have hrun : Cmd.onKeyspace (Cmd.popFirst (pop env.now w.ctx.dbIndex) args.dropLast) w
        = (r, { w with store := { w.store with databases := s.databases } }) := by
      rw [Cmd.onKeyspace, hloop]
    cases r with
    | error e => rw [Proc.bind_error hrun]
    | ok o =>
      rw [Proc.bind_ok hrun]
      cases o with
      | some p => rfl
      | none =>
        dsimp only
        split_ifs <;> rfl

/-! ### Other databases -/

/-- There are as many databases as before, and what was not in a database other than `i` still is
not. -/
structure Stays (i : ℕ) (dbs dbs' : Databases) : Prop where
  length : dbs'.length = dbs.length
  find : ∀ j k, j ≠ i → dbs.find j k = none → dbs'.find j k = none

/-- `Stays` for the databases of a command. -/
def KeyStays (i : ℕ) (s s' : Keyspace) : Prop := Stays i s.databases s'.databases

instance (i : ℕ) : Std.Refl (KeyStays i) := ⟨fun _ => ⟨rfl, fun _ _ _ h => h⟩⟩

instance (i : ℕ) : IsTrans Keyspace (KeyStays i) :=
  ⟨fun _ _ _ h h' => ⟨h'.length.trans h.length, fun j k hj hk => h'.find j k hj (h.find j k hj hk)⟩⟩

theorem find_remove_none {dbs : Databases} {i j : ℕ} {k k' : Bytes} (h : dbs.find j k' = none) :
    (dbs.remove i k).find j k' = none := by
  by_cases hne : j ≠ i ∨ k' ≠ k
  · rw [Databases.find_remove_of_ne hne, h]
  · obtain ⟨rfl, rfl⟩ := not_or.mp hne |>.imp not_ne_iff.mp not_ne_iff.mp
    exact Databases.find_remove_self

theorem writeClosed_keyStays (i : ℕ) : Keyspace.WriteClosed (KeyStays i) i where
  put k e s := ⟨Databases.length_put, fun j k' hj hk =>
    (Databases.find_put_of_ne (Or.inl hj)).trans hk⟩
  remove j k s := ⟨Databases.length_remove, fun _ _ _ h => find_remove_none h⟩
  notify k s := ⟨rfl, fun _ _ _ h => h⟩
  clear s := ⟨Databases.length_clear, fun j k hj hk =>
    (Databases.find_modify_of_ne _ hj.symm).trans hk⟩
  clearAll s := by
    refine ⟨List.length_map _, fun j k _ _ => ?_⟩
    rw [Databases.find, List.getElem?_map]
    cases s.databases[j]? <;> rfl

/-- **A command stays in the database of its client.** -/
theorem stays_dispatch {c : CommandDef} (hc : c ∈ commands)
    {f : Env → ℕ → List Bytes → KeyM RespValue} (hf : c.handler = .write f) (env : Env)
    (args : List Bytes) (w : Whole) :
    Stays w.ctx.dbIndex w.store.databases (dispatch env c.name args w).2.store.databases := by
  have hwrites := (writeClosed_keyStays w.ctx.dbIndex).commands c hc
  rw [hf] at hwrites
  rcases dispatch_snd hc env args w with h | h
  · rw [h]
    exact ⟨rfl, fun _ _ _ h => h⟩
  · rw [h, hf]
    exact hwrites env args { databases := w.store.databases }

end VeloDB
