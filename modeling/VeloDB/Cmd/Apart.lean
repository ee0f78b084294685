import VeloDB.Cmd.GroupCalls
import VeloDB.Cmd.Local
import VeloDB.Cmd.Locality
import VeloDB.Cmd.Stale
import VeloDB.Cmd.StreamIds
import VeloDB.Cmd.Trace
import Mathlib.Order.CompletePartialOrder

/-!
# Keys that a command leaves alone

A command works on the keys that it names, in the database that its client has selected, and
`FLUSHDB` and `FLUSHALL` on whole databases. All other keys look as before, at the time of the
command and later: not one command looks different to somebody who keeps away from its keys.

`DBSIZE` and `INFO` throw out what has expired in any database, which nobody sees. A script is given
the database of its caller with every call it makes, so that a `SELECT` among them comes to nothing,
and nested scripts stay there, too.

## Main results

* `apart_dispatch` — a command, and keys that none of its calls works on
* `script_in_database` — scripts
-/

namespace VeloDB

open Rust Proc

/-! ### Methods -/

/-- The keys `K` look at time `t` as they did. -/
structure Apart (t : UInt64) (K : Set (ℕ × Bytes)) (dbs dbs' : Databases) : Prop where
  length : dbs'.length = dbs.length
  live : ∀ i k, (i, k) ∈ K → dbs'.liveEntry t i k = dbs.liveEntry t i k

/-- The same, of the databases during a command. -/
def KeyApart (t : UInt64) (K : Set (ℕ × Bytes)) (s s' : Keyspace) : Prop :=
  Apart t K s.databases s'.databases

namespace Apart

variable {t : UInt64} {K L : Set (ℕ × Bytes)}

instance : Std.Refl (Apart t K) := ⟨fun _ => ⟨rfl, fun _ _ _ => rfl⟩⟩

instance : IsTrans Databases (Apart t K) where
  trans _ _ _ h h' :=
    ⟨h'.length.trans h.length, fun i k hk => (h'.live i k hk).trans (h.live i k hk)⟩

instance : Std.Refl (KeyApart t K) := ⟨fun s => refl_of (Apart t K) s.databases⟩

instance : IsTrans Keyspace (KeyApart t K) := ⟨fun _ _ _ => trans_of (Apart t K)⟩

theorem of_find {dbs dbs' : Databases} (hlen : dbs'.length = dbs.length)
    (h : ∀ i k, (i, k) ∈ K → dbs'.find i k = dbs.find i k) : Apart t K dbs dbs' := by
  refine ⟨hlen, fun i k hk => ?_⟩
  rw [Databases.liveEntry, h i k hk, Databases.liveEntry]

/-- What works on other keys. -/
theorem of_local {α : Type} {m : KeyM α} (hoff : Disjoint K L) (h : Local keyView L m) :
    Moves (KeyApart t K) m :=
  fun s => of_find (h.frame s) fun i k hk =>
    h.outside s (i, k) fun hL => Set.disjoint_left.mp hoff hk hL

/-- Throwing out what has expired. -/
theorem dbsize {now : UInt64} (hnow : now ≤ t) (i : ℕ) :
    Moves (KeyApart t K) (Keyspace.dbsize now i) := by
  have hremove : ∀ (l : List (Bytes × Entry)) (s : Keyspace),
      (∀ p ∈ l, s.databases.liveEntry t i p.1 = none) →
        KeyApart t K s (Proc.each l (fun p => Keyspace.remove i p.1) s).2 := by
    intro l
    induction l with
    | nil => exact fun s _ => refl_of (KeyApart t K) s
    | cons p l ih =>
      intro s hl
      have hgone := hl p List.mem_cons_self
      have hone : KeyApart t K s { s with databases := s.databases.remove i p.1 } :=
        ⟨Databases.length_remove, fun j k _ => liveEntry_remove hgone j k⟩
      refine trans_of (KeyApart t K) hone (ih _ fun q hq => ?_)
      exact (liveEntry_remove hgone i q.1).trans (hl q (List.mem_cons_of_mem _ hq))
  rintro ⟨dbs, notified⟩
  by_cases hi : i < dbs.length
  · have hok := (Keyspace.each_remove_run (i := i)
      (dbs[i].pairs.filter fun p => p.2.expired now) ⟨dbs, notified⟩).1
    rw [Keyspace.dbsize, Proc.bind_ok (Keyspace.read_db hi notified),
      Proc.bind_ok (Prod.ext hok rfl)]
    exact hremove _ _ fun p hp => liveEntry_later (liveEntry_of_expired hi hp) hnow
  · obtain ⟨e, he⟩ := Keyspace.read_db_error (Nat.le_of_not_lt hi) notified
    rw [Keyspace.dbsize, Proc.bind_error he]
    exact refl_of (KeyApart t K) _

theorem flushdb {i : ℕ} (hoff : Disjoint K {c | c.1 = i}) :
    Moves (KeyApart t K) (Keyspace.flushdb i) := by
  refine (Keyspace.moves_read _).bind fun _ s => of_find (List.length_modify ..) fun j k hk => ?_
  exact Databases.find_modify_of_ne _ fun h => Set.disjoint_left.mp hoff hk h.symm

end Apart

/-! ### The keys of a call -/

/-- The keys of its database on which a command may change something. -/
def workedOn (name : String) (args : List Bytes) : List Bytes :=
  if name ∈ keyedNames then keysOf name args
  else if name = "BLPOP" ∨ name = "BRPOP" then args.dropLast
  else if name = "XGROUP" then (args.drop 1).take 1
  else []

/-- The call may change something there. -/
def Call.WorksOn (c : Call) (x : ℕ × Bytes) : Prop :=
  c.command.name = "FLUSHALL" ∨ x.1 = c.before.ctx.dbIndex ∧
    (c.command.name = "FLUSHDB" ∨ x.2 ∈ workedOn c.command.name c.args)

instance (c : Call) (x : ℕ × Bytes) : Decidable (c.WorksOn x) :=
  inferInstanceAs (Decidable (_ ∨ _ ∧ (_ ∨ _)))

/-! ### Commands -/

/-- A writing command names its keys, throws out what has expired, or empties databases. -/
theorem names_of_write {c : CommandDef} (hc : c ∈ commands) (hwrite : c.handler.isWrite = true) :
    c.name ∈ keyedNames ∨ c.name ∈ purgingNames ∨ c.name = "FLUSHDB" ∨ c.name = "FLUSHALL" := by
  have hall : (commands.all fun c => !c.handler.isWrite || decide (c.name ∈ keyedNames ∨
      c.name ∈ purgingNames ∨ c.name = "FLUSHDB" ∨ c.name = "FLUSHALL")) = true := by
    decide +kernel
  have h := List.all_eq_true.mp hall c hc
  rw [hwrite] at h
  exact of_decide_eq_true h

section Commands

variable {t : UInt64} {K : Set (ℕ × Bytes)} {i : ℕ} {env : Env}

theorem disjoint_worked {c : Call} (hoff : ∀ x ∈ K, ¬c.WorksOn x) {keys : List Bytes}
    (hkeys : workedOn c.command.name c.args = keys) :
    Disjoint K {x | x.1 = c.before.ctx.dbIndex ∧ x.2 ∈ keys} := by
  refine Set.disjoint_left.mpr fun x hx hmem => hoff x hx (Or.inr ⟨hmem.1, Or.inr ?_⟩)
  rw [hkeys]
  exact hmem.2

theorem apart_write {c : Call} (hc : c.command ∈ commands) (hoff : ∀ x ∈ K, ¬c.WorksOn x)
    (hnow : c.env.now ≤ t) {f : Env → ℕ → List Bytes → KeyM RespValue}
    (hf : c.command.handler = .write f) :
    Moves (KeyApart t K) (f c.env c.before.ctx.dbIndex c.args) := by
  rcases names_of_write hc (by rw [hf]; rfl) with hname | hname | hname | hname
  · have hlocal := local_commands
      {x | x.1 = c.before.ctx.dbIndex ∧ x.2 ∈ keysOf c.command.name c.args} c.env
      c.before.ctx.dbIndex c.args c.command hc hname fun k hk => ⟨rfl, hk⟩
    rw [hf] at hlocal
    exact Apart.of_local (disjoint_worked hoff (if_pos hname)) hlocal
  · exact moves_purging (fun i => Apart.dbsize hnow i) hc hname _ c.args hf
  · have hdef : (⟨"FLUSHDB", 1, .write Cmd.flushdbCmd⟩ : CommandDef) ∈ commands := by
      simp [commands, Cmd.genericCommands]
    have hcmd := List.inj_on_of_nodup_map nodup_commands hdef hc hname.symm
    rw [← hcmd] at hf
    obtain rfl := Handler.write.inj hf
    refine moves_replied (Apart.flushdb ?_) _
    exact Set.disjoint_left.mpr fun x hx hdb => hoff x hx (Or.inr ⟨hdb, Or.inl hname⟩)
  · have hnone : ∀ x, x ∉ K := fun x hx => hoff x hx (Or.inl hname)
    have hdef : (⟨"FLUSHALL", 1, .write Cmd.flushallCmd⟩ : CommandDef) ∈ commands := by
      simp [commands, Cmd.genericCommands]
    have hcmd := List.inj_on_of_nodup_map nodup_commands hdef hc hname.symm
    rw [← hcmd] at hf
    obtain rfl := Handler.write.inj hf
    refine moves_replied (fun s => ?_) _
    exact ⟨List.length_map _, fun j k hk => absurd hk (hnone _)⟩

theorem apart_popFirst {pop : Bytes → KeyM (Option Bytes)} {keys : List Bytes}
    (hpop : ∀ key ∈ keys, Moves (KeyApart t K) (pop key)) :
    Moves (KeyApart t K) (Cmd.popFirst pop keys) := by
  induction keys with
  | nil => exact moves_pure none
  | cons key keys ih =>
    rw [List.forall_mem_cons] at hpop
    refine hpop.1.bind fun o => ?_
    cases o with
    | none => exact ih hpop.2
    | some val => exact moves_pure _

theorem apart_blockingPop {w : Whole} {args : List Bytes}
    (hoff : Disjoint K {x | x.1 = w.ctx.dbIndex ∧ x.2 ∈ args.dropLast})
    {pop : UInt64 → ℕ → Bytes → KeyM (Option Bytes)}
    (hpop : ∀ key, Local keyView {(w.ctx.dbIndex, key)} (pop env.now w.ctx.dbIndex key))
    (direction : PopDirection) :
    Apart t K w.store.databases
      (Cmd.blockingPop pop direction env args w).2.store.databases := by
  rw [blockingPop_databases]
  refine apart_popFirst (fun key hkey => ?_) ⟨w.store.databases, []⟩
  refine Apart.of_local (hoff.mono_right ?_) (hpop key)
  exact Set.singleton_subset_iff.mpr ⟨rfl, hkey⟩

/-- The call of an `XGROUP` is on its second argument. -/
theorem mem_of_xgroupCall {args : List Bytes} {k : Bytes} {group : String} {c : GroupCall}
    (h : Cmd.xgroupCall env args = some (k, group, c)) : k ∈ (args.drop 1).take 1 := by
  rcases args with _ | ⟨sub, _ | ⟨key, _ | ⟨g, rest⟩⟩⟩
  · cases h
  · cases h
  · cases h
  · suffices hkey : k = key from hkey ▸ List.mem_cons_self
    dsimp only [Cmd.xgroupCall] at h
    cases hstart : rest.head? with
    | none =>
      rw [hstart] at h
      split_ifs at h <;> cases h
      rfl
    | some a =>
      rw [hstart] at h
      split_ifs at h <;> cases h <;> rfl

theorem apart_xgroup {w : Whole} {args : List Bytes}
    (hoff : Disjoint K {x | x.1 = w.ctx.dbIndex ∧ x.2 ∈ (args.drop 1).take 1}) :
    Apart t K w.store.databases (Cmd.xgroup env args w).2.store.databases := by
  rw [Cmd.xgroup_store]
  cases hcall : Cmd.xgroupCall env args with
  | none => exact refl_of (Apart t K) _
  | some r =>
    obtain ⟨k, group, c⟩ := r
    cases c with
    | create startId mkstream =>
      dsimp only [GroupCall.run]
      rcases xgroupCreate_cases env.now w.ctx.dbIndex k group startId mkstream ⟨w.store, {}⟩ with
        ⟨e, h⟩ | ⟨dbs, ⟨hdbs, -⟩ | ⟨-, -, hdbs⟩, h⟩
      · rw [h]
        exact refl_of (Apart t K) _
      · rw [h, hdbs]
        exact refl_of (Apart t K) _
      · rw [h, hdbs]
        refine Apart.of_find Databases.length_put fun j k' hk => Databases.find_put_of_ne ?_
        refine not_and_or.mp ?_
        rintro ⟨rfl, rfl⟩
        exact Set.disjoint_left.mp hoff hk ⟨rfl, mem_of_xgroupCall hcall⟩
    | _ => exact refl_of (Apart t K) _

/-- **One call** leaves alone what it does not work on. -/
theorem apart_call (c : Call) (hc : c.command ∈ commands)
    (hleaf : c.command.handler.isLeaf = true) (hoff : ∀ x ∈ K, ¬c.WorksOn x)
    (hnow : c.env.now ≤ t) : Apart t K c.before.store.databases c.after.store.databases := by
  rw [Call.after, Call.run]
  cases hh : c.command.handler with
  | read f => exact refl_of (Apart t K) _
  | side f => exact refl_of (Apart t K) _
  | write f => exact apart_write hc hoff hnow hh { databases := c.before.store.databases }
  | whole f =>
    have hname := wholeNames_of_handler hc (by rw [hh]; rfl)
    have hpop : ∀ (missing : Except Failure (Option Bytes)) g key,
        Local keyView {(c.before.ctx.dbIndex, key)} (Keyspace.updateAs .list c.env.now
          c.before.ctx.dbIndex key missing g) :=
      fun missing g key => Keyspace.local_updateAs (Set.mem_singleton _) .list _ _ _
    have hblpop : (⟨"BLPOP", -3, .whole Cmd.blpop⟩ : CommandDef) ∈ commands := by
      simp [commands, Cmd.listCommands]
    have hbrpop : (⟨"BRPOP", -3, .whole Cmd.brpop⟩ : CommandDef) ∈ commands := by
      simp [commands, Cmd.listCommands]
    have hxgroup : (⟨"XGROUP", -2, .whole Cmd.xgroup⟩ : CommandDef) ∈ commands := by
      simp [commands, Cmd.streamCommands]
    have hworked : ∀ keys, workedOn c.command.name c.args = keys →
        Disjoint K {x | x.1 = c.before.ctx.dbIndex ∧ x.2 ∈ keys} := fun _ => disjoint_worked hoff
    refine of_definitions (P := fun d => ∀ f, d.name = c.command.name → d.handler = .whole f →
      Apart t K c.before.store.databases (f c.env c.args c.before).2.store.databases) ?_ hc hname f
      rfl hh
    rw [wholeNames]
    simp only [List.forall_mem_cons]
    refine ⟨⟨_, hblpop, rfl, ?_⟩, ⟨_, hbrpop, rfl, ?_⟩, ⟨_, hxgroup, rfl, ?_⟩,
      List.forall_mem_nil _⟩
    · rintro _ hname ⟨⟩
      exact apart_blockingPop (hworked _ (hname ▸ rfl)) (hpop _ _) .left
    · rintro _ hname ⟨⟩
      exact apart_blockingPop (hworked _ (hname ▸ rfl)) (hpop _ _) .right
    · rintro _ hname ⟨⟩
      exact apart_xgroup (hworked _ (hname ▸ rfl))
  | exec | eval | evalsha =>
    rw [hh] at hleaf
    cases hleaf

/-- **A command** leaves alone what none of its calls works on. -/
theorem apart_dispatch (hnow : env.now ≤ t) (name : String) (args : List Bytes) (w : Whole)
    (hcalls : ∀ c ∈ calls env name args w, ∀ x ∈ K, ¬c.WorksOn x) :
    Apart t K w.store.databases (dispatch env name args w).2.store.databases := by
  have hblind : BlindTo fun w' : Whole => Apart t K w.store.databases w'.store.databases :=
    ⟨fun _ _ => id, fun _ _ => id, fun _ _ => id⟩
  have hcall : ∀ c : Call, c.command ∈ commands → c.command.handler.isLeaf = true → c.env = env →
      c.Allowed → (∀ x ∈ K, ¬c.WorksOn x) → Apart t K w.store.databases c.before.store.databases →
        True ∧ Apart t K w.store.databases c.after.store.databases :=
    fun c hc hleaf henv _ hoff h => ⟨trivial, trans_of (Apart t K) h
      (apart_call c hc hleaf hoff (henv ▸ hnow))⟩
  have hkeeps := keeps_calls (Q := fun _ => True) hblind hcall name args w
  exact (hkeeps (refl_of (Apart t K) _) hcalls).2

end Commands

/-- The store after a client on database 1 has set `a`. -/
def Store.withOther : Store :=
  Request.next (Store.new 2) { Request.plain 1 "SET" [[97], [53]] with ctx := { dbIndex := 1 } }

/-! ### Scripts -/

section Scripts

variable {env : Env}

/-- The calls that a command makes for a client that is in no transaction are on its database. -/
def InDatabase (calls : CallsOf) : Prop := ∀ name args w, w.ctx.multiMode = false →
  ∀ c ∈ calls name args w, c.before.ctx.dbIndex = w.ctx.dbIndex

theorem inDatabase_scriptCalls {dispatch : Dispatch} {calls : CallsOf} (h : InDatabase calls)
    (db : ℕ) (p : LuaProc) (w : Whole) :
    ∀ c ∈ Cmd.scriptCalls dispatch calls env db p w, c.before.ctx.dbIndex = db := by
  have hcall : ∀ args w, ∀ c ∈ Cmd.redisCallCalls calls env db args w,
      c.before.ctx.dbIndex = db := by
    intro args w c hc
    rw [Cmd.redisCallCalls] at hc
    split at hc
    · exact h _ _ { w with ctx := { dbIndex := db } } rfl c hc
    · cases hc
  induction p generalizing w with
  | ret v => exact List.forall_mem_nil _
  | fail msg => exact List.forall_mem_nil _
  | panic => exact List.forall_mem_nil _
  | call args k ih =>
    intro c hc
    rw [Cmd.scriptCalls] at hc
    rcases List.mem_append.mp hc with hc | hc
    · exact hcall args w c hc
    · split at hc
      · exact ih _ _ c hc
      · cases hc

theorem inDatabase_evalCalls {dispatch : Dispatch} {calls : CallsOf} (h : InDatabase calls)
    (args : List Bytes) (w : Whole) :
    ∀ c ∈ Cmd.evalCalls dispatch calls env args w, c.before.ctx.dbIndex = w.ctx.dbIndex := by
  rcases args with _ | ⟨script, _ | ⟨numKeys, rest⟩⟩
  · exact List.forall_mem_nil _
  · exact List.forall_mem_nil _
  · rw [Cmd.evalCalls]
    split
    · exact List.forall_mem_nil _
    · exact inDatabase_scriptCalls h _ _ _

theorem inDatabase_evalshaCalls {dispatch : Dispatch} {calls : CallsOf} (h : InDatabase calls)
    (args : List Bytes) (w : Whole) :
    ∀ c ∈ Cmd.evalshaCalls dispatch calls env args w, c.before.ctx.dbIndex = w.ctx.dbIndex := by
  rcases args with _ | ⟨sha, _ | ⟨numKeys, rest⟩⟩
  · exact List.forall_mem_nil _
  · exact List.forall_mem_nil _
  · rw [Cmd.evalshaCalls]
    cases w.store.tables.luaScripts.entries.lookup (fromUtf8Lossy sha) with
    | none => exact List.forall_mem_nil _
    | some script => exact inDatabase_evalCalls h _ _

/-- The calls of a command are those of its definition. -/
theorem forall_callsDepth {P : Call → Prop} {depth : ℕ} {name : String} {args : List Bytes}
    {w : Whole} (h : ∀ d ∈ commands, d.name = name →
      ∀ c ∈ d.calls (dispatchDepth env depth) (callsDepth env depth) env args w, P c) :
    ∀ c ∈ callsDepth env (depth + 1) name args w, P c := by
  rw [callsDepth]
  dsimp only
  split
  · exact List.forall_mem_nil _
  · cases hfind : findCommand name with
    | none => exact List.forall_mem_nil _
    | some d =>
      dsimp only
      split
      · exact List.forall_mem_nil _
      · exact h d (mem_of_findCommand hfind).1 (mem_of_findCommand hfind).2

/-- To every depth of nesting. -/
theorem inDatabase_callsDepth (env : Env) (depth : ℕ) : InDatabase (callsDepth env depth) := by
  induction depth with
  | zero => exact fun _ _ _ _ => List.forall_mem_nil _
  | succ depth ih =>
    refine fun name args w hmulti => forall_callsDepth fun d _ _ => ?_
    rw [CommandDef.calls]
    split
    · rw [Cmd.execCalls, hmulti]
      exact List.forall_mem_nil _
    · exact inDatabase_evalCalls ih args w
    · exact inDatabase_evalshaCalls ih args w
    · exact List.forall_mem_singleton.mpr rfl

end Scripts

/-- **A script stays in its database.** Every command that it runs, through however many nested
scripts, is run on the database that its caller has selected; and unless it says `FLUSHALL`, all
others look as before. -/
theorem script_in_database {name : String} (hname : name = "EVAL" ∨ name = "EVALSHA") (env : Env)
    (args : List Bytes) (w : Whole) :
    (∀ c ∈ calls env name args w, c.before.ctx.dbIndex = w.ctx.dbIndex) ∧
      ((∀ c ∈ calls env name args w, c.command.name ≠ "FLUSHALL") →
        ∀ j, j ≠ w.ctx.dbIndex → ∀ t, env.now ≤ t → ∀ k,
          (dispatch env name args w).2.store.databases.liveEntry t j k
            = w.store.databases.liveEntry t j k) := by
  have hcalls : ∀ c ∈ calls env name args w, c.before.ctx.dbIndex = w.ctx.dbIndex := by
    have hin := inDatabase_callsDepth env env.nesting
    refine forall_callsDepth fun d hd hdname => ?_
    rcases hname with rfl | rfl
    · have hdef : (⟨"EVAL", -3, .eval⟩ : CommandDef) ∈ commands := by
        simp [commands, Cmd.luaCommands]
      obtain rfl := List.inj_on_of_nodup_map nodup_commands hdef hd hdname.symm
      exact inDatabase_evalCalls hin args w
    · have hdef : (⟨"EVALSHA", -3, .evalsha⟩ : CommandDef) ∈ commands := by
        simp [commands, Cmd.luaCommands]
      obtain rfl := List.inj_on_of_nodup_map nodup_commands hdef hd hdname.symm
      exact inDatabase_evalshaCalls hin args w
  refine ⟨hcalls, fun hflush j hj t hnow k => ?_⟩
  have hoff : ∀ c ∈ calls env name args w, ∀ x ∈ {x : ℕ × Bytes | x.1 = j}, ¬c.WorksOn x := by
    rintro c hc x rfl (hall | ⟨hdb, -⟩)
    · exact hflush c hc hall
    · exact hj (hdb.trans (hcalls c hc))
  exact (apart_dispatch hnow name args w hoff).live j k rfl

/-- A script that calls `redis.call("SELECT", "1")` and then `redis.call("SET", "a", "5")`. -/
def Host.selecting : Host := { Host.plain with
  lua := fun _ _ _ => .call [.string (asBytes "SELECT"), .string [49]] fun _ =>
    .call [.string (asBytes "SET"), .string [97], .string [53]] fun _ => .ret .nil }

/-- What it sets is not in the other database. -/
theorem script_in_database_select :
    (dispatch (Moment.on ⟨0, 0, 0, 1⟩ Host.selecting) "EVAL" [[], [48]]
        ⟨Store.withOther, {}⟩).2.store.databases.liveEntry 0 1 [97]
      = Store.withOther.databases.liveEntry 0 1 [97] :=
  (script_in_database (Or.inl rfl) (Moment.on ⟨0, 0, 0, 1⟩ Host.selecting) [[], [48]]
    ⟨Store.withOther, {}⟩).2 (by decide +kernel) 1 (by decide) 0 (by decide) [97]

end VeloDB
