import VeloDB.Cmd.Methods
import VeloDB.Cmd.Purged

/-!
# Keys that have expired

An entry whose time has come stays in its database until something removes it, and a key without a
live entry stays so until a value is stored under it. The commands that change only the expiry do
not look whether the entry has expired: they bring it back.

## Main results

* `sparesUnnamed_commands` — the commands spare the keys that they do not name
* `staysAbsent_expiry` — the commands that change an expiry store nothing anew
-/

namespace VeloDB

open Rust Proc

/-! ### Time -/

/-- What has expired has expired later. -/
theorem Entry.expired_later {e : Entry} {t now : UInt64} (h : e.expired t = true) (hle : t ≤ now) :
    e.expired now = true := by
  rw [Entry.expired] at h ⊢
  cases hat : e.expireAt with
  | none =>
    rw [hat] at h
    cases h
  | some at_ =>
    rw [hat] at h
    exact decide_eq_true (UInt64.le_trans (of_decide_eq_true h) hle)

/-- A key without a live entry has none later. -/
theorem liveEntry_later {dbs : Databases} {i : ℕ} {k : Bytes} {t now : UInt64}
    (h : dbs.liveEntry t i k = none) (hle : t ≤ now) : dbs.liveEntry now i k = none := by
  rw [Databases.liveEntry, Option.filter_eq_none_iff] at h ⊢
  intro e he
  have hexpired : e.expired t = true := by simpa using h e he
  simp [e.expired_later hexpired hle]

/-! ### Methods of the store -/

/-- A key without a live entry at some time still has none at that time. -/
def Spares (t : UInt64) (j : ℕ) (k : Bytes) (s s' : Keyspace) : Prop :=
  s.databases.liveEntry t j k = none → s'.databases.liveEntry t j k = none

namespace Spares

variable {t now : UInt64} {i j : ℕ} {k : Bytes}

instance : Std.Refl (Spares t j k) := ⟨fun _ => id⟩

instance : IsTrans Keyspace (Spares t j k) := ⟨fun _ _ _ h h' hk => h' (h hk)⟩

theorem of_find {s s' : Keyspace} (h : s'.databases.find j k = s.databases.find j k) :
    Spares t j k s s' := by
  intro hk
  rwa [Databases.liveEntry, h]

theorem put {k' : Bytes} (hoff : j ≠ i ∨ k ≠ k') (e : Entry) :
    Moves (Spares t j k) (Keyspace.put i k' e) :=
  fun _ hk => (liveEntry_put_of_ne hoff e).trans hk

theorem remove (i : ℕ) (k' : Bytes) : Moves (Spares t j k) (Keyspace.remove i k') := by
  intro s hk
  by_cases hoff : j ≠ i ∨ k ≠ k'
  · exact of_find (Databases.find_remove_of_ne hoff) hk
  · obtain ⟨rfl, rfl⟩ := not_or.mp hoff |>.imp not_ne_iff.mp not_ne_iff.mp
    exact (liveEntry_remove hk _ _).trans hk

theorem notify (k' : Bytes) : Moves (Spares t j k) (Keyspace.notify k') := fun _ => of_find rfl

/-- A method that looks at the expiry does not touch the key. -/
theorem updateAs {α β : Type} (kind : Kind α) (hnow : t ≤ now) (k' : Bytes)
    (missing : Except Failure β) (f : α → Except Failure β × α) :
    Moves (Spares t j k) (Keyspace.updateAs kind now i k' missing f) := by
  intro s hk
  rcases Keyspace.updateAs_cases kind now i k' missing f s with
    ⟨e, h⟩ | ⟨-, -, h⟩ | ⟨e, a, -, hlive, -, h⟩
  · rwa [h]
  · rwa [h]
  · rw [h]
    have hoff : j ≠ i ∨ k ≠ k' := by
      by_contra hnot
      obtain ⟨rfl, rfl⟩ := not_or.mp hnot |>.imp not_ne_iff.mp not_ne_iff.mp
      rw [liveEntry_later hk hnow] at hlive
      cases hlive
    exact (liveEntry_put_of_ne hoff _).trans hk

section Off

variable {k' : Bytes} (hoff : j ≠ i ∨ k ≠ k')

include hoff

theorem upsertAs {α β : Type} (kind : Kind α) (fresh : α) (f : α → Except Failure β × α) :
    Moves (Spares t j k) (Keyspace.upsertAs kind i k' fresh f) := by
  refine (Keyspace.moves_read _).bind fun d => ?_
  rw [Keyspace.changeAs]
  cases kind.unwrap _ with
  | none => exact Keyspace.moves_throw _
  | some a => exact (put hoff _).bind fun _ => moves_ofExcept _

theorem set (v : Bytes) (at_ : Option UInt64) :
    Moves (Spares t j k) (Keyspace.set i k' v at_) :=
  (Keyspace.moves_read _).bind fun _ => put hoff _

theorem changeExpire (at_ : Option UInt64) :
    Moves (Spares t j k) (Keyspace.changeExpire i k' at_) := by
  refine (Keyspace.moves_read _).bind fun d => ?_
  cases d.lookup k' with
  | none => exact moves_pure _
  | some e => exact (put hoff _).bind fun _ => moves_pure _

theorem rename (old : Bytes) : Moves (Spares t j k) (Keyspace.rename i old k') := by
  refine (Keyspace.moves_read _).bind fun d => ?_
  cases d.lookup old with
  | none => exact Keyspace.moves_throw _
  | some e => exact (remove i old).bind fun _ => put hoff _

end Off

theorem del (k' : Bytes) : Moves (Spares t j k) (Keyspace.del i k') :=
  (Keyspace.moves_read _).bind fun _ => (remove i k').bind fun _ => moves_pure _

theorem dbsize (now : UInt64) (i : ℕ) : Moves (Spares t j k) (Keyspace.dbsize now i) :=
  (Keyspace.moves_read _).bind fun _ =>
    (moves_each fun p _ => remove i p.1).bind fun _ => moves_pure _

theorem clear (i : ℕ) (s : Keyspace) :
    Spares t j k s { s with databases := s.databases.clear i } := by
  intro hk
  by_cases hij : i = j
  · subst hij
    have hnone : (s.databases.clear i).find i k = none := by
      rw [Databases.clear, Databases.find_modify_self]
      cases s.databases[i]? <;> rfl
    show ((s.databases.clear i).find i k).filter _ = none
    rw [hnone]
    rfl
  · exact of_find (Databases.find_modify_of_ne _ hij) hk

theorem clearAll (s : Keyspace) :
    Spares t j k s { s with databases := s.databases.map fun _ => ∅ } := by
  intro _
  have hnone : Databases.find (s.databases.map fun _ => ∅) j k = none := by
    rw [Databases.find, List.getElem?_map]
    cases s.databases[j]? <;> rfl
  show ((Databases.find (s.databases.map fun _ => ∅) j k).filter _) = none
  rw [hnone]
  rfl

/-- The methods of the store, under every other key. -/
theorem methods (hnow : t ≤ now) :
    Keyspace.MethodsHave (fun _ m => Moves (Spares t j k) m) now i fun k' => j ≠ i ∨ k ≠ k' where
  ofExcept := moves_ofExcept
  bind := Moves.bind
  get _ := Keyspace.moves_read _
  existsKey _ := Keyspace.moves_read _
  generateStreamId _ _ := Keyspace.moves_read _
  streamLastId _ := Keyspace.moves_read _
  updateAs kind k' missing f := updateAs kind hnow k' missing f
  upsertAs kind _ hoff fresh f := upsertAs hoff kind fresh f
  set hoff := set hoff
  changeExpire hoff := changeExpire hoff
  rename old _ hoff := rename hoff old
  del := del
  notify := notify
  flushdb := (Keyspace.moves_read _).bind fun _ => clear i
  flushall := clearAll

end Spares

/-! ### Commands that see everything -/

/-- `Spares` for a command that sees everything. -/
def WholeSpares (t : UInt64) (j : ℕ) (k : Bytes) (w w' : Whole) : Prop :=
  w.store.databases.liveEntry t j k = none → w'.store.databases.liveEntry t j k = none

namespace WholeSpares

variable {t : UInt64} {i j : ℕ} {k : Bytes} {env : Env}

instance : Std.Refl (WholeSpares t j k) := ⟨fun _ => id⟩

instance : IsTrans Whole (WholeSpares t j k) := ⟨fun _ _ _ h h' hk => h' (h hk)⟩

theorem onKeyspace {α : Type} {m : KeyM α} (hm : Moves (Spares t j k) m) :
    Moves (WholeSpares t j k) (Cmd.onKeyspace m) :=
  fun w => hm { databases := w.store.databases }

theorem popFirst {pop : Bytes → KeyM (Option Bytes)}
    (hpop : ∀ key, Moves (Spares t j k) (pop key)) (keys : List Bytes) :
    Moves (Spares t j k) (Cmd.popFirst pop keys) := by
  induction keys with
  | nil => exact moves_pure none
  | cons key keys ih =>
    refine (hpop key).bind fun o => ?_
    cases o with
    | none => exact ih
    | some val => exact moves_pure _

theorem blockingPop {pop : UInt64 → ℕ → Bytes → KeyM (Option Bytes)}
    (hpop : ∀ i key, Moves (Spares t j k) (pop env.now i key)) (direction : PopDirection)
    (args : List Bytes) : Moves (WholeSpares t j k) (Cmd.blockingPop pop direction env args) := by
  rw [Cmd.blockingPop]
  dsimp only
  split
  · exact moves_fail _
  · refine moves_get.bind fun w => (onKeyspace (popFirst (hpop w.ctx.dbIndex) _)).bind fun o => ?_
    cases o with
    | some p => exact moves_pure _
    | none =>
      dsimp only
      split
      · exact moves_pure _
      · exact fun _ => id

theorem xgroupCreate {key : Bytes} {mkstream : Bool} (hkey : mkstream = true → j ≠ i ∨ k ≠ key)
    (now : UInt64) (group : String) (startId : Bytes) :
    Moves (WholeSpares t j k) (VeloDB.xgroupCreate now i key group startId mkstream) := by
  refine moves_get.bind fun w => (moves_ofExcept _).bind fun type => ?_
  have htables : ∀ f : Whole → Tables, Moves (WholeSpares t j k)
      (Proc.modify fun w => { w with store := { w.store with tables := f w } } : WholeM Unit) :=
    fun f _ => id
  cases type with
  | none =>
    cases mkstream with
    | false => exact moves_fail _
    | true =>
      have hput : Moves (WholeSpares t j k) (Proc.modify fun w => { w with store := { w.store with
          databases := w.store.databases.put i key { value := .stream [] 0 0 } } } : WholeM Unit) :=
        fun w => Spares.put (hkey rfl) _ { databases := w.store.databases }
      exact hput.bind fun _ => moves_get.bind fun _ => htables _
  | some type =>
    dsimp only
    split
    · exact moves_fail _
    · exact moves_get.bind fun _ => htables _

theorem xgroup {args : List Bytes} {w : Whole}
    (hoff : j ≠ w.ctx.dbIndex ∨ k ∉ mkstreamKey env args) :
    WholeSpares t j k w (Cmd.xgroup env args w).2 := by
  have htables : ∀ {α : Type} (m : TableM α) (g : α → RespValue),
      Moves (WholeSpares t j k) (onTablesOfStore m >>= fun a => pure (g a)) := by
    intro α m g
    have hm : Moves (WholeSpares t j k) (onTablesOfStore m) := fun _ => id
    exact hm.bind fun _ => moves_pure _
  have hfail : ∀ e : Failure, Moves (WholeSpares t j k) (Proc.fail e : WholeM RespValue) :=
    moves_fail
  rw [Cmd.xgroup, Proc.get_bind]
  dsimp only
  cases args with
  | nil => exact hfail _ w
  | cons sub rest =>
    dsimp only
    split
    · split
      · next key group startId opts =>
        refine ((xgroupCreate (fun hmkstream => hoff.imp_right ?_) _ _ _).bind
          fun _ => moves_pure _) w
        rintro hk rfl
        refine hk ?_
        rw [mkstreamKey, if_pos (by simpa using hmkstream)]
        exact List.mem_cons_self
      · exact hfail _ w
    · split
      · split
        · exact htables _ _ w
        · exact hfail _ w
      · split
        · split
          · exact htables _ _ w
          · exact hfail _ w
        · split
          · split
            · exact htables _ _ w
            · exact hfail _ w
          · exact hfail _ w

end WholeSpares

/-- The handler spares the keys that its command does not store under and whose expiry it does not
change. -/
def Handler.SparesUnnamed (name : String) : Handler → Prop
  | .write f => ∀ {t : UInt64} {i j : ℕ} {k : Bytes} {env : Env} {args : List Bytes}, t ≤ env.now →
    (j ≠ i ∨ k ∉ storesUnder env name args) → (j ≠ i ∨ k ∉ expiresOf name args) →
    Moves (Spares t j k) (f env i args)
  | .whole f => ∀ {t : UInt64} {j : ℕ} {k : Bytes} {env : Env} {args : List Bytes} {w : Whole},
    t ≤ env.now → (j ≠ w.ctx.dbIndex ∨ k ∉ storesUnder env name args) →
    WholeSpares t j k w (f env args w).2
  | _ => True

/-- **The commands** spare every other key. -/
theorem sparesUnnamed_commands : ∀ c ∈ commands, c.handler.SparesUnnamed c.name := by
  intro c hc
  cases hf : c.handler with
  | write f =>
    intro t i j k env args hnow hstores hexpires
    by_cases hpurges : c.name ∈ purgingNames
    · exact moves_purging (Spares.dbsize env.now) hc hpurges i args hf
    · refine (Spares.methods hnow).commands args c hc hpurges (fun k' hk' => ?_)
        (fun k' hk' => ?_) f hf
      · refine hstores.imp_right ?_
        rintro hk rfl
        exact hk hk'
      · refine hexpires.imp_right ?_
        rintro hk rfl
        exact hk hk'
  | whole f =>
    rw [← hf]
    refine of_definitions (P := fun c => c.handler.SparesUnnamed c.name) ?_ hc
      (wholeNames_of_handler hc (by rw [hf]; rfl))
    have hblpop : (⟨"BLPOP", -3, .whole Cmd.blpop⟩ : CommandDef) ∈ commands := by
      simp [commands, Cmd.listCommands]
    have hbrpop : (⟨"BRPOP", -3, .whole Cmd.brpop⟩ : CommandDef) ∈ commands := by
      simp [commands, Cmd.listCommands]
    have hxgroup : (⟨"XGROUP", -2, .whole Cmd.xgroup⟩ : CommandDef) ∈ commands := by
      simp [commands, Cmd.streamCommands]
    rw [wholeNames]
    simp only [List.forall_mem_cons]
    exact ⟨⟨_, hblpop, rfl, fun hnow _ =>
        WholeSpares.blockingPop (fun _ key => Spares.updateAs .list hnow key _ _) _ _ _⟩,
      ⟨_, hbrpop, rfl, fun hnow _ =>
        WholeSpares.blockingPop (fun _ key => Spares.updateAs .list hnow key _ _) _ _ _⟩,
      ⟨_, hxgroup, rfl, fun _ h => WholeSpares.xgroup h⟩, List.forall_mem_nil _⟩
  | _ => trivial

/-! ### The expiry of what is not stored -/

/-- What is not stored is not stored afterwards. -/
def StaysAbsent (j : ℕ) (k : Bytes) (s s' : Keyspace) : Prop :=
  s.databases.find j k = none → s'.databases.find j k = none

section Expiry

variable {j : ℕ} {k : Bytes}

instance : Std.Refl (StaysAbsent j k) := ⟨fun _ => id⟩

instance : IsTrans Keyspace (StaysAbsent j k) := ⟨fun _ _ _ h h' hk => h' (h hk)⟩

theorem staysAbsent_changeExpire (i : ℕ) (key : Bytes) (at_ : Option UInt64) :
    Moves (StaysAbsent j k) (Keyspace.changeExpire i key at_) := by
  rintro ⟨dbs, notified⟩ hk
  by_cases hi : i < dbs.length
  · cases he : dbs.find i key with
    | none =>
      rw [Keyspace.changeExpire, Proc.bind_ok (Keyspace.read_db hi notified),
        Keyspace.lookup_eq_find hi, he]
      exact hk
    | some e =>
      rw [Keyspace.changeExpire_run hi he]
      have hoff : j ≠ i ∨ k ≠ key := by
        by_contra hnot
        obtain ⟨rfl, rfl⟩ := not_or.mp hnot |>.imp not_ne_iff.mp not_ne_iff.mp
        cases hk.symm.trans he
      exact (Databases.find_put_of_ne hoff).trans hk
  · obtain ⟨e, he⟩ := Keyspace.read_db_error (Nat.le_of_not_lt hi) notified
    rw [Keyspace.changeExpire, Proc.bind_error he]
    exact hk

theorem staysAbsent_expireWith (time : UInt64 → UInt64) (i : ℕ) (args : List Bytes) :
    Moves (StaysAbsent j k) (Cmd.expireWith time i args) :=
  (moves_ofExcept _).bind fun _ => (moves_ofExcept _).bind fun _ =>
    (staysAbsent_changeExpire i _ _).bind fun _ => moves_pure _

theorem staysAbsent_persist (env : Env) (i : ℕ) (args : List Bytes) :
    Moves (StaysAbsent j k) (Cmd.persist env i args) :=
  (moves_ofExcept _).bind fun _ =>
    (staysAbsent_changeExpire i _ _).bind fun _ => moves_pure _

/-- The commands that change an expiry store nothing anew. -/
theorem staysAbsent_expiry {c : CommandDef} (hc : c ∈ commands) (hname : c.name ∈ expiryNames) :
    ∃ f, c.handler = .write f ∧ ∀ env i args, Moves (StaysAbsent j k) (f env i args) := by
  refine of_definitions (P := fun c => ∃ f, c.handler = .write f ∧
    ∀ env i args, Moves (StaysAbsent j k) (f env i args)) ?_ hc hname
  have hmem : ∀ c ∈ Cmd.genericCommands, c ∈ commands := fun c hc => by
    simp only [commands, List.mem_append]
    tauto
  simp only [expiryNames, List.forall_mem_cons]
  refine ⟨⟨⟨"EXPIRE", 3, .write Cmd.expire⟩, hmem _ (by simp [Cmd.genericCommands]), rfl, _, rfl,
      fun env => staysAbsent_expireWith _⟩,
    ⟨⟨"EXPIREAT", 3, .write Cmd.expireat⟩, hmem _ (by simp [Cmd.genericCommands]), rfl, _, rfl,
      fun _ => staysAbsent_expireWith _⟩,
    ⟨⟨"PEXPIRE", 3, .write Cmd.pexpire⟩, hmem _ (by simp [Cmd.genericCommands]), rfl, _, rfl,
      fun env => staysAbsent_expireWith _⟩,
    ⟨⟨"PEXPIREAT", 3, .write Cmd.pexpireat⟩, hmem _ (by simp [Cmd.genericCommands]), rfl, _, rfl,
      fun _ => staysAbsent_expireWith _⟩,
    ⟨⟨"PERSIST", 2, .write Cmd.persist⟩, hmem _ (by simp [Cmd.genericCommands]), rfl, _, rfl,
      staysAbsent_persist⟩, List.forall_mem_nil _⟩

end Expiry

end VeloDB
