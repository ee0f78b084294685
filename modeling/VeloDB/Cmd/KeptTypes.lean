import VeloDB.Cmd.IndexRanges
import VeloDB.Net.Background

/-!
# The type of a key

A value can be changed by many commands, and replaced or taken away by a few. Those few are listed
by `replacedBy`. All the others, whatever they are given, leave a live key alive, with a value of
the type that it has: those for one type refuse every other one, the counters of strings among them,
and what empties a list, a set or a hash leaves it where it is.

`Keeps` is a property of a state and not a relation between two, so that one method after another
has it when each of them does.

## Main results

* `Call.keeps_type` — one call
* `type_is_kept` — every run
-/

namespace VeloDB

open Rust Proc

/-- The key `x` has a live value of type `T`. -/
def Databases.HasType (t : UInt64) (x : ℕ × Bytes) (T : String) (dbs : Databases) : Prop :=
  ∃ e, dbs.liveEntry t x.1 x.2 = some e ∧ e.value.typeName = T

/-- The key still has a live value of the type that it had. -/
def Keeps (t : UInt64) (x : ℕ × Bytes) (T : String) (s s' : Keyspace) : Prop :=
  s.databases.HasType t x T → s'.databases.HasType t x T

/-- All values of the kind have one type. -/
class Kind.OneType {α : Type} (kind : Kind α) : Prop where
  typeName_wrap : ∀ {v : StorageValue} {a : α} (b : α), kind.unwrap v = some a →
    (kind.wrap b).typeName = v.typeName

instance : Kind.OneType .list := ⟨fun {v a} _ h => by cases v <;> cases h; rfl⟩

instance : Kind.OneType .set := ⟨fun {v a} _ h => by cases v <;> cases h; rfl⟩

instance : Kind.OneType .hash := ⟨fun {v a} _ h => by cases v <;> cases h; rfl⟩

instance : Kind.OneType .zset := ⟨fun {v a} _ h => by cases v <;> cases h; rfl⟩

instance : Kind.OneType .stream := ⟨fun {v a} _ h => by cases v <;> cases h; rfl⟩

instance : Kind.OneType .nestedHash := ⟨fun {v a} _ h => by cases v <;> cases h; rfl⟩

/-! ### Methods -/

namespace Keeps

variable {t now : UInt64} {x : ℕ × Bytes} {T : String} {i : ℕ} {k : Bytes}

instance : Std.Refl (Keeps t x T) := ⟨fun _ => id⟩

instance : IsTrans Keyspace (Keeps t x T) := ⟨fun _ _ _ h h' hx => h' (h hx)⟩

theorem of_liveEntry {s s' : Keyspace}
    (h : s'.databases.liveEntry t x.1 x.2 = s.databases.liveEntry t x.1 x.2) :
    Keeps t x T s s' := by
  intro hx
  rwa [Databases.HasType, h]

/-- Another value of the type under a live key. -/
theorem put_value {s : Keyspace} {e : Entry} (he : s.databases.liveEntry t i k = some e)
    {v : StorageValue} (hv : v.typeName = e.value.typeName) :
    Keeps t x T s { s with databases := s.databases.put i k { e with value := v } } := by
  by_cases hoff : x.1 ≠ i ∨ x.2 ≠ k
  · exact of_liveEntry (liveEntry_put_of_ne hoff _)
  · obtain ⟨rfl, rfl⟩ := not_or.mp hoff |>.imp not_ne_iff.mp not_ne_iff.mp
    rintro ⟨e', he', hT⟩
    obtain rfl := Option.some.inj (he.symm.trans he')
    exact ⟨_, liveEntry_put_value he v, hv.trans hT⟩

theorem notify (k' : Bytes) : Moves (Keeps t x T) (Keyspace.notify k') := fun _ => id

/-- A live entry is live at an earlier time. -/
theorem liveEntry_earlier (hnow : now ≤ t) {dbs : Databases} {e : Entry}
    (he : dbs.liveEntry t i k = some e) : dbs.liveEntry now i k = some e := by
  cases hnone : dbs.liveEntry now i k with
  | none =>
    rw [Databases.liveEntry_mono hnow hnone] at he
    cases he
  | some e' =>
    have hfind := (Option.filter_eq_some_iff.mp he).1
    exact (Option.filter_eq_some_iff.mp hnone).1.symm.trans hfind

theorem updateAs {α β : Type} (kind : Kind α) [kind.OneType] (hnow : now ≤ t) (k : Bytes)
    (missing : Except Failure β) (f : α → Except Failure β × α) :
    Moves (Keeps t x T) (Keyspace.updateAs kind now i k missing f) := by
  intro s
  rcases Keyspace.updateAs_cases kind now i k missing f s with
    ⟨e, h⟩ | ⟨-, -, h⟩ | ⟨e, a, -, hlive, ha, h⟩
  · rw [h]
    exact id
  · rw [h]
    exact id
  · rw [h]
    intro hx
    by_cases hoff : x.1 ≠ i ∨ x.2 ≠ k
    · exact of_liveEntry (liveEntry_put_of_ne hoff _) hx
    · obtain ⟨rfl, rfl⟩ := not_or.mp hoff |>.imp not_ne_iff.mp not_ne_iff.mp
      obtain ⟨e', he', hT⟩ := hx
      obtain rfl := Option.some.inj (hlive.symm.trans (liveEntry_earlier hnow he'))
      exact put_value he' (Kind.OneType.typeName_wrap _ ha) ⟨e, he', hT⟩

theorem upsertAs {α β : Type} (kind : Kind α) [kind.OneType] (k : Bytes) (fresh : α)
    (f : α → Except Failure β × α) :
    Moves (Keeps t x T) (Keyspace.upsertAs kind i k fresh f) := by
  intro s
  rcases Keyspace.upsertAs_cases kind i k fresh f s with ⟨e, h, -⟩ | ⟨a, -, ha, h⟩
  · rw [h]
    exact id
  · rw [h]
    intro hx
    by_cases hoff : x.1 ≠ i ∨ x.2 ≠ k
    · exact of_liveEntry (liveEntry_put_of_ne hoff _) hx
    · obtain ⟨rfl, rfl⟩ := not_or.mp hoff |>.imp not_ne_iff.mp not_ne_iff.mp
      obtain ⟨e, he, hT⟩ := hx
      have hfind := (Option.filter_eq_some_iff.mp he).1
      rw [hfind, Option.getD_some] at ha ⊢
      exact put_value he (Kind.OneType.typeName_wrap _ ha) ⟨e, he, hT⟩

/-- Something is pushed, and a waiting client is told. -/
theorem push {α β : Type} (kind : Kind α) [kind.OneType] (k : Bytes) (fresh : α)
    (f : α → Except Failure β × α) : Moves (Keeps t x T) (Keyspace.upsertAs kind i k fresh f >>=
      fun b => Keyspace.notify k >>= fun _ => pure b) :=
  (upsertAs kind k fresh f).bind fun _ => (notify k).bind fun _ => moves_pure _

theorem xadd (k idStr : Bytes) (fields : List (Bytes × Bytes)) (maxlen : Option ℕ) :
    Moves (Keeps t x T) (Keyspace.xadd now i k idStr fields maxlen) := by
  refine (Keyspace.moves_read _).bind fun id => (Keyspace.moves_read _).bind fun last => ?_
  cases last with
  | none => exact push .stream k _ _
  | some last =>
    dsimp only
    split
    · exact push .stream k _ _
    · exact Keyspace.moves_throw _

/-- What takes the expiry away does not end a key. -/
theorem removeExpire (k : Bytes) : Moves (Keeps t x T) (Keyspace.removeExpire i k) := by
  rintro ⟨dbs, notified⟩ hx
  by_cases hi : i < dbs.length
  · cases hfind : dbs.find i k with
    | none => rwa [Keyspace.removeExpire, Keyspace.changeExpire_missing hi hfind]
    | some e =>
      rw [Keyspace.removeExpire, Keyspace.changeExpire_run hi hfind]
      by_cases hoff : x.1 ≠ i ∨ x.2 ≠ k
      · exact of_liveEntry (s := ⟨dbs, notified⟩) (liveEntry_put_of_ne hoff _) hx
      · obtain ⟨rfl, rfl⟩ := not_or.mp hoff |>.imp not_ne_iff.mp not_ne_iff.mp
        obtain ⟨e', he', hT⟩ := hx
        obtain rfl := Option.some.inj (hfind.symm.trans (Option.filter_eq_some_iff.mp he').1)
        exact ⟨_, liveEntry_put_self hi _ _, hT⟩
  · obtain ⟨e, he⟩ := Keyspace.read_db_error (Nat.le_of_not_lt hi) notified
    rwa [Keyspace.removeExpire, Keyspace.changeExpire, Proc.bind_error he]

/-- A read of the key in front of a `set`: the read refuses every value that is not a string. -/
theorem get_set (hnow : now ≤ t) (k : Bytes) {m : Option Bytes → KeyM RespValue}
    (hm : ∀ v s, (m v s).2 = s ∨ ∃ new, (m v s).2 = (Keyspace.set i k new none s).2) :
    Moves (Keeps t x T) (Keyspace.read (fun dbs => dbs.get now i k) >>= m) := by
  rintro s hx
  have hset : ∀ v, (∀ e, s.databases.liveEntry t i k = some e → e.value.typeName = "string") →
      (m v s).2.databases.HasType t x T := by
    intro v hstring
    rcases hm v s with h | ⟨new, h⟩
    · rwa [h]
    · rw [h]
      by_cases hi : i < s.databases.length
      · rw [Keyspace.set_run hi new none s.notified]
        by_cases hoff : x.1 ≠ i ∨ x.2 ≠ k
        · exact of_liveEntry (liveEntry_put_of_ne hoff _) hx
        · obtain ⟨rfl, rfl⟩ := not_or.mp hoff |>.imp not_ne_iff.mp not_ne_iff.mp
          obtain ⟨e, he, hT⟩ := hx
          exact ⟨_, liveEntry_put_self hi _ _, (hstring e he).symm.trans hT⟩
      · obtain ⟨e, he⟩ := Keyspace.read_db_error (Nat.le_of_not_lt hi) s.notified
        rwa [Keyspace.set, Proc.bind_error he]
  cases hget : s.databases.get now i k with
  | error e =>
    have hread : Keyspace.read (fun dbs => dbs.get now i k) s = (.error (.error e), s) := by
      rw [Keyspace.read, hget]
      rfl
    rwa [Proc.bind_error hread]
  | ok v =>
    have hread : Keyspace.read (fun dbs => dbs.get now i k) s = (.ok v, s) := by
      rw [Keyspace.read, hget]
      rfl
    rw [Proc.bind_ok hread]
    refine hset v fun e he => ?_
    have hlive := liveEntry_earlier hnow he
    rw [Databases.get, Databases.entry_eq (Databases.lt_of_liveEntry hlive), hlive] at hget
    cases hv : e.value with
    | string v' => rfl
    | _ =>
      simp only [bind, Except.bind, hv] at hget
      cases hget

end Keeps

/-! ### Commands -/

/-- The commands after which the keys that they write have the type that they had. -/
def keepingNames : List String :=
  ["INCR", "INCRBY", "DECR", "DECRBY", "APPEND", "SETRANGE", "GETSET", "PERSIST", "LPUSH", "RPUSH",
    "LPOP", "RPOP", "LSET", "LTRIM", "LREM", "SADD", "SREM", "SPOP", "HSET", "HDEL", "HINCRBY",
    "ZADD", "ZREM", "XADD", "XDEL", "XTRIM", "NHSET", "NHDEL"]

/-- The keys that a command may give another value or an expiry, or take away. -/
def replacedBy (name : String) (args : List Bytes) : List Bytes :=
  if name ∈ ["SET", "MSET", "DEL", "RENAME", "RENAMENX", "EXPIRE", "EXPIREAT", "PEXPIRE",
    "PEXPIREAT"] then keysOf name args else []

/-- The call may end the key, or give it another type. -/
def Call.Replaces (c : Call) (x : ℕ × Bytes) : Prop :=
  c.command.name = "FLUSHALL" ∨ x.1 = c.before.ctx.dbIndex ∧
    (c.command.name = "FLUSHDB" ∨ x.2 ∈ replacedBy c.command.name c.args)

instance (c : Call) (x : ℕ × Bytes) : Decidable (c.Replaces x) :=
  inferInstanceAs (Decidable (_ ∨ _ ∧ (_ ∨ _)))

/-- A writing command that names its keys keeps their types, or replaces them all. -/
theorem keeping_or_replacing {c : CommandDef} (hc : c ∈ commands)
    (hwrite : c.handler.isWrite = true) (hname : c.name ∈ keyedNames) :
    c.name ∈ keepingNames ∨ ∀ args, replacedBy c.name args = keysOf c.name args := by
  have hall : (commands.all fun c => !c.handler.isWrite || decide (c.name ∈ keyedNames →
      c.name ∈ keepingNames ∨ c.name ∈ ["SET", "MSET", "DEL", "RENAME", "RENAMENX", "EXPIRE",
        "EXPIREAT", "PEXPIRE", "PEXPIREAT"])) = true := by
    decide +kernel
  have h := List.all_eq_true.mp hall c hc
  rw [hwrite] at h
  exact (of_decide_eq_true h hname).imp_right fun h args => if_pos h

/-- The handler keeps types, if the command is one of those that do. -/
def CommandDef.KeepsTypes (t : UInt64) (x : ℕ × Bytes) (T : String) (env : Env) (c : CommandDef) :
    Prop :=
  c.name ∈ keepingNames → ∀ f, c.handler = .write f →
    ∀ i args, Moves (Keeps t x T) (f env i args)

namespace CommandDef.KeepsTypes

variable {t : UInt64} {x : ℕ × Bytes} {T : String} {env : Env} {name : String} {arity : ℤ}

theorem write {f : Env → ℕ → List Bytes → KeyM RespValue}
    (hf : ∀ i args, Moves (Keeps t x T) (f env i args)) :
    KeepsTypes t x T env ⟨name, arity, .write f⟩ := by
  rintro - f' ⟨⟩
  exact hf

theorem of_read {f : Env → Databases → ℕ → List Bytes → Reply} :
    KeepsTypes t x T env ⟨name, arity, .read f⟩ := by
  rintro - f' ⟨⟩

theorem of_side {f : Env → Databases → List Bytes → SideM RespValue} :
    KeepsTypes t x T env ⟨name, arity, .side f⟩ := by
  rintro - f' ⟨⟩

theorem of_whole {f : Env → List Bytes → WholeM RespValue} :
    KeepsTypes t x T env ⟨name, arity, .whole f⟩ := by
  rintro - f' ⟨⟩

/-- The command is none of them. -/
theorem other {handler : Handler} (hname : name ∉ keepingNames) :
    KeepsTypes t x T env ⟨name, arity, handler⟩ := fun h => absurd h hname

end CommandDef.KeepsTypes

section Commands

variable {t : UInt64} {x : ℕ × Bytes} {T : String} {env : Env}

theorem keeps_incrFn (hnow : env.now ≤ t) (i : ℕ) (k : Bytes) (by_ : Int64) :
    Moves (Keeps t x T) (Cmd.incrFn env i k by_) := by
  refine Keeps.get_set hnow k fun v s => ?_
  cases checkedAdd ((v >>= parseI64).getD 0) by_ with
  | none => exact Or.inl rfl
  | some m =>
    refine Or.inr ⟨i64Bytes m, ?_⟩
    rw [orError, lift_ok_bind]
    exact Proc.bind_pure_snd _ _ _

theorem keeps_append (hnow : env.now ≤ t) (i : ℕ) (args : List Bytes) :
    Moves (Keeps t x T) (Cmd.append env i args) := by
  refine moves_parsed fun k => Keeps.get_set hnow k fun v s => ?_
  cases arg args 1 with
  | error e => exact Or.inl rfl
  | ok a => exact Or.inr ⟨v.getD [] ++ a, Proc.bind_pure_snd _ _ _⟩

theorem keeps_setrange (hnow : env.now ≤ t) (i : ℕ) (args : List Bytes) :
    Moves (Keeps t x T) (Cmd.setrange env i args) := by
  refine moves_parsed fun offset => moves_parsed fun k => Keeps.get_set hnow k fun v s => ?_
  cases arg args 2 with
  | error e => exact Or.inl rfl
  | ok patch =>
    rw [lift_ok_bind]
    cases Cmd.overwrite (v.getD []) ((argUsize offset).getD 0) patch with
    | none => exact Or.inl rfl
    | some current => exact Or.inr ⟨current, Proc.bind_pure_snd _ _ _⟩

theorem keeps_getset (hnow : env.now ≤ t) (i : ℕ) (args : List Bytes) :
    Moves (Keeps t x T) (Cmd.getset env i args) := by
  refine moves_parsed fun k => Keeps.get_set hnow k fun v s => ?_
  cases arg args 1 with
  | error e => exact Or.inl rfl
  | ok a => exact Or.inr ⟨a, Proc.bind_pure_snd _ _ _⟩

theorem keeps_hset (i : ℕ) (args : List Bytes) : Moves (Keeps t x T) (Cmd.hset env i args) := by
  refine moves_parsed fun rest => ?_
  dsimp only
  split
  · exact Keyspace.moves_throw _
  · exact moves_parsed fun k => moves_replied (Keeps.upsertAs .hash k _ _) _

theorem keeps_xadd (i : ℕ) (args : List Bytes) :
    Moves (Keeps t x T) (Cmd.xadd env i args) := by
  rw [Cmd.xadd]
  dsimp only
  split
  · exact Keyspace.moves_throw _
  · split
    · exact Keyspace.moves_throw _
    · exact moves_parsed fun k => moves_replied (Keeps.xadd k _ _ _) _

theorem keeps_xtrim (hnow : env.now ≤ t) (i : ℕ) (args : List Bytes) :
    Moves (Keeps t x T) (Cmd.xtrim env i args) := by
  rw [Cmd.xtrim]
  dsimp only
  split
  · exact Keyspace.moves_throw _
  · exact moves_parsed fun _ => moves_parsed fun k => moves_replied
      (Keeps.updateAs .stream hnow k _ _) _

open CommandDef.KeepsTypes in
/-- **The commands that keep types.** -/
theorem keepsTypes_commands (hnow : env.now ≤ t) : ∀ c ∈ commands, c.KeepsTypes t x T env := by
  have hstring : ∀ c ∈ Cmd.stringCommands, c.KeepsTypes t x T env := by
    simp only [Cmd.stringCommands, List.forall_mem_cons]
    exact ⟨of_read, other (by decide), of_read, other (by decide),
      write fun i _ => moves_parsed fun k => keeps_incrFn hnow i k 1,
      write fun i _ => moves_parsed fun _ => moves_parsed fun by_ => moves_parsed fun k =>
        keeps_incrFn hnow i k by_,
      write fun i _ => moves_parsed fun k => keeps_incrFn hnow i k (-1),
      write fun i _ => moves_parsed fun _ => moves_parsed fun by_ => moves_parsed fun k =>
        keeps_incrFn hnow i k (-by_),
      write (keeps_append hnow), of_read, of_read, write (keeps_setrange hnow),
      write (keeps_getset hnow), List.forall_mem_nil _⟩
  have hgeneric : ∀ c ∈ Cmd.genericCommands, c.KeepsTypes t x T env := by
    simp only [Cmd.genericCommands, List.forall_mem_cons]
    exact ⟨other (by decide), of_read, other (by decide), other (by decide), other (by decide),
      other (by decide), of_read, of_read,
      write fun _ _ => moves_parsed fun k => moves_replied (Keeps.removeExpire k) _, of_read,
      other (by decide), other (by decide), of_read, other (by decide), other (by decide),
      other (by decide), of_read, of_side, of_read, of_read, of_read, List.forall_mem_nil _⟩
  have hlist : ∀ c ∈ Cmd.listCommands, c.KeepsTypes t x T env := by
    simp only [Cmd.listCommands, List.forall_mem_cons]
    exact ⟨write fun _ _ => moves_parsed fun k => moves_parsed fun _ => moves_replied
        (Keeps.push .list k _ _) _,
      write fun _ _ => moves_parsed fun k => moves_parsed fun _ => moves_replied
        (Keeps.push .list k _ _) _,
      write fun _ _ => moves_parsed fun k => moves_replied (Keeps.updateAs .list hnow k _ _) _,
      write fun _ _ => moves_parsed fun k => moves_replied (Keeps.updateAs .list hnow k _ _) _,
      of_read, of_read, of_read,
      write fun _ _ => moves_parsed fun _ => moves_parsed fun k => moves_parsed fun _ =>
        moves_replied (Keeps.updateAs .list hnow k _ _) _,
      write fun _ _ => moves_parsed fun _ => moves_parsed fun _ => moves_parsed fun k =>
        moves_replied (Keeps.updateAs .list hnow k _ _) _,
      write fun _ _ => moves_parsed fun _ => moves_parsed fun k => moves_parsed fun _ =>
        moves_replied (Keeps.updateAs .list hnow k _ _) _,
      of_whole, of_whole, List.forall_mem_nil _⟩
  have hset : ∀ c ∈ Cmd.setCommands, c.KeepsTypes t x T env := by
    simp only [Cmd.setCommands, List.forall_mem_cons]
    exact ⟨write fun _ _ => moves_parsed fun k => moves_parsed fun _ => moves_replied
        (Keeps.upsertAs .set k _ _) _,
      write fun _ _ => moves_parsed fun k => moves_parsed fun _ => moves_replied
        (Keeps.updateAs .set hnow k _ _) _,
      of_read, of_read, of_read, of_read, of_read, of_read, of_read,
      write fun _ _ => moves_parsed fun k => moves_replied (Keeps.updateAs .set hnow k _ _) _,
      List.forall_mem_nil _⟩
  have hhash : ∀ c ∈ Cmd.hashCommands, c.KeepsTypes t x T env := by
    simp only [Cmd.hashCommands, List.forall_mem_cons]
    exact ⟨write keeps_hset, of_read,
      write fun _ _ => moves_parsed fun k => moves_parsed fun _ => moves_replied
        (Keeps.updateAs .hash hnow k _ _) _,
      of_read, of_read, of_read, of_read, of_read,
      write fun _ _ => moves_parsed fun _ => moves_parsed fun _ => moves_parsed fun k =>
        moves_parsed fun _ => moves_replied (Keeps.upsertAs .hash k _ _) _,
      List.forall_mem_nil _⟩
  have hzset : ∀ c ∈ Cmd.zsetCommands, c.KeepsTypes t x T env := by
    simp only [Cmd.zsetCommands, List.forall_mem_cons]
    exact ⟨write fun _ _ => moves_parsed fun _ => moves_parsed fun _ => moves_parsed fun k =>
        moves_replied (Keeps.upsertAs .zset k _ _) _,
      write fun _ _ => moves_parsed fun k => moves_parsed fun _ => moves_replied
        (Keeps.updateAs .zset hnow k _ _) _,
      of_read, of_read, of_read, of_read, of_read, of_read, List.forall_mem_nil _⟩
  have hstream : ∀ c ∈ Cmd.streamCommands, c.KeepsTypes t x T env := by
    simp only [Cmd.streamCommands, List.forall_mem_cons]
    exact ⟨write keeps_xadd, of_read, of_read, of_read,
      write fun _ _ => moves_parsed fun _ => moves_parsed fun k => moves_replied
        (Keeps.updateAs .stream hnow k _ _) _,
      write (keeps_xtrim hnow), of_read, of_whole, of_side, of_side, of_side, of_side,
      List.forall_mem_nil _⟩
  have hnested : ∀ c ∈ Cmd.nestedHashCommands, c.KeepsTypes t x T env := by
    simp only [Cmd.nestedHashCommands, List.forall_mem_cons]
    exact ⟨write fun _ _ => moves_parsed fun k => moves_parsed fun _ => moves_parsed fun _ =>
        moves_parsed fun _ => moves_replied (Keeps.upsertAs .nestedHash k _ _) _,
      of_read,
      write fun _ _ => moves_parsed fun k => moves_parsed fun _ => moves_replied
        (Keeps.updateAs .nestedHash hnow k _ _) _,
      of_read, of_read, of_read, List.forall_mem_nil _⟩
  have hserver : ∀ c ∈ Cmd.serverCommands, c.KeepsTypes t x T env := by
    simp only [Cmd.serverCommands, List.forall_mem_cons]
    exact ⟨of_read, of_read, of_read, of_side, other (by decide), of_read, of_read,
      List.forall_mem_nil _⟩
  have hsides : ∀ c ∈ Cmd.pubsubCommands ++ Cmd.transactionCommands ++ Cmd.luaCommands ++
      Cmd.clusterCommands, c.KeepsTypes t x T env := by
    simp only [Cmd.pubsubCommands, Cmd.transactionCommands, Cmd.luaCommands, Cmd.clusterCommands,
      List.cons_append, List.nil_append, List.forall_mem_cons]
    simp [CommandDef.KeepsTypes]
  exact forall_commands hserver hstring hgeneric hlist hset hhash hzset hstream hnested hsides

/-! ### Calls -/

theorem Databases.HasType.of_apart {dbs dbs' : Databases} (h : Apart t {x} dbs dbs')
    (hx : dbs.HasType t x T) : dbs'.HasType t x T := by
  rwa [Databases.HasType, h.live x.1 x.2 rfl]

theorem keeps_popFirst {pop : Bytes → KeyM (Option Bytes)}
    (hpop : ∀ key, Moves (Keeps t x T) (pop key)) (keys : List Bytes) :
    Moves (Keeps t x T) (Cmd.popFirst pop keys) := by
  induction keys with
  | nil => exact moves_pure none
  | cons key keys ih =>
    refine (hpop key).bind fun o => ?_
    cases o with
    | none => exact ih
    | some val => exact moves_pure _

/-- `XGROUP` makes a stream only where nothing is alive. -/
theorem hasType_xgroup (hnow : env.now ≤ t) {args : List Bytes} {w : Whole}
    (hx : w.store.databases.HasType t x T) :
    (Cmd.xgroup env args w).2.store.databases.HasType t x T := by
  rw [Cmd.xgroup_store]
  cases hcall : Cmd.xgroupCall env args with
  | none => exact hx
  | some r =>
    obtain ⟨k, group, c⟩ := r
    cases c with
    | create startId mkstream =>
      dsimp only [GroupCall.run]
      rcases xgroupCreate_cases env.now w.ctx.dbIndex k group startId mkstream ⟨w.store, {}⟩ with
        ⟨e, h⟩ | ⟨dbs, ⟨hdbs, -⟩ | ⟨-, hnone, hdbs⟩, h⟩
      · rwa [h]
      · rw [h, hdbs]
        exact hx
      · rw [h, hdbs]
        have hoff : x.1 ≠ w.ctx.dbIndex ∨ x.2 ≠ k := by
          rw [← not_and_or]
          rintro ⟨hi, rfl⟩
          obtain ⟨e, he, -⟩ := hx
          rw [hi, Databases.liveEntry_mono hnow hnone] at he
          cases he
        rwa [Databases.HasType, liveEntry_put_of_ne hoff]
    | _ => exact hx

theorem hasType_blockingPop {args : List Bytes} {w : Whole}
    {pop : UInt64 → ℕ → Bytes → KeyM (Option Bytes)}
    (hpop : ∀ key, Moves (Keeps t x T) (pop env.now w.ctx.dbIndex key)) (direction : PopDirection)
    (hx : w.store.databases.HasType t x T) :
    (Cmd.blockingPop pop direction env args w).2.store.databases.HasType t x T := by
  rw [blockingPop_databases]
  exact keeps_popFirst hpop _ ⟨w.store.databases, []⟩ hx

/-- **One call** keeps the type of a key that it does not replace. -/
theorem Call.keeps_type (c : Call) (hc : c.command ∈ commands)
    (hleaf : c.command.handler.isLeaf = true) (hoff : ¬c.Replaces x) (hnow : c.env.now ≤ t)
    (hx : c.before.store.databases.HasType t x T) : c.after.store.databases.HasType t x T := by
  obtain ⟨hflushall, hnot⟩ := not_or.mp hoff
  rw [Call.after, Call.run]
  cases hh : c.command.handler with
  | read f => exact hx
  | side f => exact hx
  | write f =>
    have hwrite : c.command.handler.isWrite = true := by
      rw [hh]
      rfl
    by_cases hworks : c.WorksOn x
    · -- only a command that names the key can work on it
      obtain ⟨hdb, hflush | hmem⟩ := hworks.resolve_left hflushall
      · exact absurd ⟨hdb, Or.inl hflush⟩ hnot
      rcases names_of_write hc hwrite with hkeyed | hpurging | hflush | hflush
      · rcases keeping_or_replacing hc hwrite hkeyed with hkeeping | hreplacing
        · exact keepsTypes_commands hnow c.command hc hkeeping f hh c.before.ctx.dbIndex c.args
            { databases := c.before.store.databases } hx
        · rw [workedOn, if_pos hkeyed, ← hreplacing] at hmem
          exact absurd ⟨hdb, Or.inr hmem⟩ hnot
      · rcases List.mem_pair.mp hpurging with h | h <;> rw [h] at hmem <;>
          simp [workedOn, keyedNames] at hmem
      · exact absurd ⟨hdb, Or.inl hflush⟩ hnot
      · exact absurd hflush hflushall
    · have hapart := apart_write hc (K := {x}) (by simpa using hworks) hnow hh
        { databases := c.before.store.databases }
      exact .of_apart hapart hx
  | whole f =>
    have hname := wholeNames_of_handler hc (by rw [hh]; rfl)
    have hblpop : (⟨"BLPOP", -3, .whole Cmd.blpop⟩ : CommandDef) ∈ commands := by
      simp [commands, Cmd.listCommands]
    have hbrpop : (⟨"BRPOP", -3, .whole Cmd.brpop⟩ : CommandDef) ∈ commands := by
      simp [commands, Cmd.listCommands]
    have hxgroup : (⟨"XGROUP", -2, .whole Cmd.xgroup⟩ : CommandDef) ∈ commands := by
      simp [commands, Cmd.streamCommands]
    refine of_definitions (P := fun d => ∀ f, d.handler = .whole f →
      (f c.env c.args c.before).2.store.databases.HasType t x T) ?_ hc hname f hh
    rw [wholeNames]
    simp only [List.forall_mem_cons]
    refine ⟨⟨_, hblpop, rfl, ?_⟩, ⟨_, hbrpop, rfl, ?_⟩, ⟨_, hxgroup, rfl, ?_⟩,
      List.forall_mem_nil _⟩
    · rintro _ ⟨⟩
      exact hasType_blockingPop (fun key => Keeps.updateAs .list hnow key _ _) .left hx
    · rintro _ ⟨⟩
      exact hasType_blockingPop (fun key => Keeps.updateAs .list hnow key _ _) .right hx
    · rintro _ ⟨⟩
      exact hasType_xgroup hnow hx
  | exec | eval | evalsha =>
    rw [hh] at hleaf
    cases hleaf

/-- **A command** keeps the type of a key that none of its calls replaces. -/
theorem hasType_dispatch (hnow : env.now ≤ t) (name : String) (args : List Bytes) (w : Whole)
    (hcalls : ∀ c ∈ calls env name args w, ¬c.Replaces x)
    (hx : w.store.databases.HasType t x T) :
    (dispatch env name args w).2.store.databases.HasType t x T := by
  have hblind : BlindTo fun w' : Whole => w'.store.databases.HasType t x T :=
    ⟨fun _ _ => id, fun _ _ => id, fun _ _ => id⟩
  have hcall : ∀ c : Call, c.command ∈ commands → c.command.handler.isLeaf = true → c.env = env →
      c.Allowed → ¬c.Replaces x → c.before.store.databases.HasType t x T →
        True ∧ c.after.store.databases.HasType t x T :=
    fun c hc hleaf henv _ hoff h => ⟨trivial, c.keeps_type hc hleaf hoff (henv ▸ hnow) h⟩
  exact (keeps_calls (Q := fun _ => True) hblind hcall name args w hx hcalls).2

end Commands

/-! ### Runs -/

/-- The event neither replaces nor evicts the key, and its clock does not run ahead of `t`. -/
def StoreTurn.KeepsKey (t : UInt64) (x : ℕ × Bytes) (s : Store) : StoreTurn → Prop
  | .request r => r.env.now ≤ t ∧ ∀ c ∈ calls r.env r.name r.args ⟨s, r.ctx⟩, ¬c.Replaces x
  | .expiry _ now => now ≤ t
  | .memory it => (s.databases.find x.1 x.2).isSome →
    ((s.memoryTask it).databases.find x.1 x.2).isSome

/-- The memory task evicts a key or leaves it as it is. -/
theorem Databases.HasType.memoryTask {t : UInt64} {x : ℕ × Bytes} {T : String} {s : Store}
    (hx : s.databases.HasType t x T) (it : Iteration)
    (hkept : (s.databases.find x.1 x.2).isSome →
      ((s.memoryTask it).databases.find x.1 x.2).isSome) :
    (s.memoryTask it).databases.HasType t x T := by
  rcases s.memoryTask_cases it with ⟨-, htask⟩ | ⟨-, log, hevicts, -⟩
  · rwa [htask]
  · obtain ⟨e, he, hT⟩ := hx
    obtain ⟨hfind, hfresh⟩ := Option.filter_eq_some_iff.mp he
    obtain ⟨e', he'⟩ := Option.isSome_iff_exists.mp (hkept (by rw [hfind]; rfl))
    obtain rfl := Option.some.inj (hfind.symm.trans (hevicts.find_of_find he'))
    exact ⟨e, Option.filter_eq_some_iff.mpr ⟨he', hfresh⟩, hT⟩

/-- **The type of a key is kept.** Whatever commands all clients send, in scripts and transactions
too, and whatever the background tasks do meanwhile: a live key stays alive and keeps its type, as
long as none of the commands that set, delete, rename or expire keys is given it, the databases are
not flushed, and it is not evicted. -/
theorem type_is_kept {t : UInt64} {x : ℕ × Bytes} {T : String} {s : Store} {es : List StoreTurn}
    (hes : Run.Along StoreTurn.next (fun s e => e.KeepsKey t x s) s es)
    (hx : s.databases.HasType t x T) : (es.foldl StoreTurn.next s).databases.HasType t x T := by
  refine hes.invariant (I := fun s => s.databases.HasType t x T) (fun s e hI he => ?_) hx
  cases e with
  | request r => exact hasType_dispatch he.1 r.name r.args ⟨s, r.ctx⟩ he.2 hI
  | expiry it now => exact .of_apart (StoreTurn.apart_next (e := .expiry it now) he) hI
  | memory it => exact hI.memoryTask it he

/-- A store with a list of one element under `a`, and memory for one key. -/
def Store.withList : Store :=
  ⟨(Store.new 1).databases.put 0 [97] { value := .list [[53]] },
    { maxmemory := 100, evictionPolicy := .allKeysRandom }⟩

/-- The list is emptied, taken for a counter, and another key is set and evicted. -/
def emptyingRun : List StoreTurn :=
  [.request (Request.plain 1 "LPOP" [[97]]), .request (Request.plain 2 "INCR" [[97]]),
    .request (Request.plain 1 "SET" [[98], [54]]), .expiry Iteration.stored 7,
    .memory Iteration.stored]

theorem type_is_kept_emptied :
    (emptyingRun.foldl StoreTurn.next Store.withList).databases.HasType 9 (0, [97]) "list" := by
  have hnow : (Request.plain 1 "LPOP" [[97]]).env.now ≤ 9 := by decide
  have hexpiry : (7 : UInt64) ≤ 9 := by decide
  refine type_is_kept (s := Store.withList) ⟨⟨hnow, ?_⟩, ⟨hnow, ?_⟩, ⟨hnow, ?_⟩, hexpiry,
    fun _ => ?_, trivial⟩ ⟨_, rfl, rfl⟩
  all_goals decide +kernel

end VeloDB
