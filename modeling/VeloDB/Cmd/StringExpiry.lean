import VeloDB.Cmd.StringRace

/-!
# The expiry of strings that are changed

The counters of strings, `APPEND` and `SETRANGE` write with `Store::set`, which sets the expiry
along with the value, and they all give it none. So a string that expires does not expire any more
once one of them has changed it.

## Main results

* `keepsExpiry_iff` — when a change keeps the expiry
-/

namespace VeloDB

open Rust

/-- The key has the expiry `at_` in the databases that are left. -/
def KeepsExpiry (i : ℕ) (k : Bytes) (at_ : Option UInt64) (after : Keyspace) : Prop :=
  ∃ e, after.databases.find i k = some e ∧ e.expireAt = at_

variable {env : Env} {i : ℕ} {k v : Bytes} {e : Entry} {ks : Keyspace}

/-- A live string is what a read finds. -/
theorem Databases.get_of_string (he : ks.databases.liveEntry env.now i k = some e)
    (hv : e.value = .string v) : ks.databases.get env.now i k = .ok (some v) := by
  rw [get, entry_eq (lt_of_liveEntry he), he]
  simp only [bind, Except.bind, hv]
  rfl

theorem read_of_string (he : ks.databases.liveEntry env.now i k = some e)
    (hv : e.value = .string v) :
    Keyspace.read (fun dbs => dbs.get env.now i k) ks = (.ok (some v), ks) := by
  rw [Keyspace.read, Databases.get_of_string he hv]
  rfl

/-- **A write with `Store::set`** keeps no expiry, unless there was none. -/
theorem keepsExpiry_set (hi : i < ks.databases.length) (new : Bytes) (at_ : Option UInt64) :
    KeepsExpiry i k at_ (Keyspace.set i k new none ks).2 ↔ at_ = none := by
  rw [Keyspace.set_run hi new none ks.notified, KeepsExpiry]
  dsimp only
  rw [Databases.find_put_self hi]
  constructor
  · rintro ⟨e', he', rfl⟩
    obtain rfl := Option.some.inj he'
    rfl
  · rintro rfl
    exact ⟨_, rfl, rfl⟩

theorem keepsExpiry_self (he : ks.databases.liveEntry env.now i k = some e) :
    KeepsExpiry i k e.expireAt ks :=
  ⟨e, (Option.filter_eq_some_iff.mp he).1, rfl⟩

namespace StringUpdate

/-- What the command writes over the string; nothing if its argument is no number or the sum
overflows. -/
def written (v : Bytes) (u : StringUpdate) : Option Bytes :=
  u.change.toOption >>= fun c => c.result (some v)

theorem written_of_ok {u : StringUpdate} {c : StringChange} (h : u.change = .ok c) :
    u.written v = c.result (some v) := by
  rw [written, h]
  rfl

theorem written_of_error {u : StringUpdate} {failure : Failure} (h : u.change = .error failure) :
    u.written v = none := by
  rw [written, h]
  rfl

theorem finish_snd (c : StringChange) (ks : Keyspace) :
    (∃ new, c.result (some v) = some new ∧
      (c.finish i k (some v) ks).2 = (Keyspace.set i k new none ks).2) ∨
    (c.result (some v) = none ∧ (c.finish i k (some v) ks).2 = ks) := by
  cases c with
  | extend suffix =>
    refine Or.inl ⟨v ++ suffix, rfl, ?_⟩
    rw [StringChange.finish]
    exact Proc.bind_pure_snd _ _ _
  | add by_ =>
    rw [StringChange.finish, StringChange.result]
    cases checkedAdd ((some v >>= parseI64).getD 0) by_ with
    | none => exact Or.inr ⟨rfl, rfl⟩
    | some m =>
      refine Or.inl ⟨i64Bytes m, rfl, ?_⟩
      rw [orError, lift_ok_bind]
      exact Proc.bind_pure_snd _ _ _

/-- **A counter or `APPEND`**, of a live string. -/
theorem keepsExpiry_call (u : StringUpdate) (he : ks.databases.liveEntry env.now i k = some e)
    (hv : e.value = .string v) :
    KeepsExpiry i k e.expireAt (u.call env i k ks).2 ↔ e.expireAt = none ∨ u.written v = none := by
  rw [call_eq]
  cases hc : u.change with
  | error failure => exact iff_of_true (keepsExpiry_self he) (Or.inr (written_of_error hc))
  | ok c =>
    rw [lift_ok_bind, Proc.bind_ok (read_of_string he hv), written_of_ok hc]
    rcases finish_snd (v := v) (i := i) (k := k) c ks with ⟨new, hnew, heq⟩ | ⟨hnone, heq⟩
    · rw [heq, keepsExpiry_set (Databases.lt_of_liveEntry he), hnew]
      simp
    · rw [heq, hnone]
      exact iff_of_true (keepsExpiry_self he) (Or.inr rfl)

end StringUpdate

/-- **`SETRANGE`**, of a live string. -/
theorem keepsExpiry_setrange (offset patch : Bytes)
    (he : ks.databases.liveEntry env.now i k = some e) (hv : e.value = .string v) :
    KeepsExpiry i k e.expireAt (Cmd.setrange env i [k, offset, patch] ks).2 ↔
      e.expireAt = none ∨ Cmd.overwrite v ((argUsize offset).getD 0) patch = none := by
  rw [Cmd.setrange, arg_cons_succ, arg_cons_zero, lift_ok_bind, arg_cons_zero, lift_ok_bind,
    Proc.bind_ok (read_of_string he hv), arg_cons_succ, arg_cons_succ, arg_cons_zero, lift_ok_bind,
    Option.getD_some]
  cases Cmd.overwrite v ((argUsize offset).getD 0) patch with
  | none => exact iff_of_true (keepsExpiry_self he) (Or.inr rfl)
  | some new =>
    have hset := keepsExpiry_set (k := k) (Databases.lt_of_liveEntry he) new e.expireAt
    rw [← Proc.bind_pure_snd _ fun _ => RespValue.count new.length] at hset
    refine hset.trans ?_
    simp

/-- **Changes that keep the expiry.** A command that changes a live string keeps its expiry if and
only if there is none or the command fails. -/
theorem keepsExpiry_iff (he : ks.databases.liveEntry env.now i k = some e)
    (hv : e.value = .string v) :
    (∀ u : StringUpdate, KeepsExpiry i k e.expireAt (u.call env i k ks).2 ↔
      e.expireAt = none ∨ u.written v = none) ∧
    ∀ offset patch : Bytes,
      KeepsExpiry i k e.expireAt (Cmd.setrange env i [k, offset, patch] ks).2 ↔
        e.expireAt = none ∨ Cmd.overwrite v ((argUsize offset).getD 0) patch = none :=
  ⟨fun u => u.keepsExpiry_call he hv, fun offset patch => keepsExpiry_setrange offset patch he hv⟩

/-- A counter without an expiry. -/
theorem keepsExpiry_lasting :
    KeepsExpiry 0 [107] none (StringUpdate.incr.call (Moment.on ⟨1, 0, 0, 1⟩ Host.plain) 0 [107]
      ⟨(Store.new 1).databases.put 0 [107] { value := .string [53] }, []⟩).2 :=
  ((keepsExpiry_iff (e := { value := .string [53] }) (v := [53]) rfl rfl).1 .incr).mpr (Or.inl rfl)

/-- `INCR k` on a counter that expires leaves one that does not. -/
theorem not_keepsExpiry_incr :
    ¬KeepsExpiry 0 [107] (some 1000) (StringUpdate.incr.call (Moment.on ⟨1, 0, 0, 1⟩ Host.plain) 0
      [107] ⟨(Store.new 1).databases.put 0 [107]
        { value := .string [53], expireAt := some 1000 }, []⟩).2 := by
  rintro ⟨e, he, hat⟩
  have hnone : e.expireAt = none := by
    obtain rfl := Option.some.inj he
    rfl
  cases hnone.symm.trans hat

end VeloDB
