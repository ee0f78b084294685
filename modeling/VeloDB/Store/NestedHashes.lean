import VeloDB.Lib.NestedMap
import VeloDB.Lib.Run
import VeloDB.Store.Hashes

/-!
# A nested hash as a flat map

A client of a nested hash names a value by a field and a subfield; that the store keeps a map of
maps is not its concern. So the reference is one map from pairs to values, and a nested hash is
correct if no client can tell it from that map. What could give it away is an empty inner map: it
has no pair, and `NHKEYS` would list its field.

## Main results

* `Represents.set`, `Represents.del` — one command
* `nestedHash_refines` — a sequence of commands on a key that starts out absent
-/

namespace VeloDB

open Rust

/-- The reference: a value for each pair of a field and a subfield. -/
abbrev PairMap := HashMap (Bytes × Bytes) Bytes

/-- A command that changes a nested hash. -/
inductive NestedCommand
  | nhset (field subfield value : Bytes)
  | nhdel (now : UInt64) (field : Bytes) (subfield : Option Bytes)

namespace NestedCommand

/-- The method of the store. -/
def run (i : ℕ) (k : Bytes) : NestedCommand → KeyM ℕ
  | nhset field subfield value => Keyspace.nhset i k field subfield value
  | nhdel now field subfield => Keyspace.nhdel now i k field subfield

/-- The store after a command. -/
def next (i : ℕ) (k : Bytes) (s : Keyspace) (c : NestedCommand) : Keyspace := (c.run i k s).2

/-- What a command returns. -/
def returns (i : ℕ) (k : Bytes) (s : Keyspace) (c : NestedCommand) : List (Except Failure ℕ) :=
  [(c.run i k s).1]

/-- The reference after a command. -/
def nextPairs (p : PairMap) : NestedCommand → PairMap
  | nhset field subfield value => p.insert (field, subfield) value
  | nhdel _ field (some subfield) => p.erase (field, subfield)
  | nhdel _ field none => p.eraseField field

/-- What the reference returns: one for a new pair, and one when something is removed. -/
def count (p : PairMap) : NestedCommand → ℕ
  | nhset field subfield _ => if (p.lookup (field, subfield)).isSome then 0 else 1
  | nhdel _ field (some subfield) => if (p.lookup (field, subfield)).isSome then 1 else 0
  | nhdel _ field none => if p.pairsOf field = [] then 0 else 1

/-- The counts of the reference as results of the store. -/
def returnsPairs (p : PairMap) (c : NestedCommand) : List (Except Failure ℕ) := [.ok (c.count p)]

end NestedCommand

/-- A key that is absent, or holds a nested hash without TTL, and the pairs it stands for. -/
inductive Represents (dbs : Databases) (i : ℕ) (k : Bytes) (p : PairMap) : Prop
  | absent (hnone : dbs.find i k = none)
      (h : HashMap.Flattens (∅ : HashMap Bytes (HashMap Bytes Bytes)) p)
  | stored {e : Entry} {m : HashMap Bytes (HashMap Bytes Bytes)} (he : dbs.find i k = some e)
      (hlasting : e.expireAt = none) (hvalue : e.value = .nestedHash m) (h : m.Flattens p)

/-- The reading methods against the reference. The lists come in an order of the store's own. -/
structure ReadsPairs (dbs : Databases) (now : UInt64) (i : ℕ) (k : Bytes) (p : PairMap) : Prop where
  nhget : ∀ field subfield, dbs.nhget now i k field subfield = .ok (p.lookup (field, subfield))
  nhkeys_field : ∀ field, ∃ l, dbs.nhkeys now i k (some field) = .ok l ∧ l.Nodup ∧
    ∀ subfield, subfield ∈ l ↔ (p.lookup (field, subfield)).isSome
  nhkeys : ∃ l, dbs.nhkeys now i k none = .ok l ∧ l.Nodup ∧
    ∀ field, field ∈ l ↔ ∃ subfield value, p.lookup (field, subfield) = some value
  nhvals_field : ∀ field, ∃ l, dbs.nhvals now i k (some field) = .ok l ∧
    l.Perm ((p.pairsOf field).map Prod.snd)
  nhvals : ∃ l, dbs.nhvals now i k none = .ok l ∧ l.Perm (p.pairs.map Prod.snd)

namespace Represents

variable {dbs : Databases} {i : ℕ} {k : Bytes} {p : PairMap}

theorem liveEntry_eq_find (h : Represents dbs i k p) (now : UInt64) :
    dbs.liveEntry now i k = dbs.find i k := by
  rw [Databases.liveEntry]
  cases h with
  | absent hnone => rw [hnone]; rfl
  | stored he hlasting => rw [he, Option.filter_some, Entry.expired, hlasting]; rfl

/-- The map that is read. -/
theorem exists_readAs (h : Represents dbs i k p) (hi : i < dbs.length) (now : UInt64) :
    ∃ m : HashMap Bytes (HashMap Bytes Bytes), m.Flattens p ∧ ∀ {β : Type}
      (f : HashMap Bytes (HashMap Bytes Bytes) → β),
      dbs.readAs .nestedHash now i k (f ∅) f = .ok (f m) := by
  have hlive := h.liveEntry_eq_find now
  cases h with
  | absent hnone hm => exact ⟨∅, hm, fun f => Databases.readAs_none hi (hlive.trans hnone) _ f⟩
  | @stored e m he hlasting hvalue hm =>
    have hunwrap : Kind.nestedHash.unwrap e.value = some m := by rw [hvalue]; rfl
    exact ⟨m, hm, fun f => Databases.readAs_some (hlive.trans he) hunwrap _ f⟩

theorem readsPairs (h : Represents dbs i k p) (hi : i < dbs.length) (now : UInt64) :
    ReadsPairs dbs now i k p := by
  obtain ⟨m, hm, hread⟩ := h.exists_readAs hi now
  refine ⟨fun f s => ?_, fun f => ?_, ?_, fun f => ?_, ?_⟩
  · rw [Databases.nhget, ← hm.lookup]
    exact hread fun m => m.lookup₂ f s
  · refine ⟨((m.lookup f).getD ∅).keys, ?_, AList.keys_nodup _, fun s => hm.mem_keys_inner⟩
    refine (hread fun m => ((m.lookup f).map AList.keys).getD []).trans (congrArg Except.ok ?_)
    cases m.lookup f <;> rfl
  · exact ⟨m.keys, hread AList.keys, m.keys_nodup, fun f => hm.mem_keys⟩
  · refine ⟨((m.lookup f).getD ∅).pairs.map Prod.snd, ?_, ?_⟩
    · refine (hread fun m => ((m.lookup f).map fun inner => inner.pairs.map Prod.snd).getD []).trans
        (congrArg Except.ok ?_)
      cases m.lookup f <;> rfl
    · have hperm := (hm.perm_pairsOf f).map Prod.snd
      rwa [List.map_map] at hperm
  · have hvals := hread fun m : HashMap Bytes (HashMap Bytes Bytes) =>
      m.pairs.flatMap fun p => p.2.pairs.map Prod.snd
    refine ⟨_, hvals, ?_⟩
    have hperm := hm.perm_pairs.map Prod.snd
    simp only [HashMap.pairs₂, List.map_flatMap, List.map_map] at hperm
    exact hperm

/-- A stored nested hash is replaced by another one. -/
theorem put {m : HashMap Bytes (HashMap Bytes Bytes)} (hi : i < dbs.length) {e : Entry}
    (hlasting : e.expireAt = none) (h : m.Flattens p) :
    Represents (dbs.put i k { e with value := .nestedHash m }) i k p :=
  .stored (Databases.find_put_self hi) hlasting rfl h

/-- What `nhdel` does to a nested hash, and what it returns. -/
def nhdelOn (f : Bytes) (s : Option Bytes) (m : HashMap Bytes (HashMap Bytes Bytes)) :
    Except Failure ℕ × HashMap Bytes (HashMap Bytes Bytes) :=
  match s with
  | some s => (.ok (if (m.lookup₂ f s).isSome then 1 else 0), m.erasePair f s)
  | none => (.ok (if (m.lookup f).isSome then 1 else 0), m.erase f)

theorem nhdel_eq (now : UInt64) (f : Bytes) (s : Option Bytes) :
    Keyspace.nhdel now i k f s = Keyspace.updateAs .nestedHash now i k (.ok 0) (nhdelOn f s) := by
  rw [Keyspace.nhdel]
  congr 1
  funext m
  cases s with
  | none => rfl
  | some s =>
    rw [nhdelOn, HashMap.lookup₂, HashMap.erasePair]
    cases hm : m.lookup f with
    | none => simp
    | some inner =>
      simp only [Option.bind_eq_bind, Option.bind_some]
      split_ifs <;> rfl

theorem nhdelOn_flattens {m : HashMap Bytes (HashMap Bytes Bytes)} (h : m.Flattens p)
    (now : UInt64) (f : Bytes) (s : Option Bytes) :
    (nhdelOn f s m).1 = .ok ((NestedCommand.nhdel now f s).count p) ∧
      (nhdelOn f s m).2.Flattens (NestedCommand.nextPairs p (.nhdel now f s)) := by
  cases s with
  | some s =>
    refine ⟨?_, h.erasePair f s⟩
    rw [nhdelOn, h.lookup]
    rfl
  | none =>
    refine ⟨congrArg Except.ok ?_, h.eraseField f⟩
    have hiff : (m.lookup f).isSome ↔ p.pairsOf f ≠ [] := by
      rw [AList.lookup_isSome, AList.mem_keys, h.mem_keys, HashMap.pairsOf_ne_nil]
    rw [NestedCommand.count]
    by_cases hp : p.pairsOf f = []
    · rw [if_pos hp, if_neg fun hf => hiff.mp hf hp]
    · rw [if_neg hp, if_pos (hiff.mpr hp)]

/-- **`NHSET`.** -/
theorem set (h : Represents dbs i k p) (hi : i < dbs.length) (f s v : Bytes)
    (notified : List Bytes) : ∃ dbs', Keyspace.nhset i k f s v ⟨dbs, notified⟩
        = (.ok ((NestedCommand.nhset f s v).count p), ⟨dbs', notified⟩) ∧
      dbs'.length = dbs.length ∧ Represents dbs' i k (p.insert (f, s) v) := by
  obtain ⟨m, e, hm, hold, hunwrap, hlasting⟩ : ∃ m e, HashMap.Flattens m p ∧
      (dbs.find i k).getD { value := Kind.nestedHash.wrap ∅ } = e ∧
      Kind.nestedHash.unwrap e.value = some m ∧ e.expireAt = none := by
    cases h with
    | absent hnone hm => exact ⟨∅, _, hm, by rw [hnone, Option.getD_none], rfl, rfl⟩
    | @stored e m he hlasting hvalue hm =>
      exact ⟨m, e, hm, by rw [he, Option.getD_some], by rw [hvalue]; rfl, hlasting⟩
  subst hold
  rw [Keyspace.nhset, Keyspace.upsertAs_run .nestedHash hi hunwrap]
  refine ⟨_, Prod.ext (congrArg Except.ok ?_) rfl, Databases.length_put,
    put hi hlasting (hm.insert f s v)⟩
  rw [NestedCommand.count, ← hm.lookup_getD]

/-- **`NHDEL`**, of one pair or of a field. -/
theorem del (h : Represents dbs i k p) (hi : i < dbs.length) (now : UInt64) (f : Bytes)
    (s : Option Bytes) (notified : List Bytes) :
    ∃ dbs', Keyspace.nhdel now i k f s ⟨dbs, notified⟩
        = (.ok ((NestedCommand.nhdel now f s).count p), ⟨dbs', notified⟩) ∧
      dbs'.length = dbs.length ∧
      Represents dbs' i k (NestedCommand.nextPairs p (.nhdel now f s)) := by
  have hlive := h.liveEntry_eq_find now
  cases h with
  | absent hnone hm =>
    obtain ⟨hcount, hm'⟩ := nhdelOn_flattens hm now f s
    refine ⟨dbs, ?_, rfl, .absent hnone ?_⟩
    · rw [nhdel_eq, Keyspace.updateAs,
        Proc.bind_ok (Keyspace.read_entry hi now k notified), hlive, hnone, ← hcount]
      cases s <;> rfl
    · cases s <;> exact hm'
  | @stored e m he hlasting hvalue hm =>
    obtain ⟨hcount, hm'⟩ := nhdelOn_flattens hm now f s
    have hunwrap : Kind.nestedHash.unwrap e.value = some m := by rw [hvalue]; rfl
    refine ⟨_, ?_, Databases.length_put, put hi hlasting hm'⟩
    rw [nhdel_eq, Keyspace.updateAs_run .nestedHash (hlive.trans he) hunwrap, ← hcount]
    rfl

/-- **One command**, on the store and on the reference. -/
theorem next (h : Represents dbs i k p) (hi : i < dbs.length) (notified : List Bytes)
    (c : NestedCommand) : c.returns i k ⟨dbs, notified⟩ = c.returnsPairs p ∧
      i < (c.next i k ⟨dbs, notified⟩).databases.length ∧
      Represents (c.next i k ⟨dbs, notified⟩).databases i k (NestedCommand.nextPairs p c) := by
  obtain ⟨dbs', hrun, hlen, h'⟩ : ∃ dbs', c.run i k ⟨dbs, notified⟩
      = (.ok (c.count p), ⟨dbs', notified⟩) ∧ dbs'.length = dbs.length ∧
        Represents dbs' i k (NestedCommand.nextPairs p c) := by
    cases c with
    | nhset f s v => exact h.set hi f s v notified
    | nhdel now f s => exact h.del hi now f s notified
  rw [NestedCommand.returns, NestedCommand.returnsPairs, NestedCommand.next, hrun]
  exact ⟨rfl, hlen ▸ hi, h'⟩

end Represents

/-- **A nested hash is a flat map.** However insertions and the two kinds of deletion interleave, on
a key that starts out absent every command returns what the reference returns, and at the end the
key stands for the reference and reads as it at any time. -/
theorem nestedHash_refines {dbs : Databases} {i : ℕ} (hi : i < dbs.length) {k : Bytes}
    (habsent : dbs.find i k = none) (notified : List Bytes) (cs : List NestedCommand) :
    Run.gathered (NestedCommand.next i k) (NestedCommand.returns i k) ⟨dbs, notified⟩ cs
        = Run.gathered NestedCommand.nextPairs NestedCommand.returnsPairs ∅ cs ∧
      Represents (cs.foldl (NestedCommand.next i k) ⟨dbs, notified⟩).databases i k
        (cs.foldl NestedCommand.nextPairs ∅) ∧
      ∀ now, ReadsPairs (cs.foldl (NestedCommand.next i k) ⟨dbs, notified⟩).databases now i k
        (cs.foldl NestedCommand.nextPairs ∅) := by
  -- the database stays in range, which every call needs
  let R : Keyspace → PairMap → Prop := fun s p =>
    i < s.databases.length ∧ Represents s.databases i k p
  have hstep : ∀ s p c, R s p → NestedCommand.returns i k s c = NestedCommand.returnsPairs p c ∧
      R (NestedCommand.next i k s c) (NestedCommand.nextPairs p c) :=
    fun s p c hR => hR.2.next hR.1 s.notified c
  have hstart : R ⟨dbs, notified⟩ ∅ := ⟨hi, .absent habsent .empty⟩
  obtain ⟨hgives, hi', h⟩ := Run.gathered_related hstep hstart cs
  exact ⟨hgives, h, fun now => h.readsPairs hi' now⟩

/-- Two pairs of one field, the first set again, then both deleted: the field goes with the second
of them, and deleting it as a whole removes nothing more. -/
theorem nestedHash_refines_emptied :
    let cs : List NestedCommand := [.nhset [102] [97] [1], .nhset [102] [98] [2],
      .nhset [102] [97] [3], .nhdel 0 [102] (some [97]), .nhdel 0 [102] (some [98]),
      .nhdel 0 [102] none]
    let s := cs.foldl (NestedCommand.next 0 [107]) ⟨(Store.new 1).databases, []⟩
    s.databases.nhkeys 5 0 [107] none = .ok [] ∧
      ReadsPairs s.databases 5 0 [107] (cs.foldl NestedCommand.nextPairs ∅) :=
  ⟨by decide, (nestedHash_refines (by decide) (Databases.find_new 1 0 [107]) []
    [.nhset [102] [97] [1], .nhset [102] [98] [2], .nhset [102] [97] [3],
      .nhdel 0 [102] (some [97]), .nhdel 0 [102] (some [98]), .nhdel 0 [102] none]).2.2 5⟩

end VeloDB
