import VeloDB.Cmd.Strings
import VeloDB.Persist.RdbRoundTrip

/-!
# What a snapshot cannot hold

The loader takes an empty key for the end of the file, and the number of a database is one byte. So
no file has anything for the empty key or for a database from 256 on, while the store accepts both.

## Main results

* `loadRdb_edge` — loading a file, whatever is in it, leaves these places as they are
* `preserved_iff_inReach` — the databases that a snapshot brings back
-/

namespace VeloDB

open Rust

/-- The places that no file can fill. -/
def Edge (i : ℕ) (k : Bytes) : Prop := k = [] ∨ 256 ≤ i

/-- Every live entry has a key, in one of the first 256 databases. -/
def InReach (now : UInt64) (dbs : Databases) : Prop :=
  ∀ i k e, dbs.liveEntry now i k = some e → k ≠ [] ∧ i < 256

/-- A snapshot, loaded into a fresh store of the same size, has every live entry under its own key
in its own database. -/
def Preserved (now : UInt64) (dbs : Databases) : Prop :=
  ∃ file, saveRdb now dbs dbs.length = .ok file ∧ ∀ i k e, dbs.liveEntry now i k = some e →
    ∃ e', (loadRdb (Store.new dbs.length).databases file).1.find i k = some e' ∧ e.Same e' ∧
      (e.value.NoNaN → e'.value.Indexed)

/-! ### Loading -/

/-- The loader selects one of the first 256 databases, and has left the edges as they are. -/
def KeepsEdges (dbs : Databases) (st : LoadState) : Prop :=
  st.currentDb < 256 ∧ ∀ i k, Edge i k → st.databases.find i k = dbs.find i k

theorem store_cases {st st' : LoadState} {kv : Bytes × StorageValue} {expireAt : Option UInt64}
    (h : st.store kv expireAt = .ok st') :
    st' = st ∨ kv.1 ≠ [] ∧ ∃ e, st' = { st with
      databases := st.databases.put st.currentDb kv.1 e, count := st.count + 1 } := by
  rw [LoadState.store] at h
  by_cases hk : kv.1 = []
  · rw [if_pos hk] at h
    exact Or.inl (Except.ok.inj h).symm
  · rw [if_neg hk] at h
    refine Or.inr ⟨hk, ?_⟩
    cases hd : st.databases[st.currentDb]? with
    | none =>
      have hrun : Keyspace.setWithEntry st.currentDb kv.1 kv.2 expireAt
          { databases := st.databases } = (.error (.error (.internal _)), _) :=
        Proc.bind_error (by rw [Keyspace.read, Databases.db, hd]; rfl)
      rw [hrun] at h
      cases h
    | some d =>
      have hread : Keyspace.read (fun dbs => dbs.db st.currentDb) { databases := st.databases }
          = (.ok d, { databases := st.databases }) := by
        rw [Keyspace.read, Databases.db, hd]
        rfl
      rw [Keyspace.setWithEntry, Proc.bind_ok hread] at h
      cases hl : d.lookup kv.1 with
      | none =>
        rw [hl] at h
        exact ⟨_, (Except.ok.inj h).symm⟩
      | some e =>
        rw [hl] at h
        exact ⟨_, (Except.ok.inj h).symm⟩

variable {dbs : Databases} {st st' : LoadState}

theorem KeepsEdges.store (hst : KeepsEdges dbs st) {kv : Bytes × StorageValue}
    {expireAt : Option UInt64} (h : st.store kv expireAt = .ok st') : KeepsEdges dbs st' := by
  rcases store_cases h with rfl | ⟨hk, e, rfl⟩
  · exact hst
  · refine ⟨hst.1, fun i k hedge => ?_⟩
    rw [← hst.2 i k hedge]
    apply Databases.find_put_of_ne
    rcases hedge with rfl | hi
    · exact Or.inr (Ne.symm hk)
    · exact Or.inl (hst.1.trans_le hi).ne'

/-- **One opcode.** -/
theorem KeepsEdges.step (hst : KeepsEdges dbs st) {r r' : Bytes}
    (h : loadStep st r = .ok (st', r')) : KeepsEdges dbs st' := by
  cases r with
  | nil =>
    obtain ⟨rfl, -⟩ := Prod.mk.inj (Except.ok.inj h)
    exact hst
  | cons op r =>
    have hentry : ∀ {x : Except LoadError ((Bytes × StorageValue) × Bytes)}
        {expireAt : Option UInt64}, (x >>= fun q =>
          st.store q.1 expireAt >>= fun st => .ok (st, q.2)) = .ok (st', r') →
        KeepsEdges dbs st' := by
      intro x expireAt hx
      cases x with
      | error e => cases hx
      | ok q =>
        cases hs : st.store q.1 expireAt with
        | error e =>
          simp only [hs, bind, Except.bind] at hx
          cases hx
        | ok st₁ =>
          simp only [hs, bind, Except.bind] at hx
          obtain ⟨rfl, -⟩ := Prod.mk.inj (Except.ok.inj hx)
          exact hst.store hs
    by_cases hselect : op = dbSelect
    · subst hselect
      cases r with
      | nil => cases h
      | cons db r =>
        obtain ⟨rfl, -⟩ := Prod.mk.inj (Except.ok.inj h)
        exact ⟨db.toNat_lt, hst.2⟩
    · unfold loadStep at h
      dsimp only at h
      rw [if_neg hselect] at h
      by_cases hend : op = dbEnd
      · rw [if_pos hend] at h
        obtain ⟨rfl, -⟩ := Prod.mk.inj (Except.ok.inj h)
        exact hst
      · rw [if_neg hend] at h
        by_cases hexpire : op = expireTime
        · rw [if_pos hexpire] at h
          cases hat : readU64Le r with
          | error e =>
            rw [hat] at h
            cases h
          | ok a =>
            rw [hat] at h
            exact hentry h
        · rw [if_neg hexpire] at h
          by_cases hop : op ≤ typeNh
          · rw [if_pos hop] at h
            exact hentry h
          · rw [if_neg hop] at h
            cases h

theorem KeepsEdges.loop (hst : KeepsEdges dbs st) (fuel : ℕ) (r : Bytes) {i : ℕ} {k : Bytes}
    (hedge : Edge i k) : (loadLoop fuel st r).1.find i k = dbs.find i k := by
  induction fuel generalizing st r with
  | zero => cases r <;> exact hst.2 i k hedge
  | succ fuel ih =>
    cases r with
    | nil => exact hst.2 i k hedge
    | cons op r =>
      rw [loadLoop_cons]
      cases hstep : loadStep st (op :: r) with
      | error e => exact hst.2 i k hedge
      | ok q => exact ih (hst.step hstep) q.2

/-- **No file fills an edge.** -/
theorem loadRdb_edge (dbs : Databases) (data : Bytes) {i : ℕ} {k : Bytes} (hedge : Edge i k) :
    (loadRdb dbs data).1.find i k = dbs.find i k := by
  rw [loadRdb]
  split
  · rfl
  · split
    · rfl
    · dsimp only
      split
      · rfl
      · exact KeepsEdges.loop ⟨Nat.zero_lt_succ 255, fun _ _ _ => rfl⟩ _ _ hedge

/-! ### The round trip -/

variable {now : UInt64}

/-- What a snapshot brings back is in reach of its format. -/
theorem Preserved.inReach (h : Preserved now dbs) : InReach now dbs := by
  obtain ⟨file, -, hfile⟩ := h
  intro i k e he
  by_contra hout
  have hedge : Edge i k := by
    rw [Edge]
    by_contra hnot
    exact hout ⟨fun hk => hnot (Or.inl hk), Nat.lt_of_not_le fun hi => hnot (Or.inr hi)⟩
  obtain ⟨e', he', -⟩ := hfile i k e he
  rw [loadRdb_edge _ file hedge, Databases.find_new] at he'
  cases he'

theorem InReach.numbered (h : InReach now dbs) : Numbered now dbs := by
  intro i d hd
  cases hlive : Databases.live now d with
  | nil => exact Or.inr rfl
  | cons p l =>
    have he : dbs.liveEntry now i p.1 = some p.2 :=
      Databases.liveEntry_eq_some.mpr ⟨d, hd, by rw [hlive]; exact List.mem_cons_self⟩
    exact Or.inl (h i p.1 p.2 he).2

/-- **What is in reach of the format comes back**, if the sizes fit their fields. -/
theorem InReach.preserved (h : InReach now dbs) (hfits : FitsLive now dbs) :
    Preserved now dbs := by
  have hnew : (Store.new dbs.length).databases.length = dbs.length := List.length_replicate
  obtain ⟨file, loaded, result, hsave, hload, -, -, hfind⟩ :=
    loadRdb_onto hfits h.numbered (Store.new dbs.length).databases
  refine ⟨file, hsave, fun i k e he => ?_⟩
  obtain ⟨d, hd, -⟩ := Databases.liveEntry_eq_some.mp he
  have hi : i < dbs.length := (List.getElem?_eq_some_iff.mp hd).1
  have hik := hfind i k
  rw [hnew, if_pos hi, payload, if_neg (h i k e he).1, he] at hik
  obtain ⟨version, hver⟩ := hik
  rw [hload, hver]
  exact ⟨_, rfl, ⟨e.value.same_rebuilt, rfl⟩, StorageValue.indexed_rebuilt⟩

/-- **A snapshot preserves the live entries exactly when none has the empty key or lies in a
database from 256 on.** That it brings them back asks for sizes that fit the 32 bits of their
fields. -/
theorem preserved_iff_inReach (now : UInt64) (dbs : Databases) :
    (Preserved now dbs → InReach now dbs) ∧
      (FitsLive now dbs → (Preserved now dbs ↔ InReach now dbs)) :=
  ⟨Preserved.inReach, fun hfits => ⟨Preserved.inReach, fun h => h.preserved hfits⟩⟩

/-- A fresh store with `n` databases after `SET` in one of them. -/
def afterSet (n i : ℕ) (k : Bytes) : Databases :=
  (Cmd.set (Moment.on ⟨7, 0, 0, 1⟩ Host.plain) i [k, asBytes "v"]
    { databases := (Store.new n).databases }).2.databases

/-- **Neither edge survives a snapshot**: a value set under the empty key, and one set in database
256 of a store with 257. -/
theorem edges_lost :
    ¬Preserved 7 (afterSet 1 0 []) ∧ ¬Preserved 7 (afterSet 257 256 (asBytes "k")) := by
  constructor
  · intro h
    have he : ∃ e, (afterSet 1 0 []).liveEntry 7 0 [] = some e := ⟨_, rfl⟩
    obtain ⟨e, he⟩ := he
    exact (h.inReach 0 [] e he).1 rfl
  · intro h
    have he : ∃ e, (afterSet 257 256 (asBytes "k")).liveEntry 7 256 (asBytes "k") = some e :=
      Option.isSome_iff_exists.mp (by decide +kernel)
    obtain ⟨e, he⟩ := he
    exact absurd (h.inReach 256 _ e he).2 (by decide)

end VeloDB
