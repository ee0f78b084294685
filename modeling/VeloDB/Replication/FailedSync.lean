import VeloDB.Persist.RdbFraming
import VeloDB.Replication.Replica

/-!
# A full resync that fails

Whatever goes wrong before the snapshot is complete ends the connection and leaves the replication
id and the offset of the replica as they were. A snapshot that cannot be loaded does not: the error
is only logged, and the new id and offset are recorded as if the data were there.

## Main results

* `rejected_iff` — the payloads that `load_rdb` rejects, in terms of their bytes
* `failedSync_kept_iff` — when a failure leaves the id and the offset as they were
-/

namespace VeloDB

open Rust

/-! ### The payloads that are rejected -/

/-- `load_rdb` does not come to an end of the payload, by an error or by a panic. -/
def LoadFails (dbs : Databases) (payload : Bytes) : Prop := ∀ n, (loadRdb dbs payload).2 ≠ .ok n

/-- `load_rdb` returns an error: the payload is refused before its body is read, or an entry or an
opcode of the body is. -/
def Rejected (dbs : Databases) (payload : Bytes) : Prop :=
  Refused payload ∨ ∃ stored, Body dbs.length 0 (payload.drop 16) stored true

/-- **The payloads that `load_rdb` returns an error for.** -/
theorem rejected_iff (dbs : Databases) (payload : Bytes) :
    Rejected dbs payload ↔ ∃ e, e ≠ .panic ∧ (loadRdb dbs payload).2 = .error e := by
  by_cases hrefused : Refused payload
  · obtain ⟨e, he, hload⟩ := loadRdb_of_refused hrefused dbs
    exact iff_of_true (Or.inl hrefused) ⟨e, he, by rw [hload]⟩
  have hfuel : (payload.drop 16).length ≤ payload.length := by
    rw [List.length_drop]
    omega
  rw [Rejected, loadRdb_of_not_refused hrefused, or_iff_right hrefused]
  constructor
  · rintro ⟨stored, hbody⟩
    exact (loadLoop_of_body hbody rfl rfl hfuel).error rfl
  · rintro ⟨e, he, herror⟩
    obtain ⟨stored, failed, hbody⟩ := body_of_loadLoop _ { databases := dbs } _ hfuel
      (by rw [herror]; exact fun h => he (Except.error.inj h))
    cases failed with
    | false =>
      have hok := (loadLoop_of_body hbody rfl rfl hfuel).ok rfl
      rw [herror] at hok
      cases hok
    | true => exact ⟨stored, hbody⟩

/-! ### What the replica records -/

/-- If the payload cannot be loaded, the replica keeps its id and its offset, and asks with them the
next time. -/
def KeepsSync (dbs : Databases) (sync : ReplicaSyncState) (reads : List Bytes) (payload : Bytes) :
    Prop :=
  LoadFails dbs payload → (connectToMaster dbs sync reads).2.1 = sync

/-- **A failed full resync is not recorded** exactly when the payload is not one that `load_rdb`
returns an error for, or what the master has announced is what the replica has recorded already. -/
theorem failedSync_kept_iff {reads reads' : List Bytes} {rest : String} {payload buf : Bytes}
    (h : ReceivesPayload reads rest payload buf reads') (dbs : Databases)
    (sync : ReplicaSyncState) :
    KeepsSync dbs sync reads payload ↔
      ¬Rejected dbs payload ∨ fullResyncParts rest = (sync.replid, sync.offset) := by
  have hconnect := connectToMaster_payload h dbs sync
  by_cases hrejected : Rejected dbs payload
  · obtain ⟨e, he, herror⟩ := (rejected_iff dbs payload).mp hrejected
    have hfails : LoadFails dbs payload := fun n hok => by
      rw [herror] at hok
      cases hok
    have hpanic : (loadRdb dbs payload).2 ≠ .error .panic := by
      rw [herror]
      exact fun h => he (Except.error.inj h)
    rw [or_iff_right (not_not_intro hrejected), KeepsSync, hconnect, if_neg hpanic]
    constructor
    · intro hkeeps
      rw [← hkeeps hfails]
    · intro hsame _
      rw [hsame]
  · refine iff_of_true (fun hfails => ?_) (Or.inl hrejected)
    -- what fails without an error panics
    have hpanic : (loadRdb dbs payload).2 = .error .panic := by
      by_contra hnot
      cases hload : (loadRdb dbs payload).2 with
      | ok n => exact hfails n hload
      | error e =>
        refine hrejected ((rejected_iff dbs payload).mpr ⟨e, fun he => hnot ?_, hload⟩)
        rw [hload, he]
    rw [hconnect, if_pos hpanic]

/-! ### Two payloads -/

/-- The reads of a full resync of the replication id `abc` at offset 7. -/
def payloadReads (payload : Bytes) : List Bytes :=
  [fullResyncReply "abc" 7 ++ (rdbLengthLine payload ++ payload)]

theorem receives_payloadReads (payload : Bytes) (hlen : payload.length < 2 ^ 64) :
    ∃ buf reads', ReceivesPayload (payloadReads payload) (" " ++ "abc" ++ " " ++ toString 7) payload
      buf reads' := by
  have hne : ∀ c ∈ payloadReads payload, c ≠ [] := by
    simp [payloadReads, fullResyncReply, asBytes]
  have hbytes : (payloadReads payload).flatten
      = fullResyncReply "abc" 7 ++ (rdbLengthLine payload ++ (payload ++ [])) := by
    simp [payloadReads]
  obtain ⟨buf, reads', h, -⟩ := receivesPayload (by simp [isWhitespace]) 7 hlen hne hbytes
  exact ⟨buf, reads', h⟩

/-- A payload that stops inside an entry makes the load panic. -/
theorem failedSync_kept_cut : KeepsSync (Store.new 1).databases {}
    (payloadReads (rdbHeader ++ [0, 0, 0, 0, 0, 0, 0, 0] ++ [typeString]))
    (rdbHeader ++ [0, 0, 0, 0, 0, 0, 0, 0] ++ [typeString]) := by
  obtain ⟨buf, reads', h⟩ := receives_payloadReads
    (rdbHeader ++ [0, 0, 0, 0, 0, 0, 0, 0] ++ [typeString]) (by decide)
  refine (failedSync_kept_iff h _ _).mpr (Or.inl fun hrejected => ?_)
  obtain ⟨e, he, hload⟩ := (rejected_iff _ _).mp hrejected
  exact loadRdb_panics fun hpanic => he (Except.error.inj (hload.symm.trans hpanic))

/-- **A payload that is no snapshot** is recorded as if it had been loaded. -/
theorem failedSync_recorded : ¬∀ (dbs : Databases) (sync : ReplicaSyncState)
    (reads reads' : List Bytes) (rest : String) (payload buf : Bytes),
    ReceivesPayload reads rest payload buf reads' → KeepsSync dbs sync reads payload := by
  intro hall
  obtain ⟨buf, reads', h⟩ := receives_payloadReads [1, 2, 3] (by decide)
  have hfails : LoadFails (Store.new 1).databases [1, 2, 3] := fun n hok => by cases hok
  have hkept := hall (Store.new 1).databases {} _ _ _ _ _ h hfails
  rw [connectToMaster_payload h, if_neg (fun hpanic => by cases hpanic)] at hkept
  have hid : (fullResyncParts (" " ++ "abc" ++ " " ++ toString 7)).1 = "?" :=
    congrArg ReplicaSyncState.replid hkept
  exact absurd hid (by decide)

end VeloDB
