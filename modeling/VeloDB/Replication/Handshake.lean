import VeloDB.Replication.FailedSync

/-!
# The framing of a full resync

The replica reads two lines and a counted body off the socket, and each of the three reads can
return bytes that belong to what comes next. However the bytes are cut into reads, the same snapshot
is loaded and none of the stream behind it is lost. What is recorded is what the master has written,
if the load returns, the replication id is not empty, and the offset is one that the replica can
hold.

## Main results

* `fullResyncParts_eq`, `fullResyncParts_empty` — the fields of the first line
* `handshaken_iff` — when a full resync leads to the stream that was sent, from where it was sent
-/

namespace VeloDB

open Rust

/-! ### The reads that are left -/

theorem suffix_of_readLine {line : String} {carry carry' : Bytes} {reads reads' : List Bytes}
    (h : readLine carry reads = some (line, carry', reads')) : reads' <:+ reads := by
  induction reads generalizing carry with
  | nil =>
    rw [readLine, Option.map_eq_some_iff] at h
    obtain ⟨s, -, h⟩ := h
    cases h
    exact List.suffix_rfl
  | cons chunk reads ih =>
    rw [readLine] at h
    cases hsplit : splitLine carry with
    | some s =>
      rw [hsplit] at h
      cases h
      exact List.suffix_rfl
    | none =>
      rw [hsplit] at h
      dsimp only at h
      by_cases hempty : chunk = []
      · rw [if_pos hempty] at h
        cases h
      · rw [if_neg hempty] at h
        exact (ih h).trans (List.suffix_cons chunk reads)

theorem suffix_of_readAtLeast {n : ℕ} {data data' : Bytes} {reads reads' : List Bytes}
    (h : readAtLeast n data reads = some (data', reads')) : reads' <:+ reads := by
  induction reads generalizing data with
  | nil =>
    rw [readAtLeast] at h
    by_cases hlt : data.length < n
    · rw [if_pos hlt] at h
      cases h
    · rw [if_neg hlt] at h
      cases h
      exact List.suffix_rfl
  | cons chunk reads ih =>
    rw [readAtLeast] at h
    by_cases hlt : data.length < n
    · rw [if_pos hlt] at h
      by_cases hempty : chunk = []
      · rw [if_pos hempty] at h
        cases h
      · rw [if_neg hempty] at h
        exact (ih h).trans (List.suffix_cons chunk reads)
    · rw [if_neg hlt] at h
      cases h
      exact List.suffix_rfl

/-- The stream is read off the end of the connection. -/
theorem ReceivesPayload.suffix {reads reads' : List Bytes} {rest : String} {payload buf : Bytes}
    (h : ReceivesPayload reads rest payload buf reads') : reads' <:+ reads := by
  obtain ⟨hline, -, hlen, hdata⟩ := h
  exact (suffix_of_readAtLeast hdata).trans
    ((suffix_of_readLine hlen).trans (suffix_of_readLine hline))

/-! ### The first line -/

/-- The whitespace in front of a text that has none at its ends. -/
theorem trim_append {w s : String} (hw : ∀ c ∈ w.toList, isWhitespace c = true)
    (hfirst : ∀ c ∈ s.toList.head?, isWhitespace c = false)
    (hlast : ∀ c ∈ s.toList.getLast?, isWhitespace c = false) : trim (w ++ s) = s := by
  have hstart : s.toList.dropWhile isWhitespace = s.toList := by
    rw [List.dropWhile_eq_self_iff]
    intro hne
    simp [hfirst _ (by rw [List.head?_eq_getElem?, List.getElem?_eq_getElem hne]; rfl)]
  have hend : s.toList.rdropWhile isWhitespace = s.toList := by
    rw [List.rdropWhile_eq_self_iff]
    intro hne
    simp [hlast _ (List.getLast?_eq_some_getLast hne)]
  have hpad : w.toList.dropWhile isWhitespace = [] := List.dropWhile_eq_nil_iff.mpr hw
  have hdrop : (w.toList ++ s.toList).dropWhile isWhitespace = s.toList := by
    rw [List.dropWhile_append, hpad]
    exact hstart
  rw [trim, String.toList_append, hdrop, hend, String.ofList_toList]

theorem head_toString (n : ℕ) : ∀ c ∈ (toString n).toList.head?, isWhitespace c = false :=
  fun _ hc => isWhitespace_of_mem_toString (List.mem_of_mem_head? hc)

theorem getLast_toString (n : ℕ) : ∀ c ∈ (toString n).toList.getLast?, isWhitespace c = false :=
  fun _ hc => isWhitespace_of_mem_toString (List.mem_of_getLast? hc)

theorem space_notMem {s : String} (hs : ∀ c ∈ s.toList, isWhitespace c = false) :
    ' ' ∉ s.toList := fun h => absurd (hs ' ' h) (by decide)

/-- An offset that does not fit is taken for 0. -/
theorem parseSigned_offset (offset : ℕ) :
    (parseSigned (2 ^ 63) (2 ^ 63 - 1) (toString offset)).getD 0
      = if offset < 2 ^ 63 then (offset : ℤ) else 0 := by
  have hparse : parseSigned (2 ^ 63) (2 ^ 63 - 1) (toString offset)
      = (parseUnsigned (2 ^ 63 - 1) (toString offset)).map Int.ofNat := by
    rw [parseSigned]
    split
    · next ds heq =>
      have hmem : '-' ∈ (toString offset).toList := by
        rw [heq]
        exact List.mem_cons_self
      rw [toList_toString_nat] at hmem
      exact absurd (isDigit_of_mem_toDigits hmem) (by decide)
    · rfl
  rw [hparse, parseUnsigned_toString_eq]
  by_cases h : offset < 2 ^ 63
  · rw [if_pos h, if_pos (by omega)]
    rfl
  · rw [if_neg h, if_neg (by omega)]
    rfl

/-- **The fields of the first line**, as the master writes it. -/
theorem fullResyncParts_eq {replid : String} (hreplid : ∀ c ∈ replid.toList, isWhitespace c = false)
    (hne : replid ≠ "") (offset : ℕ) :
    fullResyncParts (" " ++ replid ++ " " ++ toString offset)
      = (replid, if offset < 2 ^ 63 then (offset : ℤ) else 0) := by
  have htrim : trim (" " ++ replid ++ " " ++ toString offset)
      = replid ++ " " ++ toString offset := by
    have hsplit : " " ++ replid ++ " " ++ toString offset
        = " " ++ (replid ++ " " ++ toString offset) := by
      simp only [String.append_assoc]
    rw [hsplit]
    refine trim_append (by simp [isWhitespace]) ?_ (getLast_append_toString _ _)
    intro c hc
    have hnil : replid.toList ≠ [] := fun h => hne (String.toList_inj.mp h)
    rw [String.toList_append, String.toList_append, List.append_assoc,
      List.head?_append_of_ne_nil _ hnil] at hc
    exact hreplid c (List.mem_of_mem_head? hc)
  have hfields : split ' ' (replid ++ " " ++ toString offset) = [replid, toString offset] := by
    have hlist : (replid ++ " " ++ toString offset).toList
        = replid.toList ++ ' ' :: (toString offset).toList := by
      simp
    rw [split, hlist, List.splitOn_append_cons_self_of_not_mem (space_notMem hreplid),
      List.splitOn_eq_singleton (space_notMem fun _ => isWhitespace_of_mem_toString), List.map_cons,
      List.map_singleton, String.ofList_toList, String.ofList_toList]
  rw [fullResyncParts, htrim, hfields, ← parseSigned_offset]
  rfl

/-- With no replication id, the offset is taken for it. -/
theorem fullResyncParts_empty (offset : ℕ) :
    fullResyncParts (" " ++ "" ++ " " ++ toString offset) = (toString offset, 0) := by
  have htrim : trim (" " ++ "" ++ " " ++ toString offset) = toString offset :=
    trim_append (by simp [isWhitespace]) (head_toString offset) (getLast_toString offset)
  have hfields : split ' ' (toString offset) = [toString offset] := by
    rw [split, List.splitOn_eq_singleton (space_notMem fun _ => isWhitespace_of_mem_toString),
      List.map_singleton, String.ofList_toList]
  rw [fullResyncParts, htrim, hfields]
  rfl

theorem toString_ne_empty (n : ℕ) : toString n ≠ "" := by
  intro h
  have hnil : Nat.toDigits 10 n = [] := by
    rw [← toList_toString_nat, h]
    rfl
  exact Nat.toDigits_ne_nil hnil

/-- The fields are those that were written, when there is a replication id and the offset fits. -/
theorem fullResyncParts_iff {replid : String}
    (hreplid : ∀ c ∈ replid.toList, isWhitespace c = false) (offset : ℕ) :
    fullResyncParts (" " ++ replid ++ " " ++ toString offset) = (replid, (offset : ℤ)) ↔
      replid ≠ "" ∧ offset < 2 ^ 63 := by
  by_cases hempty : replid = ""
  · subst hempty
    refine iff_of_false (fun h => ?_) fun h => h.1 rfl
    rw [fullResyncParts_empty] at h
    exact toString_ne_empty offset (Prod.mk.inj h).1
  rw [fullResyncParts_eq hreplid hempty, Prod.mk.injEq, and_iff_right rfl, and_iff_right hempty]
  by_cases hoffset : offset < 2 ^ 63
  · rw [if_pos hoffset]
    exact iff_of_true rfl hoffset
  · rw [if_neg hoffset]
    refine iff_of_false (fun h => hoffset ?_) hoffset
    have hzero : offset = 0 := Int.ofNat.inj h.symm
    rw [hzero]
    exact Nat.two_pow_pos 63

/-! ### The whole handshake -/

/-- `load_rdb` comes to the end of the payload or returns an error: the payload is refused before
its body is read, or its body ends, or is refused, where a field ends. -/
def Loadable (dbs : Databases) (payload : Bytes) : Prop :=
  Refused payload ∨ ∃ stored failed, Body dbs.length 0 (payload.drop 16) stored failed

theorem loadable_iff (dbs : Databases) (payload : Bytes) :
    Loadable dbs payload ↔ (loadRdb dbs payload).2 ≠ .error .panic :=
  (loadReturns_iff dbs payload).symm

/-- The payload is loaded, the replication id and the offset are recorded, and what has been read
behind the payload stands in the buffer of `stream_commands`, which reads the rest. -/
def Handshaken (dbs : Databases) (sync : ReplicaSyncState) (reads : List Bytes) (replid : String)
    (offset : ℕ) (payload following : Bytes) : Prop :=
  ∃ buf reads', connectToMaster dbs sync reads
      = ((loadRdb dbs payload).1, ⟨replid, offset⟩, .streaming buf reads') ∧
    reads' <:+ reads ∧ buf ++ reads'.flatten = following

theorem Handshaken.sound {dbs : Databases} {sync : ReplicaSyncState} {reads reads' : List Bytes}
    {replid rest : String} {offset : ℕ} {payload following buf : Bytes}
    (h : Handshaken dbs sync reads replid offset payload following)
    (hpayload : ReceivesPayload reads rest payload buf reads') :
    fullResyncParts rest = (replid, (offset : ℤ)) ∧ (loadRdb dbs payload).2 ≠ .error .panic := by
  obtain ⟨_, _, hto, -, -⟩ := h
  rw [connectToMaster_payload hpayload] at hto
  by_cases hpanic : (loadRdb dbs payload).2 = .error .panic
  · rw [if_pos hpanic] at hto
    cases (Prod.mk.inj (Prod.mk.inj hto).2).2
  · rw [if_neg hpanic] at hto
    have hsync := (Prod.mk.inj (Prod.mk.inj hto).2).1
    obtain ⟨hid, hoffset⟩ := ReplicaSyncState.mk.inj hsync
    exact ⟨Prod.ext hid hoffset, hpanic⟩

/-- **A full resync on the wire**: however its bytes are cut into reads, it is understood exactly
when the replication id is not empty, the offset fits, and the payload does not make the load
panic. -/
theorem handshaken_iff {replid : String} (hreplid : ∀ c ∈ replid.toList, isWhitespace c = false)
    (offset : ℕ) {payload following : Bytes} (hlen : payload.length < 2 ^ 64) {reads : List Bytes}
    (hne : ∀ c ∈ reads, c ≠ []) (hbytes : reads.flatten
      = fullResyncReply replid offset ++ (rdbLengthLine payload ++ (payload ++ following)))
    (dbs : Databases) (sync : ReplicaSyncState) :
    Handshaken dbs sync reads replid offset payload following ↔
      replid ≠ "" ∧ offset < 2 ^ 63 ∧ Loadable dbs payload := by
  obtain ⟨buf, reads', hpayload, hrest⟩ := receivesPayload hreplid offset hlen hne hbytes
  rw [← and_assoc, ← fullResyncParts_iff hreplid, loadable_iff]
  constructor
  · exact fun h => h.sound hpayload
  · rintro ⟨hparts, hpanic⟩
    refine ⟨buf, reads', ?_, hpayload.suffix, hrest⟩
    rw [connectToMaster_payload hpayload, if_neg hpanic, hparts]

/-! ### Two full resyncs -/

/-- The first line, the length and the payload in one read, with a part of the stream behind it. -/
def resyncReads (replid : String) (offset : ℕ) (payload : Bytes) (part rest : Bytes) : List Bytes :=
  [fullResyncReply replid offset ++ (rdbLengthLine payload ++ (payload ++ part)), rest]

theorem flatten_resyncReads (replid : String) (offset : ℕ) (payload part rest : Bytes) :
    (resyncReads replid offset payload part rest).flatten = fullResyncReply replid offset
      ++ (rdbLengthLine payload ++ (payload ++ (part ++ rest))) := by
  simp only [resyncReads, List.flatten_cons, List.flatten_nil, List.append_nil, List.append_assoc]

theorem resyncReads_ne_nil (replid : String) (offset : ℕ) (payload part : Bytes) {rest : Bytes}
    (hrest : rest ≠ []) : ∀ c ∈ resyncReads replid offset payload part rest, c ≠ [] := by
  intro c hc
  rcases List.mem_pair.mp hc with rfl | rfl
  · simp [fullResyncReply, asBytes]
  · exact hrest

/-- A header without a body is an empty snapshot. -/
theorem handshaken_empty : Handshaken (Store.new 1).databases {}
    (resyncReads "abc" 7 (rdbHeader ++ [0, 0, 0, 0, 0, 0, 0, 0]) [42] [49]) "abc" 7
    (rdbHeader ++ [0, 0, 0, 0, 0, 0, 0, 0]) ([42] ++ [49]) :=
  (handshaken_iff (by simp [isWhitespace]) 7 (by decide)
    (resyncReads_ne_nil _ _ _ _ (List.cons_ne_nil _ _)) (flatten_resyncReads _ _ _ _ _) _ _).mpr
    ⟨by decide, by decide, Or.inr ⟨0, false, .done⟩⟩

/-- A header, and a type byte with nothing behind it. -/
def cutPayload : Bytes := rdbHeader ++ [0, 0, 0, 0, 0, 0, 0, 0] ++ [typeString]

/-- **A payload that stops inside an entry** ends the replica before anything is recorded. -/
theorem handshake_panics : ¬∀ (replid : String), (∀ c ∈ replid.toList, isWhitespace c = false) →
    ∀ (offset : ℕ) (payload following : Bytes), payload.length < 2 ^ 64 →
    ∀ reads : List Bytes, (∀ c ∈ reads, c ≠ []) → reads.flatten
      = fullResyncReply replid offset ++ (rdbLengthLine payload ++ (payload ++ following)) →
    ∀ (dbs : Databases) (sync : ReplicaSyncState),
      Handshaken dbs sync reads replid offset payload following := by
  intro hall
  have hreplid : ∀ c ∈ "abc".toList, isWhitespace c = false := by simp [isWhitespace]
  have hlen : cutPayload.length < 2 ^ 64 := by decide
  have hne := resyncReads_ne_nil "abc" 7 cutPayload [42] (List.cons_ne_nil 49 [])
  have hbytes := flatten_resyncReads "abc" 7 cutPayload [42] [49]
  obtain ⟨buf, reads', hpayload, -⟩ := receivesPayload hreplid 7 hlen hne hbytes
  exact ((hall "abc" hreplid 7 cutPayload _ hlen _ hne hbytes (Store.new 1).databases {}).sound
    hpayload).2 rfl

end VeloDB
