import VeloDB.Persist.RdbRoundTrip
import VeloDB.Replication.Master

/-!
# Following a master

`connect_to_master` sends a `PSYNC` request, reads the answer line by line off the socket and, for a
full resync, collects the snapshot and loads it into the store it has. The socket is what its
successive reads return; an empty read is the end of the connection.

## Main results

* `receivesPayload`, `connectToMaster_fullResync` — however the bytes of a full resync are cut into
  reads, the snapshot that is loaded is the one that was sent
* `fullResync_replaces_iff` — when the data of the replica are then those of the master
-/

namespace VeloDB

open Rust

/-! ### The handshake -/

/-- `ReplicaSyncState`. -/
structure ReplicaSyncState where
  replid : String := "?"
  offset : ℤ := -1
  deriving DecidableEq, Repr

/-- The bytes up to the first newline, and those behind it. -/
def splitLine (carry : Bytes) : Option (Bytes × Bytes) :=
  if 10 ∈ carry then
    some (carry.takeWhile (· != 10) ++ [10], (carry.dropWhile (· != 10)).drop 1)
  else none

/-- The text of a line. -/
def lineText (line : Bytes) : String := trimEnd (fromUtf8Lossy line)

/-- `read_line`: the line, the bytes read past it, and the reads that are left. -/
def readLine : Bytes → List Bytes → Option (String × Bytes × List Bytes)
  | carry, [] => (splitLine carry).map fun s => (lineText s.1, s.2, [])
  | carry, chunk :: reads =>
    match splitLine carry with
    | some (line, rest) => some (lineText line, rest, chunk :: reads)
    | none => if chunk = [] then none else readLine (carry ++ chunk) reads

/-- Read until there are `n` bytes. -/
def readAtLeast (n : ℕ) : Bytes → List Bytes → Option (Bytes × List Bytes)
  | data, [] => if data.length < n then none else some (data, [])
  | data, chunk :: reads =>
    if data.length < n then
      if chunk = [] then none else readAtLeast n (data ++ chunk) reads
    else some (data, chunk :: reads)

/-- How far `connect_to_master` gets. -/
inductive Link
  /-- The connection ended early, or the answer is not one to `PSYNC`. -/
  | failed (msg : String)
  | panicked
  /-- On to `stream_commands`, with these bytes in the buffer. -/
  | streaming (buf : Bytes) (reads : List Bytes)
  deriving DecidableEq, Repr

/-- The replication id of a `+FULLRESYNC` line, and the offset. -/
def fullResyncParts (rest : String) : String × ℤ :=
  let parts := split ' ' (trim rest)
  (parts.headD "", (parts[1]? >>= parseSigned (2 ^ 63) (2 ^ 63 - 1)).getD 0)

/-- `rdb_len`. -/
def rdbLen (line : String) : ℕ :=
  (parseUnsigned (2 ^ 64 - 1) (trim (trimStartMatches '$' line))).getD 0

/-- `connect_to_master` from the answer to `PSYNC` to the start of the stream. -/
def connectToMaster (dbs : Databases) (sync : ReplicaSyncState) (reads : List Bytes) :
    Databases × ReplicaSyncState × Link :=
  match readLine [] reads with
  | none => (dbs, sync, .failed "master closed connection during handshake")
  | some (response, carry, reads) =>
    match stripPrefix "+FULLRESYNC" response with
    | some rest =>
      match readLine carry reads with
      | none => (dbs, sync, .failed "master closed connection during handshake")
      | some (lenLine, carry, reads) =>
        match readAtLeast (rdbLen lenLine) carry reads with
        | none => (dbs, sync, .failed "master closed connection during RDB transfer")
        | some (data, reads) =>
          let loaded := loadRdb dbs (data.take (rdbLen lenLine))
          match loaded.2 with
          | .error .panic => (loaded.1, sync, .panicked)
          -- any other error of the load is only logged
          | _ =>
            let parts := fullResyncParts rest
            (loaded.1, { replid := parts.1, offset := parts.2 },
              .streaming (data.drop (rdbLen lenLine)) reads)
    | none =>
      if (stripPrefix "+CONTINUE" response).isSome then (dbs, sync, .streaming carry reads)
      else (dbs, sync, .failed ("unexpected PSYNC response: " ++ response))

theorem splitLine_append {l : Bytes} (hl : 10 ∉ l) (r : Bytes) :
    splitLine (l ++ 10 :: r) = some (l ++ [10], r) := by
  have hall : ∀ b ∈ l, (b != 10) = true := by
    intro b hb
    rw [bne_iff_ne]
    rintro rfl
    exact hl hb
  have htake : (l ++ 10 :: r).takeWhile (· != 10) = l := by
    rw [List.takeWhile_append_of_pos hall]
    simp
  have hdrop : (l ++ 10 :: r).dropWhile (· != 10) = 10 :: r := by
    rw [List.dropWhile_append_of_pos hall]
    simp
  rw [splitLine, if_pos (by simp), htake, hdrop]
  rfl

theorem splitLine_eq_none {carry : Bytes} (h : 10 ∉ carry) : splitLine carry = none := if_neg h

/-- **Lines.** However a line and what follows it are cut into reads, the line is read, and nothing
behind it is lost. -/
theorem readLine_eq {l r : Bytes} (hl : 10 ∉ l) {reads : List Bytes} (hne : ∀ c ∈ reads, c ≠ [])
    {carry : Bytes} (h : carry ++ reads.flatten = l ++ 10 :: r) :
    ∃ carry' reads', readLine carry reads = some (lineText (l ++ [10]), carry', reads') ∧
      carry' ++ reads'.flatten = r ∧ ∀ c ∈ reads', c ≠ [] := by
  induction reads generalizing carry with
  | nil =>
    rw [List.flatten_nil, List.append_nil] at h
    refine ⟨r, [], ?_, List.append_nil r, hne⟩
    rw [readLine, h, splitLine_append hl]
    rfl
  | cons c reads ih =>
    by_cases hmem : 10 ∈ carry
    · -- the whole line is in `carry` already
      rw [List.append_eq_append_iff] at h
      rcases h with ⟨a, hla, -⟩ | ⟨a, hca, hr⟩
      · exact absurd (hla ▸ List.mem_append_left a hmem) hl
      · cases a with
        | nil => exact absurd (by simpa [hca] using hmem) hl
        | cons b a =>
          obtain ⟨rfl, rfl⟩ := List.cons.inj hr
          refine ⟨a, c :: reads, ?_, rfl, hne⟩
          rw [readLine, hca, splitLine_append hl]
    · have hc : c ≠ [] := hne c List.mem_cons_self
      have hcat : carry ++ c ++ reads.flatten = l ++ 10 :: r := by
        rw [List.append_assoc]
        exact h
      obtain ⟨carry', reads', hread, hrest⟩ :=
        ih (fun d hd => hne d (List.mem_cons_of_mem _ hd)) hcat
      refine ⟨carry', reads', ?_, hrest⟩
      rw [readLine, splitLine_eq_none hmem]
      dsimp only
      rw [if_neg hc, hread]

theorem readAtLeast_eq {n : ℕ} {reads : List Bytes} (hne : ∀ c ∈ reads, c ≠ []) {data : Bytes}
    (hn : n ≤ (data ++ reads.flatten).length) :
    ∃ data' reads', readAtLeast n data reads = some (data', reads') ∧
      data' ++ reads'.flatten = data ++ reads.flatten ∧ n ≤ data'.length := by
  induction reads generalizing data with
  | nil =>
    rw [List.flatten_nil, List.append_nil] at hn
    refine ⟨data, [], ?_, rfl, hn⟩
    rw [readAtLeast, if_neg (Nat.not_lt.mpr hn)]
  | cons c reads ih =>
    by_cases hlt : data.length < n
    · have hcat : n ≤ (data ++ c ++ reads.flatten).length := by
        rw [List.append_assoc]
        exact hn
      obtain ⟨data', reads', hread, hflat, hlen⟩ :=
        ih (fun d hd => hne d (List.mem_cons_of_mem _ hd)) hcat
      refine ⟨data', reads', ?_, ?_, hlen⟩
      · rw [readAtLeast, if_pos hlt, if_neg (hne c List.mem_cons_self), hread]
      · rw [hflat, List.append_assoc]
        rfl
    · refine ⟨data, c :: reads, ?_, rfl, Nat.le_of_not_lt hlt⟩
      rw [readAtLeast, if_neg hlt]

/-- A newline byte in the encoding of a text is a newline of the text. -/
theorem newline_of_mem_asBytes {s : String} (h : 10 ∈ asBytes s) : '\n' ∈ s.toList := by
  obtain ⟨c, hc, hb⟩ := List.mem_flatMap.mp h
  have hval : c.toNat = 10 := toNat_eq_of_mem_utf8EncodeChar (by decide) hb
  have hnl : c = '\n' := by
    rw [← Char.ofNat_toNat c, hval]
  exact hnl ▸ hc

/-- A header line on the wire, and the text that is read from it. -/
theorem header_line {s : String} (hnl : '\n' ∉ s.toList)
    (hlast : ∀ c ∈ s.toList.getLast?, isWhitespace c = false) :
    ∃ l, asBytes (s ++ "\r\n") = l ++ [10] ∧ 10 ∉ l ∧ lineText (l ++ [10]) = s := by
  refine ⟨asBytes (s ++ "\r"), ?_, fun hmem => ?_, ?_⟩
  · rw [asBytes_append, asBytes_append, List.append_assoc]
    rfl
  · have h := newline_of_mem_asBytes hmem
    rw [String.toList_append] at h
    rcases List.mem_append.mp h with h | h
    · exact hnl h
    · exact absurd h (by decide)
  · have hcat : asBytes (s ++ "\r") ++ [10] = asBytes (s ++ "\r\n") := by
      rw [asBytes_append, asBytes_append, List.append_assoc]
      rfl
    rw [lineText, hcat, fromUtf8Lossy_asBytes]
    exact trimEnd_append hlast (by simp [isWhitespace])

theorem isWhitespace_of_isDigit {c : Char} (h : c.isDigit = true) : isWhitespace c = false := by
  simp only [Char.isDigit, Bool.and_eq_true, decide_eq_true_eq] at h
  have h1 : 48 ≤ c.val.toNat := UInt32.le_iff_toNat_le.mp h.1
  have h2 : c.val.toNat ≤ 57 := by simpa using UInt32.le_iff_toNat_le.mp h.2
  have hval : c.toNat = c.val.toNat := rfl
  rw [isWhitespace, hval]
  simp only [decide_eq_false_iff_not]
  omega

theorem isWhitespace_of_mem_toString {n : ℕ} {c : Char} (h : c ∈ (toString n).toList) :
    isWhitespace c = false := by
  rw [toList_toString_nat] at h
  exact isWhitespace_of_isDigit (isDigit_of_mem_toDigits h)

/-- The last character of a text that ends in a number. -/
theorem getLast_append_toString (s : String) (n : ℕ) :
    ∀ c ∈ (s ++ toString n).toList.getLast?, isWhitespace c = false := by
  intro c hc
  have hne : (toString n).toList ≠ [] := by
    rw [toList_toString_nat]
    exact Nat.toDigits_ne_nil
  rw [String.toList_append, List.getLast?_append_of_ne_nil _ hne] at hc
  exact isWhitespace_of_mem_toString (List.mem_of_getLast? hc)

theorem rdbLen_eq {n : ℕ} (h : n < 2 ^ 64) : rdbLen ("$" ++ toString n) = n := by
  have hdollar : trimStartMatches '$' ("$" ++ toString n) = toString n := by
    have hhead : (toString n).toList.dropWhile (· == '$') = (toString n).toList := by
      rw [List.dropWhile_eq_self_iff]
      intro hpos
      have hmem : (toString n).toList[0] ∈ (toString n).toList := List.getElem_mem hpos
      generalize (toString n).toList[0] = c at hmem
      rw [toList_toString_nat] at hmem
      intro heq
      rw [eq_of_beq heq] at hmem
      exact absurd (isDigit_of_mem_toDigits hmem) (by decide)
    rw [trimStartMatches, String.toList_append]
    show String.ofList ((toString n).toList.dropWhile (· == '$')) = _
    rw [hhead, String.ofList_toList]
  rw [rdbLen, hdollar, trim_eq_self fun c => isWhitespace_of_mem_toString,
    parseUnsigned_toString (by omega)]
  rfl

/-- The reads are a `+FULLRESYNC` line with `rest` behind the word, a length line, a payload of that
length, and what comes behind it. -/
inductive ReceivesPayload (reads : List Bytes) (rest : String) : Bytes → Bytes → List Bytes → Prop
  | intro {response lenLine : String} {carry carry₁ data : Bytes} {reads₁ reads₂ reads₃ : List Bytes}
    (hline : readLine [] reads = some (response, carry, reads₁))
    (hstrip : stripPrefix "+FULLRESYNC" response = some rest)
    (hlen : readLine carry reads₁ = some (lenLine, carry₁, reads₂))
    (hdata : readAtLeast (rdbLen lenLine) carry₁ reads₂ = some (data, reads₃)) :
    ReceivesPayload reads rest (data.take (rdbLen lenLine)) (data.drop (rdbLen lenLine)) reads₃

/-- Where a payload leads: past an error of the load, but not past a panic. -/
theorem connectToMaster_payload {reads reads' : List Bytes} {rest : String} {payload buf : Bytes}
    (h : ReceivesPayload reads rest payload buf reads') (dbs : Databases)
    (sync : ReplicaSyncState) :
    connectToMaster dbs sync reads = if (loadRdb dbs payload).2 = .error .panic
      then ((loadRdb dbs payload).1, sync, .panicked)
      else ((loadRdb dbs payload).1, ⟨(fullResyncParts rest).1, (fullResyncParts rest).2⟩,
        .streaming buf reads') := by
  obtain ⟨hline, hstrip, hlen, hdata⟩ := h
  rw [connectToMaster, hline]
  dsimp only
  rw [hstrip]
  dsimp only
  rw [hlen]
  dsimp only
  rw [hdata]
  dsimp only
  generalize loadRdb dbs _ = loaded
  rcases loaded with ⟨dbs', e | n⟩
  · cases e with
    | panic => exact (if_pos rfl).symm
    | invalidData | store => exact (if_neg nofun).symm
  · exact (if_neg nofun).symm

/-- **A full resync on the wire**, however its bytes are cut into reads. -/
theorem receivesPayload {replid : String} (hreplid : ∀ c ∈ replid.toList, isWhitespace c = false)
    (offset : ℕ) {rdb following : Bytes} (hlen : rdb.length < 2 ^ 64) {reads : List Bytes}
    (hne : ∀ c ∈ reads, c ≠ []) (hbytes : reads.flatten
      = fullResyncReply replid offset ++ (rdbLengthLine rdb ++ (rdb ++ following))) :
    ∃ buf reads', ReceivesPayload reads (" " ++ replid ++ " " ++ toString offset) rdb buf reads' ∧
      buf ++ reads'.flatten = following := by
  -- the first line
  have hfirst : '\n' ∉ ("+FULLRESYNC " ++ replid ++ " " ++ toString offset).toList := by
    intro h
    simp only [String.toList_append, List.mem_append] at h
    rcases h with ((h | h) | h) | h
    · exact absurd h (by decide)
    · exact absurd (hreplid _ h) (by decide)
    · exact absurd h (by decide)
    · exact absurd (isWhitespace_of_mem_toString h) (by decide)
  obtain ⟨l₁, hl₁, hnl₁, htext₁⟩ := header_line hfirst (getLast_append_toString _ _)
  have hcat₁ : [] ++ reads.flatten = l₁ ++ 10 :: (rdbLengthLine rdb ++ (rdb ++ following)) := by
    rw [hbytes, fullResyncReply, hl₁, List.append_assoc]
    rfl
  obtain ⟨carry₁, reads₁, hread₁, hrest₁, hne₁⟩ := readLine_eq hnl₁ hne hcat₁
  -- the length line
  have hsecond : '\n' ∉ ("$" ++ toString rdb.length).toList := by
    intro h
    rw [String.toList_append] at h
    rcases List.mem_append.mp h with h | h
    · exact absurd h (by decide)
    · exact absurd (isWhitespace_of_mem_toString h) (by decide)
  obtain ⟨l₂, hl₂, hnl₂, htext₂⟩ := header_line hsecond (getLast_append_toString _ _)
  have hcat₂ : carry₁ ++ reads₁.flatten = l₂ ++ 10 :: (rdb ++ following) := by
    rw [hrest₁, rdbLengthLine, hl₂, List.append_assoc]
    rfl
  obtain ⟨carry₂, reads₂, hread₂, hrest₂, hne₂⟩ := readLine_eq hnl₂ hne₁ hcat₂
  -- the snapshot
  obtain ⟨data, reads₃, hread₃, hrest₃, hdata⟩ := readAtLeast_eq (n := rdb.length) hne₂
    (by rw [hrest₂, List.length_append]; omega)
  rw [hrest₂] at hrest₃
  have htake : data.take rdb.length = rdb := by
    have h := congrArg (List.take rdb.length) hrest₃
    rwa [List.take_append_of_le_length hdata, List.take_left] at h
  have hdrop : data.drop rdb.length ++ reads₃.flatten = following := by
    have h := congrArg (List.drop rdb.length) hrest₃
    rwa [List.drop_append_of_le_length hdata, List.drop_left] at h
  have hstrip : stripPrefix "+FULLRESYNC" ("+FULLRESYNC " ++ replid ++ " " ++ toString offset)
      = some (" " ++ replid ++ " " ++ toString offset) := by
    rw [← stripPrefix_append "+FULLRESYNC" (" " ++ replid ++ " " ++ toString offset)]
    simp only [← String.append_assoc]
    rfl
  rw [htext₁] at hread₁
  rw [htext₂] at hread₂
  rw [← rdbLen_eq hlen] at hread₃
  have hpayload := ReceivesPayload.intro hread₁ hstrip hread₂ hread₃
  rw [rdbLen_eq hlen, htake] at hpayload
  exact ⟨_, reads₃, hpayload, hdrop⟩

/-- **A full resync.** -/
theorem connectToMaster_fullResync {replid : String}
    (hreplid : ∀ c ∈ replid.toList, isWhitespace c = false) (offset : ℕ) {rdb following : Bytes}
    (hlen : rdb.length < 2 ^ 64) {reads : List Bytes} (hne : ∀ c ∈ reads, c ≠ [])
    (hbytes : reads.flatten
      = fullResyncReply replid offset ++ (rdbLengthLine rdb ++ (rdb ++ following)))
    (dbs : Databases) (sync : ReplicaSyncState) :
    (connectToMaster dbs sync reads).1 = (loadRdb dbs rdb).1 ∧
      ((loadRdb dbs rdb).2 ≠ .error .panic → ∃ buf reads',
        (connectToMaster dbs sync reads).2.2 = .streaming buf reads' ∧
          buf ++ reads'.flatten = following) := by
  obtain ⟨buf, reads', hpayload, hrest⟩ := receivesPayload hreplid offset hlen hne hbytes
  rw [connectToMaster_payload hpayload]
  refine ⟨?_, fun hok => ⟨buf, reads', ?_, hrest⟩⟩
  · split <;> rfl
  · rw [if_neg hok]

/-! ### The data after a full resync -/

/-- The same live keys with the same values and expiries. -/
def SameLive (t : UInt64) (src dst : Databases) : Prop :=
  ∀ i k, Option.Rel Entry.Same (src.liveEntry t i k) (dst.liveEntry t i k)

/-- What the replica must have held before a full resync so that it holds the data of the master
after it. The snapshot is taken at `now` and the replica is looked at from `t` on. -/
structure Covered (now t : UInt64) (src dst : Databases) : Prop where
  /-- The replica has every database in which the master has a live key. -/
  databases : ∀ i k, dst.length ≤ i → src.liveEntry t i k = none
  /-- A live key of the replica is one the master has, too. -/
  noStale : ∀ i k, src.liveEntry now i k = none → dst.liveEntry t i k = none
  /-- The empty key, which is not loaded, is the same already. -/
  emptyKey : ∀ i, i < dst.length →
    Option.Rel Entry.Same (src.liveEntry t i []) (dst.liveEntry t i [])

/-- A key that the file writes is the same on both sides, at any later time. -/
theorem restored_of_written {now t : UInt64} {src loaded : Databases} {i : ℕ} {k : Bytes}
    {e : Entry} (hsrc : src.liveEntry now i k = some e) {version : ℕ}
    (hloaded : loaded.find i k
      = some { value := e.value.rebuilt, expireAt := e.expireAt, version }) :
    Option.Rel Entry.Restored (src.liveEntry t i k) (loaded.liveEntry t i k) := by
  have hfind : src.find i k = some e := (Option.filter_eq_some_iff.mp hsrc).1
  rw [Databases.liveEntry, Databases.liveEntry, hfind, hloaded, Option.filter_some,
    Option.filter_some]
  have hexp : Entry.expired t { value := e.value.rebuilt, expireAt := e.expireAt, version }
      = e.expired t := rfl
  rw [hexp]
  cases e.expired t with
  | true => exact Option.Rel.none
  | false => exact Option.Rel.some ⟨⟨e.value.same_rebuilt, rfl⟩, StorageValue.indexed_rebuilt⟩

theorem rel_same_of_restored {a b : Option Entry} (h : Option.Rel Entry.Restored a b) :
    Option.Rel Entry.Same a b := by
  cases h with
  | none => exact .none
  | some h => exact .some h.same

theorem rel_none_iff {a b : Option Entry} (ha : a = none) : Option.Rel Entry.Same a b ↔ b = none := by
  subst ha
  constructor
  · rintro ⟨⟩
    rfl
  · rintro rfl
    exact Option.Rel.none

/-- Loading a snapshot gives the data of the master exactly when they were covered. -/
theorem sameLive_loadRdb_iff {now t : UInt64} (hclock : now ≤ t) {src : Databases}
    (hnumbered : Numbered now src) (hfits : FitsLive now src) {file : Bytes}
    (hfile : saveRdb now src src.length = .ok file) (dst : Databases) :
    SameLive t src (loadRdb dst file).1 ↔ Covered now t src dst := by
  obtain ⟨file', loaded, result, hsave, hload, hlen, -, hfind⟩ :=
    loadRdb_onto hfits hnumbered dst
  obtain rfl : file = file' := Except.ok.inj (hfile.symm.trans hsave)
  rw [hload]
  have hkept : ∀ i k, (if i < dst.length then payload now src i k else none) = none →
      loaded.liveEntry t i k = dst.liveEntry t i k := by
    intro i k hw
    have h := hfind i k
    rw [hw] at h
    rw [Databases.liveEntry, show loaded.find i k = dst.find i k from h, Databases.liveEntry]
  have hunwritten : ∀ i k, src.liveEntry now i k = none →
      (if i < dst.length then payload now src i k else none) = none := by
    intro i k h
    rw [payload, h, ite_self, ite_self]
  have hempty : ∀ i, (if i < dst.length then payload now src i [] else none) = none := by
    intro i
    rw [payload, if_pos rfl, ite_self]
  constructor
  · intro hsame
    refine ⟨fun i k hi => ?_, fun i k hnone => ?_, fun i _ => ?_⟩
    · have h := hsame i k
      rw [hkept i k (if_neg (Nat.not_lt.mpr hi)), Databases.liveEntry_eq_none_of_le hi] at h
      generalize src.liveEntry t i k = o at h
      cases h
      rfl
    · rw [← hkept i k (hunwritten i k hnone)]
      exact (rel_none_iff (Databases.liveEntry_mono hclock hnone)).mp (hsame i k)
    · rw [← hkept i [] (hempty i)]
      exact hsame i []
  · intro hcov i k
    by_cases hi : i < dst.length
    · by_cases hk : k = []
      · subst hk
        rw [hkept i [] (hempty i)]
        exact hcov.emptyKey i hi
      · cases hsrc : src.liveEntry now i k with
        | none =>
          rw [hkept i k (hunwritten i k hsrc)]
          exact (rel_none_iff (Databases.liveEntry_mono hclock hsrc)).mpr (hcov.noStale i k hsrc)
        | some e =>
          have h := hfind i k
          rw [if_pos hi, payload, if_neg hk, hsrc] at h
          obtain ⟨version, hv⟩ := h
          exact rel_same_of_restored (restored_of_written hsrc hv)
    · have hle := Nat.le_of_not_lt hi
      rw [hkept i k (if_neg hi), Databases.liveEntry_eq_none_of_le hle]
      exact (rel_none_iff (hcov.databases i k hle)).mpr rfl

/-- What a snapshot holds is loaded with indexes that fit. -/
theorem restored_loadRdb {now : UInt64} {src : Databases} (hnumbered : Numbered now src)
    (hfits : FitsLive now src) {file : Bytes} (hfile : saveRdb now src src.length = .ok file)
    {dst : Databases} {i : ℕ} (hi : i < dst.length) {k : Bytes} (hk : k ≠ []) {e : Entry}
    (he : src.liveEntry now i k = some e) (t : UInt64) :
    Option.Rel Entry.Restored (src.liveEntry t i k) ((loadRdb dst file).1.liveEntry t i k) := by
  obtain ⟨file', loaded, result, hsave, hload, -, -, hfind⟩ := loadRdb_onto hfits hnumbered dst
  obtain rfl : file = file' := Except.ok.inj (hfile.symm.trans hsave)
  have h := hfind i k
  rw [if_pos hi, payload, if_neg hk, he] at h
  obtain ⟨version, hv⟩ := h
  rw [hload]
  exact restored_of_written he hv

/-- **A full resync replaces the data of the replica** exactly when what the replica held was
covered by the snapshot: nothing is removed before the load. What comes from the snapshot has
indexes that fit. -/
theorem fullResync_replaces_iff {now t : UInt64} (hclock : now ≤ t) {src : Databases}
    (hnumbered : Numbered now src) (hfits : FitsLive now src) {file following : Bytes}
    (hfile : saveRdb now src src.length = .ok file) (hlen : file.length < 2 ^ 64) {replid : String}
    (hreplid : ∀ c ∈ replid.toList, isWhitespace c = false) (offset : ℕ) {reads : List Bytes}
    (hne : ∀ c ∈ reads, c ≠ [])
    (hbytes : reads.flatten
      = fullResyncReply replid offset ++ (rdbLengthLine file ++ (file ++ following)))
    (dst : Databases) (sync : ReplicaSyncState) :
    (SameLive t src (connectToMaster dst sync reads).1 ↔ Covered now t src dst) ∧
      ∀ i k, i < dst.length → k ≠ [] → (src.liveEntry now i k).isSome = true →
        Option.Rel Entry.Restored (src.liveEntry t i k)
          ((connectToMaster dst sync reads).1.liveEntry t i k) := by
  rw [(connectToMaster_fullResync hreplid offset hlen hne hbytes dst sync).1]
  refine ⟨sameLive_loadRdb_iff hclock hnumbered hfits hfile dst, fun i k hi hk hlive => ?_⟩
  obtain ⟨e, he⟩ := Option.isSome_iff_exists.mp hlive
  exact restored_loadRdb hnumbered hfits hfile hi hk he t

/-- A database with one string. -/
def oneKey (k v : Bytes) : Db := AList.singleton k { value := .string v }

theorem liveEntry_oneKey (t : UInt64) (k v : Bytes) (i : ℕ) (k' : Bytes) :
    Databases.liveEntry t [oneKey k v] i k'
      = if i = 0 ∧ k' = k then some { value := .string v } else none := by
  cases i with
  | zero =>
    by_cases hk : k' = k
    · subst hk
      rw [if_pos ⟨rfl, rfl⟩, Databases.liveEntry_eq rfl, oneKey, ← AList.insert_empty,
        AList.lookup_insert]
      rfl
    · rw [if_neg fun h => hk h.2, Databases.liveEntry_eq rfl, oneKey, ← AList.insert_empty,
        AList.lookup_insert_ne hk]
      rfl
  | succ i =>
    rw [if_neg fun h => absurd h.1 (Nat.succ_ne_zero i), Databases.liveEntry_eq_none_of_le]
    simp

/-- A replica that holds an old value of the only key. -/
theorem fullResync_replaces_oldValue :
    ∃ file, saveRdb 5 [oneKey [107] [2]] 1 = .ok file ∧
      SameLive 5 [oneKey [107] [2]] (connectToMaster [oneKey [107] [1]] {}
        [asBytes "+FULLRESYNC", asBytes " abc 7\r\n" ++ rdbLengthLine file, file ++ [42]]).1 := by
  let file : Bytes := (saveRdb 5 [oneKey [107] [2]] 1).toOption.getD []
  have hfile : saveRdb 5 [oneKey [107] [2]] 1 = .ok file := rfl
  have hfits : FitsLive 5 [oneKey [107] [2]] := by
    unfold FitsLive
    decide
  have hbytes : [asBytes "+FULLRESYNC", asBytes " abc 7\r\n" ++ rdbLengthLine file,
      file ++ [42]].flatten
        = fullResyncReply "abc" 7 ++ (rdbLengthLine file ++ (file ++ [42])) := by
    simp only [List.flatten_cons, List.flatten_nil, List.append_nil, List.append_assoc]
    rfl
  have hne : ∀ c ∈ [asBytes "+FULLRESYNC", asBytes " abc 7\r\n" ++ rdbLengthLine file,
      file ++ [42]], c ≠ [] := by
    simp [asBytes, file]
  have hcovered : Covered 5 5 [oneKey [107] [2]] [oneKey [107] [1]] := by
    refine ⟨fun i k hi => ?_, fun i k h => ?_, fun i _ => ?_⟩
    · have hpos : 1 ≤ i := hi
      rw [liveEntry_oneKey, if_neg (by omega)]
    · rw [liveEntry_oneKey] at h ⊢
      split at h
      · cases h
      · next hik => rw [if_neg hik]
    · rw [liveEntry_oneKey, liveEntry_oneKey, if_neg (by simp), if_neg (by simp)]
      exact Option.Rel.none
  refine ⟨file, hfile, ?_⟩
  exact (fullResync_replaces_iff (UInt64.le_refl 5) (numbered_of_length_le (by decide)) hfits hfile
    (by decide) (by simp [isWhitespace]) 7 hne hbytes _ _).1.mpr hcovered

/-- **The replica keeps a key that the master does not have.** -/
theorem fullResync_keeps_stale :
    ∃ file, saveRdb 0 [∅] 1 = .ok file ∧
      ¬SameLive 0 [∅] (connectToMaster [oneKey [107] [118]] {}
        [fullResyncReply "abc" 0 ++ (rdbLengthLine file ++ file)]).1 := by
  let file : Bytes := (saveRdb 0 [∅] 1).toOption.getD []
  have hfile : saveRdb 0 [∅] 1 = .ok file := rfl
  have hfits : FitsLive 0 [∅] := by
    unfold FitsLive
    decide
  have hbytes : [fullResyncReply "abc" 0 ++ (rdbLengthLine file ++ file)].flatten
      = fullResyncReply "abc" 0 ++ (rdbLengthLine file ++ (file ++ [])) := by
    simp only [List.flatten_cons, List.flatten_nil, List.append_nil]
  have hne : ∀ c ∈ [fullResyncReply "abc" 0 ++ (rdbLengthLine file ++ file)], c ≠ [] := by
    simp [fullResyncReply, asBytes]
  refine ⟨file, hfile, fun hsame => ?_⟩
  rw [(connectToMaster_fullResync (by simp [isWhitespace]) 0 (by decide) hne hbytes _ _).1,
    sameLive_loadRdb_iff (UInt64.le_refl 0) (numbered_of_length_le (by decide)) hfits hfile]
      at hsame
  have hstale := hsame.noStale 0 [107] rfl
  rw [liveEntry_oneKey, if_pos ⟨rfl, rfl⟩] at hstale
  cases hstale

end VeloDB
