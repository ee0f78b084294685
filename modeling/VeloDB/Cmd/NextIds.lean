import VeloDB.Cmd.StreamIds
import VeloDB.Cmd.Streams

/-!
# The next id of a stream

`XADD` with `*` takes the clock or counts on behind the last id, and with `ms-*` it counts on in a
millisecond that the client has given. It counts only the second number, which wraps, so behind the
last id of a millisecond that the clock has not passed there is no next one; and the millisecond 0
of a stream without entries is taken for 1.

## Main results

* `nextId_iff` — when the next id is found
-/

namespace VeloDB

open Rust

/-- The key has a stream with this last id, or nothing, which is a stream with the last id 0-0. -/
structure Databases.StreamAt (now : UInt64) (dbs : Databases) (i : ℕ) (k : Bytes)
    (last : StreamId) : Prop where
  lt : i < dbs.length
  stored : (dbs.find i k = none ∧ last = (0, 0)) ∨
    ∃ e es, dbs.liveEntry now i k = some e ∧ Kind.stream.unwrap e.value = some (es, last)

/-- An entry has been added with an id above the last one, and the id is answered. -/
def Advances (last : StreamId) (wanted : StreamId → Prop) (reply : Except Failure RespValue) :
    Prop :=
  ∃ id, reply = .ok (.bulk (formatId id)) ∧ idRank last < idRank id ∧ wanted id

variable {now : UInt64} {dbs : Databases} {i : ℕ} {k : Bytes} {last : StreamId}

namespace Databases.StreamAt

theorem streamLastId (h : dbs.StreamAt now i k last) :
    (dbs.streamLastId? now i k = none ∧ last = (0, 0)) ∨
      dbs.streamLastId? now i k = some last := by
  rw [streamLastId?_eq h.lt]
  rcases h.stored with ⟨hnone, hlast⟩ | ⟨e, es, he, hes⟩
  · refine Or.inl ⟨?_, hlast⟩
    rw [liveEntry, hnone]
    rfl
  · refine Or.inr ?_
    rw [he, Option.bind_some, hes]
    rfl

theorem getStreamLastId (h : dbs.StreamAt now i k last) :
    dbs.getStreamLastId now i k = last := by
  rw [Databases.getStreamLastId]
  rcases h.streamLastId with ⟨hnone, hlast⟩ | hsome
  · rw [hnone, hlast, Option.getD_none]
  · rw [hsome, Option.getD_some]

/-- What `xadd` finds in the place of the stream. -/
theorem unwrap (h : dbs.StreamAt now i k last) : ∃ es,
    Kind.stream.unwrap ((dbs.find i k).getD { value := Kind.stream.wrap ([], 0, 0) }).value
      = some (es, last) := by
  rcases h.stored with ⟨hnone, hlast⟩ | ⟨e, es, he, hes⟩
  · rw [hnone, hlast]
    exact ⟨[], rfl⟩
  · rw [(Option.filter_eq_some_iff.mp he).1, Option.getD_some]
    exact ⟨es, hes⟩

variable {idStr : Bytes} {id : StreamId} (fields : List (Bytes × Bytes)) (maxlen : Option ℕ)
  (notified : List Bytes)

/-- An id above the last one is taken. -/
theorem xadd_above (h : dbs.StreamAt now i k last)
    (hgen : dbs.generateStreamId now i k idStr = .ok id) (hid : idRank last < idRank id) :
    (Keyspace.xadd now i k idStr fields maxlen ⟨dbs, notified⟩).1 = .ok (formatId id) := by
  have hafter : ∀ last', dbs.streamLastId? now i k = some last' → idAfter id last' = true := by
    intro last' hlast'
    rcases h.streamLastId with ⟨hnone, -⟩ | hsome
    · cases hnone.symm.trans hlast'
    · obtain rfl := Option.some.inj (hsome.symm.trans hlast')
      exact (idAfter_iff _ _).mpr hid
  obtain ⟨es, hes⟩ := h.unwrap
  rw [ContainerWrite.xadd_eq_upsert hgen hafter,
    Proc.bind_ok (Keyspace.upsertAs_run .stream h.lt hes _ notified)]
  rfl

/-- No other id is. -/
theorem xadd_not_above (h : dbs.StreamAt now i k last) (hlast : last ≠ (0, 0))
    (hgen : dbs.generateStreamId now i k idStr = .ok id) (hid : ¬idRank last < idRank id) :
    (Keyspace.xadd now i k idStr fields maxlen ⟨dbs, notified⟩).1
      = .error (.error .streamIdTooSmall) := by
  have hsome := h.streamLastId.resolve_left fun hnone => hlast hnone.2
  rw [ContainerWrite.xadd_eq_tooSmall hgen hsome
    ((not_idAfter_iff _ _).mpr (Nat.le_of_not_lt hid))]

end Databases.StreamAt

/-! ### The ids that are generated -/

theorem next_star {idStr : Bytes} (hid : fromUtf8Lossy idStr = "*")
    (h : dbs.StreamAt now i k last) : dbs.generateStreamId now i k idStr
      = .ok (if last.1 < now then (now, 0) else (last.1, last.2 + 1)) := by
  rw [generateStreamId_star hid, h.getStreamLastId, clockId]

theorem minus_notMem_of_parseU64 {text : String} {ms : UInt64} (h : parseU64 text = some ms) :
    '-' ∉ text.toList := by
  obtain ⟨n, hn, -⟩ := Option.map_eq_some_iff.mp h
  have hdigits : ∀ ds : List Char, (if ds ≠ [] ∧ ds.all Char.isDigit ∧
      Nat.ofDigitChars 10 ds 0 ≤ 2 ^ 64 - 1 then some (Nat.ofDigitChars 10 ds 0) else none)
        = some n → '-' ∉ ds := by
    intro ds hds hmem
    split_ifs at hds with hall
    exact absurd (List.all_eq_true.mp hall.2.1 _ hmem) (by decide)
  rw [parseUnsigned] at hn
  split at hn
  · next r hr =>
    rw [hr, List.mem_cons, not_or]
    exact ⟨by decide, hdigits r hn⟩
  · exact hdigits _ hn

theorem generateStreamId_ms {idStr : Bytes} {text : String} {ms : UInt64}
    (hid : fromUtf8Lossy idStr = text ++ (String.singleton '-' ++ "*"))
    (hms : parseU64 text = some ms) (h : dbs.StreamAt now i k last) :
    dbs.generateStreamId now i k idStr
      = .ok (if ms = 0 ∧ last.2 = 0 then (1, 0)
          else if last.1 < ms then (ms, 0) else (ms, last.2 + 1)) := by
  have hne : text ++ (String.singleton '-' ++ "*") ≠ "*" := by
    intro heq
    have hmem : '-' ∈ (text ++ (String.singleton '-' ++ "*")).toList := by simp
    rw [heq] at hmem
    exact absurd hmem (by decide)
  rw [Databases.generateStreamId, hid, h.getStreamLastId]
  rw [if_neg hne, splitOnce_append (minus_notMem_of_parseU64 hms)]
  dsimp only
  rw [hms]
  dsimp only
  rw [if_pos rfl]
  split_ifs <;> rfl

/-- The id behind another one of the same millisecond. -/
theorem idRank_lt_next {ms : UInt64} (h : last.1 ≤ ms) :
    idRank last < idRank (ms, last.2 + 1) ↔ last.1 < ms ∨ last.2.toNat < 2 ^ 64 - 1 := by
  have hlt := last.2.toNat_lt
  have hnext : (last.2 + 1).toNat = (last.2.toNat + 1) % 2 ^ 64 := UInt64.toNat_add _ _
  rw [idRank_lt_iff, UInt64.lt_iff_toNat_lt]
  rw [UInt64.le_iff_toNat_le] at h
  dsimp only
  rw [hnext, ← UInt64.toNat_inj]
  by_cases hmax : last.2.toNat < 2 ^ 64 - 1
  · rw [Nat.mod_eq_of_lt (by omega)]
    omega
  · have hwrap : (last.2.toNat + 1) % 2 ^ 64 = 0 := by omega
    rw [hwrap]
    omega

/-! ### `XADD` -/

section Xadd

variable {env : Env} {words rest : List Bytes} {idStr : Bytes} {maxlen : Option ℕ} {id : StreamId}
  {notified : List Bytes}

/-- What `XADD` calls, once it has found its id and fields. -/
theorem xadd_calls (hoptions : Cmd.xaddOptions env words none = (maxlen, idStr :: rest))
    (hfields : parsePairs rest ≠ []) (ks : Keyspace) : Cmd.xadd env i (k :: words) ks
      = (Keyspace.xadd env.now i k idStr (parsePairs rest) maxlen >>= fun gid =>
          pure (.bulk gid)) ks := by
  rw [Cmd.xadd, List.drop_one, List.tail_cons, hoptions]
  dsimp only
  rw [if_neg hfields]
  rfl

variable (h : dbs.StreamAt env.now i k last)
  (hoptions : Cmd.xaddOptions env words none = (maxlen, idStr :: rest))
  (hfields : parsePairs rest ≠ [])

include h hoptions hfields

theorem reply_above (hgen : dbs.generateStreamId env.now i k idStr = .ok id)
    (hid : idRank last < idRank id) :
    (Cmd.xadd env i (k :: words) ⟨dbs, notified⟩).1 = .ok (.bulk (formatId id)) := by
  have hrun := h.xadd_above (parsePairs rest) maxlen notified hgen hid
  rw [xadd_calls hoptions hfields, Proc.bind_ok (Prod.ext hrun rfl)]
  rfl

theorem reply_not_above (hlast : last ≠ (0, 0))
    (hgen : dbs.generateStreamId env.now i k idStr = .ok id) (hid : ¬idRank last < idRank id) :
    (Cmd.xadd env i (k :: words) ⟨dbs, notified⟩).1 = .error (.error .streamIdTooSmall) := by
  have hrun := h.xadd_not_above (parsePairs rest) maxlen notified hlast hgen hid
  rw [xadd_calls hoptions hfields, Proc.bind_error (Prod.ext hrun rfl)]

/-- **`XADD *`.** -/
theorem advances_star_iff (hid : fromUtf8Lossy idStr = "*") :
    Advances last (fun _ => True) (Cmd.xadd env i (k :: words) ⟨dbs, notified⟩).1 ↔
      last.1 < env.now ∨ last.2.toNat < 2 ^ 64 - 1 := by
  have hgen := next_star hid h
  by_cases hclock : last.1 < env.now
  · rw [if_pos hclock] at hgen
    have habove : idRank last < idRank (env.now, 0) :=
      (idRank_lt_iff _ _).mpr (Or.inl (UInt64.lt_iff_toNat_lt.mp hclock))
    exact iff_of_true ⟨_, reply_above h hoptions hfields hgen habove, habove, trivial⟩
      (Or.inl hclock)
  · rw [if_neg hclock] at hgen
    have hnext : idRank last < idRank (last.1, last.2 + 1) ↔
        last.1 < last.1 ∨ last.2.toNat < 2 ^ 64 - 1 := idRank_lt_next (UInt64.le_refl last.1)
    rw [or_iff_right (UInt64.lt_irrefl last.1)] at hnext
    rw [or_iff_right hclock, ← hnext]
    constructor
    · rintro ⟨id, hreply, -, -⟩
      by_contra habove
      have hlast : last ≠ (0, 0) := by
        rintro rfl
        exact habove (hnext.mpr (by decide))
      cases hreply.symm.trans (reply_not_above h hoptions hfields hlast hgen habove)
    · exact fun habove => ⟨_, reply_above h hoptions hfields hgen habove, habove, trivial⟩

/-- **`XADD ms-*`.** -/
theorem advances_ms_iff {text : String} {ms : UInt64}
    (hid : fromUtf8Lossy idStr = text ++ (String.singleton '-' ++ "*"))
    (hms : parseU64 text = some ms) :
    ((∃ id : StreamId, id.1 = ms ∧ idRank last < idRank id) → Advances last (fun id => id.1 = ms)
        (Cmd.xadd env i (k :: words) ⟨dbs, notified⟩).1) ↔
      ¬(ms = 0 ∧ last = (0, 0)) := by
  have hgen := generateStreamId_ms hid hms h
  by_cases hfirst : ms = 0 ∧ last = (0, 0)
  · obtain ⟨rfl, rfl⟩ := hfirst
    rw [if_pos ⟨rfl, rfl⟩] at hgen
    refine iff_of_false (fun hclaim => ?_) (not_not.mpr ⟨rfl, rfl⟩)
    obtain ⟨id, hreply, -, hzero⟩ := hclaim ⟨(0, 1), rfl, by decide⟩
    have hreply' : (Cmd.xadd env i (k :: words) ⟨dbs, notified⟩).1
        = .ok (.bulk (formatId (1, 0))) := reply_above h hoptions hfields hgen (by decide)
    have hbulk := RespValue.bulkString.inj (Except.ok.inj (hreply'.symm.trans hreply))
    have hone := formatId_injective (Option.some.inj hbulk)
    rw [← hone] at hzero
    exact absurd hzero (by decide)
  · refine iff_of_true ?_ hfirst
    rintro ⟨id, rfl, hlater⟩
    have hle : last.1 ≤ id.1 := by
      rw [UInt64.le_iff_toNat_le]
      rcases (idRank_lt_iff _ _).mp hlater with hlt | ⟨heq, -⟩
      · exact hlt.le
      · exact le_of_eq (congrArg UInt64.toNat heq)
    have hnot : ¬(id.1 = 0 ∧ last.2 = 0) := by
      rintro ⟨hms0, hseq0⟩
      rw [hms0] at hle
      exact hfirst ⟨hms0, Prod.ext (UInt64.le_zero_iff.mp hle) hseq0⟩
    rw [if_neg hnot] at hgen
    by_cases hlt : last.1 < id.1
    · rw [if_pos hlt] at hgen
      have habove : idRank last < idRank (id.1, 0) :=
        (idRank_lt_iff _ _).mpr (Or.inl (UInt64.lt_iff_toNat_lt.mp hlt))
      exact ⟨_, reply_above h hoptions hfields hgen habove, habove, rfl⟩
    · rw [if_neg hlt] at hgen
      have habove : idRank last < idRank (id.1, last.2 + 1) := by
        refine (idRank_lt_next hle).mpr (Or.inr ?_)
        rcases (idRank_lt_iff _ _).mp hlater with hlt' | ⟨-, hseq⟩
        · exact absurd (UInt64.lt_iff_toNat_lt.mpr hlt') hlt
        · exact lt_of_lt_of_le hseq (Nat.le_sub_one_of_lt id.2.toNat_lt)
      exact ⟨_, reply_above h hoptions hfields hgen habove, habove, rfl⟩

end Xadd

/-- **The next id.** `XADD` with `*` finds an id above the last one, which is not the greatest id of
all, if and only if the clock is behind the millisecond of the last id or that millisecond has an id
left. With `ms-*` it finds one of that millisecond wherever there is one, except for the millisecond
0 of a stream with the last id 0-0. -/
theorem nextId_iff {env : Env} {words rest : List Bytes} {idStr : Bytes} {maxlen : Option ℕ}
    {notified : List Bytes} (h : dbs.StreamAt env.now i k last)
    (hoptions : Cmd.xaddOptions env words none = (maxlen, idStr :: rest))
    (hfields : parsePairs rest ≠ []) :
    (fromUtf8Lossy idStr = "*" →
      (Advances last (fun _ => True) (Cmd.xadd env i (k :: words) ⟨dbs, notified⟩).1 ↔
        last.1 < env.now ∨ last.2.toNat < 2 ^ 64 - 1)) ∧
    ∀ (text : String) (ms : UInt64), fromUtf8Lossy idStr = text ++ (String.singleton '-' ++ "*") →
      parseU64 text = some ms →
      (((∃ id : StreamId, id.1 = ms ∧ idRank last < idRank id) → Advances last
          (fun id => id.1 = ms) (Cmd.xadd env i (k :: words) ⟨dbs, notified⟩).1) ↔
        ¬(ms = 0 ∧ last = (0, 0))) :=
  ⟨advances_star_iff h hoptions hfields,
    fun _ _ hid hms => advances_ms_iff h hoptions hfields hid hms⟩

/-- The stream `s` has the last id 5-7 and expires at 9. -/
def aheadOfClock : Databases :=
  (Store.new 1).databases.put 0 [115]
    { value := .stream [⟨5, 7, [([102], [118])]⟩] 5 7, expireAt := some 9 }

/-- At the time 1, `XADD s * f v` finds an id, and so does `XADD s 5-* f v`. -/
theorem nextId_ahead :
    Advances (5, 7) (fun _ => True)
        (Cmd.xadd (Moment.on ⟨1, 0, 0, 1⟩ Host.plain) 0 [[115], [42], [102], [118]]
          ⟨aheadOfClock, []⟩).1 ∧
      Advances (5, 7) (fun id => id.1 = 5)
        (Cmd.xadd (Moment.on ⟨1, 0, 0, 1⟩ Host.plain) 0 [[115], asBytes "5-*", [102], [118]]
          ⟨aheadOfClock, []⟩).1 := by
  have hstream : aheadOfClock.StreamAt 1 0 [115] (5, 7) :=
    ⟨by decide, Or.inr ⟨_, _, rfl, rfl⟩⟩
  constructor
  · have hoptions : Cmd.xaddOptions (Moment.on ⟨1, 0, 0, 1⟩ Host.plain) [[42], [102], [118]] none
        = (none, [42] :: [[102], [118]]) := rfl
    exact ((nextId_iff hstream hoptions (by decide)).1 (by decide)).mpr (Or.inr (by decide))
  · have hoptions : Cmd.xaddOptions (Moment.on ⟨1, 0, 0, 1⟩ Host.plain)
        [asBytes "5-*", [102], [118]] none = (none, asBytes "5-*" :: [[102], [118]]) := rfl
    exact ((nextId_iff hstream hoptions (by decide)).2 "5" 5 (by decide) (by decide)).mpr
      (by decide) ⟨(5, 8), rfl, by decide⟩

/-- `XADD s * f v` at the time 1, where the last id is 5-18446744073709551615. -/
theorem not_advances_full : ¬Advances (5, UInt64.ofNat (2 ^ 64 - 1)) (fun _ => True)
    (Cmd.xadd (Moment.on ⟨1, 0, 0, 1⟩ Host.plain) 0 [[115], [42], [102], [118]]
      ⟨(Store.new 1).databases.put 0 [115]
        { value := .stream [] 5 (UInt64.ofNat (2 ^ 64 - 1)) }, []⟩).1 := by
  rintro ⟨id, hreply, -, -⟩
  have herror : (Cmd.xadd (Moment.on ⟨1, 0, 0, 1⟩ Host.plain) 0 [[115], [42], [102], [118]]
      ⟨(Store.new 1).databases.put 0 [115]
        { value := .stream [] 5 (UInt64.ofNat (2 ^ 64 - 1)) }, []⟩).1
      = .error (.error .streamIdTooSmall) := rfl
  cases herror.symm.trans hreply

end VeloDB
