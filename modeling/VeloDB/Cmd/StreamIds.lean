import VeloDB.Lib.Run
import VeloDB.Cmd.Acknowledged
import VeloDB.Cmd.Table

/-!
# Stream ids

The ids of a stream ascend, and its last id is not below any of them. Range reads, consumer groups
and the rewriting of the log rely on both. `XADD` checks the new id against the last id of the live
stream, and appends to what is stored at the key; the two are not the same when the stream has
expired and has not been removed.

## Main definitions

* `idRank` — an id as a number, in the order of ids
* `InOrder` — what is asked of a stream
* `Grown` — what calls of the store do to a stream

## Main results

* `xadd_cases`, `xdel_cases`, `xtrim_cases` — everything these calls can do
* `Grown.inOrder`, `Grown.trans`
-/

namespace VeloDB

open Rust Proc

/-! ### The order of ids -/

/-- The place of an id: the milliseconds count first. -/
def idRank (id : StreamId) : ℕ := id.1.toNat * 2 ^ 64 + id.2.toNat

theorem idRank_lt_iff (a b : StreamId) :
    idRank a < idRank b ↔ a.1.toNat < b.1.toNat ∨ a.1 = b.1 ∧ a.2.toNat < b.2.toNat := by
  have ha := a.2.toNat_lt
  have hb := b.2.toNat_lt
  rw [idRank, idRank, ← UInt64.toNat_inj]
  omega

theorem idRank_injective : Function.Injective idRank := by
  intro a b h
  have ha := a.2.toNat_lt
  have hb := b.2.toNat_lt
  rw [idRank, idRank] at h
  refine Prod.ext (UInt64.toNat_inj.mp ?_) (UInt64.toNat_inj.mp ?_) <;> omega

theorem idAfter_iff (a b : StreamId) : idAfter a b = true ↔ idRank b < idRank a := by
  rw [idRank_lt_iff, idAfter, Bool.or_eq_true, Bool.and_eq_true, decide_eq_true_eq,
    decide_eq_true_eq, beq_iff_eq, UInt64.lt_iff_toNat_lt, UInt64.lt_iff_toNat_lt, eq_comm (a := a.1)]

theorem not_idAfter_iff (a b : StreamId) : idAfter a b = false ↔ idRank a ≤ idRank b := by
  rw [← Bool.not_eq_true, idAfter_iff, not_lt]

theorem compare_u64 (a b : UInt64) : compare a b = compare a.toNat b.toNat := by
  show compareOfLessAndEq a b = compareOfLessAndEq a.toNat b.toNat
  simp only [compareOfLessAndEq, UInt64.lt_iff_toNat_lt, UInt64.toNat_inj]

/-- The order of the pending entries is the order of ids. -/
theorem compareId_eq (a b : StreamId) : compareId a b = compare (idRank a) (idRank b) := by
  have ha := a.2.toNat_lt
  have hb := b.2.toNat_lt
  rw [compareId, compare_u64, compare_u64]
  rcases lt_trichotomy a.1.toNat b.1.toNat with h | h | h
  · have hlt : idRank a < idRank b := by
      rw [idRank, idRank]
      omega
    rw [compare_lt_iff_lt.mpr h, compare_lt_iff_lt.mpr hlt]
    rfl
  · rw [compare_eq_iff_eq.mpr h, Ordering.eq_then, idRank, idRank, h]
    rcases lt_trichotomy a.2.toNat b.2.toNat with h' | h' | h'
    · rw [compare_lt_iff_lt.mpr h', compare_lt_iff_lt.mpr (Nat.add_lt_add_left h' _)]
    · rw [h', compare_eq_iff_eq.mpr rfl, compare_eq_iff_eq.mpr rfl]
    · rw [compare_gt_iff_gt.mpr h', compare_gt_iff_gt.mpr (Nat.add_lt_add_left h' _)]
  · have hlt : idRank b < idRank a := by
      rw [idRank, idRank]
      omega
    rw [compare_gt_iff_gt.mpr h, compare_gt_iff_gt.mpr hlt]
    rfl

/-! ### The text of an id -/

/-- The text of an id. -/
theorem fromUtf8Lossy_formatId (id : StreamId) : fromUtf8Lossy (formatId id)
    = toString id.1.toNat ++ (String.singleton '-' ++ toString id.2.toNat) := by
  rw [formatId, fromUtf8Lossy_asBytes, String.append_assoc]
  rfl

theorem minus_notMem_toString (n : ℕ) : '-' ∉ (toString n).toList := by
  intro hmem
  rw [toList_toString_nat] at hmem
  exact absurd (isDigit_of_mem_toDigits hmem) (by decide)

theorem formatId_injective : Function.Injective formatId := by
  intro a b h
  have htext := congrArg fromUtf8Lossy h
  rw [fromUtf8Lossy_formatId, fromUtf8Lossy_formatId] at htext
  have hsplit := congrArg (splitOnce '-') htext
  rw [splitOnce_append (minus_notMem_toString _), splitOnce_append (minus_notMem_toString _)]
    at hsplit
  obtain ⟨hms, hseq⟩ := Prod.mk.inj hsplit
  exact Prod.ext (UInt64.toNat_inj.mp (toString_nat_injective hms))
    (UInt64.toNat_inj.mp (toString_nat_injective (Option.some.inj hseq)))

/-- The id after the last one that is read off the clock. -/
def clockId (now : UInt64) (last : StreamId) : StreamId :=
  if last.1 < now then (now, 0) else (last.1, last.2 + 1)

theorem generateStreamId_star {now : UInt64} {dbs : Databases} {i : ℕ} {k idStr : Bytes}
    (hstar : fromUtf8Lossy idStr = "*") : dbs.generateStreamId now i k idStr
      = .ok (clockId now (dbs.getStreamLastId now i k)) := by
  rw [Databases.generateStreamId, if_pos hstar, clockId]
  split_ifs <;> rfl

/-! ### Streams in order -/

/-- What a stream holds: its entries and its last id. -/
abbrev StreamData := List StreamEntry × StreamId

/-- The ids ascend. -/
def Ascending (l : List StreamEntry) : Prop := l.Pairwise fun a b => idRank a.id < idRank b.id

/-- The ids of the entries ascend, and none is above the last id. -/
structure InOrder (s : StreamData) : Prop where
  ascending : Ascending s.1
  le_last : ∀ e ∈ s.1, idRank e.id ≤ idRank s.2

/-- Entries behind the last id have been added, and any entries removed. -/
structure Grown (s s' : StreamData) : Prop where
  last_le : idRank s.2 ≤ idRank s'.2
  entries : ∃ new, s'.1.Sublist (s.1 ++ new) ∧ Ascending new ∧
    ∀ e ∈ new, idRank s.2 < idRank e.id ∧ idRank e.id ≤ idRank s'.2

theorem inOrder_nil (last : StreamId) : InOrder ([], last) :=
  ⟨List.Pairwise.nil, fun _ h => absurd h List.not_mem_nil⟩

namespace Grown

variable {s s' s'' : StreamData}

theorem of_sublist {es : List StreamEntry} (h : es.Sublist s.1) : Grown s (es, s.2) :=
  ⟨le_rfl, [], by rwa [List.append_nil], List.Pairwise.nil, fun _ h => absurd h List.not_mem_nil⟩

theorem refl (s : StreamData) : Grown s s := of_sublist (List.Sublist.refl _)

theorem inOrder (h : Grown s s') (hs : InOrder s) : InOrder s' := by
  obtain ⟨new, hsub, hnew, hbetween⟩ := h.entries
  refine ⟨(List.pairwise_append.mpr ⟨hs.ascending, hnew, fun a ha b hb => ?_⟩).sublist hsub,
    fun e he => ?_⟩
  · exact (hs.le_last a ha).trans_lt (hbetween b hb).1
  · rcases List.mem_append.mp (hsub.subset he) with he | he
    · exact (hs.le_last e he).trans h.last_le
    · exact (hbetween e he).2

/-- One entry more, and perhaps fewer old ones. -/
theorem addEntry {id : StreamId} (hid : idRank s.2 < idRank id) (fields : List (Bytes × Bytes))
    (maxlen : Option ℕ) : Grown s (ContainerWrite.addEntry id fields maxlen s).2 := by
  refine ⟨hid.le, [{ idMs := id.1, idSeq := id.2, fields }], ?_, List.pairwise_singleton _ _, ?_⟩
  · cases maxlen with
    | none => exact List.Sublist.refl _
    | some max => exact List.drop_sublist _ _
  · intro e he
    obtain rfl := List.mem_singleton.mp he
    exact ⟨hid, le_rfl⟩

end Grown

/-- The first entry of a stream, whatever its id. -/
theorem inOrder_addEntry (id : StreamId) (fields : List (Bytes × Bytes)) (maxlen : Option ℕ)
    (last : StreamId) : InOrder (ContainerWrite.addEntry id fields maxlen ([], last)).2 := by
  have hall : InOrder ([{ idMs := id.1, idSeq := id.2, fields }], id) := by
    refine ⟨List.pairwise_singleton _ _, fun e he => ?_⟩
    obtain rfl := List.mem_singleton.mp he
    exact le_rfl
  cases maxlen with
  | none => exact hall
  | some max => exact (Grown.of_sublist (s := ([_], id)) (List.drop_sublist _ _)).inOrder hall

/-! ### What the calls do -/

namespace Keyspace

variable {now : UInt64} {i : ℕ} {k : Bytes}

/-- **Everything an `xadd` can do.** -/
theorem xadd_cases (now : UInt64) (i : ℕ) (k idStr : Bytes) (fields : List (Bytes × Bytes))
    (maxlen : Option ℕ) (ks : Keyspace) :
    (∃ e, xadd now i k idStr fields maxlen ks = (.error (.error e), ks)) ∨
    (∃ id s, i < ks.databases.length ∧ ks.databases.generateStreamId now i k idStr = .ok id ∧
      Kind.stream.unwrap
        ((ks.databases.find i k).getD { value := .stream [] 0 0 }).value = some s ∧
      (∀ e, ks.databases.liveEntry now i k = some e → idRank s.2 < idRank id) ∧
      xadd now i k idStr fields maxlen ks = (.ok (formatId id), ⟨ks.databases.put i k
        { (ks.databases.find i k).getD { value := .stream [] 0 0 } with
          value := Kind.stream.wrap (ContainerWrite.addEntry id fields maxlen s).2 },
        ks.notified ++ [k]⟩)) := by
  obtain ⟨dbs, notified⟩ := ks
  cases hgen : dbs.generateStreamId now i k idStr with
  | error e => exact Or.inl ⟨e, ContainerWrite.xadd_eq_error hgen fields maxlen notified⟩
  | ok id =>
    by_cases hafter : ∀ last, dbs.streamLastId? now i k = some last → idAfter id last = true
    · have hrun := ContainerWrite.xadd_eq_upsert hgen hafter fields maxlen notified
      rcases upsertAs_cases .stream i k ([], 0, 0) (ContainerWrite.addEntry id fields maxlen)
        ⟨dbs, notified⟩ with ⟨e, hu, -⟩ | ⟨s, hi, hs, hu⟩
      · exact Or.inl ⟨e, hrun.trans (Proc.bind_error hu)⟩
      · refine Or.inr ⟨id, s, hi, rfl, hs, fun e he => ?_, hrun.trans (Proc.bind_ok hu)⟩
        have hfind : dbs.find i k = some e := (Option.filter_eq_some_iff.mp he).1
        have hvalue : Kind.stream.unwrap e.value = some s := by rwa [hfind] at hs
        refine (idAfter_iff _ _).mp (hafter s.2 ?_)
        rw [streamLastId?_eq hi, he, Option.bind_some, hvalue]
        rfl
    · obtain ⟨last, hlast, hnot⟩ := by simpa only [not_forall] using hafter
      exact Or.inl ⟨_, ContainerWrite.xadd_eq_tooSmall hgen hlast (by simpa using hnot) fields maxlen
        notified⟩

/-- A change of a live stream that only removes entries. -/
theorem removes_cases {β : Type} {f : StreamData → Except Failure β × StreamData}
    (hf : ∀ s, ∃ es, (f s).2 = (es, s.2) ∧ es.Sublist s.1) (now : UInt64) (i : ℕ) (k : Bytes)
    (missing : Except Failure β) (ks : Keyspace) :
    (updateAs .stream now i k missing f ks).2 = ks ∨
    ∃ e s es, i < ks.databases.length ∧ ks.databases.liveEntry now i k = some e ∧
      Kind.stream.unwrap e.value = some s ∧ es.Sublist s.1 ∧
      (updateAs .stream now i k missing f ks).2
        = ⟨ks.databases.put i k { e with value := Kind.stream.wrap (es, s.2) }, ks.notified⟩ := by
  rcases updateAs_cases .stream now i k missing f ks with ⟨e, h⟩ | ⟨-, -, h⟩ |
    ⟨e, s, hi, he, hs, h⟩
  · exact Or.inl (by rw [h])
  · exact Or.inl (by rw [h])
  · obtain ⟨es, hes, hsub⟩ := hf s
    exact Or.inr ⟨e, s, es, hi, he, hs, hsub, by rw [h, hes]⟩

end Keyspace

/-- A live stream is what `XGROUP CREATE` asks for. -/
theorem unwrap_of_typeName {v : StorageValue} (h : v.typeName = "stream") :
    ∃ s, Kind.stream.unwrap v = some s := by
  cases v with
  | stream es ms seq => exact ⟨_, rfl⟩
  | string | list | set | hash | zset | nestedHash => simp [StorageValue.typeName] at h

theorem typeName_of_unwrap {v : StorageValue} {d : StreamData}
    (h : Kind.stream.unwrap v = some d) : v.typeName = "stream" := by
  cases v with
  | stream es ms seq => rfl
  | string | list | set | hash | zset | nestedHash => cases h

/-- Where `XGROUP CREATE` starts a group. -/
def groupStart (now : UInt64) (dbs : Databases) (i : ℕ) (k startId : Bytes) : StreamId :=
  if startId = asBytes "$" then dbs.getStreamLastId now i k else parseStreamId startId true

/-- **Everything an `xgroup_create` can do.** -/
theorem xgroupCreate_cases (now : UInt64) (i : ℕ) (k : Bytes) (group : String) (startId : Bytes)
    (mkstream : Bool) (w : Whole) :
    (∃ e, xgroupCreate now i k group startId mkstream w = (.error e, w)) ∨
    ∃ dbs, (dbs = w.store.databases ∧ (∃ e s, w.store.databases.liveEntry now i k = some e ∧
          Kind.stream.unwrap e.value = some s) ∨
        i < w.store.databases.length ∧ w.store.databases.liveEntry now i k = none ∧
          dbs = w.store.databases.put i k { value := .stream [] 0 0 }) ∧
      xgroupCreate now i k group startId mkstream w = (.ok (), { w with store := {
        databases := dbs
        tables := (Tables.putGroup i k group (groupStart now dbs i k startId) w.store.tables).2 } }) := by
  obtain ⟨⟨dbs, t⟩, c⟩ := w
  dsimp only
  by_cases hi : i < dbs.length
  · have htype : dbs.getType now i k
        = .ok ((dbs.liveEntry now i k).map fun e => e.value.typeName) := by
      rw [Databases.getType, Databases.entry_eq hi]
      rfl
    rw [xgroupCreate, Proc.get_bind]
    dsimp only
    rw [htype]
    cases hlive : dbs.liveEntry now i k with
    | none =>
      cases mkstream with
      | false => exact Or.inl ⟨_, rfl⟩
      | true => exact Or.inr ⟨_, Or.inr ⟨hi, rfl, rfl⟩, rfl⟩
    | some e =>
      by_cases hstream : e.value.typeName = "stream"
      · refine Or.inr ⟨dbs, Or.inl ⟨rfl, e, ?_⟩, ?_⟩
        · obtain ⟨s, hs⟩ := unwrap_of_typeName hstream
          exact ⟨s, rfl, hs⟩
        · simp only [Option.map_some, hstream]
          rfl
      · refine Or.inl ⟨.error .wrongType, ?_⟩
        simp only [Option.map_some]
        show Proc.andThen _ _ _ = _
        simp [Proc.andThen, ofResult, lift, Proc.ofExcept, hstream]
  · refine Or.inl ⟨.error (.internal ("db " ++ toString i ++ " out of range")), ?_⟩
    rw [xgroupCreate, Proc.get_bind, Databases.getType, Databases.entry, Databases.db,
      List.getElem?_eq_none (Nat.le_of_not_lt hi)]
    rfl

/-! ### What a command does to a key -/

/-- The stream that is stored at a key, expired or not. -/
def storedStream (o : Option Entry) : Option StreamData := o.bind fun e => Kind.stream.unwrap e.value

/-- What one command does to what is stored at a key, as far as streams go. Only a command that
`replaces` puts something new in the place of what has expired. -/
inductive EntryStep (now : UInt64) (replaces : Prop) : Option Entry → Option Entry → Prop
  /-- What is there is kept. -/
  | kept {e e' : Entry} (h : ∀ t, storedStream (some e') = some t →
      ∃ s, storedStream (some e) = some s ∧ Grown s t) :
    EntryStep now replaces (some e) (some e')
  /-- Nothing is there any more. -/
  | gone (o : Option Entry) : EntryStep now replaces o none
  /-- Something new is there. -/
  | fresh {o : Option Entry} {e : Entry}
    (ho : o = none ∨ replaces ∧ ∃ old, o = some old ∧ old.expired now = true)
    (h : ∀ t, storedStream (some e) = some t → InOrder t) :
    EntryStep now replaces o (some e)

/-- The streams that are stored are in order. -/
def StreamsInOrder (dbs : Databases) : Prop :=
  ∀ i k s, storedStream (dbs.find i k) = some s → InOrder s

namespace EntryStep

variable {now : UInt64} {replaces : Prop} {o o' : Option Entry}

theorem refl (o : Option Entry) : EntryStep now replaces o o := by
  cases o with
  | none => exact .gone none
  | some e => exact .kept fun t ht => ⟨t, ht, .refl t⟩

/-- **Streams stay in order.** -/
theorem inOrder (h : EntryStep now replaces o o')
    (ho : ∀ s, storedStream o = some s → InOrder s) {t : StreamData}
    (ht : storedStream o' = some t) : InOrder t := by
  cases h with
  | kept h =>
    obtain ⟨s, hs, hgrown⟩ := h t ht
    exact hgrown.inOrder (ho s hs)
  | gone => cases ht
  | fresh _ h => exact h t ht

/-- **The last id of a stream that is kept.** -/
theorem last_le (h : EntryStep now replaces o o') {s t : StreamData} (hs : storedStream o = some s)
    (ht : storedStream o' = some t)
    (hlive : replaces → ∀ e, o = some e → e.expired now = false) : idRank s.2 ≤ idRank t.2 := by
  cases h with
  | kept h =>
    obtain ⟨s', hs', hgrown⟩ := h t ht
    obtain rfl := Option.some.inj (hs.symm.trans hs')
    exact hgrown.last_le
  | gone => cases ht
  | fresh ho =>
    rcases ho with rfl | ⟨hreplaces, old, rfl, hold⟩
    · cases hs
    · rw [hlive hreplaces old rfl] at hold
      cases hold

end EntryStep

/-- `EntryStep` at every key. -/
def KeyStep (now : UInt64) (replaces : Prop) (dbs dbs' : Databases) : Prop :=
  ∀ i k, EntryStep now replaces (dbs.find i k) (dbs'.find i k)

section Steps

variable {now : UInt64} {replaces : Prop} {dbs : Databases} {i : ℕ} {k : Bytes}

theorem keyStep_refl (dbs : Databases) : KeyStep now replaces dbs dbs := fun _ _ => .refl _

theorem KeyStep.put (hi : i < dbs.length) {e : Entry}
    (h : EntryStep now replaces (dbs.find i k) (some e)) :
    KeyStep now replaces dbs (dbs.put i k e) := by
  intro j k'
  by_cases hne : j ≠ i ∨ k' ≠ k
  · rw [Databases.find_put_of_ne hne]
    exact .refl _
  · obtain ⟨rfl, rfl⟩ := not_or.mp hne |>.imp not_ne_iff.mp not_ne_iff.mp
    rwa [Databases.find_put_self hi]

/-- `KeyStep`, of a command on databases. -/
def KeyspaceStep (now : UInt64) (replaces : Prop) (s s' : Keyspace) : Prop :=
  KeyStep now replaces s.databases s'.databases

/-- `KeyStep`, of a command on everything. -/
def WholeStep (now : UInt64) (replaces : Prop) (w w' : Whole) : Prop :=
  KeyStep now replaces w.store.databases w'.store.databases

instance : Std.Refl (KeyspaceStep now replaces) := ⟨fun s => keyStep_refl s.databases⟩

instance : Std.Refl (WholeStep now replaces) := ⟨fun w => keyStep_refl w.store.databases⟩

theorem step_changeExpire (i : ℕ) (k : Bytes) (at_ : Option UInt64) :
    Moves (KeyspaceStep now replaces) (Keyspace.changeExpire i k at_) := by
  rintro ⟨dbs, notified⟩
  by_cases hi : i < dbs.length
  · cases he : dbs.find i k with
    | none =>
      rw [Keyspace.changeExpire_missing hi he]
      exact keyStep_refl dbs
    | some e =>
      rw [Keyspace.changeExpire_run hi he]
      refine KeyStep.put hi ?_
      rw [he]
      exact .kept fun t ht => ⟨t, ht, .refl t⟩
  · obtain ⟨e, he⟩ := Keyspace.read_db_error (Nat.le_of_not_lt hi) notified
    rw [Keyspace.changeExpire, Proc.bind_error he]
    exact keyStep_refl dbs

/-- A live stream from which entries are removed. -/
theorem step_removes {β : Type} {f : StreamData → Except Failure β × StreamData}
    (hf : ∀ s, ∃ es, (f s).2 = (es, s.2) ∧ es.Sublist s.1) (i : ℕ) (k : Bytes)
    (missing : Except Failure β) :
    Moves (KeyspaceStep now replaces) (Keyspace.updateAs .stream now i k missing f) := by
  intro ks
  rcases Keyspace.removes_cases hf now i k missing ks with h | ⟨e, s, es, hi, he, hs, hsub, h⟩
  · rw [h]
    exact keyStep_refl _
  · rw [h]
    refine KeyStep.put hi ?_
    rw [(Option.filter_eq_some_iff.mp he).1]
    exact .kept fun t ht => ⟨s, hs, Option.some.inj ht ▸ .of_sublist hsub⟩

/-- An entry is added to a live stream, to a new one, or behind the last id of an expired one. -/
theorem step_xadd {idStr : Bytes} {fields : List (Bytes × Bytes)} {maxlen : Option ℕ}
    {ks : Keyspace} (hbehind : ∀ id s, Stale now ks.databases i k →
      ks.databases.generateStreamId now i k idStr = .ok id →
      storedStream (ks.databases.find i k) = some s → idRank s.2 < idRank id) :
    KeyspaceStep now replaces ks (Keyspace.xadd now i k idStr fields maxlen ks).2 := by
  rcases Keyspace.xadd_cases now i k idStr fields maxlen ks with ⟨e, h⟩ |
    ⟨id, s, hi, hgen, hs, hlive, h⟩
  · rw [h]
    exact keyStep_refl _
  · rw [h]
    refine KeyStep.put hi ?_
    cases he : ks.databases.find i k with
    | none =>
      rw [he] at hs
      obtain rfl := Option.some.inj hs
      exact .fresh (Or.inl rfl) fun t ht => Option.some.inj ht ▸ inOrder_addEntry id fields maxlen _
    | some e =>
      rw [he] at hs
      have hid : idRank s.2 < idRank id := by
        cases hexp : e.expired now with
        | true => exact hbehind id s ⟨e, he, hexp⟩ hgen (by rwa [he])
        | false => exact hlive e (by rw [Databases.liveEntry, he, Option.filter_some, hexp]; rfl)
      exact .kept fun t ht => ⟨s, hs, Option.some.inj ht ▸ .addEntry hid fields maxlen⟩

/-- Nothing has been done but to remove keys. -/
def OnlyRemoves (s s' : Keyspace) : Prop :=
  ∀ i k, s'.databases.find i k = s.databases.find i k ∨ s'.databases.find i k = none

instance : Std.Refl OnlyRemoves := ⟨fun _ _ _ => Or.inl rfl⟩

instance : IsTrans Keyspace OnlyRemoves where
  trans s s' s'' h h' i k := by
    rcases h' i k with h' | h'
    · rw [h']
      exact h i k
    · exact Or.inr h'

theorem onlyRemoves_remove (i : ℕ) (k : Bytes) : Moves OnlyRemoves (Keyspace.remove i k) := by
  intro s j k'
  by_cases hne : j ≠ i ∨ k' ≠ k
  · exact Or.inl (Databases.find_remove_of_ne hne)
  · obtain ⟨rfl, rfl⟩ := not_or.mp hne |>.imp not_ne_iff.mp not_ne_iff.mp
    exact Or.inr Databases.find_remove_self

theorem OnlyRemoves.keyspaceStep {s s' : Keyspace} (h : OnlyRemoves s s') :
    KeyspaceStep now replaces s s' := by
  intro i k
  rcases h i k with h | h
  · rw [h]
    exact .refl _
  · rw [h]
    exact .gone _

end Steps

/-! ### The commands -/

namespace Cmd

variable (env : Env) (i : ℕ) (args : List Bytes)

/-- The id that an `XADD` asks for. -/
def xaddId : Option Bytes := (xaddOptions env (args.drop 1) none).2.head?

/-- `XADD` finds no expired stream at its key, or has an id above the last id of that stream. -/
def AddsBehind (dbs : Databases) : Prop :=
  ∀ k idStr id s, args.head? = some k → xaddId env args = some idStr → Stale env.now dbs i k →
    dbs.generateStreamId env.now i k idStr = .ok id → storedStream (dbs.find i k) = some s →
      idRank s.2 < idRank id

variable {replaces : Prop}

theorem step_xaddCmd {ks : Keyspace} (hbehind : AddsBehind env i args ks.databases) :
    KeyspaceStep env.now replaces ks (xadd env i args ks).2 := by
  rw [xadd]
  rw [AddsBehind, xaddId] at hbehind
  cases hopts : (xaddOptions env (args.drop 1) none).2 with
  | nil => exact keyStep_refl _
  | cons idStr rest =>
    rw [hopts] at hbehind
    dsimp only
    split
    · exact keyStep_refl _
    · cases args with
      | nil => exact keyStep_refl _
      | cons k args =>
        rw [arg_cons_zero, lift_ok_bind, Proc.bind_pure_snd]
        exact step_xadd fun id s => hbehind k idStr id s rfl rfl

theorem step_xdel : Moves (KeyspaceStep env.now replaces) (xdel env i args) :=
  (moves_ofExcept _).eq_bind fun _ => (moves_ofExcept _).eq_bind fun _ =>
    (step_removes (fun s => ⟨_, rfl, Keyspace.sublist_foldl_xdelOne _ (0, s.1)⟩) i _ _).bind_eq
      fun _ => moves_pure _

theorem step_xtrim : Moves (KeyspaceStep env.now replaces) (xtrim env i args) := by
  have htrim : ∀ k maxlen, Moves (KeyspaceStep env.now replaces)
      (Keyspace.xtrim env.now i k maxlen) := fun k maxlen =>
    step_removes (fun s => ⟨_, rfl, List.drop_sublist _ _⟩) i k _
  rw [xtrim]
  split
  · exact moves_fail _
  · exact (moves_ofExcept _).eq_bind fun _ => (moves_ofExcept _).eq_bind fun _ =>
      (htrim _ _).bind_eq fun _ => moves_pure _

theorem step_expireWith (time : UInt64 → UInt64) :
    Moves (KeyspaceStep env.now replaces) (expireWith time i args) :=
  (moves_ofExcept _).eq_bind fun _ => (moves_ofExcept _).eq_bind fun _ =>
    (step_changeExpire i _ _).bind_eq fun _ => moves_pure _

theorem step_persist : Moves (KeyspaceStep env.now replaces) (persist env i args) :=
  (moves_ofExcept _).eq_bind fun _ => (step_changeExpire i _ _).bind_eq fun _ => moves_pure _

theorem step_del : Moves (KeyspaceStep env.now replaces) (del env i args) := by
  have hdel : Moves OnlyRemoves (del env i args) :=
    (moves_foldEach (fun n key _ => ((Keyspace.moves_read _).bind fun _ =>
      (onlyRemoves_remove i key).bind fun _ => moves_pure _).bind fun _ => moves_pure _) 0).bind
        fun _ => moves_pure _
  exact fun s => (hdel s).keyspaceStep

/-- **`XGROUP`**: only `CREATE` touches the databases. -/
theorem step_xgroup (hreplaces : replaces) :
    Moves (WholeStep env.now replaces) (xgroup env args) := by
  have htables : ∀ {α : Type} (m : TableM α) (g : α → RespValue),
      Moves (WholeStep env.now replaces) (onTablesOfStore m >>= fun a => pure (g a)) := by
    intro α m g
    have hm : Moves (WholeStep env.now replaces) (onTablesOfStore m) := fun w => keyStep_refl _
    exact hm.bind_eq fun a => moves_pure (g a)
  have hcreate : ∀ i k group startId mkstream, Moves (WholeStep env.now replaces)
      (xgroupCreate env.now i k group startId mkstream) := by
    intro i k group startId mkstream w
    rcases xgroupCreate_cases env.now i k group startId mkstream w with ⟨e, h⟩ | ⟨dbs, hdbs, h⟩
    · rw [h]
      exact keyStep_refl _
    · rw [h]
      rcases hdbs with ⟨rfl, -⟩ | ⟨hi, hnone, rfl⟩
      · exact keyStep_refl _
      · refine KeyStep.put hi (.fresh ?_ fun t ht => Option.some.inj ht ▸ inOrder_nil (0, 0))
        cases he : w.store.databases.find i k with
        | none => exact Or.inl rfl
        | some e =>
          refine Or.inr ⟨hreplaces, e, rfl, ?_⟩
          rw [Databases.liveEntry, he, Option.filter_some] at hnone
          simpa using hnone
  refine Moves.eq_bind moves_get fun w => ?_
  cases args with
  | nil => exact moves_fail _
  | cons sub rest =>
    dsimp only
    split
    · split
      · exact (hcreate _ _ _ _ _).bind_eq fun _ => moves_pure _
      · exact moves_fail _
    · split
      · split
        · exact htables _ _
        · exact moves_fail _
      · split
        · split
          · exact htables _ _
          · exact moves_fail _
        · split
          · split
            · exact htables _ _
            · exact moves_fail _
          · exact moves_fail _

end Cmd

/-! ### Runs -/

/-- The commands that add to streams, remove from them, and set and remove expiries. -/
def idNames : List String :=
  ["XADD", "XDEL", "XTRIM", "XGROUP", "EXPIRE", "EXPIREAT", "PEXPIRE", "PEXPIREAT", "PERSIST", "DEL"]

/-- One of these commands. -/
theorem step_idNames {c : CommandDef} (hc : c ∈ commands) (hname : c.name ∈ idNames)
    (dispatch : Dispatch) (env : Env) (args : List Bytes) (w : Whole)
    (hbehind : c.name = "XADD" → Cmd.AddsBehind env w.ctx.dbIndex args w.store.databases) :
    WholeStep env.now (c.name = "XGROUP") w (c.handler.run dispatch env args w).2 := by
  refine of_definitions (P := fun c => (c.name = "XADD" →
      Cmd.AddsBehind env w.ctx.dbIndex args w.store.databases) →
    WholeStep env.now (c.name = "XGROUP") w (c.handler.run dispatch env args w).2) ?_ hc hname hbehind
  simp only [idNames, List.forall_mem_cons]
  let ks : Keyspace := { databases := w.store.databases }
  refine ⟨⟨⟨"XADD", -4, .write Cmd.xadd⟩, ?_, rfl, fun h =>
      @Cmd.step_xaddCmd env w.ctx.dbIndex args _ ks (h rfl)⟩,
    ⟨⟨"XDEL", -3, .write Cmd.xdel⟩, ?_, rfl, fun _ => Cmd.step_xdel env w.ctx.dbIndex args ks⟩,
    ⟨⟨"XTRIM", 4, .write Cmd.xtrim⟩, ?_, rfl, fun _ => Cmd.step_xtrim env w.ctx.dbIndex args ks⟩,
    ⟨⟨"XGROUP", -2, .whole Cmd.xgroup⟩, ?_, rfl, fun _ => Cmd.step_xgroup env args rfl w⟩,
    ⟨⟨"EXPIRE", 3, .write Cmd.expire⟩, ?_, rfl, fun _ =>
      Cmd.step_expireWith env w.ctx.dbIndex args _ ks⟩,
    ⟨⟨"EXPIREAT", 3, .write Cmd.expireat⟩, ?_, rfl, fun _ =>
      Cmd.step_expireWith env w.ctx.dbIndex args _ ks⟩,
    ⟨⟨"PEXPIRE", 3, .write Cmd.pexpire⟩, ?_, rfl, fun _ =>
      Cmd.step_expireWith env w.ctx.dbIndex args _ ks⟩,
    ⟨⟨"PEXPIREAT", 3, .write Cmd.pexpireat⟩, ?_, rfl, fun _ =>
      Cmd.step_expireWith env w.ctx.dbIndex args _ ks⟩,
    ⟨⟨"PERSIST", 2, .write Cmd.persist⟩, ?_, rfl, fun _ =>
      Cmd.step_persist env w.ctx.dbIndex args ks⟩,
    ⟨⟨"DEL", -2, .write Cmd.del⟩, ?_, rfl, fun _ => Cmd.step_del env w.ctx.dbIndex args ks⟩,
    List.forall_mem_nil _⟩
  all_goals simp [commands, Cmd.streamCommands, Cmd.genericCommands]

/-- What happens to a store: a command, or the removal of a key by a background task. -/
inductive StreamEvent
  | command (moment : Moment) (ctx : ClientContext) (name : String) (args : List Bytes)
  | remove (i : ℕ) (k : Bytes)

namespace StreamEvent

/-- What an event does. -/
def run (H : Host) (s : Store) : StreamEvent → Store
  | command m ctx name args => (dispatch (m.on H) name args ⟨s, ctx⟩).2.store
  | remove i k => { s with databases := s.databases.remove i k }

/-- The event is one of the commands above, or the removal of a key. -/
def Listed : StreamEvent → Prop
  | command _ _ name _ => name ∈ idNames
  | remove _ _ => True

/-- An `XADD` that finds an expired stream has an id above the last id of that stream. -/
def Behind (H : Host) (s : Store) : StreamEvent → Prop
  | command m ctx name args =>
    name = "XADD" → Cmd.AddsBehind (m.on H) ctx.dbIndex args s.databases
  | remove _ _ => True

/-- The key holds a stream, and the event does not put a new one in the place of an expired one. -/
def Holding (i : ℕ) (k : Bytes) (s : Store) (e : StreamEvent) : Prop :=
  (storedStream (s.databases.find i k)).isSome ∧
    ∀ m ctx args, e = command m ctx "XGROUP" args → (s.databases.liveEntry m.now i k).isSome

variable {H : Host} {s : Store} {e : StreamEvent}

/-- **One event**, at one key. -/
theorem step_run (hlisted : e.Listed) (hbehind : e.Behind H s) (i : ℕ) (k : Bytes) :
    ∃ now replaces, EntryStep now replaces (s.databases.find i k) ((e.run H s).databases.find i k) ∧
      (replaces → ∃ m ctx args, e = command m ctx "XGROUP" args ∧ m.now = now) := by
  cases e with
  | remove j k' =>
    refine ⟨0, False, ?_, False.elim⟩
    exact (onlyRemoves_remove j k' { databases := s.databases }).keyspaceStep i k
  | command m ctx name args =>
    refine ⟨m.now, name = "XGROUP", ?_, fun h => ⟨m, ctx, args, by rw [h], rfl⟩⟩
    rcases dispatchDepth_snd (m.on H) (m.on H).nesting name args ⟨s, ctx⟩ with h | ⟨c, hc, rfl, h⟩
    · rw [run, dispatch, h]
      exact .refl _
    · rw [run, dispatch, h]
      exact step_idNames hc hlisted _ (m.on H) args ⟨s, ctx⟩ hbehind i k

theorem streamsInOrder_run (hlisted : e.Listed) (hbehind : e.Behind H s)
    (hs : StreamsInOrder s.databases) : StreamsInOrder (e.run H s).databases := by
  intro i k t ht
  obtain ⟨now, replaces, hstep, -⟩ := step_run hlisted hbehind i k
  exact hstep.inOrder (hs i k) ht

theorem last_le_run (hlisted : e.Listed) (hbehind : e.Behind H s) {i : ℕ} {k : Bytes}
    (hholding : e.Holding i k s) {d t : StreamData}
    (hd : storedStream (s.databases.find i k) = some d)
    (ht : storedStream ((e.run H s).databases.find i k) = some t) : idRank d.2 ≤ idRank t.2 := by
  obtain ⟨now, replaces, hstep, hxgroup⟩ := step_run hlisted hbehind i k
  refine hstep.last_le hd ht fun hreplaces o ho => ?_
  obtain ⟨m, ctx, args, he, rfl⟩ := hxgroup hreplaces
  have hlive := hholding.2 m ctx args he
  rw [Databases.liveEntry, ho, Option.filter_some] at hlive
  by_contra hexp
  simp [Bool.not_eq_false _ ▸ hexp] at hlive

/-- The last id of a key that holds the same stream all along. -/
theorem last_le_foldl {es : List StreamEvent} {s : Store} {i : ℕ} {k : Bytes}
    (hes : Run.Along (run H) (fun s e => e.Listed ∧ e.Behind H s) s es)
    (hholding : Run.Along (run H) (fun s e => e.Holding i k s) s es) {d t : StreamData}
    (hd : storedStream (s.databases.find i k) = some d)
    (ht : storedStream ((es.foldl (run H) s).databases.find i k) = some t) :
    idRank d.2 ≤ idRank t.2 := by
  induction es generalizing s d with
  | nil =>
    obtain rfl := Option.some.inj (hd.symm.trans ht)
    exact le_rfl
  | cons e es ih =>
    obtain ⟨⟨hlisted, hbehind⟩, hes⟩ := hes
    -- the key also holds a stream after the event: there is another event, or this is the end
    obtain ⟨d', hd'⟩ : ∃ d', storedStream ((e.run H s).databases.find i k) = some d' := by
      cases es with
      | nil => exact ⟨t, ht⟩
      | cons e' es => exact Option.isSome_iff_exists.mp hholding.2.1.1
    exact (last_le_run hlisted hbehind hholding.1 hd hd').trans (ih hes hholding.2 hd' ht)

/-- **Stream ids only grow**, as long as no `XADD` goes behind the last id of an expired stream. In
every state every live stream is in order, and the last id never decreases while a key holds the
same stream. -/
theorem ids_only_grow (n : ℕ) {es : List StreamEvent}
    (hes : Run.Along (run H) (fun s e => e.Listed ∧ e.Behind H s) (Store.new n) es) :
    (∀ now i k e s, (es.foldl (run H) (Store.new n)).databases.liveEntry now i k = some e →
      Kind.stream.unwrap e.value = some s → InOrder s) ∧
    ∀ pre post, es = pre ++ post → ∀ i k d t,
      Run.Along (run H) (fun s e => e.Holding i k s) (pre.foldl (run H) (Store.new n)) post →
      storedStream ((pre.foldl (run H) (Store.new n)).databases.find i k) = some d →
      storedStream ((es.foldl (run H) (Store.new n)).databases.find i k) = some t →
      idRank d.2 ≤ idRank t.2 := by
  constructor
  · intro now i k e s he hs
    have hinv : StreamsInOrder (es.foldl (run H) (Store.new n)).databases :=
      hes.invariant (I := fun s => StreamsInOrder s.databases)
        (fun s e hs he => streamsInOrder_run he.1 he.2 hs) fun i k s hs => by
          rw [Databases.find_new] at hs
          cases hs
    refine hinv i k s ?_
    rw [(Option.filter_eq_some_iff.mp he).1]
    exact hs
  · rintro pre post rfl i k d t hholding hd ht
    rw [List.foldl_append] at ht
    exact last_le_foldl (Run.along_append.mp hes).2 hholding hd ht

section Inputs

/-- The command of a client of database 0, with the given time on the clock. -/
def plainCommand (now : UInt64) (words : List String) : StreamEvent :=
  command ⟨now, 0, 0, 1⟩ {} (words.headD "") (words.tail.map asBytes)

/-- A stream gets its first entry. -/
def firstEntry : StreamEvent := plainCommand 7 ["XADD", "k", "5-0", "f", "v"]

/-- It gets another one, loses the first, and a third one pushes the second out. -/
def trimmed : List StreamEvent :=
  [plainCommand 7 ["XADD", "k", "6-0", "f", "v"], plainCommand 8 ["XDEL", "k", "5-0"],
    plainCommand 9 ["XADD", "k", "MAXLEN", "~", "1", "9-0", "f", "w"]]

theorem trimmed_key : ∀ e ∈ firstEntry :: trimmed, ∃ m name args,
    e = command m {} name (asBytes "k" :: args) ∧ name ∈ idNames ∧ name ≠ "XGROUP" := by
  simp [firstEntry, trimmed, plainCommand, idNames]

/-- The key does not expire, so no `XADD` finds an expired stream. -/
theorem trimmed_behind : Run.Along (run Host.plain) (fun s e => e.Listed ∧ e.Behind Host.plain s)
    (Store.new 1) (firstEntry :: trimmed) := by
  have hstays : Run.Along (run Host.plain) (fun s _ => ∀ e ∈ s.databases.find 0 (asBytes "k"),
      e.expireAt = none) (Store.new 1) (firstEntry :: trimmed) := by decide +kernel
  refine (hstays.and (Run.along_of_forall trimmed_key)).mono ?_
  rintro s _ ⟨hnone, m, name, args, rfl, hlisted, -⟩
  refine ⟨hlisted, fun _ k idStr id t hk _ ⟨e, he, hexpired⟩ => ?_⟩
  obtain rfl := Option.some.inj hk
  rw [Entry.expired, hnone e he] at hexpired
  cases hexpired

theorem trimmed_holding : Run.Along (run Host.plain) (fun s e => e.Holding 0 (asBytes "k") s)
    (firstEntry.run Host.plain (Store.new 1)) trimmed := by
  have hstream : Run.Along (run Host.plain) (fun s _ =>
      (storedStream (s.databases.find 0 (asBytes "k"))).isSome)
      (firstEntry.run Host.plain (Store.new 1)) trimmed := by decide +kernel
  have hkey := fun e he => trimmed_key e (List.mem_cons_of_mem firstEntry he)
  refine (hstream.and (Run.along_of_forall hkey)).mono ?_
  rintro s _ ⟨hsome, m, name, args, rfl, -, hname⟩
  exact ⟨hsome, fun m' ctx args' h => absurd (command.inj h).2.2.1 hname⟩

theorem ids_only_grow_trimmed : InOrder ([⟨9, 0, [(asBytes "f", asBytes "w")]⟩], 9, 0) ∧
    idRank (5, 0) ≤ idRank (9, 0) := by
  obtain ⟨hordered, hlast⟩ := ids_only_grow 1 trimmed_behind
  constructor
  · have hlive : (((firstEntry :: trimmed).foldl (run Host.plain) (Store.new 1)).databases.liveEntry
        9 0 (asBytes "k")).bind (fun e => Kind.stream.unwrap e.value)
          = some ([⟨9, 0, [(asBytes "f", asBytes "w")]⟩], 9, 0) := by decide +kernel
    obtain ⟨e, he, hs⟩ := Option.bind_eq_some_iff.mp hlive
    exact hordered 9 0 (asBytes "k") e _ he hs
  · exact hlast [firstEntry] trimmed rfl 0 (asBytes "k")
      ([⟨5, 0, [(asBytes "f", asBytes "v")]⟩], 5, 0)
      ([⟨9, 0, [(asBytes "f", asBytes "w")]⟩], 9, 0) trimmed_holding (by decide +kernel)
      (by decide +kernel)

/-- A stream expires, gets an entry with a smaller id, and is made to stay. -/
def revived : List StreamEvent :=
  [plainCommand 7 ["XADD", "k", "5-0", "f", "v"], plainCommand 7 ["PEXPIREAT", "k", "8"],
    plainCommand 9 ["XADD", "k", "1-1", "f", "v"], plainCommand 9 ["PERSIST", "k"]]

/-- **An expired stream that is still there** gets entries behind its last id, and can come back. -/
theorem ids_revived : (∀ e ∈ revived, e.Listed) ∧
    ∃ e s, (revived.foldl (run Host.plain) (Store.new 1)).databases.liveEntry 9 0 (asBytes "k")
      = some e ∧ Kind.stream.unwrap e.value = some s ∧ ¬InOrder s := by
  have hids : ((revived.foldl (run Host.plain) (Store.new 1)).databases.liveEntry 9 0
      (asBytes "k")).bind (fun e => Kind.stream.unwrap e.value)
        = some ([⟨5, 0, [(asBytes "f", asBytes "v")]⟩, ⟨1, 1, [(asBytes "f", asBytes "v")]⟩],
          1, 1) := by decide +kernel
  obtain ⟨e, he, hs⟩ := Option.bind_eq_some_iff.mp hids
  refine ⟨by simp [revived, plainCommand, Listed, idNames], e, _, he, hs, fun h => ?_⟩
  have hlt := (List.pairwise_cons.mp h.ascending).1 _ (List.mem_singleton.mpr rfl)
  exact absurd hlt (by decide)

end Inputs

end StreamEvent

end VeloDB
