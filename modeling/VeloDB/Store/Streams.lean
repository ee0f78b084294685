import VeloDB.Store.Containers

/-!
# Streams and consumer groups

A stream is a value like any other. The consumer groups of a stream are not part of it: they live in
a table of their own, keyed by database, stream key and group name, and no change of the stream
touches them.
-/

namespace VeloDB

open Rust

/-- A stream id. -/
abbrev StreamId := UInt64 × UInt64

/-- `str::parse::<u64>`. -/
def parseU64 (s : String) : Option UInt64 := (parseUnsigned (2 ^ 64 - 1) s).map UInt64.ofNat

/-- `a > b` for ids: `a.0 > b.0 || (a.0 == b.0 && a.1 > b.1)`. -/
def idAfter (a b : StreamId) : Bool := b.1 < a.1 || (a.1 == b.1 && b.2 < a.2)

/-- `a >= b` for ids. -/
def idNotBefore (a b : StreamId) : Bool := b.1 < a.1 || (a.1 == b.1 && b.2 ≤ a.2)

/-- The id of an entry. -/
def StreamEntry.id (e : StreamEntry) : StreamId := (e.idMs, e.idSeq)

/-- `{}-{}`. -/
def formatId (id : StreamId) : Bytes :=
  asBytes (toString id.1.toNat ++ "-" ++ toString id.2.toNat)

/-- `parse_stream_id`. What does not parse counts as the default. -/
def parseStreamId (b : Bytes) (isStart : Bool) : StreamId :=
  let s := fromUtf8Lossy b
  if s = "-" then (0, 0)
  else if s = "+" then (UInt64.ofNat (2 ^ 64 - 1), UInt64.ofNat (2 ^ 64 - 1))
  else if s = "0" ∨ s = "0-0" then (0, 0)
  else
    let parts := splitOnce '-' s
    ((parseU64 parts.1).getD 0,
      (parts.2 >>= parseU64).getD (if isStart then 0 else UInt64.ofNat (2 ^ 64 - 1)))

namespace Databases

/-- The last id of a live stream. -/
def streamLastId? (now : UInt64) (dbs : Databases) (i : ℕ) (k : Bytes) : Option StreamId :=
  match dbs.entry now i k with
  | .ok (some e) => (Kind.stream.unwrap e.value).map Prod.snd
  | _ => none

/-- `get_stream_last_id`. -/
def getStreamLastId (now : UInt64) (dbs : Databases) (i : ℕ) (k : Bytes) : StreamId :=
  (dbs.streamLastId? now i k).getD (0, 0)

/-- `generate_stream_id`. -/
def generateStreamId (now : UInt64) (dbs : Databases) (i : ℕ) (k idStr : Bytes) :
    Except VeloDBError StreamId :=
  let id := fromUtf8Lossy idStr
  let last := dbs.getStreamLastId now i k
  if id = "*" then
    if last.1 < now then pure (now, 0) else pure (last.1, last.2 + 1)
  else match splitOnce '-' id with
    | (_, none) => throw .notInteger
    | (msText, some seqText) =>
      match parseU64 msText with
      | none => throw .notInteger
      | some ms =>
        if seqText = "*" then
          if ms = 0 ∧ last.2 = 0 then pure (1, 0)
          else if last.1 < ms then pure (ms, 0)
          else pure (ms, last.2 + 1)
        else match parseU64 seqText with
          | none => throw .notInteger
          | some seq => if ms = 0 ∧ seq = 0 then throw .streamIdTooSmall else pure (ms, seq)

/-- `stream_entries`. -/
def streamEntries (now : UInt64) (dbs : Databases) (i : ℕ) (k : Bytes) :
    Except VeloDBError (List StreamEntry) :=
  dbs.readAs .stream now i k [] Prod.fst

/-- `take(count.unwrap_or(usize::MAX))`. -/
def limitTo {α : Type} (count : Option ℕ) (l : List α) : List α :=
  match count with
  | some n => l.take n
  | none => l

/-- `Store::xrange`. -/
def xrange (now : UInt64) (dbs : Databases) (i : ℕ) (k start stop : Bytes) (count : Option ℕ) :
    Except VeloDBError (List StreamEntry) := do
  let all ← dbs.streamEntries now i k
  let s := parseStreamId start true
  let e := parseStreamId stop false
  pure (limitTo count (all.filter fun x => idNotBefore x.id s && idNotBefore e x.id))

/-- `Store::xrevrange`. -/
def xrevrange (now : UInt64) (dbs : Databases) (i : ℕ) (k stop start : Bytes) (count : Option ℕ) :
    Except VeloDBError (List StreamEntry) := do
  let all ← dbs.streamEntries now i k
  let s := parseStreamId start true
  let e := parseStreamId stop false
  pure (limitTo count (all.filter fun x => idNotBefore x.id s && idNotBefore e x.id).reverse)

/-- `Store::xlen`. -/
def xlen (now : UInt64) (dbs : Databases) (i : ℕ) (k : Bytes) : Except VeloDBError ℕ :=
  dbs.readAs .stream now i k 0 fun s => s.1.length

/-- `Store::stream_entries_after`. -/
def streamEntriesAfter (now : UInt64) (dbs : Databases) (i : ℕ) (k : Bytes) (after : StreamId)
    (count : Option ℕ) : Except VeloDBError (List StreamEntry) := do
  let all ← dbs.streamEntries now i k
  pure (limitTo count (all.filter fun e => idAfter e.id after))

/-- `Store::xread`. A key without an id of its own reads from the start. -/
def xread (now : UInt64) (dbs : Databases) (i : ℕ) (count : Option ℕ) :
    List Bytes → List StreamId → Except VeloDBError (List (Bytes × List StreamEntry))
  | [], _ => pure []
  | k :: ks, ids => do
    let entries ← dbs.streamEntriesAfter now i k (ids.headD (0, 0)) count
    let rest ← xread now dbs i count ks ids.tail
    pure (if entries = [] then rest else (k, entries) :: rest)

end Databases

namespace Keyspace

/-- `Store::xadd`. The id is checked against the live stream, and the entry is added to whatever is
at the key, expired or not. -/
def xadd (now : UInt64) (i : ℕ) (k idStr : Bytes) (fields : List (Bytes × Bytes))
    (maxlen : Option ℕ) : KeyM Bytes := do
  let id ← read fun dbs => dbs.generateStreamId now i k idStr
  let last ← read fun dbs => .ok (dbs.streamLastId? now i k)
  match last with
  | some last => if idAfter id last then pure () else throw .streamIdTooSmall
  | none => pure ()
  let gid ← upsertAs .stream i k ([], 0, 0) fun s =>
    let entries := s.1 ++ [{ idMs := id.1, idSeq := id.2, fields }]
    let entries := match maxlen with
      | some max => entries.drop (entries.length - max)
      | none => entries
    (.ok (formatId id), (entries, id.1, id.2))
  notify k
  pure gid

/-- One turn of the loop of `xdel`. -/
def xdelOne (r : ℕ × List StreamEntry) (id : String) : ℕ × List StreamEntry :=
  let target := parseStreamId (asBytes id) true
  match r.2.findIdx? fun e => e.id == target with
  | some pos => (r.1 + 1, r.2.eraseIdx pos)
  | none => r

/-- The entries are removed one by one. -/
theorem sublist_foldl_xdelOne (ids : List String) (r : ℕ × List StreamEntry) :
    (ids.foldl xdelOne r).2.Sublist r.2 := by
  induction ids generalizing r with
  | nil => exact List.Sublist.refl _
  | cons id ids ih =>
    refine (ih _).trans ?_
    rw [xdelOne]
    split
    · exact List.eraseIdx_sublist _ _
    · exact List.Sublist.refl _

/-- `Store::xdel`. -/
def xdel (now : UInt64) (i : ℕ) (k : Bytes) (ids : List String) : KeyM ℕ :=
  updateAs .stream now i k (.ok 0) fun s =>
    let r := ids.foldl xdelOne (0, s.1)
    (.ok r.1, (r.2, s.2))

/-- `Store::xtrim`. -/
def xtrim (now : UInt64) (i : ℕ) (k : Bytes) (maxlen : ℕ) : KeyM ℕ :=
  updateAs .stream now i k (.ok 0) fun s =>
    let toRemove := s.1.length - maxlen
    (.ok toRemove, (s.1.drop toRemove, s.2))

end Keyspace

/-! ### Consumer groups -/

/-- Where `XREADGROUP` starts: behind the cursor of the group, or in the history of the consumer. -/
inductive ReadGroupStart
  | new
  | history (after : StreamId)
  deriving DecidableEq, Repr

/-- `NOGROUP`. -/
def noGroup : VeloDBError := .internal "NOGROUP No such consumer group"

/-- A procedure over the tables. -/
abbrev TableM := Proc Tables Failure

namespace Tables

/-- `cg_key`. -/
def cgKey (i : ℕ) (k : Bytes) (group : String) : ℕ × Bytes × String := (i, k, group)

/-- Change a group; `missing` when there is none. -/
def updateGroup {α : Type} (i : ℕ) (k : Bytes) (group : String) (missing : Except Failure α)
    (f : ConsumerGroup → α × ConsumerGroup) : TableM α := fun t =>
  match t.consumerGroups.lookup (cgKey i k group) with
  | some g =>
    (.ok (f g).1, { t with
      consumerGroups := t.consumerGroups.insert (cgKey i k group) (f g).2 })
  | none => (missing, t)

/-- `consumer_groups.insert`. -/
def putGroup (i : ℕ) (k : Bytes) (group : String) (start : StreamId) : TableM Unit :=
  Proc.modify fun t => { t with
    consumerGroups := t.consumerGroups.insert (cgKey i k group)
      { lastDeliveredMs := start.1, lastDeliveredSeq := start.2 } }

/-- `Store::xgroup_destroy`. -/
def xgroupDestroy (i : ℕ) (k : Bytes) (group : String) : TableM Bool := fun t =>
  (.ok (t.consumerGroups.lookup (cgKey i k group)).isSome,
    { t with consumerGroups := t.consumerGroups.erase (cgKey i k group) })

/-- `Store::xgroup_create_consumer`. -/
def xgroupCreateConsumer (i : ℕ) (k : Bytes) (group consumer : String) : TableM Bool :=
  updateGroup i k group (.error (.error noGroup)) fun g =>
    (!(g.consumers.lookup consumer).isSome, { g with consumers := g.consumers.insert consumer () })

/-- `Store::xgroup_del_consumer`. -/
def xgroupDelConsumer (i : ℕ) (k : Bytes) (group consumer : String) : TableM ℕ :=
  updateGroup i k group (.error (.error noGroup)) fun g =>
    ((g.pending.filter fun p => p.2.consumer = consumer).length,
      { g with
        consumers := g.consumers.erase consumer
        pending := g.pending.filter fun p => p.2.consumer ≠ consumer })

/-- Set what a group has pending at an id. -/
def setPending (g : ConsumerGroup) (id : StreamId) (p : PendingEntry) : ConsumerGroup :=
  { g with pending := BTree.alter compareId id (fun _ => some p) g.pending }

/-- `Store::xreadgroup`. The group is released between reading its cursor and moving it. -/
def xreadgroup (now : UInt64) (dbs : Databases) (i : ℕ) (k : Bytes) (group consumer : String)
    (start : ReadGroupStart) (count : Option ℕ) (noack : Bool) : TableM (List StreamEntry) := do
  let type ← Proc.ofExcept (ofResult (dbs.getType now i k))
  if type ≠ some "stream" ∧ type.isSome then Proc.fail (.error .wrongType)
  let g ← updateGroup i k group (.error (.error noGroup)) fun g =>
    let g := { g with consumers := g.consumers.insert consumer () }
    (g, g)
  match start with
  | .new =>
    let after := (g.lastDeliveredMs, g.lastDeliveredSeq)
    let entries ← Proc.ofExcept (ofResult (dbs.streamEntriesAfter now i k after count))
    match entries.getLast? with
    | some last =>
      updateGroup i k group (.error .panic) fun g =>
        let g := { g with lastDeliveredMs := last.idMs, lastDeliveredSeq := last.idSeq }
        ((), if noack then g
          else entries.foldl (fun g e => setPending g e.id ⟨consumer, now, 1⟩) g)
      pure entries
    | none => pure entries
  | .history after =>
    let ids := Databases.limitTo count ((g.pending.filter fun p =>
      p.2.consumer = consumer ∧ idAfter p.1 after).map Prod.fst)
    let all ← Proc.ofExcept (ofResult (dbs.streamEntries now i k))
    pure (all.filter fun e => e.id ∈ ids)

/-- `Store::xack`. -/
def xack (i : ℕ) (k : Bytes) (group : String) (ids : List StreamId) : TableM ℕ :=
  updateGroup i k group (.ok 0) fun g =>
    ids.foldl (fun (r : ℕ × ConsumerGroup) id =>
      if (BTree.get? compareId id r.2.pending).isSome then
        (r.1 + 1, { r.2 with pending := BTree.alter compareId id (fun _ => none) r.2.pending })
      else r) (0, g)

/-- `PendingSummary`. -/
structure PendingSummary where
  count : ℕ := 0
  minId : Option StreamId := none
  maxId : Option StreamId := none
  perConsumer : List (String × ℕ) := []

/-- `Store::xpending_summary`. -/
def xpendingSummary (i : ℕ) (k : Bytes) (group : String) (t : Tables) :
    Except Failure PendingSummary :=
  match t.consumerGroups.lookup (cgKey i k group) with
  | some g =>
    let perConsumer : HashMap String ℕ := g.pending.foldl
      (fun m p => m.insert p.2.consumer ((m.lookup p.2.consumer).getD 0 + 1)) ∅
    .ok {
      count := g.pending.length
      minId := g.pending.head?.map Prod.fst
      maxId := g.pending.getLast?.map Prod.fst
      perConsumer := perConsumer.pairs }
  | none => .error (.error noGroup)

/-- `PendingDetail`. -/
structure PendingDetail where
  id : StreamId
  consumer : String
  idleMs : ℕ
  deliveryCount : ℕ

/-- `Store::xpending_range`. -/
def xpendingRange (now : UInt64) (i : ℕ) (k : Bytes) (group : String) (start stop : StreamId)
    (count : ℕ) (consumer : Option String) (t : Tables) : Except Failure (List PendingDetail) :=
  match t.consumerGroups.lookup (cgKey i k group) with
  | some g => .ok (((g.pending.filter fun p =>
      compareId p.1 start ≠ .lt ∧ compareId p.1 stop ≠ .gt ∧
        ∀ c ∈ consumer, p.2.consumer = c).take count).map fun p =>
          { id := p.1, consumer := p.2.consumer, idleMs := now.toNat - p.2.deliveryTimeMs.toNat,
            deliveryCount := p.2.deliveryCount })
  | none => .error (.error noGroup)

/-- One turn of the loop of `xclaim`. -/
def claimOne (now : UInt64) (consumer : String) (minIdleMs : UInt64)
    (r : List StreamId × ConsumerGroup) (id : StreamId) : List StreamId × ConsumerGroup :=
  match BTree.get? compareId id r.2.pending with
  | some p =>
    if minIdleMs.toNat ≤ now.toNat - p.deliveryTimeMs.toNat then
      (r.1 ++ [id], setPending r.2 id ⟨consumer, now, p.deliveryCount + 1⟩)
    else r
  | none => r

/-- `Store::xclaim`. -/
def xclaim (now : UInt64) (dbs : Databases) (i : ℕ) (k : Bytes) (group consumer : String)
    (minIdleMs : UInt64) (ids : List StreamId) (justid : Bool) : TableM (List StreamEntry) := do
  let claimed ← updateGroup i k group (.error (.error noGroup)) fun g =>
    ids.foldl (claimOne now consumer minIdleMs)
      ([], { g with consumers := g.consumers.insert consumer () })
  if justid ∨ claimed = [] then
    pure (claimed.map fun id => { idMs := id.1, idSeq := id.2, fields := [] })
  else
    let all ← Proc.ofExcept (ofResult (dbs.streamEntries now i k))
    pure (all.filter fun e => e.id ∈ claimed)

end Tables

end VeloDB
