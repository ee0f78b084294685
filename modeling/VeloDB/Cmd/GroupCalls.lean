import VeloDB.Cmd.StreamIds
import VeloDB.Cmd.Effects

/-!
# Calls on consumer groups

What the methods of the store do to the registry of consumer groups. `GroupStep` says it for one
group, with one constructor for each thing that can happen, and a run is a list of calls between
which anything else may happen. Every command, those that run other commands too, is such a run.

## Main definitions

* `GroupCall`, `StreamWrite` — the calls, with their arguments
* `GroupStep` — what a call does to the group that it names
* `GroupEvent` — the steps of a run

## Main results

* `GroupCall.step` — every call is a `GroupStep`
* `traced_dispatch` — every command is a run of calls
-/

namespace VeloDB

open Rust Proc

/-! ### The registry -/

namespace Tables

variable {t : Tables} {i j : ℕ} {k k' : Bytes} {group group' : String} {g : ConsumerGroup}

/-- The consumer group of a name. -/
def group? (t : Tables) (i : ℕ) (k : Bytes) (group : String) : Option ConsumerGroup :=
  t.consumerGroups.lookup (cgKey i k group)

/-- Register a group. -/
def setGroup (t : Tables) (i : ℕ) (k : Bytes) (group : String) (g : ConsumerGroup) : Tables :=
  { t with consumerGroups := t.consumerGroups.insert (cgKey i k group) g }

@[simp] theorem group?_setGroup_self : (t.setGroup i k group g).group? i k group = some g :=
  AList.lookup_insert _

theorem group?_setGroup_of_ne (h : (j, k', group') ≠ (i, k, group)) :
    (t.setGroup i k group g).group? j k' group' = t.group? j k' group' :=
  AList.lookup_insert_ne h

@[simp] theorem setGroup_setGroup (g' : ConsumerGroup) :
    (t.setGroup i k group g).setGroup i k group g' = t.setGroup i k group g' := by
  simp only [setGroup, AList.insert_insert]

/-- **Everything an `updateGroup` can do.** -/
theorem updateGroup_cases {α : Type} (i : ℕ) (k : Bytes) (group : String)
    (missing : Except Failure α) (f : ConsumerGroup → α × ConsumerGroup) (t : Tables) :
    t.group? i k group = none ∧ updateGroup i k group missing f t = (missing, t) ∨
    ∃ g, t.group? i k group = some g ∧
      updateGroup i k group missing f t = (.ok (f g).1, t.setGroup i k group (f g).2) := by
  rw [updateGroup, ← group?]
  cases hg : t.group? i k group with
  | none => exact Or.inl ⟨rfl, rfl⟩
  | some g => exact Or.inr ⟨g, rfl, rfl⟩

theorem updateGroup_of_some {α : Type} (hg : t.group? i k group = some g)
    (missing : Except Failure α) (f : ConsumerGroup → α × ConsumerGroup) :
    updateGroup i k group missing f t = (.ok (f g).1, t.setGroup i k group (f g).2) := by
  rw [updateGroup, ← group?, hg]
  rfl

theorem updateGroup_of_none {α : Type} (hg : t.group? i k group = none)
    (missing : Except Failure α) (f : ConsumerGroup → α × ConsumerGroup) :
    updateGroup i k group missing f t = (missing, t) := by
  rw [updateGroup, ← group?, hg]

/-- A group with a consumer more. -/
def withConsumer (g : ConsumerGroup) (consumer : String) : ConsumerGroup :=
  { g with consumers := g.consumers.insert consumer () }

/-- The cursor of a group. -/
def cursor (g : ConsumerGroup) : StreamId := (g.lastDeliveredMs, g.lastDeliveredSeq)

/-- The entries behind the cursor of a group. -/
def newPage (g : ConsumerGroup) (count : Option ℕ) (all : List StreamEntry) : List StreamEntry :=
  Databases.limitTo count (all.filter fun e => idAfter e.id (cursor g))

/-- A group whose cursor is behind a page, with the entries of the page pending. -/
def deliver (now : UInt64) (consumer : String) (noack : Bool) (page : List StreamEntry)
    (g : ConsumerGroup) : ConsumerGroup :=
  match page.getLast? with
  | some last =>
    let g := { withConsumer g consumer with
      lastDeliveredMs := last.idMs, lastDeliveredSeq := last.idSeq }
    if noack then g else page.foldl (fun g e => setPending g e.id ⟨consumer, now, 1⟩) g
  | none => withConsumer g consumer

/-- One turn of the loop of `xack`. -/
def ackOne (r : ℕ × ConsumerGroup) (id : StreamId) : ℕ × ConsumerGroup :=
  if (BTree.get? compareId id r.2.pending).isSome then
    (r.1 + 1, { r.2 with pending := BTree.alter compareId id (fun _ => none) r.2.pending })
  else r

/-! ### `xreadgroup`, section by section -/

/-- The first critical section: the consumer joins the group, and the cursor is read. -/
def joinGroup (i : ℕ) (k : Bytes) (group consumer : String) : TableM ConsumerGroup :=
  updateGroup i k group (.error (.error noGroup)) fun g =>
    (withConsumer g consumer, withConsumer g consumer)

/-- The last critical section: the cursor is moved behind what has been read. -/
def moveCursor (now : UInt64) (i : ℕ) (k : Bytes) (group consumer : String) (noack : Bool)
    (entries : List StreamEntry) (last : StreamEntry) : TableM Unit :=
  updateGroup i k group (.error .panic) fun g =>
    let g := { g with lastDeliveredMs := last.idMs, lastDeliveredSeq := last.idSeq }
    ((), if noack then g
      else entries.foldl (fun g e => setPending g e.id ⟨consumer, now, 1⟩) g)

/-- The cursor is moved only when something has been read. -/
def finishRead (now : UInt64) (i : ℕ) (k : Bytes) (group consumer : String) (noack : Bool)
    (entries : List StreamEntry) : TableM (List StreamEntry) :=
  match entries.getLast? with
  | some last => moveCursor now i k group consumer noack entries last >>= fun _ => pure entries
  | none => pure entries

section Read

variable (now : UInt64) (dbs : Databases) (i : ℕ) (k : Bytes) (group consumer : String)
  (count : Option ℕ) (noack : Bool) (t : Tables)

/-- When the key holds no value of another type, reading new entries is three sections. -/
theorem xreadgroup_new_eq {type : Option String} (htype : ofResult (dbs.getType now i k) = .ok type)
    (hok : ¬(type ≠ some "stream" ∧ type.isSome)) :
    xreadgroup now dbs i k group consumer .new count noack t
      = (joinGroup i k group consumer >>= fun g =>
          Proc.ofExcept (ofResult (dbs.streamEntriesAfter now i k (cursor g) count)) >>=
            finishRead now i k group consumer noack) t := by
  rw [xreadgroup, htype]
  show Proc.andThen _ _ _ = _
  rw [Proc.andThen, Proc.ofExcept_run]
  dsimp only
  rw [if_neg hok]
  rfl

/-- The last section, after the first. -/
theorem finishRead_of_some (page : List StreamEntry) (g : ConsumerGroup) :
    finishRead now i k group consumer noack page (t.setGroup i k group (withConsumer g consumer))
      = (.ok page, t.setGroup i k group (deliver now consumer noack page g)) := by
  rw [finishRead, deliver]
  cases page.getLast? with
  | none => rfl
  | some last =>
    have hmove := updateGroup_of_some (t := t.setGroup i k group (withConsumer g consumer))
      group?_setGroup_self (.error .panic) fun g =>
        let g := { g with lastDeliveredMs := last.idMs, lastDeliveredSeq := last.idSeq }
        ((), if noack then g else page.foldl (fun g e => setPending g e.id ⟨consumer, now, 1⟩) g)
    rw [setGroup_setGroup] at hmove
    exact Proc.bind_ok hmove

/-- What `xreadgroup` looks at first. -/
theorem streamType_cases :
    (∃ e, ofResult (dbs.getType now i k) = .error (.error e)) ∨
    ∃ type, ofResult (dbs.getType now i k) = .ok type ∧
      (type ≠ some "stream" ∧ type.isSome ∨
        ¬(type ≠ some "stream" ∧ type.isSome) ∧ ∃ all, dbs.streamEntries now i k = .ok all) := by
  by_cases hi : i < dbs.length
  · have htype : dbs.getType now i k
        = .ok ((dbs.liveEntry now i k).map fun e => e.value.typeName) := by
      rw [Databases.getType, Databases.entry_eq hi]
      rfl
    rw [htype]
    refine Or.inr ⟨_, rfl, ?_⟩
    cases he : dbs.liveEntry now i k with
    | none =>
      refine Or.inr ⟨by simp, [], ?_⟩
      exact Databases.readAs_none hi he [] Prod.fst
    | some e =>
      by_cases hstream : e.value.typeName = "stream"
      · obtain ⟨s, hs⟩ := unwrap_of_typeName hstream
        exact Or.inr ⟨by simp [hstream], s.1, Databases.readAs_some he hs [] Prod.fst⟩
      · exact Or.inl (by simp [hstream])
  · rw [Databases.getType, Databases.entry, Databases.db,
      List.getElem?_eq_none (Nat.le_of_not_lt hi)]
    exact Or.inl ⟨_, rfl⟩

/-- **Everything that reading new entries can do.** -/
theorem xreadgroup_new_cases :
    (∃ e, xreadgroup now dbs i k group consumer .new count noack t = (.error (.error e), t)) ∨
    ∃ g all, t.group? i k group = some g ∧ dbs.streamEntries now i k = .ok all ∧
      xreadgroup now dbs i k group consumer .new count noack t
        = (.ok (newPage g count all),
          t.setGroup i k group (deliver now consumer noack (newPage g count all) g)) := by
  rcases streamType_cases now dbs i k with ⟨e, htype⟩ | ⟨type, htype, hwrong | ⟨hok, all, hall⟩⟩
  · refine Or.inl ⟨e, ?_⟩
    rw [xreadgroup, htype]
    rfl
  · refine Or.inl ⟨.wrongType, ?_⟩
    rw [xreadgroup, htype]
    show Proc.andThen _ _ _ = _
    rw [Proc.andThen, Proc.ofExcept_run]
    dsimp only
    rw [if_pos hwrong]
    rfl
  · rw [xreadgroup_new_eq now dbs i k group consumer count noack t htype hok]
    cases hg : t.group? i k group with
    | none => exact Or.inl ⟨noGroup, Proc.bind_error (updateGroup_of_none hg _ _)⟩
    | some g =>
      refine Or.inr ⟨g, all, rfl, hall, ?_⟩
      have hpage : dbs.streamEntriesAfter now i k (cursor (withConsumer g consumer)) count
          = .ok (newPage g count all) := by
        rw [Databases.streamEntriesAfter, hall]
        rfl
      have hjoin : joinGroup i k group consumer t
          = (.ok (withConsumer g consumer), t.setGroup i k group (withConsumer g consumer)) :=
        updateGroup_of_some hg _ _
      rw [Proc.bind_ok hjoin, hpage]
      exact finishRead_of_some now i k group consumer noack t (newPage g count all) g

/-- Reading the history of a consumer lets it join the group. -/
theorem xreadgroup_history_cases (after : StreamId) :
    (xreadgroup now dbs i k group consumer (.history after) count noack t).2 = t ∨
    ∃ g, t.group? i k group = some g ∧
      (xreadgroup now dbs i k group consumer (.history after) count noack t).2
        = t.setGroup i k group (withConsumer g consumer) := by
  have htail : ∀ g : ConsumerGroup, Moves Eq (do
      let ids := Databases.limitTo count ((g.pending.filter fun p =>
        p.2.consumer = consumer ∧ idAfter p.1 after).map Prod.fst)
      let all ← Proc.ofExcept (ofResult (dbs.streamEntries now i k))
      pure (all.filter fun e => e.id ∈ ids) : TableM (List StreamEntry)) :=
    fun g => (moves_ofExcept _).bind fun _ => moves_pure _
  have hrun : ∀ s, ((joinGroup i k group consumer >>= fun g => do
      let ids := Databases.limitTo count ((g.pending.filter fun p =>
        p.2.consumer = consumer ∧ idAfter p.1 after).map Prod.fst)
      let all ← Proc.ofExcept (ofResult (dbs.streamEntries now i k))
      pure (all.filter fun e => e.id ∈ ids)) s).2 = (joinGroup i k group consumer s).2 := by
    intro s
    exact (Moves.bind_eq (R := fun a b => b = (joinGroup i k group consumer a).2)
      (fun _ => rfl) htail s)
  rcases streamType_cases now dbs i k with ⟨e, htype⟩ | ⟨type, htype, hwrong | ⟨hok, -⟩⟩
  · refine Or.inl ?_
    rw [xreadgroup, htype]
    rfl
  · refine Or.inl ?_
    rw [xreadgroup, htype]
    show (Proc.andThen _ _ _).2 = _
    rw [Proc.andThen, Proc.ofExcept_run]
    dsimp only
    rw [if_pos hwrong]
    rfl
  · have hstart : (xreadgroup now dbs i k group consumer (.history after) count noack t).2
        = (joinGroup i k group consumer t).2 := by
      rw [← hrun t, xreadgroup, htype]
      show (Proc.andThen _ _ _).2 = _
      rw [Proc.andThen, Proc.ofExcept_run]
      dsimp only
      rw [if_neg hok]
      rfl
    rw [hstart]
    rcases updateGroup_cases i k group (.error (.error noGroup))
      (fun g => (withConsumer g consumer, withConsumer g consumer)) t with ⟨-, h⟩ | ⟨g, hg, h⟩
    · exact Or.inl (congrArg Prod.snd h)
    · exact Or.inr ⟨g, hg, congrArg Prod.snd h⟩

end Read

/-- `xclaim` changes the group first and reads the stream afterwards. -/
theorem xclaim_snd (now : UInt64) (dbs : Databases) (i : ℕ) (k : Bytes) (group consumer : String)
    (minIdleMs : UInt64) (ids : List StreamId) (justid : Bool) (t : Tables) :
    (xclaim now dbs i k group consumer minIdleMs ids justid t).2
      = (updateGroup i k group (.error (.error noGroup)) (fun g =>
          ids.foldl (claimOne now consumer minIdleMs) ([], withConsumer g consumer)) t).2 := by
  refine Moves.bind_eq (R := fun a b => b = (updateGroup i k group (.error (.error noGroup))
    (fun g => ids.foldl (claimOne now consumer minIdleMs) ([], withConsumer g consumer)) a).2)
    (fun _ => rfl) (fun claimed => ?_) t
  split
  · exact moves_pure _
  · exact (moves_ofExcept _).bind fun _ => moves_pure _

end Tables

/-! ### The calls -/

/-- A call that works on a consumer group. -/
inductive GroupCall
  | create (startId : Bytes) (mkstream : Bool)
  | destroy
  | createConsumer (consumer : String)
  | delConsumer (consumer : String)
  | read (consumer : String) (start : ReadGroupStart) (count : Option ℕ) (noack : Bool)
  | ack (ids : List StreamId)
  | claim (consumer : String) (minIdleMs : UInt64) (ids : List StreamId) (justid : Bool)

/-- Execute a call. -/
def GroupCall.run (now : UInt64) (i : ℕ) (k : Bytes) (group : String) (s : Store) :
    GroupCall → Store
  | create startId mkstream => (xgroupCreate now i k group startId mkstream ⟨s, {}⟩).2.store
  | destroy => { s with tables := (Tables.xgroupDestroy i k group s.tables).2 }
  | createConsumer consumer =>
    { s with tables := (Tables.xgroupCreateConsumer i k group consumer s.tables).2 }
  | delConsumer consumer =>
    { s with tables := (Tables.xgroupDelConsumer i k group consumer s.tables).2 }
  | read consumer start count noack => { s with
      tables := (Tables.xreadgroup now s.databases i k group consumer start count noack s.tables).2 }
  | ack ids => { s with tables := (Tables.xack i k group ids s.tables).2 }
  | claim consumer minIdleMs ids justid => { s with
      tables := (Tables.xclaim now s.databases i k group consumer minIdleMs ids justid s.tables).2 }

/-- The call makes the group anew, or removes it. -/
def GroupCall.Resets : GroupCall → Prop
  | create .. | destroy => True
  | createConsumer _ | delConsumer _ | read .. | ack _ | claim .. => False

section Steps

open Tables

/-- A group without one of its consumers. -/
def withoutConsumer (g : ConsumerGroup) (consumer : String) : ConsumerGroup :=
  { g with
    consumers := g.consumers.erase consumer
    pending := g.pending.filter fun p => p.2.consumer ≠ consumer }

/-- A new group. -/
def newGroup (start : StreamId) : ConsumerGroup :=
  { lastDeliveredMs := start.1, lastDeliveredSeq := start.2 }

/-- What a call does to the group it names. The databases are those before and after the call. -/
inductive GroupStep (now : UInt64) (dbs dbs' : Databases) (i : ℕ) (k : Bytes) :
    GroupCall → Option ConsumerGroup → Option ConsumerGroup → Prop
  /-- There is no such group, or the call is refused. -/
  | refused {c : GroupCall} (hc : c ≠ .destroy) (o : Option ConsumerGroup) :
    GroupStep now dbs dbs' i k c o o
  | created (startId : Bytes) (mkstream : Bool) (o : Option ConsumerGroup)
    (hlive : ∃ e s, dbs'.liveEntry now i k = some e ∧ Kind.stream.unwrap e.value = some s) :
    GroupStep now dbs dbs' i k (.create startId mkstream) o
      (some (newGroup (groupStart now dbs' i k startId)))
  | destroyed (o : Option ConsumerGroup) : GroupStep now dbs dbs' i k .destroy o none
  | consumerCreated (g : ConsumerGroup) (consumer : String) :
    GroupStep now dbs dbs' i k (.createConsumer consumer) (some g) (some (withConsumer g consumer))
  | consumerDeleted (g : ConsumerGroup) (consumer : String) :
    GroupStep now dbs dbs' i k (.delConsumer consumer) (some g) (some (withoutConsumer g consumer))
  | delivered (g : ConsumerGroup) (consumer : String) (count : Option ℕ) (noack : Bool)
    {all : List StreamEntry} (hall : dbs.streamEntries now i k = .ok all) :
    GroupStep now dbs dbs' i k (.read consumer .new count noack) (some g)
      (some (deliver now consumer noack (newPage g count all) g))
  | reread (g : ConsumerGroup) (consumer : String) (after : StreamId) (count : Option ℕ)
    (noack : Bool) :
    GroupStep now dbs dbs' i k (.read consumer (.history after) count noack) (some g)
      (some (withConsumer g consumer))
  | acked (g : ConsumerGroup) (ids : List StreamId) :
    GroupStep now dbs dbs' i k (.ack ids) (some g) (some (ids.foldl ackOne (0, g)).2)
  | claimed (g : ConsumerGroup) (consumer : String) (minIdleMs : UInt64) (ids : List StreamId)
    (justid : Bool) :
    GroupStep now dbs dbs' i k (.claim consumer minIdleMs ids justid) (some g)
      (some (ids.foldl (claimOne now consumer minIdleMs) ([], withConsumer g consumer)).2)

/-- A call that changes the group, if there is one. -/
theorem step_updateGroup {α : Type} {now : UInt64} {dbs dbs' : Databases} {i : ℕ} {k : Bytes}
    {group : String} {c : GroupCall} {t t' : Tables} {missing : Except Failure α}
    {f : ConsumerGroup → α × ConsumerGroup} (ht' : t' = (updateGroup i k group missing f t).2)
    (hc : c ≠ .destroy) (hf : ∀ g, GroupStep now dbs dbs' i k c (some g) (some (f g).2)) :
    GroupStep now dbs dbs' i k c (t.group? i k group) (t'.group? i k group) := by
  rcases updateGroup_cases i k group missing f t with ⟨hg, h⟩ | ⟨g, hg, h⟩
  · rw [ht', h]
    exact .refused hc _
  · rw [ht', h, group?_setGroup_self, hg]
    exact hf g

/-- **Every call** is one of these steps. -/
theorem GroupCall.step (now : UInt64) (i : ℕ) (k : Bytes) (group : String) (s : Store)
    (c : GroupCall) :
    GroupStep now s.databases (c.run now i k group s).databases i k c (s.tables.group? i k group)
      ((c.run now i k group s).tables.group? i k group) := by
  cases c with
  | create startId mkstream =>
    rcases xgroupCreate_cases now i k group startId mkstream ⟨s, {}⟩ with ⟨e, h⟩ | ⟨dbs, hdbs, h⟩
    · rw [run, h]
      exact .refused GroupCall.noConfusion _
    · rw [run, h]
      have hgroup : ((putGroup i k group (groupStart now dbs i k startId) s.tables).2).group? i k group
          = some (newGroup (groupStart now dbs i k startId)) := group?_setGroup_self
      dsimp only
      rw [hgroup]
      refine .created startId mkstream _ ?_
      rcases hdbs with ⟨rfl, he⟩ | ⟨hi, -, rfl⟩
      · exact he
      · exact ⟨{ value := .stream [] 0 0 }, ([], 0, 0), liveEntry_put_self hi k _, rfl⟩
  | destroy =>
    have hgone : (xgroupDestroy i k group s.tables).2.group? i k group = none :=
      AList.lookup_erase _ _
    rw [run]
    dsimp only
    rw [hgone]
    exact .destroyed _
  | createConsumer consumer =>
    exact step_updateGroup rfl GroupCall.noConfusion fun g => .consumerCreated g consumer
  | delConsumer consumer =>
    exact step_updateGroup rfl GroupCall.noConfusion fun g => .consumerDeleted g consumer
  | read consumer start count noack =>
    rw [run]
    cases start with
    | new =>
      rcases xreadgroup_new_cases now s.databases i k group consumer count noack s.tables with
        ⟨e, h⟩ | ⟨g, all, hg, hall, h⟩
      · rw [h]
        exact .refused GroupCall.noConfusion _
      · rw [h]
        dsimp only
        rw [group?_setGroup_self, hg]
        exact .delivered g consumer count noack hall
    | history after =>
      rcases xreadgroup_history_cases now s.databases i k group consumer count noack s.tables after
        with h | ⟨g, hg, h⟩
      · rw [h]
        exact .refused GroupCall.noConfusion _
      · rw [h]
        dsimp only
        rw [group?_setGroup_self, hg]
        exact .reread g consumer after count noack
  | ack ids => exact step_updateGroup rfl GroupCall.noConfusion fun g => .acked g ids
  | claim consumer minIdleMs ids justid =>
    exact step_updateGroup (xclaim_snd ..) GroupCall.noConfusion
      fun g => .claimed g consumer minIdleMs ids justid

/-- The groups of all other names are as before. -/
def SameGroupsOff (i : ℕ) (k : Bytes) (group : String) (t t' : Tables) : Prop :=
  ∀ j k' group', (j, k', group') ≠ (i, k, group) → t'.group? j k' group' = t.group? j k' group'

theorem sameGroupsOff_updateGroup {α : Type} (i : ℕ) (k : Bytes) (group : String)
    (missing : Except Failure α) (f : ConsumerGroup → α × ConsumerGroup) :
    Moves (SameGroupsOff i k group) (updateGroup i k group missing f) := by
  intro t j k' group' hne
  rcases updateGroup_cases i k group missing f t with ⟨-, h⟩ | ⟨g, -, h⟩
  · rw [h]
  · rw [h]
    exact group?_setGroup_of_ne hne

/-- A call leaves the other groups alone. -/
theorem GroupCall.sameGroupsOff (now : UInt64) (i : ℕ) (k : Bytes) (group : String) (s : Store)
    (c : GroupCall) : SameGroupsOff i k group s.tables (c.run now i k group s).tables := by
  intro j k' group' hne
  cases c with
  | create startId mkstream =>
    rcases xgroupCreate_cases now i k group startId mkstream ⟨s, {}⟩ with ⟨e, h⟩ | ⟨dbs, -, h⟩
    · rw [run, h]
    · rw [run, h]
      exact group?_setGroup_of_ne hne
  | destroy => exact AList.lookup_erase_ne hne
  | createConsumer consumer => exact sameGroupsOff_updateGroup i k group _ _ s.tables j k' group' hne
  | delConsumer consumer => exact sameGroupsOff_updateGroup i k group _ _ s.tables j k' group' hne
  | read consumer start count noack =>
    rw [run]
    cases start with
    | new =>
      rcases xreadgroup_new_cases now s.databases i k group consumer count noack s.tables with
        ⟨e, h⟩ | ⟨g, all, -, -, h⟩
      · rw [h]
      · rw [h]
        exact group?_setGroup_of_ne hne
    | history after =>
      rcases xreadgroup_history_cases now s.databases i k group consumer count noack s.tables after
        with h | ⟨g, -, h⟩
      · rw [h]
      · rw [h]
        exact group?_setGroup_of_ne hne
  | ack ids => exact sameGroupsOff_updateGroup i k group _ _ s.tables j k' group' hne
  | claim consumer minIdleMs ids justid =>
    rw [run, xclaim_snd]
    exact sameGroupsOff_updateGroup i k group _ _ s.tables j k' group' hne

/-- A call leaves the databases alone, unless it makes a stream for its group. -/
theorem GroupCall.databases_run (now : UInt64) (i : ℕ) (k : Bytes) (group : String) (s : Store)
    (c : GroupCall) : (c.run now i k group s).databases = s.databases ∨
      i < s.databases.length ∧ s.databases.liveEntry now i k = none ∧
        (c.run now i k group s).databases = s.databases.put i k { value := .stream [] 0 0 } := by
  cases c with
  | create startId mkstream =>
    rcases xgroupCreate_cases now i k group startId mkstream ⟨s, {}⟩ with ⟨e, h⟩ | ⟨dbs, hdbs, h⟩
    · rw [run, h]
      exact Or.inl rfl
    · rw [run, h]
      rcases hdbs with ⟨rfl, -⟩ | ⟨hi, hnone, rfl⟩
      · exact Or.inl rfl
      · exact Or.inr ⟨hi, hnone, rfl⟩
  | destroy | createConsumer | delConsumer | read | ack | claim => exact Or.inl rfl

end Steps

/-- Creating a group has nothing to do with the client. -/
theorem xgroupCreate_ctx (now : UInt64) (i : ℕ) (k : Bytes) (group : String) (startId : Bytes)
    (mkstream : Bool) (w : Whole) :
    (xgroupCreate now i k group startId mkstream ⟨w.store, {}⟩).2.store
      = (xgroupCreate now i k group startId mkstream w).2.store := by
  rw [xgroupCreate, Proc.get_bind, Proc.get_bind]
  dsimp only
  cases ofResult (w.store.databases.getType now i k) with
  | error e => rfl
  | ok type =>
    cases type with
    | none => cases mkstream <;> rfl
    | some t =>
      rw [lift_ok_bind]
      dsimp only
      split <;> rfl

/-! ### Runs -/

/-- A call that works on a stream. -/
inductive StreamWrite
  | xadd (idStr : Bytes) (fields : List (Bytes × Bytes)) (maxlen : Option ℕ)
  | xdel (ids : List String)
  | xtrim (maxlen : ℕ)

/-- Execute it. -/
def StreamWrite.run (now : UInt64) (i : ℕ) (k : Bytes) (ks : Keyspace) : StreamWrite → Keyspace
  | xadd idStr fields maxlen => (Keyspace.xadd now i k idStr fields maxlen ks).2
  | xdel ids => (Keyspace.xdel now i k ids ks).2
  | xtrim maxlen => (Keyspace.xtrim now i k maxlen ks).2

/-- What is stored at a key, or an empty stream. -/
def entryOrNew (dbs : Databases) (i : ℕ) (k : Bytes) : Entry :=
  (dbs.find i k).getD { value := .stream [] 0 0 }

/-- **Everything a call on a stream can do.** A live stream grows; a new one is in order. -/
theorem StreamWrite.run_cases (now : UInt64) (i : ℕ) (k : Bytes) (ks : Keyspace)
    (w : StreamWrite) : (w.run now i k ks).databases = ks.databases ∨
    ∃ s t, i < ks.databases.length ∧
      Kind.stream.unwrap (entryOrNew ks.databases i k).value = some s ∧
      (ks.databases.find i k = none → InOrder t) ∧
      (∀ e, ks.databases.find i k = some e → e.expired now = false → Grown s t) ∧
      (w.run now i k ks).databases = ks.databases.put i k
        { entryOrNew ks.databases i k with value := Kind.stream.wrap t } := by
  have hremoves : ∀ {β : Type} {f : StreamData → Except Failure β × StreamData} {missing},
      (∀ s, ∃ es, (f s).2 = (es, s.2) ∧ es.Sublist s.1) →
      (Keyspace.updateAs .stream now i k missing f ks).2.databases = ks.databases ∨
      ∃ s t, i < ks.databases.length ∧
        Kind.stream.unwrap (entryOrNew ks.databases i k).value = some s ∧
        (ks.databases.find i k = none → InOrder t) ∧
        (∀ e, ks.databases.find i k = some e → e.expired now = false → Grown s t) ∧
        (Keyspace.updateAs .stream now i k missing f ks).2.databases = ks.databases.put i k
          { entryOrNew ks.databases i k with value := Kind.stream.wrap t } := by
    intro β f missing hf
    rcases Keyspace.removes_cases hf now i k missing ks with h | ⟨e, s, es, hi, he, hs, hsub, h⟩
    · exact Or.inl (congrArg Keyspace.databases h)
    · have hfind := (Option.filter_eq_some_iff.mp he).1
      have hentry : entryOrNew ks.databases i k = e := by
        rw [entryOrNew, hfind]
        rfl
      refine Or.inr ⟨s, (es, s.2), hi, by rwa [hentry], fun hnone => ?_, fun _ _ _ => .of_sublist hsub,
        by rw [h, hentry]⟩
      rw [hnone] at hfind
      cases hfind
  cases w with
  | xadd idStr fields maxlen =>
    rcases Keyspace.xadd_cases now i k idStr fields maxlen ks with ⟨e, h⟩ |
      ⟨id, s, hi, -, hs, hlive, h⟩
    · exact Or.inl (by rw [run, h])
    · refine Or.inr ⟨s, _, hi, hs, fun hnone => ?_, fun e he hexp => ?_, by rw [run, h]; rfl⟩
      · rw [hnone] at hs
        obtain rfl := Option.some.inj hs
        exact inOrder_addEntry id fields maxlen _
      · refine .addEntry (hlive e ?_) fields maxlen
        rw [Databases.liveEntry, he, Option.filter_some, hexp]
        rfl
  | xdel ids =>
    exact hremoves fun s => ⟨_, rfl, Keyspace.sublist_foldl_xdelOne _ (0, s.1)⟩
  | xtrim maxlen => exact hremoves fun s => ⟨_, rfl, List.drop_sublist _ _⟩

/-- A step of a run: a call on a group, a call on a stream, or anything else. -/
inductive GroupEvent
  | call (now : UInt64) (i : ℕ) (k : Bytes) (group : String) (c : GroupCall)
  | write (now : UInt64) (i : ℕ) (k : Bytes) (w : StreamWrite)
  | other (s : Store)

/-- What a step does. -/
def GroupEvent.run (s : Store) : GroupEvent → Store
  | call now i k group c => c.run now i k group s
  | write now i k w =>
    let ks := w.run now i k { databases := s.databases }
    { databases := ks.databases, tables := ks.notified.foldl Tables.notify s.tables }
  | other s' => s'

/-- What is no call leaves the registry of groups alone. -/
def GroupEvent.KeepsGroups (s : Store) : GroupEvent → Prop
  | other s' => s'.tables.consumerGroups = s.tables.consumerGroups
  | call .. | write .. => True

theorem consumerGroups_notify (keys : List Bytes) (t : Tables) :
    (keys.foldl Tables.notify t).consumerGroups = t.consumerGroups := by
  induction keys generalizing t with
  | nil => rfl
  | cons key keys ih =>
    rw [List.foldl_cons, ih, Tables.notify]
    split <;> rfl

/-! ### The calls of a command -/

/-- A relation between tables that does not look at the clients that wait, the subscribers, the
scripts and the scan cursors. -/
structure LooksPast (Q : Tables → Tables → Prop) : Prop where
  waits : ∀ t r l, Q t { t with blockRegistry := r, woken := l }
  pubSub : ∀ t r, Q t { t with pubsubRegistry := r }
  scripts : ∀ t m, Q t { t with luaScripts := m }
  cursors : ∀ t m n, Q t { t with scanCursors := m, nextScanCursor := n }

/-- The relation, of a command that only reads the databases. -/
def OnSide (Q : Tables → Tables → Prop) (s s' : Side) : Prop := Q s.tables s'.tables

/-- The relation, of a command on everything. -/
def OnWhole (Q : Tables → Tables → Prop) (w w' : Whole) : Prop := Q w.store.tables w'.store.tables

section LooksPast

variable {Q : Tables → Tables → Prop} [Std.Refl Q] [IsTrans Tables Q]

instance : Std.Refl (OnSide Q) := ⟨fun s => refl_of Q s.tables⟩

instance : IsTrans Side (OnSide Q) := ⟨fun _ _ _ => trans_of Q⟩

instance : Std.Refl (OnWhole Q) := ⟨fun w => refl_of Q w.store.tables⟩

instance : IsTrans Whole (OnWhole Q) := ⟨fun _ _ _ => trans_of Q⟩

end LooksPast

/-- The groups are the same. -/
def WholeSameGroups (w w' : Whole) : Prop :=
  w'.store.tables.consumerGroups = w.store.tables.consumerGroups

instance : Std.Refl WholeSameGroups := ⟨fun _ => rfl⟩

namespace Cmd

variable (env : Env) (dbs : Databases) (args : List Bytes)

section Reads

variable {R : Side → Side → Prop} [Std.Refl R] [IsTrans Side R]

theorem moves_xreadgroup (hread : ∀ i k group consumer start count noack, Moves R
      (onTables (Tables.xreadgroup env.now dbs i k group consumer start count noack))) :
    Moves R (xreadgroup env dbs args) := by
  have hstreams : ∀ i group consumer (o : Option ℕ × Bool) streams,
      Moves R (xreadgroupStreams env dbs i group consumer o streams) := by
    intro i group consumer o streams
    induction streams with
    | nil => exact moves_pure _
    | cons p streams ih => exact (hread _ _ _ _ _ _ _).bind fun _ => ih.bind fun _ => moves_pure _
  exact moves_get.bind fun _ => moves_check fun _ => (moves_ofExcept _).bind fun _ =>
    (moves_ofExcept _).bind fun _ => (moves_ofExcept _).bind fun _ => moves_check fun _ =>
    (hstreams _ _ _ _ _).bind fun _ => moves_pure _

theorem moves_xack (hack : ∀ i k group ids, Moves R (onTables (Tables.xack i k group ids))) :
    Moves R (xack env dbs args) :=
  moves_get.bind fun _ => (moves_ofExcept _).bind fun _ => (moves_ofExcept _).bind fun _ =>
    (moves_ofExcept _).bind fun _ => (hack _ _ _ _).bind fun _ => moves_pure _

theorem moves_xclaim (hclaim : ∀ i k group consumer minIdleMs ids justid, Moves R
      (onTables (Tables.xclaim env.now dbs i k group consumer minIdleMs ids justid))) :
    Moves R (xclaim env dbs args) :=
  moves_get.bind fun _ => (moves_ofExcept _).bind fun _ => (moves_ofExcept _).bind fun _ =>
    (moves_ofExcept _).bind fun _ => (moves_ofExcept _).bind fun _ => moves_check fun _ =>
    (moves_ofExcept _).bind fun _ => (hclaim _ _ _ _ _ _ _).bind fun _ => moves_pure _

end Reads

/-- The call that an `XGROUP` makes. -/
def xgroupCall : List Bytes → Option (Bytes × String × GroupCall)
  | sub :: k :: group :: rest =>
    let sub := upper env sub
    let group := fromUtf8Lossy group
    if sub = "CREATE" ∨ sub = "SETID" then
      rest.head?.map fun startId => (k, group, .create startId
        (sub = "CREATE" ∧ (rest.drop 1).any fun a => upper env a = "MKSTREAM"))
    else if sub = "DESTROY" then some (k, group, .destroy)
    else if sub = "CREATECONSUMER" then
      rest.head?.map fun consumer => (k, group, .createConsumer (fromUtf8Lossy consumer))
    else if sub = "DELCONSUMER" then
      rest.head?.map fun consumer => (k, group, .delConsumer (fromUtf8Lossy consumer))
    else none
  | _ => none

/-- **An `XGROUP`** makes its call, and changes nothing else. -/
theorem xgroup_store (w : Whole) : (xgroup env args w).2.store = match xgroupCall env args with
    | some (k, group, c) => c.run env.now w.ctx.dbIndex k group w.store
    | none => w.store := by
  have htables : ∀ {α : Type} (m : TableM α) (f : α → RespValue),
      ((onTablesOfStore m >>= fun a => pure (f a)) w).2.store
        = { w.store with tables := (m w.store.tables).2 } := by
    intro α m f
    rw [Proc.bind_pure_snd]
    rfl
  have hcreate : ∀ i k group startId mkstream,
      ((xgroupCreate env.now i k group startId mkstream >>= fun _ => pure RespValue.ok) w).2.store
        = (GroupCall.create startId mkstream).run env.now i k group w.store := by
    intro i k group startId mkstream
    rw [Proc.bind_pure_snd, GroupCall.run, xgroupCreate_ctx]
  rw [xgroup, Proc.get_bind]
  match args with
  | [] => rfl
  | [sub] => dsimp only [xgroupCall]; split_ifs <;> rfl
  | [sub, k] => dsimp only [xgroupCall]; split_ifs <;> rfl
  | [sub, k, group] =>
    dsimp only [xgroupCall]
    split_ifs
    · rfl
    · exact htables _ _
    · rfl
    · rfl
    · rfl
  | sub :: k :: group :: a :: rest =>
    dsimp only [xgroupCall]
    split_ifs
    · exact hcreate _ _ _ _ _
    · exact htables _ _
    · exact htables _ _
    · exact htables _ _
    · rfl

end Cmd

/-- The handler is about the databases alone. -/
def Handler.onDatabases : Handler → Bool
  | .read _ | .write _ => true
  | _ => false

theorem onWhole_side {Q : Tables → Tables → Prop}
    {f : Env → Databases → List Bytes → SideM RespValue}
    (hf : ∀ env dbs args, Moves (OnSide Q) (f env dbs args)) :
    (Handler.side f).MovesAlong (OnWhole Q) :=
  fun _ env args w => hf env w.store.databases args ⟨w.store.tables, w.ctx⟩

/-- The commands that call methods on groups. -/
def groupNames : List String := ["XGROUP", "XREADGROUP", "XACK", "XCLAIM"]

namespace LooksPast

open Cmd

variable {Q : Tables → Tables → Prop} [Std.Refl Q] [IsTrans Tables Q] (hQ : LooksPast Q)

include hQ

omit [IsTrans Tables Q] in
theorem tolerant : Tolerant (OnSide Q) where
  pubSub s r := hQ.pubSub s.tables r
  scripts s m := hQ.scripts s.tables m
  cursors s m n := hQ.cursors s.tables m n
  ctx s _ _ _ := refl_of Q s.tables

theorem foldl_notify (keys : List Bytes) (t : Tables) : Q t (keys.foldl Tables.notify t) := by
  induction keys generalizing t with
  | nil => exact refl_of Q t
  | cons key keys ih =>
    refine trans_of Q ?_ (ih (t.notify key))
    rw [Tables.notify]
    split
    · exact hQ.waits t _ _
    · exact refl_of Q t

theorem moves_blockingPop (env : Env) (args : List Bytes)
    (pop : UInt64 → ℕ → Bytes → KeyM (Option Bytes)) (direction : PopDirection) :
    Moves (OnWhole Q) (blockingPop pop direction env args) := by
  have hpop : ∀ {α : Type} (m : KeyM α), Moves (OnWhole Q) (onKeyspace m) :=
    fun m w => refl_of Q w.store.tables
  refine moves_check fun _ => moves_get.bind fun w => (hpop _).bind fun o => ?_
  cases o with
  | some p => exact moves_pure _
  | none =>
    dsimp only
    split
    · exact moves_pure _
    · exact fun w => hQ.waits w.store.tables _ w.store.tables.woken

theorem along_onDatabases {h : Handler} (hh : h.onDatabases = true) : h.MovesAlong (OnWhole Q) := by
  cases h with
  | read f => trivial
  | write f => exact fun dispatch env args w => hQ.foldl_notify _ w.store.tables
  | side | whole | exec | eval | evalsha => cases hh

theorem along_pubsubCommands : ∀ c ∈ pubsubCommands, c.handler.MovesAlong (OnWhole Q) := by
  simp only [pubsubCommands, List.forall_mem_cons]
  exact ⟨onWhole_side hQ.tolerant.subscribe, onWhole_side hQ.tolerant.unsubscribe,
    onWhole_side hQ.tolerant.psubscribe, onWhole_side hQ.tolerant.punsubscribe,
    onWhole_side hQ.tolerant.publish, List.forall_mem_nil _⟩

omit hQ [IsTrans Tables Q] in
theorem along_transactionCommands :
    ∀ c ∈ transactionCommands, c.handler.MovesAlong (OnWhole Q) := by
  have hctx : ∀ f : Env → Databases → List Bytes → ClientContext → ClientContext,
      (Handler.side fun env dbs args => modifyCtx (f env dbs args) >>= fun _ => pure .ok).MovesAlong
        (OnWhole Q) := fun f => onWhole_side fun _ _ _ s => refl_of Q s.tables
  simp only [transactionCommands, List.forall_mem_cons]
  exact ⟨hctx _, trivial, hctx _, hctx _, hctx _, List.forall_mem_nil _⟩

/-- **The commands that call no methods on groups.** -/
theorem along_commands {c : CommandDef} (hc : c ∈ commands) (hname : c.name ∉ groupNames) :
    c.handler.MovesAlong (OnWhole Q) := by
  have hplain : ∀ c ∈ stringCommands ++ setCommands ++ hashCommands ++ zsetCommands ++
      nestedHashCommands ++ clusterCommands, c.handler.onDatabases = true := by decide
  have hserver : ∀ c ∈ serverCommands, c.handler.onDatabases = true ∨ c.handler = .side select := by
    simp [serverCommands, Handler.onDatabases]
  have hgeneric : ∀ c ∈ genericCommands,
      c.handler.onDatabases = true ∨ c.handler = .side scanCmd := by
    simp [genericCommands, Handler.onDatabases]
  have hlist : ∀ c ∈ listCommands, c.handler.onDatabases = true ∨ c.handler = .whole blpop ∨
      c.handler = .whole brpop := by
    simp [listCommands, Handler.onDatabases]
  have hstream : ∀ c ∈ streamCommands, c.name ∉ groupNames →
      c.handler.onDatabases = true ∨ c.handler = .side xpending := by
    simp [streamCommands, groupNames, Handler.onDatabases]
  simp only [List.mem_append] at hplain
  simp only [commands, List.mem_append, or_assoc] at hc
  rcases hc with hc | hc | hc | hc | hc | hc | hc | hc | hc | hc | hc | hc | hc
  · rcases hserver c hc with h | h
    · exact hQ.along_onDatabases h
    · rw [h]
      exact onWhole_side hQ.tolerant.select
  · exact hQ.along_onDatabases (hplain c (by simp [hc]))
  · rcases hgeneric c hc with h | h
    · exact hQ.along_onDatabases h
    · rw [h]
      exact onWhole_side hQ.tolerant.scanCmd
  · rcases hlist c hc with h | h | h
    · exact hQ.along_onDatabases h
    · rw [h]
      exact fun env args => hQ.moves_blockingPop env args _ _
    · rw [h]
      exact fun env args => hQ.moves_blockingPop env args _ _
  · exact hQ.along_onDatabases (hplain c (by simp [hc]))
  · exact hQ.along_onDatabases (hplain c (by simp [hc]))
  · exact hQ.along_onDatabases (hplain c (by simp [hc]))
  · rcases hstream c hc hname with h | h
    · exact hQ.along_onDatabases h
    · rw [h]
      exact onWhole_side IgnoresTables.xpending
  · exact hQ.along_onDatabases (hplain c (by simp [hc]))
  · exact hQ.along_pubsubCommands c hc
  · exact along_transactionCommands c hc
  · simp only [luaCommands, List.mem_cons, List.not_mem_nil, or_false] at hc
    rcases hc with rfl | rfl | rfl
    · trivial
    · trivial
    · exact onWhole_side hQ.tolerant.scriptCmd
  · exact hQ.along_onDatabases (hplain c (by simp [hc]))

end LooksPast

/-- **All other commands** leave the registry of groups alone. -/
theorem sameGroups_commands {c : CommandDef} (hc : c ∈ commands) (hname : c.name ∉ groupNames) :
    c.handler.MovesAlong WholeSameGroups := by
  let Q := fun t t' : Tables => t'.consumerGroups = t.consumerGroups
  have hrefl : Std.Refl Q := ⟨fun _ => rfl⟩
  have htrans : IsTrans Tables Q := ⟨fun _ _ _ h h' => h'.trans h⟩
  have hQ : LooksPast Q := ⟨fun _ _ _ => rfl, fun _ _ => rfl, fun _ _ => rfl, fun _ _ _ => rfl⟩
  exact hQ.along_commands hc hname

/-! ### Every command is a run of calls -/

/-- There is a run from the one store to the other. -/
def Traced (s s' : Store) : Prop :=
  ∃ es, Run.Along GroupEvent.run GroupEvent.KeepsGroups s es ∧ es.foldl GroupEvent.run s = s'

theorem traced_of_groups {s s' : Store}
    (h : s'.tables.consumerGroups = s.tables.consumerGroups) : Traced s s' :=
  ⟨[.other s'], ⟨h, trivial⟩, rfl⟩

theorem traced_call (now : UInt64) (i : ℕ) (k : Bytes) (group : String) (c : GroupCall) (s : Store) :
    Traced s (c.run now i k group s) :=
  ⟨[.call now i k group c], ⟨trivial, trivial⟩, rfl⟩

theorem Traced.trans {s s' s'' : Store} (h : Traced s s') (h' : Traced s' s'') : Traced s s'' := by
  obtain ⟨es, hes, rfl⟩ := h
  obtain ⟨fs, hfs, rfl⟩ := h'
  exact ⟨es ++ fs, Run.along_append.mpr ⟨hes, hfs⟩, List.foldl_append⟩

/-- `Traced`, of a command on everything. -/
def WholeTraced (w w' : Whole) : Prop := Traced w.store w'.store

instance : Std.Refl WholeTraced := ⟨fun _ => traced_of_groups rfl⟩

instance : IsTrans Whole WholeTraced := ⟨fun _ _ _ => Traced.trans⟩

/-- `Traced`, of a command that only reads the databases. -/
def SideTraced (dbs : Databases) (s s' : Side) : Prop := Traced ⟨dbs, s.tables⟩ ⟨dbs, s'.tables⟩

instance (dbs : Databases) : Std.Refl (SideTraced dbs) := ⟨fun _ => traced_of_groups rfl⟩

instance (dbs : Databases) : IsTrans Side (SideTraced dbs) := ⟨fun _ _ _ => Traced.trans⟩

theorem blind_traced : Cmd.Blind WholeTraced where
  ctx _ _ := traced_of_groups rfl
  pubSub _ _ := traced_of_groups rfl
  readers _ _ := traced_of_groups rfl

theorem traced_side {f : Env → Databases → List Bytes → SideM RespValue}
    (hf : ∀ env dbs args, Moves (SideTraced dbs) (f env dbs args)) :
    (Handler.side f).MovesAlong WholeTraced :=
  fun _ env args w => hf env w.store.databases args ⟨w.store.tables, w.ctx⟩

/-- The handlers of all commands. -/
theorem traced_commands {c : CommandDef} (hc : c ∈ commands) :
    c.handler.MovesAlong WholeTraced := by
  by_cases hname : c.name ∈ groupNames
  · refine of_definitions (P := fun c => c.handler.MovesAlong WholeTraced) ?_ hc hname
    simp only [groupNames, List.forall_mem_cons]
    refine ⟨⟨⟨"XGROUP", -2, .whole Cmd.xgroup⟩, ?_, rfl, fun env args w => ?_⟩,
      ⟨⟨"XREADGROUP", -7, .side Cmd.xreadgroup⟩, ?_, rfl, traced_side fun env dbs args =>
        Cmd.moves_xreadgroup env dbs args fun i k group consumer start count noack s =>
          traced_call env.now i k group (.read consumer start count noack) ⟨dbs, s.tables⟩⟩,
      ⟨⟨"XACK", -4, .side Cmd.xack⟩, ?_, rfl, traced_side fun env dbs args =>
        Cmd.moves_xack env dbs args fun i k group ids s =>
          traced_call env.now i k group (.ack ids) ⟨dbs, s.tables⟩⟩,
      ⟨⟨"XCLAIM", -6, .side Cmd.xclaim⟩, ?_, rfl, traced_side fun env dbs args =>
        Cmd.moves_xclaim env dbs args fun i k group consumer minIdleMs ids justid s =>
          traced_call env.now i k group (.claim consumer minIdleMs ids justid) ⟨dbs, s.tables⟩⟩,
      List.forall_mem_nil _⟩
    · simp [commands, Cmd.streamCommands]
    · rw [WholeTraced, Cmd.xgroup_store]
      cases Cmd.xgroupCall env args with
      | none => exact traced_of_groups rfl
      | some p => exact traced_call env.now _ _ _ _ _
    all_goals simp [commands, Cmd.streamCommands]
  · exact (sameGroups_commands hc hname).mono fun w w' => traced_of_groups

/-- **Every command is a run of calls**, those that run other commands, too. -/
theorem traced_dispatch (env : Env) (name : String) (args : List Bytes) (w : Whole) :
    Traced w.store (dispatch env name args w).2.store :=
  blind_traced.dispatchDepth (fun _ => traced_commands) env (env.nesting + 1) name args w

end VeloDB
