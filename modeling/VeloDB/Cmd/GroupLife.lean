import VeloDB.Cmd.GroupCalls
import VeloDB.Cmd.Trace

/-!
# How long a group lives

The registry of groups is kept beside the databases, and no change of a key reaches it. A group is
there when an `XGROUP CREATE` has put it there, for a stream that was live then, and no
`XGROUP DESTROY` has come since; what becomes of the stream makes no difference.

## Main definitions

* `Call.CreatesGroup`, `Call.DestroysGroup` — what puts a group into the registry and takes it out
  again
* `ServerEvent` — a command of any client, or a background task
* `ServerEvent.calledIn` — the calls of a run, those of transactions and scripts included

## Main results

* `Call.isSome_group` — which groups there are after a call
* `groups_outlive_streams` — the groups in every state
-/

namespace VeloDB

open Rust Proc

/-! ### Which groups there are -/

/-- The groups that are registered are the same. -/
def SameNames (t t' : Tables) : Prop :=
  ∀ i k group, (t'.group? i k group).isSome = (t.group? i k group).isSome

/-- A call that neither creates nor destroys its group. -/
theorem GroupStep.isSome {now : UInt64} {dbs dbs' : Databases} {i : ℕ} {k : Bytes} {c : GroupCall}
    {o o' : Option ConsumerGroup} (h : GroupStep now dbs dbs' i k c o o') (hc : ¬c.Resets) :
    o'.isSome = o.isSome := by
  cases h with
  | created | destroyed => exact absurd trivial hc
  | refused | consumerCreated | consumerDeleted | delivered | reread | acked | claimed => rfl

theorem GroupCall.sameNames {c : GroupCall} (hc : ¬c.Resets) (now : UInt64) (i : ℕ) (k : Bytes)
    (group : String) (s : Store) : SameNames s.tables (c.run now i k group s).tables := by
  intro j k' group'
  by_cases hne : (j, k', group') ≠ (i, k, group)
  · rw [c.sameGroupsOff now i k group s j k' group' hne]
  · obtain ⟨rfl, rfl, rfl⟩ := by simpa using hne
    exact (c.step now j k' group' s).isSome hc

/-- `SameNames`, of a command on everything but the databases. -/
def SideSameNames (s s' : Side) : Prop := SameNames s.tables s'.tables

instance : Std.Refl SideSameNames := ⟨fun _ _ _ _ => rfl⟩

instance : IsTrans Side SideSameNames :=
  ⟨fun _ _ _ h h' i k group => (h' i k group).trans (h i k group)⟩

/-- `SameNames`, of a command on everything. -/
def WholeSameNames (w w' : Whole) : Prop := SameNames w.store.tables w'.store.tables

instance : Std.Refl WholeSameNames := ⟨fun _ _ _ _ => rfl⟩

theorem sameNames_side {f : Env → Databases → List Bytes → SideM RespValue}
    (hf : ∀ env dbs args, Moves SideSameNames (f env dbs args)) :
    (Handler.side f).MovesAlong WholeSameNames :=
  fun _ env args w => hf env w.store.databases args ⟨w.store.tables, w.ctx⟩

/-- **Only `XGROUP`** changes which groups there are. -/
theorem sameNames_commands {c : CommandDef} (hc : c ∈ commands) (hname : c.name ≠ "XGROUP") :
    c.handler.MovesAlong WholeSameNames := by
  by_cases hgroup : c.name ∈ groupNames
  · have hname' : c.name ∈ ["XREADGROUP", "XACK", "XCLAIM"] := by
      simpa [groupNames, hname] using hgroup
    refine of_definitions (P := fun c => c.handler.MovesAlong WholeSameNames) ?_ hc hname'
    simp only [List.forall_mem_cons]
    refine ⟨⟨⟨"XREADGROUP", -7, .side Cmd.xreadgroup⟩, ?_, rfl, sameNames_side fun env dbs args =>
        Cmd.moves_xreadgroup env dbs args fun i k group consumer start count noack s =>
          GroupCall.sameNames (c := .read consumer start count noack) id env.now i k group
            ⟨dbs, s.tables⟩⟩,
      ⟨⟨"XACK", -4, .side Cmd.xack⟩, ?_, rfl, sameNames_side fun env dbs args =>
        Cmd.moves_xack env dbs args fun i k group ids s =>
          GroupCall.sameNames (c := .ack ids) id env.now i k group ⟨dbs, s.tables⟩⟩,
      ⟨⟨"XCLAIM", -6, .side Cmd.xclaim⟩, ?_, rfl, sameNames_side fun env dbs args =>
        Cmd.moves_xclaim env dbs args fun i k group consumer minIdleMs ids justid s =>
          GroupCall.sameNames (c := .claim consumer minIdleMs ids justid) id env.now i k group
            ⟨dbs, s.tables⟩⟩,
      List.forall_mem_nil _⟩
    all_goals simp [commands, Cmd.streamCommands]
  · refine (sameGroups_commands hc hgroup).mono fun w w' h i k group => ?_
    rw [Tables.group?, h]
    rfl

/-! ### One command -/

/-- The commands that run other commands. -/
def compoundNames : List String := ["EXEC", "EVAL", "EVALSHA"]

theorem isLeaf_iff : ∀ c ∈ commands, c.handler.isLeaf = true ↔ c.name ∉ compoundNames := by
  decide +kernel

theorem xgroup_mem : (⟨"XGROUP", -2, .whole Cmd.xgroup⟩ : CommandDef) ∈ commands := by
  simp [commands, Cmd.streamCommands]

/-- **An `XGROUP`** is let through, and makes its call. -/
theorem dispatch_xgroup (env : Env) (args : List Bytes) (w : Whole) :
    (dispatch env "XGROUP" args w).2.store = match Cmd.xgroupCall env args with
      | some (k, group, c) => c.run env.now w.ctx.dbIndex k group w.store
      | none => w.store := by
  have hmem : w.store.tables.deniesMemory "XGROUP" = false :=
    w.store.tables.deniesMemory_of_allowed (by decide)
  rw [dispatch_eq xgroup_mem env hmem rfl, catchError_snd]
  exact Cmd.xgroup_store env args w

/-- The key holds a live stream. -/
def LiveStream (now : UInt64) (dbs : Databases) (i : ℕ) (k : Bytes) : Prop :=
  ∃ e d, dbs.liveEntry now i k = some e ∧ Kind.stream.unwrap e.value = some d

/-- **Creating a group** puts it into the registry exactly when the key then holds a live stream. -/
theorem create_run (now : UInt64) (i : ℕ) (k : Bytes) (group : String) (startId : Bytes)
    (mkstream : Bool) (s : Store) :
    (((GroupCall.create startId mkstream).run now i k group s).tables.group? i k group).isSome ↔
      LiveStream now ((GroupCall.create startId mkstream).run now i k group s).databases i k ∨
        (s.tables.group? i k group).isSome := by
  rw [GroupCall.run]
  rcases xgroupCreate_cases now i k group startId mkstream ⟨s, {}⟩ with ⟨e, h⟩ | ⟨dbs, hdbs, h⟩
  · -- a live stream would not have been refused
    rw [h]
    refine ⟨Or.inr, fun hor => hor.resolve_left ?_⟩
    rintro ⟨o, d, ho, hd⟩
    have hi := Databases.lt_of_liveEntry ho
    have htype : s.databases.getType now i k = .ok (some "stream") := by
      rw [Databases.getType, Databases.entry_eq hi, ho]
      exact congrArg (fun t => Except.ok (some t)) (typeName_of_unwrap hd)
    rw [xgroupCreate, Proc.get_bind] at h
    simp only [htype] at h
    cases h
  · rw [h]
    have hgroup : ((Tables.putGroup i k group (groupStart now dbs i k startId) s.tables).2).group? i
        k group = some (newGroup (groupStart now dbs i k startId)) := Tables.group?_setGroup_self
    dsimp only
    rw [hgroup]
    refine ⟨fun _ => Or.inl ?_, fun _ => rfl⟩
    rcases hdbs with ⟨rfl, hlive⟩ | ⟨hi, -, rfl⟩
    · exact hlive
    · exact ⟨_, ([], 0, 0), liveEntry_put_self hi k _, rfl⟩

/-! ### One call -/

namespace Call

/-- An `XGROUP CREATE` or `SETID` on a group, after which the key holds a live stream. -/
def CreatesGroup (i : ℕ) (k : Bytes) (group : String) (c : Call) : Prop :=
  c.command.name = "XGROUP" ∧ c.before.ctx.dbIndex = i ∧
    (∃ startId mkstream,
      Cmd.xgroupCall c.env c.args = some (k, group, .create startId mkstream)) ∧
    LiveStream c.env.now c.after.store.databases i k

/-- An `XGROUP DESTROY` on a group. -/
def DestroysGroup (i : ℕ) (k : Bytes) (group : String) (c : Call) : Prop :=
  c.command.name = "XGROUP" ∧ c.before.ctx.dbIndex = i ∧
    Cmd.xgroupCall c.env c.args = some (k, group, .destroy)

variable {c : Call}

theorem store_of_xgroup (hc : c.command ∈ commands) (hname : c.command.name = "XGROUP") :
    c.after.store = match Cmd.xgroupCall c.env c.args with
      | some (k, group, g) => g.run c.env.now c.before.ctx.dbIndex k group c.before.store
      | none => c.before.store := by
  obtain ⟨command, args, env, w⟩ := c
  obtain rfl := List.inj_on_of_nodup_map nodup_commands hc xgroup_mem hname
  exact Cmd.xgroup_store env args w

/-- **Which groups there are** after an `XGROUP`. -/
theorem isSome_group_of_xgroup (hc : c.command ∈ commands) (hname : c.command.name = "XGROUP")
    (i : ℕ) (k : Bytes) (group : String) :
    (c.after.store.tables.group? i k group).isSome ↔ c.CreatesGroup i k group ∨
      (c.before.store.tables.group? i k group).isSome ∧ ¬c.DestroysGroup i k group := by
  rw [CreatesGroup, DestroysGroup, store_of_xgroup hc hname]
  cases hcall : Cmd.xgroupCall c.env c.args with
  | none => simp
  | some p =>
    obtain ⟨k', group', g⟩ := p
    dsimp only
    by_cases hne : (i, k, group) ≠ (c.before.ctx.dbIndex, k', group')
    · rw [g.sameGroupsOff c.env.now c.before.ctx.dbIndex k' group' c.before.store i k group hne]
      have hnot : ∀ g', c.before.ctx.dbIndex = i → (k', group', g) ≠ (k, group, g') := by
        rintro g' rfl heq
        cases heq
        exact hne rfl
      constructor
      · exact fun h => Or.inr ⟨h, fun h => hnot _ h.2.1 (Option.some.inj h.2.2)⟩
      · rintro (⟨-, hi, ⟨startId, mkstream, heq⟩, -⟩ | ⟨h, -⟩)
        · exact absurd (Option.some.inj heq) (hnot _ hi)
        · exact h
    · obtain ⟨rfl, rfl, rfl⟩ := by simpa using hne
      cases g with
      | create startId mkstream =>
        rw [create_run]
        simp [hname]
      | destroy =>
        have hgone : (GroupCall.destroy.run c.env.now c.before.ctx.dbIndex k group
            c.before.store).tables.group? c.before.ctx.dbIndex k group = none :=
          AList.lookup_erase _ _
        simp [hgone, hname]
      | createConsumer | delConsumer | read | ack | claim =>
        rw [GroupCall.sameNames (by exact id)]
        simp

/-- **Which groups there are** after a call. -/
theorem isSome_group (hc : c.command ∈ commands) (hleaf : c.command.handler.isLeaf = true)
    (i : ℕ) (k : Bytes) (group : String) :
    (c.after.store.tables.group? i k group).isSome ↔ c.CreatesGroup i k group ∨
      (c.before.store.tables.group? i k group).isSome ∧ ¬c.DestroysGroup i k group := by
  by_cases hname : c.command.name = "XGROUP"
  · exact isSome_group_of_xgroup hc hname i k group
  · have hsame : WholeSameNames c.before c.after := along hleaf (sameNames_commands hc hname)
    rw [hsame i k group]
    simp [CreatesGroup, DestroysGroup, hname]

/-- A call that is on no group leaves the registry alone. -/
theorem sameGroups (hc : c.command ∈ commands) (hleaf : c.command.handler.isLeaf = true)
    (hname : c.command.name ∉ groupNames) :
    c.after.store.tables.consumerGroups = c.before.store.tables.consumerGroups :=
  along (R := WholeSameGroups) hleaf (sameGroups_commands hc hname)

end Call

/-! ### Runs of the server -/

/-- What happens to the store of a server: a command, with the client that sends it, or something
that a background task does. -/
inductive ServerEvent
  | command (moment : Moment) (ctx : ClientContext) (name : String) (args : List Bytes)
  | background (s : Store)

namespace ServerEvent

/-- What an event does. -/
def run (H : Host) (s : Store) : ServerEvent → Store
  | command m ctx name args => (dispatch (m.on H) name args ⟨s, ctx⟩).2.store
  | background s' => s'

/-- The calls that an event makes: those of the queue of an `EXEC` and of a script, or its own. -/
def called (H : Host) (s : Store) : ServerEvent → List Call
  | command m ctx name args => calls (m.on H) name args ⟨s, ctx⟩
  | background _ => []

/-- The calls of a run, one after the other. -/
def calledIn (H : Host) : Store → List ServerEvent → List Call := Run.gathered (run H) (called H)

/-- Background tasks leave the registry alone. -/
def KeepsGroups (s : Store) : ServerEvent → Prop
  | command .. => True
  | background s' => s'.tables.consumerGroups = s.tables.consumerGroups

section

variable {H : Host} {s : Store} {e : ServerEvent}

/-- **Which groups there are** after an event, by its calls. -/
theorem isSome_run (hkeeps : e.KeepsGroups s) (i : ℕ) (k : Bytes) (group : String) :
    ((e.run H s).tables.group? i k group).isSome ↔
      Run.SwitchedOn (Call.CreatesGroup i k group) (Call.DestroysGroup i k group)
        (s.tables.group? i k group).isSome (e.called H s) := by
  cases e with
  | background s' =>
    rw [run, called, Run.switchedOn_nil, Tables.group?, hkeeps]
    rfl
  | command m ctx name args =>
    exact switched_calls (Q := fun w => (w.store.tables.group? i k group).isSome)
      (fun _ _ => Iff.rfl) (fun _ _ => Iff.rfl) (fun _ _ => Iff.rfl)
      (fun c hc hleaf _ _ => Call.isSome_group hc hleaf i k group) name args ⟨s, ctx⟩

/-- **An event whose calls are on no group**, and every such call of any event, leaves the registry
alone. -/
theorem sameGroups_run (hkeeps : e.KeepsGroups s) :
    (∀ c ∈ e.called H s, c.command.name ∉ groupNames →
      c.after.store.tables.consumerGroups = c.before.store.tables.consumerGroups) ∧
    ((∀ c ∈ e.called H s, c.command.name ∉ groupNames) →
      (e.run H s).tables.consumerGroups = s.tables.consumerGroups) := by
  cases e with
  | background s' => exact ⟨List.forall_mem_nil _, fun _ => hkeeps⟩
  | command m ctx name args =>
    constructor
    · have hkept : KeepsBy (fun _ => True) (fun _ => True) (fun c => c.command.name ∉ groupNames →
          c.after.store.tables.consumerGroups = c.before.store.tables.consumerGroups) _ _ _ :=
        keeps_calls ⟨fun _ _ => id, fun _ _ => id, fun _ _ => id⟩
          (fun c hc hleaf (_ : c.env = m.on H) _ _ _ => ⟨Call.sameGroups hc hleaf, trivial⟩)
          name args ⟨s, ctx⟩
      exact (hkept trivial fun _ _ => trivial).1
    · have hkept : KeepsBy (fun w => w.store.tables.consumerGroups = s.tables.consumerGroups)
          (fun c => c.command.name ∉ groupNames) (fun _ => True) _ _ _ :=
        keeps_calls ⟨fun _ _ => id, fun _ _ => id, fun _ _ => id⟩
          (fun c hc hleaf (_ : c.env = m.on H) _ hname hbefore =>
            ⟨trivial, (Call.sameGroups hc hleaf hname).trans hbefore⟩) name args ⟨s, ctx⟩
      exact fun hcalls => (hkept rfl hcalls).2

end

end ServerEvent

open ServerEvent in
/-- **Groups outlive their streams.** In every state that commands and background tasks lead to, a
group is registered exactly when an `XGROUP CREATE` or `SETID` among the calls of the run, those of
transactions and scripts included, has named it for a key that then held a live stream, and no
`XGROUP DESTROY` has since. Nothing but the calls on groups touches a group, whatever becomes of the
key. -/
theorem groups_outlive_streams (H : Host) (n : ℕ) {es : List ServerEvent}
    (hes : Run.Along (run H) KeepsGroups (Store.new n) es) :
    (∀ i k group, ((es.foldl (run H) (Store.new n)).tables.group? i k group).isSome ↔
      ∃ pre c post, calledIn H (Store.new n) es = pre ++ c :: post ∧ c.CreatesGroup i k group ∧
        ∀ c' ∈ post, ¬c'.DestroysGroup i k group) ∧
    ∀ pre e post, es = pre ++ e :: post →
      (∀ c ∈ e.called H (pre.foldl (run H) (Store.new n)), c.command.name ∉ groupNames →
        ∀ i k group, c.after.store.tables.group? i k group
          = c.before.store.tables.group? i k group) ∧
      ((∀ c ∈ e.called H (pre.foldl (run H) (Store.new n)), c.command.name ∉ groupNames) →
        ∀ i k group, (e.run H (pre.foldl (run H) (Store.new n))).tables.group? i k group
          = (pre.foldl (run H) (Store.new n)).tables.group? i k group) := by
  constructor
  · intro i k group
    have hnone : ¬((Store.new n).tables.group? i k group).isSome := by
      simp [Tables.group?, Store.new]
    refine (hes.switched (Q := fun s => (s.tables.group? i k group).isSome)
      fun s e he => isSome_run he i k group).trans ?_
    exact or_iff_left fun h => hnone h.1
  · rintro pre e post rfl
    have he := (Run.along_append.mp hes).2.1
    obtain ⟨hcall, hevent⟩ := sameGroups_run (H := H) he
    refine ⟨fun c hc hname i k group => ?_, fun hcalls i k group => ?_⟩
    · rw [Tables.group?, hcall c hc hname]
      rfl
    · rw [Tables.group?, hevent hcalls]
      rfl

/-- The command of a client of database 0, with the given time on the clock. -/
def ServerEvent.plain (now : UInt64) (words : List String) : ServerEvent :=
  .command ⟨now, 0, 0, 1⟩ {} (words.headD "") (words.tail.map asBytes)

/-- A stream with a group. -/
def streamMade : List ServerEvent :=
  [ServerEvent.plain 7 ["XADD", "k", "5-0", "f", "v"],
    ServerEvent.plain 7 ["XGROUP", "CREATE", "k", "g", "$"]]

/-- The stream is deleted in a transaction. -/
def streamDropped : List ServerEvent :=
  streamMade ++ [.command ⟨8, 0, 0, 1⟩
    { multiMode := true, multiQueue := [[asBytes "DEL", asBytes "k"]] } "EXEC" []]

theorem groups_outlive_streams_dropped :
    (∃ pre c post, ServerEvent.calledIn Host.plain (Store.new 1) streamDropped = pre ++ c :: post ∧
      c.CreatesGroup 0 (asBytes "k") "g" ∧ ∀ c' ∈ post, ¬c'.DestroysGroup 0 (asBytes "k") "g") ∧
    (streamDropped.foldl (ServerEvent.run Host.plain) (Store.new 1)).tables.group? 0
        (asBytes "k") "g"
      = (streamMade.foldl (ServerEvent.run Host.plain) (Store.new 1)).tables.group? 0
        (asBytes "k") "g" := by
  have hes : Run.Along (ServerEvent.run Host.plain) ServerEvent.KeepsGroups (Store.new 1)
      streamDropped := ⟨trivial, trivial, trivial, trivial⟩
  obtain ⟨hgroups, helsewhere⟩ := groups_outlive_streams Host.plain 1 hes
  refine ⟨(hgroups 0 (asBytes "k") "g").mp (by decide +kernel), ?_⟩
  have hdel := (helsewhere streamMade _ [] rfl).2 (by decide +kernel) 0 (asBytes "k") "g"
  rwa [streamDropped, List.foldl_append, List.foldl_cons, List.foldl_nil]

/-- The stream is deleted. -/
def streamDeleted : List ServerEvent := streamMade ++ [ServerEvent.plain 8 ["DEL", "k"]]

/-- A stream is made at the key again. -/
def streamRemade : List ServerEvent :=
  streamDeleted ++ [ServerEvent.plain 9 ["XADD", "k", "1-0", "f", "v"]]

/-- **The group of a deleted stream** is still there, and hides the entries of the stream that is
made at the key afterwards. -/
theorem group_without_stream :
    ((streamDeleted.foldl (ServerEvent.run Host.plain) (Store.new 1)).tables.group? 0
      (asBytes "k") "g").isSome = true ∧
    ((streamDeleted.foldl (ServerEvent.run Host.plain) (Store.new 1)).databases.liveEntry 9 0
      (asBytes "k")).isNone = true ∧
    (storedStream ((streamRemade.foldl (ServerEvent.run Host.plain) (Store.new 1)).databases.find 0
      (asBytes "k"))).map (fun d => d.1.map StreamEntry.id) = some [(1, 0)] ∧
    ((Tables.xreadgroup 9 (streamRemade.foldl (ServerEvent.run Host.plain) (Store.new 1)).databases
      0 (asBytes "k") "g" "c" .new none false (streamRemade.foldl (ServerEvent.run Host.plain)
        (Store.new 1)).tables).1.toOption.map fun page => page.map StreamEntry.id) = some [] :=
  ⟨by decide +kernel, by decide +kernel, by decide +kernel, by decide +kernel⟩

end VeloDB
