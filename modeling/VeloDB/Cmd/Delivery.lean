import VeloDB.Cmd.Pending

/-!
# What a group delivers

A group hands out the entries behind its cursor, page by page, to whoever asks. The cursor is not
part of the stream, so that every entry is delivered once takes the order of the stream, the place
of the cursor and the history of the reads together: `Delivers` is the invariant.

## Main definitions

* `deliveredIds` — what a run delivers as new, over all reads and consumers
* `GroupEvent.Drops` — an entry goes that the cursor has not passed

## Main results

* `Delivers.run` — the invariant, through one event
* `delivers_once` — every entry once, in order
-/

namespace VeloDB

open Rust Proc

/-! ### What is delivered, and what is dropped -/

/-- The ids in the stream at a key. -/
def streamIds (s : Store) (i : ℕ) (k : Bytes) : List StreamId :=
  ((storedStream (s.databases.find i k)).map fun d => d.1.map StreamEntry.id).getD []

/-- The entries that a call delivers as new. -/
def GroupCall.newEntries (now : UInt64) (i : ℕ) (k : Bytes) (group : String) (s : Store) :
    GroupCall → List StreamEntry
  | read consumer .new count noack =>
    match (Tables.xreadgroup now s.databases i k group consumer .new count noack s.tables).1 with
    | .ok page => page
    | .error _ => []
  | read _ (.history _) .. | create .. | destroy | createConsumer _ | delConsumer _ | ack _
  | claim .. => []

namespace GroupEvent

/-- The ids that an event delivers as new to the consumers of a group. -/
def newIds (i : ℕ) (k : Bytes) (group : String) (s : Store) : GroupEvent → List StreamId
  | call now j k' group' c =>
    if (j, k', group') = (i, k, group) then (c.newEntries now i k group s).map StreamEntry.id else []
  | write .. | other _ => []

/-- The group is neither created nor destroyed. -/
def KeepsGroup (i : ℕ) (k : Bytes) (group : String) : GroupEvent → Prop
  | call _ j k' group' c => (j, k', group') = (i, k, group) → ¬c.Resets
  | write .. | other _ => True

/-- Only the calls touch the key. -/
def KeepsKey (i : ℕ) (k : Bytes) (s : Store) : GroupEvent → Prop
  | other s' => s'.databases.find i k = s.databases.find i k
  | call .. | write .. => True

/-- An entry goes that the cursor of the group has not passed. -/
def Drops (i : ℕ) (k : Bytes) (group : String) (id : StreamId) (s : Store) (e : GroupEvent) : Prop :=
  id ∈ streamIds s i k ∧ id ∉ streamIds (e.run s) i k ∧
    ∃ g, s.tables.group? i k group = some g ∧ idRank (Tables.cursor g) < idRank id

end GroupEvent

/-- The ids that a run delivers as new, over all reads and all consumers. -/
def deliveredIds (i : ℕ) (k : Bytes) (group : String) : Store → List GroupEvent → List StreamId
  | _, [] => []
  | s, e :: es => e.newIds i k group s ++ deliveredIds i k group (e.run s) es

theorem deliveredIds_append (i : ℕ) (k : Bytes) (group : String) (s : Store)
    (es fs : List GroupEvent) : deliveredIds i k group s (es ++ fs)
      = deliveredIds i k group s es ++ deliveredIds i k group (es.foldl GroupEvent.run s) fs := by
  induction es generalizing s with
  | nil => rfl
  | cons e es ih =>
    rw [List.cons_append, deliveredIds, deliveredIds, ih, List.foldl_cons, List.append_assoc]

/-! ### One event -/

/-- The key holds a stream that stays. -/
def StreamAt (s : Store) (i : ℕ) (k : Bytes) (d : StreamData) : Prop :=
  ∃ e, s.databases.find i k = some e ∧ e.expireAt = none ∧ Kind.stream.unwrap e.value = some d

section Events

variable {s : Store} {i : ℕ} {k : Bytes} {group : String} {d : StreamData} {g : ConsumerGroup}

theorem StreamAt.liveEntry (h : StreamAt s i k d) (now : UInt64) :
    ∃ e, s.databases.liveEntry now i k = some e ∧ Kind.stream.unwrap e.value = some d := by
  obtain ⟨e, he, hexp, hd⟩ := h
  refine ⟨e, ?_, hd⟩
  rw [Databases.liveEntry, he, Option.filter_some, not_expired_of_none hexp]
  rfl

theorem StreamAt.streamIds (h : StreamAt s i k d) :
    VeloDB.streamIds s i k = d.1.map StreamEntry.id := by
  obtain ⟨e, he, -, hd⟩ := h
  rw [VeloDB.streamIds, he, storedStream, Option.bind_some, hd]
  rfl

theorem StreamAt.put {dbs : Databases} {t : Tables} {e : Entry} (hexp : e.expireAt = none)
    (hi : i < dbs.length) (d : StreamData) :
    StreamAt ⟨dbs.put i k { e with value := Kind.stream.wrap d }, t⟩ i k d :=
  ⟨_, Databases.find_put_self hi, hexp, rfl⟩

/-- A call on a group leaves a stream that is there alone. -/
theorem GroupCall.find_run (h : StreamAt s i k d) (now : UInt64) (j : ℕ) (k' : Bytes)
    (group' : String) (c : GroupCall) :
    (c.run now j k' group' s).databases.find i k = s.databases.find i k := by
  rcases c.databases_run now j k' group' s with h' | ⟨-, hnone, h'⟩
  · rw [h']
  · rw [h']
    refine Databases.find_put_of_ne ?_
    by_contra hsame
    obtain ⟨rfl, rfl⟩ := not_or.mp hsame |>.imp not_ne_iff.mp not_ne_iff.mp
    obtain ⟨e, he, -⟩ := h.liveEntry now
    rw [he] at hnone
    cases hnone

/-- **The stream**, through one event. -/
theorem StreamAt.run (h : StreamAt s i k d) {e : GroupEvent} (he : e.KeepsKey i k s) :
    ∃ d', StreamAt (e.run s) i k d' ∧ Grown d d' := by
  have hsame : ∀ {s' : Store}, s'.databases.find i k = s.databases.find i k →
      ∃ d', StreamAt s' i k d' ∧ Grown d d' := by
    intro s' hfind
    refine ⟨d, ?_, .refl d⟩
    rwa [StreamAt, hfind]
  cases e with
  | call now j k' group' c => exact hsame (c.find_run h now j k' group')
  | write now j k' w =>
    rw [GroupEvent.run]
    rcases w.run_cases now j k' { databases := s.databases } with h' | ⟨b, b', hj, hb, -, hgrown, h'⟩
    · rw [h']
      exact hsame rfl
    · rw [h']
      by_cases hne : i ≠ j ∨ k ≠ k'
      · exact hsame (Databases.find_put_of_ne hne)
      · obtain ⟨rfl, rfl⟩ := not_or.mp hne |>.imp not_ne_iff.mp not_ne_iff.mp
        obtain ⟨e, hfind, hexp, hd⟩ := h
        rw [entryOrNew, hfind] at hb ⊢
        obtain rfl := Option.some.inj (hd.symm.trans hb)
        exact ⟨b', .put hexp hj b', hgrown e hfind (not_expired_of_none hexp now)⟩
  | other s' => exact hsame he

/-- The cursor after a page has been delivered. -/
def cursorAfter (g : ConsumerGroup) (page : List StreamEntry) : StreamId :=
  (page.getLast?.map StreamEntry.id).getD (Tables.cursor g)

/-- A call that delivers nothing new leaves the cursor where it is. -/
theorem GroupStep.cursor {now : UInt64} {dbs dbs' : Databases} {c : GroupCall}
    {o o' : Option ConsumerGroup} (h : GroupStep now dbs dbs' i k c o o') (hc : ¬c.Resets)
    (hnew : ∀ consumer count noack, c ≠ .read consumer .new count noack) (ho : o = some g) :
    ∃ g', o' = some g' ∧ Tables.cursor g' = Tables.cursor g := by
  cases h with
  | refused => exact ⟨g, ho, rfl⟩
  | created | destroyed => exact absurd trivial hc
  | consumerCreated | consumerDeleted | reread =>
    obtain rfl := Option.some.inj ho
    exact ⟨_, rfl, rfl⟩
  | delivered g₀ consumer count noack => exact absurd rfl (hnew consumer count noack)
  | acked g₀ ids =>
    obtain rfl := Option.some.inj ho
    exact ⟨_, rfl, (ack_fields ids (0, g₀)).2⟩
  | claimed g₀ consumer minIdleMs ids =>
    obtain rfl := Option.some.inj ho
    exact ⟨_, rfl,
      (claim_fields now consumer minIdleMs ids ([], Tables.withConsumer g₀ consumer)).2⟩

/-- **Reading new entries**, of a stream that is there. -/
theorem GroupCall.read_new (h : StreamAt s i k d) (hg : s.tables.group? i k group = some g)
    (now : UInt64) (consumer : String) (count : Option ℕ) (noack : Bool) :
    (GroupCall.read consumer .new count noack).newEntries now i k group s
        = Tables.newPage g count d.1 ∧
      ((GroupCall.read consumer .new count noack).run now i k group s).tables.group? i k group
        = some (Tables.deliver now consumer noack (Tables.newPage g count d.1) g) := by
  obtain ⟨e, he, hd⟩ := h.liveEntry now
  have hi := Databases.lt_of_liveEntry he
  have htype : ofResult (s.databases.getType now i k) = .ok (some "stream") := by
    rw [Databases.getType, Databases.entry_eq hi, he]
    exact congrArg (fun t => Except.ok (some t)) (typeName_of_unwrap hd)
  have hrun : Tables.xreadgroup now s.databases i k group consumer .new count noack s.tables
      = (.ok (Tables.newPage g count d.1), s.tables.setGroup i k group
          (Tables.deliver now consumer noack (Tables.newPage g count d.1) g)) := by
    have hpage : s.databases.streamEntriesAfter now i k
        (Tables.cursor (Tables.withConsumer g consumer)) count
          = .ok (Tables.newPage g count d.1) := by
      rw [Databases.streamEntriesAfter, Databases.streamEntries, Databases.readAs_some he hd]
      rfl
    have hjoin : Tables.joinGroup i k group consumer s.tables = (.ok (Tables.withConsumer g consumer),
        s.tables.setGroup i k group (Tables.withConsumer g consumer)) :=
      Tables.updateGroup_of_some hg _ _
    rw [Tables.xreadgroup_new_eq now s.databases i k group consumer count noack s.tables htype
      (by simp), Proc.bind_ok hjoin, hpage]
    exact Tables.finishRead_of_some now i k group consumer noack s.tables _ g
  rw [newEntries, GroupCall.run, hrun]
  exact ⟨rfl, Tables.group?_setGroup_self⟩

/-- **The group**, through one event: it delivers nothing, or a page. -/
theorem group_run (h : StreamAt s i k d) (hg : s.tables.group? i k group = some g)
    {e : GroupEvent} (he : e.KeepsGroups s)
    (hkeeps : e.KeepsGroup i k group) :
    ∃ g', (e.run s).tables.group? i k group = some g' ∧
      (e.newIds i k group s = [] ∧ Tables.cursor g' = Tables.cursor g ∨
        (e.run s).databases.find i k = s.databases.find i k ∧ ∃ count,
          e.newIds i k group s = (Tables.newPage g count d.1).map StreamEntry.id ∧
          Tables.cursor g' = cursorAfter g (Tables.newPage g count d.1)) := by
  by_cases hcall : ∃ now c, e = .call now i k group c
  · obtain ⟨now, c, rfl⟩ := hcall
    have hids : GroupEvent.newIds i k group s (.call now i k group c)
        = (c.newEntries now i k group s).map StreamEntry.id := if_pos rfl
    rw [hids]
    by_cases hnew : ∃ consumer count noack, c = .read consumer .new count noack
    · obtain ⟨consumer, count, noack, rfl⟩ := hnew
      obtain ⟨hentries, hgroup⟩ := GroupCall.read_new h hg now consumer count noack
      refine ⟨_, hgroup, Or.inr ⟨rfl, count, by rw [hentries], ?_⟩⟩
      exact (deliver_fields now consumer noack _ g).2
    · have hnot : ∀ consumer count noack, c ≠ .read consumer .new count noack :=
        fun consumer count noack hc => hnew ⟨consumer, count, noack, hc⟩
      obtain ⟨g', hg', hcursor⟩ :=
        (c.step now i k group s).cursor (hkeeps rfl) hnot hg
      refine ⟨g', hg', Or.inl ⟨?_, hcursor⟩⟩
      cases c with
      | read consumer start count noack =>
        cases start with
        | new => exact absurd rfl (hnot consumer count noack)
        | history => rfl
      | create | destroy | createConsumer | delConsumer | ack | claim => rfl
  · have hsame := (GroupEvent.group?_run he i k group).resolve_left hcall
    refine ⟨g, hsame.trans hg, Or.inl ⟨?_, rfl⟩⟩
    cases e with
    | call now j k' group' c =>
      refine if_neg fun heq => hcall ⟨now, c, ?_⟩
      obtain ⟨rfl, rfl, rfl⟩ := by simpa using heq
      rfl
    | write | other => rfl

end Events

/-! ### The invariant -/

/-- What has been delivered so far, and what is in the stream: `ids` ascend from behind the start of
the group up to its cursor, and nothing in between is left out. -/
structure Delivers (start : StreamId) (ids : List StreamId) (s : Store) (i : ℕ) (k : Bytes)
    (group : String) (d : StreamData) (g : ConsumerGroup) : Prop where
  stream : StreamAt s i k d
  inOrder : InOrder d
  group : s.tables.group? i k group = some g
  ascending : ids.Pairwise fun a b => idRank a < idRank b
  after : ∀ id ∈ ids, idRank start < idRank id
  passed : ∀ id ∈ ids, idRank id ≤ idRank (Tables.cursor g)
  start_le : idRank start ≤ idRank (Tables.cursor g)
  /-- The cursor is where it has started, or at an entry that the stream has had. -/
  cursor : Tables.cursor g = start ∨ idRank (Tables.cursor g) ≤ idRank d.2
  complete : ∀ e ∈ d.1, idRank start < idRank e.id →
    idRank e.id ≤ idRank (Tables.cursor g) → e.id ∈ ids

/-- What is in a page, of a stream that is in order: everything between the cursor and the end of
the page. -/
theorem mem_newPage {g : ConsumerGroup} {all : List StreamEntry} (hall : Ascending all)
    {count : Option ℕ} {last : StreamEntry}
    (hlast : (Tables.newPage g count all).getLast? = some last) {e : StreamEntry} (he : e ∈ all)
    (hafter : idRank (Tables.cursor g) < idRank e.id) (hle : idRank e.id ≤ idRank last.id) :
    e ∈ Tables.newPage g count all := by
  obtain ⟨rest, hrest⟩ := prefix_limitTo count (all.filter fun e => idAfter e.id (Tables.cursor g))
  have hmem : e ∈ Tables.newPage g count all ++ rest := by
    rw [Tables.newPage, hrest, List.mem_filter]
    exact ⟨he, (idAfter_iff _ _).mpr hafter⟩
  have hsorted : Ascending (Tables.newPage g count all ++ rest) := by
    rw [Tables.newPage, hrest]
    exact hall.sublist List.filter_sublist
  refine (List.mem_append.mp hmem).resolve_right fun hbehind => ?_
  have hlt := (List.pairwise_append.mp hsorted).2.2 last (List.mem_of_getLast? hlast) e hbehind
  exact absurd hle (not_le.mpr hlt)

namespace Delivers

variable {start : StreamId} {ids : List StreamId} {s : Store} {i : ℕ} {k : Bytes} {group : String}
  {d d' : StreamData} {g g' : ConsumerGroup}

/-- Nothing is delivered, and the stream grows. -/
theorem grown {s' : Store} (h : Delivers start ids s i k group d g) (hstream : StreamAt s' i k d')
    (hgrown : Grown d d') (hgroup : s'.tables.group? i k group = some g')
    (hcursor : Tables.cursor g' = Tables.cursor g) : Delivers start ids s' i k group d' g' where
  stream := hstream
  inOrder := hgrown.inOrder h.inOrder
  group := hgroup
  ascending := h.ascending
  after := h.after
  passed := by simpa only [hcursor] using h.passed
  start_le := by simpa only [hcursor] using h.start_le
  cursor := by
    rw [hcursor]
    exact h.cursor.imp_right fun hle => hle.trans hgrown.last_le
  complete := by
    rw [hcursor]
    intro e he hafter hle
    obtain ⟨new, hsub, -, hbetween⟩ := hgrown.entries
    rcases List.mem_append.mp (hsub.subset he) with hold | hnew
    · exact h.complete e hold hafter hle
    · -- a new entry is behind the last id, which the cursor has not passed
      have hlast := (hbetween e hnew).1
      rcases h.cursor with hstart | hcursor
      · rw [hstart] at hle
        omega
      · omega

/-- A page is delivered. -/
theorem page {s' : Store} (h : Delivers start ids s i k group d g) (hstream : StreamAt s' i k d)
    (hgroup : s'.tables.group? i k group = some g') (count : Option ℕ)
    (hcursor : Tables.cursor g' = cursorAfter g (Tables.newPage g count d.1)) :
    Delivers start (ids ++ (Tables.newPage g count d.1).map StreamEntry.id) s' i k group d g' := by
  obtain ⟨hpage, hmem⟩ := ascending_newPage (g := g) h.inOrder.ascending count
  have hstart := h.start_le
  cases hlast : (Tables.newPage g count d.1).getLast? with
  | none =>
    rw [cursorAfter, hlast] at hcursor
    rw [List.getLast?_eq_none_iff.mp hlast, List.map_nil, List.append_nil]
    exact h.grown hstream (.refl d) hgroup hcursor
  | some last =>
    rw [cursorAfter, hlast] at hcursor
    have hcursor : Tables.cursor g' = last.id := hcursor
    have hlastMem := hmem last (List.mem_of_getLast? hlast)
    have hnew : ∀ id ∈ (Tables.newPage g count d.1).map StreamEntry.id,
        idRank (Tables.cursor g) < idRank id ∧ idRank id ≤ idRank last.id := by
      intro id hid
      obtain ⟨e, he, rfl⟩ := List.mem_map.mp hid
      exact ⟨(hmem e he).2, hpage.le_getLast hlast he⟩
    refine ⟨hstream, h.inOrder, hgroup, ?_, ?_, ?_, ?_, ?_, ?_⟩
    · refine List.pairwise_append.mpr ⟨h.ascending, List.pairwise_map.mpr hpage, ?_⟩
      exact fun a ha b hb => (h.passed a ha).trans_lt (hnew b hb).1
    · intro id hid
      rcases List.mem_append.mp hid with hid | hid
      · exact h.after id hid
      · exact h.start_le.trans_lt (hnew id hid).1
    · rw [hcursor]
      intro id hid
      rcases List.mem_append.mp hid with hid | hid
      · exact (h.passed id hid).trans hlastMem.2.le
      · exact (hnew id hid).2
    · rw [hcursor]
      exact h.start_le.trans hlastMem.2.le
    · rw [hcursor]
      exact Or.inr (h.inOrder.le_last last hlastMem.1)
    · rw [hcursor]
      intro e he hafter hle
      rw [List.mem_append]
      by_cases hold : idRank e.id ≤ idRank (Tables.cursor g)
      · exact Or.inl (h.complete e he hafter hold)
      · exact Or.inr (List.mem_map_of_mem (mem_newPage h.inOrder.ascending hlast he
          (not_le.mp hold) hle))

/-- **One event.** -/
theorem run (h : Delivers start ids s i k group d g) {e : GroupEvent} (hgroups : e.KeepsGroups s)
    (hkey : e.KeepsKey i k s) (hkeeps : e.KeepsGroup i k group) :
    ∃ d' g', Delivers start (ids ++ e.newIds i k group s) (e.run s) i k group d' g' := by
  obtain ⟨g', hgroup, ⟨hnone, hcursor⟩ | ⟨hfind, count, hids, hcursor⟩⟩ :=
    group_run h.stream h.group hgroups hkeeps
  · obtain ⟨d', hstream, hgrown⟩ := h.stream.run hkey
    rw [hnone, List.append_nil]
    exact ⟨d', g', h.grown hstream hgrown hgroup hcursor⟩
  · rw [hids]
    refine ⟨d, g', h.page ?_ hgroup count hcursor⟩
    rw [StreamAt, hfind]
    exact h.stream

/-- What may happen to the group and to its key. -/
def Allowed (i : ℕ) (k : Bytes) (group : String) (s : Store) (e : GroupEvent) : Prop :=
  e.KeepsGroups s ∧ e.KeepsKey i k s ∧ e.KeepsGroup i k group

/-- **A run.** -/
theorem foldl {es : List GroupEvent} (h : Delivers start ids s i k group d g)
    (hes : Run.Along GroupEvent.run (Allowed i k group) s es) :
    ∃ d' g', Delivers start (ids ++ deliveredIds i k group s es) (es.foldl GroupEvent.run s) i k
      group d' g' := by
  induction es generalizing s ids d g with
  | nil =>
    rw [deliveredIds, List.append_nil]
    exact ⟨d, g, h⟩
  | cons e es ih =>
    obtain ⟨⟨hgroups, hkey, hkeeps⟩, hes⟩ := hes
    obtain ⟨d', g', h'⟩ := h.run hgroups hkey hkeeps
    rw [deliveredIds, ← List.append_assoc]
    exact ih h' hes

/-- What is in the stream at some time is delivered, or dropped, by the time that the cursor has
passed it. -/
theorem accounted {es : List GroupEvent} (h : Delivers start ids s i k group d g)
    (hes : Run.Along GroupEvent.run (Allowed i k group) s es)
    (hg' : (es.foldl GroupEvent.run s).tables.group? i k group = some g') {id : StreamId}
    (hid : id ∈ streamIds s i k) (hafter : idRank start < idRank id)
    (hle : idRank id ≤ idRank (Tables.cursor g')) :
    id ∈ ids ++ deliveredIds i k group s es ∨ ∃ pre e post, es = pre ++ e :: post ∧
      GroupEvent.Drops i k group id (pre.foldl GroupEvent.run s) e := by
  have hpassed : idRank id ≤ idRank (Tables.cursor g) → id ∈ ids := by
    rw [h.stream.streamIds] at hid
    obtain ⟨e, he, rfl⟩ := List.mem_map.mp hid
    exact h.complete e he hafter
  induction es generalizing s ids d g with
  | nil =>
    obtain rfl := Option.some.inj (h.group.symm.trans hg')
    exact Or.inl (List.mem_append_left _ (hpassed hle))
  | cons e es ih =>
    obtain ⟨⟨hgroups, hkey, hkeeps⟩, hes⟩ := hes
    obtain ⟨d', g₁, h'⟩ := h.run hgroups hkey hkeeps
    by_cases hstill : id ∈ streamIds (e.run s) i k
    · have hpassed' : idRank id ≤ idRank (Tables.cursor g₁) → id ∈ ids ++ e.newIds i k group s := by
        have hin := hstill
        rw [h'.stream.streamIds] at hin
        obtain ⟨e', he', rfl⟩ := List.mem_map.mp hin
        exact h'.complete e' he' hafter
      rcases ih h' hes hg' hstill hpassed' with hin | ⟨pre, f, post, rfl, hdrops⟩
      · rw [deliveredIds, ← List.append_assoc]
        exact Or.inl hin
      · exact Or.inr ⟨e :: pre, f, post, rfl, hdrops⟩
    · by_cases hold : idRank id ≤ idRank (Tables.cursor g)
      · exact Or.inl (List.mem_append_left _ (hpassed hold))
      · exact Or.inr ⟨[], e, es, rfl, hid, hstill, g, h.group, not_le.mp hold⟩

end Delivers

/-- A group that has just been created has delivered nothing. -/
theorem delivers_created {s : Store} {now : UInt64} {i : ℕ} {k : Bytes} {group : String}
    {startId : Bytes} {mkstream : Bool} (hs : Lasting (s.databases.find i k))
    (hok : (xgroupCreate now i k group startId mkstream ⟨s, {}⟩).1 = .ok ()) :
    ∃ d g, Delivers (groupStart now (GroupEvent.run s
        (.call now i k group (.create startId mkstream))).databases i k startId) []
      (GroupEvent.run s (.call now i k group (.create startId mkstream))) i k group d g := by
  rw [GroupEvent.run, GroupCall.run]
  rcases xgroupCreate_cases now i k group startId mkstream ⟨s, {}⟩ with ⟨e, h⟩ | ⟨dbs, hdbs, h⟩
  · rw [h] at hok
    cases hok
  · rw [h]
    dsimp only
    have hgroup : ((Tables.putGroup i k group (groupStart now dbs i k startId) s.tables).2).group? i
        k group = some (newGroup (groupStart now dbs i k startId)) := Tables.group?_setGroup_self
    obtain ⟨d, hstream, hd⟩ : ∃ d, StreamAt ⟨dbs,
        (Tables.putGroup i k group (groupStart now dbs i k startId) s.tables).2⟩ i k d ∧
          InOrder d := by
      rcases hdbs with ⟨rfl, e, d, he, hd⟩ | ⟨hi, -, rfl⟩
      · have hfind := (Option.filter_eq_some_iff.mp he).1
        obtain ⟨hexp, horder⟩ := hs e d hfind hd
        exact ⟨d, ⟨e, hfind, hexp, hd⟩, horder⟩
      · exact ⟨([], 0, 0), ⟨_, Databases.find_put_self hi, rfl, rfl⟩, inOrder_nil (0, 0)⟩
    exact ⟨d, _, hstream, hd, hgroup, List.Pairwise.nil,
      fun _ h => absurd h List.not_mem_nil, fun _ h => absurd h List.not_mem_nil, le_rfl,
      Or.inl rfl, fun e _ hafter hle => absurd hafter (not_lt.mpr hle)⟩

/-- **A group delivers each entry once.** The key holds no stream with an expiry, and once the group
is created only the calls touch the key, and the group is neither created again nor destroyed. What
is delivered as new, over all reads and all consumers, ascends from behind the start; and of what is
in the stream at any time, everything that the cursor has passed since is delivered, or has been
removed before. -/
theorem delivers_once (n : ℕ) {pre es : List GroupEvent} {now : UInt64} {i : ℕ} {k : Bytes}
    {group : String} {startId : Bytes} {mkstream : Bool}
    (hpre : Run.Along GroupEvent.run (GroupEvent.KeepsStream i k) (Store.new n) pre)
    (hok : (xgroupCreate now i k group startId mkstream ⟨groupsAfter n pre, {}⟩).1 = .ok ())
    (hes : Run.Along GroupEvent.run (Delivers.Allowed i k group)
      (groupsAfter n (pre ++ [.call now i k group (.create startId mkstream)])) es) :
    let created := groupsAfter n (pre ++ [.call now i k group (.create startId mkstream)])
    let start := groupStart now created.databases i k startId
    let delivered := deliveredIds i k group created es
    ∃ g, (es.foldl GroupEvent.run created).tables.group? i k group = some g ∧
      delivered.Pairwise (fun a b => idRank a < idRank b) ∧
      (∀ id ∈ delivered, idRank start < idRank id) ∧
      ∀ mid post, es = mid ++ post → ∀ id ∈ streamIds (mid.foldl GroupEvent.run created) i k,
        idRank start < idRank id → idRank id ≤ idRank (Tables.cursor g) →
        id ∈ delivered ∨ ∃ pre' e post', es = pre' ++ e :: post' ∧
          GroupEvent.Drops i k group id (pre'.foldl GroupEvent.run created) e := by
  obtain ⟨d, g, h⟩ := delivers_created (lasting_groupsAfter hpre) hok
  rw [groupsAfter_append, List.foldl_cons, List.foldl_nil] at hes ⊢
  dsimp only
  obtain ⟨d', g', h'⟩ := h.foldl hes
  refine ⟨g', h'.group, h'.ascending, h'.after, ?_⟩
  rintro mid post rfl id hid hafter hle
  obtain ⟨hmid, hpost⟩ := Run.along_append.mp hes
  obtain ⟨d₁, g₁, h₁⟩ := h.foldl hmid
  have hgroup := h'.group
  rw [List.foldl_append] at hgroup
  rw [deliveredIds_append]
  rcases h₁.accounted hpost hgroup hid hafter hle with hin | ⟨pre', e, post', rfl, hdrops⟩
  · exact Or.inl hin
  · refine Or.inr ⟨mid ++ pre', e, post', (List.append_assoc ..).symm, ?_⟩
    rwa [List.foldl_append]

/-- Two consumers read, and an entry is added in between. -/
def twoReads : List GroupEvent :=
  [.call 8 0 (asBytes "k") "g" (.read "c" .new (some 1) false),
    .write 8 0 (asBytes "k") (.xadd (asBytes "2-0") [(asBytes "f", asBytes "v")] none),
    .call 9 0 (asBytes "k") "g" (.read "d" .new none true)]

theorem delivers_once_twoReads :
    deliveredIds 0 (asBytes "k") "g" (groupsAfter 1 oneGroup) twoReads = [(1, 0), (2, 0)] ∧
    (deliveredIds 0 (asBytes "k") "g" (groupsAfter 1 oneGroup) twoReads).Pairwise
      fun a b => idRank a < idRank b := by
  have hpre : Run.Along GroupEvent.run (GroupEvent.KeepsStream 0 (asBytes "k")) (Store.new 1)
      (oneGroup.take 1) := ⟨trivial, trivial⟩
  have hes : Run.Along GroupEvent.run (Delivers.Allowed 0 (asBytes "k") "g")
      (groupsAfter 1 oneGroup) twoReads :=
    ⟨⟨trivial, trivial, fun _ h => h⟩, ⟨trivial, trivial, trivial⟩,
      ⟨trivial, trivial, fun _ h => h⟩, trivial⟩
  have hok : (xgroupCreate 7 0 (asBytes "k") "g" (asBytes "0") false
      ⟨groupsAfter 1 (oneGroup.take 1), {}⟩).1 = .ok () := rfl
  obtain ⟨g, -, hascending, -⟩ := delivers_once 1 hpre hok hes
  exact ⟨by decide +kernel, hascending⟩

end VeloDB
