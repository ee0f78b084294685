import VeloDB.Cmd.Delivery
import VeloDB.Cmd.GroupLife

/-!
# Reads that overlap

`XREADGROUP` reads the cursor of its group and releases the group, reads the stream, and locks the
group again to move the cursor. Between these steps other clients take theirs. `GroupRace` is the
store with the reads that have begun, and a run is any list of such steps.

## Main definitions

* `GroupRace.run` — one step of a read, or a step of somebody else
* `GroupRace.Undisturbed` — the group is as the read has found it when it moves the cursor

## Main results

* `GroupRaceOk.run` — what undisturbed reads have returned, through one step
* `reads_share_nothing` — no entry is returned twice, and no read panics
-/

namespace VeloDB

open Rust Proc

/-- A read of new entries that has begun. -/
structure OpenRead where
  now : UInt64
  consumer : String
  count : Option ℕ
  noack : Bool
  /-- The cursor of the group as the read has found it. -/
  cursor : StreamId
  /-- What the read has found in the stream, once it has looked. -/
  page : Option (List StreamEntry) := none

/-- The store, and the reads that have begun. -/
structure GroupRace where
  store : Store
  reads : ℕ → Option OpenRead

/-- A step of the read with a number, or of somebody else. -/
inductive ReadEvent
  | join (t : ℕ) (now : UInt64) (consumer : String) (count : Option ℕ) (noack : Bool)
  | look (t : ℕ)
  | finish (t : ℕ)
  | other (e : GroupEvent)

namespace GroupRace

variable (i : ℕ) (k : Bytes) (group : String)

/-- What a read answers when it takes its last step. -/
def answer (s : GroupRace) (t : ℕ) : Option (Except Failure (List StreamEntry)) :=
  s.reads t >>= fun r => r.page.map fun page =>
    (Tables.finishRead r.now i k group r.consumer r.noack page s.store.tables).1

/-- One step. A read that fails is over. -/
def run (s : GroupRace) : ReadEvent → GroupRace
  | .join t now consumer count noack =>
    let r := Tables.joinGroup i k group consumer s.store.tables
    { store := { s.store with tables := r.2 }
      reads := Function.update s.reads t (r.1.toOption.map fun g =>
        { now, consumer, count, noack, cursor := Tables.cursor g }) }
  | .look t => { s with
      reads := Function.update s.reads t (s.reads t >>= fun r => match r.page with
        | none => (s.store.databases.streamEntriesAfter r.now i k r.cursor r.count).toOption.map
          fun page => { r with page := some page }
        | some _ => some r) }
  | .finish t =>
    match s.reads t >>= fun r => r.page.map fun page => (r, page) with
    | some (r, page) =>
      { store := { s.store with
          tables := (Tables.finishRead r.now i k group r.consumer r.noack page s.store.tables).2 }
        reads := Function.update s.reads t none }
    | none => s
  | .other e => { s with store := e.run s.store }

/-- The ids that a step returns as new. -/
def newIds (s : GroupRace) : ReadEvent → List StreamId
  | .finish t =>
    match s.answer i k group t with
    | some (.ok page) => page.map StreamEntry.id
    | _ => []
  | .join .. | .look _ | .other _ => []

/-- The ids that a run returns as new, over all reads. -/
def returnedIds : GroupRace → List ReadEvent → List StreamId
  | _, [] => []
  | s, e :: es => s.newIds i k group e ++ returnedIds (s.run i k group e) es

/-- When a read moves the cursor, the group is still there and its cursor where the read has found
it. A read that has found nothing moves no cursor. -/
def Undisturbed (s : GroupRace) : ReadEvent → Prop
  | .finish t => ∀ r page, s.reads t = some r → r.page = some page → page ≠ [] →
    ∃ g, s.store.tables.group? i k group = some g ∧ Tables.cursor g = r.cursor
  | .join .. | .look _ | .other _ => True

/-- Only the calls put a stream at the key, the group is not created again, and every read of its
new entries takes the three steps. -/
def Allowed (s : GroupRace) : ReadEvent → Prop
  | .other e => e.KeepsGroups s.store ∧ e.KeepsStream i k s.store ∧
    ∀ now c, e = .call now i k group c → (∀ startId mkstream, c ≠ .create startId mkstream) ∧
      ∀ consumer count noack, c ≠ .read consumer .new count noack
  | .join .. | .look _ | .finish _ => True

end GroupRace

/-- What reads have returned so far, and what those that have begun have found. -/
structure GroupRaceOk (i : ℕ) (k : Bytes) (group : String) (ids : List StreamId) (s : GroupRace) :
    Prop where
  stream : Lasting (s.store.databases.find i k)
  ascending : ids.Pairwise fun a b => idRank a < idRank b
  passed : ∀ g, s.store.tables.group? i k group = some g →
    ∀ id ∈ ids, idRank id ≤ idRank (Tables.cursor g)
  pages : ∀ t r page, s.reads t = some r → r.page = some page →
    Ascending page ∧ ∀ e ∈ page, idRank r.cursor < idRank e.id

namespace GroupRaceOk

variable {i : ℕ} {k : Bytes} {group : String} {ids : List StreamId} {s : GroupRace}

/-- Moving the cursor of a group that is there. -/
theorem finishRead_cases (now : UInt64) (consumer : String) (noack : Bool) {t : Tables}
    {page : List StreamEntry} {last : StreamEntry} (hlast : page.getLast? = some last)
    {g : ConsumerGroup} (hg : t.group? i k group = some g) :
    ∃ g', Tables.finishRead now i k group consumer noack page t
      = (.ok page, t.setGroup i k group g') ∧ Tables.cursor g' = last.id := by
  have hmove : Tables.moveCursor now i k group consumer noack page last t
      = (.ok (), t.setGroup i k group _) := Tables.updateGroup_of_some hg _ _
  rw [Tables.finishRead, hlast]
  refine ⟨_, Proc.bind_ok hmove, ?_⟩
  dsimp only
  split
  · rfl
  · exact (foldl_setPending_fields now consumer page _).2

/-- A read that has found nothing. -/
theorem finishRead_nil (now : UInt64) (i : ℕ) (k : Bytes) (group consumer : String) (noack : Bool)
    (t : Tables) : Tables.finishRead now i k group consumer noack [] t = (.ok [], t) := rfl

/-- The group through a step of somebody else: it goes, or its cursor stays. -/
theorem cursor_other {s : Store} {e : GroupEvent} (he : e.KeepsGroups s)
    (hcalls : ∀ now c, e = .call now i k group c →
      (∀ startId mkstream, c ≠ .create startId mkstream) ∧
      ∀ consumer count noack, c ≠ .read consumer .new count noack)
    {g : ConsumerGroup} (hg : (e.run s).tables.group? i k group = some g) :
    ∃ g', s.tables.group? i k group = some g' ∧ Tables.cursor g = Tables.cursor g' := by
  by_cases hcall : ∃ now c, e = .call now i k group c
  · obtain ⟨now, c, rfl⟩ := hcall
    obtain ⟨hcreate, hnew⟩ := hcalls now c rfl
    have hstep := c.step now i k group s
    by_cases hdestroy : c = .destroy
    · subst hdestroy
      have hgone : (GroupCall.destroy.run now i k group s).tables.group? i k group = none :=
        AList.lookup_erase _ _
      rw [GroupEvent.run, hgone] at hg
      cases hg
    · have hc : ¬c.Resets := by
        cases c with
        | create startId mkstream => exact absurd rfl (hcreate startId mkstream)
        | destroy => exact absurd rfl hdestroy
        | createConsumer | delConsumer | read | ack | claim => exact id
      cases ho : s.tables.group? i k group with
      | none =>
        have hnone := hstep.isSome hc
        rw [← GroupEvent.run, hg, ho] at hnone
        cases hnone
      | some g' =>
        obtain ⟨g'', hg'', hcursor⟩ := hstep.cursor hc hnew ho
        obtain rfl := Option.some.inj (hg.symm.trans hg'')
        exact ⟨g', rfl, hcursor⟩
  · rw [(GroupEvent.group?_run he i k group).resolve_left hcall] at hg
    exact ⟨g, hg, rfl⟩

/-- A step that returns nothing, changes no stream, and leaves the cursor and the reads. -/
theorem same {s' : GroupRace} (h : GroupRaceOk i k group ids s)
    (hstream : Lasting (s'.store.databases.find i k))
    (hgroup : ∀ g, s'.store.tables.group? i k group = some g →
      ∃ g', s.store.tables.group? i k group = some g' ∧ Tables.cursor g = Tables.cursor g')
    (hreads : ∀ t r page, s'.reads t = some r → r.page = some page →
      Ascending page ∧ ∀ e ∈ page, idRank r.cursor < idRank e.id) : GroupRaceOk i k group ids s' := by
  refine ⟨hstream, h.ascending, fun g hg => ?_, hreads⟩
  obtain ⟨g', hg', hcursor⟩ := hgroup g hg
  rw [hcursor]
  exact h.passed g' hg'

/-- What a read finds in the stream. -/
theorem pages_look {dbs : Databases} (hstream : Lasting (dbs.find i k)) {now : UInt64}
    {after : StreamId} {count : Option ℕ} {page : List StreamEntry}
    (hpage : (dbs.streamEntriesAfter now i k after count).toOption = some page) :
    Ascending page ∧ ∀ e ∈ page, idRank after < idRank e.id := by
  rw [Databases.streamEntriesAfter] at hpage
  cases hall : dbs.streamEntries now i k with
  | error e =>
    rw [hall] at hpage
    cases hpage
  | ok all =>
    rw [hall] at hpage
    obtain rfl := Option.some.inj hpage
    obtain ⟨hascending, hmem⟩ :=
      ascending_newPage (g := newGroup after) (hstream.ascending hall) count
    exact ⟨hascending, fun e he => (hmem e he).2⟩

theorem read_of_some {t : ℕ} {r : OpenRead} {page : List StreamEntry}
    (h : (s.reads t >>= fun r => r.page.map fun page => (r, page)) = some (r, page)) :
    s.reads t = some r ∧ r.page = some page := by
  obtain ⟨r', hr', h⟩ := Option.bind_eq_some_iff.mp h
  obtain ⟨page', hpage', heq⟩ := Option.map_eq_some_iff.mp h
  obtain ⟨rfl, rfl⟩ := Prod.mk.inj heq
  exact ⟨hr', hpage'⟩

theorem answer_some {t : ℕ} {r : OpenRead} {page : List StreamEntry} (hr : s.reads t = some r)
    (hpage : r.page = some page) : s.answer i k group t
      = some (Tables.finishRead r.now i k group r.consumer r.noack page s.store.tables).1 := by
  rw [GroupRace.answer, hr]
  show r.page.map _ = _
  rw [hpage]
  rfl

theorem answer_none {t : ℕ}
    (h : (s.reads t >>= fun r => r.page.map fun page => (r, page)) = none) :
    s.answer i k group t = none := by
  rw [GroupRace.answer]
  cases hr : s.reads t with
  | none => rfl
  | some r =>
    rw [hr] at h
    have hpage : r.page = none := Option.map_eq_none_iff.mp h
    show r.page.map _ = _
    rw [hpage]
    rfl

/-- **One step.** -/
theorem run (h : GroupRaceOk i k group ids s) {e : ReadEvent} (hallowed : s.Allowed i k group e)
    (hfresh : s.Undisturbed i k group e) :
    GroupRaceOk i k group (ids ++ s.newIds i k group e) (s.run i k group e) := by
  cases e with
  | join t now consumer count noack =>
    rw [GroupRace.newIds, List.append_nil]
    refine h.same h.stream (fun g hg => ?_) fun t' r page hr hpage => ?_
    · rw [GroupRace.run] at hg
      rcases Tables.updateGroup_cases i k group (.error (.error noGroup)) (fun g =>
        (Tables.withConsumer g consumer, Tables.withConsumer g consumer)) s.store.tables with
        ⟨hnone, hjoin⟩ | ⟨g', hg', hjoin⟩
      · dsimp only at hg
        rw [Tables.joinGroup, hjoin, hnone] at hg
        cases hg
      · dsimp only at hg
        rw [Tables.joinGroup, hjoin, Tables.group?_setGroup_self] at hg
        obtain rfl := Option.some.inj hg
        exact ⟨g', hg', rfl⟩
    · rw [GroupRace.run] at hr
      dsimp only at hr
      by_cases ht : t' = t
      · -- the read has not looked yet
        subst ht
        rw [Function.update_self] at hr
        obtain ⟨g, -, rfl⟩ := Option.map_eq_some_iff.mp hr
        cases hpage
      · rw [Function.update_of_ne ht] at hr
        exact h.pages t' r page hr hpage
  | look t =>
    rw [GroupRace.newIds, List.append_nil]
    refine h.same h.stream (fun g hg => ⟨g, hg, rfl⟩) fun t' r page hr hpage => ?_
    rw [GroupRace.run] at hr
    dsimp only at hr
    by_cases ht : t' = t
    · subst ht
      rw [Function.update_self] at hr
      obtain ⟨r₀, hr₀, hlook⟩ := Option.bind_eq_some_iff.mp hr
      cases hp : r₀.page with
      | some page₀ =>
        rw [hp] at hlook
        obtain rfl := Option.some.inj hlook
        exact h.pages t' r₀ page hr₀ hpage
      | none =>
        rw [hp] at hlook
        obtain ⟨page', hpage', rfl⟩ := Option.map_eq_some_iff.mp hlook
        obtain rfl := Option.some.inj hpage
        exact pages_look h.stream hpage'
    · rw [Function.update_of_ne ht] at hr
      exact h.pages t' r page hr hpage
  | finish t =>
    cases hr : s.reads t >>= fun r => r.page.map fun page => (r, page) with
    | none =>
      -- there is no such read, or it has not looked yet
      have hanswer : s.answer i k group t = none := answer_none hr
      rw [GroupRace.newIds, hanswer, GroupRace.run, hr, List.append_nil]
      exact h
    | some p =>
      obtain ⟨r, page⟩ := p
      obtain ⟨hread, hpage⟩ := read_of_some hr
      have hanswer : s.answer i k group t = some
          (Tables.finishRead r.now i k group r.consumer r.noack page s.store.tables).1 :=
        answer_some hread hpage
      obtain ⟨hascending, hbehind⟩ := h.pages t r page hread hpage
      have hreads : ∀ t' r page, Function.update s.reads t none t' = some r → r.page = some page →
          Ascending page ∧ ∀ e ∈ page, idRank r.cursor < idRank e.id := by
        intro t' r' page' hr' hpage'
        by_cases ht : t' = t
        · subst ht
          rw [Function.update_self] at hr'
          cases hr'
        · rw [Function.update_of_ne ht] at hr'
          exact h.pages t' r' page' hr' hpage'
      rw [GroupRace.newIds, hanswer, GroupRace.run, hr]
      dsimp only
      cases hlast : page.getLast? with
      | none =>
        obtain rfl := List.getLast?_eq_none_iff.mp hlast
        rw [finishRead_nil]
        dsimp only
        rw [List.map_nil, List.append_nil]
        exact h.same h.stream (fun g hg => ⟨g, hg, rfl⟩) hreads
      | some last =>
        have hnil : page ≠ [] := by
          rintro rfl
          cases hlast
        obtain ⟨g, hg, hcursor⟩ := hfresh r page hread hpage hnil
        obtain ⟨g', hfinish, hmoved⟩ :=
          finishRead_cases r.now r.consumer r.noack hlast hg
        rw [hfinish]
        dsimp only
        refine ⟨h.stream, ?_, ?_, hreads⟩
        · refine List.pairwise_append.mpr ⟨h.ascending, List.pairwise_map.mpr hascending, ?_⟩
          intro a ha b hb
          obtain ⟨e, he, rfl⟩ := List.mem_map.mp hb
          exact (hcursor ▸ h.passed g hg a ha).trans_lt (hbehind e he)
        · intro g'' hg''
          rw [Tables.group?_setGroup_self] at hg''
          obtain rfl := Option.some.inj hg''
          rw [hmoved]
          intro id hid
          rcases List.mem_append.mp hid with hid | hid
          · exact (hcursor ▸ h.passed g hg id hid).trans
              (hbehind last (List.mem_of_getLast? hlast)).le
          · obtain ⟨e, he, rfl⟩ := List.mem_map.mp hid
            exact hascending.le_getLast hlast he
  | other e =>
    obtain ⟨hkeeps, hkey, hcalls⟩ := hallowed
    rw [GroupRace.newIds, List.append_nil]
    exact h.same (GroupEvent.lasting_run hkey h.stream)
      (fun g hg => cursor_other hkeeps hcalls hg) h.pages

/-- **A run.** -/
theorem foldl {es : List ReadEvent} (h : GroupRaceOk i k group ids s)
    (hes : Run.Along (GroupRace.run i k group)
      (fun s e => s.Allowed i k group e ∧ s.Undisturbed i k group e) s es) :
    GroupRaceOk i k group (ids ++ GroupRace.returnedIds i k group s es)
      (es.foldl (GroupRace.run i k group) s) := by
  induction es generalizing s ids with
  | nil =>
    rw [GroupRace.returnedIds, List.append_nil]
    exact h
  | cons e es ih =>
    rw [GroupRace.returnedIds, ← List.append_assoc]
    exact ih (h.run hes.1.1 hes.1.2) hes.2

/-- An undisturbed read has an answer. -/
theorem answer_ok {t : ℕ} (hfresh : s.Undisturbed i k group (.finish t))
    {a : Except Failure (List StreamEntry)} (ha : s.answer i k group t = some a) :
    ∃ page, a = .ok page := by
  obtain ⟨r, hr, h⟩ := Option.bind_eq_some_iff.mp ha
  obtain ⟨page, hpage, rfl⟩ := Option.map_eq_some_iff.mp h
  cases hlast : page.getLast? with
  | none =>
    rw [List.getLast?_eq_none_iff.mp hlast]
    exact ⟨[], rfl⟩
  | some last =>
    have hnil : page ≠ [] := by
      rintro rfl
      cases hlast
    obtain ⟨g, hg, -⟩ := hfresh r page hr hpage hnil
    obtain ⟨g', hfinish, -⟩ := finishRead_cases r.now r.consumer r.noack hlast hg
    exact ⟨page, congrArg Prod.fst hfinish⟩

end GroupRaceOk

/-- **Overlapping reads share no entry**, as long as each of them finds the group still there, with
its cursor where it was, when it moves the cursor. What the reads return as new, one after the
other, ascends, so that no entry is returned twice; and no read panics. -/
theorem reads_share_nothing (n : ℕ) {pre : List GroupEvent} {es : List ReadEvent} {i : ℕ} {k : Bytes}
    {group : String} (hpre : Run.Along GroupEvent.run (GroupEvent.KeepsStream i k) (Store.new n) pre)
    (hes : Run.Along (GroupRace.run i k group)
      (fun s e => s.Allowed i k group e ∧ s.Undisturbed i k group e)
      ⟨groupsAfter n pre, fun _ => none⟩ es) :
    (GroupRace.returnedIds i k group ⟨groupsAfter n pre, fun _ => none⟩ es).Pairwise
      (fun a b => idRank a < idRank b) ∧
    ∀ before t after, es = before ++ .finish t :: after →
      (before.foldl (GroupRace.run i k group) ⟨groupsAfter n pre, fun _ => none⟩).answer i k group t
        ≠ some (.error .panic) := by
  have hstart : GroupRaceOk i k group [] ⟨groupsAfter n pre, fun _ => none⟩ :=
    ⟨lasting_groupsAfter hpre, List.Pairwise.nil, fun _ _ _ h => absurd h List.not_mem_nil,
      fun _ _ _ h => by cases h⟩
  refine ⟨(hstart.foldl hes).ascending, ?_⟩
  rintro before t after rfl hpanic
  obtain ⟨page, hpage⟩ := GroupRaceOk.answer_ok (Run.along_append.mp hes).2.1.2 hpanic
  cases hpage

/-- A read, and another that joins the group meanwhile. -/
def joinedMeanwhile : List ReadEvent :=
  [.join 0 8 "c" none false, .look 0, .join 1 8 "d" (some 5) true, .finish 0]

theorem reads_share_nothing_joinedMeanwhile :
    (GroupRace.returnedIds 0 (asBytes "k") "g" ⟨groupsAfter 1 oneGroup, fun _ => none⟩
      joinedMeanwhile).Pairwise fun a b => idRank a < idRank b := by
  have hpre : Run.Along GroupEvent.run (GroupEvent.KeepsStream 0 (asBytes "k")) (Store.new 1)
      oneGroup := ⟨trivial, trivial, trivial⟩
  have hes : Run.Along (GroupRace.run 0 (asBytes "k") "g")
      (fun s e => s.Allowed 0 (asBytes "k") "g" e ∧ s.Undisturbed 0 (asBytes "k") "g" e)
      ⟨groupsAfter 1 oneGroup, fun _ => none⟩ joinedMeanwhile := by
    refine ⟨⟨trivial, trivial⟩, ⟨trivial, trivial⟩, ⟨trivial, trivial⟩, ⟨trivial, ?_⟩, trivial⟩
    intro r page hr hpage hnil
    have hread : (((joinedMeanwhile.take 3).foldl (GroupRace.run 0 (asBytes "k") "g")
        ⟨groupsAfter 1 oneGroup, fun _ => none⟩).reads 0).map OpenRead.cursor = some (0, 0) := by
      decide +kernel
    have hgroup : (((joinedMeanwhile.take 3).foldl (GroupRace.run 0 (asBytes "k") "g")
        ⟨groupsAfter 1 oneGroup, fun _ => none⟩).store.tables.group? 0 (asBytes "k") "g").map
          Tables.cursor = some (0, 0) := by
      decide +kernel
    obtain ⟨g, hg, hcursor⟩ := Option.map_eq_some_iff.mp hgroup
    obtain ⟨r', hr', hcursor'⟩ := Option.map_eq_some_iff.mp hread
    obtain rfl := Option.some.inj (hr.symm.trans hr')
    exact ⟨g, hg, hcursor.trans hcursor'.symm⟩
  exact (reads_share_nothing 1 hpre hes).1

/-- Two reads join the group before either of them moves the cursor. -/
def overlapping : List ReadEvent :=
  [.join 0 8 "c" none false, .join 1 8 "d" none false, .look 0, .look 1, .finish 0, .finish 1]

/-- The group is destroyed while an entry is on its way to a consumer. -/
def destroyedMeanwhile : List ReadEvent :=
  [.join 0 8 "c" none false, .look 0, .other (.call 8 0 (asBytes "k") "g" .destroy)]

/-- **Overlapping reads** return the same entry twice, and a read whose group is gone panics. -/
theorem reads_overlap :
    GroupRace.returnedIds 0 (asBytes "k") "g" ⟨groupsAfter 1 oneGroup, fun _ => none⟩ overlapping
      = [(1, 0), (1, 0)] ∧
    (destroyedMeanwhile.foldl (GroupRace.run 0 (asBytes "k") "g") ⟨groupsAfter 1 oneGroup,
      fun _ => none⟩).answer 0 (asBytes "k") "g" 0 = some (.error .panic) :=
  ⟨by decide +kernel, rfl⟩

end VeloDB
