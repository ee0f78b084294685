import VeloDB.Lib.Paging
import VeloDB.Cmd.Delivery

/-!
# Reading a stream in pages

A reader goes through a stream with `stream_entries_after`, page by page, and each page begins
behind the last id of the page before. Between two pages entries are added, deleted and trimmed.
The ids ascend through all of it, and so the reader is shown what a reader of a growing list in
order is shown: every entry that stays until it is passed, once and in order.

## Main results

* `Fed.run` — a key that is only written by stream calls holds a stream in order without an expiry
* `readPages_complete` — pages show every entry that stays until it is passed
-/

namespace VeloDB

open Rust Paging

/-! ### What the calls leave -/

/-- A call on a stream, with its time and its key. -/
structure StreamEdit where
  now : UInt64
  db : ℕ
  key : Bytes
  call : StreamWrite

/-- Execute it. -/
def StreamEdit.run (s : Store) (e : StreamEdit) : Store :=
  (GroupEvent.write e.now e.db e.key e.call).run s

/-- The entries at a key. -/
def entriesAt (s : Store) (i : ℕ) (k : Bytes) : List StreamEntry :=
  ((storedStream (s.databases.find i k)).map Prod.fst).getD []

/-- A stream that is in order and has no entry at `0-0`. -/
structure Proper (d : StreamData) : Prop where
  inOrder : InOrder d
  pos : ∀ e ∈ d.1, 0 < idRank e.id

/-- Nothing is at the key, or a stream without an expiry. -/
def Fed (s : Store) (i : ℕ) (k : Bytes) : Prop :=
  s.databases.find i k = none ∨ ∃ d, StreamAt s i k d ∧ Proper d

theorem Grown.proper {d d' : StreamData} (h : Grown d d') (hd : Proper d) : Proper d' := by
  refine ⟨h.inOrder hd.inOrder, fun e he => ?_⟩
  obtain ⟨new, hsub, -, hbetween⟩ := h.entries
  rcases List.mem_append.mp (hsub.subset he) with he | he
  · exact hd.pos e he
  · exact Nat.zero_lt_of_lt (hbetween e he).1

theorem idRank_pos {id : StreamId} (h : id ≠ (0, 0)) : 0 < idRank id := by
  refine Nat.pos_of_ne_zero fun hzero => h (idRank_injective ?_)
  rw [hzero]
  rfl

/-- An id that is generated for a key without a stream is not `0-0`. -/
theorem generateStreamId_pos {now : UInt64} {dbs : Databases} {i : ℕ} {k idStr : Bytes}
    {id : StreamId} (hlast : dbs.getStreamLastId now i k = (0, 0))
    (h : dbs.generateStreamId now i k idStr = .ok id) : 0 < idRank id := by
  have hms : ∀ {ms seq : UInt64}, 0 < ms → 0 < idRank (ms, seq) := fun hlt =>
    idRank_pos fun heq => (UInt64.ne_of_lt hlt).symm (Prod.mk.inj heq).1
  have hone : ∀ ms : UInt64, 0 < idRank (ms, 0 + 1) := fun ms =>
    idRank_pos fun heq => absurd (Prod.mk.inj heq).2 (by decide)
  rw [Databases.generateStreamId, hlast] at h
  dsimp only at h
  split at h
  · -- `*`
    split at h
    · next hlt =>
      obtain rfl := Except.ok.inj h
      exact hms hlt
    · obtain rfl := Except.ok.inj h
      exact hone 0
  · split at h
    · cases h
    · split at h
      · cases h
      · next ms _ =>
        split at h
        · -- `ms-*`
          split at h
          · obtain rfl := Except.ok.inj h
            exact hms (by decide)
          · split at h
            · next hlt =>
              obtain rfl := Except.ok.inj h
              exact hms hlt
            · obtain rfl := Except.ok.inj h
              exact hone ms
        · split at h
          · cases h
          · split at h
            · cases h
            · next hzero =>
              obtain rfl := Except.ok.inj h
              exact idRank_pos fun heq => hzero (Prod.mk.inj heq)

variable {s : Store} {i : ℕ} {k : Bytes}

/-- The first entry of a stream. -/
theorem proper_addEntry {id : StreamId} (hid : 0 < idRank id) (fields : List (Bytes × Bytes))
    (maxlen : Option ℕ) (last : StreamId) :
    Proper (ContainerWrite.addEntry id fields maxlen ([], last)).2 := by
  refine ⟨inOrder_addEntry id fields maxlen last, fun e he => ?_⟩
  have hsub : (ContainerWrite.addEntry id fields maxlen ([], last)).2.1.Sublist
      [{ idMs := id.1, idSeq := id.2, fields }] := by
    cases maxlen with
    | none => exact List.Sublist.refl _
    | some max => exact List.drop_sublist _ _
  rw [List.mem_singleton.mp (hsub.subset he)]
  exact hid

/-- A call on a key at which nothing is stored. -/
theorem fed_of_none (hnone : s.databases.find i k = none) (e : StreamEdit) :
    Fed (e.run s) i k := by
  obtain ⟨now, j, k', call⟩ := e
  have hlive : s.databases.liveEntry now i k = none := by
    rw [Databases.liveEntry, hnone]
    rfl
  by_cases hne : i ≠ j ∨ k ≠ k'
  · refine Or.inl ?_
    rcases call.run_cases now j k' { databases := s.databases } with h | ⟨b, b', -, -, -, -, h⟩
    · exact (congrArg (fun dbs => dbs.find i k) h).trans hnone
    · exact (congrArg (fun dbs => dbs.find i k) h).trans
        ((Databases.find_put_of_ne hne).trans hnone)
  obtain ⟨rfl, rfl⟩ := not_or.mp hne |>.imp not_ne_iff.mp not_ne_iff.mp
  have hsame : ∀ {s' : Store}, s'.databases = s.databases → Fed s' i k := fun h =>
    Or.inl (h ▸ hnone)
  have hremoves : ∀ {β : Type} {f : StreamData → Except Failure β × StreamData} {missing},
      (∀ s, ∃ es, (f s).2 = (es, s.2) ∧ es.Sublist s.1) →
      (Keyspace.updateAs .stream now i k missing f { databases := s.databases }).2.databases
        = s.databases := by
    intro β f missing hf
    rcases Keyspace.removes_cases hf now i k missing { databases := s.databases } with h |
      ⟨e, _, _, _, he, _⟩
    · rw [h]
    · rw [hlive] at he
      cases he
  cases call with
  | xadd idStr fields maxlen =>
    rcases Keyspace.xadd_cases now i k idStr fields maxlen { databases := s.databases } with
      ⟨e, h⟩ | ⟨id, d, hi, hgen, hd, -, h⟩
    · exact hsame (congrArg (fun r => r.2.databases) h)
    · rw [hnone] at hd
      obtain rfl := Option.some.inj hd
      have hlast : s.databases.getStreamLastId now i k = (0, 0) := by
        rw [Databases.getStreamLastId, streamLastId?_eq hi, hlive]
        rfl
      refine Or.inr ⟨_, ?_, proper_addEntry (generateStreamId_pos hlast hgen) fields maxlen (0, 0)⟩
      rw [StreamEdit.run, GroupEvent.run, StreamWrite.run, h]
      dsimp only
      rw [hnone]
      exact StreamAt.put rfl hi _
  | xdel ids =>
    exact hsame (hremoves fun s => ⟨_, rfl, Keyspace.sublist_foldl_xdelOne _ (0, s.1)⟩)
  | xtrim maxlen => exact hsame (hremoves fun s => ⟨_, rfl, List.drop_sublist _ _⟩)

/-- **One call.** -/
theorem Fed.run (h : Fed s i k) (e : StreamEdit) : Fed (e.run s) i k := by
  rcases h with hnone | ⟨d, hd, hproper⟩
  · exact fed_of_none hnone e
  · obtain ⟨d', hd', hgrown⟩ := hd.run (e := .write e.now e.db e.key e.call) trivial
    exact Or.inr ⟨d', hd', hgrown.proper hproper⟩

theorem Fed.foldl (h : Fed s i k) (edits : List StreamEdit) :
    Fed (edits.foldl StreamEdit.run s) i k := by
  induction edits generalizing s with
  | nil => exact h
  | cons e edits ih => exact ih (h.run e)

theorem length_run (s : Store) (e : StreamEdit) :
    (e.run s).databases.length = s.databases.length := by
  rcases e.call.run_cases e.now e.db e.key { databases := s.databases } with
    h | ⟨b, b', -, -, -, -, h⟩
  · exact congrArg List.length h
  · exact (congrArg List.length h).trans Databases.length_put

theorem length_foldl (s : Store) (edits : List StreamEdit) :
    (edits.foldl StreamEdit.run s).databases.length = s.databases.length := by
  induction edits generalizing s with
  | nil => rfl
  | cons e edits ih => rw [List.foldl_cons, ih, length_run]

/-! ### Pages -/

/-- One page: what has been done to streams since the page before, the time, and the `COUNT`. -/
structure PageRead where
  edits : List StreamEdit
  now : UInt64
  count : Option ℕ

/-- The last id that a reader has been shown who has begun behind `start`. -/
def lastShown (start : StreamId) (shown : List StreamEntry) : StreamId :=
  (shown.getLast?.map StreamEntry.id).getD start

/-- Read page after page, each behind the last id of the page before. What comes out are the pages,
each with the store from which it has been read. -/
def readPages (i : ℕ) (k : Bytes) :
    Store → StreamId → List PageRead → Except VeloDBError (List (Store × List StreamEntry))
  | _, _, [] => pure []
  | s, after, r :: rs => do
    let s := r.edits.foldl StreamEdit.run s
    let page ← s.databases.streamEntriesAfter r.now i k after r.count
    let rest ← readPages i k s (lastShown after page) rs
    pure ((s, page) :: rest)

/-- The store from which a page is read. -/
def PageRead.store (r : PageRead) (s : Store) : Store := r.edits.foldl StreamEdit.run s

/-- The entries of a page that begins behind an id. -/
def PageRead.page (r : PageRead) (s : Store) (i : ℕ) (k : Bytes) (after : StreamId) :
    List StreamEntry :=
  Databases.limitTo r.count ((entriesAt (r.store s) i k).filter fun e => idAfter e.id after)

/-- All that has been shown. -/
def allShown (pages : List (Store × List StreamEntry)) : List StreamEntry := pages.flatMap Prod.snd

theorem Fed.ascending (h : Fed s i k) : Ascending (entriesAt s i k) := by
  rcases h with hnone | ⟨d, ⟨e, he, -, hd⟩, hproper⟩
  · rw [entriesAt, hnone]
    exact List.Pairwise.nil
  · rw [entriesAt, he, storedStream, Option.bind_some, hd]
    exact hproper.inOrder.ascending

theorem Fed.pos (h : Fed s i k) : ∀ e ∈ entriesAt s i k, 0 < idRank e.id := by
  rcases h with hnone | ⟨d, ⟨e, he, -, hd⟩, hproper⟩
  · rw [entriesAt, hnone]
    exact fun _ h => absurd h List.not_mem_nil
  · rw [entriesAt, he, storedStream, Option.bind_some, hd]
    exact hproper.pos

/-- **One page**, of such a key. -/
theorem Fed.page (h : Fed s i k) (hi : i < s.databases.length) (now : UInt64) (after : StreamId)
    (count : Option ℕ) : s.databases.streamEntriesAfter now i k after count
      = .ok (Databases.limitTo count ((entriesAt s i k).filter fun e => idAfter e.id after)) := by
  have hall : s.databases.streamEntries now i k = .ok (entriesAt s i k) := by
    rcases h with hnone | ⟨d, hd, -⟩
    · have hlive : s.databases.liveEntry now i k = none := by
        rw [Databases.liveEntry, hnone]
        rfl
      rw [Databases.streamEntries, Databases.readAs_none hi hlive, entriesAt, hnone]
      rfl
    · obtain ⟨e, he, hvalue⟩ := hd.liveEntry now
      rw [Databases.streamEntries, Databases.readAs_some he hvalue, entriesAt,
        (Option.filter_eq_some_iff.mp he).1, storedStream, Option.bind_some, hvalue]
      rfl
  rw [Databases.streamEntriesAfter, hall]
  rfl

theorem placeAfter_eq (start : StreamId) (shown : List StreamEntry) :
    placeAfter (fun e : StreamEntry => idRank e.id) (idRank start) shown
      = idRank (lastShown start shown) := by
  rw [placeAfter, lastShown]
  cases shown.getLast? <;> rfl

theorem filter_idAfter (start : StreamId) (l : List StreamEntry) :
    (l.filter fun e => idAfter e.id start) = l.filter fun e => idRank start < idRank e.id := by
  refine List.filter_congr fun e _ => ?_
  rw [Bool.eq_iff_iff, idAfter_iff, decide_eq_true_eq]

theorem lastShown_append (start : StreamId) (shown more : List StreamEntry) :
    lastShown start (shown ++ more) = lastShown (lastShown start shown) more := by
  rw [lastShown, lastShown, lastShown, List.getLast?_append]
  cases more.getLast? <;> rfl

theorem readPages_cons (h : Fed s i k) (hi : i < s.databases.length) (start : StreamId)
    (r : PageRead) (rs : List PageRead) :
    readPages i k s start (r :: rs)
      = (readPages i k (r.store s) (lastShown start (r.page s i k start)) rs).map
          fun rest => (r.store s, r.page s i k start) :: rest := by
  have hlen : i < (r.store s).databases.length := by
    rwa [PageRead.store, length_foldl]
  have hpage : (r.store s).databases.streamEntriesAfter r.now i k start r.count
      = .ok (r.page s i k start) := (h.foldl r.edits).page hlen r.now start r.count
  rw [readPages]
  show ((r.store s).databases.streamEntriesAfter r.now i k start r.count >>= _) = _
  rw [hpage]
  show (readPages i k (r.store s) (lastShown start (r.page s i k start)) rs >>= _) = _
  cases readPages i k (r.store s) (lastShown start (r.page s i k start)) rs <;> rfl

/-- The pages are those of a reader of a list in order. -/
theorem reads_readPages (h : Fed s i k) (hi : i < s.databases.length) (start : StreamId)
    (rs : List PageRead) :
    ∃ pages, readPages i k s start rs = .ok pages ∧ (∀ p ∈ pages, Fed p.1 i k) ∧
      Paging.Reads (fun e : StreamEntry => idRank e.id) (idRank start)
        (pages.map fun p => entriesAt p.1 i k) (pages.map Prod.snd) := by
  induction rs generalizing s start with
  | nil => exact ⟨[], rfl, fun _ h => absurd h List.not_mem_nil, .nil _⟩
  | cons r rs ih =>
    have hfed : Fed (r.store s) i k := h.foldl r.edits
    have hlen : i < (r.store s).databases.length := by
      rwa [PageRead.store, length_foldl]
    obtain ⟨pages, hpages, hall, hreads⟩ := ih hfed hlen (lastShown start (r.page s i k start))
    refine ⟨(r.store s, r.page s i k start) :: pages, ?_, ?_, .cons ?_ ?_⟩
    · rw [readPages_cons h hi, hpages]
      rfl
    · exact List.forall_mem_cons.mpr ⟨hfed, hall⟩
    · rw [← filter_idAfter, PageRead.page]
      exact prefix_limitTo _ _
    · rw [placeAfter_eq]
      exact hreads

/-- From where a page is read. -/
theorem readPages_getElem (h : Fed s i k) (hi : i < s.databases.length) {start : StreamId}
    {rs : List PageRead} {pages : List (Store × List StreamEntry)}
    (hpages : readPages i k s start rs = .ok pages) {j : ℕ} {p : Store × List StreamEntry}
    {r : PageRead} (hp : pages[j]? = some p) (hr : rs[j]? = some r) :
    p.2 = Databases.limitTo r.count ((entriesAt p.1 i k).filter fun e =>
      idAfter e.id (lastShown start (allShown (pages.take j)))) := by
  induction rs generalizing s start pages j with
  | nil => cases hr
  | cons r' rs ih =>
    rw [readPages_cons h hi] at hpages
    have hlen : i < (r'.store s).databases.length := by
      rwa [PageRead.store, length_foldl]
    cases hrest : readPages i k (r'.store s) (lastShown start (r'.page s i k start)) rs with
    | error e =>
      rw [hrest] at hpages
      cases hpages
    | ok rest =>
      rw [hrest] at hpages
      obtain rfl := Except.ok.inj hpages
      cases j with
      | zero =>
        obtain rfl := Option.some.inj hp
        obtain rfl := Option.some.inj hr
        rfl
      | succ j =>
        have hih := ih (h.foldl r'.edits) hlen hrest hp hr
        rwa [List.take_succ_cons, allShown, List.flatMap_cons, lastShown_append]

/-! ### Nothing is missed -/

/-- Whenever the reader has not passed the entry, it is in the stream. -/
def StaysAhead (i : ℕ) (k : Bytes) (start : StreamId) (pages : List (Store × List StreamEntry))
    (e : StreamEntry) : Prop :=
  ∀ j p, pages[j]? = some p → idRank (lastShown start (allShown (pages.take j))) < idRank e.id →
    e ∈ entriesAt p.1 i k

/-- A page with fewer entries than asked for goes past everything in the stream. -/
theorem le_lastShown_of_short {after : StreamId} {count : Option ℕ} {page : List StreamEntry}
    {all : List StreamEntry} (hall : Ascending all)
    (hpage : page = Databases.limitTo count (all.filter fun e => idAfter e.id after))
    (hshort : ∀ n ∈ count, page.length < n) {e : StreamEntry} (he : e ∈ all) :
    idRank e.id ≤ idRank (lastShown after page) := by
  have hwhole : page = all.filter fun e => idRank after < idRank e.id := by
    rw [← filter_idAfter, hpage]
    cases count with
    | none => rfl
    | some n =>
      refine List.take_of_length_le ?_
      have hlt := hshort n rfl
      rw [hpage, Databases.limitTo, List.length_take] at hlt
      omega
  rw [← placeAfter_eq]
  exact le_placeAfter_of_whole hall hwhole he

/-- What a reader gets who reads a stream in pages, from behind `start`. -/
structure ReadsAll (i : ℕ) (k : Bytes) (start : StreamId) (rs : List PageRead)
    (pages : List (Store × List StreamEntry)) : Prop where
  /-- In order, and each entry once. -/
  ascending : Ascending (allShown pages)
  behind : ∀ e ∈ allShown pages, idRank start < idRank e.id
  /-- What stays until it is passed. -/
  complete : ∀ e, idRank start < idRank e.id → StaysAhead i k start pages e →
    idRank e.id ≤ idRank (lastShown start (allShown pages)) → e ∈ allShown pages
  /-- With a page that is not full, everything that is in the stream has been passed. -/
  passed : ∀ j p r, pages[j]? = some p → rs[j]? = some r → (∀ n ∈ r.count, p.2.length < n) →
    ∀ e ∈ entriesAt p.1 i k, idRank e.id ≤ idRank (lastShown start (allShown (pages.take (j + 1))))
  /-- Behind `0-0` is everything. -/
  pos : ∀ p ∈ pages, ∀ e ∈ entriesAt p.1 i k, idRank (0, 0) < idRank e.id

theorem readsAll (h : Fed s i k) (hi : i < s.databases.length) (start : StreamId)
    (rs : List PageRead) :
    ∃ pages, readPages i k s start rs = .ok pages ∧ ReadsAll i k start rs pages := by
  obtain ⟨pages, hpages, hfed, hreads⟩ := reads_readPages h hi start rs
  have hsorted : ∀ l ∈ pages.map fun p => entriesAt p.1 i k,
      l.Pairwise fun a b => idRank a.id < idRank b.id := by
    intro l hl
    obtain ⟨p, hp, rfl⟩ := List.mem_map.mp hl
    exact (hfed p hp).ascending
  have hshown : ∀ l : List (Store × List StreamEntry), (l.map Prod.snd).flatten = allShown l :=
    fun _ => rfl
  obtain ⟨hasc, hbehind⟩ := hreads.ascending hsorted
  refine ⟨pages, hpages, hasc, hbehind, fun e he hstays hpassed => ?_,
    fun j p r hp hr hshort e he => ?_, fun p hp => (hfed p hp).pos⟩
  · refine hreads.mem_of_passed hsorted he ?_ fun j l hl hplace => ?_
    · rwa [hshown, placeAfter_eq]
    · rw [List.getElem?_map, Option.map_eq_some_iff] at hl
      obtain ⟨p, hp, rfl⟩ := hl
      rw [← List.map_take, hshown, placeAfter_eq] at hplace
      exact hstays j p hp hplace
  · have hpage := readPages_getElem h hi hpages hp hr
    have hnext : lastShown start (allShown (pages.take (j + 1)))
        = lastShown (lastShown start (allShown (pages.take j))) p.2 := by
      rw [List.take_add_one, hp, ← lastShown_append]
      simp [allShown]
    rw [hnext]
    exact le_lastShown_of_short (hfed p (List.mem_of_getElem? hp)).ascending hpage hshort he

/-- **Reading a stream in pages.** A key at which nothing is stored is written by any calls on
streams, and read with any counts between them. The pages are in order and leave nothing out that
stays until it is passed; and a range that is read backwards is the range that is read forwards. -/
theorem readPages_complete :
    (∀ (s : Store) (i : ℕ) (k : Bytes), i < s.databases.length → s.databases.find i k = none →
      ∀ (start : StreamId) (rs : List PageRead), ∃ pages,
        readPages i k s start rs = .ok pages ∧ ReadsAll i k start rs pages) ∧
    ∀ (now : UInt64) (dbs : Databases) (i : ℕ) (k start stop : Bytes),
      dbs.xrevrange now i k stop start none
        = (dbs.xrange now i k start stop none).map List.reverse := by
  refine ⟨fun s i k hi hnone start rs => readsAll (Or.inl hnone) hi start rs,
    fun now dbs i k start stop => ?_⟩
  rw [Databases.xrevrange, Databases.xrange]
  cases dbs.streamEntries now i k <;> rfl

/-- An `XADD` to the key `k` of database 0. -/
def addTo (id : String) : StreamEdit := ⟨7, 0, asBytes "k", .xadd (asBytes id) [([], [])] none⟩

/-- Two entries are added, and a third one between two pages. -/
def twoPages : List PageRead := [⟨[addTo "5-0", addTo "5-*"], 7, some 1⟩, ⟨[addTo "*"], 8, none⟩]

theorem readPages_complete_twoPages : ∃ pages, ReadsAll 0 (asBytes "k") (0, 0) twoPages pages ∧
    (allShown pages).map StreamEntry.id = [(5, 0), (5, 1), (7, 0)] := by
  obtain ⟨pages, hpages, hall⟩ := readPages_complete.1 (Store.new 1) 0 (asBytes "k")
    (by decide) rfl (0, 0) twoPages
  have hids : (readPages 0 (asBytes "k") (Store.new 1) (0, 0) twoPages).toOption.map
      (fun pages => (allShown pages).map StreamEntry.id) = some [(5, 0), (5, 1), (7, 0)] := by
    decide +kernel
  rw [hpages] at hids
  exact ⟨pages, hall, Option.some.inj hids⟩

end VeloDB
