import VeloDB.Cmd.GroupCalls

/-!
# Pending entries

What a group has delivered and what has not been acknowledged is pending, with the consumer that has
it. `GroupOk` is what holds of the book-keeping in every state, and `pendingAt` says of each call
what it does to one entry.

## Main results

* `pendingAt_deliver`, `pendingAt_ack`, `pendingAt_claim` and the like — one call, one entry
* `GroupOk.step` — the invariant through every call
* `groups_consistent` — the book-keeping in every state, and what `XPENDING` makes of it
* `pending_until_acknowledged` — how long an entry stays pending
-/

namespace VeloDB

open Rust Proc

/-! ### One pending entry -/

/-- The pending entries are in the order of their ids. -/
def PendingSorted (g : ConsumerGroup) : Prop := BTree.Sorted idRank (fun _ => True) g.pending

/-- What is pending at an id. -/
def pendingAt (g : ConsumerGroup) (id : StreamId) : Option PendingEntry :=
  BTree.get? compareId id g.pending

theorem compareId_rank (a b : StreamId) (_ : True) (_ : True) :
    compareId a b = compare (idRank a) (idRank b) := compareId_eq a b

section Entries

variable {g : ConsumerGroup} {id : StreamId} {p : PendingEntry}

theorem mem_pending_iff (hg : PendingSorted g) : (id, p) ∈ g.pending ↔ pendingAt g id = some p :=
  BTree.mem_iff_get? compareId_rank idRank_injective trivial hg

theorem PendingSorted.alter (hg : PendingSorted g) (id : StreamId)
    (f : Option PendingEntry → Option PendingEntry) :
    PendingSorted { g with pending := BTree.alter compareId id f g.pending } :=
  BTree.Sorted.alter compareId_rank trivial f hg

theorem pendingAt_alter (hg : PendingSorted g) (id id' : StreamId)
    (f : Option PendingEntry → Option PendingEntry) :
    pendingAt { g with pending := BTree.alter compareId id f g.pending } id'
      = if id' = id then f (pendingAt g id) else pendingAt g id' := by
  rw [pendingAt, BTree.get?_alter compareId_rank trivial trivial f hg]
  simp only [idRank_injective.eq_iff]
  rfl

/-- The entries of a page, one after the other. -/
theorem pendingAt_foldl_setPending (now : UInt64) (consumer : String) (page : List StreamEntry)
    (hg : PendingSorted g) :
    PendingSorted (page.foldl (fun g e => Tables.setPending g e.id ⟨consumer, now, 1⟩) g) ∧
    ∀ id, pendingAt (page.foldl (fun g e => Tables.setPending g e.id ⟨consumer, now, 1⟩) g) id
      = if id ∈ page.map StreamEntry.id then some ⟨consumer, now, 1⟩ else pendingAt g id := by
  induction page generalizing g with
  | nil => exact ⟨hg, fun id => by simp⟩
  | cons e page ih =>
    obtain ⟨hsorted, hat⟩ := ih (hg.alter e.id fun _ => some ⟨consumer, now, 1⟩)
    refine ⟨hsorted, fun id => (hat id).trans ?_⟩
    rw [pendingAt_alter hg]
    by_cases hid : id = e.id <;> simp [hid]

theorem foldl_setPending_fields (now : UInt64) (consumer : String) (page : List StreamEntry)
    (g : ConsumerGroup) :
    (page.foldl (fun g e => Tables.setPending g e.id ⟨consumer, now, 1⟩) g).consumers
      = g.consumers ∧
    Tables.cursor (page.foldl (fun g e => Tables.setPending g e.id ⟨consumer, now, 1⟩) g)
      = Tables.cursor g := by
  induction page generalizing g with
  | nil => exact ⟨rfl, rfl⟩
  | cons e page ih => exact ih _

/-- Delivering a page leaves everything but the cursor, the consumers and the pending entries. -/
theorem deliver_fields (now : UInt64) (consumer : String) (noack : Bool) (page : List StreamEntry)
    (g : ConsumerGroup) :
    (Tables.deliver now consumer noack page g).consumers = g.consumers.insert consumer () ∧
    Tables.cursor (Tables.deliver now consumer noack page g)
      = (page.getLast?.map StreamEntry.id).getD (Tables.cursor g) := by
  rw [Tables.deliver]
  cases page.getLast? with
  | none => exact ⟨rfl, rfl⟩
  | some last =>
    dsimp only
    split
    · exact ⟨rfl, rfl⟩
    · exact foldl_setPending_fields now consumer page _

/-- **Delivering a page.** -/
theorem pendingAt_deliver (now : UInt64) (consumer : String) (noack : Bool)
    (page : List StreamEntry) (hg : PendingSorted g) :
    PendingSorted (Tables.deliver now consumer noack page g) ∧
    ∀ id, pendingAt (Tables.deliver now consumer noack page g) id
      = if noack = false ∧ id ∈ page.map StreamEntry.id then some ⟨consumer, now, 1⟩
        else pendingAt g id := by
  rw [Tables.deliver]
  cases hlast : page.getLast? with
  | none =>
    obtain rfl := List.getLast?_eq_none_iff.mp hlast
    exact ⟨hg, fun id => by simp [pendingAt, Tables.withConsumer]⟩
  | some last =>
    cases noack with
    | true => exact ⟨hg, fun id => by simp [pendingAt, Tables.withConsumer]⟩
    | false =>
      obtain ⟨hsorted, hat⟩ := pendingAt_foldl_setPending now consumer page (g := { g with
        consumers := g.consumers.insert consumer ()
        lastDeliveredMs := last.idMs, lastDeliveredSeq := last.idSeq }) hg
      exact ⟨hsorted, fun id => (hat id).trans (by simp [pendingAt])⟩

/-- Acknowledging leaves everything but the pending entries. -/
theorem ack_fields (ids : List StreamId) (r : ℕ × ConsumerGroup) :
    (ids.foldl Tables.ackOne r).2.consumers = r.2.consumers ∧
    Tables.cursor (ids.foldl Tables.ackOne r).2 = Tables.cursor r.2 := by
  induction ids generalizing r with
  | nil => exact ⟨rfl, rfl⟩
  | cons a ids ih =>
    have hone : (Tables.ackOne r a).2.consumers = r.2.consumers ∧
        Tables.cursor (Tables.ackOne r a).2 = Tables.cursor r.2 := by
      rw [Tables.ackOne]
      split <;> exact ⟨rfl, rfl⟩
    exact ⟨(ih _).1.trans hone.1, (ih _).2.trans hone.2⟩

/-- **Acknowledging.** -/
theorem pendingAt_ack (ids : List StreamId) (r : ℕ × ConsumerGroup) (hg : PendingSorted r.2) :
    PendingSorted (ids.foldl Tables.ackOne r).2 ∧
    ∀ id, pendingAt (ids.foldl Tables.ackOne r).2 id
      = if id ∈ ids then none else pendingAt r.2 id := by
  induction ids generalizing r with
  | nil => exact ⟨hg, fun id => by simp⟩
  | cons a ids ih =>
    have hone : PendingSorted (Tables.ackOne r a).2 ∧
        ∀ id, pendingAt (Tables.ackOne r a).2 id = if id = a then none else pendingAt r.2 id := by
      rw [Tables.ackOne]
      split
      · exact ⟨hg.alter a _, fun id => pendingAt_alter hg a id _⟩
      · next hnone =>
        refine ⟨hg, fun id => ?_⟩
        split
        · next hid =>
          rw [hid]
          simpa [pendingAt] using hnone
        · rfl
    obtain ⟨hsorted, hat⟩ := ih (Tables.ackOne r a) hone.1
    refine ⟨hsorted, fun id => ?_⟩
    rw [List.foldl_cons, hat, hone.2]
    by_cases hid : id = a <;> simp [hid]

/-- Claiming leaves everything but the pending entries. -/
theorem claim_fields (now : UInt64) (consumer : String) (minIdleMs : UInt64)
    (ids : List StreamId) (r : List StreamId × ConsumerGroup) :
    (ids.foldl (Tables.claimOne now consumer minIdleMs) r).2.consumers = r.2.consumers ∧
    Tables.cursor (ids.foldl (Tables.claimOne now consumer minIdleMs) r).2
      = Tables.cursor r.2 := by
  induction ids generalizing r with
  | nil => exact ⟨rfl, rfl⟩
  | cons a ids ih =>
    have hone : (Tables.claimOne now consumer minIdleMs r a).2.consumers = r.2.consumers ∧
        Tables.cursor (Tables.claimOne now consumer minIdleMs r a).2 = Tables.cursor r.2 := by
      rw [Tables.claimOne]
      split
      · split <;> exact ⟨rfl, rfl⟩
      · exact ⟨rfl, rfl⟩
    exact ⟨(ih _).1.trans hone.1, (ih _).2.trans hone.2⟩

/-- **Claiming.** What is claimed goes to the consumer, with its deliveries counted. -/
theorem pendingAt_claim (now : UInt64) (consumer : String) (minIdleMs : UInt64)
    (ids : List StreamId) (r : List StreamId × ConsumerGroup) (hg : PendingSorted r.2) :
    PendingSorted (ids.foldl (Tables.claimOne now consumer minIdleMs) r).2 ∧
    ∀ id, pendingAt (ids.foldl (Tables.claimOne now consumer minIdleMs) r).2 id = pendingAt r.2 id ∨
      ∃ p p', pendingAt r.2 id = some p ∧ p'.consumer = consumer ∧
        p.deliveryCount ≤ p'.deliveryCount ∧
        pendingAt (ids.foldl (Tables.claimOne now consumer minIdleMs) r).2 id = some p' := by
  induction ids generalizing r with
  | nil => exact ⟨hg, fun id => Or.inl rfl⟩
  | cons a ids ih =>
    have hone : PendingSorted (Tables.claimOne now consumer minIdleMs r a).2 ∧
        ∀ id, pendingAt (Tables.claimOne now consumer minIdleMs r a).2 id = pendingAt r.2 id ∨
          ∃ p, pendingAt r.2 id = some p ∧
            pendingAt (Tables.claimOne now consumer minIdleMs r a).2 id
              = some ⟨consumer, now, p.deliveryCount + 1⟩ := by
      rw [Tables.claimOne]
      split
      · next p hp =>
        split
        · refine ⟨hg.alter a _, fun id => ?_⟩
          have hat := pendingAt_alter hg a id fun _ => some ⟨consumer, now, p.deliveryCount + 1⟩
          by_cases hid : id = a
          · rw [if_pos hid] at hat
            exact Or.inr ⟨p, hid ▸ hp, hat⟩
          · rw [if_neg hid] at hat
            exact Or.inl hat
        · exact ⟨hg, fun id => Or.inl rfl⟩
      · exact ⟨hg, fun id => Or.inl rfl⟩
    obtain ⟨hsorted, hat⟩ := ih _ hone.1
    refine ⟨hsorted, fun id => ?_⟩
    rw [List.foldl_cons]
    rcases hone.2 id with h | ⟨p, hp, h⟩
    · rw [← h]
      exact hat id
    · rcases hat id with h' | ⟨q, q', hq, hconsumer, hle, h'⟩
      · exact Or.inr ⟨p, _, hp, rfl, Nat.le_succ _, h'.trans h⟩
      · obtain rfl := Option.some.inj (h.symm.trans hq)
        exact Or.inr ⟨p, q', hp, hconsumer, (Nat.le_succ _).trans hle, h'⟩

/-- **Removing a consumer.** -/
theorem pendingAt_withoutConsumer (consumer : String) (hg : PendingSorted g) :
    PendingSorted (withoutConsumer g consumer) ∧
    ∀ id, pendingAt (withoutConsumer g consumer) id
      = (pendingAt g id).filter fun p => p.consumer ≠ consumer := by
  have hsorted : PendingSorted (withoutConsumer g consumer) := hg.sublist List.filter_sublist
  refine ⟨hsorted, fun id => Option.ext fun p => ?_⟩
  rw [← mem_pending_iff hsorted, Option.filter_eq_some_iff, ← mem_pending_iff hg]
  exact List.mem_filter

end Entries

/-! ### The pages that are read -/

theorem prefix_limitTo {α : Type} (count : Option ℕ) (l : List α) :
    Databases.limitTo count l <+: l := by
  cases count with
  | none => exact List.prefix_refl l
  | some n => exact List.take_prefix n l

theorem Ascending.le_getLast {l : List StreamEntry} (hl : Ascending l) {last : StreamEntry}
    (hlast : l.getLast? = some last) {e : StreamEntry} (he : e ∈ l) :
    idRank e.id ≤ idRank last.id := by
  obtain ⟨init, rfl⟩ := List.getLast?_eq_some_iff.mp hlast
  rcases List.mem_append.mp he with he | he
  · exact ((List.pairwise_append.mp hl).2.2 e he last (List.mem_singleton.mpr rfl)).le
  · rw [List.mem_singleton.mp he]

/-- A page of new entries is in order and behind the cursor. -/
theorem ascending_newPage {g : ConsumerGroup} {all : List StreamEntry} (hall : Ascending all)
    (count : Option ℕ) : Ascending (Tables.newPage g count all) ∧
      ∀ e ∈ Tables.newPage g count all, e ∈ all ∧ idRank (Tables.cursor g) < idRank e.id := by
  have hsub := (prefix_limitTo count (all.filter fun e => idAfter e.id (Tables.cursor g))).sublist
  refine ⟨hall.sublist (hsub.trans List.filter_sublist), fun e he => ?_⟩
  obtain ⟨hmem, hafter⟩ := List.mem_filter.mp (hsub.subset he)
  exact ⟨hmem, (idAfter_iff _ _).mp hafter⟩

/-! ### The invariant of a group -/

/-- The book-keeping of a group: who has something pending is a consumer, what is pending has been
passed by the cursor, and it has been delivered at least once. -/
structure GroupOk (g : ConsumerGroup) : Prop where
  sorted : PendingSorted g
  known : ∀ id p, pendingAt g id = some p → (g.consumers.lookup p.consumer).isSome
  behind : ∀ id p, pendingAt g id = some p → idRank id ≤ idRank (Tables.cursor g)
  counted : ∀ id p, pendingAt g id = some p → 1 ≤ p.deliveryCount

theorem isSome_lookup_insert {m : HashSet String} {c : String} (h : (m.lookup c).isSome)
    (c' : String) : ((m.insert c' ()).lookup c).isSome := by
  by_cases hc : c = c'
  · subst hc
    simp [AList.lookup_insert]
  · rwa [AList.lookup_insert_ne hc]

namespace GroupOk

variable {g : ConsumerGroup}

theorem new (start : StreamId) : GroupOk (newGroup start) where
  sorted := BTree.sorted_nil
  known _ _ h := by cases h
  behind _ _ h := by cases h
  counted _ _ h := by cases h

theorem withConsumer (hg : GroupOk g) (consumer : String) :
    GroupOk (Tables.withConsumer g consumer) where
  sorted := hg.sorted
  known id p h := isSome_lookup_insert (hg.known id p h) consumer
  behind := hg.behind
  counted := hg.counted

theorem withoutConsumer (hg : GroupOk g) (consumer : String) :
    GroupOk (withoutConsumer g consumer) := by
  obtain ⟨hsorted, hat⟩ := pendingAt_withoutConsumer consumer hg.sorted
  have hold : ∀ id p, pendingAt (VeloDB.withoutConsumer g consumer) id = some p →
      pendingAt g id = some p ∧ p.consumer ≠ consumer := by
    intro id p h
    rw [hat, Option.filter_eq_some_iff] at h
    simpa using h
  refine ⟨hsorted, fun id p h => ?_, fun id p h => hg.behind id p (hold id p h).1,
    fun id p h => hg.counted id p (hold id p h).1⟩
  rw [VeloDB.withoutConsumer]
  dsimp only
  rw [AList.lookup_erase_ne (hold id p h).2]
  exact hg.known id p (hold id p h).1

theorem deliver (hg : GroupOk g) {all : List StreamEntry} (hall : Ascending all) (now : UInt64)
    (consumer : String) (noack : Bool) (count : Option ℕ) :
    GroupOk (Tables.deliver now consumer noack (Tables.newPage g count all) g) := by
  obtain ⟨hpage, hmem⟩ := ascending_newPage (g := g) hall count
  obtain ⟨hsorted, hat⟩ :=
    pendingAt_deliver now consumer noack (Tables.newPage g count all) hg.sorted
  obtain ⟨hconsumers, hcursor⟩ := deliver_fields now consumer noack (Tables.newPage g count all) g
  -- the cursor goes to the last entry of the page, which none is behind
  have hmoved : idRank (Tables.cursor g) ≤ idRank (Tables.cursor
      (Tables.deliver now consumer noack (Tables.newPage g count all) g)) ∧
      ∀ e ∈ Tables.newPage g count all, idRank e.id ≤ idRank (Tables.cursor
        (Tables.deliver now consumer noack (Tables.newPage g count all) g)) := by
    rw [hcursor]
    cases hlast : (Tables.newPage g count all).getLast? with
    | none =>
      rw [List.getLast?_eq_none_iff.mp hlast]
      exact ⟨le_rfl, fun _ h => absurd h List.not_mem_nil⟩
    | some last =>
      exact ⟨(hmem last (List.mem_of_getLast? hlast)).2.le, fun e he => hpage.le_getLast hlast he⟩
  refine ⟨hsorted, fun id p h => ?_, fun id p h => ?_, fun id p h => ?_⟩
  · rw [hconsumers]
    rw [hat] at h
    split at h
    · obtain rfl := Option.some.inj h
      simp [AList.lookup_insert]
    · exact isSome_lookup_insert (hg.known id p h) consumer
  · rw [hat] at h
    split at h
    · next hnew =>
      obtain ⟨e, he, rfl⟩ := List.mem_map.mp hnew.2
      exact hmoved.2 e he
    · exact (hg.behind id p h).trans hmoved.1
  · rw [hat] at h
    split at h
    · obtain rfl := Option.some.inj h
      exact le_rfl
    · exact hg.counted id p h

theorem ack (hg : GroupOk g) (ids : List StreamId) : GroupOk (ids.foldl Tables.ackOne (0, g)).2 := by
  obtain ⟨hsorted, hat⟩ := pendingAt_ack ids (0, g) hg.sorted
  obtain ⟨hconsumers, hcursor⟩ := ack_fields ids (0, g)
  have hold : ∀ id p, pendingAt (ids.foldl Tables.ackOne (0, g)).2 id = some p →
      pendingAt g id = some p := by
    intro id p h
    rw [hat] at h
    split at h
    · cases h
    · exact h
  refine ⟨hsorted, fun id p h => ?_, fun id p h => ?_, fun id p h => hg.counted id p (hold id p h)⟩
  · rw [hconsumers]
    exact hg.known id p (hold id p h)
  · rw [hcursor]
    exact hg.behind id p (hold id p h)

theorem claim (hg : GroupOk g) (now : UInt64) (consumer : String) (minIdleMs : UInt64)
    (ids : List StreamId) : GroupOk (ids.foldl (Tables.claimOne now consumer minIdleMs)
      ([], Tables.withConsumer g consumer)).2 := by
  have hjoined := hg.withConsumer consumer
  obtain ⟨hsorted, hat⟩ :=
    pendingAt_claim now consumer minIdleMs ids ([], Tables.withConsumer g consumer) hjoined.sorted
  obtain ⟨hconsumers, hcursor⟩ :=
    claim_fields now consumer minIdleMs ids ([], Tables.withConsumer g consumer)
  refine ⟨hsorted, fun id p h => ?_, fun id p h => ?_, fun id p h => ?_⟩
  · rw [hconsumers]
    rcases hat id with hsame | ⟨q, q', -, hconsumer, -, hq'⟩
    · exact hjoined.known id p (hsame ▸ h)
    · obtain rfl := Option.some.inj (h.symm.trans hq')
      rw [hconsumer]
      simp [Tables.withConsumer, AList.lookup_insert]
  · rw [hcursor]
    rcases hat id with hsame | ⟨q, q', hq, -, -, -⟩
    · exact hjoined.behind id p (hsame ▸ h)
    · exact hjoined.behind id q hq
  · rcases hat id with hsame | ⟨q, q', hq, -, hle, hq'⟩
    · exact hjoined.counted id p (hsame ▸ h)
    · obtain rfl := Option.some.inj (h.symm.trans hq')
      exact (hjoined.counted id q hq).trans hle

/-- **Every call** keeps the books. -/
theorem step {now : UInt64} {dbs dbs' : Databases} {i : ℕ} {k : Bytes} {c : GroupCall}
    {o o' : Option ConsumerGroup} (h : GroupStep now dbs dbs' i k c o o')
    (hdbs : ∀ all, dbs.streamEntries now i k = .ok all → Ascending all)
    (ho : ∀ g, o = some g → GroupOk g) {g : ConsumerGroup} (hg : o' = some g) : GroupOk g := by
  cases h with
  | refused => exact ho g hg
  | destroyed => cases hg
  | created =>
    obtain rfl := Option.some.inj hg
    exact new _
  | consumerCreated g₀ consumer =>
    obtain rfl := Option.some.inj hg
    exact (ho g₀ rfl).withConsumer consumer
  | consumerDeleted g₀ consumer =>
    obtain rfl := Option.some.inj hg
    exact (ho g₀ rfl).withoutConsumer consumer
  | delivered g₀ consumer count noack hall =>
    obtain rfl := Option.some.inj hg
    exact (ho g₀ rfl).deliver (hdbs _ hall) now consumer noack count
  | reread g₀ consumer =>
    obtain rfl := Option.some.inj hg
    exact (ho g₀ rfl).withConsumer consumer
  | acked g₀ ids =>
    obtain rfl := Option.some.inj hg
    exact (ho g₀ rfl).ack ids
  | claimed g₀ consumer minIdleMs ids =>
    obtain rfl := Option.some.inj hg
    exact (ho g₀ rfl).claim now consumer minIdleMs ids

end GroupOk

/-! ### Streams without an expiry -/

/-- What is stored at a key is in order and stays, if it is a stream. -/
def Lasting (o : Option Entry) : Prop :=
  ∀ e d, o = some e → Kind.stream.unwrap e.value = some d → e.expireAt = none ∧ InOrder d

/-- What is no call makes no stream at a key, and leaves what is there alone or removes it. -/
def GroupEvent.KeepsStream (i : ℕ) (k : Bytes) (s : Store) : GroupEvent → Prop
  | other s' => ∀ e d, s'.databases.find i k = some e → Kind.stream.unwrap e.value = some d →
    s.databases.find i k = some e
  | call .. | write .. => True

section Lasting

variable {s : Store} {dbs : Databases} {i : ℕ} {k : Bytes}

theorem not_expired_of_none {e : Entry} (he : e.expireAt = none) (now : UInt64) :
    e.expired now = false := by
  rw [Entry.expired, he]

theorem Lasting.put {e : Entry} {d : StreamData} (hexp : e.expireAt = none) (hd : InOrder d)
    (hi : i < dbs.length) :
    Lasting ((dbs.put i k { e with value := Kind.stream.wrap d }).find i k) := by
  rintro e' d' he' hd'
  rw [Databases.find_put_self hi] at he'
  obtain rfl := Option.some.inj he'
  exact ⟨hexp, Option.some.inj hd' ▸ hd⟩

/-- **No call** gives a stream an expiry, or brings it out of order. -/
theorem GroupEvent.lasting_run {e : GroupEvent} (he : e.KeepsStream i k s)
    (hs : Lasting (s.databases.find i k)) : Lasting ((e.run s).databases.find i k) := by
  cases e with
  | call now j k' group c =>
    rw [run]
    rcases c.databases_run now j k' group s with h | ⟨hj, -, h⟩
    · rwa [h]
    · rw [h]
      by_cases hne : i ≠ j ∨ k ≠ k'
      · rwa [Databases.find_put_of_ne hne]
      · obtain ⟨rfl, rfl⟩ := not_or.mp hne |>.imp not_ne_iff.mp not_ne_iff.mp
        exact Lasting.put (e := { value := .stream [] 0 0 }) rfl (inOrder_nil (0, 0)) hj
  | write now j k' w =>
    rw [run]
    dsimp only
    rcases w.run_cases now j k' { databases := s.databases } with h | ⟨d, d', hj, hd, hnew, hgrown, h⟩
    · rwa [h]
    · rw [h]
      by_cases hne : i ≠ j ∨ k ≠ k'
      · rwa [Databases.find_put_of_ne hne]
      · obtain ⟨rfl, rfl⟩ := not_or.mp hne |>.imp not_ne_iff.mp not_ne_iff.mp
        cases hfind : s.databases.find i k with
        | none =>
          rw [entryOrNew, hfind]
          exact Lasting.put rfl (hnew hfind) hj
        | some e =>
          rw [entryOrNew, hfind] at hd ⊢
          obtain ⟨hexp, hd⟩ := hs e d hfind hd
          exact Lasting.put hexp ((hgrown e hfind (not_expired_of_none hexp now)).inOrder hd) hj
  | other s' => exact fun e' d he' hd => hs e' d (he e' d he' hd) hd

/-- What is read of a stream. -/
theorem streamEntries_cases {now : UInt64} {all : List StreamEntry}
    (h : dbs.streamEntries now i k = .ok all) : dbs.liveEntry now i k = none ∧ all = [] ∨
      ∃ e d, dbs.liveEntry now i k = some e ∧ Kind.stream.unwrap e.value = some d ∧ all = d.1 := by
  rw [Databases.streamEntries] at h
  cases he : dbs.liveEntry now i k with
  | none =>
    refine Or.inl ⟨rfl, ?_⟩
    by_cases hi : i < dbs.length
    · rw [Databases.readAs_none hi he] at h
      exact (Except.ok.inj h).symm
    · rw [Databases.readAs, Databases.entry, Databases.db,
        List.getElem?_eq_none (Nat.le_of_not_lt hi)] at h
      cases h
  | some e =>
    cases hd : Kind.stream.unwrap e.value with
    | none =>
      rw [Databases.readAs_wrong he hd] at h
      cases h
    | some d =>
      rw [Databases.readAs_some he hd] at h
      exact Or.inr ⟨e, d, rfl, hd, (Except.ok.inj h).symm⟩

theorem Lasting.ascending {now : UInt64} {all : List StreamEntry} (hs : Lasting (dbs.find i k))
    (h : dbs.streamEntries now i k = .ok all) : Ascending all := by
  rcases streamEntries_cases h with ⟨-, rfl⟩ | ⟨e, d, he, hd, rfl⟩
  · exact List.Pairwise.nil
  · exact (hs e d (Option.filter_eq_some_iff.mp he).1 hd).2.ascending

end Lasting

/-! ### The book-keeping of all groups -/

/-- The store after a run. -/
def groupsAfter (n : ℕ) (es : List GroupEvent) : Store := es.foldl GroupEvent.run (Store.new n)

theorem groupsAfter_append (n : ℕ) (es fs : List GroupEvent) :
    groupsAfter n (es ++ fs) = fs.foldl GroupEvent.run (groupsAfter n es) := List.foldl_append

theorem lasting_groupsAfter {n : ℕ} {es : List GroupEvent} {i : ℕ} {k : Bytes}
    (hes : Run.Along GroupEvent.run (GroupEvent.KeepsStream i k) (Store.new n) es) :
    Lasting ((groupsAfter n es).databases.find i k) := by
  refine hes.invariant (I := fun s => Lasting (s.databases.find i k))
    (fun s e hs he => GroupEvent.lasting_run he hs) ?_
  rintro e d he
  rw [Databases.find_new] at he
  cases he

/-- The streams stay and are in order, and the books of all groups are kept. -/
structure GroupsOk (s : Store) : Prop where
  lasting : ∀ i k, Lasting (s.databases.find i k)
  groups : ∀ i k group g, s.tables.group? i k group = some g → GroupOk g

theorem groupsOk_new (n : ℕ) : GroupsOk (Store.new n) where
  lasting i k e d he := by
    rw [Databases.find_new] at he
    cases he
  groups _ _ _ _ hg := by cases hg

/-- The run step of the book-keeping. -/
theorem GroupsOk.run {s : Store} {e : GroupEvent} (hs : GroupsOk s) (hgroups : e.KeepsGroups s)
    (hstreams : ∀ i k, e.KeepsStream i k s) : GroupsOk (e.run s) where
  lasting i k := GroupEvent.lasting_run (hstreams i k) (hs.lasting i k)
  groups i k group g hg := by
    cases e with
    | call now j k' group' c =>
      by_cases hne : (i, k, group) ≠ (j, k', group')
      · rw [GroupEvent.run, c.sameGroupsOff now j k' group' s i k group hne] at hg
        exact hs.groups i k group g hg
      · obtain ⟨rfl, rfl, rfl⟩ := by simpa using hne
        exact GroupOk.step (c.step now i k group s) (fun _ => (hs.lasting i k).ascending)
          (hs.groups i k group) hg
    | write now j k' w =>
      rw [GroupEvent.run, Tables.group?, consumerGroups_notify] at hg
      exact hs.groups i k group g hg
    | other s' =>
      rw [GroupEvent.run, Tables.group?, hgroups] at hg
      exact hs.groups i k group g hg

/-! ### What `XPENDING` reports -/

/-- The ids that are pending. -/
def pendingIds (g : ConsumerGroup) : List StreamId := g.pending.map Prod.fst

/-- The greatest id. -/
def maxId : StreamId := (UInt64.ofNat (2 ^ 64 - 1), UInt64.ofNat (2 ^ 64 - 1))

theorem idRank_le_maxId (id : StreamId) : idRank id ≤ idRank maxId := by
  have h₁ := id.1.toNat_lt
  have h₂ := id.2.toNat_lt
  have hmax : idRank maxId = (2 ^ 64 - 1) * 2 ^ 64 + (2 ^ 64 - 1) := by decide
  rw [hmax, idRank]
  omega

section Reports

open Tables

variable {t : Tables} {i : ℕ} {k : Bytes} {group : String} {g : ConsumerGroup}

/-- The summary counts what is pending. -/
theorem xpendingSummary_eq (hg : t.group? i k group = some g) :
    xpendingSummary i k group t = .ok {
      count := g.pending.length
      minId := g.pending.head?.map Prod.fst
      maxId := g.pending.getLast?.map Prod.fst
      perConsumer := (HashMap.tally (fun p => p.2.consumer) g.pending ∅).pairs } := by
  rw [xpendingSummary, ← group?, hg]
  rfl

/-- The range over all ids is what the consumer has pending. -/
theorem xpendingRange_all (hg : t.group? i k group = some g) (now : UInt64) {count : ℕ}
    (hcount : g.pending.length ≤ count) (consumer : String) :
    ∃ details, xpendingRange now i k group (0, 0) maxId count (some consumer) t = .ok details ∧
      details.length = (g.pending.filter fun p => p.2.consumer = consumer).length := by
  rw [xpendingRange, ← group?, hg]
  refine ⟨_, rfl, ?_⟩
  have hall : g.pending.filter (fun p => compareId p.1 (0, 0) ≠ .lt ∧ compareId p.1 maxId ≠ .gt ∧
      ∀ c ∈ some consumer, p.2.consumer = c) = g.pending.filter fun p => p.2.consumer = consumer := by
    refine List.filter_congr fun p _ => ?_
    have hlow : compareId p.1 (0, 0) ≠ .lt := by
      rw [compareId_eq, Ne, compare_lt_iff_lt]
      exact Nat.not_lt_zero _
    have hhigh : compareId p.1 maxId ≠ .gt := by
      rw [compareId_eq, Ne, compare_gt_iff_gt, not_lt]
      exact idRank_le_maxId p.1
    simp [hlow, hhigh]
  rw [hall, List.length_map, List.length_take]
  exact Nat.min_eq_right ((List.length_filter_le _ _).trans hcount)

end Reports

/-- **The book-keeping of consumer groups is consistent**, in every state that calls on groups and
on streams without an expiry lead to; and `XPENDING` reports it. -/
theorem groups_consistent (n : ℕ) {es : List GroupEvent}
    (hes : Run.Along GroupEvent.run
      (fun s e => e.KeepsGroups s ∧ ∀ i k, e.KeepsStream i k s) (Store.new n) es)
    {i : ℕ} {k : Bytes} {group : String} {g : ConsumerGroup}
    (hg : (es.foldl GroupEvent.run (Store.new n)).tables.group? i k group = some g) :
    (∀ id p, (id, p) ∈ g.pending → (g.consumers.lookup p.consumer).isSome ∧
      idRank id ≤ idRank (Tables.cursor g) ∧ 1 ≤ p.deliveryCount) ∧
    ∃ summary, Tables.xpendingSummary i k group (es.foldl GroupEvent.run (Store.new n)).tables
        = .ok summary ∧
      summary.count = (summary.perConsumer.map Prod.snd).sum ∧
      (∀ id, summary.minId = some id ↔
        id ∈ pendingIds g ∧ ∀ id' ∈ pendingIds g, idRank id ≤ idRank id') ∧
      (∀ id, summary.maxId = some id ↔
        id ∈ pendingIds g ∧ ∀ id' ∈ pendingIds g, idRank id' ≤ idRank id) ∧
      ∀ consumer c, (consumer, c) ∈ summary.perConsumer →
        ∀ now count, g.pending.length ≤ count →
          ∃ details, Tables.xpendingRange now i k group (0, 0) maxId count (some consumer)
            (es.foldl GroupEvent.run (Store.new n)).tables = .ok details ∧ details.length = c := by
  have hok : GroupsOk (es.foldl GroupEvent.run (Store.new n)) :=
    hes.invariant (fun s e hs he => hs.run he.1 he.2) (groupsOk_new n)
  have hgroup := hok.groups i k group g hg
  refine ⟨fun id p hp => ?_, _, xpendingSummary_eq hg, ?_,
    fun id => hgroup.sorted.head?_eq_some_iff idRank_injective,
    fun id => hgroup.sorted.getLast?_eq_some_iff idRank_injective, ?_⟩
  · have hat := (mem_pending_iff hgroup.sorted).mp hp
    exact ⟨hgroup.known id p hat, hgroup.behind id p hat, hgroup.counted id p hat⟩
  · have htotal := HashMap.total_tally (fun p : StreamId × PendingEntry => p.2.consumer) g.pending ∅
    exact (htotal.trans (Nat.zero_add _)).symm
  · intro consumer c hc now count hcount
    obtain ⟨details, hdetails, hlength⟩ := xpendingRange_all hg now hcount consumer
    refine ⟨details, hdetails, hlength.trans ?_⟩
    have htally := HashMap.lookup_tally (fun p : StreamId × PendingEntry => p.2.consumer) g.pending
      ∅ consumer
    rw [HashMap.mem_pairs.mp hc, AList.lookup_empty] at htally
    simpa using htally.symm

/-- An entry is added, and a consumer of a new group reads it. -/
def oneRead : List GroupEvent :=
  [.write 7 0 (asBytes "k") (.xadd (asBytes "1-0") [(asBytes "f", asBytes "v")] none),
    .call 7 0 (asBytes "k") "g" (.create (asBytes "0") false),
    .call 8 0 (asBytes "k") "g" (.read "c" .new none false)]

theorem groups_consistent_oneRead : ∃ g, (oneRead.foldl GroupEvent.run
      (Store.new 1)).tables.group? 0 (asBytes "k") "g" = some g ∧ pendingIds g = [(1, 0)] ∧
    ∃ summary, Tables.xpendingSummary 0 (asBytes "k") "g"
      (oneRead.foldl GroupEvent.run (Store.new 1)).tables = .ok summary ∧
      summary.minId = some (1, 0) := by
  have hids : ((oneRead.foldl GroupEvent.run (Store.new 1)).tables.group? 0 (asBytes "k") "g").map
      pendingIds = some [(1, 0)] := by decide +kernel
  obtain ⟨g, hg, hpending⟩ := Option.map_eq_some_iff.mp hids
  have halong : Run.Along GroupEvent.run (fun s e => e.KeepsGroups s ∧ ∀ i k, e.KeepsStream i k s)
      (Store.new 1) oneRead :=
    ⟨⟨trivial, fun _ _ => trivial⟩, ⟨trivial, fun _ _ => trivial⟩,
      ⟨trivial, fun _ _ => trivial⟩, trivial⟩
  obtain ⟨-, summary, hsummary, -, hmin, -⟩ := groups_consistent 1 halong hg
  refine ⟨g, hg, hpending, summary, hsummary, (hmin (1, 0)).mpr ?_⟩
  rw [hpending]
  simp

/-! ### How long an entry stays pending -/

/-- `XGROUP CREATE` and `SETID` are not refused. -/
def CreateAccepted (now : UInt64) (dbs : Databases) (i : ℕ) (k : Bytes) (mkstream : Bool) : Prop :=
  match dbs.liveEntry now i k with
  | some e => e.value.typeName = "stream"
  | none => mkstream = true ∧ i < dbs.length

theorem xgroupCreate_refused {now : UInt64} {i : ℕ} {k : Bytes} {mkstream : Bool} {w : Whole}
    (h : ¬CreateAccepted now w.store.databases i k mkstream) (group : String) (startId : Bytes) :
    ∃ e, xgroupCreate now i k group startId mkstream w = (.error e, w) := by
  rcases xgroupCreate_cases now i k group startId mkstream w with hrefused | ⟨dbs, hdbs, -⟩
  · exact hrefused
  · rw [CreateAccepted] at h
    rcases hdbs with ⟨-, e, d, he, hd⟩ | ⟨hi, hnone, -⟩
    · rw [he] at h
      exact absurd (typeName_of_unwrap hd) h
    · rw [hnone] at h
      obtain rfl : mkstream = false := by simpa [hi] using h
      rw [xgroupCreate, Proc.get_bind, Databases.getType, Databases.entry_eq hi, hnone]
      exact ⟨_, rfl⟩

/-- `MKSTREAM` makes a stream where nothing live is. -/
theorem GroupCall.databases_made {now : UInt64} {i : ℕ} {k : Bytes} {s : Store}
    (hi : i < s.databases.length) (hnone : s.databases.liveEntry now i k = none) (group : String)
    (startId : Bytes) : ((GroupCall.create startId true).run now i k group s).databases
      = s.databases.put i k { value := .stream [] 0 0 } := by
  rw [GroupCall.run, xgroupCreate, Proc.get_bind, Databases.getType, Databases.entry_eq hi, hnone]
  rfl

/-- Otherwise the databases are left alone. -/
theorem GroupCall.databases_kept {now : UInt64} {i : ℕ} {k : Bytes} {s : Store} {c : GroupCall}
    (h : ¬(i < s.databases.length ∧ (∃ startId, c = .create startId true) ∧
      s.databases.liveEntry now i k = none)) (group : String) :
    (c.run now i k group s).databases = s.databases := by
  rcases GroupCall.databases_run now i k group s c with hsame | ⟨hi, hnone, -⟩
  · exact hsame
  · cases c with
    | create startId mkstream =>
      have hrefused : ¬CreateAccepted now s.databases i k mkstream := by
        rw [CreateAccepted, hnone]
        rintro ⟨rfl, -⟩
        exact h ⟨hi, ⟨startId, rfl⟩, hnone⟩
      have hrun : xgroupCreate now i k group startId mkstream ⟨s, {}⟩ = (.error _, ⟨s, {}⟩) :=
        (xgroupCreate_refused hrefused group startId).choose_spec
      rw [GroupCall.run, hrun]
    | destroy | createConsumer | delConsumer | read | ack | claim => rfl

/-- The call ends the time that an entry is pending: it acknowledges the entry, removes its owner or
removes the group. -/
def GroupCall.Ends (id : StreamId) (o : Option ConsumerGroup) : GroupCall → Prop
  | ack ids => id ∈ ids
  | delConsumer consumer => ∃ g p, o = some g ∧ (id, p) ∈ g.pending ∧ p.consumer = consumer
  | destroy => True
  | create .. | createConsumer _ | read .. | claim .. => False

/-- The call ends the time that a consumer is part of the group. -/
def GroupCall.Leaves (consumer : String) : GroupCall → Prop
  | delConsumer c => c = consumer
  | destroy => True
  | create .. | createConsumer _ | read .. | ack _ | claim .. => False

namespace GroupEvent

/-- `GroupCall.Ends`, for an entry of one group. -/
def Ends (i : ℕ) (k : Bytes) (group : String) (id : StreamId) (s : Store) : GroupEvent → Prop
  | call _ j k' group' c => (j, k', group') = (i, k, group) ∧ c.Ends id (s.tables.group? i k group)
  | write .. | other _ => False

/-- `GroupCall.Leaves`, for a consumer of one group. -/
def Leaves (i : ℕ) (k : Bytes) (group consumer : String) : GroupEvent → Prop
  | call _ j k' group' c => (j, k', group') = (i, k, group) ∧ c.Leaves consumer
  | write .. | other _ => False

/-- No `XGROUP CREATE` or `SETID` replaces a group that has consumers or pending entries. -/
def SparesGroups (s : Store) : GroupEvent → Prop
  | call now i k group (.create _ mkstream) => CreateAccepted now s.databases i k mkstream →
    ∀ g, s.tables.group? i k group = some g → g.consumers = ∅ ∧ g.pending = []
  | call .. | write .. | other _ => True

end GroupEvent

/-- An id is pending, for exactly one consumer. -/
def OwnedBy (s : Store) (i : ℕ) (k : Bytes) (group : String) (id : StreamId) (owner : String) :
    Prop :=
  ∃ g, s.tables.group? i k group = some g ∧
    ∃ p, p.consumer = owner ∧ ∀ q, (id, q) ∈ g.pending ↔ q = p

/-- The pending entries of all groups are in order. -/
def AllSorted (s : Store) : Prop :=
  ∀ i k group g, s.tables.group? i k group = some g → PendingSorted g

/-- Every call keeps the pending entries in order. -/
theorem GroupStep.sorted {now : UInt64} {dbs dbs' : Databases} {i : ℕ} {k : Bytes} {c : GroupCall}
    {o o' : Option ConsumerGroup} (h : GroupStep now dbs dbs' i k c o o')
    (ho : ∀ g, o = some g → PendingSorted g) {g : ConsumerGroup} (hg : o' = some g) :
    PendingSorted g := by
  cases h with
  | refused => exact ho g hg
  | destroyed => cases hg
  | created =>
    obtain rfl := Option.some.inj hg
    exact BTree.sorted_nil
  | consumerCreated g₀ consumer =>
    obtain rfl := Option.some.inj hg
    exact ho g₀ rfl
  | consumerDeleted g₀ consumer =>
    obtain rfl := Option.some.inj hg
    exact (pendingAt_withoutConsumer consumer (ho g₀ rfl)).1
  | delivered g₀ consumer count noack =>
    obtain rfl := Option.some.inj hg
    exact (pendingAt_deliver now consumer noack (Tables.newPage g₀ count _) (ho g₀ rfl)).1
  | reread g₀ consumer =>
    obtain rfl := Option.some.inj hg
    exact ho g₀ rfl
  | acked g₀ ids =>
    obtain rfl := Option.some.inj hg
    exact (pendingAt_ack ids (0, g₀) (ho g₀ rfl)).1
  | claimed g₀ consumer minIdleMs ids =>
    obtain rfl := Option.some.inj hg
    exact (pendingAt_claim now consumer minIdleMs ids ([], Tables.withConsumer g₀ consumer)
      (ho g₀ rfl)).1

/-- What a call leaves of a group, unless it creates or destroys it. -/
theorem GroupStep.keeps {now : UInt64} {dbs dbs' : Databases} {i : ℕ} {k : Bytes} {c : GroupCall}
    {o o' : Option ConsumerGroup} (h : GroupStep now dbs dbs' i k c o o')
    (hcreate : ∀ startId mkstream, c ≠ .create startId mkstream) (hdestroy : c ≠ .destroy)
    {g : ConsumerGroup} (ho : o = some g) (hg : PendingSorted g) :
    ∃ g', o' = some g' ∧
      (∀ id p, pendingAt g id = some p → ¬c.Ends id o → ∃ p', pendingAt g' id = some p') ∧
      ∀ consumer, (g.consumers.lookup consumer).isSome → ¬c.Leaves consumer →
        (g'.consumers.lookup consumer).isSome := by
  cases h with
  | refused => exact ⟨g, ho, fun id p hp _ => ⟨p, hp⟩, fun _ h _ => h⟩
  | created startId mkstream => exact absurd rfl (hcreate startId mkstream)
  | destroyed => exact absurd rfl hdestroy
  | consumerCreated g₀ consumer =>
    obtain rfl := Option.some.inj ho
    exact ⟨_, rfl, fun id p hp _ => ⟨p, hp⟩, fun _ h _ => isSome_lookup_insert h consumer⟩
  | consumerDeleted g₀ consumer =>
    obtain rfl := Option.some.inj ho
    refine ⟨_, rfl, fun id p hp hends => ⟨p, ?_⟩, fun c hc hleaves => ?_⟩
    · have hother : p.consumer ≠ consumer :=
        fun hconsumer => hends ⟨g₀, p, rfl, (mem_pending_iff hg).mpr hp, hconsumer⟩
      rw [(pendingAt_withoutConsumer consumer hg).2, Option.filter_eq_some_iff]
      exact ⟨hp, by simpa using hother⟩
    · rw [withoutConsumer]
      dsimp only
      rwa [AList.lookup_erase_ne (Ne.symm hleaves)]
  | delivered g₀ consumer count noack hall =>
    obtain rfl := Option.some.inj ho
    refine ⟨_, rfl, fun id p hp _ => ?_, fun c hc _ => ?_⟩
    · rw [(pendingAt_deliver now consumer noack (Tables.newPage g₀ count _) hg).2]
      split
      · exact ⟨_, rfl⟩
      · exact ⟨p, hp⟩
    · rw [(deliver_fields now consumer noack (Tables.newPage g₀ count _) g₀).1]
      exact isSome_lookup_insert hc consumer
  | reread g₀ consumer =>
    obtain rfl := Option.some.inj ho
    exact ⟨_, rfl, fun id p hp _ => ⟨p, hp⟩, fun _ h _ => isSome_lookup_insert h consumer⟩
  | acked g₀ ids =>
    obtain rfl := Option.some.inj ho
    refine ⟨_, rfl, fun id p hp hends => ⟨p, ?_⟩, fun c hc _ => ?_⟩
    · have hnot : id ∉ ids := hends
      rw [(pendingAt_ack ids (0, g₀) hg).2, if_neg hnot]
      exact hp
    · rw [(ack_fields ids (0, g₀)).1]
      exact hc
  | claimed g₀ consumer minIdleMs ids =>
    obtain rfl := Option.some.inj ho
    have hat := (pendingAt_claim now consumer minIdleMs ids
      ([], Tables.withConsumer g₀ consumer) hg).2
    refine ⟨_, rfl, fun id p hp _ => ?_, fun c hc _ => ?_⟩
    · rcases hat id with hsame | ⟨q, q', -, -, -, hq'⟩
      · exact ⟨p, hsame.trans hp⟩
      · exact ⟨q', hq'⟩
    · rw [(claim_fields now consumer minIdleMs ids ([], Tables.withConsumer g₀ consumer)).1]
      exact isSome_lookup_insert hc consumer

namespace GroupEvent

variable {s : Store} {e : GroupEvent} {i : ℕ} {k : Bytes} {group : String}

/-- What an event does to one group: it is a call on it, or the group is as before. -/
theorem group?_run (he : e.KeepsGroups s) (i : ℕ) (k : Bytes) (group : String) :
    (∃ now c, e = call now i k group c) ∨
      (e.run s).tables.group? i k group = s.tables.group? i k group := by
  cases e with
  | call now j k' group' c =>
    by_cases hne : (i, k, group) ≠ (j, k', group')
    · exact Or.inr (c.sameGroupsOff now j k' group' s i k group hne)
    · obtain ⟨rfl, rfl, rfl⟩ := by simpa using hne
      exact Or.inl ⟨now, c, rfl⟩
  | write now j k' w =>
    refine Or.inr ?_
    rw [run, Tables.group?, consumerGroups_notify]
    rfl
  | other s' =>
    refine Or.inr ?_
    rw [run, Tables.group?, he]
    rfl

theorem allSorted_run (he : e.KeepsGroups s) (hs : AllSorted s) : AllSorted (e.run s) := by
  intro i k group g hg
  rcases group?_run he i k group with ⟨now, c, rfl⟩ | hsame
  · exact (c.step now i k group s).sorted (hs i k group) hg
  · exact hs i k group g (hsame ▸ hg)

/-- What an event leaves of a group that has consumers or pending entries. -/
theorem keeps_run (he : e.KeepsGroups s) (hspares : e.SparesGroups s) (hs : AllSorted s)
    {g : ConsumerGroup} (hg : s.tables.group? i k group = some g)
    (hused : ¬(g.consumers = ∅ ∧ g.pending = []))
    (hdestroy : ∀ now, e ≠ call now i k group .destroy) :
    ∃ g', (e.run s).tables.group? i k group = some g' ∧
      (∀ id p, pendingAt g id = some p → ¬e.Ends i k group id s → ∃ p', pendingAt g' id = some p') ∧
      ∀ consumer, (g.consumers.lookup consumer).isSome → ¬e.Leaves i k group consumer →
        (g'.consumers.lookup consumer).isSome := by
  rcases group?_run he i k group with ⟨now, c, rfl⟩ | hsame
  · have hkeeps : (∀ startId mkstream, c ≠ .create startId mkstream) → _ := fun hcreate =>
      (c.step now i k group s).keeps hcreate (fun h => hdestroy now (h ▸ rfl)) hg
        (hs i k group g hg)
    cases c with
    | create startId mkstream =>
      -- it would have replaced the group
      have hrefused : ¬CreateAccepted now s.databases i k mkstream :=
        fun haccepted => hused (hspares haccepted g hg)
      have hrefused' : ¬CreateAccepted now (Whole.mk s {}).store.databases i k mkstream := hrefused
      obtain ⟨_, h⟩ := xgroupCreate_refused hrefused' group startId
      rw [run, GroupCall.run, h]
      exact ⟨g, hg, fun id p hp _ => ⟨p, hp⟩, fun _ h _ => h⟩
    | destroy | createConsumer | delConsumer | read | ack | claim =>
      obtain ⟨g', hg', hpending, hconsumers⟩ := hkeeps (by rintro _ _ h; cases h)
      exact ⟨g', hg', fun id p hp hends => hpending id p hp fun h => hends ⟨rfl, h⟩,
        fun consumer hc hleaves => hconsumers consumer hc fun h => hleaves ⟨rfl, h⟩⟩
  · exact ⟨g, hsame.trans hg, fun id p hp _ => ⟨p, hp⟩, fun _ h _ => h⟩

end GroupEvent

section Runs

variable {s : Store} {i : ℕ} {k : Bytes} {group : String} {es : List GroupEvent}

theorem allSorted_new (n : ℕ) : AllSorted (Store.new n) := fun _ _ _ _ hg => by cases hg

theorem allSorted_foldl (hes : Run.Along GroupEvent.run (fun s e => e.KeepsGroups s) s es)
    (hs : AllSorted s) : AllSorted (es.foldl GroupEvent.run s) :=
  hes.invariant (fun _ _ hs he => GroupEvent.allSorted_run he hs) hs

theorem ownedBy_of_pendingAt {g : ConsumerGroup} (hs : AllSorted s)
    (hg : s.tables.group? i k group = some g) {id : StreamId} {p : PendingEntry}
    (hp : pendingAt g id = some p) : OwnedBy s i k group id p.consumer := by
  refine ⟨g, hg, p, rfl, fun q => ?_⟩
  rw [mem_pending_iff (hs i k group g hg), hp, Option.some_inj, eq_comm]

/-- An entry stays pending. -/
theorem ownedBy_foldl {id : StreamId} {owner : String}
    (hes : Run.Along GroupEvent.run
      (fun s e => (e.KeepsGroups s ∧ e.SparesGroups s) ∧ ¬e.Ends i k group id s) s es)
    (hs : AllSorted s) (h : OwnedBy s i k group id owner) :
    ∃ owner', OwnedBy (es.foldl GroupEvent.run s) i k group id owner' := by
  refine (hes.invariant (I := fun s => AllSorted s ∧ ∃ owner, OwnedBy s i k group id owner)
    (fun s e => ?_) ⟨hs, owner, h⟩).2
  rintro ⟨hs, owner, g, hg, p, rfl, hp⟩ ⟨⟨hgroups, hspares⟩, hends⟩
  have hmem := (hp p).mpr rfl
  have hused : ¬(g.consumers = ∅ ∧ g.pending = []) := by
    rintro ⟨-, hnil⟩
    rw [hnil] at hmem
    cases hmem
  have hdestroy : ∀ now, e ≠ .call now i k group .destroy := by
    rintro now rfl
    exact hends ⟨rfl, trivial⟩
  obtain ⟨g', hg', hpending, -⟩ := e.keeps_run hgroups hspares hs hg hused hdestroy
  obtain ⟨p', hp'⟩ := hpending id p ((mem_pending_iff (hs i k group g hg)).mp hmem) hends
  have hs' := GroupEvent.allSorted_run hgroups hs
  exact ⟨hs', _, ownedBy_of_pendingAt hs' hg' hp'⟩

/-- A consumer stays in its group. -/
theorem consumer_foldl {consumer : String}
    (hes : Run.Along GroupEvent.run
      (fun s e => (e.KeepsGroups s ∧ e.SparesGroups s) ∧ ¬e.Leaves i k group consumer) s es)
    (hs : AllSorted s)
    (h : ∃ g, s.tables.group? i k group = some g ∧ (g.consumers.lookup consumer).isSome) :
    ∃ g, (es.foldl GroupEvent.run s).tables.group? i k group = some g ∧
      (g.consumers.lookup consumer).isSome := by
  refine (hes.invariant (I := fun s => AllSorted s ∧ ∃ g, s.tables.group? i k group = some g ∧
    (g.consumers.lookup consumer).isSome) (fun s e => ?_) ⟨hs, h⟩).2
  rintro ⟨hs, g, hg, hconsumer⟩ ⟨⟨hgroups, hspares⟩, hleaves⟩
  have hused : ¬(g.consumers = ∅ ∧ g.pending = []) := by
    rintro ⟨hnone, -⟩
    rw [hnone] at hconsumer
    cases hconsumer
  have hdestroy : ∀ now, e ≠ .call now i k group .destroy := by
    rintro now rfl
    exact hleaves ⟨rfl, trivial⟩
  obtain ⟨g', hg', -, hconsumers⟩ := e.keeps_run hgroups hspares hs hg hused hdestroy
  exact ⟨GroupEvent.allSorted_run hgroups hs, g', hg', hconsumers consumer hconsumer hleaves⟩

/-- What has just been delivered is pending for the consumer. -/
theorem ownedBy_read (hs : AllSorted s) {now : UInt64} {consumer : String} {count : Option ℕ}
    {page : List StreamEntry} (hpage : (Tables.xreadgroup now s.databases i k group consumer .new
      count false s.tables).1 = .ok page) {e : StreamEntry} (he : e ∈ page) :
    OwnedBy (GroupEvent.run s (.call now i k group (.read consumer .new count false))) i k group
      e.id consumer := by
  have hsorted := GroupEvent.allSorted_run (s := s)
    (e := .call now i k group (.read consumer .new count false)) trivial hs
  rcases Tables.xreadgroup_new_cases now s.databases i k group consumer count false s.tables with
    ⟨_, h⟩ | ⟨g, all, hg, -, h⟩
  · rw [h] at hpage
    cases hpage
  · rw [h] at hpage
    obtain rfl := Except.ok.inj hpage
    refine ownedBy_of_pendingAt hsorted (p := ⟨consumer, now, 1⟩)
      (g := Tables.deliver now consumer false (Tables.newPage g count all) g) ?_ ?_
    · rw [GroupEvent.run, GroupCall.run, h]
      exact Tables.group?_setGroup_self
    · rw [(pendingAt_deliver now consumer false _ (hs i k group g hg)).2]
      exact if_pos ⟨rfl, List.mem_map_of_mem he⟩

/-- Creating a group again moves only its cursor, when the group has nothing to lose. -/
theorem recreated (now : UInt64) (startId : Bytes) (mkstream : Bool)
    (hspares : GroupEvent.SparesGroups s (.call now i k group (.create startId mkstream)))
    {g : ConsumerGroup} (hg : s.tables.group? i k group = some g) :
    ∃ cursor : StreamId, (GroupEvent.run s (.call now i k group
      (.create startId mkstream))).tables.group? i k group
        = some { g with lastDeliveredMs := cursor.1, lastDeliveredSeq := cursor.2 } := by
  by_cases haccepted : CreateAccepted now s.databases i k mkstream
  · obtain ⟨hconsumers, hpending⟩ := hspares haccepted g hg
    obtain ⟨ms, seq, consumers, pending⟩ := g
    dsimp only at hconsumers hpending
    subst hconsumers hpending
    have hstep := (GroupCall.create startId mkstream).step now i k group s
    rw [hg] at hstep
    rw [GroupEvent.run]
    generalize ((GroupCall.create startId mkstream).run now i k group s).tables.group? i k group
      = o' at hstep
    cases hstep with
    | refused => exact ⟨(ms, seq), rfl⟩
    | created => exact ⟨_, rfl⟩
  · have hrefused : ¬CreateAccepted now (Whole.mk s {}).store.databases i k mkstream := haccepted
    obtain ⟨_, h⟩ := xgroupCreate_refused hrefused group startId
    rw [GroupEvent.run, GroupCall.run, h]
    exact ⟨(g.lastDeliveredMs, g.lastDeliveredSeq), hg⟩

end Runs

/-- **Pending entries are kept until they are acknowledged**, as long as no `XGROUP CREATE` or
`SETID` names a group that has consumers or pending entries. What has been delivered without `NOACK`
is pending, for the consumer at first and for exactly one consumer later on; consumers stay as well,
and `SETID` moves the cursor and nothing else. -/
theorem pending_until_acknowledged (n : ℕ) {es : List GroupEvent}
    (hes : Run.Along GroupEvent.run (fun s e => e.KeepsGroups s ∧ e.SparesGroups s) (Store.new n) es)
    (i : ℕ) (k : Bytes) (group : String) :
    (∀ pre post now consumer count page e,
      es = pre ++ [.call now i k group (.read consumer .new count false)] ++ post →
      (Tables.xreadgroup now (groupsAfter n pre).databases i k group consumer .new count false
        (groupsAfter n pre).tables).1 = .ok page → e ∈ page →
      let delivered := groupsAfter n
        (pre ++ [.call now i k group (.read consumer .new count false)])
      OwnedBy delivered i k group e.id consumer ∧
      (Run.Along GroupEvent.run (fun s f => ¬f.Ends i k group e.id s) delivered post →
        ∃ owner, OwnedBy (groupsAfter n es) i k group e.id owner)) ∧
    (∀ pre post consumer, es = pre ++ post →
      (∃ g, (groupsAfter n pre).tables.group? i k group = some g ∧
        (g.consumers.lookup consumer).isSome) →
      (∀ f ∈ post, ¬f.Leaves i k group consumer) →
      ∃ g, (groupsAfter n es).tables.group? i k group = some g ∧
        (g.consumers.lookup consumer).isSome) ∧
    ∀ pre now startId mkstream g, es = pre ++ [.call now i k group (.create startId mkstream)] →
      (groupsAfter n pre).tables.group? i k group = some g →
      ∃ cursor : StreamId, (groupsAfter n es).tables.group? i k group
        = some { g with lastDeliveredMs := cursor.1, lastDeliveredSeq := cursor.2 } := by
  have hsorted : ∀ pre post, es = pre ++ post → AllSorted (groupsAfter n pre) :=
    fun pre post h => allSorted_foldl
      ((Run.along_append.mp (h ▸ hes)).1.mono fun _ _ h => h.1) (allSorted_new n)
  refine ⟨fun pre post now consumer count page e h hpage he => ?_,
    fun pre post consumer h hconsumer hstays => ?_,
    fun pre now startId mkstream g h hg => ?_⟩
  · have howned := ownedBy_read (hsorted pre _ (h.trans (List.append_assoc ..))) hpage he
    have hpre := hsorted _ post h
    subst h
    rw [groupsAfter_append _ _ post, groupsAfter_append]
    rw [groupsAfter_append] at hpre
    refine ⟨howned, fun hpost => ?_⟩
    have hafter := (Run.along_append.mp hes).2
    rw [List.foldl_append] at hafter
    exact ownedBy_foldl (hafter.and hpost) hpre howned
  · have hpre := hsorted pre post h
    subst h
    rw [groupsAfter_append]
    have hpost := (Run.along_append.mp hes).2
    exact consumer_foldl (hpost.and (Run.along_of_forall hstays)) hpre hconsumer
  · subst h
    rw [groupsAfter_append]
    exact recreated now startId mkstream (Run.along_append.mp hes).2.1.2 hg

/-- A stream with one entry, and a new group. -/
def oneGroup : List GroupEvent :=
  [.write 7 0 (asBytes "k") (.xadd (asBytes "1-0") [(asBytes "f", asBytes "v")] none),
    .call 7 0 (asBytes "k") "g" (.create (asBytes "0") false)]

theorem pending_until_acknowledged_claimed : ∃ owner, OwnedBy (groupsAfter 1 (oneGroup ++
    [.call 8 0 (asBytes "k") "g" (.read "c" .new none false)] ++
    [.call 9 0 (asBytes "k") "g" (.claim "d" 0 [(1, 0)] false)])) 0 (asBytes "k") "g" (1, 0)
      owner := by
  have hnone : ((groupsAfter 1 (oneGroup.take 1)).tables.group? 0 (asBytes "k") "g").isSome
      = false := by decide +kernel
  have halong : Run.Along GroupEvent.run (fun s e => e.KeepsGroups s ∧ e.SparesGroups s)
      (Store.new 1) (oneGroup ++ [.call 8 0 (asBytes "k") "g" (.read "c" .new none false)] ++
        [.call 9 0 (asBytes "k") "g" (.claim "d" 0 [(1, 0)] false)]) := by
    refine ⟨⟨trivial, trivial⟩, ⟨trivial, fun _ g hg => ?_⟩, ⟨trivial, trivial⟩,
      ⟨trivial, trivial⟩, trivial⟩
    rw [show GroupEvent.run (Store.new 1) _ = groupsAfter 1 (oneGroup.take 1) from rfl] at hg
    rw [hg] at hnone
    cases hnone
  have hpage : (Tables.xreadgroup 8 (groupsAfter 1 oneGroup).databases 0 (asBytes "k") "g" "c" .new
      none false (groupsAfter 1 oneGroup).tables).1
        = .ok [⟨1, 0, [(asBytes "f", asBytes "v")]⟩] := rfl
  exact ((pending_until_acknowledged 1 halong 0 (asBytes "k") "g").1 oneGroup _ 8 "c" none _
    ⟨1, 0, [(asBytes "f", asBytes "v")]⟩ rfl hpage List.mem_cons_self).2 ⟨fun h => h.2, trivial⟩

/-- A consumer reads an entry, and the cursor is set back. -/
def setBack : List StreamEvent :=
  [StreamEvent.plainCommand 7 ["XADD", "k", "1-0", "f", "v"],
    StreamEvent.plainCommand 7 ["XGROUP", "CREATE", "k", "g", "0"],
    StreamEvent.plainCommand 8 ["XREADGROUP", "GROUP", "g", "c", "STREAMS", "k", ">"],
    StreamEvent.plainCommand 9 ["XGROUP", "SETID", "k", "g", "0"]]

/-- **`SETID` discards** the pending entries of the group, and its consumers. -/
theorem setid_discards :
    (((setBack.take 3).foldl (StreamEvent.run Host.plain) (Store.new 1)).tables.group? 0
      (asBytes "k") "g").map (fun g => (pendingIds g, g.consumers.keys)) = some ([(1, 0)], ["c"]) ∧
    ((setBack.foldl (StreamEvent.run Host.plain) (Store.new 1)).tables.group? 0
      (asBytes "k") "g").map (fun g => (pendingIds g, g.consumers.keys)) = some ([], []) := by
  decide +kernel

end VeloDB
