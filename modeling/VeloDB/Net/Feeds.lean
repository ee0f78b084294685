import VeloDB.Net.Subscribers
import Mathlib.Algebra.BigOperators.Group.List.Basic

/-!
# What a receiver holds

A client has one receiver at most, which belongs to the last name that it has subscribed to. The
registry has one sender for it, in the list of a channel or in the list of a pattern, and the lists
keep senders whose receivers are long gone. What is published goes through these lists.

`feed` says the same without lists: of one client, the last name it has subscribed to, and what has
been published under this name since. In every run of clients that subscribe, give up, publish and
leave, one command at a time, the open receivers are those that the clients hold, and each holds
exactly its feed: nothing is lost, nothing comes twice, and the order is that of the `PUBLISH`
commands. A `PUBLISH` is one step here. Two that overlap may lose the sender of an open receiver.

The invariant counts. A message reaches a receiver as often as its sender is in the lists that the
message goes through, so that the sender must be in one list only and once only; that a publisher
forgets the senders of closed receivers changes no count of an open one.

## Main results

* `PubSubRegistry.Registered.lookup_publishAll` — one sender, one message
* `Rewired` — what a subscribing command does to the receivers of everybody
* `receiver_holds_iff` — every run
-/

namespace VeloDB

open Rust

/-- What a receiver is for. -/
inductive Topic
  | channel (name : Bytes)
  | pattern (p : String)
  deriving DecidableEq

/-- A message on the channel is for the receiver. -/
def Topic.covers (channel : Bytes) : Topic → Bool
  | .channel name => name = channel
  | .pattern p => simpleMatch (fromUtf8Lossy channel) p

/-! ### Senders -/

namespace PubSubRegistry

variable (r : PubSubRegistry)

/-- The senders of a pattern. -/
def sendersOf (p : String) : List ℕ := (r.patterns.lookup p).getD []

/-- The receiver `id` has one sender, in the list of its topic. -/
structure Registered (id : ℕ) (t : Topic) : Prop where
  channels : ∀ ch, (r.senders ch).count id = if t = .channel ch then 1 else 0
  patterns : ∀ p, (r.sendersOf p).count id = if t = .pattern p then 1 else 0

/-- Nothing is known of receivers to come. -/
structure Bounded : Prop where
  channels : ∀ ch, ∀ id ∈ r.senders ch, id < r.nextMailbox
  patterns : ∀ p, ∀ id ∈ r.sendersOf p, id < r.nextMailbox
  mailboxes : ∀ id queue, r.mailboxes.lookup id = some queue → id < r.nextMailbox

/-- The senders of the receiver `id` stay where they are. -/
structure Keeps (id : ℕ) (r r' : PubSubRegistry) : Prop where
  channels : ∀ ch, (r'.senders ch).count id = (r.senders ch).count id
  patterns : ∀ p, (r'.sendersOf p).count id = (r.sendersOf p).count id

/-- Nothing changes for the receiver `id`. -/
structure Spares (id : ℕ) (r r' : PubSubRegistry) : Prop extends Keeps id r r' where
  queue : r'.mailboxes.lookup id = r.mailboxes.lookup id

variable {r} {r' r'' : PubSubRegistry} {id : ℕ} {t : Topic}

theorem Keeps.registered (h : Keeps id r r') (hr : r.Registered id t) : r'.Registered id t where
  channels ch := (h.channels ch).trans (hr.channels ch)
  patterns p := (h.patterns p).trans (hr.patterns p)

theorem Spares.refl (id : ℕ) (r : PubSubRegistry) : Spares id r r where
  channels _ := rfl
  patterns _ := rfl
  queue := rfl

theorem Spares.trans (h : Spares id r r') (h' : Spares id r' r'') : Spares id r r'' where
  channels ch := (h'.channels ch).trans (h.channels ch)
  patterns p := (h'.patterns p).trans (h.patterns p)
  queue := h'.queue.trans h.queue

/-- How often a key occurs, as a sum. -/
theorem sum_indicator {κ α : Type} [DecidableEq κ] (q : κ) (l : List (κ × α)) :
    (l.map fun p => if q = p.1 then 1 else 0).sum = (l.map Prod.fst).count q := by
  induction l with
  | nil => rfl
  | cons p l ih =>
    rw [List.map_cons, List.sum_cons, ih, List.map_cons, List.count_cons, Nat.add_comm]
    simp only [beq_iff_eq, eq_comm (a := q)]

/-- What the patterns that match bring to a receiver. -/
theorem Registered.count_patternSenders (h : r.Registered id t) (channel : Bytes) :
    (r.patternSenders channel).count id
      = ((r.patterns.pairs.filter fun p => simpleMatch (fromUtf8Lossy channel) p.1).map
          fun p => if t = .pattern p.1 then 1 else 0).sum := by
  rw [patternSenders, List.count_flatMap]
  refine congrArg List.sum (List.map_congr_left fun p hp => ?_)
  have hlookup := HashMap.mem_pairs.mp (List.mem_filter.mp hp).1
  have hcount := h.patterns p.1
  rw [sendersOf, hlookup] at hcount
  exact hcount

/-- **One pattern that matches, one message.** -/
theorem Registered.count_of_pattern {q : String} (h : r.Registered id (.pattern q))
    (channel : Bytes) : (r.patternSenders channel).count id
      = if simpleMatch (fromUtf8Lossy channel) q = true then 1 else 0 := by
  have hnodup := r.patterns.nodup_pairs.sublist ((List.filter_sublist
    (p := fun p => simpleMatch (fromUtf8Lossy channel) p.1)).map Prod.fst)
  have hkey : ∃ l, (q, l) ∈ r.patterns.pairs := by
    cases hq : r.patterns.lookup q with
    | none =>
      have hcount := h.patterns q
      rw [sendersOf, hq, if_pos rfl] at hcount
      cases hcount
    | some l => exact ⟨l, HashMap.mem_pairs.mpr hq⟩
  obtain ⟨l, hl⟩ := hkey
  rw [h.count_patternSenders]
  simp only [Topic.pattern.injEq]
  rw [sum_indicator, hnodup.count]
  refine if_congr ?_ rfl rfl
  rw [List.mem_map]
  constructor
  · rintro ⟨p, hp, rfl⟩
    exact (List.mem_filter.mp hp).2
  · exact fun hmatch => ⟨(q, l), List.mem_filter.mpr ⟨hl, hmatch⟩, rfl⟩

/-- **One sender, one message.** -/
theorem Registered.lookup_publishAll (h : r.Registered id t) (channel message : Bytes) :
    (r.publishAll channel message).2.mailboxes.lookup id = (r.mailboxes.lookup id).map
      (· ++ if t.covers channel = true then [(channel, message)] else []) := by
  have hcount : (r.senders channel).count id + (r.patternSenders channel).count id
      = if t.covers channel = true then 1 else 0 := by
    rw [h.channels]
    cases t with
    | channel name =>
      rw [h.count_patternSenders]
      simp [Topic.covers]
    | pattern p =>
      rw [h.count_of_pattern, if_neg (by simp), Nat.zero_add]
      rfl
  rw [PubSubRegistry.lookup_publishAll, hcount]
  split <;> rfl

/-! ### What publishing and closing do to the lists -/

theorem sendersOf_eq (h : r'.patterns = r.patterns) (p : String) :
    r'.sendersOf p = r.sendersOf p := by
  rw [sendersOf, h, sendersOf]

/-- A publisher forgets the senders of the channel whose receivers are closed. -/
theorem senders_publishAll (channel message ch : Bytes) :
    (r.publishAll channel message).2.senders ch
      = if ch = channel then (r.senders channel).filter fun tx => !r.gone tx else r.senders ch := by
  have hsent := r.sent_sendAll (r.senders channel) (channel, message)
  have hfilter := Indexes.removeEach_positions r.gone (r.senders channel)
  have hpatterns : ∀ r' : PubSubRegistry,
      (r'.publishPatterns channel message).2.senders ch = r'.senders ch := fun r' =>
    (r'.sent_sendAll _ (channel, message)).senders ch
  show ((r.publishChannel channel message).2.publishPatterns channel message).2.senders ch = _
  rw [hpatterns, publishChannel_eq]
  dsimp only
  split
  · next hdead =>
    have hall : (r.senders channel).filter (fun tx => !r.gone tx) = r.senders channel := by
      rw [show Indexes.positions r.gone (r.senders channel) = [] from hdead] at hfilter
      exact (congrArg Prod.snd hfilter).symm
    rw [hsent.senders, hall]
    split
    · next hch => rw [hch]
    · rfl
  · have hbound : ∀ i ∈ r.dead channel,
        i < ((r.sendAll (r.senders channel) (channel, message)).senders channel).length := by
      rw [hsent.senders]
      exact fun i hi => (Indexes.positions_pointsAt hi).lt
    rw [(removeDead_eq _ hbound).2, hsent.senders, hsent.senders, dead, hfilter]

theorem nextMailbox_publishAll (channel message : Bytes) :
    (r.publishAll channel message).2.nextMailbox = r.nextMailbox := by
  have hsent := r.sent_sendAll (r.senders channel) (channel, message)
  have hpatterns : ∀ r' : PubSubRegistry,
      (r'.publishPatterns channel message).2.nextMailbox = r'.nextMailbox := fun r' =>
    (r'.sent_sendAll _ (channel, message)).nextMailbox
  refine (hpatterns _).trans ?_
  rw [publishChannel_eq]
  dsimp only
  split
  · exact hsent.nextMailbox
  · exact (nextMailbox_removeDead _ _ _).trans hsent.nextMailbox

theorem patterns_publishAll (channel message : Bytes) :
    (r.publishAll channel message).2.patterns = r.patterns :=
  ((r.publishChannel channel message).2.sent_sendAll _ (channel, message)).patterns.trans
    (r.publishChannel_snd channel message).1

/-- **Publishing keeps the sender of an open receiver.** -/
theorem keeps_publishAll {queue : List (Bytes × Bytes)} (hopen : r.mailboxes.lookup id = some queue)
    (channel message : Bytes) : Keeps id r (r.publishAll channel message).2 where
  channels ch := by
    rw [senders_publishAll]
    split
    · next hch =>
      rw [hch, List.count_filter (by rw [gone, hopen]; rfl)]
    · rfl
  patterns p := by rw [sendersOf_eq (patterns_publishAll channel message)]

theorem Bounded.publishAll (h : r.Bounded) (channel message : Bytes) :
    (r.publishAll channel message).2.Bounded where
  channels ch tx htx := by
    rw [nextMailbox_publishAll]
    rw [senders_publishAll] at htx
    split at htx
    · exact h.channels channel tx (List.mem_of_mem_filter htx)
    · exact h.channels ch tx htx
  patterns p tx htx := by
    rw [nextMailbox_publishAll]
    rw [sendersOf_eq (patterns_publishAll channel message)] at htx
    exact h.patterns p tx htx
  mailboxes tx queue hq := by
    rw [nextMailbox_publishAll]
    rw [PubSubRegistry.lookup_publishAll] at hq
    obtain ⟨old, hold, -⟩ := Option.map_eq_some_iff.mp hq
    exact h.mailboxes tx old hold

/-- Closing a receiver changes no list. -/
theorem keeps_dropMailbox (rx : Option ℕ) (id : ℕ) : Keeps id r (r.dropMailbox rx) := by
  cases rx <;> exact ⟨fun _ => rfl, fun _ => rfl⟩

theorem spares_dropMailbox {rx : Option ℕ} (h : id ∉ rx.toList) :
    Spares id r (r.dropMailbox rx) where
  toKeeps := keeps_dropMailbox rx id
  queue := by rw [Wired.lookup_dropMailbox, if_neg h]

theorem Bounded.dropMailbox (h : r.Bounded) (rx : Option ℕ) : (r.dropMailbox rx).Bounded where
  channels ch tx htx := by
    cases rx <;> exact h.channels ch tx htx
  patterns p tx htx := by
    cases rx <;> exact h.patterns p tx htx
  mailboxes tx queue hq := by
    rw [Wired.lookup_dropMailbox] at hq
    rw [(Wired.patterns_dropMailbox rx r).2]
    split at hq
    · cases hq
    · exact h.mailboxes tx queue hq

/-- A way to register a sender, in the list of a topic. -/
structure Registers (t : Topic) (register : PubSubRegistry → ℕ → PubSubRegistry) : Prop where
  channels : ∀ r tx ch, (register r tx).senders ch
    = r.senders ch ++ if t = .channel ch then [tx] else []
  patterns : ∀ r tx p, (register r tx).sendersOf p
    = r.sendersOf p ++ if t = .pattern p then [tx] else []
  mailboxes : ∀ r tx, (register r tx).mailboxes = r.mailboxes
  nextMailbox : ∀ r tx, (register r tx).nextMailbox = r.nextMailbox

theorem registers_subscribeChannel (ch : Bytes) :
    Registers (.channel ch) fun r tx => r.subscribeChannel ch tx where
  channels r tx c := by
    rw [senders_subscribeChannel]
    by_cases hc : c = ch
    · rw [if_pos hc, if_pos (by rw [hc]), hc]
    · rw [if_neg hc, if_neg (by simpa using Ne.symm hc), List.append_nil]
  patterns r tx p := by
    rw [if_neg (by simp), List.append_nil]
    rfl
  mailboxes _ _ := rfl
  nextMailbox _ _ := rfl

theorem registers_subscribePattern (p : String) :
    Registers (.pattern p) fun r tx => r.subscribePattern p tx where
  channels r tx c := by
    rw [if_neg (by simp), List.append_nil]
    rfl
  patterns r tx q := by
    rw [sendersOf, subscribePattern]
    dsimp only
    by_cases hq : q = p
    · rw [hq, AList.lookup_insert, if_pos rfl]
      rfl
    · rw [AList.lookup_insert_ne hq, if_neg (by simpa using Ne.symm hq), List.append_nil]
      rfl
  mailboxes _ _ := rfl
  nextMailbox _ _ := rfl

/-- The registry with a new receiver and its sender. -/
def opened (register : PubSubRegistry → ℕ → PubSubRegistry) (r : PubSubRegistry) : PubSubRegistry :=
  register r.openMailbox.2 r.openMailbox.1

section Opened

variable {register : PubSubRegistry → ℕ → PubSubRegistry} (hreg : Registers t register)

include hreg

theorem lookup_opened (id : ℕ) : (r.opened register).mailboxes.lookup id
    = if id = r.nextMailbox then some [] else r.mailboxes.lookup id := by
  have hopen := Wired.lookup_openMailbox r id
  simp only [Option.toList_some, List.mem_singleton] at hopen
  rw [opened, hreg.mailboxes, hopen]

theorem nextMailbox_opened : (r.opened register).nextMailbox = r.nextMailbox + 1 := by
  rw [opened, hreg.nextMailbox]
  rfl

/-- The new sender is the last in the list of its topic. -/
theorem senders_opened (ch : Bytes) : (r.opened register).senders ch
    = r.senders ch ++ if t = .channel ch then [r.nextMailbox] else [] :=
  hreg.channels r.openMailbox.2 r.nextMailbox ch

theorem sendersOf_opened (p : String) : (r.opened register).sendersOf p
    = r.sendersOf p ++ if t = .pattern p then [r.nextMailbox] else [] :=
  hreg.patterns r.openMailbox.2 r.nextMailbox p

theorem Bounded.opened (h : r.Bounded) : (r.opened register).Bounded where
  channels ch tx htx := by
    rw [nextMailbox_opened hreg, Nat.lt_succ_iff]
    rw [senders_opened hreg] at htx
    rcases List.mem_append.mp htx with hold | hnew
    · exact (h.channels ch tx hold).le
    · split at hnew
      · exact (List.mem_singleton.mp hnew).le
      · cases hnew
  patterns p tx htx := by
    rw [nextMailbox_opened hreg, Nat.lt_succ_iff]
    rw [sendersOf_opened hreg] at htx
    rcases List.mem_append.mp htx with hold | hnew
    · exact (h.patterns p tx hold).le
    · split at hnew
      · exact (List.mem_singleton.mp hnew).le
      · cases hnew
  mailboxes tx queue hq := by
    rw [nextMailbox_opened hreg, Nat.lt_succ_iff]
    rw [lookup_opened hreg] at hq
    split at hq
    · next htx => exact htx.le
    · exact (h.mailboxes tx queue hq).le

/-- Receivers that have been opened before are spared. -/
theorem spares_opened (hid : id < r.nextMailbox) : Spares id r (r.opened register) where
  channels ch := by
    have hne : r.nextMailbox ≠ id := hid.ne'
    rw [senders_opened hreg, List.count_append, Nat.add_eq_left]
    split <;> simp [hne]
  patterns p := by
    have hne : r.nextMailbox ≠ id := hid.ne'
    rw [sendersOf_opened hreg, List.count_append, Nat.add_eq_left]
    split <;> simp [hne]
  queue := by rw [lookup_opened hreg, if_neg hid.ne]

theorem registered_opened (h : r.Bounded) : (r.opened register).Registered r.nextMailbox t where
  channels ch := by
    have hnone : (r.senders ch).count r.nextMailbox = 0 :=
      List.count_eq_zero_of_not_mem fun hmem => lt_irrefl _ (h.channels ch _ hmem)
    rw [senders_opened hreg, List.count_append, hnone, Nat.zero_add]
    split <;> simp
  patterns p := by
    have hnone : (r.sendersOf p).count r.nextMailbox = 0 :=
      List.count_eq_zero_of_not_mem fun hmem => lt_irrefl _ (h.patterns p _ hmem)
    rw [sendersOf_opened hreg, List.count_append, hnone, Nat.zero_add]
    split <;> simp

end Opened

end PubSubRegistry

/-! ### One client -/

/-- The registry of subscribers, as one client sees it. -/
abbrev Side.registry (s : Side) : PubSubRegistry := s.tables.pubsubRegistry

/-- The receivers that a client can know of have been opened. -/
structure Side.Numbered (s : Side) : Prop where
  bounded : s.registry.Bounded
  held : ∀ id ∈ s.ctx.pubsubRx.toList, id < s.registry.nextMailbox

/-- What a client does to receivers. The last topic that it has subscribed to on the way is
`opened`. The receivers of others are spared; the one that the client holds afterwards is new and is
for that topic, or is the one it held before; and no other has been opened. -/
structure Rewired (opened : Option Topic) (s s' : Side) : Prop where
  numbered : s'.Numbered
  next : s.registry.nextMailbox ≤ s'.registry.nextMailbox
  spares : ∀ id < s.registry.nextMailbox, id ∉ s.ctx.pubsubRx.toList →
    PubSubRegistry.Spares id s.registry s'.registry
  mine : ∀ id ∈ s'.ctx.pubsubRx.toList,
    (∃ t, opened = some t ∧ s.registry.nextMailbox ≤ id ∧ id < s'.registry.nextMailbox ∧
      s'.registry.mailboxes.lookup id = some [] ∧ s'.registry.Registered id t) ∨
    opened = none ∧ id ∈ s.ctx.pubsubRx.toList ∧
      PubSubRegistry.Spares id s.registry s'.registry
  opens : ∀ id queue, s'.registry.mailboxes.lookup id = some queue →
    id ∈ s'.ctx.pubsubRx.toList ∨
      id ∉ s.ctx.pubsubRx.toList ∧ s.registry.mailboxes.lookup id = some queue

namespace Rewired

variable {o o' : Option Topic} {s s' s'' : Side}

/-- A change of the context that leaves the receiver where it is. -/
theorem context (hs : s.Numbered) (ctx : ClientContext)
    (hrx : ctx.pubsubRx = s.ctx.pubsubRx) : Rewired none s { s with ctx := ctx } where
  numbered := ⟨hs.bounded, hrx ▸ hs.held⟩
  next := le_rfl
  spares _ _ _ := .refl _ _
  mine _ hid := Or.inr ⟨rfl, hrx ▸ hid, .refl _ _⟩
  opens id queue hq := by
    rw [hrx]
    by_cases hid : id ∈ s.ctx.pubsubRx.toList
    · exact Or.inl hid
    · exact Or.inr ⟨hid, hq⟩

/-- **One change after the other.** The later topic counts. -/
theorem trans (h : Rewired o s s') (h' : Rewired o' s' s'') : Rewired (o'.or o) s s'' := by
  have hforeign : ∀ id < s.registry.nextMailbox, id ∉ s.ctx.pubsubRx.toList →
      id ∉ s'.ctx.pubsubRx.toList := by
    intro id hlt hid hmem
    rcases h.mine id hmem with ⟨-, -, hnew, -⟩ | ⟨-, hold, -⟩
    · exact absurd hlt (Nat.not_lt.mpr hnew)
    · exact hid hold
  exact {
    numbered := h'.numbered
    next := h.next.trans h'.next
    spares := fun id hlt hid => (h.spares id hlt hid).trans
      (h'.spares id (hlt.trans_le h.next) (hforeign id hlt hid))
    mine := fun id hid => by
      rcases h'.mine id hid with ⟨t, rfl, hge, hrest⟩ | ⟨rfl, hmem, hspares⟩
      · exact Or.inl ⟨t, rfl, h.next.trans hge, hrest⟩
      · rcases h.mine id hmem with ⟨t, rfl, hge, hlt, hq, hreg⟩ | ⟨rfl, hold, hbefore⟩
        · exact Or.inl ⟨t, rfl, hge, hlt.trans_le h'.next, hspares.queue.trans hq,
            hspares.registered hreg⟩
        · exact Or.inr ⟨rfl, hold, hbefore.trans hspares⟩
    opens := fun id queue hq => by
      rcases h'.opens id queue hq with hid | ⟨hid, hq'⟩
      · exact Or.inl hid
      · exact Or.inr ((h.opens id queue hq').resolve_left hid) }

/-- The receiver goes away. -/
theorem dropReceiver (hs : s.Numbered) : Rewired none s (Cmd.dropReceiver s) where
  numbered := ⟨hs.bounded.dropMailbox s.ctx.pubsubRx, fun _ hid => absurd hid List.not_mem_nil⟩
  next := (Wired.patterns_dropMailbox s.ctx.pubsubRx s.registry).2.ge
  spares _ _ hid := PubSubRegistry.spares_dropMailbox hid
  mine _ hid := absurd hid List.not_mem_nil
  opens id queue hq := by
    have hq' : (s.registry.dropMailbox s.ctx.pubsubRx).mailboxes.lookup id = some queue := hq
    rw [Wired.lookup_dropMailbox] at hq'
    split at hq'
    · cases hq'
    · next hid => exact Or.inr ⟨hid, hq'⟩

/-- **A new receiver** in the place of the old one. -/
theorem withReceiver {t : Topic} {register : PubSubRegistry → ℕ → PubSubRegistry}
    (hreg : PubSubRegistry.Registers t register) (hs : s.Numbered) :
    Rewired (some t) s (Cmd.withReceiver register s) := by
  have hafter : (Cmd.withReceiver register s).registry
      = (s.registry.opened register).dropMailbox s.ctx.pubsubRx := rfl
  have hnext : (Cmd.withReceiver register s).registry.nextMailbox = s.registry.nextMailbox + 1 := by
    rw [hafter, (Wired.patterns_dropMailbox _ _).2, PubSubRegistry.nextMailbox_opened hreg]
  -- the new receiver is not the one that goes away
  have hfresh : s.registry.nextMailbox ∉ s.ctx.pubsubRx.toList := fun hmem =>
    lt_irrefl _ (hs.held _ hmem)
  have hlookup : ∀ id, (Cmd.withReceiver register s).registry.mailboxes.lookup id
      = if id = s.registry.nextMailbox then some []
        else if id ∈ s.ctx.pubsubRx.toList then none else s.registry.mailboxes.lookup id := by
    intro id
    rw [hafter, Wired.lookup_dropMailbox, PubSubRegistry.lookup_opened hreg]
    by_cases hid : id = s.registry.nextMailbox
    · rw [if_pos hid, if_pos hid, if_neg (hid ▸ hfresh)]
    · rw [if_neg hid, if_neg hid]
  exact {
    numbered := {
      bounded := (hs.bounded.opened hreg).dropMailbox s.ctx.pubsubRx
      held := fun id hid => by
        rw [hnext, List.mem_singleton.mp hid]
        exact Nat.lt_succ_self _ }
    next := hnext ▸ Nat.le_succ _
    spares := fun id hlt hid => (PubSubRegistry.spares_opened hreg hlt).trans
      (PubSubRegistry.spares_dropMailbox hid)
    mine := fun id hid => by
      obtain rfl : id = s.registry.nextMailbox := List.mem_singleton.mp hid
      refine Or.inl ⟨t, rfl, le_rfl, hnext ▸ Nat.lt_succ_self _, ?_, ?_⟩
      · rw [hlookup, if_pos rfl]
      · exact (PubSubRegistry.keeps_dropMailbox _ _).registered
          (PubSubRegistry.registered_opened hreg hs.bounded)
    opens := fun id queue hq => by
      rw [hlookup] at hq
      split at hq
      · next hid => exact Or.inl (List.mem_singleton.mpr hid)
      · split at hq
        · cases hq
        · next hid => exact Or.inr ⟨hid, hq⟩ }

theorem subscribeOne (hs : s.Numbered) (ch : Bytes) :
    Rewired (some (.channel ch)) s (Cmd.subscribeOne s ch) := by
  have hctx := context hs { s.ctx with
    subscribedChannels := s.ctx.subscribedChannels ++ [ch] } rfl
  exact hctx.trans (withReceiver (PubSubRegistry.registers_subscribeChannel ch) hctx.numbered)

theorem psubscribeOne (hs : s.Numbered) (p : Bytes) :
    Rewired (some (.pattern (fromUtf8Lossy p))) s (Cmd.psubscribeOne s p) := by
  have hctx := context hs { s.ctx with
    subscribedPatterns := s.ctx.subscribedPatterns ++ [fromUtf8Lossy p] } rfl
  exact hctx.trans (withReceiver (PubSubRegistry.registers_subscribePattern _) hctx.numbered)

/-- **Some names, one after the other.** The last one counts. -/
theorem foldl {one : Side → Bytes → Side} {topic : Bytes → Topic}
    (hone : ∀ {s : Side}, s.Numbered → ∀ a, Rewired (some (topic a)) s (one s a))
    (hs : s.Numbered) (args : List Bytes) :
    Rewired (args.getLast?.map topic) s (args.foldl one s) := by
  induction args using List.reverseRecOn with
  | nil => exact context hs _ rfl
  | append_singleton args a ih =>
    rw [List.foldl_append, List.foldl_cons, List.foldl_nil, List.getLast?_concat]
    exact ih.trans (hone ih.numbered a)

theorem enterSubMode (h : Rewired o s s') : Rewired o s (Cmd.enterSubMode s') := by
  have hmode := h.trans (context h.numbered { s'.ctx with subMode := true } rfl)
  rwa [Option.none_or] at hmode

theorem leftSubMode (hs : s.Numbered) : Rewired none s (Cmd.leftSubMode s) := by
  rw [Cmd.leftSubMode]
  split
  · have hctx := context hs { s.ctx with subMode := false } rfl
    exact hctx.trans (dropReceiver hctx.numbered)
  · exact context hs _ rfl

/-- Giving up subscriptions subscribes to nothing. -/
theorem givenUp {without : Side} (h : Rewired none s without) :
    Rewired none s (Cmd.leftSubMode without) := h.trans (leftSubMode h.numbered)

end Rewired

/-- The topic of the last name that a command subscribes to. -/
def SubscribeCall.topic (e : SubscribeCall) : Option Topic :=
  match e.command with
  | .subscribe => e.args.getLast?.map .channel
  | .psubscribe => e.args.getLast?.map fun p => .pattern (fromUtf8Lossy p)
  | _ => none

/-- **One subscribing command.** -/
theorem SubscribeCall.rewired (e : SubscribeCall) {s : Side} (hs : s.Numbered) :
    Rewired e.topic s (e.command.handler e.env e.dbs e.args s).2 := by
  obtain ⟨client, command, args, env, dbs⟩ := e
  cases command with
  | subscribe =>
    show Rewired (args.getLast?.map .channel) s (Cmd.subscribe env dbs args s).2
    by_cases hargs : args = []
    · rw [hargs]
      exact .context hs _ rfl
    · rw [Cmd.subscribe_run env dbs args s hargs]
      exact (Rewired.foldl Rewired.subscribeOne hs args).enterSubMode
  | psubscribe =>
    show Rewired (args.getLast?.map fun p => .pattern (fromUtf8Lossy p)) s
      (Cmd.psubscribe env dbs args s).2
    by_cases hargs : args = []
    · rw [hargs]
      exact .context hs _ rfl
    · rw [Cmd.psubscribe_run env dbs args s hargs]
      exact (Rewired.foldl Rewired.psubscribeOne hs args).enterSubMode
  | unsubscribe =>
    show Rewired none s (Cmd.unsubscribe env dbs args s).2
    obtain ⟨lines, hrun⟩ := Cmd.unsubscribe_run env dbs args s
    have hkeep : ∀ p, Rewired none s (Cmd.keepChannels p s) := fun p => .context hs _ rfl
    rw [hrun]
    refine Rewired.givenUp ?_
    rw [Cmd.withoutChannels]
    split
    · exact (hkeep _).trans (.dropReceiver (hkeep _).numbered)
    · exact hkeep _
  | punsubscribe =>
    show Rewired none s (Cmd.punsubscribe env dbs args s).2
    have hkeep : ∀ p, Rewired none s (Cmd.keepPatterns p s) := fun p => .context hs _ rfl
    rw [Cmd.punsubscribe_run env dbs args s]
    refine Rewired.givenUp ?_
    rw [Cmd.withoutPatterns]
    split
    · exact (hkeep _).trans (.dropReceiver (hkeep _).numbered)
    · exact hkeep _

/-! ### All clients -/

/-- What happens at the hub, by the number of the client that does it. -/
inductive HubEvent
  | call (e : SubscribeCall)
  | publish (client : ℕ) (channel message : Bytes) (env : Env) (dbs : Databases)
  /-- The connection ends; its number is free for a new one. -/
  | leave (client : ℕ)

namespace HubEvent

def client : HubEvent → ℕ
  | .call e => e.client
  | .publish j _ _ _ _ => j
  | .leave j => j

/-- The client's part of an event. -/
def run (s : Side) : HubEvent → Side
  | .call e => (e.command.handler e.env e.dbs e.args s).2
  | .publish _ channel message env dbs => (Cmd.publish env dbs [channel, message] s).2
  | .leave _ => ⟨s.tables.dropReceiver s.ctx, {}⟩

/-- The topic that the client of an event has subscribed to with it. -/
def topic : HubEvent → Option Topic
  | .call e => e.topic
  | _ => none

/-- What is published under a topic. -/
def published (t : Topic) : HubEvent → List (Bytes × Bytes)
  | .publish _ channel message _ _ => if t.covers channel then [(channel, message)] else []
  | _ => []

/-- The last topic of a client, with what has been published under it since. -/
def feed (j : ℕ) (f : Option (Topic × List (Bytes × Bytes))) (e : HubEvent) :
    Option (Topic × List (Bytes × Bytes)) :=
  if e.client = j ∧ e.topic.isSome then e.topic.map (·, [])
  else f.map fun p => (p.1, p.2 ++ e.published p.1)

variable {j : ℕ} {f : Option (Topic × List (Bytes × Bytes))} {e : HubEvent}

theorem feed_topic {t : Topic} (ht : e.topic = some t) : feed e.client f e = some (t, []) := by
  rw [feed, ht, if_pos ⟨rfl, rfl⟩]
  rfl

theorem feed_other (h : e.client ≠ j ∨ e.topic = none) :
    feed j f e = f.map fun p => (p.1, p.2 ++ e.published p.1) := by
  rw [feed, if_neg]
  rintro ⟨hj, hsome⟩
  rcases h with hne | hnone
  · exact hne hj
  · rw [hnone] at hsome
    cases hsome

end HubEvent

namespace Hub

/-- One event. -/
def happen (h : Hub) (e : HubEvent) : Option Hub :=
  h.clients[e.client]?.map fun ctx => h.put e.client (e.run ⟨h.tables, ctx⟩)

/-- Every client holds its feed. -/
structure Fed (past : List HubEvent) (h : Hub) : Prop where
  bounded : h.tables.pubsubRegistry.Bounded
  distinct : ∀ (i j : ℕ) (c d : ClientContext) (id : ℕ), h.clients[i]? = some c →
    h.clients[j]? = some d → c.pubsubRx = some id → d.pubsubRx = some id → i = j
  held : ∀ id queue, h.tables.pubsubRegistry.mailboxes.lookup id = some queue →
    ∃ (j : ℕ) (ctx : ClientContext), h.clients[j]? = some ctx ∧ ctx.pubsubRx = some id
  feeds : ∀ (j : ℕ) (ctx : ClientContext) (id : ℕ), h.clients[j]? = some ctx →
    ctx.pubsubRx = some id → ∃ t queue, past.foldl (HubEvent.feed j) none = some (t, queue) ∧
      h.tables.pubsubRegistry.Registered id t ∧
      h.tables.pubsubRegistry.mailboxes.lookup id = some queue

variable {past : List HubEvent} {h h' : Hub}

theorem Fed.numbered (hf : h.Fed past) {j : ℕ} {ctx : ClientContext}
    (hj : h.clients[j]? = some ctx) : Side.Numbered ⟨h.tables, ctx⟩ where
  bounded := hf.bounded
  held id hid := by
    obtain ⟨t, queue, -, -, hq⟩ := hf.feeds j ctx id hj (Option.mem_toList.mp hid)
    exact hf.bounded.mailboxes id queue hq

/-- The clients after a change of one. -/
theorem getElem?_put {i j : ℕ} {s : Side} {d : ClientContext}
    (hd : (h.put j s).clients[i]? = some d) :
    i = j ∧ d = s.ctx ∨ i ≠ j ∧ h.clients[i]? = some d := by
  rw [put] at hd
  by_cases hij : i = j
  · subst hij
    obtain ⟨hlt, hget⟩ := List.getElem?_eq_some_iff.mp hd
    rw [List.getElem_set_self] at hget
    exact Or.inl ⟨rfl, hget.symm⟩
  · rw [List.getElem?_set_ne (Ne.symm hij)] at hd
    exact Or.inr ⟨hij, hd⟩

/-- **What one client does**, when it publishes nothing. -/
theorem Fed.rewired (hf : h.Fed past) {e : HubEvent} {ctx : ClientContext}
    (hj : h.clients[e.client]? = some ctx) (hpublished : ∀ t, e.published t = [])
    (hrun : Rewired e.topic ⟨h.tables, ctx⟩ (e.run ⟨h.tables, ctx⟩)) :
    (h.put e.client (e.run ⟨h.tables, ctx⟩)).Fed (past ++ [e]) := by
  generalize e.run ⟨h.tables, ctx⟩ = s at hrun
  have hlt : e.client < h.clients.length := (List.getElem?_eq_some_iff.mp hj).1
  -- a receiver of another client is an older one, and not the one of this client
  have hother : ∀ {i d id}, i ≠ e.client → h.clients[i]? = some d → d.pubsubRx = some id →
      id < h.tables.pubsubRegistry.nextMailbox ∧ id ∉ ctx.pubsubRx.toList := by
    intro i d id hne hi hid
    obtain ⟨t, queue, -, -, hq⟩ := hf.feeds i d id hi hid
    exact ⟨hf.bounded.mailboxes id queue hq, fun hmem =>
      hne (hf.distinct i e.client d ctx id hi hj hid (Option.mem_toList.mp hmem))⟩
  -- so that the client does not hold it afterwards either
  have hapart : ∀ {i d id}, i ≠ e.client → h.clients[i]? = some d → d.pubsubRx = some id →
      s.ctx.pubsubRx ≠ some id := by
    intro i d id hne hi hid hmem
    obtain ⟨hold, hnot⟩ := hother hne hi hid
    rcases hrun.mine id (Option.mem_toList.mpr hmem) with ⟨-, -, hnew, -⟩ | ⟨-, hmine, -⟩
    · exact absurd hold (Nat.not_lt.mpr hnew)
    · exact hnot hmine
  exact {
    bounded := hrun.numbered.bounded
    distinct := fun i k c d id hi hk hc hd => by
      rcases getElem?_put hi with ⟨rfl, rfl⟩ | ⟨hine, hi⟩ <;>
        rcases getElem?_put hk with ⟨rfl, rfl⟩ | ⟨hkne, hk⟩
      · rfl
      · exact absurd hc (hapart hkne hk hd)
      · exact absurd hd (hapart hine hi hc)
      · exact hf.distinct i k c d id hi hk hc hd
    held := fun id queue hq => by
      rcases hrun.opens id queue hq with hid | ⟨hid, hold⟩
      · exact ⟨e.client, s.ctx, List.getElem?_set_self hlt, Option.mem_toList.mp hid⟩
      · obtain ⟨i, d, hi, hd⟩ := hf.held id queue hold
        have hne : i ≠ e.client := by
          rintro rfl
          obtain rfl := Option.some.inj (hi.symm.trans hj)
          exact hid (Option.mem_toList.mpr hd)
        exact ⟨i, d, (List.getElem?_set_ne (Ne.symm hne)).trans hi, hd⟩
    feeds := fun i d id hi hid => by
      rw [List.foldl_append, List.foldl_cons, List.foldl_nil]
      rcases getElem?_put hi with ⟨rfl, rfl⟩ | ⟨hne, hi⟩
      · rcases hrun.mine id (Option.mem_toList.mpr hid) with
          ⟨t, ht, -, -, hq, hreg⟩ | ⟨hnone, hold, hspares⟩
        · exact ⟨t, [], HubEvent.feed_topic ht, hreg, hq⟩
        · obtain ⟨t, queue, hfeed, hreg, hq⟩ := hf.feeds _ ctx id hj (Option.mem_toList.mp hold)
          refine ⟨t, queue, ?_, hspares.registered hreg, hspares.queue.trans hq⟩
          rw [HubEvent.feed_other (Or.inr hnone), hfeed, Option.map_some, hpublished,
            List.append_nil]
      · obtain ⟨t, queue, hfeed, hreg, hq⟩ := hf.feeds i d id hi hid
        have hspares := hrun.spares id (hother hne hi hid).1 (hother hne hi hid).2
        refine ⟨t, queue, ?_, hspares.registered hreg, hspares.queue.trans hq⟩
        rw [HubEvent.feed_other (Or.inl (Ne.symm hne)), hfeed, Option.map_some, hpublished,
          List.append_nil] }

/-- **What one client publishes.** -/
theorem Fed.published (hf : h.Fed past) {j : ℕ} {ctx : ClientContext}
    (hj : h.clients[j]? = some ctx) (channel message : Bytes) (env : Env) (dbs : Databases) :
    (h.put j ((HubEvent.publish j channel message env dbs).run ⟨h.tables, ctx⟩)).Fed
      (past ++ [.publish j channel message env dbs]) := by
  have hset : h.clients.set j ctx = h.clients := by
    obtain ⟨hlt, rfl⟩ := List.getElem?_eq_some_iff.mp hj
    exact List.set_getElem_self hlt
  have hafter : h.put j ((HubEvent.publish j channel message env dbs).run ⟨h.tables, ctx⟩)
      = ⟨{ h.tables with
            pubsubRegistry := (h.tables.pubsubRegistry.publishAll channel message).2 },
          h.clients⟩ := by
    show Hub.mk _ (h.clients.set j ctx) = _
    rw [hset]
    rfl
  rw [hafter]
  exact {
    bounded := hf.bounded.publishAll channel message
    distinct := hf.distinct
    held := fun id queue hq => by
      have hq' : (h.tables.pubsubRegistry.publishAll channel message).2.mailboxes.lookup id
        = some queue := hq
      rw [PubSubRegistry.lookup_publishAll] at hq'
      obtain ⟨old, hold, -⟩ := Option.map_eq_some_iff.mp hq'
      exact hf.held id old hold
    feeds := fun i d id hi hid => by
      obtain ⟨t, queue, hfeed, hreg, hq⟩ := hf.feeds i d id hi hid
      have hkeeps := PubSubRegistry.keeps_publishAll hq channel message
      refine ⟨t, queue ++ if t.covers channel = true then [(channel, message)] else [], ?_,
        hkeeps.registered hreg, ?_⟩
      · rw [List.foldl_append, List.foldl_cons, List.foldl_nil, HubEvent.feed_other (Or.inr rfl),
          hfeed]
        rfl
      · show (h.tables.pubsubRegistry.publishAll channel message).2.mailboxes.lookup id = _
        rw [hreg.lookup_publishAll, hq, Option.map_some] }

/-- **One event.** -/
theorem Fed.happen (hf : h.Fed past) {e : HubEvent} (hstep : h.happen e = some h') :
    h'.Fed (past ++ [e]) := by
  obtain ⟨ctx, hctx, rfl⟩ := Option.map_eq_some_iff.mp hstep
  have hnumbered := hf.numbered hctx
  cases e with
  | call e => exact hf.rewired hctx (fun _ => rfl) (e.rewired hnumbered)
  | publish j channel message env dbs => exact hf.published hctx channel message env dbs
  | leave j =>
    refine hf.rewired hctx (fun _ => rfl) ?_
    have hdrop := Rewired.dropReceiver hnumbered
    exact hdrop.trans (.context hdrop.numbered {} rfl)

/-- Nobody has subscribed to anything. -/
theorem Fresh.fed (hf : h.Fresh) : h.Fed [] where
  bounded := by
    rw [hf.registry]
    exact ⟨fun _ _ h => (List.not_mem_nil h).elim, fun _ _ h => (List.not_mem_nil h).elim,
      fun _ _ h => by cases h⟩
  distinct i j c d id hi _ hc _ := by
    rw [(hf.clients c (List.mem_of_getElem? hi)).1] at hc
    cases hc
  held id queue hq := by
    rw [hf.registry] at hq
    cases hq
  feeds j ctx id hj hid := by
    rw [(hf.clients ctx (List.mem_of_getElem? hj)).1] at hid
    cases hid

theorem fed_run (hf : h.Fresh) {es : List HubEvent} (hrun : Run.run happen h es = some h') :
    h'.Fed es :=
  Run.run_invariant (P := fun past h => h.Fed past) (fun _ _ _ _ hs hstep => hs.happen hstep) []
    hf.fed hrun

end Hub

/-- **What receivers hold.** In every run of clients that subscribe, give up, publish and leave,
with the commands taken one at a time, the open receivers are those that clients hold, and what a
receiver holds is the feed of its client: what has been published under the last name that the
client has subscribed to since then, once and in order. -/
theorem receiver_holds_iff {start h : Hub} (hf : start.Fresh) {es : List HubEvent}
    (hrun : Run.run Hub.happen start es = some h) (id : ℕ) (queue : List (Bytes × Bytes)) :
    h.tables.pubsubRegistry.mailboxes.lookup id = some queue ↔
      ∃ (j : ℕ) (ctx : ClientContext) (t : Topic), h.clients[j]? = some ctx ∧
        ctx.pubsubRx = some id ∧ es.foldl (HubEvent.feed j) none = some (t, queue) := by
  have hfed := Hub.fed_run hf hrun
  constructor
  · intro hq
    obtain ⟨j, ctx, hj, hid⟩ := hfed.held id queue hq
    obtain ⟨t, queue', hfeed, -, hq'⟩ := hfed.feeds j ctx id hj hid
    obtain rfl := Option.some.inj (hq.symm.trans hq')
    exact ⟨j, ctx, t, hj, hid, hfeed⟩
  · rintro ⟨j, ctx, t, hj, hid, hfeed⟩
    obtain ⟨t', queue', hfeed', -, hq⟩ := hfed.feeds j ctx id hj hid
    obtain ⟨-, rfl⟩ := Prod.mk.inj (Option.some.inj (hfeed.symm.trans hfeed'))
    exact hq

/-- A client subscribes to `a` and then to `b*`, and another one publishes in between and after. -/
def subscribedTwice : List HubEvent :=
  let published := fun channel message =>
    HubEvent.publish 1 [channel] [message] (Moment.on ⟨0, 0, 0, 1⟩ Host.plain) []
  [.call (callOf 0 .subscribe [[97]]), published 97 1, .call (callOf 0 .psubscribe [[98, 42]]),
    published 97 2, published 98 3, published 98 4]

theorem receiver_holds_second : ∃ h, Run.run Hub.happen twoClients subscribedTwice = some h ∧
    h.tables.pubsubRegistry.mailboxes.lookup 1 = some [([98], [3]), ([98], [4])] := by
  have hheld : (Run.run Hub.happen twoClients subscribedTwice).map
      (fun h => h.clients.map ClientContext.pubsubRx) = some [some 1, none] := by decide +kernel
  obtain ⟨h, hrun, hrx⟩ := Option.map_eq_some_iff.mp hheld
  have hfirst : (h.clients.map ClientContext.pubsubRx)[0]? = some (some 1) := by rw [hrx]; rfl
  rw [List.getElem?_map] at hfirst
  obtain ⟨ctx, hctx, hid⟩ := Option.map_eq_some_iff.mp hfirst
  exact ⟨h, hrun, (receiver_holds_iff fresh_twoClients hrun 1 _).mpr
    ⟨0, ctx, .pattern "b*", hctx, hid, by decide +kernel⟩⟩

end VeloDB
