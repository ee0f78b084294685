import VeloDB.Cmd.Server
import VeloDB.Lib.Indexes
import VeloDB.Lib.Run

/-!
# Publishers between their two steps

`publish_channel` sends to the subscribers under one lock and notes the indexes of those that are
gone; it removes these indexes under a second lock. In between, other clients subscribe, receivers
go away, and other publishers take their steps. `PublishRace` is the registry with the publishers
that are between their steps, and a run is any list of such steps.

A subscription is pushed behind the others and moves no index. A removal does. So a publisher
removes what it has seen exactly as long as nobody else has removed from the channel since.

## Main results

* `publishChannel_eq` — the two steps of one publisher, one right after the other
* `no_live_sender_removed` — along every run in which no removal comes between the two steps of
  another publisher on the same channel, no sender with an open receiver is removed and no index is
  out of range
-/

namespace VeloDB

open Rust

/-! ### The two steps -/

namespace PubSubRegistry

/-- The loop over the senders: a sender whose receiver is gone is passed over. -/
def sendAll (r : PubSubRegistry) (senders : List ℕ) (msg : Bytes × Bytes) : PubSubRegistry :=
  senders.foldl (fun r tx => (r.send tx msg).getD r) r

/-- The receiver of a sender is gone. -/
def gone (r : PubSubRegistry) (tx : ℕ) : Bool := (r.mailboxes.lookup tx).isNone

/-- The senders of a channel. -/
def senders (r : PubSubRegistry) (channel : Bytes) : List ℕ := (r.channels.lookup channel).getD []

/-- The indexes that the loop over the senders notes. -/
def dead (r : PubSubRegistry) (channel : Bytes) : List ℕ :=
  Indexes.positions r.gone (r.senders channel)

/-- The second step: remove indexes, from the highest to the lowest. -/
def removeDead (r : PubSubRegistry) (channel : Bytes) (dead : List ℕ) : Bool × PubSubRegistry :=
  match r.channels.lookup channel with
  | some senders =>
    let res := Indexes.removeEach dead.reverse senders
    (res.1, { r with channels := r.channels.insert channel res.2 })
  | none => (true, r)

/-- Sending changes no channel and opens or closes no receiver. -/
structure Sent (r r' : PubSubRegistry) : Prop where
  channels : r'.channels = r.channels
  patterns : r'.patterns = r.patterns
  nextMailbox : r'.nextMailbox = r.nextMailbox
  gone : ∀ tx, r'.gone tx = r.gone tx

theorem sent_send (r : PubSubRegistry) (tx : ℕ) (msg : Bytes × Bytes) :
    Sent r ((r.send tx msg).getD r) := by
  rw [send]
  cases hq : r.mailboxes.lookup tx with
  | none => exact ⟨rfl, rfl, rfl, fun _ => rfl⟩
  | some queue =>
    refine ⟨rfl, rfl, rfl, fun id => ?_⟩
    show (AList.lookup id (r.mailboxes.insert tx (queue ++ [msg]))).isNone = _
    by_cases hid : id = tx
    · rw [hid, AList.lookup_insert, gone, hq]
      rfl
    · rw [AList.lookup_insert_ne hid, gone]

theorem sent_sendAll (r : PubSubRegistry) (senders : List ℕ) (msg : Bytes × Bytes) :
    Sent r (r.sendAll senders msg) := by
  induction senders generalizing r with
  | nil => exact ⟨rfl, rfl, rfl, fun _ => rfl⟩
  | cons tx senders ih =>
    have hone := r.sent_send tx msg
    have hrest := ih ((r.send tx msg).getD r)
    exact ⟨hrest.channels.trans hone.channels, hrest.patterns.trans hone.patterns,
      hrest.nextMailbox.trans hone.nextMailbox, fun id => (hrest.gone id).trans (hone.gone id)⟩

theorem Sent.senders {r r' : PubSubRegistry} (h : Sent r r') (channel : Bytes) :
    r'.senders channel = r.senders channel := by
  rw [PubSubRegistry.senders, h.channels, PubSubRegistry.senders]

end PubSubRegistry

/-- A publisher between its two steps. -/
structure Publication where
  channel : Bytes
  dead : List ℕ

/-- The registry and the publishers between their two steps. -/
structure PublishRace where
  registry : PubSubRegistry := {}
  pending : ℕ → Option Publication := fun _ => none
  /-- An index was out of range. -/
  panicked : Bool := false

/-- A step of a client. Publishers are numbered. -/
inductive PublishEvent
  /-- A new receiver, and its sender registered for a channel. -/
  | subscribe (channel : Bytes)
  /-- A receiver goes away. -/
  | drop (id : ℕ)
  /-- The first step of a publisher. -/
  | snapshot (p : ℕ) (channel message : Bytes)
  /-- The second step of a publisher, which only one that has seen a dead sender takes. -/
  | remove (p : ℕ) (channel : Bytes)
  deriving DecidableEq

namespace PublishRace

/-- One step, when it can be taken. -/
def step (s : PublishRace) : PublishEvent → Option PublishRace
  | .subscribe channel =>
    let r := s.registry.openMailbox
    some { s with registry := r.2.subscribeChannel channel r.1 }
  | .drop id => some { s with registry := s.registry.dropMailbox (some id) }
  | .snapshot p channel message =>
    if s.pending p = none then
      let dead := s.registry.dead channel
      some { s with
        registry := s.registry.sendAll (s.registry.senders channel) (channel, message)
        pending := if dead = [] then s.pending
          else Function.update s.pending p (some ⟨channel, dead⟩) }
    else none
  | .remove p channel =>
    match s.pending p with
    | some pub =>
      if pub.channel = channel then
        let r := s.registry.removeDead channel pub.dead
        some {
          registry := r.2
          pending := Function.update s.pending p none
          panicked := s.panicked || !r.1 }
      else none
    | none => none

/-- What one step does. -/
inductive Steps (s : PublishRace) : PublishEvent → PublishRace → Prop
  | subscribe (channel : Bytes) : Steps s (.subscribe channel)
    { s with registry := s.registry.openMailbox.2.subscribeChannel channel s.registry.nextMailbox }
  | drop (id : ℕ) : Steps s (.drop id) { s with registry := s.registry.dropMailbox (some id) }
  | snapshot {p : ℕ} (hp : s.pending p = none) (channel message : Bytes) :
    Steps s (.snapshot p channel message) { s with
      registry := s.registry.sendAll (s.registry.senders channel) (channel, message)
      pending := if s.registry.dead channel = [] then s.pending
        else Function.update s.pending p (some ⟨channel, s.registry.dead channel⟩) }
  | remove {p : ℕ} {channel : Bytes} {dead : List ℕ} (hp : s.pending p = some ⟨channel, dead⟩) :
    Steps s (.remove p channel) {
      registry := (s.registry.removeDead channel dead).2
      pending := Function.update s.pending p none
      panicked := s.panicked || !(s.registry.removeDead channel dead).1 }

variable {s t : PublishRace} {e : PublishEvent}

theorem steps_of_step (h : s.step e = some t) : s.Steps e t := by
  cases e with
  | subscribe channel =>
    obtain rfl := Option.some.inj h
    exact .subscribe channel
  | drop id =>
    obtain rfl := Option.some.inj h
    exact .drop id
  | snapshot p channel message =>
    rw [step] at h
    split at h
    · next hp =>
      obtain rfl := Option.some.inj h
      exact .snapshot hp channel message
    · cases h
  | remove p channel =>
    rw [step] at h
    split at h
    · next pub hp =>
      split at h
      · next hc =>
        subst hc
        obtain rfl := Option.some.inj h
        exact .remove hp
      · cases h
    · cases h

end PublishRace

/-! ### What stays -/

namespace PubSubRegistry

variable (r : PubSubRegistry)

theorem senders_subscribeChannel (channel ch : Bytes) (tx : ℕ) :
    (r.subscribeChannel channel tx).senders ch
      = if ch = channel then r.senders channel ++ [tx] else r.senders ch := by
  rw [senders, subscribeChannel]
  dsimp only
  by_cases h : ch = channel
  · rw [if_pos h, h, AList.lookup_insert]
    rfl
  · rw [if_neg h, AList.lookup_insert_ne h]
    rfl

theorem gone_dropMailbox {id tx : ℕ} (h : r.gone tx = true) :
    (r.dropMailbox (some id)).gone tx = true := by
  show (AList.lookup tx (r.mailboxes.erase id)).isNone = true
  by_cases hid : tx = id
  · rw [hid, AList.lookup_erase]
    rfl
  · rw [AList.lookup_erase_ne hid]
    exact h

theorem gone_openMailbox {tx : ℕ} (hlt : tx < r.nextMailbox) :
    r.openMailbox.2.gone tx = r.gone tx := by
  show (AList.lookup tx (r.mailboxes.insert r.nextMailbox [])).isNone = _
  rw [AList.lookup_insert_ne hlt.ne]
  rfl

/-- The second step, on the senders of its channel. -/
theorem removeDead_eq {channel : Bytes} {dead : List ℕ}
    (h : ∀ i ∈ dead, i < (r.senders channel).length) :
    (r.removeDead channel dead).1 = (Indexes.removeEach dead.reverse (r.senders channel)).1 ∧
      ∀ ch, (r.removeDead channel dead).2.senders ch
        = if ch = channel then (Indexes.removeEach dead.reverse (r.senders channel)).2
          else r.senders ch := by
  cases hl : r.channels.lookup channel with
  | none =>
    have hnil : r.senders channel = [] := by rw [senders, hl]; rfl
    have hdead : dead = [] := by
      refine List.eq_nil_iff_forall_not_mem.mpr fun i hi => ?_
      have hlt := h i hi
      rw [hnil] at hlt
      exact Nat.not_lt_zero i hlt
    have hsame : r.removeDead channel dead = (true, r) := by rw [removeDead, hl]
    rw [hsame, hdead, hnil]
    refine ⟨rfl, fun ch => ?_⟩
    split
    · next hch => rw [hch, hnil]; rfl
    · rfl
  | some l =>
    have hl' : r.senders channel = l := by rw [senders, hl]; rfl
    have hres : r.removeDead channel dead = ((Indexes.removeEach dead.reverse l).1, { r with
        channels := r.channels.insert channel (Indexes.removeEach dead.reverse l).2 }) := by
      rw [removeDead, hl]
    rw [hres, hl']
    refine ⟨rfl, fun ch => ?_⟩
    rw [senders]
    dsimp only
    split
    · next hch => rw [hch, AList.lookup_insert]; rfl
    · next hch => rw [AList.lookup_insert_ne hch]; rfl

theorem gone_removeDead (channel : Bytes) (dead : List ℕ) (tx : ℕ) :
    (r.removeDead channel dead).2.gone tx = r.gone tx := by
  rw [removeDead]
  split <;> rfl

theorem nextMailbox_removeDead (channel : Bytes) (dead : List ℕ) :
    (r.removeDead channel dead).2.nextMailbox = r.nextMailbox := by
  rw [removeDead]
  split <;> rfl

/-- Whatever is removed, no sender is new. -/
theorem senders_removeDead_subset (channel ch : Bytes) (dead : List ℕ) :
    (r.removeDead channel dead).2.senders ch ⊆ r.senders ch := by
  rw [removeDead]
  split
  · next l hl =>
    rw [senders, senders]
    dsimp only
    by_cases hch : ch = channel
    · rw [hch, AList.lookup_insert, hl]
      exact Indexes.removeEach_subset _ _
    · rw [AList.lookup_insert_ne hch]
      exact List.Subset.refl _
  · exact List.Subset.refl _

/-- **The two steps of one publisher**, one right after the other. -/
theorem publishChannel_eq (channel message : Bytes) :
    r.publishChannel channel message = ((r.senders channel).length - (r.dead channel).length,
      if r.dead channel = [] then r.sendAll (r.senders channel) (channel, message)
      else ((r.sendAll (r.senders channel) (channel, message)).removeDead channel
        (r.dead channel)).2) := by
  rw [publishChannel, dead, senders]
  cases hl : r.channels.lookup channel with
  | none => rfl
  | some l =>
    have hlen := List.length_eq_length_filter_add (l := l) r.gone
    have halive : l.filter (fun tx => (r.mailboxes.lookup tx).isSome)
        = l.filter fun tx => !r.gone tx := by
      refine List.filter_congr fun tx _ => ?_
      rw [gone, Option.not_isNone]
    have hpos := Indexes.length_positions r.gone l
    have hsent := r.sent_sendAll l (channel, message)
    have hremove : ((r.sendAll l (channel, message)).removeDead channel
        (Indexes.positions r.gone l)).2 = { r.sendAll l (channel, message) with
          channels := (r.sendAll l (channel, message)).channels.insert channel
            (l.filter fun tx => !r.gone tx) } := by
      rw [removeDead, hsent.channels, hl]
      dsimp only
      rw [Indexes.removeEach_positions]
    dsimp only [Option.getD_some]
    rw [halive, hremove]
    refine Prod.ext ?_ ?_
    · show (l.filter fun tx => !r.gone tx).length = _
      omega
    · show (if _ then _ else _) = _
      by_cases hnil : Indexes.positions r.gone l = []
      · rw [if_neg, if_pos hnil]
        · rfl
        · rw [hnil, List.length_nil] at hpos
          omega
      · have hlt := List.length_pos_iff.mpr hnil
        rw [if_pos (by omega), if_neg hnil]
        rfl

end PubSubRegistry

/-! ### Runs -/

/-- The first step of a publisher. -/
def PublishEvent.snapshotBy (p : ℕ) : PublishEvent → Bool
  | .snapshot q _ _ => q = p
  | _ => false

/-- The second step of any publisher on a channel. -/
def PublishEvent.removesFrom (channel : Bytes) : PublishEvent → Bool
  | .remove _ c => c = channel
  | _ => false

/-- What has happened since the last first step of a publisher, the latest first. -/
def sinceSnapshot (p : ℕ) (past : List PublishEvent) : List PublishEvent :=
  past.reverse.takeWhile fun e => !e.snapshotBy p

/-- Nothing has been removed from a channel since the last first step of a publisher. -/
def Undisturbed (p : ℕ) (channel : Bytes) (past : List PublishEvent) : Prop :=
  ∀ e ∈ sinceSnapshot p past, e.removesFrom channel = false

instance (p : ℕ) (channel : Bytes) (past : List PublishEvent) :
    Decidable (Undisturbed p channel past) :=
  inferInstanceAs (Decidable (∀ e ∈ sinceSnapshot p past, e.removesFrom channel = false))

/-- A second step comes before any other publisher has removed from the channel. -/
def Timely (past : List PublishEvent) : PublishEvent → Prop
  | .remove p channel => Undisturbed p channel past
  | _ => True

instance (past : List PublishEvent) : (e : PublishEvent) → Decidable (Timely past e)
  | .remove p channel => inferInstanceAs (Decidable (Undisturbed p channel past))
  | .subscribe _ => inferInstanceAs (Decidable True)
  | .drop _ => inferInstanceAs (Decidable True)
  | .snapshot _ _ _ => inferInstanceAs (Decidable True)

/-- Every step of a list of steps is timely. -/
def TimelyRun (es : List PublishEvent) : Prop :=
  Run.Along (fun past e => past ++ [e]) Timely [] es

instance (es : List PublishEvent) : Decidable (TimelyRun es) := Run.decidableAlong [] es

theorem timelyRun_snoc {past : List PublishEvent} {e : PublishEvent} :
    TimelyRun (past ++ [e]) ↔ TimelyRun past ∧ Timely past e := by
  rw [TimelyRun, Run.along_append, Run.foldl_snoc, List.nil_append, Run.Along, Run.Along, and_true]
  rfl

theorem sinceSnapshot_snoc (p : ℕ) (past : List PublishEvent) (e : PublishEvent) :
    sinceSnapshot p (past ++ [e])
      = if e.snapshotBy p then [] else e :: sinceSnapshot p past := by
  rw [sinceSnapshot, List.reverse_append, List.reverse_singleton, List.singleton_append,
    List.takeWhile_cons]
  cases e.snapshotBy p <;> rfl

namespace PublishRace

variable {s t : PublishRace} {e : PublishEvent}

/-- What a publisher has noted still is what it was: indexes of senders without a receiver, from the
lowest to the highest. -/
def Current (s : PublishRace) (pub : Publication) : Prop :=
  pub.dead.Pairwise (· < ·) ∧
    ∀ i ∈ pub.dead, Indexes.PointsAt s.registry.gone (s.registry.senders pub.channel) i

/-- Every sender belongs to a receiver that has been opened. -/
def Bounded (s : PublishRace) : Prop :=
  ∀ ch, ∀ tx ∈ s.registry.senders ch, tx < s.registry.nextMailbox

theorem Steps.bounded (h : s.Steps e t) (hs : s.Bounded) : t.Bounded := by
  cases h with
  | subscribe channel =>
    intro ch tx htx
    show tx < s.registry.nextMailbox + 1
    rw [PubSubRegistry.senders_subscribeChannel] at htx
    split at htx
    · rcases List.mem_append.mp htx with htx | htx
      · exact Nat.lt_succ_of_lt (hs channel tx htx)
      · rw [List.mem_singleton.mp htx]
        exact Nat.lt_succ_self _
    · exact Nat.lt_succ_of_lt (hs ch tx htx)
  | drop id => exact hs
  | snapshot hp channel message =>
    have hsent := s.registry.sent_sendAll (s.registry.senders channel) (channel, message)
    intro ch tx htx
    rw [hsent.senders] at htx
    rw [hsent.nextMailbox]
    exact hs ch tx htx
  | @remove p channel dead hp =>
    intro ch tx htx
    rw [PubSubRegistry.nextMailbox_removeDead]
    exact hs ch tx (s.registry.senders_removeDead_subset channel ch dead htx)

/-- A receiver that is gone stays gone. -/
theorem Steps.gone (h : s.Steps e t) {tx : ℕ} (hlt : tx < s.registry.nextMailbox)
    (hgone : s.registry.gone tx = true) : t.registry.gone tx = true := by
  cases h with
  | subscribe channel =>
    show s.registry.openMailbox.2.gone tx = true
    rw [PubSubRegistry.gone_openMailbox _ hlt]
    exact hgone
  | drop id => exact s.registry.gone_dropMailbox hgone
  | snapshot hp channel message =>
    rw [(s.registry.sent_sendAll (s.registry.senders channel) (channel, message)).gone]
    exact hgone
  | @remove p channel dead hp =>
    rw [PubSubRegistry.gone_removeDead]
    exact hgone

/-- Only a second step on a channel takes senders from it. -/
theorem Steps.senders_prefix (h : s.Steps e t) {ch : Bytes} (he : e.removesFrom ch = false) :
    s.registry.senders ch <+: t.registry.senders ch := by
  cases h with
  | subscribe channel =>
    rw [PubSubRegistry.senders_subscribeChannel]
    split
    · next hch => rw [hch]; exact List.prefix_append _ _
    · exact List.prefix_refl _
  | drop id => exact List.prefix_refl _
  | snapshot hp channel message =>
    refine ⟨[], ?_⟩
    rw [List.append_nil,
      (s.registry.sent_sendAll (s.registry.senders channel) (channel, message)).senders]
  | @remove p channel dead hp =>
    have hch : ch ≠ channel := fun hch => by simp [PublishEvent.removesFrom, hch] at he
    rw [PubSubRegistry.senders, PubSubRegistry.removeDead]
    split
    · refine ⟨[], ?_⟩
      rw [List.append_nil, PubSubRegistry.senders, AList.lookup_insert_ne hch]
    · exact List.prefix_refl _

/-- What is noted stays current until something is removed from the channel. -/
theorem Steps.current (h : s.Steps e t) (hs : s.Bounded) {pub : Publication}
    (he : e.removesFrom pub.channel = false) (hpub : s.Current pub) : t.Current pub :=
  ⟨hpub.1, fun i hi => (hpub.2 i hi).mono (h.senders_prefix he)
    fun tx htx hgone => h.gone (hs pub.channel tx htx) hgone⟩

/-- A publisher between its steps was there before, or has just taken its first step. -/
theorem Steps.pending (h : s.Steps e t) {p : ℕ} {pub : Publication}
    (hp : t.pending p = some pub) : (s.pending p = some pub ∧ e.snapshotBy p = false) ∨
      (e.snapshotBy p = true ∧ pub.dead = s.registry.dead pub.channel) := by
  cases h with
  | subscribe channel => exact Or.inl ⟨hp, rfl⟩
  | drop id => exact Or.inl ⟨hp, rfl⟩
  | @snapshot q hq channel message =>
    dsimp only at hp
    by_cases hqp : q = p
    · subst hqp
      split at hp
      · cases hq.symm.trans hp
      · rw [Function.update_self] at hp
        obtain rfl := Option.some.inj hp
        exact Or.inr ⟨decide_eq_true rfl, rfl⟩
    · refine Or.inl ⟨?_, decide_eq_false hqp⟩
      split at hp
      · exact hp
      · rwa [Function.update_of_ne (Ne.symm hqp)] at hp
  | @remove q channel dead hq =>
    dsimp only at hp
    by_cases hqp : p = q
    · rw [hqp, Function.update_self] at hp
      cases hp
    · rw [Function.update_of_ne hqp] at hp
      exact Or.inl ⟨hp, rfl⟩

/-- After some steps, the noted indexes are current unless the channel has been disturbed. -/
structure Sound (past : List PublishEvent) (s : PublishRace) : Prop where
  bounded : s.Bounded
  current : ∀ p pub, s.pending p = some pub → Undisturbed p pub.channel past → s.Current pub

theorem sound_start : Sound [] {} where
  bounded := fun _ _ htx => absurd htx List.not_mem_nil
  current := fun _ _ hp => by cases hp

/-- **One step.** -/
theorem Sound.step {past : List PublishEvent} (hs : Sound past s) (h : s.Steps e t) :
    Sound (past ++ [e]) t where
  bounded := h.bounded hs.bounded
  current := fun p pub hp hun => by
    rw [Undisturbed, sinceSnapshot_snoc] at hun
    rcases h.pending hp with ⟨hold, hby⟩ | ⟨hby, hdead⟩
    · rw [hby, if_neg Bool.false_ne_true] at hun
      obtain ⟨he, hpast⟩ := List.forall_mem_cons.mp hun
      exact h.current hs.bounded he (hs.current p pub hold hpast)
    · have he : e.removesFrom pub.channel = false := by
        cases e <;> first | rfl | cases hby
      have hnow : s.Current pub := by
        rw [Current, hdead]
        exact ⟨Indexes.positions_ascending _ _, fun i hi => Indexes.positions_pointsAt hi⟩
      exact h.current hs.bounded he hnow

/-- The senders whose receiver is open stay, in their order. -/
def KeepsOpen (s t : PublishRace) : Prop :=
  ∀ ch, ((s.registry.senders ch).filter fun tx => !s.registry.gone tx).Sublist
    (t.registry.senders ch)

/-- **A timely step** removes only senders whose receiver is gone, and no index is out of range. -/
theorem Sound.keepsOpen {past : List PublishEvent} (hs : Sound past s) (h : s.Steps e t)
    (he : Timely past e) : t.panicked = s.panicked ∧ s.KeepsOpen t := by
  have hother : ∀ ch, e.removesFrom ch = false →
      ((s.registry.senders ch).filter fun tx => !s.registry.gone tx).Sublist
        (t.registry.senders ch) :=
    fun ch hch => List.filter_sublist.trans (h.senders_prefix hch).sublist
  cases h with
  | subscribe channel => exact ⟨rfl, fun ch => hother ch rfl⟩
  | drop id => exact ⟨rfl, fun ch => hother ch rfl⟩
  | snapshot hp channel message => exact ⟨rfl, fun ch => hother ch rfl⟩
  | @remove p channel dead hp =>
    obtain ⟨hasc, hpoints⟩ := hs.current p ⟨channel, dead⟩ hp he
    obtain ⟨hok, hkept, -⟩ := Indexes.removeEach_spec (List.pairwise_reverse.mpr hasc)
      fun i hi => hpoints i (List.mem_reverse.mp hi)
    obtain ⟨hfst, hsenders⟩ := s.registry.removeDead_eq fun i hi => (hpoints i hi).lt
    refine ⟨?_, fun ch => ?_⟩
    · rw [hfst, hok, Bool.not_true, Bool.or_false]
    · rw [hsenders]
      split
      · next hch =>
        rw [hch, ← hkept]
        exact List.filter_sublist
      · exact List.filter_sublist

theorem sound_run {past : List PublishEvent} (hrun : Run.run step {} past = some s) :
    Sound past s ∧ (TimelyRun past → s.panicked = false) := by
  have hstart : Sound [] {} ∧ (TimelyRun [] → ({} : PublishRace).panicked = false) :=
    ⟨sound_start, fun _ => rfl⟩
  refine Run.run_invariant (P := fun past s => Sound past s ∧ (TimelyRun past → s.panicked = false))
    (fun past s e t hs ht => ?_) [] hstart hrun
  have hsteps := steps_of_step ht
  refine ⟨hs.1.step hsteps, fun htimely => ?_⟩
  obtain ⟨hpast, he⟩ := timelyRun_snoc.mp htimely
  rw [(hs.1.keepsOpen hsteps he).1]
  exact hs.2 hpast

end PublishRace

/-- **Publishing keeps the subscribers that are alive.** In every run of subscriptions, receivers
that go away and steps of any number of publishers in which every second step comes before another
publisher has removed from the channel, no step removes a sender whose receiver is open, and no
index is out of range. -/
theorem no_live_sender_removed {past : List PublishEvent} {e : PublishEvent} {s t : PublishRace}
    (hrun : Run.run PublishRace.step {} past = some s) (ht : s.step e = some t)
    (htimely : TimelyRun (past ++ [e])) : t.panicked = false ∧ s.KeepsOpen t := by
  obtain ⟨hsound, hpanicked⟩ := PublishRace.sound_run hrun
  obtain ⟨hpast, he⟩ := timelyRun_snoc.mp htimely
  obtain ⟨hsame, hkeeps⟩ := hsound.keepsOpen (PublishRace.steps_of_step ht) he
  exact ⟨hsame.trans (hpanicked hpast), hkeeps⟩

/-- Two subscribers, of which the first goes away, and a publisher after its first step. -/
def oneDead (channel : Bytes) (publishers : List ℕ) : List PublishEvent :=
  [.subscribe channel, .subscribe channel, .drop 0] ++
    publishers.map fun p => .snapshot p channel [109]

/-- A publisher, a subscription in between, and the removal of the dead sender. -/
theorem no_live_sender_removed_alone :
    ∃ s t, Run.run PublishRace.step {} (oneDead [99] [0] ++ [.subscribe [99]]) = some s ∧
      s.step (.remove 0 [99]) = some t ∧ t.registry.senders [99] = [1, 2] ∧
      t.panicked = false ∧ s.KeepsOpen t := by
  have htimely : TimelyRun ((oneDead [99] [0] ++ [.subscribe [99]]) ++ [.remove 0 [99]]) := by
    decide
  refine ⟨_, _, rfl, rfl, by decide, ?_⟩
  exact no_live_sender_removed rfl rfl htimely

/-- Two publishers see the same dead sender. The first removes it, and the second what is now at its
index, which is the sender that is alive; a third finds nothing there. -/
theorem live_sender_removed :
    ∃ s t u, Run.run PublishRace.step {} (oneDead [99] [0, 1, 2] ++ [.remove 0 [99]]) = some s ∧
      s.registry.senders [99] = [1] ∧ s.registry.gone 1 = false ∧
      s.step (.remove 1 [99]) = some t ∧ t.registry.senders [99] = [] ∧ ¬ s.KeepsOpen t ∧
      t.step (.remove 2 [99]) = some u ∧ u.panicked = true := by
  refine ⟨_, _, _, rfl, by decide, by decide, rfl, by decide, fun hkeeps => ?_, rfl, by decide⟩
  have hsub := (hkeeps [99]).length_le
  revert hsub
  decide

end VeloDB
