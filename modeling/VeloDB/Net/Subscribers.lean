import VeloDB.Cmd.PublishRace
import VeloDB.Cmd.Subscriptions
import VeloDB.Net.Connection
import Mathlib.Data.List.Perm.Basic

/-!
# Who is sent what is published

A subscription is kept in three places: the registry has a sender for it, the context of the client
lists its name, and the context has one slot for a receiver, into which every name of a `SUBSCRIBE`
or `PSUBSCRIBE` puts a new one. Giving a subscription up changes the lists and sometimes empties the
slot; the registry is never told. `Hub` is the registry with the contexts of all clients, and a run
is any list of subscribing commands.

The loop of a connection in subscribe mode reads its socket and nothing else, so that what has been
sent to a receiver stays there.

## Main results

* `lookup_publishAll`, `publishAll_count` — what a `PUBLISH` sends and what it answers
* `published_reaches_iff` — it does what it is for exactly when there is nobody it should reach
-/

namespace VeloDB

open Rust

/-! ### Publishing -/

namespace PubSubRegistry

variable (r : PubSubRegistry)

/-- The senders of the patterns that match a channel. -/
def patternSenders (channel : Bytes) : List ℕ :=
  (r.patterns.pairs.filter fun p => simpleMatch (fromUtf8Lossy channel) p.1).flatMap Prod.snd

/-- A receiver that is open gets a message as often as its sender is in the list. -/
theorem lookup_sendAll (senders : List ℕ) (msg : Bytes × Bytes) (id : ℕ) :
    (r.sendAll senders msg).mailboxes.lookup id
      = (r.mailboxes.lookup id).map (· ++ List.replicate (senders.count id) msg) := by
  induction senders generalizing r with
  | nil =>
    show r.mailboxes.lookup id = _
    cases r.mailboxes.lookup id with
    | none => rfl
    | some queue => simp
  | cons tx senders ih =>
    have hone : ((r.send tx msg).getD r).mailboxes.lookup id
        = (r.mailboxes.lookup id).map fun queue => if id = tx then queue ++ [msg] else queue := by
      rw [send]
      cases hq : r.mailboxes.lookup tx with
      | none =>
        by_cases hid : id = tx
        · subst hid
          simp [hq]
        · simp [hid]
      | some queue =>
        show AList.lookup id (r.mailboxes.insert tx (queue ++ [msg])) = _
        by_cases hid : id = tx
        · subst hid
          simp [hq]
        · rw [AList.lookup_insert_ne hid]
          simp [hid]
    have hrest := ih ((r.send tx msg).getD r)
    rw [hone] at hrest
    rw [sendAll, List.foldl_cons]
    refine hrest.trans ?_
    cases r.mailboxes.lookup id with
    | none => rfl
    | some queue =>
      by_cases hid : id = tx
      · subst hid
        simp [List.replicate_succ]
      · simp [hid, Ne.symm hid]

theorem publishChannel_fst (channel message : Bytes) :
    (r.publishChannel channel message).1
      = ((r.senders channel).filter fun tx => !r.gone tx).length := by
  have hlen := List.length_eq_length_filter_add (l := r.senders channel) r.gone
  rw [publishChannel_eq, dead, Indexes.length_positions]
  dsimp only
  omega

/-- What publishing to a channel leaves alone. -/
theorem publishChannel_snd (channel message : Bytes) :
    (r.publishChannel channel message).2.patterns = r.patterns ∧
      (r.publishChannel channel message).2.mailboxes
        = (r.sendAll (r.senders channel) (channel, message)).mailboxes := by
  have hsent := r.sent_sendAll (r.senders channel) (channel, message)
  rw [publishChannel_eq]
  dsimp only
  split
  · exact ⟨hsent.patterns, rfl⟩
  · rw [removeDead]
    split
    · exact ⟨hsent.patterns, rfl⟩
    · exact ⟨hsent.patterns, rfl⟩

/-- **What a `PUBLISH` sends.** -/
theorem lookup_publishAll (channel message : Bytes) (id : ℕ) :
    (r.publishAll channel message).2.mailboxes.lookup id = (r.mailboxes.lookup id).map
      (· ++ List.replicate ((r.senders channel).count id + (r.patternSenders channel).count id)
        (channel, message)) := by
  obtain ⟨hpatterns, hmailboxes⟩ := r.publishChannel_snd channel message
  have hall : (r.publishAll channel message).2 = (r.publishChannel channel message).2.sendAll
      (r.patternSenders channel) (channel, message) := by
    rw [patternSenders, ← hpatterns]
    rfl
  rw [hall, lookup_sendAll, hmailboxes, lookup_sendAll, Option.map_map]
  cases r.mailboxes.lookup id with
  | none => rfl
  | some queue =>
    rw [List.replicate_add]
    exact congrArg some (List.append_assoc _ _ _)

/-- **What a `PUBLISH` answers**: the open receivers of the channel, and all senders of the patterns
that match. -/
theorem publishAll_count (channel message : Bytes) : (r.publishAll channel message).1
    = ((r.senders channel).filter fun tx => !r.gone tx).length
      + (r.patternSenders channel).length := by
  obtain ⟨hpatterns, -⟩ := r.publishChannel_snd channel message
  rw [← publishChannel_fst r channel message, patternSenders, ← hpatterns]
  rfl

end PubSubRegistry

/-! ### The clients of a server -/

/-- What publishing and subscribing work on. -/
structure Hub where
  tables : Tables
  clients : List ClientContext

inductive SubscribeCommand
  | subscribe
  | unsubscribe
  | psubscribe
  | punsubscribe
  deriving DecidableEq

/-- The handler of a command. -/
def SubscribeCommand.handler : SubscribeCommand → Env → Databases → List Bytes → SideM RespValue
  | .subscribe => Cmd.subscribe
  | .unsubscribe => Cmd.unsubscribe
  | .psubscribe => Cmd.psubscribe
  | .punsubscribe => Cmd.punsubscribe

/-- A command of a client. -/
structure SubscribeCall where
  client : ℕ
  command : SubscribeCommand
  args : List Bytes
  env : Env
  dbs : Databases

/-- The patterns that a command names to subscribe to. -/
def SubscribeCall.patterns (e : SubscribeCall) : List String :=
  if e.command = .psubscribe then e.args.map fromUtf8Lossy else []

namespace Hub

/-- What a client has changed. -/
def put (h : Hub) (j : ℕ) (s : Side) : Hub := ⟨s.tables, h.clients.set j s.ctx⟩

/-- One command. -/
def step (h : Hub) (e : SubscribeCall) : Option Hub :=
  h.clients[e.client]?.map fun ctx =>
    h.put e.client (e.command.handler e.env e.dbs e.args ⟨h.tables, ctx⟩).2

/-- The receivers that the other clients hold. -/
def others (h : Hub) (j : ℕ) : List ℕ := (h.clients.eraseIdx j).filterMap ClientContext.pubsubRx

end Hub

/-- The registry as it is for one client, while the other clients hold the receivers `others` and
the patterns `named` have been subscribed to: the receivers that are held are the open ones, each is
held once, and nothing has been sent to them. -/
structure Wired (named : List String) (others : List ℕ) (s : Side) : Prop where
  nodup : (s.ctx.pubsubRx.toList ++ others).Nodup
  held : ∀ id ∈ s.ctx.pubsubRx.toList ++ others,
    s.tables.pubsubRegistry.mailboxes.lookup id = some []
  unheld : ∀ id, id ∉ s.ctx.pubsubRx.toList ++ others →
    s.tables.pubsubRegistry.mailboxes.lookup id = none
  bounded : ∀ id ∈ s.ctx.pubsubRx.toList ++ others, id < s.tables.pubsubRegistry.nextMailbox
  patterns : ∀ p, p ∈ named ↔
    ∃ l, s.tables.pubsubRegistry.patterns.lookup p = some l ∧ l ≠ []
  mine : ∀ p ∈ s.ctx.subscribedPatterns, p ∈ named

namespace Wired

variable {named : List String} {others : List ℕ} {s : Side}

/-- A change of the context that leaves the receiver where it is. -/
theorem context (h : Wired named others s) (ctx : ClientContext)
    (hrx : ctx.pubsubRx = s.ctx.pubsubRx)
    (hpat : ctx.subscribedPatterns ⊆ s.ctx.subscribedPatterns) :
    Wired named others { s with ctx := ctx } where
  nodup := by rw [hrx]; exact h.nodup
  held := by rw [hrx]; exact h.held
  unheld := by rw [hrx]; exact h.unheld
  bounded := by rw [hrx]; exact h.bounded
  patterns := h.patterns
  mine := fun p hp => h.mine p (hpat hp)

/-- What is open after the receiver of the context has been dropped. -/
theorem lookup_dropMailbox {rx : Option ℕ} {r : PubSubRegistry} (id : ℕ) :
    (r.dropMailbox rx).mailboxes.lookup id = if id ∈ rx.toList then none
      else r.mailboxes.lookup id := by
  cases rx with
  | none => rfl
  | some old =>
    show AList.lookup id (r.mailboxes.erase old) = _
    by_cases hid : id = old
    · rw [hid, AList.lookup_erase, if_pos (by simp)]
    · rw [AList.lookup_erase_ne hid, if_neg (by simpa using hid)]

theorem patterns_dropMailbox (rx : Option ℕ) (r : PubSubRegistry) :
    (r.dropMailbox rx).patterns = r.patterns ∧ (r.dropMailbox rx).nextMailbox = r.nextMailbox := by
  cases rx <;> exact ⟨rfl, rfl⟩

/-- Another receiver, or none, in the place of the one of the context. -/
theorem replace (h : Wired named others s) {r : PubSubRegistry} (new : Option ℕ)
    (hopen : ∀ id, r.mailboxes.lookup id = if id ∈ new.toList then some []
      else s.tables.pubsubRegistry.mailboxes.lookup id)
    (hnew : ∀ id ∈ new.toList, s.tables.pubsubRegistry.nextMailbox ≤ id ∧ id < r.nextMailbox)
    (hnext : s.tables.pubsubRegistry.nextMailbox ≤ r.nextMailbox) {named' : List String}
    (hpatterns : ∀ p, p ∈ named' ↔ ∃ l, r.patterns.lookup p = some l ∧ l ≠ [])
    {ctx : ClientContext} (hrx : ctx.pubsubRx = new)
    (hmine : ∀ p ∈ ctx.subscribedPatterns, p ∈ named') :
    Wired named' others
      ⟨{ s.tables with pubsubRegistry := r.dropMailbox s.ctx.pubsubRx }, ctx⟩ := by
  obtain ⟨hpat, hnext'⟩ := patterns_dropMailbox s.ctx.pubsubRx r
  -- a new receiver is none of those that have been opened before
  have hfresh : ∀ id ∈ new.toList, id ∉ s.ctx.pubsubRx.toList ++ others := fun id hid hold =>
    absurd (h.bounded id hold) (Nat.not_lt.mpr (hnew id hid).1)
  have hdisjoint : ∀ id ∈ others, id ∉ s.ctx.pubsubRx.toList := fun id hid hmem =>
    List.disjoint_of_nodup_append h.nodup hmem hid
  subst hrx
  exact {
    nodup := by
      refine List.Nodup.append ?_ h.nodup.of_append_right fun id hid hother =>
        hfresh id hid (List.mem_append_right _ hother)
      cases ctx.pubsubRx <;> simp
    held := fun id hid => by
      rw [lookup_dropMailbox, hopen]
      rcases List.mem_append.mp hid with hid | hid
      · rw [if_neg fun hold => hfresh id hid (List.mem_append_left _ hold), if_pos hid]
      · rw [if_neg (hdisjoint id hid),
          if_neg fun hmem => hfresh id hmem (List.mem_append_right _ hid)]
        exact h.held id (List.mem_append_right _ hid)
    unheld := fun id hid => by
      rw [lookup_dropMailbox, hopen]
      split
      · rfl
      · next hold =>
        rw [if_neg fun hmem => hid (List.mem_append_left _ hmem)]
        refine h.unheld id fun hmem => ?_
        rcases List.mem_append.mp hmem with hmem | hmem
        · exact hold hmem
        · exact hid (List.mem_append_right _ hmem)
    bounded := fun id hid => by
      rw [hnext']
      rcases List.mem_append.mp hid with hid | hid
      · exact (hnew id hid).2
      · exact (h.bounded id (List.mem_append_right _ hid)).trans_le hnext
    patterns := fun p => by rw [hpat]; exact hpatterns p
    mine := hmine }

theorem dropReceiver (h : Wired named others s) : Wired named others (Cmd.dropReceiver s) :=
  h.replace none (fun _ => rfl) (fun _ hid => absurd hid List.not_mem_nil) le_rfl h.patterns
    rfl h.mine

/-- What the new receiver of a client finds. -/
theorem lookup_openMailbox (r : PubSubRegistry) (id : ℕ) : r.openMailbox.2.mailboxes.lookup id
    = if id ∈ (some r.nextMailbox).toList then some [] else r.mailboxes.lookup id := by
  show AList.lookup id (r.mailboxes.insert r.nextMailbox []) = _
  by_cases hid : id = r.nextMailbox
  · rw [hid, AList.lookup_insert, if_pos (by simp)]
  · rw [AList.lookup_insert_ne hid, if_neg (by simpa using hid)]

theorem subscribeOne (h : Wired named others s) (ch : Bytes) :
    Wired named others (Cmd.subscribeOne s ch) :=
  h.replace (some s.tables.pubsubRegistry.nextMailbox)
    (r := s.tables.pubsubRegistry.openMailbox.2.subscribeChannel ch
      s.tables.pubsubRegistry.nextMailbox)
    (lookup_openMailbox s.tables.pubsubRegistry)
    (fun id hid => by
      obtain rfl := List.mem_singleton.mp hid
      exact ⟨le_rfl, Nat.lt_succ_self _⟩)
    (Nat.le_succ _) h.patterns rfl h.mine

theorem psubscribeOne (h : Wired named others s) (p : Bytes) :
    Wired (named ++ [fromUtf8Lossy p]) others (Cmd.psubscribeOne s p) := by
  refine h.replace (some s.tables.pubsubRegistry.nextMailbox)
    (r := s.tables.pubsubRegistry.openMailbox.2.subscribePattern (fromUtf8Lossy p)
      s.tables.pubsubRegistry.nextMailbox)
    (lookup_openMailbox s.tables.pubsubRegistry)
    (fun id hid => by
      obtain rfl := List.mem_singleton.mp hid
      exact ⟨le_rfl, Nat.lt_succ_self _⟩)
    (Nat.le_succ _) (fun q => ?_) rfl (fun q hq => ?_)
  · rw [List.mem_append, List.mem_singleton, PubSubRegistry.subscribePattern]
    dsimp only
    by_cases hqp : q = fromUtf8Lossy p
    · rw [hqp, AList.lookup_insert]
      simp
    · rw [AList.lookup_insert_ne hqp, or_iff_left hqp]
      exact h.patterns q
  · rcases List.mem_append.mp hq with hq | hq
    · exact List.mem_append_left _ (h.mine q hq)
    · exact List.mem_append_right _ hq

theorem leftSubMode (h : Wired named others s) : Wired named others (Cmd.leftSubMode s) := by
  rw [Cmd.leftSubMode]
  split
  · exact dropReceiver (h.context { s.ctx with subMode := false } rfl (List.Subset.refl _))
  · exact h

/-- **One command** of the client. -/
theorem handler (h : Wired named others s) (e : SubscribeCall) :
    Wired (named ++ e.patterns) others (e.command.handler e.env e.dbs e.args s).2 := by
  obtain ⟨client, command, args, env, dbs⟩ := e
  cases command with
  | subscribe =>
    have hfold : ∀ (args : List Bytes) {s : Side}, Wired named others s →
        Wired named others (args.foldl Cmd.subscribeOne s) := by
      intro args
      induction args with
      | nil => exact id
      | cons ch args ih => exact fun h => ih (h.subscribeOne ch)
    show Wired (named ++ []) others (Cmd.subscribe env dbs args s).2
    rw [List.append_nil]
    by_cases hargs : args = []
    · rw [hargs]
      exact h
    · rw [Cmd.subscribe_run env dbs args s hargs]
      exact (hfold args h).context _ rfl (List.Subset.refl _)
  | psubscribe =>
    have hfold : ∀ (args : List Bytes) {named : List String} {s : Side}, Wired named others s →
        Wired (named ++ args.map fromUtf8Lossy) others (args.foldl Cmd.psubscribeOne s) := by
      intro args
      induction args with
      | nil =>
        intro named s h
        rw [List.map_nil, List.append_nil]
        exact h
      | cons p args ih =>
        intro named s h
        have hrest := ih (h.psubscribeOne p)
        rw [List.append_assoc] at hrest
        exact hrest
    show Wired (named ++ args.map fromUtf8Lossy) others (Cmd.psubscribe env dbs args s).2
    by_cases hargs : args = []
    · rw [hargs, List.map_nil, List.append_nil]
      exact h
    · rw [Cmd.psubscribe_run env dbs args s hargs]
      exact (hfold args h).context _ rfl (List.Subset.refl _)
  | unsubscribe =>
    show Wired (named ++ []) others (Cmd.unsubscribe env dbs args s).2
    obtain ⟨lines, hrun⟩ := Cmd.unsubscribe_run env dbs args s
    rw [List.append_nil, hrun]
    refine leftSubMode ?_
    have hkeep : ∀ p, Wired named others (Cmd.keepChannels p s) := fun p =>
      h.context _ rfl (List.Subset.refl _)
    rw [Cmd.withoutChannels]
    split
    · exact dropReceiver (hkeep _)
    · exact hkeep _
  | punsubscribe =>
    show Wired (named ++ []) others (Cmd.punsubscribe env dbs args s).2
    rw [List.append_nil, Cmd.punsubscribe_run env dbs args s]
    refine leftSubMode ?_
    have hkeep : ∀ p, Wired named others (Cmd.keepPatterns p s) := fun p =>
      h.context _ rfl (List.filter_subset_self _)
    rw [Cmd.withoutPatterns]
    split
    · exact dropReceiver (hkeep _)
    · exact hkeep _

end Wired

/-! ### Runs of subscribing commands -/

namespace Hub

variable {named : List String} {h h' : Hub}

/-- The receivers that are held. -/
def held (h : Hub) : List ℕ := h.clients.filterMap ClientContext.pubsubRx

/-- The registry and the clients, after the patterns `named` have been subscribed to. -/
structure Sound (named : List String) (h : Hub) : Prop where
  nodup : h.held.Nodup
  held : ∀ id ∈ h.held, h.tables.pubsubRegistry.mailboxes.lookup id = some []
  unheld : ∀ id, id ∉ h.held → h.tables.pubsubRegistry.mailboxes.lookup id = none
  bounded : ∀ id ∈ h.held, id < h.tables.pubsubRegistry.nextMailbox
  patterns : ∀ p, p ∈ named ↔ ∃ l, h.tables.pubsubRegistry.patterns.lookup p = some l ∧ l ≠ []
  listed : ∀ ctx ∈ h.clients, ∀ p ∈ ctx.subscribedPatterns, p ∈ named

/-- The receivers that are held, those of one client first. -/
theorem held_perm {j : ℕ} {ctx : ClientContext} (hj : h.clients[j]? = some ctx) :
    (ctx.pubsubRx.toList ++ h.others j).Perm h.held := by
  obtain ⟨hlt, rfl⟩ := List.getElem?_eq_some_iff.mp hj
  have hperm := (List.getElem_cons_eraseIdx_perm hlt).filterMap ClientContext.pubsubRx
  rw [List.filterMap_cons] at hperm
  rw [others]
  cases hrx : h.clients[j].pubsubRx with
  | none => rwa [hrx] at hperm
  | some id => rwa [hrx] at hperm

/-- The view of one client. -/
theorem Sound.view (hs : h.Sound named) {j : ℕ} {ctx : ClientContext}
    (hj : h.clients[j]? = some ctx) : Wired named (h.others j) ⟨h.tables, ctx⟩ where
  nodup := (held_perm hj).nodup_iff.mpr hs.nodup
  held := fun id hid => hs.held id ((held_perm hj).mem_iff.mp hid)
  unheld := fun id hid => hs.unheld id fun hmem => hid ((held_perm hj).mem_iff.mpr hmem)
  bounded := fun id hid => hs.bounded id ((held_perm hj).mem_iff.mp hid)
  patterns := hs.patterns
  mine := hs.listed ctx (List.mem_of_getElem? hj)

theorem Sound.put (hs : h.Sound named) {j : ℕ} (hj : j < h.clients.length)
    {named' : List String} (hsub : named ⊆ named') {s : Side} (hw : Wired named' (h.others j) s) :
    (h.put j s).Sound named' := by
  have hself : (h.put j s).clients[j]? = some s.ctx := List.getElem?_set_self hj
  have hothers : (h.put j s).others j = h.others j := by
    rw [others, Hub.put, List.eraseIdx_set_eq, others]
  have hperm := held_perm hself
  rw [hothers] at hperm
  exact {
    nodup := hperm.nodup_iff.mp hw.nodup
    held := fun id hid => hw.held id (hperm.mem_iff.mpr hid)
    unheld := fun id hid => hw.unheld id fun hmem => hid (hperm.mem_iff.mp hmem)
    bounded := fun id hid => hw.bounded id (hperm.mem_iff.mpr hid)
    patterns := hw.patterns
    listed := fun ctx hctx p hp => by
      rcases List.mem_or_eq_of_mem_set hctx with hold | rfl
      · exact hsub (hs.listed ctx hold p hp)
      · exact hw.mine p hp }

theorem Sound.step (hs : h.Sound named) {e : SubscribeCall} (hstep : h.step e = some h') :
    h'.Sound (named ++ e.patterns) := by
  obtain ⟨ctx, hctx, rfl⟩ := Option.map_eq_some_iff.mp hstep
  exact hs.put (List.getElem?_eq_some_iff.mp hctx).1 (List.subset_append_left _ _)
    ((hs.view hctx).handler e)

/-- Nobody has subscribed to anything. -/
structure Fresh (h : Hub) : Prop where
  registry : h.tables.pubsubRegistry = {}
  clients : ∀ ctx ∈ h.clients, ctx.pubsubRx = none ∧ ctx.subscribedPatterns = []

theorem Fresh.sound (hf : h.Fresh) : h.Sound [] := by
  have hheld : h.held = [] := List.filterMap_eq_nil_iff.mpr fun ctx hctx => (hf.clients ctx hctx).1
  exact {
    nodup := by rw [hheld]; exact List.nodup_nil
    held := fun id hid => by rw [hheld] at hid; cases hid
    unheld := fun id _ => by rw [hf.registry]; rfl
    bounded := fun id hid => by rw [hheld] at hid; cases hid
    patterns := fun p => by
      rw [hf.registry]
      constructor
      · exact fun hp => absurd hp List.not_mem_nil
      · rintro ⟨l, hl, -⟩
        cases hl
    listed := fun ctx hctx p hp => by rw [(hf.clients ctx hctx).2] at hp; exact hp }

/-- **Every run of subscribing commands.** -/
theorem sound_run (hf : h.Fresh) {calls : List SubscribeCall}
    (hrun : Run.run step h calls = some h') : h'.Sound (calls.flatMap SubscribeCall.patterns) := by
  refine Run.run_invariant (P := fun past h => h.Sound (past.flatMap SubscribeCall.patterns))
    (fun past h e h' hs hstep => ?_) [] hf.sound hrun
  rw [List.flatMap_append, List.flatMap_singleton]
  exact hs.step hstep

end Hub

/-! ### What a subscription is for -/

/-- A client is subscribed to a channel, by its name or by a pattern. -/
def ClientContext.SubscribedTo (ctx : ClientContext) (channel : Bytes) : Prop :=
  channel ∈ ctx.subscribedChannels ∨
    ∃ p ∈ ctx.subscribedPatterns, simpleMatch (fromUtf8Lossy channel) p = true

instance (channel : Bytes) : DecidablePred (ClientContext.SubscribedTo · channel) := fun ctx =>
  inferInstanceAs (Decidable (channel ∈ ctx.subscribedChannels ∨
    ∃ p ∈ ctx.subscribedPatterns, simpleMatch (fromUtf8Lossy channel) p = true))

/-- The loop of a connection can take a step that writes to the socket. -/
def Net.Writes (n : Net) : Prop :=
  ∃ L H e n' b, n.step L H e = some n' ∧ n'.conn.out = n.conn.out ++ [b]

/-- While it waits for its socket, a connection can only read. -/
theorem Net.not_writes {n : Net} (hn : n.conn.status = .reading) : ¬n.Writes := by
  rintro ⟨L, H, e, n', b, hstep, hout⟩
  cases e with
  | read chunk =>
    rw [Net.step, hn] at hstep
    obtain rfl := Option.some.inj hstep
    have hsame : (n.receive chunk).conn.out = n.conn.out := by
      rw [Net.receive]
      split_ifs <;> rfl
    rw [hsame] at hout
    exact List.cons_ne_nil b [] (List.self_eq_append_right.mp hout)
  | turn m =>
    rw [Net.step, hn] at hstep
    cases hstep
  | resume m triggered =>
    rw [Net.step, hn] at hstep
    cases hstep

namespace Hub

variable (h : Hub) (channel message : Bytes)

/-- What a `PUBLISH` answers, and the registry after it. -/
def publish : ℕ × PubSubRegistry := h.tables.pubsubRegistry.publishAll channel message

/-- It is what the handler does, whoever publishes. -/
theorem publish_run (env : Env) (dbs : Databases) (ctx : ClientContext) :
    Cmd.publish env dbs [channel, message] ⟨h.tables, ctx⟩
      = (.ok (.count (h.publish channel message).1),
        ⟨{ h.tables with pubsubRegistry := (h.publish channel message).2 }, ctx⟩) := rfl

/-- A `PUBLISH` does what it is for: the message is sent to the receivers of exactly the clients
that are subscribed, the answer is how many these are, and a client to whose receiver something has
been sent can write it, whenever it waits for its socket. -/
structure PublishReaches : Prop where
  sent : ∀ ctx ∈ h.clients, ctx.SubscribedTo channel → ∃ id queue, ctx.pubsubRx = some id ∧
    h.tables.pubsubRegistry.mailboxes.lookup id = some queue ∧
    (h.publish channel message).2.mailboxes.lookup id = some (queue ++ [(channel, message)])
  spared : ∀ ctx ∈ h.clients, ¬ctx.SubscribedTo channel → ∀ id, ctx.pubsubRx = some id →
    (h.publish channel message).2.mailboxes.lookup id
      = h.tables.pubsubRegistry.mailboxes.lookup id
  counted : (h.publish channel message).1
    = (h.clients.filter (ClientContext.SubscribedTo · channel)).length
  written : ∀ ctx ∈ h.clients, ∀ id msg rest, ctx.pubsubRx = some id →
    (h.publish channel message).2.mailboxes.lookup id = some (msg :: rest) →
    ∀ n : Net, n.conn.ctx = ctx → n.conn.status = .reading →
      n.shared.store.tables.pubsubRegistry = (h.publish channel message).2 → n.Writes

/-- There is nobody whom a message should reach, and nobody whom it reaches. -/
structure NobodyListens (named : List String) : Prop where
  patterns : ∀ p ∈ named, simpleMatch (fromUtf8Lossy channel) p = false
  unsubscribed : ∀ ctx ∈ h.clients, channel ∉ ctx.subscribedChannels
  unheld : ∀ ctx ∈ h.clients, ∀ id, ctx.pubsubRx = some id →
    id ∉ h.tables.pubsubRegistry.senders channel

variable {h channel message} {named : List String}

/-- What has been sent to a receiver stays unread. -/
theorem PublishReaches.unread (hp : h.PublishReaches channel message) {ctx : ClientContext}
    (hctx : ctx ∈ h.clients) {id : ℕ} (hid : ctx.pubsubRx = some id)
    {queue : List (Bytes × Bytes)}
    (hq : (h.publish channel message).2.mailboxes.lookup id = some queue) : queue = [] := by
  cases queue with
  | nil => rfl
  | cons msg rest =>
    let n : Net := {
      shared := { store := { databases := [], tables := { h.tables with
        pubsubRegistry := (h.publish channel message).2 } } }
      conn := { ctx := ctx } }
    exact absurd (hp.written ctx hctx id msg rest hid hq n rfl rfl rfl) (Net.not_writes rfl)

theorem mem_held {ctx : ClientContext} (hctx : ctx ∈ h.clients) {id : ℕ}
    (hid : ctx.pubsubRx = some id) : id ∈ h.held := List.mem_filterMap.mpr ⟨ctx, hctx, hid⟩

/-- What a receiver that is held has after a `PUBLISH`. -/
theorem Sound.lookup_publish (hs : h.Sound named) {id : ℕ} (hid : id ∈ h.held) :
    (h.publish channel message).2.mailboxes.lookup id = some (List.replicate
      ((h.tables.pubsubRegistry.senders channel).count id
        + (h.tables.pubsubRegistry.patternSenders channel).count id) (channel, message)) := by
  rw [publish, PubSubRegistry.lookup_publishAll, hs.held id hid]
  rfl

/-- A pattern that matches and has been subscribed to has a sender for ever. -/
theorem Sound.patternSenders_eq_nil (hs : h.Sound named) :
    h.tables.pubsubRegistry.patternSenders channel = [] ↔
      ∀ p ∈ named, simpleMatch (fromUtf8Lossy channel) p = false := by
  rw [PubSubRegistry.patternSenders, List.flatMap_eq_nil_iff]
  constructor
  · intro hnil p hp
    obtain ⟨l, hl, hne⟩ := (hs.patterns p).mp hp
    rw [← Bool.not_eq_true]
    exact fun hmatch => hne (hnil (p, l) (List.mem_filter.mpr ⟨HashMap.mem_pairs.mpr hl, hmatch⟩))
  · rintro hnone ⟨p, l⟩ hpl
    obtain ⟨hpair, hmatch⟩ := List.mem_filter.mp hpl
    by_contra hne
    have hfalse := hnone p ((hs.patterns p).mpr ⟨l, HashMap.mem_pairs.mp hpair, hne⟩)
    exact Bool.false_ne_true (hfalse.symm.trans hmatch)

/-- A message that goes everywhere it should goes nowhere. -/
theorem Sound.nobodyListens (hs : h.Sound named) (hp : h.PublishReaches channel message) :
    h.NobodyListens channel named := by
  have hnone : ∀ ctx ∈ h.clients, ¬ctx.SubscribedTo channel := by
    intro ctx hctx hsub
    obtain ⟨id, queue, hid, -, hafter⟩ := hp.sent ctx hctx hsub
    exact List.append_ne_nil_of_right_ne_nil queue (List.cons_ne_nil _ _)
      (hp.unread hctx hid hafter)
  have hcount : (h.publish channel message).1 = 0 := by
    rw [hp.counted, List.length_eq_zero_iff, List.filter_eq_nil_iff]
    exact fun ctx hctx => by simpa using hnone ctx hctx
  rw [publish, PubSubRegistry.publishAll_count] at hcount
  have hpatterns : h.tables.pubsubRegistry.patternSenders channel = [] :=
    List.length_eq_zero_iff.mp (by omega)
  exact {
    patterns := hs.patternSenders_eq_nil.mp hpatterns
    unsubscribed := fun ctx hctx hc => hnone ctx hctx (Or.inl hc)
    unheld := fun ctx hctx id hid hmem => by
      have hqueue := hp.unread hctx hid (hs.lookup_publish (mem_held hctx hid))
      have hzero := List.replicate_eq_nil_iff _ |>.mp hqueue
      have hpos := List.count_pos_iff.mpr hmem
      omega }

/-- Where nobody listens, a message goes nowhere. -/
theorem Sound.publishReaches (hs : h.Sound named) (hn : h.NobodyListens channel named) :
    h.PublishReaches channel message := by
  have hpatterns := hs.patternSenders_eq_nil.mpr hn.patterns
  have hnone : ∀ ctx ∈ h.clients, ¬ctx.SubscribedTo channel := by
    rintro ctx hctx (hc | ⟨p, hp, hmatch⟩)
    · exact hn.unsubscribed ctx hctx hc
    · have hfalse := hn.patterns p (hs.listed ctx hctx p hp)
      exact Bool.false_ne_true (hfalse.symm.trans hmatch)
  have hafter : ∀ ctx ∈ h.clients, ∀ id, ctx.pubsubRx = some id →
      (h.publish channel message).2.mailboxes.lookup id = some [] := by
    intro ctx hctx id hid
    rw [hs.lookup_publish (mem_held hctx hid), hpatterns,
      List.count_eq_zero_of_not_mem (hn.unheld ctx hctx id hid)]
    rfl
  have halive : (h.tables.pubsubRegistry.senders channel).filter
      (fun tx => !h.tables.pubsubRegistry.gone tx) = [] := by
    refine List.filter_eq_nil_iff.mpr fun tx htx hopen => ?_
    by_cases hheld : tx ∈ h.held
    · obtain ⟨ctx, hctx, hid⟩ := List.mem_filterMap.mp hheld
      exact hn.unheld ctx hctx tx hid htx
    · rw [PubSubRegistry.gone, hs.unheld tx hheld] at hopen
      cases hopen
  exact {
    sent := fun ctx hctx hsub => absurd hsub (hnone ctx hctx)
    spared := fun ctx hctx _ id hid => by
      rw [hafter ctx hctx id hid, hs.held id (mem_held hctx hid)]
    counted := by
      have hfilter : h.clients.filter (ClientContext.SubscribedTo · channel) = [] :=
        List.filter_eq_nil_iff.mpr fun ctx hctx => by simpa using hnone ctx hctx
      rw [publish, PubSubRegistry.publishAll_count, halive, hpatterns, hfilter]
      rfl
    written := fun ctx hctx id msg rest hid hq => by
      rw [hafter ctx hctx id hid] at hq
      cases hq }

end Hub

/-- **Published messages.** After every run of subscribing commands of any clients, a `PUBLISH` does
what it is for if and only if there is nobody whom it should reach: no pattern that matches has ever
been subscribed to, no client is subscribed to the channel, and none holds a receiver of it. -/
theorem published_reaches_iff {start h : Hub} (hf : start.Fresh) {calls : List SubscribeCall}
    (hrun : Run.run Hub.step start calls = some h) (channel message : Bytes) :
    h.PublishReaches channel message ↔
      h.NobodyListens channel (calls.flatMap SubscribeCall.patterns) :=
  ⟨(Hub.sound_run hf hrun).nobodyListens, (Hub.sound_run hf hrun).publishReaches⟩

/-- Two clients that have just connected. -/
def twoClients : Hub := ⟨{}, [{}, {}]⟩

/-- A command of one of them. -/
def callOf (client : ℕ) (command : SubscribeCommand) (args : List Bytes) : SubscribeCall where
  client := client
  command := command
  args := args
  env := Moment.on ⟨0, 0, 0, 1⟩ Host.plain
  dbs := []

theorem fresh_twoClients : twoClients.Fresh where
  registry := rfl
  clients := by decide

/-- `SUBSCRIBE a` and `PSUBSCRIBE b*` of two clients, and a message for `c`. -/
theorem published_reaches_iff_elsewhere :
    ∃ h, Run.run Hub.step twoClients [callOf 0 .subscribe [[97]], callOf 1 .psubscribe [[98, 42]]]
      = some h ∧ (h.PublishReaches [99] [109] ↔ h.NobodyListens [99]
        ([callOf 0 .subscribe [[97]], callOf 1 .psubscribe [[98, 42]]].flatMap
          SubscribeCall.patterns)) :=
  ⟨_, rfl, published_reaches_iff fresh_twoClients rfl [99] [109]⟩

/-- After `SUBSCRIBE a b` the receiver of `a` is gone, and a message for `a` is sent to nobody.
After `SUBSCRIBE a` it is sent, and stays in the receiver. -/
theorem published_message_lost :
    (∃ h, Run.run Hub.step twoClients [callOf 0 .subscribe [[97], [98]]] = some h ∧
      h.clients.map (ClientContext.SubscribedTo · [97] : ClientContext → Bool) = [true, false] ∧
      (h.publish [97] [109]).1 = 0 ∧ ¬h.PublishReaches [97] [109]) ∧
    ∃ h, Run.run Hub.step twoClients [callOf 0 .subscribe [[97]]] = some h ∧
      (h.publish [97] [109]).2.mailboxes.lookup 0 = some [([97], [109])] ∧
      ¬h.PublishReaches [97] [109] := by
  constructor
  · refine ⟨_, rfl, by decide +kernel, by decide +kernel, fun hp => ?_⟩
    have hcounted := hp.counted
    revert hcounted
    decide +kernel
  · refine ⟨_, rfl, by decide +kernel, fun hp => ?_⟩
    have hctx : ({ subMode := true, subscribedChannels := [[97]], pubsubRx := some 0 } :
        ClientContext) ∈ [_, ({} : ClientContext)] := List.mem_cons_self
    have hunread : [(([97] : Bytes), ([109] : Bytes))] = [] :=
      hp.unread hctx rfl (by decide +kernel)
    cases hunread

end VeloDB
