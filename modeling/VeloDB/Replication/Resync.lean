import VeloDB.Replication.Master

/-!
# What a resync hands to a replica

On the `+CONTINUE` path the catch-up bytes are read and the channel is registered under one lock.
On the full path the channel is registered under the first lock and the ring is read again under a
second one, so what was pushed in between is in the channel and in the ring.

## Main results

* `partialResync_delivers` — on the `+CONTINUE` path the replica gets the stream from its offset on
* `fullResync_delivers_iff` — on the full path it does exactly when the second lock finds nothing
-/

namespace VeloDB

open Rust

/-! ### What a replica is handed -/

/-- The bytes written after the `+CONTINUE` line. -/
def Session.afterContinue (s : Session) : Bytes := (s.writes.drop 1).flatten

/-- The bytes written after the snapshot, which is the third write. -/
def Session.afterRdb (s : Session) : Bytes := (s.writes.drop 3).flatten

/-- The bytes sent, followed by those waiting in the channel, are the stream `st` from offset `o`
on: no gap, no duplicate, no reordering. -/
structure World.Delivers (w : World) (i : ℕ) (sent : Bytes) (o : ℕ) (st : Bytes) : Prop where
  exact : sent ++ (w.channels i).queue.flatten = st.drop o
  /-- When nothing waits, the replica is at the offset of the master. -/
  quiescent : (w.channels i).queue = [] → o + sent.length = w.backlog.globalOffset

namespace World

variable {replid : String} {w w' : World} {st : Bytes} {e : Event} {i o : ℕ}

theorem Inv.delivers (h : w.Inv st) (ho : o ≤ st.length) {sent : Bytes}
    (hsent : sent ++ (w.channels i).queue.flatten = st.drop o) : w.Delivers i sent o st := by
  refine ⟨hsent, fun hq => ?_⟩
  rw [hq, List.flatten_nil, List.append_nil] at hsent
  rw [hsent, List.length_drop, h.backlog.offset]
  omega

/-- What makes a property of one connection, its queued bytes and the stream an invariant from
offset `o` on: pushes reach the queue, own actions keep it, and the end of the connection may
forget the queue. -/
structure SessionInv (replid : String) (o i : ℕ) (I : Bytes → Session → Bytes → Prop) : Prop where
  idle : ∀ {st s q}, I st s q → s.phase ≠ .idle
  closed : ∀ {st s q} (q' data : Bytes), o ≤ st.length → s.phase = .closed → I st s q →
    I (st ++ data) s q'
  push : ∀ {st s q} (data : Bytes), o ≤ st.length → I st s q → I (st ++ data) s (q ++ data)
  act : ∀ {w w' : World} {st : Bytes} {a : Act}, w.Inv st → step replid w (.act i a) = some w' →
    I st (w.sessions i) (w.channels i).queue.flatten →
    I st (w'.sessions i) (w'.channels i).queue.flatten

variable {I : Bytes → Session → Bytes → Prop}

theorem SessionInv.event (hI : SessionInv replid o i I) (h : w.Inv st) (ho : o ≤ st.length)
    (hs : I st (w.sessions i) (w.channels i).queue.flatten)
    (hstep : step replid w e = some w') :
    I (st ++ e.pushed) (w'.sessions i) (w'.channels i).queue.flatten := by
  by_cases hown : ∃ a, e = .act i a
  · obtain ⟨a, rfl⟩ := hown
    rw [Event.pushed, List.append_nil]
    exact hI.act h hstep hs
  · have hne : ∀ a, e ≠ .act i a := fun a ha => hown ⟨a, ha⟩
    rw [step_session hstep hne]
    by_cases hcl : (w.sessions i).phase = .closed
    · exact hI.closed _ _ ho hcl hs
    · rw [step_channel h hstep hne ⟨hI.idle hs, hcl⟩]
      exact hI.push _ ho hs

/-- **One connection along a run.** -/
theorem SessionInv.run (hI : SessionInv replid o i I) {before after : List Event} {capacity : ℕ}
    (h : w.Inv (stream before)) (hcap : w.backlog.capacity = capacity)
    (ho : o ≤ (stream before).length)
    (hs : I (stream before) (w.sessions i) (w.channels i).queue.flatten)
    (hrun : Run.run (step replid) w after = some w') :
    w'.Inv (stream (before ++ after)) ∧ w'.backlog.capacity = capacity ∧
      o ≤ (stream (before ++ after)).length ∧
      I (stream (before ++ after)) (w'.sessions i) (w'.channels i).queue.flatten :=
  Run.run_invariant
    (P := fun past w => w.Inv (stream past) ∧ w.backlog.capacity = capacity ∧
      o ≤ (stream past).length ∧ I (stream past) (w.sessions i) (w.channels i).queue.flatten)
    (fun past w e w' ⟨hw, hcw, hle, hsw⟩ hstep => by
      rw [stream_snoc]
      refine ⟨step_inv hw hstep, (step_capacity hw hstep).trans hcw, ?_, hI.event hw hle hsw hstep⟩
      rw [List.length_append]
      omega) before ⟨h, hcap, ho, hs⟩ hrun

/-- The invariant of a connection on the `+CONTINUE` path from offset `o`. -/
def PartialInv (o : ℕ) (st : Bytes) (s : Session) (queued : Bytes) : Prop :=
  match s.phase with
  | .continueLine cu => s.writes = [] ∧ cu ++ queued = st.drop o
  | .catchUp cu => s.writes ≠ [] ∧ s.afterContinue ++ (cu ++ queued) = st.drop o
  | .live => s.writes ≠ [] ∧ s.afterContinue ++ queued = st.drop o
  | .closed => s.afterContinue <+: st.drop o
  | _ => False

theorem PartialInv.isPrefix {s : Session} {queued : Bytes} (h : PartialInv o st s queued) :
    s.afterContinue <+: st.drop o := by
  rw [PartialInv] at h
  split at h
  · rw [Session.afterContinue, h.1]
    exact List.nil_prefix
  · exact ⟨_, h.2⟩
  · exact ⟨_, h.2⟩
  · exact h
  · exact h.elim

theorem PartialInv.push {s : Session} {queued data : Bytes} (ho : o ≤ st.length)
    (h : PartialInv o st s queued) : PartialInv o (st ++ data) s (queued ++ data) := by
  rw [PartialInv] at h ⊢
  rw [List.drop_append_of_le_length ho]
  split at h
  · exact ⟨h.1, by rw [← List.append_assoc, h.2]⟩
  · exact ⟨h.1, by rw [← h.2, List.append_assoc, List.append_assoc]⟩
  · exact ⟨h.1, by rw [← List.append_assoc, h.2]⟩
  · exact h.trans (List.prefix_append _ _)
  · exact h.elim

theorem drop_one_append {l : List Bytes} (h : l ≠ []) (m : Bytes) :
    ((l ++ [m]).drop 1).flatten = (l.drop 1).flatten ++ m := by
  rw [List.drop_append_of_le_length (List.length_pos_iff.mpr h), List.flatten_append]
  simp

/-- One action of the connection itself. -/
theorem PartialInv.act (h : w.Inv st) (hp : PartialInv o st (w.sessions i)
    (w.channels i).queue.flatten) {a : Act} (hstep : step replid w (.act i a) = some w') :
    PartialInv o st (w'.sessions i) (w'.channels i).queue.flatten := by
  have hact := step_act hstep
  generalize w'.channels i = c, w'.sessions i = s at hact ⊢
  rcases act_cases h.backlog hact with ⟨args, -, hi, -⟩ | ⟨b, -, hw, -, rfl, rfl⟩ |
    ⟨_, rdb, -, hi, -⟩ | ⟨_, g, -, hi, -⟩ | ⟨m, q, -, hi, hq, -, rfl, rfl⟩ |
    ⟨-, -, -, -, rfl, rfl⟩
  · rw [PartialInv, hi] at hp
    exact hp.elim
  · rw [PartialInv] at hp
    split at hp
    · next cu hi =>
      rw [hi, nextWrite] at hw
      obtain rfl := Option.some.inj hw
      by_cases hcu : cu = []
      · simpa [PartialInv, hcu, hp.1, Session.afterContinue] using hp.2
      · simpa [PartialInv, hcu, hp.1, Session.afterContinue] using hp.2
    · next cu hi =>
      rw [hi, nextWrite] at hw
      obtain rfl := Option.some.inj hw
      refine ⟨by simp, ?_⟩
      rw [Session.afterContinue, drop_one_append hp.1, List.append_assoc]
      exact hp.2
    · next hi => simp [hi, nextWrite] at hw
    · next hi => simp [hi, nextWrite] at hw
    · exact hp.elim
  · rw [PartialInv, hi] at hp
    exact hp.elim
  · rw [PartialInv, hi] at hp
    exact hp.elim
  · rw [PartialInv, hi, hq, List.flatten_cons] at hp
    rw [PartialInv, hi]
    refine ⟨by simp, ?_⟩
    rw [Session.afterContinue, drop_one_append hp.1, List.append_assoc]
    exact hp.2
  · exact hp.isPrefix

theorem sessionInv_partialInv (replid : String) (o i : ℕ) :
    SessionInv replid o i (PartialInv o) where
  idle := fun h hi => by
    rw [PartialInv, hi] at h
    exact h
  closed := fun _ data ho hcl h => by
    rw [PartialInv, hcl] at h ⊢
    rw [List.drop_append_of_le_length ho]
    exact h.trans (List.prefix_append _ _)
  push := fun _ ho h => h.push ho
  act := fun h hstep hs => hs.act h hstep

/-- The block under the lock reads the stream from the offset and registers an empty channel. -/
theorem PartialInv.start {args : List Bytes} (h : w.Inv st)
    (hcont : isPartial replid w.backlog args = true)
    (hstep : step replid w (.act i (.psync args)) = some w') :
    PartialInv (requestedOffset args).toNat st (w'.sessions i)
      (w'.channels i).queue.flatten := by
  rcases act_cases h.backlog (step_act hstep) with ⟨_, hargs, -, -, hch, hs⟩ | ⟨_, h, -⟩ |
    ⟨_, _, h, -⟩ | ⟨_, _, h, -⟩ | ⟨_, _, h, -⟩ | ⟨h, -⟩
  · obtain rfl := Act.psync.inj hargs
    rw [hch, hs, if_pos hcont]
    exact ⟨rfl, List.append_nil _⟩
  all_goals cases h

end World

open World

/-- **Partial resync delivers every write exactly once.** A connection served by `+CONTINUE` from
the offset it asked for has at all times been handed a prefix of the stream from there on, and once
it forwards its channel what it was handed and what waits for it make up the whole of it. The
events before and after are arbitrary, and no push among them can fail. -/
theorem partialResync_delivers {capacity : ℕ} (hc : 1 ≤ capacity) (replid : String)
    {before after : List Event} {i : ℕ} {args : List Bytes} {w₀ w₁ w : World}
    (h₀ : Run.run (step replid) (init capacity) before = some w₀)
    (hcont : isPartial replid w₀.backlog args = true)
    (h₁ : step replid w₀ (.act i (.psync args)) = some w₁)
    (h₂ : Run.run (step replid) w₁ after = some w) :
    (w.sessions i).afterContinue <+:
        (stream (before ++ after)).drop (requestedOffset args).toNat ∧
      ((w.sessions i).phase = .live → w.Delivers i (w.sessions i).afterContinue
        (requestedOffset args).toNat (stream (before ++ after))) ∧
      w.backlog.globalOffset = (stream (before ++ after)).length ∧
      ∀ data, (step replid w (.push data)).isSome := by
  obtain ⟨hinv₀, hcap₀⟩ := run_inv h₀
  have hoff := (isPartial_iff.mp hcont).2.2.2
  rw [hinv₀.backlog.offset] at hoff
  have hstart := PartialInv.start hinv₀ hcont h₁
  have hinv₁ : w₁.Inv (stream before) := by simpa [Event.pushed] using step_inv hinv₀ h₁
  have hcap₁ := (step_capacity hinv₀ h₁).trans hcap₀
  obtain ⟨hinv, hcap, ho, hp⟩ :=
    (sessionInv_partialInv replid _ i).run hinv₁ hcap₁ hoff hstart h₂
  refine ⟨hp.isPrefix, fun hlive => ?_, hinv.backlog.offset, fun data => ?_⟩
  · rw [PartialInv, hlive] at hp
    exact hinv.delivers ho hp.2
  · exact push_isSome hinv (hcap ▸ hc) data

/-- A replica that reconnects at offset 1 while the ring of two cells has wrapped around. -/
theorem partialResync_delivers_wrapped :
    ∃ w₀ w₁ w, Run.run (step "id") (init 2) [.push [1, 2, 3]] = some w₀ ∧
      isPartial "id" w₀.backlog [asBytes "id", asBytes "1"] = true ∧
      step "id" w₀ (.act 7 (.psync [asBytes "id", asBytes "1"])) = some w₁ ∧
      Run.run (step "id") w₁ [.push [4, 5, 6], .act 7 .write, .act 7 .write, .act 7 .forward]
        = some w ∧
      w.Delivers 7 (w.sessions 7).afterContinue 1 [1, 2, 3, 4, 5, 6] := by
  refine ⟨_, _, _, rfl, by decide, rfl, rfl, ?_⟩
  have key := partialResync_delivers (show 1 ≤ 2 by decide) "id"
    (show Run.run (step "id") (init 2) [.push [1, 2, 3]] = some _ from rfl)
    (show isPartial "id" _ [asBytes "id", asBytes "1"] = true by decide)
    (show step "id" _ (.act 7 _) = some _ from rfl)
    (show Run.run (step "id") _ [.push [4, 5, 6], .act 7 .write, .act 7 .write, .act 7 .forward]
      = some _ from rfl)
  exact key.2.1 rfl

/-! ### Full resync -/

namespace World

variable {replid : String} {w w' : World} {st : Bytes} {e : Event} {i : ℕ}

/-- The invariant of a connection that will read the gap from `cur`: everything pushed since its
registration waits in its channel. Phases that never lead to the second lock are free. -/
def FullInv (replid : String) (cur : ℕ) (st : Bytes) (s : Session) (queued : Bytes) : Prop :=
  match s.phase with
  | .idle => False
  | .fullLine o => o = cur ∧ s.writes = [] ∧ queued = st.drop cur
  | .saving o => o = cur ∧ s.writes = [fullResyncReply replid cur] ∧ queued = st.drop cur
  | .rdbLength o _ => o = cur ∧ s.writes = [fullResyncReply replid cur] ∧ queued = st.drop cur
  | .rdbBody o _ => o = cur ∧ (∃ a, s.writes = [fullResyncReply replid cur, a]) ∧
      queued = st.drop cur
  | .gap o => o = cur ∧ (∃ a b, s.writes = [fullResyncReply replid cur, a, b]) ∧
      queued = st.drop cur
  | _ => True

/-- The invariant after the second lock, which found `g`. -/
def GapInv (replid : String) (cur : ℕ) (g st : Bytes) (s : Session) (queued : Bytes) : Prop :=
  match s.phase with
  | .gapBytes b => b = g ∧ (∃ a b, s.writes = [fullResyncReply replid cur, a, b]) ∧
      queued = st.drop cur
  | .live => (∃ a b, [fullResyncReply replid cur, a, b] <+: s.writes) ∧
      s.afterRdb ++ queued = g ++ st.drop cur
  | .closed => True
  | _ => False

theorem FullInv.push {cur : ℕ} {s : Session} {queued data : Bytes} (hcur : cur ≤ st.length)
    (h : FullInv replid cur st s queued) :
    FullInv replid cur (st ++ data) s (queued ++ data) := by
  rw [FullInv] at h ⊢
  rw [List.drop_append_of_le_length hcur]
  split at h
  · exact h
  · exact ⟨h.1, h.2.1, by rw [h.2.2]⟩
  · exact ⟨h.1, h.2.1, by rw [h.2.2]⟩
  · exact ⟨h.1, h.2.1, by rw [h.2.2]⟩
  · exact ⟨h.1, h.2.1, by rw [h.2.2]⟩
  · exact ⟨h.1, h.2.1, by rw [h.2.2]⟩
  · exact h

theorem GapInv.push {cur : ℕ} {g : Bytes} {s : Session} {queued data : Bytes}
    (hcur : cur ≤ st.length) (h : GapInv replid cur g st s queued) :
    GapInv replid cur g (st ++ data) s (queued ++ data) := by
  rw [GapInv] at h ⊢
  rw [List.drop_append_of_le_length hcur]
  split at h
  · exact ⟨h.1, h.2.1, by rw [h.2.2]⟩
  · exact ⟨h.1, by rw [← List.append_assoc, h.2, List.append_assoc]⟩
  · exact h
  · exact h

/-- Own actions up to the second lock. -/
theorem FullInv.act {cur : ℕ} (h : w.Inv st) (hf : FullInv replid cur st (w.sessions i)
    (w.channels i).queue.flatten) {a : Act} (hstep : step replid w (.act i a) = some w') :
    FullInv replid cur st (w'.sessions i) (w'.channels i).queue.flatten := by
  have hact := step_act hstep
  generalize w'.channels i = c, w'.sessions i = s at hact ⊢
  rcases act_cases h.backlog hact with ⟨args, -, hi, -⟩ | ⟨b, -, hw, -, rfl, rfl⟩ |
    ⟨o, rdb, -, hi, -, rfl, rfl⟩ | ⟨_, g, -, hi, -, -, rfl, rfl⟩ | ⟨m, q, -, hi, -, -, rfl, rfl⟩ |
    ⟨-, -, -, -, rfl, rfl⟩
  · rw [FullInv, hi] at hf
    exact hf.elim
  · cases hi : (w.sessions i).phase <;> rw [hi] at hw <;>
      simp only [nextWrite, reduceCtorEq] at hw <;> obtain rfl := Option.some.inj hw <;>
      rw [FullInv, hi] at hf
    · dsimp only [FullInv]
      split_ifs <;> trivial
    · trivial
    · obtain ⟨rfl, hwr, hq⟩ := hf
      exact ⟨rfl, by rw [hwr]; rfl, hq⟩
    · obtain ⟨rfl, hwr, hq⟩ := hf
      exact ⟨rfl, ⟨_, by rw [hwr]; rfl⟩, hq⟩
    · obtain ⟨rfl, ⟨x, hwr⟩, hq⟩ := hf
      exact ⟨rfl, ⟨x, _, by rw [hwr]; rfl⟩, hq⟩
    · trivial
  · rw [FullInv, hi] at hf
    exact hf
  · dsimp only [FullInv]
    split_ifs <;> trivial
  · rw [FullInv, hi]
    trivial
  · trivial

/-- Own actions after the second lock. -/
theorem GapInv.act {cur : ℕ} {g : Bytes} (h : w.Inv st) (hg : GapInv replid cur g st (w.sessions i)
    (w.channels i).queue.flatten) {a : Act} (hstep : step replid w (.act i a) = some w') :
    GapInv replid cur g st (w'.sessions i) (w'.channels i).queue.flatten := by
  have hact := step_act hstep
  generalize w'.channels i = c, w'.sessions i = s at hact ⊢
  rcases act_cases h.backlog hact with ⟨args, -, hi, -⟩ | ⟨b, -, hw, -, rfl, rfl⟩ |
    ⟨o, rdb, -, hi, -⟩ | ⟨_, _, -, hi, -⟩ | ⟨m, q, -, hi, hq, -, rfl, rfl⟩ |
    ⟨-, -, -, -, rfl, rfl⟩
  · rw [GapInv, hi] at hg
    exact hg.elim
  · rw [GapInv] at hg
    split at hg
    · next b hi =>
      rw [hi, nextWrite] at hw
      obtain rfl := Option.some.inj hw
      obtain ⟨rfl, ⟨x, y, hwr⟩, hq⟩ := hg
      refine ⟨⟨x, y, ?_⟩, ?_⟩
      · dsimp only
        rw [hwr]
        exact List.prefix_append _ _
      · simp [Session.afterRdb, hwr, hq]
    · next hi => simp [hi, nextWrite] at hw
    · next hi => simp [hi, nextWrite] at hw
    · exact hg.elim
  · rw [GapInv, hi] at hg
    exact hg.elim
  · rw [GapInv, hi] at hg
    exact hg.elim
  · rw [GapInv, hi, hq, List.flatten_cons] at hg
    rw [GapInv, hi]
    obtain ⟨⟨x, y, hpre⟩, hsent⟩ := hg
    refine ⟨⟨x, y, hpre.trans (List.prefix_append _ _)⟩, ?_⟩
    have hlen : 3 ≤ (w.sessions i).writes.length := hpre.length_le
    rw [← hsent]
    simp [Session.afterRdb, List.drop_append_of_le_length hlen]
  · trivial

theorem sessionInv_fullInv (replid : String) (cur i : ℕ) :
    SessionInv replid cur i (FullInv replid cur) where
  idle := fun h hi => by
    rw [FullInv, hi] at h
    exact h
  closed := fun _ _ _ hcl _ => by
    rw [FullInv, hcl]
    trivial
  push := fun _ ho h => h.push ho
  act := fun h hstep hs => hs.act h hstep

theorem sessionInv_gapInv (replid : String) (cur i : ℕ) (g : Bytes) :
    SessionInv replid cur i (GapInv replid cur g) where
  idle := fun h hi => by
    rw [GapInv, hi] at h
    exact h
  closed := fun _ _ _ hcl _ => by
    rw [GapInv, hcl]
    trivial
  push := fun _ ho h => h.push ho
  act := fun h hstep hs => hs.act h hstep

/-- What the second lock finds: the bytes pushed since the first, unless the ring has already lost
the first of them. -/
theorem Inv.readFrom_gap {s₁ s₂ : Bytes} (h : w.Inv (s₁ ++ s₂)) :
    w.backlog.readFrom s₁.length
      = some (if s₂.length ≤ w.backlog.capacity then s₂ else []) := by
  have hlen : (s₁ ++ s₂).length = s₁.length + s₂.length := List.length_append
  by_cases hw : s₂.length ≤ w.backlog.capacity
  · rw [if_pos hw, h.backlog.readFrom (by omega) (by omega), List.drop_left]
  · rw [if_neg hw, h.backlog.readFrom_behind (by omega)]

/-- The first lock: the channel is empty and the announced offset is the end of the stream. -/
theorem FullInv.start {args : List Bytes} (h : w.Inv st)
    (hstep : step replid w (.act i (.psync args)) = some w') :
    FullInv replid st.length st (w'.sessions i) (w'.channels i).queue.flatten := by
  rcases act_cases h.backlog (step_act hstep) with ⟨_, -, -, -, hch, hs⟩ | ⟨_, h, -⟩ |
    ⟨_, _, h, -⟩ | ⟨_, _, h, -⟩ | ⟨_, _, h, -⟩ | ⟨h, -⟩
  · rw [hch, hs]
    dsimp only [FullInv]
    split_ifs
    · trivial
    · exact ⟨rfl, rfl, List.drop_length.symm⟩
  all_goals cases h

/-- The second lock. -/
theorem FullInv.readGap {cur : ℕ} {g : Bytes} (hf : FullInv replid cur st (w.sessions i)
    (w.channels i).queue.flatten) (h : w.Inv st) (hg : w.backlog.readFrom cur = some g)
    (hstep : step replid w (.act i .readGap) = some w') :
    GapInv replid cur g st (w'.sessions i) (w'.channels i).queue.flatten := by
  rcases act_cases h.backlog (step_act hstep) with ⟨_, h, -⟩ | ⟨_, h, -⟩ |
    ⟨_, _, h, -⟩ | ⟨o, g', -, hi, hg', -, hch, hs⟩ | ⟨_, _, h, -⟩ | ⟨h, -⟩
  case inr.inr.inr.inl =>
    rw [FullInv, hi] at hf
    obtain ⟨rfl, ⟨a, b, hwr⟩, hq⟩ := hf
    obtain rfl := Option.some.inj (hg'.symm.trans hg)
    rw [hch, hs]
    by_cases hempty : g' = []
    · simp only [GapInv, hempty, if_true]
      refine ⟨⟨a, b, hwr ▸ List.prefix_rfl⟩, ?_⟩
      simpa [Session.afterRdb, hwr] using hq
    · simp only [GapInv, hempty, if_false]
      exact ⟨trivial, ⟨a, b, hwr⟩, hq⟩
  all_goals cases h

end World

/-- **When a full resync delivers every write exactly once.** A connection registers at the end of
the stream `before`, announces that offset, and reads the gap after `between`. Once it forwards
its channel, what it sent after the snapshot is the stream from the announced offset exactly when
the gap it read was empty: nothing was pushed in between, or more than the ring holds. Otherwise
the gap is sent twice, from the ring and from the channel. -/
theorem fullResync_delivers_iff {capacity : ℕ} {replid : String}
    {before between after : List Event} {i : ℕ} {args : List Bytes} {w : World}
    (hrun : Run.run (step replid) (init capacity)
      (before ++ .act i (.psync args) :: (between ++ .act i .readGap :: after)) = some w)
    (hlive : (w.sessions i).phase = .live) :
    (w.sessions i).writes.head? = some (fullResyncReply replid (stream before).length) ∧
      (w.Delivers i (w.sessions i).afterRdb (stream before).length
          (stream (before ++ between ++ after)) ↔
        stream between = [] ∨ capacity < (stream between).length) := by
  rw [Run.run_append] at hrun
  obtain ⟨w₀, h₀, hrun⟩ := Option.bind_eq_some_iff.mp hrun
  obtain ⟨w₁, h₁, hrun⟩ := Option.bind_eq_some_iff.mp hrun
  rw [Run.run_append] at hrun
  obtain ⟨w₂, h₂, hrun⟩ := Option.bind_eq_some_iff.mp hrun
  obtain ⟨w₃, h₃, h₄⟩ := Option.bind_eq_some_iff.mp hrun
  obtain ⟨hinv₀, hcap₀⟩ := run_inv h₀
  have hstart := FullInv.start hinv₀ h₁
  have hinv₁ : w₁.Inv (stream before) := by simpa [Event.pushed] using step_inv hinv₀ h₁
  obtain ⟨hinv₂, hcap₂, hle₂, hf⟩ := (sessionInv_fullInv replid _ i).run hinv₁
    ((step_capacity hinv₀ h₁).trans hcap₀) le_rfl hstart h₂
  have hgap := hinv₂
  rw [stream_append] at hgap
  have hread := hgap.readFrom_gap
  rw [hcap₂] at hread
  generalize hg : (if (stream between).length ≤ capacity then stream between else []) = g at hread
  have hmid := hf.readGap hinv₂ hread h₃
  have hinv₃ : w₃.Inv (stream (before ++ between)) := by
    simpa [Event.pushed] using step_inv hinv₂ h₃
  obtain ⟨hinv, -, hle, hend⟩ := (sessionInv_gapInv replid _ i g).run hinv₃
    ((step_capacity hinv₂ h₃).trans hcap₂) hle₂ hmid h₄
  rw [GapInv, hlive] at hend
  obtain ⟨⟨a, b, hpre⟩, hsent⟩ := hend
  refine ⟨?_, ?_⟩
  · obtain ⟨t, ht⟩ := hpre
    rw [← ht]
    rfl
  · have hgnil : g = [] ↔ stream between = [] ∨ capacity < (stream between).length := by
      rw [← hg]
      split_ifs with hfit
      · exact ⟨Or.inl, fun h => h.resolve_right (by omega)⟩
      · exact ⟨fun _ => Or.inr (by omega), fun _ => rfl⟩
    rw [← hgnil]
    constructor
    · intro hd
      have heq := hsent.symm.trans hd.exact
      exact List.append_left_eq_self.mp heq
    · rintro rfl
      exact hinv.delivers hle hsent

/-- One byte pushed between the two locks. -/
theorem fullResync_delivers_iff_overlap :
    ∃ w, Run.run (step "id") (init 16)
        ([] ++ .act 0 (.psync []) :: ([.act 0 .write, .act 0 (.save []), .act 0 .write,
          .act 0 .write, .push [65]] ++ .act 0 .readGap :: [.act 0 .write, .act 0 .forward]))
        = some w ∧
      (w.Delivers 0 (w.sessions 0).afterRdb 0 [65] ↔ ([65] : Bytes) = [] ∨ 16 < 1) := by
  refine ⟨_, rfl, ?_⟩
  have key := fullResync_delivers_iff (show Run.run (step "id") (init 16)
        ([] ++ .act 0 (.psync []) :: ([.act 0 .write, .act 0 (.save []), .act 0 .write,
          .act 0 .write, .push [65]] ++ .act 0 .readGap :: [.act 0 .write, .act 0 .forward]))
        = some _ from rfl) rfl
  exact key.2

/-- There the byte is sent twice, so the announced offset and the bytes sent overshoot. -/
theorem fullResync_sends_twice :
    ∃ w, Run.run (step "id") (init 16) [.act 0 (.psync []), .act 0 .write, .act 0 (.save []),
        .act 0 .write, .act 0 .write, .push [65], .act 0 .readGap, .act 0 .write, .act 0 .forward]
        = some w ∧
      (w.sessions 0).phase = .live ∧ (w.sessions 0).afterRdb = [65, 65] ∧
      w.backlog.globalOffset = 1 ∧
      ¬w.Delivers 0 (w.sessions 0).afterRdb 0 [65] := by
  refine ⟨_, rfl, rfl, rfl, rfl, fun h => ?_⟩
  exact absurd h.exact (by decide)

end VeloDB
