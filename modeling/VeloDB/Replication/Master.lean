import VeloDB.Lib.Run
import VeloDB.Replication.Backlog

/-!
# Serving replicas

`handle_psync` runs once on every connection that asks for replication. It takes the lock of the
backlog to register its channel, writes a header and some data to its socket, and then forwards its
channel. Pushes of other connections and the steps of other replicas may fall between any two of
its steps, so each of them is an action of its own: the part under the lock, one `write_all`, the
snapshot, the second lock of the full resync, one message forwarded, the end of the connection.

A `World` is the backlog with all connections; `step` is one action or one push.

## Main results

* `World.step_inv`, `World.run_inv` — the invariant that every interleaving keeps
* `World.step_channel` — a connection that serves misses no write
-/

namespace VeloDB

open Rust

/-- Where a connection stands in `handle_psync`. -/
inductive Phase
  | idle
  /-- Partial resync: `+CONTINUE` is next, then the catch-up bytes. -/
  | continueLine (catchUp : Bytes)
  | catchUp (bytes : Bytes)
  /-- Full resync from the announced offset. -/
  | fullLine (offset : ℕ)
  | saving (offset : ℕ)
  | rdbLength (offset : ℕ) (rdb : Bytes)
  | rdbBody (offset : ℕ) (rdb : Bytes)
  | gap (offset : ℕ)
  | gapBytes (bytes : Bytes)
  /-- Forwarding the channel. -/
  | live
  | closed
  deriving DecidableEq, Repr

/-- One connection: its place in `handle_psync`, the id it registered under, and what it has
passed to `write_all` so far. -/
structure Session where
  phase : Phase := .idle
  replicaId : ℕ := 0
  writes : List Bytes := []
  deriving DecidableEq, Repr

/-- `+CONTINUE`. -/
def continueReply : Bytes := asBytes "+CONTINUE\r\n"

/-- `+FULLRESYNC <replid> <offset>`. -/
def fullResyncReply (replid : String) (offset : ℕ) : Bytes :=
  asBytes ("+FULLRESYNC " ++ replid ++ " " ++ toString offset ++ "\r\n")

/-- `$<length>` in front of the snapshot. -/
def rdbLengthLine (rdb : Bytes) : Bytes := asBytes ("$" ++ toString rdb.length ++ "\r\n")

/-- The replication id a replica asks for. -/
def requestedReplid (args : List Bytes) : String :=
  match args[0]? with
  | some a => fromUtf8Lossy a
  | none => "?"

/-- The offset a replica asks for. -/
def requestedOffset (args : List Bytes) : ℤ :=
  match args[1]? >>= fun a => parseSigned (2 ^ 63) (2 ^ 63 - 1) (fromUtf8Lossy a) with
  | some o => o
  | none => -1

/-- Whether the request is served by a partial resync. -/
def isPartial (replid : String) (bl : ReplBacklog) (args : List Bytes) : Bool :=
  0 ≤ requestedOffset args ∧
    bl.canServePartial (requestedReplid args) replid (requestedOffset args).toNat

/-- What a connection does next. -/
inductive Act
  /-- The block under the first lock. -/
  | psync (args : List Bytes)
  /-- The next `write_all`. -/
  | write
  /-- `save_rdb` and reading the file back. -/
  | save (rdb : Bytes)
  /-- The block under the second lock. -/
  | readGap
  /-- One message from the channel to the socket. -/
  | forward
  /-- The socket is closed or fails. -/
  | disconnect
  deriving DecidableEq, Repr

/-- The write a phase waits for, and the phase after it. -/
def nextWrite (replid : String) : Phase → Option (Bytes × Phase)
  | .continueLine c => some (continueReply, if c = [] then .live else .catchUp c)
  | .catchUp c => some (c, .live)
  | .fullLine o => some (fullResyncReply replid o, .saving o)
  | .rdbLength o rdb => some (rdbLengthLine rdb, .rdbBody o rdb)
  | .rdbBody o rdb => some (rdb, .gap o)
  | .gapBytes b => some (b, .live)
  | _ => none

/-- The block under the first lock: decide, read the catch-up bytes, register. -/
def startPsync (replid : String) (bl : ReplBacklog) (i : ℕ) (args : List Bytes) :
    Option (ReplBacklog × Session) := do
  let phase ← if isPartial replid bl args then
      (bl.readFrom (requestedOffset args).toNat).map Phase.continueLine
    else some (Phase.fullLine bl.globalOffset)
  let r := bl.registerReplica i
  some (r.2, { phase := phase, replicaId := r.1, writes := [] })

/-- One action of connection `i`, on the backlog, its channel and its session. -/
def Session.act (replid : String) (bl : ReplBacklog) (i : ℕ) (c : Channel) (s : Session) :
    Act → Option (ReplBacklog × Channel × Session)
  | .psync args =>
    match s.phase with
    | .idle => do
      let r ← startPsync replid bl i args
      some (r.1, {}, r.2)
    | _ => none
  | .write => do
    let w ← nextWrite replid s.phase
    some (bl, c, { s with phase := w.2, writes := s.writes ++ [w.1] })
  | .save rdb =>
    match s.phase with
    | .saving o => some (bl, c, { s with phase := .rdbLength o rdb })
    | _ => none
  | .readGap =>
    match s.phase with
    | .gap o => do
      let g ← bl.readFrom o
      some (bl, c, { s with phase := if g = [] then .live else .gapBytes g })
    | _ => none
  | .forward =>
    match s.phase, c.queue with
    | .live, m :: q => some (bl, { c with queue := q }, { s with writes := s.writes ++ [m] })
    | _, _ => none
  | .disconnect =>
    match s.phase with
    | .idle => none
    | .closed => none
    -- only the forwarding loop unregisters; elsewhere `?` returns and drops the receiver
    | .live => some (bl.unregisterReplica s.replicaId, { c with receiving := false },
        { s with phase := .closed })
    | _ => some (bl, { c with receiving := false }, { s with phase := .closed })

/-- A push by some client, or an action of a replica's connection. -/
inductive Event
  | push (data : Bytes)
  | act (i : ℕ) (a : Act)
  deriving DecidableEq, Repr

/-- The bytes an event adds to the stream. -/
def Event.pushed : Event → Bytes
  | .push data => data
  | .act _ _ => []

/-- The stream pushed by a list of events. -/
def stream (es : List Event) : Bytes := es.flatMap Event.pushed

@[simp] theorem stream_append (es fs : List Event) :
    stream (es ++ fs) = stream es ++ stream fs := List.flatMap_append

theorem stream_snoc (es : List Event) (e : Event) : stream (es ++ [e]) = stream es ++ e.pushed := by
  rw [stream_append]
  exact congrArg _ (List.append_nil _)

/-- The backlog and every connection that may ask for it. -/
structure World where
  backlog : ReplBacklog
  channels : Channels
  sessions : ℕ → Session

namespace World

/-- A server just started. -/
def init (capacity : ℕ) : World where
  backlog := .new capacity
  channels := fun _ => {}
  sessions := fun _ => {}

/-- One event. -/
def step (replid : String) (w : World) : Event → Option World
  | .push data => do
    let r ← w.backlog.push w.channels data
    some { w with backlog := r.1, channels := r.2 }
  | .act i a => do
    let r ← (w.sessions i).act replid w.backlog i (w.channels i) a
    some {
      backlog := r.1
      channels := Function.update w.channels i r.2.1
      sessions := Function.update w.sessions i r.2.2 }

/-- The connection is past registration and has not ended. -/
def Serving (w : World) (i : ℕ) : Prop :=
  (w.sessions i).phase ≠ .idle ∧ (w.sessions i).phase ≠ .closed

/-- The connection is registered under its id with an open channel. -/
structure Attached (w : World) (i : ℕ) : Prop where
  registered : ((w.sessions i).replicaId, i) ∈ w.backlog.replicas
  receiving : (w.channels i).receiving = true

/-- **What every interleaving keeps**, for the stream `st` pushed so far. -/
structure Inv (w : World) (st : Bytes) : Prop where
  backlog : w.backlog.Good st
  /-- A registered channel belongs to a connection that has started. -/
  started : ∀ r ∈ w.backlog.replicas, (w.sessions r.2).phase ≠ .idle
  attached : ∀ i, w.Serving i → w.Attached i

end World

/-! ### One action -/

section Actions

variable {replid : String} {bl bl' : ReplBacklog} {i : ℕ} {c c' : Channel} {s s' : Session}
  {a : Act} {st : Bytes}

theorem isPartial_iff {args : List Bytes} : isPartial replid bl args = true ↔
    0 ≤ requestedOffset args ∧ requestedReplid args = replid ∧
      bl.globalOffset - bl.capacity ≤ (requestedOffset args).toNat ∧
      (requestedOffset args).toNat ≤ bl.globalOffset := by
  simp only [isPartial, ReplBacklog.canServePartial]
  by_cases h : requestedReplid args = replid
  · simp [h]
  · simp [h]

/-- Registration succeeds, and says which of the two paths is taken. -/
theorem startPsync_eq (hbl : bl.Good st) (args : List Bytes) :
    startPsync replid bl i args = some ((bl.registerReplica i).2,
      { phase := if isPartial replid bl args then
          .continueLine (st.drop (requestedOffset args).toNat) else .fullLine st.length
        replicaId := bl.nextReplicaId
        writes := [] }) := by
  rw [startPsync]
  by_cases hp : isPartial replid bl args = true
  · have h := isPartial_iff.mp hp
    rw [hbl.offset] at h
    rw [if_pos hp, if_pos hp, hbl.readFrom h.2.2.2 (by omega)]
    rfl
  · rw [if_neg hp, if_neg hp, hbl.offset]
    rfl

/-- Everything an action can do. -/
theorem act_cases (hbl : bl.Good st) (h : s.act replid bl i c a = some (bl', c', s')) :
    (∃ args, a = .psync args ∧ s.phase = .idle ∧ bl' = (bl.registerReplica i).2 ∧ c' = {} ∧
      s' = { phase := if isPartial replid bl args then
                .continueLine (st.drop (requestedOffset args).toNat) else .fullLine st.length
             replicaId := bl.nextReplicaId
             writes := [] }) ∨
    (∃ w, a = .write ∧ nextWrite replid s.phase = some w ∧ bl' = bl ∧ c' = c ∧
      s' = { s with phase := w.2, writes := s.writes ++ [w.1] }) ∨
    (∃ o rdb, a = .save rdb ∧ s.phase = .saving o ∧ bl' = bl ∧ c' = c ∧
      s' = { s with phase := .rdbLength o rdb }) ∨
    (∃ o g, a = .readGap ∧ s.phase = .gap o ∧ bl.readFrom o = some g ∧ bl' = bl ∧ c' = c ∧
      s' = { s with phase := if g = [] then .live else .gapBytes g }) ∨
    (∃ m q, a = .forward ∧ s.phase = .live ∧ c.queue = m :: q ∧ bl' = bl ∧
      c' = { c with queue := q } ∧ s' = { s with writes := s.writes ++ [m] }) ∨
    (a = .disconnect ∧ s.phase ≠ .idle ∧ s.phase ≠ .closed ∧
      (bl' = bl ∨ bl' = bl.unregisterReplica s.replicaId) ∧ c' = { c with receiving := false } ∧
      s' = { s with phase := .closed }) := by
  cases a with
  | psync args =>
    cases hp : s.phase <;> simp only [Session.act, hp, reduceCtorEq, startPsync_eq hbl] at h
    obtain ⟨rfl, rfl, rfl⟩ := by simpa using h
    exact Or.inl ⟨args, rfl, rfl, rfl, rfl, rfl⟩
  | write =>
    obtain ⟨w, hw, hsome⟩ := Option.bind_eq_some_iff.mp h
    obtain ⟨rfl, rfl, rfl⟩ := by simpa using hsome
    exact Or.inr (Or.inl ⟨w, rfl, hw, rfl, rfl, rfl⟩)
  | save rdb =>
    cases hp : s.phase <;> simp only [Session.act, hp, reduceCtorEq] at h
    next o =>
      obtain ⟨rfl, rfl, rfl⟩ := by simpa using h
      exact Or.inr (Or.inr (Or.inl ⟨o, rdb, rfl, rfl, rfl, rfl, rfl⟩))
  | readGap =>
    cases hp : s.phase <;> simp only [Session.act, hp, reduceCtorEq] at h
    next o =>
      obtain ⟨g, hg, hsome⟩ := Option.bind_eq_some_iff.mp h
      obtain ⟨rfl, rfl, rfl⟩ := by simpa using hsome
      exact Or.inr (Or.inr (Or.inr (Or.inl ⟨o, g, rfl, rfl, hg, rfl, rfl, rfl⟩)))
  | forward =>
    cases hp : s.phase <;> cases hq : c.queue <;>
      simp only [Session.act, hp, hq, reduceCtorEq] at h
    next m q =>
      obtain ⟨rfl, rfl, rfl⟩ := by simpa using h
      exact Or.inr (Or.inr (Or.inr (Or.inr (Or.inl ⟨m, q, rfl, rfl, rfl, rfl, rfl, rfl⟩))))
  | disconnect =>
    refine Or.inr (Or.inr (Or.inr (Or.inr (Or.inr ⟨rfl, ?_⟩))))
    cases hp : s.phase <;> simp only [Session.act, hp, reduceCtorEq] at h <;>
      (obtain ⟨rfl, rfl, rfl⟩ := by simpa using h) <;> simp

/-- A write leads from a phase that serves to one that serves. -/
theorem nextWrite_serving {p : Phase} {w : Bytes × Phase} (h : nextWrite replid p = some w) :
    (p ≠ .idle ∧ p ≠ .closed) ∧ w.2 ≠ .idle ∧ w.2 ≠ .closed := by
  cases p <;> simp only [nextWrite, reduceCtorEq] at h <;> obtain rfl := Option.some.inj h <;>
    simp only [ne_eq, reduceCtorEq, not_false_eq_true, and_self, true_and]
  split_ifs <;> simp

/-- What an action means for the backlog: the other registrations stay, and the connection itself
is registered as long as it serves. -/
structure ActSpec (bl bl' : ReplBacklog) (i : ℕ) (c' : Channel) (s' : Session) (st : Bytes) :
    Prop where
  good : bl'.Good st
  capacity : bl'.capacity = bl.capacity
  sub : ∀ r ∈ bl'.replicas, r ∈ bl.replicas ∨ r.2 = i
  keep : ∀ r ∈ bl.replicas, r.2 ≠ i → r ∈ bl'.replicas
  started : s'.phase ≠ .idle
  attached : s'.phase ≠ .closed → (s'.replicaId, i) ∈ bl'.replicas ∧ c'.receiving = true

theorem act_spec (hbl : bl.Good st) (hidle : s.phase = .idle → i ∉ bl.replicas.map Prod.snd)
    (hatt : s.phase ≠ .idle → s.phase ≠ .closed →
      (s.replicaId, i) ∈ bl.replicas ∧ c.receiving = true)
    (h : s.act replid bl i c a = some (bl', c', s')) : ActSpec bl bl' i c' s' st := by
  -- an action that leaves the backlog and the registration alone
  have same : ∀ {c' : Channel} {s' : Session}, s.phase ≠ .idle → s.phase ≠ .closed →
      s'.replicaId = s.replicaId → c'.receiving = c.receiving → s'.phase ≠ .idle →
      ActSpec bl bl i c' s' st := by
    intro c' s' h₁ h₂ hid hrc h₃
    refine ⟨hbl, rfl, fun r hr => Or.inl hr, fun r hr _ => hr, h₃, fun _ => ?_⟩
    rw [hid, hrc]
    exact hatt h₁ h₂
  rcases act_cases hbl h with ⟨args, -, hp, rfl, rfl, rfl⟩ | ⟨w, -, hw, rfl, rfl, rfl⟩ |
    ⟨o, rdb, -, hp, rfl, rfl, rfl⟩ | ⟨o, g, -, hp, -, rfl, rfl, rfl⟩ |
    ⟨m, q, -, hp, -, rfl, rfl, rfl⟩ | ⟨-, h₁, h₂, hb, rfl, rfl⟩
  · refine ⟨hbl.register (hidle hp), rfl, fun r hr => ?_, fun r hr _ => ?_, ?_, fun _ => ⟨?_, rfl⟩⟩
    · rcases List.mem_append.mp hr with hold | hnew
      · exact Or.inl hold
      · obtain rfl := List.mem_singleton.mp hnew
        exact Or.inr rfl
    · exact List.mem_append_left _ hr
    · dsimp only
      split_ifs <;> simp
    · exact List.mem_append_right _ (List.mem_singleton.mpr rfl)
  · obtain ⟨⟨h₁, h₂⟩, h₃, -⟩ := nextWrite_serving hw
    exact same h₁ h₂ rfl rfl h₃
  · exact same (by simp [hp]) (by simp [hp]) rfl rfl (by simp)
  · refine same (by simp [hp]) (by simp [hp]) rfl rfl ?_
    dsimp only
    split_ifs <;> simp
  · exact same (by simp [hp]) (by simp [hp]) rfl rfl (by simp [hp])
  · rcases hb with rfl | rfl
    · exact ⟨hbl, rfl, fun r hr => Or.inl hr, fun r hr _ => hr, by simp,
        fun hne => absurd rfl hne⟩
    · refine ⟨hbl.unregister _, rfl, fun r hr => Or.inl (List.mem_of_mem_filter hr),
        fun r hr hri => List.mem_filter.mpr ⟨hr, ?_⟩, by simp, fun hne => absurd rfl hne⟩
      -- ids are unique, so only the connection's own entry goes
      rw [bne_iff_ne]
      intro hid
      have hown := (hatt h₁ h₂).1
      exact hri (congrArg Prod.snd (List.inj_on_of_nodup_map hbl.ids hr hown hid))

end Actions

/-! ### Every interleaving -/

namespace World

variable {replid : String} {w w' : World} {st : Bytes} {e : Event} {i : ℕ}

theorem inv_init (capacity : ℕ) : (init capacity).Inv [] where
  backlog := ReplBacklog.good_new capacity
  started := fun _ h => absurd h List.not_mem_nil
  attached := fun _ h => absurd rfl h.1

theorem Inv.idle_not_registered (h : w.Inv st) (hi : (w.sessions i).phase = .idle) :
    i ∉ w.backlog.replicas.map Prod.snd := by
  intro hmem
  obtain ⟨r, hr, rfl⟩ := List.mem_map.mp hmem
  exact h.started r hr hi

theorem Inv.act_spec (h : w.Inv st) {a : Act} {bl : ReplBacklog} {c : Channel} {s : Session}
    (hact : (w.sessions i).act replid w.backlog i (w.channels i) a = some (bl, c, s)) :
    ActSpec w.backlog bl i c s st :=
  VeloDB.act_spec h.backlog (fun hi => h.idle_not_registered hi)
    (fun h₁ h₂ => ⟨(h.attached i ⟨h₁, h₂⟩).registered, (h.attached i ⟨h₁, h₂⟩).receiving⟩) hact

/-- **One event keeps the invariant**, for the stream with what the event pushed. -/
theorem step_inv (h : w.Inv st) (hstep : step replid w e = some w') :
    w'.Inv (st ++ e.pushed) := by
  rcases e with data | ⟨i, a⟩
  · obtain ⟨⟨bl, ch⟩, hpush, hsome⟩ := Option.bind_eq_some_iff.mp hstep
    obtain rfl := Option.some.inj hsome
    obtain ⟨hgood, hrep, -, rfl⟩ := h.backlog.push hpush
    refine ⟨hgood, fun r hr => ?_, fun i hi => ?_⟩
    · exact h.started r (List.mem_of_mem_filter (hrep ▸ hr))
    · obtain ⟨hreg, hrc⟩ := h.attached i hi
      refine ⟨?_, ?_⟩
      · show _ ∈ bl.replicas
        rw [hrep]
        exact List.mem_filter.mpr ⟨hreg, hrc⟩
      · show (if _ then _ else _ : Channel).receiving = true
        split_ifs
        · exact hrc
        · exact hrc
  · obtain ⟨⟨bl, c, s⟩, hact, hsome⟩ := Option.bind_eq_some_iff.mp hstep
    obtain rfl := Option.some.inj hsome
    have hs := h.act_spec hact
    rw [Event.pushed, List.append_nil]
    refine ⟨hs.good, fun r hr => ?_, fun j hj => ?_⟩
    · dsimp only
      by_cases hri : r.2 = i
      · rw [hri, Function.update_self]
        exact hs.started
      · rw [Function.update_of_ne hri]
        exact h.started r ((hs.sub r hr).resolve_right hri)
    · by_cases hji : j = i
      · subst hji
        have hne : s.phase ≠ .closed := by simpa [Serving] using hj.2
        refine ⟨?_, ?_⟩
        · simpa using (hs.attached hne).1
        · simpa using (hs.attached hne).2
      · have hserv : w.Serving j := by
          simpa [Serving, Function.update_of_ne hji] using hj
        obtain ⟨hreg, hrc⟩ := h.attached j hserv
        refine ⟨?_, ?_⟩
        · simpa [Function.update_of_ne hji] using hs.keep _ hreg hji
        · simpa [Function.update_of_ne hji] using hrc

theorem step_capacity (h : w.Inv st) (hstep : step replid w e = some w') :
    w'.backlog.capacity = w.backlog.capacity := by
  rcases e with data | ⟨i, a⟩
  · obtain ⟨⟨bl, ch⟩, hpush, hsome⟩ := Option.bind_eq_some_iff.mp hstep
    obtain rfl := Option.some.inj hsome
    exact (h.backlog.push hpush).2.2.1
  · obtain ⟨⟨bl, c, s⟩, hact, hsome⟩ := Option.bind_eq_some_iff.mp hstep
    obtain rfl := Option.some.inj hsome
    exact (h.act_spec hact).capacity

/-- A server with room for a byte can always take a write. -/
theorem push_isSome (h : w.Inv st) (hc : 1 ≤ w.backlog.capacity) (data : Bytes) :
    (step replid w (.push data)).isSome := by
  obtain ⟨r, hr⟩ := Option.isSome_iff_exists.mp (h.backlog.push_isSome hc w.channels data)
  rw [step, hr]
  rfl

theorem run_inv {es : List Event} {capacity : ℕ}
    (hrun : Run.run (step replid) (init capacity) es = some w) :
    w.Inv (stream es) ∧ w.backlog.capacity = capacity :=
  Run.run_invariant (P := fun past w => w.Inv (stream past) ∧ w.backlog.capacity = capacity)
    (fun past w e w' hw hstep => by
      rw [stream_snoc]
      exact ⟨step_inv hw.1 hstep, (step_capacity hw.1 hstep).trans hw.2⟩)
    [] ⟨inv_init capacity, rfl⟩ hrun

/-- An action is seen by its own connection as `Session.act`. -/
theorem step_act {a : Act} (hstep : step replid w (.act i a) = some w') :
    (w.sessions i).act replid w.backlog i (w.channels i) a
      = some (w'.backlog, w'.channels i, w'.sessions i) := by
  obtain ⟨⟨bl, c, s⟩, hact, hsome⟩ := Option.bind_eq_some_iff.mp hstep
  obtain rfl := Option.some.inj hsome
  simpa using hact

/-- A connection moves only by its own actions. -/
theorem step_session (hstep : step replid w e = some w') (hne : ∀ a, e ≠ .act i a) :
    w'.sessions i = w.sessions i := by
  rcases e with data | ⟨j, a⟩
  · obtain ⟨r, -, hsome⟩ := Option.bind_eq_some_iff.mp hstep
    obtain rfl := Option.some.inj hsome
    rfl
  · obtain ⟨r, -, hsome⟩ := Option.bind_eq_some_iff.mp hstep
    obtain rfl := Option.some.inj hsome
    have hij : i ≠ j := by
      rintro rfl
      exact hne a rfl
    exact Function.update_of_ne hij _ _

/-- **No write is missed.** An event of somebody else adds to the channel of a connection that
serves exactly the bytes it pushed. -/
theorem step_channel (h : w.Inv st) (hstep : step replid w e = some w')
    (hne : ∀ a, e ≠ .act i a) (hserv : w.Serving i) :
    (w'.channels i).queue.flatten = (w.channels i).queue.flatten ++ e.pushed := by
  rcases e with data | ⟨j, a⟩
  · obtain ⟨⟨bl, ch⟩, hpush, hsome⟩ := Option.bind_eq_some_iff.mp hstep
    obtain rfl := Option.some.inj hsome
    obtain ⟨-, -, -, rfl⟩ := h.backlog.push hpush
    obtain ⟨hreg, hrc⟩ := h.attached i hserv
    have hmem : i ∈ w.backlog.replicas.map Prod.snd := List.mem_map.mpr ⟨_, hreg, rfl⟩
    simp [hmem, hrc, Channel.send, Event.pushed]
  · obtain ⟨⟨bl, c, s⟩, -, hsome⟩ := Option.bind_eq_some_iff.mp hstep
    obtain rfl := Option.some.inj hsome
    have hij : i ≠ j := by
      rintro rfl
      exact hne a rfl
    simp [Function.update_of_ne hij, Event.pushed]

end World

end VeloDB
