import Mathlib.Data.List.Nodup
import VeloDB.Lib.Text
import VeloDB.Lib.Ring
import VeloDB.Lib.Run

/-!
# The replication backlog

The backlog is a ring of the last bytes written, the total number of bytes ever written, and the
list of replicas that get every further write on a channel. A channel is named by the connection
that holds its receiving end; the channels themselves are a separate part of the state, because
each is shared between the backlog and one connection.

`ReplBacklog.Good` ties a backlog to the stream of bytes pushed so far. The main result,
`run_serves_window`, is about any sequence of pushes: the offsets a backlog offers are those of the
retained window, and reading from one of them gives the rest of the stream.
-/

namespace VeloDB

open Rust

/-- An unbounded channel of byte messages. -/
structure Channel where
  /-- Messages sent and not yet received. -/
  queue : List Bytes := []
  /-- The receiver has not been dropped. -/
  receiving : Bool := true

/-- A successful `send`. -/
def Channel.send (c : Channel) (data : Bytes) : Channel := { c with queue := c.queue ++ [data] }

/-- The channels, by the connection at the receiving end. -/
abbrev Channels := ℕ → Channel

structure ReplBacklog where
  buffer : Bytes
  capacity : ℕ
  writePos : ℕ
  globalOffset : ℕ
  /-- Live replicas: their id and their channel. -/
  replicas : List (ℕ × ℕ)
  nextReplicaId : ℕ
  deriving DecidableEq, Repr

/-- The fan-out of `push`: every replica whose channel still has a receiver gets the data and is
retained. -/
def fanOut (data : Bytes) : List (ℕ × ℕ) → Channels → List (ℕ × ℕ) × Channels
  | [], ch => ([], ch)
  | (id, tx) :: rest, ch =>
    if (ch tx).receiving then
      let r := fanOut data rest (Function.update ch tx ((ch tx).send data))
      ((id, tx) :: r.1, r.2)
    else fanOut data rest ch

namespace ReplBacklog

/-- `ReplBacklog::new`. -/
def new (capacity : ℕ) : ReplBacklog where
  buffer := List.replicate capacity 0
  capacity := capacity
  writePos := 0
  globalOffset := 0
  replicas := []
  nextReplicaId := 0

/-- `push`. Writing to a buffer without cells panics. -/
def push (bl : ReplBacklog) (ch : Channels) (data : Bytes) : Option (ReplBacklog × Channels) := do
  let r ← Ring.putAll bl.capacity (bl.buffer, bl.writePos) data
  let f := fanOut data bl.replicas ch
  some ({ bl with
    buffer := r.1
    writePos := r.2
    globalOffset := bl.globalOffset + data.length
    replicas := f.1 }, f.2)

/-- `register_replica`. -/
def registerReplica (bl : ReplBacklog) (tx : ℕ) : ℕ × ReplBacklog :=
  (bl.nextReplicaId, { bl with
    nextReplicaId := bl.nextReplicaId + 1
    replicas := bl.replicas ++ [(bl.nextReplicaId, tx)] })

/-- `unregister_replica`. -/
def unregisterReplica (bl : ReplBacklog) (id : ℕ) : ReplBacklog :=
  { bl with replicas := bl.replicas.filter fun r => r.1 != id }

/-- `read_from`. The result is `none` when an index is out of bounds, which panics. -/
def readFrom (bl : ReplBacklog) (offset : ℕ) : Option Bytes :=
  if offset < bl.globalOffset - bl.capacity ∨ bl.globalOffset < offset then some []
  else (List.range (bl.globalOffset - offset)).mapM fun i =>
    bl.buffer[(offset + i) % bl.capacity]?

/-- `can_serve_partial`. -/
def canServePartial (bl : ReplBacklog) (requested current : String) (offset : ℕ) : Bool :=
  if requested ≠ current then false
  else bl.globalOffset - bl.capacity ≤ offset ∧ offset ≤ bl.globalOffset

/-! ### The backlog and the stream it was fed -/

/-- `bl` is a backlog that was fed the bytes `st`. -/
structure Good (bl : ReplBacklog) (st : Bytes) : Prop where
  /-- The ring holds the end of the stream. -/
  ring : Ring.Holds bl.capacity (bl.buffer, bl.writePos) st
  /-- The offset counts every byte. -/
  offset : bl.globalOffset = st.length
  /-- Replica ids are given out once. -/
  ids : (bl.replicas.map Prod.fst).Nodup
  /-- So are channels. -/
  channels : (bl.replicas.map Prod.snd).Nodup
  /-- The next id is fresh. -/
  fresh : ∀ r ∈ bl.replicas, r.1 < bl.nextReplicaId

theorem good_new (capacity : ℕ) : (new capacity).Good [] where
  ring := Ring.holds_empty capacity _ List.length_replicate
  offset := rfl
  ids := List.nodup_nil
  channels := List.nodup_nil
  fresh := fun _ h => absurd h List.not_mem_nil

end ReplBacklog

/-- With every channel listed once, the fan-out reaches each open one exactly once. -/
theorem fanOut_eq (data : Bytes) {rs : List (ℕ × ℕ)} (hnd : (rs.map Prod.snd).Nodup)
    (ch : Channels) :
    fanOut data rs ch = (rs.filter fun r => (ch r.2).receiving,
      fun i => if i ∈ rs.map Prod.snd ∧ (ch i).receiving then (ch i).send data else ch i) := by
  induction rs generalizing ch with
  | nil => simp [fanOut]
  | cons r rs ih =>
    obtain ⟨id, tx⟩ := r
    rw [List.map_cons] at hnd
    obtain ⟨hnot, hnd'⟩ := List.nodup_cons.mp hnd
    have hne : ∀ r ∈ rs, r.2 ≠ tx := by
      rintro r hr rfl
      exact hnot (List.mem_map.mpr ⟨r, hr, rfl⟩)
    rw [fanOut]
    by_cases hopen : (ch tx).receiving
    · rw [if_pos hopen, ih hnd']
      refine Prod.ext ?_ (funext fun i => ?_)
      · have hfilter : rs.filter (fun r => (Function.update ch tx ((ch tx).send data) r.2).receiving)
            = rs.filter fun r => (ch r.2).receiving :=
          List.filter_congr fun r hr => by rw [Function.update_of_ne (hne r hr)]
        simp [hopen, hfilter]
      · by_cases hi : i = tx
        · subst hi
          have hself : i ∉ rs.map Prod.snd := hnot
          simp only [hself, false_and, if_false, Function.update_self, List.map_cons,
            List.mem_cons, true_or, true_and, hopen, if_true]
        · simp only [Function.update_of_ne hi, List.map_cons, List.mem_cons, hi, false_or]
    · rw [if_neg hopen, ih hnd']
      refine Prod.ext ?_ (funext fun i => ?_)
      · simp [hopen]
      · by_cases hi : i = tx
        · subst hi
          simp [hopen]
        · simp only [List.map_cons, List.mem_cons, hi, false_or]

namespace ReplBacklog

variable {bl : ReplBacklog} {st : Bytes} {capacity : ℕ}

/-- What of `Good` does not depend on how the replicas were registered. -/
structure Fed (capacity : ℕ) (bl : ReplBacklog) (st : Bytes) : Prop where
  /-- The size never changes. -/
  size : bl.capacity = capacity
  /-- The ring holds the end of the stream. -/
  ring : Ring.Holds capacity (bl.buffer, bl.writePos) st
  /-- The offset counts every byte. -/
  offset : bl.globalOffset = st.length

theorem Fed.push (h : Fed capacity bl st) (hc : 1 ≤ capacity) (ch : Channels) (data : Bytes) :
    ∃ bl' ch', bl.push ch data = some (bl', ch') ∧ Fed capacity bl' (st ++ data) := by
  obtain ⟨r, hr⟩ := Option.isSome_iff_exists.mp (h.ring.putAll_isSome hc data)
  have hring : Ring.Holds capacity (r.1, r.2) (st ++ data) := h.ring.putAll hr
  rw [ReplBacklog.push, h.size, hr]
  refine ⟨_, _, rfl, rfl, hring, ?_⟩
  rw [List.length_append, ← h.offset]

theorem Fed.canServePartial (h : Fed capacity bl st) (id : String) (o : ℕ) :
    bl.canServePartial id id o = true ↔ st.length - capacity ≤ o ∧ o ≤ st.length := by
  rw [ReplBacklog.canServePartial, if_neg (not_not_intro rfl), decide_eq_true_iff, h.size, h.offset]

theorem Fed.readFrom (h : Fed capacity bl st) {o : ℕ} (hwindow : st.length - capacity ≤ o)
    (ho : o ≤ st.length) : bl.readFrom o = some (st.drop o) := by
  rw [ReplBacklog.readFrom, if_neg (by rw [h.size, h.offset]; omega), h.size, h.offset]
  exact h.ring.read ho (by omega)

theorem Good.fed (h : bl.Good st) : Fed bl.capacity bl st := ⟨rfl, h.ring, h.offset⟩

/-- What one push does to a good backlog. -/
theorem Good.push (h : bl.Good st) {ch ch' : Channels} {bl' : ReplBacklog} {data : Bytes}
    (hpush : bl.push ch data = some (bl', ch')) :
    bl'.Good (st ++ data) ∧
      bl'.replicas = bl.replicas.filter (fun r => (ch r.2).receiving) ∧
      bl'.capacity = bl.capacity ∧
      ch' = fun i => if i ∈ bl.replicas.map Prod.snd ∧ (ch i).receiving then (ch i).send data
        else ch i := by
  obtain ⟨r, hr, hsome⟩ := Option.bind_eq_some_iff.mp hpush
  rw [fanOut_eq data h.channels] at hsome
  obtain ⟨rfl, rfl⟩ := Prod.mk.inj (Option.some.inj hsome)
  have hsub : ∀ {β : Type} (f : ℕ × ℕ → β),
      ((bl.replicas.filter fun r => (ch r.2).receiving).map f).Sublist (bl.replicas.map f) :=
    fun f => List.filter_sublist.map f
  refine ⟨⟨h.ring.putAll hr, ?_, h.ids.sublist (hsub _), h.channels.sublist (hsub _),
    fun r hr => h.fresh r (List.mem_of_mem_filter hr)⟩, rfl, rfl, rfl⟩
  rw [List.length_append, ← h.offset]

/-- A backlog with room for a byte never panics in `push`. -/
theorem Good.push_isSome (h : bl.Good st) (hc : 1 ≤ bl.capacity) (ch : Channels) (data : Bytes) :
    (bl.push ch data).isSome := by
  obtain ⟨bl', ch', hpush, -⟩ := h.fed.push hc ch data
  rw [hpush]
  rfl

theorem Good.register (h : bl.Good st) {tx : ℕ} (htx : tx ∉ bl.replicas.map Prod.snd) :
    (bl.registerReplica tx).2.Good st where
  ring := h.ring
  offset := h.offset
  ids := by
    rw [registerReplica, List.map_append, List.nodup_append]
    refine ⟨h.ids, by simp, ?_⟩
    rintro a ha b hb rfl
    obtain ⟨r, hr, rfl⟩ := List.mem_map.mp ha
    have hlt := h.fresh r hr
    have heq : r.1 = bl.nextReplicaId := by simpa using hb
    omega
  channels := by
    rw [registerReplica, List.map_append, List.nodup_append]
    refine ⟨h.channels, by simp, ?_⟩
    rintro a ha b hb rfl
    have heq : a = tx := by simpa using hb
    exact htx (heq ▸ ha)
  fresh := fun r hr => by
    rcases List.mem_append.mp hr with hold | hnew
    · exact Nat.lt_succ_of_lt (h.fresh r hold)
    · obtain rfl := List.mem_singleton.mp hnew
      exact Nat.lt_succ_self _

theorem Good.unregister (h : bl.Good st) (id : ℕ) : (bl.unregisterReplica id).Good st where
  ring := h.ring
  offset := h.offset
  ids := h.ids.sublist (List.filter_sublist.map _)
  channels := h.channels.sublist (List.filter_sublist.map _)
  fresh := fun r hr => h.fresh r (List.mem_of_mem_filter hr)

/-- Inside the window, `read_from` is the rest of the stream. -/
theorem Good.readFrom (h : bl.Good st) {o : ℕ} (ho : o ≤ st.length)
    (hw : st.length ≤ o + bl.capacity) : bl.readFrom o = some (st.drop o) :=
  h.fed.readFrom (by omega) ho

/-- Behind the window it is empty, without a sign that bytes are missing. -/
theorem Good.readFrom_behind (h : bl.Good st) {o : ℕ} (hw : o + bl.capacity < st.length) :
    bl.readFrom o = some [] := by
  rw [ReplBacklog.readFrom, if_pos (Or.inl (by rw [h.offset]; omega))]

/-! ### A backlog in use -/

/-- What happens to a backlog: writes arrive, replicas come and go, and the receiving ends of the
channels take messages or are dropped at any time. -/
inductive Event where
  | push (data : Bytes)
  | register (tx : ℕ)
  | unregister (id : ℕ)
  | receivers (ch : Channels)

/-- One event. -/
def step (s : ReplBacklog × Channels) : Event → Option (ReplBacklog × Channels)
  | .push data => s.1.push s.2 data
  | .register tx => some ((s.1.registerReplica tx).2, s.2)
  | .unregister id => some (s.1.unregisterReplica id, s.2)
  | .receivers ch => some (s.1, ch)

/-- The bytes an event writes. -/
def Event.pushed : Event → Bytes
  | .push data => data
  | .register _ => []
  | .unregister _ => []
  | .receivers _ => []

/-- Every event is possible, and leaves the backlog fed with the bytes it writes. -/
theorem Fed.step (h : Fed capacity bl st) (hc : 1 ≤ capacity) (ch : Channels) (e : Event) :
    ∃ s', ReplBacklog.step (bl, ch) e = some s' ∧ Fed capacity s'.1 (st ++ e.pushed) := by
  have hnone : Fed capacity bl (st ++ []) := by rwa [List.append_nil]
  cases e with
  | push data =>
    obtain ⟨bl', ch', hpush, hfed⟩ := h.push hc ch data
    exact ⟨(bl', ch'), hpush, hfed⟩
  | register tx => exact ⟨_, rfl, hnone.size, hnone.ring, hnone.offset⟩
  | unregister id => exact ⟨_, rfl, hnone.size, hnone.ring, hnone.offset⟩
  | receivers ch' => exact ⟨_, rfl, hnone⟩

/-- **The window.** However writes are cut into pushes, and whatever replicas do in between, a
backlog with room for a byte counts the bytes written, serves exactly the offsets of the last
`capacity` of them, and from each of these reads the rest of the stream. -/
theorem run_serves_window (capacity : ℕ) (hc : 1 ≤ capacity) (es : List Event) (ch : Channels) :
    ∃ bl ch', Run.run step (new capacity, ch) es = some (bl, ch') ∧
      bl.globalOffset = (es.flatMap Event.pushed).length ∧
      ∀ id o, (bl.canServePartial id id o = true ↔
          (es.flatMap Event.pushed).length - capacity ≤ o ∧
            o ≤ (es.flatMap Event.pushed).length) ∧
        (bl.canServePartial id id o = true →
          bl.readFrom o = some ((es.flatMap Event.pushed).drop o)) := by
  have hnew : Fed capacity (new capacity) ([].flatMap Event.pushed) :=
    ⟨rfl, (good_new capacity).ring, rfl⟩
  have hstep : ∀ past s e, Fed capacity s.1 (past.flatMap Event.pushed) →
      ∃ s', step s e = some s' ∧ Fed capacity s'.1 ((past ++ [e]).flatMap Event.pushed) := by
    intro past s e h
    rw [List.flatMap_append, List.flatMap_singleton]
    exact Fed.step h hc s.2 e
  obtain ⟨⟨bl, ch'⟩, hrun, hfed⟩ := Run.run_total hstep [] es (s := (new capacity, ch)) hnew
  rw [List.nil_append] at hfed
  refine ⟨bl, ch', hrun, hfed.offset, fun id o => ⟨hfed.canServePartial id o, fun hserve => ?_⟩⟩
  obtain ⟨hwindow, ho⟩ := (hfed.canServePartial id o).mp hserve
  exact hfed.readFrom hwindow ho

/-- Three pushes into a ring of three cells, one of them longer than the ring. -/
theorem three_pushes_serve_window :
    ∃ bl ch', Run.run step (new 3, fun _ => {})
        [.push [97], .push [98, 99, 100, 101], .push [102]] = some (bl, ch') ∧
      bl.globalOffset = 6 ∧ bl.readFrom 4 = some [101, 102] := by
  obtain ⟨bl, ch', hrun, hoffset, hserves⟩ := run_serves_window 3 (by decide)
    [.push [97], .push [98, 99, 100, 101], .push [102]] (fun _ => {})
  refine ⟨bl, ch', hrun, hoffset, ?_⟩
  exact (hserves "" 4).2 ((hserves "" 4).1.mpr (by decide))

end ReplBacklog

end VeloDB
