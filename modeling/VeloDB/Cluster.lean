import VeloDB.Cmd.Table
import Mathlib.Data.List.Sort
import Mathlib.Order.Interval.Set.OrdConnected

/-!
# Hash slots of a cluster

A node keeps a map from hash slots to nodes. Of a command on a key of another node
`check_slot_redirect` says `MOVED` and the address of that node, and `cluster_slots_response`
announces the slots of the node as one range, from the first one to the last. The first is right
whatever ranges have been assigned, to whom and in which order. The second promises too much as soon
as another node owns a slot in between, and a client that believes it would be sent away.

The server calls neither `assign_range` nor `check_slot_redirect`. A `CLUSTER SLOTS` makes a state
of its own, in which the node owns all slots, so that its announcement is right, and no command is
answered with `MOVED`.

## Main results

* `SlotMap.assignRange_eq_some_iff`, `getSlot_of_assigned` — the last assignment of a slot counts
* `redirects_of_assignments` — redirects and announcements after assignments
* `redirects_to_owner` — the same, and what `CLUSTER SLOTS` announces
-/

namespace VeloDB

open Rust

/-- `SlotState`. -/
inductive SlotState
  | assigned (nodeId addr : String)
  | migrating (source target : String)
  | importing (source : String)
  | unassigned
  deriving DecidableEq

/-- `SlotMap`. -/
structure SlotMap where
  slots : List SlotState
  version : UInt64

namespace SlotMap

/-- `SlotMap::new`. -/
def new : SlotMap := ⟨List.replicate Cmd.slotCount .unassigned, 0⟩

/-- `SlotMap::assign_range`. A slot that is not there is a panic. -/
def assignRange (m : SlotMap) (nodeId addr : String) (start stop : ℕ) : Option SlotMap := do
  let slots ← (List.range' start (stop + 1 - start)).foldlM
    (fun slots slot => if slot < slots.length then some (slots.set slot (.assigned nodeId addr))
      else none) m.slots
  pure ⟨slots, m.version + 1⟩

/-- `SlotMap::get_slot`. -/
def getSlot (m : SlotMap) (slot : ℕ) : Option SlotState := m.slots[slot]?

/-- `SlotMap::move_slot`. -/
def moveSlot (m : SlotMap) (slot : ℕ) : Option (Option String) :=
  (m.getSlot slot).map fun s => match s with
    | .assigned _ addr => some addr
    | .migrating _ target => some target
    | _ => none

/-- `SlotMap::owned_slots`. -/
def ownedSlots (m : SlotMap) (nodeId : String) : List ℕ :=
  (m.slots.zipIdx.filter fun p => match p.1 with
    | .assigned id _ => id = nodeId
    | _ => false).map Prod.snd

end SlotMap

/-- `ClusterState`. -/
structure ClusterState where
  nodeId : String
  nodeAddr : String
  clusterPort : ℕ
  slotMap : SlotMap
  peers : HashMap String String

namespace ClusterState

/-- `ClusterState::new`. -/
def new (nodeId nodeAddr : String) (clusterPort : ℕ) : Option ClusterState := do
  let slotMap ← SlotMap.new.assignRange nodeId nodeAddr 0 (Cmd.slotCount - 1)
  pure ⟨nodeId, nodeAddr, clusterPort, slotMap, ∅⟩

/-- `add_peer`. -/
def addPeer (s : ClusterState) (nodeId addr : String) : ClusterState :=
  { s with peers := s.peers.insert nodeId addr }

/-- `remove_peer`. -/
def removePeer (s : ClusterState) (nodeId : String) : ClusterState :=
  { s with peers := s.peers.erase nodeId }

/-- `check_slot_redirect`. The first key of every command is taken to be its first argument. -/
def checkSlotRedirect (H : Host) (s : ClusterState) (_ : String) : List Bytes → Option RespValue
  | [] => none
  | key :: _ =>
    let slot := Cmd.slotForKey H key
    match s.slotMap.getSlot slot with
    | some (.assigned nodeId addr) =>
      if nodeId = s.nodeId then none
      else some (.error ("MOVED " ++ toString slot ++ " " ++ addr))
    | some (.migrating _ target) => some (.error ("MOVED " ++ toString slot ++ " " ++ target))
    | _ => none

/-- The host of an address: `split(':').next()`. -/
def hostOf (addr : String) : String := (splitOnce ':' addr).1

/-- `cluster_slots_response`. -/
def clusterSlotsResponse (s : ClusterState) : RespValue :=
  let owned := s.slotMap.ownedSlots s.nodeId
  .array (some (if owned = [] then [] else [.array (some [
    .count (owned.head?.getD 0), .count (owned.getLast?.getD 0),
    .array (some [.bulk (asBytes (hostOf s.nodeAddr)), .count s.clusterPort])])]))

/-- `owned_slots_range`. -/
def ownedSlotsRange (s : ClusterState) : String :=
  let owned := s.slotMap.ownedSlots s.nodeId
  if owned = [] then ""
  else toString (owned.head?.getD 0) ++ "-" ++ toString (owned.getLast?.getD 0)

/-- `cluster_nodes_response`. -/
def clusterNodesResponse (s : ClusterState) : RespValue :=
  .bulk (asBytes (s.peers.pairs.foldl (fun info p => info ++ p.1 ++ " " ++ p.2 ++ ":6379@" ++
      toString s.clusterPort ++ " slave - 0 0 0 connected\n")
    (s.nodeId ++ " " ++ hostOf s.nodeAddr ++ ":6379@" ++ toString s.clusterPort ++
      " master - 0 0 0 connected " ++ s.ownedSlotsRange ++ "\n")))

end ClusterState

/-! ### Assignments -/

/-- A range and the node that it is given to. -/
structure Assignment where
  nodeId : String
  addr : String
  start : ℕ
  stop : ℕ
  deriving DecidableEq

namespace Assignment

/-- The slot is in the range. -/
def Covers (a : Assignment) (slot : ℕ) : Prop := a.start ≤ slot ∧ slot ≤ a.stop

instance (a : Assignment) (slot : ℕ) : Decidable (a.Covers slot) :=
  inferInstanceAs (Decidable (_ ∧ _))

/-- What it makes of a slot. -/
def state (a : Assignment) : SlotState := .assigned a.nodeId a.addr

end Assignment

namespace SlotMap

/-- An assignment, carried out. -/
def assign (m : SlotMap) (a : Assignment) : Option SlotMap :=
  m.assignRange a.nodeId a.addr a.start a.stop

theorem assignLoop {state : SlotState} {n start : ℕ} {slots slots' : List SlotState}
    (h : (List.range' start n).foldlM (fun slots slot =>
      if slot < slots.length then some (slots.set slot state) else none) slots = some slots')
    (slot : ℕ) :
    slots'[slot]? = if start ≤ slot ∧ slot < start + n then some state else slots[slot]? := by
  induction n generalizing start slots with
  | zero =>
    obtain rfl := Option.some.inj h
    rw [if_neg (by omega)]
  | succ n ih =>
    rw [List.range'_succ, List.foldlM_cons] at h
    split_ifs at h with hlt
    · rw [ih h, List.getElem?_set]
      by_cases hslot : start = slot
      · subst hslot
        rw [if_neg (by omega), if_pos rfl, if_pos hlt, if_pos (by omega)]
      · rw [if_neg hslot]
        exact if_congr (by omega) rfl rfl
    · cases h

theorem exists_assignLoop (state : SlotState) {n start : ℕ} {slots : List SlotState}
    (h : start + n ≤ slots.length) : ∃ slots', (List.range' start n).foldlM (fun slots slot =>
      if slot < slots.length then some (slots.set slot state) else none) slots = some slots' := by
  induction n generalizing start slots with
  | zero => exact ⟨slots, rfl⟩
  | succ n ih =>
    rw [List.range'_succ, List.foldlM_cons, if_pos (by omega)]
    exact ih (by rw [List.length_set]; omega)

/-- Ranges of slots that are there are assigned without a panic. -/
theorem exists_assign {m : SlotMap} {a : Assignment} (hstart : a.start ≤ a.stop)
    (hstop : a.stop < m.slots.length) : ∃ m', m.assign a = some m' := by
  have hfits : a.start + (a.stop + 1 - a.start) ≤ m.slots.length := by omega
  obtain ⟨slots, h⟩ := exists_assignLoop a.state hfits
  exact ⟨⟨slots, m.version + 1⟩, Option.bind_eq_some_iff.mpr ⟨slots, h, rfl⟩⟩

theorem length_assignLoop {state : SlotState} {l : List ℕ} {slots slots' : List SlotState}
    (h : l.foldlM (fun slots slot =>
      if slot < slots.length then some (slots.set slot state) else none) slots = some slots') :
    slots'.length = slots.length := by
  induction l generalizing slots with
  | nil =>
    obtain rfl := Option.some.inj h
    rfl
  | cons slot l ih =>
    rw [List.foldlM_cons] at h
    split_ifs at h with hlt
    · exact (ih h).trans (List.length_set ..)
    · cases h

theorem length_assign {m m' : SlotMap} {a : Assignment} (h : m.assign a = some m') :
    m'.slots.length = m.slots.length := by
  obtain ⟨slots, hslots, hm'⟩ := Option.bind_eq_some_iff.mp h
  obtain rfl := Option.some.inj hm'
  exact length_assignLoop hslots

theorem length_assigned {as : List Assignment} {m m' : SlotMap}
    (h : as.foldlM assign m = some m') : m'.slots.length = m.slots.length := by
  induction as generalizing m with
  | nil =>
    obtain rfl := Option.some.inj h
    rfl
  | cons a as ih =>
    obtain ⟨m₁, hassign, hrest⟩ := Option.bind_eq_some_iff.mp h
    exact (ih hrest).trans (length_assign hassign)

/-- **One assignment.** -/
theorem getSlot_assign {m m' : SlotMap} {a : Assignment} (h : m.assign a = some m') (slot : ℕ) :
    m'.getSlot slot = if a.Covers slot then some a.state else m.getSlot slot := by
  obtain ⟨slots, hslots, hm'⟩ := Option.bind_eq_some_iff.mp h
  obtain rfl := Option.some.inj hm'
  rw [getSlot, assignLoop hslots]
  exact if_congr (by rw [Assignment.Covers]; omega) rfl rfl

/-- The last of the assignments that cover a slot. -/
def owner (as : List Assignment) (slot : ℕ) : Option Assignment :=
  as.reverse.find? fun a => a.Covers slot

/-- **The last assignment of a slot counts.** -/
theorem getSlot_of_assigned {as : List Assignment} {m m' : SlotMap}
    (h : as.foldlM assign m = some m') (slot : ℕ) :
    m'.getSlot slot = ((owner as slot).map Assignment.state).or (m.getSlot slot) := by
  induction as generalizing m with
  | nil =>
    obtain rfl := Option.some.inj h
    rfl
  | cons a as ih =>
    obtain ⟨m₁, hassign, hrest⟩ := Option.bind_eq_some_iff.mp h
    rw [ih hrest, getSlot_assign hassign, owner, owner, List.reverse_cons, List.find?_append]
    cases as.reverse.find? fun a => a.Covers slot with
    | some b => rfl
    | none =>
      by_cases hcovers : a.Covers slot
      · simp [hcovers]
      · simp [hcovers]

theorem mem_ownedSlots {m : SlotMap} {nodeId : String} {slot : ℕ} :
    slot ∈ m.ownedSlots nodeId ↔ ∃ addr, m.getSlot slot = some (.assigned nodeId addr) := by
  rw [ownedSlots, getSlot, List.mem_map]
  constructor
  · rintro ⟨⟨state, slot⟩, hfilter, rfl⟩
    obtain ⟨hmem, howned⟩ := List.mem_filter.mp hfilter
    rw [List.mk_mem_zipIdx_iff_getElem?] at hmem
    cases state with
    | assigned id addr =>
      obtain rfl : id = nodeId := of_decide_eq_true howned
      exact ⟨addr, hmem⟩
    | _ => cases howned
  · rintro ⟨addr, h⟩
    refine ⟨(.assigned nodeId addr, slot), List.mem_filter.mpr ⟨?_, ?_⟩, rfl⟩
    · rwa [List.mk_mem_zipIdx_iff_getElem?]
    · exact decide_eq_true rfl

/-- The slots of a node are listed in increasing order. -/
theorem pairwise_ownedSlots (m : SlotMap) (nodeId : String) :
    (m.ownedSlots nodeId).Pairwise (· < ·) := by
  have hall : (m.slots.zipIdx.map Prod.snd).Pairwise (· < ·) := by
    rw [List.zipIdx_map_snd, ← List.range_eq_range']
    exact List.pairwise_lt_range
  exact hall.sublist (List.filter_sublist.map _)

end SlotMap

/-! ### Redirects and announcements -/

namespace ClusterState

/-- An assignment, carried out. -/
def assign (s : ClusterState) (a : Assignment) : Option ClusterState := do
  let slotMap ← s.slotMap.assign a
  pure { s with slotMap }

theorem foldlM_assign {as : List Assignment} {s s' : ClusterState}
    (h : as.foldlM assign s = some s') :
    s'.nodeId = s.nodeId ∧ as.foldlM SlotMap.assign s.slotMap = some s'.slotMap := by
  induction as generalizing s with
  | nil =>
    obtain rfl := Option.some.inj h
    exact ⟨rfl, rfl⟩
  | cons a as ih =>
    obtain ⟨s₁, hassign, hrest⟩ := Option.bind_eq_some_iff.mp h
    obtain ⟨m, hm, hs₁⟩ := Option.bind_eq_some_iff.mp hassign
    obtain rfl := Option.some.inj hs₁
    obtain ⟨hid, hfold⟩ := ih hrest
    exact ⟨hid, Option.bind_eq_some_iff.mpr ⟨m, hm, hfold⟩⟩

/-- The assignment that a node starts with. -/
def whole (nodeId nodeAddr : String) : Assignment := ⟨nodeId, nodeAddr, 0, Cmd.slotCount - 1⟩

/-- `CLUSTER SLOTS` has a range with the slot in it. -/
def Announces (s : ClusterState) (slot : ℕ) : Prop :=
  ∃ first last host, s.clusterSlotsResponse
      = .array (some [.array (some [.integer first, .integer last, host])]) ∧
    first.toInt ≤ slot ∧ (slot : ℤ) ≤ last.toInt

/-- The announced range is the one from the first slot of the node to its last. -/
theorem announces_iff {s : ClusterState} (hlen : s.slotMap.slots.length < 2 ^ 63) (slot : ℕ) :
    s.Announces slot ↔ ∃ first ∈ s.slotMap.ownedSlots s.nodeId,
      ∃ last ∈ s.slotMap.ownedSlots s.nodeId, first ≤ slot ∧ slot ≤ last := by
  have hbound : ∀ n ∈ s.slotMap.ownedSlots s.nodeId, (Int64.ofNat n).toInt = n := by
    intro n hn
    obtain ⟨addr, hget⟩ := SlotMap.mem_ownedSlots.mp hn
    obtain ⟨hn, -⟩ := List.getElem?_eq_some_iff.mp hget
    exact Int64.toInt_ofNat_of_lt (hn.trans hlen)
  have hsorted := s.slotMap.pairwise_ownedSlots s.nodeId
  rw [Announces, clusterSlotsResponse]
  generalize s.slotMap.ownedSlots s.nodeId = owned at hbound hsorted ⊢
  cases hhead : owned.head? with
  | none =>
    obtain rfl := List.head?_eq_none_iff.mp hhead
    simp
  | some f =>
    have hf := List.mem_of_mem_head? hhead
    obtain ⟨l, hlast⟩ : ∃ l, owned.getLast? = some l :=
      ⟨_, List.getLast?_eq_some_getLast (List.ne_nil_of_mem hf)⟩
    have hl := List.mem_of_mem_getLast? hlast
    have hfirst : ∀ n ∈ owned, f ≤ n := by
      obtain ⟨rest, rfl⟩ := List.head?_eq_some_iff.mp hhead
      rw [List.pairwise_cons] at hsorted
      intro n hn
      rcases List.mem_cons.mp hn with rfl | hn
      · exact le_rfl
      · exact (hsorted.1 n hn).le
    have hend : ∀ n ∈ owned, n ≤ l := by
      obtain ⟨rest, rfl⟩ := List.getLast?_eq_some_iff.mp hlast
      rw [List.pairwise_append] at hsorted
      intro n hn
      rcases List.mem_append.mp hn with hn | hn
      · exact (hsorted.2.2 n hn l List.mem_cons_self).le
      · exact (List.mem_singleton.mp hn).le
    rw [if_neg (List.ne_nil_of_mem hf), hlast]
    simp only [Option.getD_some, RespValue.count]
    constructor
    · rintro ⟨first, last, host, hreply, hlow, hhigh⟩
      simp only [RespValue.array.injEq, Option.some.injEq, List.cons.injEq, RespValue.integer.injEq,
        and_true] at hreply
      obtain ⟨rfl, rfl, -⟩ := hreply
      rw [hbound f hf] at hlow
      rw [hbound l hl] at hhigh
      exact ⟨f, hf, l, hl, by omega, by omega⟩
    · rintro ⟨first, hfmem, last, hlmem, hlow, hhigh⟩
      refine ⟨_, _, _, rfl, ?_, ?_⟩
      · rw [hbound f hf]
        exact_mod_cast (hfirst first hfmem).trans hlow
      · rw [hbound l hl]
        exact_mod_cast hhigh.trans (hend last hlmem)

/-- What a node knows after assignments: every slot has an owner. -/
theorem getSlot_of_assignments {nodeId nodeAddr : String} {clusterPort : ℕ} {as : List Assignment}
    {s : ClusterState}
    (h : (new nodeId nodeAddr clusterPort >>= fun s => as.foldlM assign s) = some s) :
    s.nodeId = nodeId ∧ s.slotMap.slots.length = Cmd.slotCount ∧ ∀ slot < Cmd.slotCount,
      ∃ a, SlotMap.owner (whole nodeId nodeAddr :: as) slot = some a ∧
        s.slotMap.getSlot slot = some a.state := by
  obtain ⟨s₀, hnew, hrest⟩ := Option.bind_eq_some_iff.mp h
  rw [new, Option.bind_eq_bind, Option.bind_eq_some_iff] at hnew
  obtain ⟨m, hm, hs₀⟩ := hnew
  rw [Option.pure_def, Option.some.injEq] at hs₀
  subst hs₀
  obtain ⟨hid, hfold⟩ := foldlM_assign hrest
  have hall : (whole nodeId nodeAddr :: as).foldlM SlotMap.assign SlotMap.new = some s.slotMap := by
    rw [List.foldlM_cons, Option.bind_eq_bind, Option.bind_eq_some_iff]
    exact ⟨m, hm, hfold⟩
  have hlen : s.slotMap.slots.length = Cmd.slotCount := by
    rw [SlotMap.length_assigned hall, SlotMap.new, List.length_replicate]
  refine ⟨hid, hlen, fun slot hslot => ?_⟩
  cases howner : SlotMap.owner (whole nodeId nodeAddr :: as) slot with
  | none =>
    have hnot := List.find?_eq_none.mp howner (whole nodeId nodeAddr) (by simp)
    exact absurd (decide_eq_true ⟨Nat.zero_le _, by simp only [whole]; omega⟩) hnot
  | some a =>
    refine ⟨a, rfl, ?_⟩
    rw [SlotMap.getSlot_of_assigned hall, howner]
    rfl

/-- **Redirects and announcements** of a state, whatever ranges have been assigned to whomever. -/
theorem redirects_of_assignments (H : Host) {nodeId nodeAddr : String} {clusterPort : ℕ}
    {as : List Assignment} {s : ClusterState}
    (h : (new nodeId nodeAddr clusterPort >>= fun s => as.foldlM assign s) = some s) :
    (∀ name key rest, ∃ a,
      SlotMap.owner (whole nodeId nodeAddr :: as) (Cmd.slotForKey H key) = some a ∧
      s.checkSlotRedirect H name (key :: rest) = if a.nodeId = nodeId then none
        else some (.error ("MOVED " ++ toString (Cmd.slotForKey H key) ++ " " ++ a.addr))) ∧
    (∀ name key rest, s.checkSlotRedirect H name (key :: rest) = none →
      s.Announces (Cmd.slotForKey H key)) ∧
    ((∀ slot, s.Announces slot → slot ∈ s.slotMap.ownedSlots nodeId) ↔
      {slot | slot ∈ s.slotMap.ownedSlots nodeId}.OrdConnected) := by
  obtain ⟨rfl, hlen, hget⟩ := getSlot_of_assignments h
  have hannounces := announces_iff (s := s) (hlen ▸ by decide)
  have hslot : ∀ key, Cmd.slotForKey H key < Cmd.slotCount := fun key => Nat.mod_lt _ (by decide)
  have hredirect : ∀ name key rest, ∃ a,
      SlotMap.owner (whole s.nodeId nodeAddr :: as) (Cmd.slotForKey H key) = some a ∧
      s.slotMap.getSlot (Cmd.slotForKey H key) = some a.state ∧
      s.checkSlotRedirect H name (key :: rest) = if a.nodeId = s.nodeId then none
        else some (.error ("MOVED " ++ toString (Cmd.slotForKey H key) ++ " " ++ a.addr)) := by
    intro name key rest
    obtain ⟨a, howner, hstate⟩ := hget _ (hslot key)
    refine ⟨a, howner, hstate, ?_⟩
    rw [checkSlotRedirect, hstate]
    rfl
  refine ⟨fun name key rest => ?_, fun name key rest hnone => ?_, ?_⟩
  · obtain ⟨a, howner, -, hreply⟩ := hredirect name key rest
    exact ⟨a, howner, hreply⟩
  · obtain ⟨a, -, hstate, hreply⟩ := hredirect name key rest
    rw [hreply] at hnone
    split_ifs at hnone with hown
    have howned : Cmd.slotForKey H key ∈ s.slotMap.ownedSlots s.nodeId :=
      SlotMap.mem_ownedSlots.mpr ⟨a.addr, by rw [hstate, Assignment.state, hown]⟩
    exact (hannounces _).mpr ⟨_, howned, _, howned, le_rfl, le_rfl⟩
  · rw [Set.ordConnected_def]
    constructor
    · intro hserved first hfirst last hlast slot hmem
      exact hserved slot ((hannounces slot).mpr ⟨first, hfirst, last, hlast, hmem.1, hmem.2⟩)
    · intro hconnected slot hslot
      obtain ⟨first, hfirst, last, hlast, hlow, hhigh⟩ := (hannounces slot).mp hslot
      exact hconnected hfirst hlast ⟨hlow, hhigh⟩

/-- Ranges of slots that are there. -/
theorem exists_foldlM_assign {as : List Assignment} {s : ClusterState}
    (h : ∀ a ∈ as, a.start ≤ a.stop ∧ a.stop < s.slotMap.slots.length) :
    ∃ s', as.foldlM assign s = some s' := by
  induction as generalizing s with
  | nil => exact ⟨s, rfl⟩
  | cons a as ih =>
    rw [List.forall_mem_cons] at h
    obtain ⟨m, hm⟩ := SlotMap.exists_assign h.1.1 h.1.2
    have hassign : s.assign a = some { s with slotMap := m } :=
      Option.bind_eq_some_iff.mpr ⟨m, hm, rfl⟩
    rw [List.foldlM_cons, hassign]
    exact ih fun b hb => ⟨(h.2 b hb).1, SlotMap.length_assign hm ▸ (h.2 b hb).2⟩

end ClusterState

/-! ### The command -/

namespace ClusterState

/-- A node starts as the owner of all slots. -/
theorem ownedSlots_new {nodeId nodeAddr : String} {clusterPort : ℕ} {s : ClusterState}
    (h : new nodeId nodeAddr clusterPort = some s) :
    s.slotMap.ownedSlots nodeId = List.range Cmd.slotCount := by
  have hrun : (new nodeId nodeAddr clusterPort >>= fun s => [].foldlM assign s) = some s :=
    Option.bind_eq_some_iff.mpr ⟨s, h, rfl⟩
  obtain ⟨-, hlen, hget⟩ := getSlot_of_assignments hrun
  refine (s.slotMap.pairwise_ownedSlots nodeId).eq_of_mem_iff List.pairwise_lt_range fun slot => ?_
  rw [SlotMap.mem_ownedSlots, List.mem_range]
  constructor
  · rintro ⟨addr, hslot⟩
    exact hlen ▸ (List.getElem?_eq_some_iff.mp hslot).1
  · intro hslot
    obtain ⟨a, howner, hstate⟩ := hget slot hslot
    obtain rfl : a = whole nodeId nodeAddr :=
      List.mem_singleton.mp (List.mem_reverse.mp (List.mem_of_find?_eq_some howner))
    exact ⟨nodeAddr, hstate⟩

end ClusterState

variable {env : Env} {sub : Bytes}

/-- **`CLUSTER SLOTS` and `CLUSTER NODES`** describe a node that has just started. -/
theorem clusterCmd_of_new {s : ClusterState}
    (h : ClusterState.new "node-unknown" "127.0.0.1" 16379 = some s) (dbs : Databases) (i : ℕ)
    (rest : List Bytes) :
    (upper env sub = "SLOTS" →
      Cmd.clusterCmd env dbs i (sub :: rest) = .ok s.clusterSlotsResponse) ∧
    (upper env sub = "NODES" →
      Cmd.clusterCmd env dbs i (sub :: rest) = .ok s.clusterNodesResponse) := by
  have howned := ClusterState.ownedSlots_new h
  have hhost : ClusterState.hostOf "127.0.0.1" = "127.0.0.1" := by decide
  have hne : List.range Cmd.slotCount ≠ [] := by simp [Cmd.slotCount]
  have hhead : (List.range Cmd.slotCount).head? = some 0 := by
    rw [List.head?_range]
    rfl
  have hlast : (List.range Cmd.slotCount).getLast? = some (Cmd.slotCount - 1) := by
    rw [List.getLast?_range]
    rfl
  rw [ClusterState.new, Option.bind_eq_bind, Option.bind_eq_some_iff] at h
  obtain ⟨m, -, hs⟩ := h
  rw [Option.pure_def, Option.some.injEq] at hs
  subst hs
  constructor
  · intro hsub
    rw [ClusterState.clusterSlotsResponse, howned, hhead, hlast, if_neg hne, hhost,
      Cmd.clusterCmd.eq_def]
    simp only [hsub, if_true]
    rfl
  · intro hsub
    rw [ClusterState.clusterNodesResponse, ClusterState.ownedSlotsRange, howned, hhead, hlast,
      if_neg hne, hhost, Cmd.clusterCmd.eq_def]
    simp only [hsub, if_true]
    rw [if_neg (by decide)]
    refine congrArg (fun info => Except.ok (RespValue.bulk (asBytes info))) ?_
    decide +kernel

namespace ClusterState

/-- **Redirects and announcements.** Whatever ranges have been assigned to a state since it was
made: a key is sent away if and only if the last assignment of its slot was to another node, and to
the address that was given there. What is not sent away has been announced. All that is announced is
served if and only if the slots of the node have no gap. `CLUSTER SLOTS` answers for a state without
assignments, which sends no key away. -/
theorem redirects_to_owner (H : Host) :
    (∀ {nodeId nodeAddr : String} {clusterPort : ℕ} {as : List Assignment} {s : ClusterState},
      (new nodeId nodeAddr clusterPort >>= fun s => as.foldlM assign s) = some s →
      (∀ name key rest, ∃ a,
        SlotMap.owner (whole nodeId nodeAddr :: as) (Cmd.slotForKey H key) = some a ∧
        s.checkSlotRedirect H name (key :: rest) = if a.nodeId = nodeId then none
          else some (.error ("MOVED " ++ toString (Cmd.slotForKey H key) ++ " " ++ a.addr))) ∧
      (∀ name key rest, s.checkSlotRedirect H name (key :: rest) = none →
        s.Announces (Cmd.slotForKey H key)) ∧
      ((∀ slot, s.Announces slot → slot ∈ s.slotMap.ownedSlots nodeId) ↔
        {slot | slot ∈ s.slotMap.ownedSlots nodeId}.OrdConnected)) ∧
    ∃ s, new "node-unknown" "127.0.0.1" 16379 = some s ∧
      (∀ env dbs i sub rest, upper env sub = "SLOTS" →
        Cmd.clusterCmd env dbs i (sub :: rest) = .ok s.clusterSlotsResponse) ∧
      ∀ name key rest, s.checkSlotRedirect H name (key :: rest) = none ∧
        s.Announces (Cmd.slotForKey H key) := by
  refine ⟨redirects_of_assignments H, ?_⟩
  have hslots : SlotMap.new.slots.length = Cmd.slotCount := List.length_replicate
  obtain ⟨m, hm⟩ := SlotMap.exists_assign (m := SlotMap.new)
    (a := whole "node-unknown" "127.0.0.1") (Nat.zero_le _)
    (hslots ▸ Nat.sub_one_lt (by decide))
  obtain ⟨s, hs⟩ : ∃ s, new "node-unknown" "127.0.0.1" 16379 = some s := by
    refine ⟨⟨"node-unknown", "127.0.0.1", 16379, m, ∅⟩, ?_⟩
    rw [new, Option.bind_eq_bind, Option.bind_eq_some_iff]
    exact ⟨m, hm, rfl⟩
  have hrun : (new "node-unknown" "127.0.0.1" 16379 >>= fun s => [].foldlM assign s) = some s :=
    Option.bind_eq_some_iff.mpr ⟨s, hs, rfl⟩
  obtain ⟨hredirect, hannounced, -⟩ := redirects_of_assignments H hrun
  have hnone : ∀ name key rest, s.checkSlotRedirect H name (key :: rest) = none := by
    intro name key rest
    obtain ⟨a, howner, hreply⟩ := hredirect name key rest
    obtain rfl : a = whole "node-unknown" "127.0.0.1" :=
      List.mem_singleton.mp (List.mem_reverse.mp (List.mem_of_find?_eq_some howner))
    rw [hreply]
    exact if_pos rfl
  exact ⟨s, hs, fun env dbs i sub rest => (clusterCmd_of_new hs dbs i rest).1,
    fun name key rest => ⟨hnone name key rest, hannounced name key rest (hnone name key rest)⟩⟩

/-- A range that is given to another node, and the first slot of it back. -/
def movedAndBack : List Assignment :=
  [⟨"b", "10.0.0.2:6379", 0, 4095⟩, ⟨"a", "10.0.0.1:6379", 0, 0⟩]

theorem redirects_to_owner_back :
    ∃ s, (new "a" "10.0.0.1:6379" 16379 >>= fun s => movedAndBack.foldlM assign s) = some s ∧
      s.Announces (Cmd.slotForKey Host.plain [107]) := by
  have hslots : SlotMap.new.slots.length = Cmd.slotCount := List.length_replicate
  obtain ⟨m, hm⟩ := SlotMap.exists_assign (m := SlotMap.new) (a := whole "a" "10.0.0.1:6379")
    (Nat.zero_le _) (hslots ▸ Nat.sub_one_lt (by decide))
  have hnew : new "a" "10.0.0.1:6379" 16379 = some ⟨"a", "10.0.0.1:6379", 16379, m, ∅⟩ := by
    rw [new, Option.bind_eq_bind, Option.bind_eq_some_iff]
    exact ⟨m, hm, rfl⟩
  have hranges : ∀ a ∈ movedAndBack, a.start ≤ a.stop ∧ a.stop < m.slots.length := by
    rw [SlotMap.length_assign hm, hslots]
    decide
  obtain ⟨s, hs⟩ := exists_foldlM_assign (s := ⟨"a", "10.0.0.1:6379", 16379, m, ∅⟩) hranges
  have hrun : (new "a" "10.0.0.1:6379" 16379 >>= fun s => movedAndBack.foldlM assign s)
      = some s := by
    rw [hnew]
    exact hs
  obtain ⟨hredirect, hannounced, -⟩ := (redirects_to_owner Host.plain).1 hrun
  refine ⟨s, hrun, hannounced "GET" [107] [] ?_⟩
  obtain ⟨a, howner, hreply⟩ := hredirect "GET" [107] []
  obtain rfl : a = ⟨"a", "10.0.0.1:6379", 0, 0⟩ := by
    refine Option.some.inj (howner.symm.trans ?_)
    decide +kernel
  rw [hreply, if_pos rfl]

end ClusterState

end VeloDB
