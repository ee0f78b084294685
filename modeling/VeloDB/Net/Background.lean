import VeloDB.Cmd.Apart
import VeloDB.Cmd.GroupLife
import VeloDB.Cmd.OutOfMemory
import VeloDB.Cmd.StaleReplies
import VeloDB.Store.ActiveExpiry
import VeloDB.Store.Content
import VeloDB.Store.Eviction

/-!
# Commands and background tasks

Two tasks work on the store besides the commands of the clients. One removes keys that have expired.
The other measures the store, and evicts keys when it is over its limit. They take turns in any
order, and the iterations of the databases are any.

A key with which no command works is there until its deadline and is gone from then on, to the
millisecond, however often the tasks come along; what is asked about it gets the answer that it
would have got at once. Only eviction can take it away.

The memory gate goes by the last measurement. No command opens or closes it, also not from inside a
transaction or a script, and not however much it deletes.

## Main results

* `lives_until_deadline` — keys that are left alone
* `memory_gate` — what the gate goes by
-/

namespace VeloDB

open Rust Proc

/-! ### Tasks -/

/-- `EvictionPolicy::parse`. -/
def EvictionPolicy.parse (s : String) : Option EvictionPolicy :=
  if s = "noeviction" then some .noEviction
  else if s = "allkeys-random" then some .allKeysRandom
  else if s = "volatile-random" then some .volatileRandom
  else none

namespace Store

/-- `Store::configure_memory`. -/
def configureMemory (s : Store) (maxmemory : ℕ) (policy : EvictionPolicy) : Store :=
  { s with tables := { s.tables with maxmemory := maxmemory, evictionPolicy := policy } }

/-- `SAMPLE_SIZE`. -/
def sampleSize : ℕ := 20

/-- One turn of `start_active_expiry_task`. There is fuel enough for the cycle to end. -/
def expiryTask (it : Iteration) (now : UInt64) (s : Store) : Store :=
  ((s.activeExpireCycle it now sampleSize (s.databases.keyCount + 1)).map fun r => r.2.2).getD s

/-- `Store::refresh_memory_usage`. -/
def refreshMemoryUsage (s : Store) : Store :=
  { s with tables := { s.tables with cachedMemoryUsage := s.databases.estimatedMemory } }

/-- One turn of `start_memory_cycle_task`. There is fuel enough for the eviction to end. -/
def memoryTask (it : Iteration) (s : Store) : Store :=
  let limit := s.tables.maxmemory
  if 0 < limit ∧ limit < s.databases.estimatedMemory then
    ((s.refreshMemoryUsage.evictUntilUnder it limit s.tables.evictionPolicy
      (s.databases.keyCount + 1)).map fun r => r.2.2).getD s.refreshMemoryUsage
  else s.refreshMemoryUsage

/-- **Active expiry** removes nothing but what has expired. -/
theorem expiryTask_spec (it : Iteration) (now : UInt64) (s : Store) :
    (s.expiryTask it now).tables = s.tables ∧
      (s.expiryTask it now).databases.length = s.databases.length ∧
      ∀ t, now ≤ t → ∀ i k, (s.expiryTask it now).databases.liveEntry t i k
        = s.databases.liveEntry t i k := by
  obtain ⟨sws, hloop, hfinal⟩ := Sweep.loopAll_returns it now (le_max_right sampleSize 1) 0
    s.databases
  have hresult := Sweep.result_of_final hfinal
  have htask : s.expiryTask it now = ⟨sws.map Sweep.db, s.tables⟩ := by
    rw [expiryTask, activeExpireCycle, hloop _ (Nat.lt_succ_self _)]
    rfl
  refine ⟨by rw [htask], ?_, fun t hnow i k => ?_⟩
  · rw [htask, List.length_map, hfinal.length_eq]
  · rw [htask]
    cases hk : Databases.find (sws.map Sweep.db) i k with
    | some e => rw [Databases.liveEntry, hk, Databases.liveEntry, hresult.kept i k e hk]
    | none =>
      -- what has been removed had expired by then
      have hgone : s.databases.liveEntry now i k = none := by
        rw [← hresult.live i k, Databases.liveEntry, hk]
        rfl
      rw [liveEntry_later hgone hnow, Databases.liveEntry, hk]
      rfl

/-- The memory task evicts. -/
def Evicting (s : Store) : Prop :=
  s.tables.evictionPolicy ≠ .noEviction ∧ 0 < s.tables.maxmemory ∧
    s.tables.maxmemory < s.databases.estimatedMemory

/-- **The memory task** measures, and evicts where it has to. -/
theorem memoryTask_cases (it : Iteration) (s : Store) :
    (¬s.Evicting ∧ s.memoryTask it = s.refreshMemoryUsage) ∨
      s.Evicting ∧ ∃ log, Evicts s.tables.maxmemory s.tables.evictionPolicy s.databases log
          (s.memoryTask it).databases ∧
        (s.memoryTask it).tables = { s.tables with
          cachedMemoryUsage := (s.memoryTask it).databases.estimatedMemory } := by
  by_cases hover : 0 < s.tables.maxmemory ∧ s.tables.maxmemory < s.databases.estimatedMemory
  · by_cases hpolicy : s.tables.evictionPolicy = .noEviction
    · refine Or.inl ⟨fun h => h.1 hpolicy, ?_⟩
      rw [memoryTask, if_pos hover, evictUntilUnder, if_pos hpolicy]
      rfl
    · obtain ⟨evicted, log, s', hevict, hresult⟩ := evictUntilUnder_returns it
        s.tables.maxmemory hpolicy s.refreshMemoryUsage
      have hrun := hevict (s.databases.keyCount + 1) (Nat.lt_succ_self _)
      have htask : s.memoryTask it = s' := by
        rw [memoryTask, if_pos hover, hrun]
        rfl
      refine Or.inr ⟨⟨hpolicy, hover⟩, log, htask ▸ hresult.evicts, ?_⟩
      rw [htask, ← hresult.cached]
      rw [evictUntilUnder, if_neg hpolicy] at hrun
      obtain ⟨st, -, hst⟩ := Option.map_eq_some_iff.mp hrun
      rw [← (Prod.mk.inj (Prod.mk.inj hst).2).2]
      rfl
  · refine Or.inl ⟨fun h => hover h.2, ?_⟩
    rw [memoryTask, if_neg hover]

end Store

/-- Where no entry is a candidate, nothing is evicted. -/
theorem Evicts.eq_of_spared {target : ℕ} {policy : EvictionPolicy} {dbs dbs' : Databases}
    {log : List (ℕ × Bytes)} (h : Evicts target policy dbs log dbs')
    (hspared : ∀ i k e, dbs.find i k = some e → policy.candidate e = false) : dbs' = dbs := by
  cases h with
  | nil => rfl
  | snoc hbefore _ he hcandidate =>
    rw [hspared _ _ _ (hbefore.find_of_find he)] at hcandidate
    cases hcandidate

namespace Store

variable {s : Store}

/-- The memory task does not evict, or finds nothing that it may evict. -/
def EvictsNone (s : Store) : Prop :=
  s.Evicting → ∀ i k e, s.databases.find i k = some e → s.tables.evictionPolicy.candidate e = false

theorem memoryTask_of_evictsNone (h : s.EvictsNone) (it : Iteration) :
    (s.memoryTask it).databases = s.databases := by
  rcases s.memoryTask_cases it with ⟨-, htask⟩ | ⟨hevicting, log, hevicts, -⟩
  · rw [htask]
    rfl
  · exact hevicts.eq_of_spared (h hevicting)

theorem expiryTask_of_fresh {now : UInt64}
    (h : ∀ i k e, s.databases.find i k = some e → e.expired now = false) (it : Iteration) :
    s.expiryTask it now = s := by
  rw [expiryTask, activeExpireCycle_of_fresh it _ _ h]
  rfl

end Store

theorem Evicts.length {target : ℕ} {policy : EvictionPolicy} {dbs dbs' : Databases}
    {log : List (ℕ × Bytes)} (h : Evicts target policy dbs log dbs') :
    dbs'.length = dbs.length := by
  induction h with
  | nil => rfl
  | snoc _ _ _ _ ih => rw [Databases.length_remove, ih]

/-! ### The events of a server -/

/-- What happens to the store. -/
inductive StoreTurn
  /-- A client sends a command. -/
  | request (r : Request)
  /-- The expiry task has its turn. -/
  | expiry (it : Iteration) (now : UInt64)
  /-- The memory task has its turn. -/
  | memory (it : Iteration)

namespace StoreTurn

/-- The store after an event. -/
def next (s : Store) : StoreTurn → Store
  | request r => r.next s
  | expiry it now => s.expiryTask it now
  | memory it => s.memoryTask it

/-- The event does not work on the keys `K`, and its clock does not run ahead of `t`. -/
def LeavesAlone (t : UInt64) (K : Set (ℕ × Bytes)) (s : Store) : StoreTurn → Prop
  | request r => r.env.now ≤ t ∧
    ∀ c ∈ calls r.env r.name r.args ⟨s, r.ctx⟩, ∀ x ∈ K, ¬c.WorksOn x
  | expiry _ now => now ≤ t
  | memory _ => s.Evicting → ∀ x ∈ K, ∀ e, s.databases.find x.1 x.2 = some e →
    s.tables.evictionPolicy.candidate e = false

variable {t : UInt64} {K : Set (ℕ × Bytes)} {s : Store} {es : List StoreTurn}

/-- **One event** changes nothing about what it leaves alone. -/
theorem apart_next {e : StoreTurn} (h : e.LeavesAlone t K s) :
    Apart t K s.databases (next s e).databases := by
  cases e with
  | request r => exact apart_dispatch h.1 r.name r.args ⟨s, r.ctx⟩ h.2
  | expiry it now =>
    obtain ⟨-, hlen, hlive⟩ := s.expiryTask_spec it now
    exact ⟨hlen, fun i k _ => hlive t h i k⟩
  | memory it =>
    rcases s.memoryTask_cases it with ⟨-, htask⟩ | ⟨hevicting, log, hevicts, -⟩
    · rw [next, htask]
      exact refl_of (Apart t K) s.databases
    · refine Apart.of_find hevicts.length fun i k hk => ?_
      cases he : s.databases.find i k with
      | some e => exact hevicts.find_of_not_candidate he (h hevicting (i, k) hk e he)
      | none =>
        refine Option.eq_none_iff_forall_ne_some.mpr fun e he' => ?_
        cases he.symm.trans (hevicts.find_of_find he')

theorem apart_foldl (hes : Run.Along next (fun s e => e.LeavesAlone t K s) s es) :
    Apart t K s.databases (es.foldl next s).databases :=
  hes.invariant (I := fun s' => Apart t K s.databases s'.databases)
    (fun _ _ hI he => trans_of (Apart t K) hI (apart_next he)) (refl_of (Apart t K) _)

end StoreTurn

/-- **The tasks** leave the groups of the streams alone. -/
theorem keepsGroups_tasks (it : Iteration) (now : UInt64) (s : Store) :
    (ServerEvent.background (s.expiryTask it now)).KeepsGroups s ∧
      (ServerEvent.background (s.memoryTask it)).KeepsGroups s := by
  constructor
  · rw [ServerEvent.KeepsGroups, (s.expiryTask_spec it now).1]
  · rcases s.memoryTask_cases it with ⟨-, htask⟩ | ⟨-, log, -, htables⟩
    · rw [ServerEvent.KeepsGroups, htask]
      rfl
    · rw [ServerEvent.KeepsGroups, htables]

/-! ### Keys that are left alone -/

namespace Request

/-- The command reads the keys that it names. -/
def Reads (r : Request) : Prop :=
  r.name ∈ keyedNames ∧ ∀ c ∈ commands, c.name = r.name → c.handler.isRead = true

instance (r : Request) : Decidable r.Reads := inferInstanceAs (Decidable (_ ∧ _))

/-- What is asked about the keys that look the same gets the same answer. -/
theorem run_of_apart {r : Request} (hr : r.Reads) {K : Set (ℕ × Bytes)} {s s' : Store}
    (hkeys : ∀ k ∈ keysOf r.name r.args, (r.ctx.dbIndex, k) ∈ K)
    (h : Apart r.env.now K s.databases s'.databases) : (r.run s').1 = (r.run s).1 := by
  have hnames : ∀ n ∈ keyedNames, ∃ c ∈ commands, c.name = n := by decide +kernel
  obtain ⟨c, hc, hcn⟩ := hnames r.name hr.1
  obtain ⟨f, hf⟩ : ∃ f, c.handler = .read f := by
    have hread := hr.2 c hc hcn
    cases hh : c.handler with
    | read f => exact ⟨f, rfl⟩
    | _ =>
      rw [hh] at hread
      cases hread
  have hlive := readsLive_commands c hc
  have hreads := local_commands K r.env r.ctx.dbIndex r.args c hc (hcn ▸ hr.1) (hcn ▸ hkeys)
  rw [hf] at hlive hreads
  have hallowed : isDenyOomCommand r.name = false :=
    hcn ▸ not_denied_of_reads hc (Or.inl (by rw [hf]; rfl))
  obtain ⟨g, hg⟩ : ∃ g : Reply → Except Failure RespValue,
      ∀ s, (r.run s).1 = g (f r.env s.databases r.ctx.dbIndex r.args) := by
    refine ⟨fun x => if c.refuses r.args then .ok (.error
      ("ERR wrong number of arguments for '" ++ r.env.host.toLowercase c.name ++ "' command"))
      else shown x, fun s => ?_⟩
    have hgated := congrArg Prod.fst (run_eq r s)
    rw [s.tables.deniesMemory_of_allowed hallowed, gated, if_neg Bool.false_ne_true, ← hcn,
      findCommand_of_mem hc] at hgated
    refine hgated.trans ?_
    dsimp only
    split
    · rfl
    · rw [handled, catchError_fst, hf]
      rfl
  rw [hg, hg, ← hlive r.env s'.databases, ← hlive r.env s.databases]
  refine congrArg g ?_
  refine hreads (purge r.env.now s'.databases) (purge r.env.now s.databases) ⟨?_, fun i k hk => ?_⟩
  · rw [purge, purge, List.length_map, List.length_map, h.length]
  · rw [find_purge, find_purge, h.live i k hk]

end Request

/-- **A key that is left alone lives until its deadline.** Whatever else happens, a key with which
no command works and that is not evicted is there before its deadline and gone from then on, and
what is asked about such keys gets the answer that it would have got at the beginning. -/
theorem lives_until_deadline {t : UInt64} {K : Set (ℕ × Bytes)} {s : Store} {es : List StoreTurn}
    (hes : Run.Along StoreTurn.next (fun s e => e.LeavesAlone t K s) s es) :
    (∀ i k e, (i, k) ∈ K → s.databases.find i k = some e →
      (es.foldl StoreTurn.next s).databases.liveEntry t i k
        = if e.expired t then none else some e) ∧
    ∀ r : Request, r.env.now = t → r.Reads → (∀ k ∈ keysOf r.name r.args, (r.ctx.dbIndex, k) ∈ K) →
      (r.run (es.foldl StoreTurn.next s)).1 = (r.run s).1 := by
  have h := StoreTurn.apart_foldl hes
  refine ⟨fun i k e hk he => ?_, ?_⟩
  · rw [h.live i k hk, Databases.liveEntry, he, Option.filter_some]
    cases e.expired t <;> rfl
  · rintro r rfl hr hkeys
    exact Request.run_of_apart hr hkeys h

/-- A store with the key `a` until 10. -/
def Store.withDeadline : Store :=
  ⟨(Store.new 1).databases.put 0 [97] { value := .string [53], expireAt := some 10 }, {}⟩

/-- Another key is set, and the tasks come along. -/
def plainRun : List StoreTurn :=
  [.request (Request.plain 1 "SET" [[98], [54]]), .expiry Iteration.stored 7,
    .memory Iteration.stored]

theorem lives_until_deadline_plain :
    (plainRun.foldl StoreTurn.next Store.withDeadline).databases.liveEntry 9 0 [97]
      = some { value := .string [53], expireAt := some 10 } := by
  have hset : ∀ c ∈ calls (Request.plain 1 "SET" [[98], [54]]).env "SET" [[98], [54]]
      ⟨Store.withDeadline, {}⟩, ¬c.WorksOn (0, [97]) := by decide +kernel
  have hexpiry : (7 : UInt64) ≤ 9 := by decide
  have hrun : Run.Along StoreTurn.next (fun s e => e.LeavesAlone 9 {(0, [97])} s)
      Store.withDeadline plainRun :=
    ⟨⟨by decide, fun c hc x hx => hx ▸ hset c hc⟩, hexpiry, fun h => absurd rfl h.1, trivial⟩
  exact (lives_until_deadline hrun).1 0 [97] { value := .string [53], expireAt := some 10 } rfl rfl

/-! ### The memory gate -/

namespace StoreTurn

/-- What the memory task has last measured, when it had measured `n` before an event. -/
def measure (s : Store) (n : ℕ) : StoreTurn → ℕ
  | memory _ => s.databases.estimatedMemory
  | _ => n

/-- The last measurement in a run. -/
def measured (s : Store) (es : List StoreTurn) : ℕ :=
  (es.foldl (fun p e => (next p.1 e, measure p.1 p.2 e)) (s, s.tables.cachedMemoryUsage)).2

/-- A command opens or closes no gate. -/
theorem sameGate_dispatch (env : Env) (name : String) (args : List Bytes) (w : Whole) :
    SameGate w.store.tables (dispatch env name args w).2.store.tables := by
  have hblind : BlindTo fun w' : Whole => SameGate w.store.tables w'.store.tables :=
    ⟨fun _ _ => id, fun _ _ h => ⟨h.maxmemory, h.evictionPolicy, h.cachedMemoryUsage⟩,
      fun _ _ h => ⟨h.maxmemory, h.evictionPolicy, h.cachedMemoryUsage⟩⟩
  have hcall : ∀ c : Call, c.command ∈ commands → c.command.handler.isLeaf = true → c.env = env →
      c.Allowed → True → SameGate w.store.tables c.before.store.tables →
        True ∧ SameGate w.store.tables c.after.store.tables := by
    intro c hc hleaf _ _ _ h
    have hrun : OnWhole SameGate c.before c.after := Call.along hleaf (sameGate_commands hc)
    exact ⟨trivial, trans_of SameGate h hrun⟩
  exact (keeps_calls (Q := fun _ => True) hblind hcall name args w (refl_of SameGate _)
    fun _ _ => trivial).2

/-- An event: the limit and the policy stay, and the estimate is the last measurement where the
gate goes by it. -/
theorem gate_next (s : Store) (e : StoreTurn) :
    (next s e).tables.maxmemory = s.tables.maxmemory ∧
      (next s e).tables.evictionPolicy = s.tables.evictionPolicy ∧
      (s.tables.evictionPolicy = .noEviction →
        (next s e).tables.cachedMemoryUsage = measure s s.tables.cachedMemoryUsage e) := by
  cases e with
  | request r =>
    have h := sameGate_dispatch r.env r.name r.args ⟨s, r.ctx⟩
    exact ⟨h.maxmemory, h.evictionPolicy, fun _ => h.cachedMemoryUsage⟩
  | expiry it now =>
    have h := (s.expiryTask_spec it now).1
    rw [next, h]
    exact ⟨rfl, rfl, fun _ => rfl⟩
  | memory it =>
    rcases s.memoryTask_cases it with ⟨-, h⟩ | ⟨hevicting, -, -, h⟩
    · rw [next, h]
      exact ⟨rfl, rfl, fun _ => rfl⟩
    · rw [next, h]
      exact ⟨rfl, rfl, fun hnone => absurd hnone hevicting.1⟩

/-- In a run. -/
theorem gate_foldl (s : Store) (es : List StoreTurn) :
    (es.foldl next s).tables.maxmemory = s.tables.maxmemory ∧
      (es.foldl next s).tables.evictionPolicy = s.tables.evictionPolicy ∧
      (s.tables.evictionPolicy = .noEviction →
        (es.foldl next s).tables.cachedMemoryUsage = measured s es) := by
  have hrun : ∀ (es : List StoreTurn) (s : Store) (n : ℕ),
      (s.tables.evictionPolicy = .noEviction → s.tables.cachedMemoryUsage = n) →
      (es.foldl next s).tables.maxmemory = s.tables.maxmemory ∧
      (es.foldl next s).tables.evictionPolicy = s.tables.evictionPolicy ∧
      (s.tables.evictionPolicy = .noEviction → (es.foldl next s).tables.cachedMemoryUsage
        = (es.foldl (fun p e => (next p.1 e, measure p.1 p.2 e)) (s, n)).2) := by
    intro es
    induction es with
    | nil => exact fun s n hn => ⟨rfl, rfl, hn⟩
    | cons e es ih =>
      intro s n hn
      obtain ⟨hlimit, hpolicy, hcached⟩ := gate_next s e
      have hnext : (next s e).tables.evictionPolicy = .noEviction →
          (next s e).tables.cachedMemoryUsage = measure s n e := by
        rw [hpolicy]
        intro h
        rw [hcached h, hn h]
      obtain ⟨hlimit', hpolicy', hcached'⟩ := ih (next s e) _ hnext
      exact ⟨hlimit'.trans hlimit, hpolicy'.trans hpolicy, fun h => hcached' (hpolicy.trans h)⟩
  exact hrun es s _ fun _ => rfl

end StoreTurn

/-- **The memory gate goes by the last measurement.** After any run it is closed, for the commands
that are listed as needing memory, if and only if the policy is `noeviction` and the memory task has
last measured more than the limit. No command opens or closes it. A run takes commands and turns one
at a time: where the task measures in the middle of an `EXEC`, the run is over its calls. -/
theorem memory_gate (s : Store) (es : List StoreTurn) (name : String) :
    ((es.foldl StoreTurn.next s).tables.deniesMemory name = true ↔
      isDenyOomCommand name = true ∧ s.tables.evictionPolicy = .noEviction ∧
        0 < s.tables.maxmemory ∧ s.tables.maxmemory < StoreTurn.measured s es) ∧
    ∀ r : Request,
      (r.next (es.foldl StoreTurn.next s)).tables.deniesMemory name
        = (es.foldl StoreTurn.next s).tables.deniesMemory name ∧
      (r.name = name → (es.foldl StoreTurn.next s).tables.deniesMemory name = true →
        r.run (es.foldl StoreTurn.next s)
          = (.ok (.error "OOM command not allowed when used memory > 'maxmemory'."),
            ⟨es.foldl StoreTurn.next s, r.ctx⟩)) := by
  obtain ⟨hlimit, hpolicy, hcached⟩ := StoreTurn.gate_foldl s es
  refine ⟨?_, fun r => ⟨?_, ?_⟩⟩
  · rw [Tables.deniesMemory, Tables.overMemoryLimit, hlimit, hpolicy]
    by_cases h : s.tables.evictionPolicy = .noEviction
    · rw [hcached h]
      simp [h, Nat.pos_iff_ne_zero, and_comm]
    · simp [h]
  · have h := StoreTurn.sameGate_dispatch r.env r.name r.args ⟨es.foldl StoreTurn.next s, r.ctx⟩
    rw [Request.next, Request.run, Tables.deniesMemory, Tables.overMemoryLimit, h.maxmemory,
      h.evictionPolicy, h.cachedMemoryUsage]
    rfl
  · rintro rfl hdenied
    rw [Request.run, dispatch, dispatchDepth, dispatchWith]
    exact if_pos hdenied

end VeloDB
