import VeloDB.Cmd.StaleReplies
import VeloDB.Cmd.Trace
import VeloDB.Lib.Run
import VeloDB.Net.Connection

/-!
# An expired key along a run

`StoreEvent` is what can change the store: a command of a client in any context, the end of a
blocking wait, an entry that is removed in the background. A key that has expired stays without a
live entry along a run, until a value is stored under it, as long as no command comes upon what is
left of it without looking at the expiry. The commands that change an expiry do so, and bring it
back.

## Main results

* `expired_stays_dead` — the runs along which an expired key stays dead
* `persist_revives` — `PERSIST` brings a key back
-/

namespace VeloDB

open Rust Proc

/-! ### Calls -/

namespace Call

variable (c : Call) (j : ℕ) (k : Bytes)

/-- The call stores a value under the key. -/
def StoresAt : Prop := c.before.ctx.dbIndex = j ∧ k ∈ storesUnder c.env c.command.name c.args

/-- The call looks the key up whether it has expired or not, and it is stored. -/
def FindsAnyway : Prop :=
  c.before.ctx.dbIndex = j ∧ k ∈ ignoresExpiry c.command.name c.args ∧
    (c.before.store.databases.find j k).isSome = true

/-- The command only reads, or works on keys and not on values. `SCAN`, `DBSIZE` and `INFO` are not
among them: `SCAN` keeps a cursor, and the other two throw out what has expired. -/
def NonValue : Prop := (∃ f, c.command.handler = .read f) ∨ c.command.name ∈ keyNames

/-- The same call where the key is not stored. -/
def without : Call := { c with before := { c.before with store := { c.before.store with
  databases := c.before.store.databases.remove j k } } }

end Call

section Calls

variable {c : Call} {t : UInt64} {j : ℕ} {k : Bytes}

/-- **A call spares a key without a live entry**, unless it stores a value under it or comes upon
what is left of it. -/
theorem Call.spares (hc : c.command ∈ commands) (hleaf : c.command.handler.isLeaf = true)
    (hnow : t ≤ c.env.now) (hstores : ¬c.StoresAt j k) (hfinds : ¬c.FindsAnyway j k) :
    WholeSpares t j k c.before c.after := by
  obtain ⟨c, args, env, w⟩ := c
  have hoff : j ≠ w.ctx.dbIndex ∨ k ∉ storesUnder env c.name args := by
    by_cases hj : j = w.ctx.dbIndex
    · exact Or.inr fun hk => hstores ⟨hj.symm, hk⟩
    · exact Or.inl hj
  have hspares := sparesUnnamed_commands c hc
  rw [Call.after, Call.run]
  dsimp only
  cases hh : c.handler with
  | read f => exact id
  | side f => exact id
  | exec | eval | evalsha =>
    rw [hh] at hleaf
    cases hleaf
  | whole f =>
    rw [hh] at hspares
    exact hspares hnow hoff
  | write f =>
    rw [hh] at hspares
    by_cases hexpires : j = w.ctx.dbIndex ∧ k ∈ expiresOf c.name args
    · -- the expiry of the key is changed, so nothing is stored under it
      obtain ⟨rfl, hk⟩ := hexpires
      have hname : c.name ∈ expiryNames := by
        by_contra hname
        rw [expiresOf, if_neg hname] at hk
        cases hk
      have hdel : c.name ≠ "DEL" := fun h => absurd (h ▸ hname) (by decide)
      have hnone : w.store.databases.find w.ctx.dbIndex k = none := by
        by_contra hsome
        refine hfinds ⟨rfl, ?_, Option.isSome_iff_ne_none.mpr hsome⟩
        rw [ignoresExpiry, if_neg hdel]
        exact hk
      obtain ⟨f', hf', habsent⟩ := staysAbsent_expiry (j := w.ctx.dbIndex) (k := k) hc hname
      obtain rfl := Handler.write.inj (hf'.symm.trans hh)
      intro _
      have hafter := habsent env w.ctx.dbIndex args { databases := w.store.databases } hnone
      exact (congrArg (Option.filter _) hafter).trans rfl
    · have hunexpired : j ≠ w.ctx.dbIndex ∨ k ∉ expiresOf c.name args := not_and_or.mp hexpires
      exact hspares hnow hoff hunexpired { databases := w.store.databases }

/-- **A call replies as without the key**, unless it comes upon what is left of it. -/
theorem Call.reply_without (hc : c.command ∈ commands) (hquiet : c.NonValue)
    (hdead : c.before.store.databases.liveEntry c.env.now j k = none)
    (hfinds : ¬c.FindsAnyway j k) : c.reply = (c.without j k).reply := by
  obtain ⟨c, args, env, w⟩ := c
  have hrun : ∀ {w : Whole}, (Call.mk c args env w).reply
      = (c.handler.run (fun _ _ => Proc.fail .panic) env args w).1 := rfl
  rw [Call.without, hrun, hrun]
  rcases hquiet with ⟨f, hf⟩ | hname
  · have hreads := readsLive_commands c hc
    change c.handler = .read f at hf
    rw [hf] at hreads ⊢
    exact (hreads.remove hdead args).symm
  · obtain ⟨f, hf, halike⟩ := repliesAlike_keyNames hc hname
    rw [hf]
    by_cases hnone : w.store.databases.find j k = none
    · simp only [remove_of_find_none hnone]
    · refine halike env w.ctx.dbIndex args w.store.databases j k hdead ?_
      by_contra hnot
      obtain ⟨hj, hk⟩ := not_or.mp hnot |>.imp not_ne_iff.mp not_not.mp
      exact hfinds ⟨hj, hk, Option.isSome_iff_ne_none.mpr hnone⟩

end Calls

/-! ### Runs -/

/-- What can change the store. -/
inductive StoreEvent
  /-- A command of a client, whatever its context is. -/
  | command (m : Moment) (ctx : ClientContext) (name : String) (args : List Bytes)
  /-- The end of a blocking wait. -/
  | resume (m : Moment) (ctx : ClientContext) (b : BlockState) (id : ℕ) (triggered : Bool)
  /-- A background task removes an entry. -/
  | removed (now : UInt64) (i : ℕ) (k : Bytes)

namespace StoreEvent

/-- The time of an event. -/
def now : StoreEvent → UInt64
  | command m _ _ _ | resume m _ _ _ _ => m.now
  | removed now _ _ => now

variable (H : Host)

/-- One event. -/
def step (s : Store) : StoreEvent → Store
  | command m ctx name args => (dispatch (m.on H) name args ⟨s, ctx⟩).2.store
  | resume m ctx b id triggered =>
    (Net.resumeWait (m.on H) ⟨{ store := s }, { ctx }⟩ b id triggered).shared.store
  | removed _ i k => { s with databases := s.databases.remove i k }

/-- The calls of an event. -/
def calls (s : Store) : StoreEvent → List Call
  | command m ctx name args => VeloDB.calls (m.on H) name args ⟨s, ctx⟩
  | _ => []

/-- The store after some events. -/
def run (s : Store) (es : List StoreEvent) : Store := es.foldl (step H) s

/-- The calls of a run. -/
def runCalls (s : Store) (es : List StoreEvent) : List Call := Run.gathered (step H) (calls H) s es

end StoreEvent

section Runs

variable {H : Host} {t : UInt64} {j : ℕ} {k : Bytes}

/-- The end of a wait pops, and so it spares the key. -/
theorem spares_unblockPop {pop : Bytes → KeyM (Option Bytes)}
    (hpop : ∀ key, Moves (Spares t j k) (pop key)) (keys : List Bytes) :
    Moves (Spares t j k) (unblockPop pop keys) := by
  induction keys with
  | nil => exact moves_pure _
  | cons key keys ih =>
    intro s
    have hkey := hpop key s
    rw [unblockPop]
    dsimp only
    rcases hrun : pop key s with ⟨_ | _ | v, s'⟩
    all_goals rw [hrun] at hkey
    · exact trans_of (Spares t j k) hkey (ih s')
    · exact trans_of (Spares t j k) hkey (ih s')
    · exact hkey

theorem spares_resumeWait {env : Env} (hnow : t ≤ env.now) (n : Net) (b : BlockState) (id : ℕ)
    (triggered : Bool) (hdead : n.shared.store.databases.liveEntry t j k = none) :
    (n.resumeWait env b id triggered).shared.store.databases.liveEntry t j k = none := by
  have hwait : ∀ {pop : Bytes → KeyM (Option Bytes)}, (∀ key, Moves (Spares t j k) (pop key)) →
      (unblockPop pop b.keys { databases := n.shared.store.databases }).2.databases.liveEntry t j k
        = none :=
    fun hpop => spares_unblockPop hpop b.keys { databases := n.shared.store.databases } hdead
  have hleft := @hwait (Keyspace.lpopOne env.now n.conn.ctx.dbIndex) fun key =>
    Spares.updateAs .list hnow key _ _
  have hright := @hwait (Keyspace.rpopOne env.now n.conn.ctx.dbIndex) fun key =>
    Spares.updateAs .list hnow key _ _
  rw [Net.resumeWait]
  cases triggered with
  | false => exact hdead
  | true =>
    cases b.popDirection with
    | left =>
      dsimp only
      split
      · exact hleft
      · next f _ => cases f <;> exact hleft
    | right =>
      dsimp only
      split
      · exact hright
      · next f _ => cases f <;> exact hright

/-- What is said of the databases says nothing of the context and the tables. -/
theorem blindTo_dead : BlindTo fun w => w.store.databases.liveEntry t j k = none where
  ctx _ _ h := h
  pubSub _ _ h := h
  readers _ _ h := h

/-- **An expired key stays dead** along a run in which no value is stored under it and no command
comes upon what is left of it, and the commands that work on keys reply as if it were not stored. -/
theorem expired_stays_dead {s : Store} {es : List StoreEvent}
    (hdead : s.databases.liveEntry t j k = none) (hlater : ∀ e ∈ es, t ≤ e.now)
    (hstores : ∀ c ∈ StoreEvent.runCalls H s es, ¬c.StoresAt j k)
    (hfinds : ∀ c ∈ StoreEvent.runCalls H s es, ¬c.FindsAnyway j k) :
    (∀ now, t ≤ now → (StoreEvent.run H s es).databases.liveEntry now j k = none) ∧
      ∀ c ∈ StoreEvent.runCalls H s es, c.NonValue → c.reply = (c.without j k).reply := by
  induction es generalizing s with
  | nil => exact ⟨fun now => liveEntry_later hdead, List.forall_mem_nil _⟩
  | cons e es ih =>
    have hnow := hlater e List.mem_cons_self
    have hsplit : StoreEvent.runCalls H s (e :: es)
        = e.calls H s ++ StoreEvent.runCalls H (e.step H s) es := rfl
    rw [hsplit] at hstores hfinds ⊢
    have hone : (∀ c ∈ e.calls H s, c.NonValue → c.reply = (c.without j k).reply) ∧
        (e.step H s).databases.liveEntry t j k = none := by
      cases e with
      | removed now i key =>
        exact ⟨List.forall_mem_nil _, Spares.remove i key ⟨s.databases, []⟩ hdead⟩
      | resume m ctx b id triggered =>
        exact ⟨List.forall_mem_nil _, spares_resumeWait hnow _ b id triggered hdead⟩
      | command m ctx name args =>
        have hkeeps : KeepsBy (fun w => w.store.databases.liveEntry t j k = none)
            (fun c => ¬c.StoresAt j k ∧ ¬c.FindsAnyway j k)
            (fun c => c.NonValue → c.reply = (c.without j k).reply)
            (VeloDB.calls (m.on H) name args ⟨s, ctx⟩) ⟨s, ctx⟩
            (dispatch (m.on H) name args ⟨s, ctx⟩).2 := by
          refine keeps_calls blindTo_dead (fun c hc hleaf henv _ hcall hbefore => ?_) name args
            ⟨s, ctx⟩
          have hcnow : t ≤ c.env.now := henv ▸ hnow
          exact ⟨fun hquiet => c.reply_without hc hquiet (liveEntry_later hbefore hcnow) hcall.2,
            c.spares hc hleaf hcnow hcall.1 hcall.2 hbefore⟩
        exact hkeeps hdead fun c hc =>
          ⟨hstores c (List.mem_append_left _ hc), hfinds c (List.mem_append_left _ hc)⟩
    obtain ⟨hdead', hreplies⟩ := ih hone.2 (fun e he => hlater e (List.mem_cons_of_mem _ he))
      (fun c hc => hstores c (List.mem_append_right _ hc))
      (fun c hc => hfinds c (List.mem_append_right _ hc))
    exact ⟨hdead', fun c hc => (List.mem_append.mp hc).elim (hone.1 c) (hreplies c)⟩

end Runs

/-! ### A key with an expiry -/

/-- A client sets the key `k` to expire at `5`. -/
def setExpiring : StoreEvent :=
  .command ⟨1, 0, 0, 1⟩ {} "SET" [asBytes "k", asBytes "v", asBytes "PXAT", asBytes "5"]

/-- The store after that. -/
def expiring : Store := setExpiring.step Host.plain (Store.new 1)

/-- `TTL` at `10`, when the key has expired. -/
theorem expired_stays_dead_ttl :
    let es : List StoreEvent := [.command ⟨10, 0, 0, 1⟩ {} "TTL" [asBytes "k"]]
    (∀ now, 10 ≤ now → (StoreEvent.run Host.plain expiring es).databases.liveEntry now 0
      (asBytes "k") = none) ∧
      ∀ c ∈ StoreEvent.runCalls Host.plain expiring es, c.NonValue →
        c.reply = (c.without 0 (asBytes "k")).reply := by
  intro es
  have hcalls : StoreEvent.runCalls Host.plain expiring es
      = [⟨⟨"TTL", 2, .read Cmd.ttl⟩, [asBytes "k"], Moment.on ⟨10, 0, 0, 1⟩ Host.plain,
        ⟨expiring, {}⟩⟩] := rfl
  refine expired_stays_dead (by decide +kernel) (fun e he => ?_) ?_ ?_
  · rw [List.mem_singleton.mp he]
    decide
  · rw [hcalls]
    refine List.forall_mem_singleton.mpr fun h => ?_
    exact absurd h.2 (by decide)
  · rw [hcalls]
    refine List.forall_mem_singleton.mpr fun h => ?_
    exact absurd h.2.1 (by decide)

/-- **`PERSIST` brings a key back.** It has expired at `10`, nobody stores a value under it, and at
`12` its old value is read. `PERSIST` replies `1`. -/
theorem persist_revives :
    let es : List StoreEvent := [.command ⟨11, 0, 0, 1⟩ {} "PERSIST" [asBytes "k"]]
    expiring.databases.liveEntry 10 0 (asBytes "k") = none ∧
      (∀ c ∈ StoreEvent.runCalls Host.plain expiring es, ¬c.StoresAt 0 (asBytes "k")) ∧
      (dispatch (Moment.on ⟨11, 0, 0, 1⟩ Host.plain) "PERSIST" [asBytes "k"] ⟨expiring, {}⟩).1
        = .ok (.integer 1) ∧
      (dispatch (Moment.on ⟨12, 0, 0, 1⟩ Host.plain) "GET" [asBytes "k"]
        ⟨StoreEvent.run Host.plain expiring es, {}⟩).1 = .ok (.bulk (asBytes "v")) := by
  intro es
  have hcalls : StoreEvent.runCalls Host.plain expiring es
      = [⟨⟨"PERSIST", 2, .write Cmd.persist⟩, [asBytes "k"], Moment.on ⟨11, 0, 0, 1⟩ Host.plain,
        ⟨expiring, {}⟩⟩] := rfl
  refine ⟨by decide +kernel, ?_, rfl, rfl⟩
  rw [hcalls]
  refine List.forall_mem_singleton.mpr fun h => ?_
  exact absurd h.2 (by decide)

end VeloDB
