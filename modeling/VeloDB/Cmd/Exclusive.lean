import VeloDB.Cmd.Purged
import VeloDB.Lib.Calls

/-!
# Writes that want the key to be free

`SET` with `NX` and `RENAMENX` look whether their key is free with one call of the store and take it
with another, and between the two other clients take their calls. Here both commands are programs of
several calls, and clients that run them are a `Pool`.

## Main definitions

* `Cmd.setCalls`, `Cmd.renamenxCalls` — the two commands, call by call
* `Pool.Orderly` — nobody looks while another client is between its calls

## Main results

* `Cmd.setCalls_alone`, `Cmd.renamenxCalls_alone` — what they do when nothing comes in between
* `free_key_taken_once` — the clients of which exactly one takes the key
-/

namespace VeloDB

open Rust

/-- A program over the keyspace. Every call is given the time at which it happens. -/
abbrev KeyCalls := Calls UInt64 Keyspace Failure

namespace Keyspace

/-- The first half of `Store::rename`. -/
def takeEntry (i : ℕ) (old : Bytes) : KeyM Entry := do
  let d ← read fun dbs => dbs.db i
  match d.lookup old with
  | some e =>
    remove i old
    pure e
  | none => throw .keyNotFound

theorem rename_eq (i : ℕ) (old new : Bytes) :
    rename i old new = takeEntry i old >>= fun e => put i new e := by
  rw [rename, takeEntry, Proc.bind_assoc]
  refine congrArg _ (funext fun d => ?_)
  cases d.lookup old with
  | none => rfl
  | some e => rfl

end Keyspace

namespace Cmd

/-- `set`, call by call. The flags are read before the first call. -/
def setCalls (env : Env) (i : ℕ) (args : List Bytes) : KeyCalls RespValue := do
  let flags ← .ofExcept (argsFrom args 2)
  let o := setFlags env flags {}
  let key ← .ofExcept (arg args 0)
  let value ← .ofExcept (arg args 1)
  if o.nx ∨ o.xx then
    let exists_ ← .atomic fun now => Keyspace.read fun dbs => dbs.existsKey now i key
    if (o.nx ∧ exists_) ∨ (o.xx ∧ ¬exists_) then pure .nil
    else
      Calls.atomic fun _ => Keyspace.set i key value o.expireMs
      pure .ok
  else
    Calls.atomic fun _ => Keyspace.set i key value o.expireMs
    pure .ok

/-- `renamenx`, call by call. -/
def renamenxCalls (i : ℕ) (args : List Bytes) : KeyCalls RespValue := do
  let new ← .ofExcept (arg args 1)
  let taken ← .atomic fun now => Keyspace.read fun dbs => dbs.existsKey now i new
  if taken then pure (.integer 0)
  else
    let old ← .ofExcept (arg args 0)
    let found ← .atomic fun now => Keyspace.read fun dbs => dbs.existsKey now i old
    if !found then Calls.ofExcept (.error (.error .keyNotFound))
    else
      let e ← Calls.atomic fun _ => Keyspace.takeEntry i old
      Calls.atomic fun _ => Keyspace.put i new e
      pure (.integer 1)

/-- **`SET` is its calls.** -/
theorem setCalls_alone (env : Env) (i : ℕ) (args : List Bytes) :
    (setCalls env i args).alone env.now = set env i args := by
  simp only [setCalls, Calls.alone_bind, Calls.alone_ofExcept, Calls.ite_alone, Calls.alone_atomic,
    Calls.alone_pure]
  rfl

/-- **`RENAMENX` is its calls.** -/
theorem renamenxCalls_alone (env : Env) (i : ℕ) (args : List Bytes) :
    (renamenxCalls i args).alone env.now = renamenx env i args := by
  simp only [renamenxCalls, renamenx, Calls.alone_bind, Calls.alone_ofExcept, Calls.ite_alone,
    Calls.alone_atomic, Calls.alone_pure, Keyspace.rename_eq, Proc.bind_assoc]
  refine congrArg _ (funext fun new => congrArg _ (funext fun taken => ?_))
  cases taken with
  | true => rfl
  | false =>
    refine congrArg (lift (arg args 0) >>= ·) (funext fun old => congrArg _ (funext fun found => ?_))
    cases found with
    | true => rfl
    | false => rfl

end Cmd

/-! ### `SET` with `NX` -/

/-- What a client has still to do once it has found the key free. -/
def nxWrite (i : ℕ) (k v : Bytes) : KeyCalls RespValue := do
  Calls.atomic fun _ => Keyspace.set i k v none
  pure .ok

/-- `SET key value NX`. -/
def nxSet (i : ℕ) (k v : Bytes) : KeyCalls RespValue := do
  let exists_ ← .atomic fun now => Keyspace.read fun dbs => dbs.existsKey now i k
  if exists_ then pure .nil else nxWrite i k v

theorem setCalls_nx (env : Env) (i : ℕ) (k v : Bytes) :
    Cmd.setCalls env i [k, v, asBytes "NX"] = nxSet i k v := by
  have hflag : upper env (asBytes "NX") = "NX" := by
    rw [upper, fromUtf8Lossy_asBytes, env.host.toUppercase_of_upper (by decide)]
  have hflags : Cmd.setFlags env [asBytes "NX"] {} = { nx := true } := by
    simp [Cmd.setFlags, hflag]
  have hargs : (Calls.ofExcept (argsFrom [k, v, asBytes "NX"] 2) : KeyCalls _)
      = pure [asBytes "NX"] := rfl
  rw [Cmd.setCalls, hargs]
  show (let o := Cmd.setFlags env [asBytes "NX"] {}; _) = _
  rw [hflags]
  show (Calls.atomic _ >>= fun _ => _) = Calls.atomic _ >>= fun _ => _
  refine congrArg _ (funext fun found => ?_)
  cases found with
  | true => rfl
  | false => rfl

theorem existsKey_run {dbs : Databases} {i : ℕ} (hi : i < dbs.length) (now : UInt64) (k : Bytes)
    (notified : List Bytes) : Keyspace.read (fun dbs => dbs.existsKey now i k) ⟨dbs, notified⟩
      = (.ok (dbs.liveEntry now i k).isSome, ⟨dbs, notified⟩) := by
  rw [Keyspace.read, Databases.existsKey, Databases.entry_eq hi]
  rfl

/-! ### Clients side by side -/

/-- Clients that run programs over the keyspace. -/
abbrev KeyPool (T : Type) := Pool T UInt64 Keyspace Failure RespValue

namespace KeyPool

variable {T : Type} [DecidableEq T]

/-- Clients of which none has begun. -/
def start (dbs : Databases) (program : T → KeyCalls RespValue) : KeyPool T where
  state := ⟨dbs, []⟩
  program := program

/-- From some time on, only the clients change what is live at a key. -/
def LeavesKey (i : ℕ) (k : Bytes) (from_ : UInt64) (p : KeyPool T) :
    PoolEvent T UInt64 Keyspace → Prop
  | .call _ now => from_ ≤ now
  | .other ks => ks.databases.length = p.state.databases.length ∧ ∀ now, from_ ≤ now →
    ks.databases.liveEntry now i k = p.state.databases.liveEntry now i k

/-- The client has been told that it has taken the key. -/
def Won (p : KeyPool T) (t : T) : Prop := p.result t = some (.ok .ok)

/-- A string is live at a key from some time on. -/
def Stores (i : ℕ) (k : Bytes) (from_ : UInt64) (p : KeyPool T) (v : Bytes) : Prop :=
  ∀ now, from_ ≤ now →
    (p.state.databases.liveEntry now i k).map Entry.value = some (.string v)

/-- The client has found the key free. -/
def Passed (p : KeyPool T) (t : T) : Prop := p.Open t ∨ p.Won t

end KeyPool

/-- Where clients are that run `SET` with `NX` on a key. -/
structure NxRace {T : Type} (i : ℕ) (k : Bytes) (from_ : UInt64) (values : T → Bytes)
    (p : KeyPool T) : Prop where
  database : i < p.state.databases.length
  phase : ∀ t, p.begun t = false ∧ p.program t = nxSet i k (values t) ∨
    p.begun t = true ∧ (p.program t = nxWrite i k (values t) ∨ p.program t = .done (.ok .nil) ∨
      p.program t = .done (.ok .ok))
  free : (∀ t, ¬p.Won t) → ∀ now, from_ ≤ now → p.state.databases.liveEntry now i k = none
  taken : ∀ t, p.Won t → ∃ u, p.Won u ∧ p.Stores i k from_ (values u)

namespace NxRace

variable {T : Type} {i : ℕ} {k : Bytes} {from_ : UInt64} {values : T → Bytes}
  {p : KeyPool T} {t u : T} {now : UInt64}

theorem not_passed_of_not_begun (h : NxRace i k from_ values p) (ht : p.begun t = false) :
    ¬p.Passed t := by
  rintro (⟨hbegun, -⟩ | hwon)
  · rw [ht] at hbegun
    cases hbegun
  · rcases h.phase t with ⟨-, hset⟩ | ⟨hbegun, -⟩
    · rw [KeyPool.Won, Pool.result, hset] at hwon
      cases hwon
    · rw [ht] at hbegun
      cases hbegun

/-- A key is live exactly when a client has taken it. -/
theorem isSome_liveEntry (h : NxRace i k from_ values p) (hnow : from_ ≤ now) :
    (p.state.databases.liveEntry now i k).isSome = true ↔ ∃ w, p.Won w := by
  constructor
  · intro hsome
    by_contra hnone
    rw [h.free (fun w hw => hnone ⟨w, hw⟩) now hnow] at hsome
    cases hsome
  · rintro ⟨w, hw⟩
    obtain ⟨v, -, hv⟩ := h.taken w hw
    have hvalue := hv now hnow
    cases hlive : p.state.databases.liveEntry now i k with
    | none => simp [hlive] at hvalue
    | some e => rfl

variable [DecidableEq T]

/-- **What the next call of a client does**: it looks, and finds the key taken or free; it writes;
or the client is done. -/
theorem step_cases (h : NxRace i k from_ values p) (t : T) (hnow : from_ ≤ now) :
    (p.begun t = false ∧ (∃ w, p.Won w) ∧ p.step (.call t now) = {
      state := p.state
      program := Function.update p.program t (.done (.ok .nil))
      begun := Function.update p.begun t true }) ∨
    (p.begun t = false ∧ (∀ w, ¬p.Won w) ∧ p.step (.call t now) = {
      state := p.state
      program := Function.update p.program t (nxWrite i k (values t))
      begun := Function.update p.begun t true }) ∨
    (p.Open t ∧ ∃ version, p.step (.call t now) = {
      state := ⟨p.state.databases.put i k
        { value := .string (values t), expireAt := none, version := version }, p.state.notified⟩
      program := Function.update p.program t (.done (.ok .ok))
      begun := Function.update p.begun t true }) ∨
    (∃ r, p.program t = .done r) ∧ p.step (.call t now) = p := by
  obtain ⟨⟨dbs, notified⟩, program, begun⟩ := p
  rcases h.phase t with ⟨hbegun, hset⟩ | ⟨hbegun, hwrite | hdone | hdone⟩
  · have hstep := Pool.step_atomic_bind (x := now) hset
    rw [existsKey_run h.database] at hstep
    cases hlive : (dbs.liveEntry now i k).isSome with
    | true =>
      rw [hlive] at hstep
      exact Or.inl ⟨hbegun, (h.isSome_liveEntry hnow).mp hlive, hstep⟩
    | false =>
      rw [hlive] at hstep
      refine Or.inr (Or.inl ⟨hbegun, fun w hw => ?_, hstep⟩)
      have hsome := (h.isSome_liveEntry hnow).mpr ⟨w, hw⟩
      rw [show dbs.liveEntry now i k = _ from rfl, hlive] at hsome
      cases hsome
  · have hstep := Pool.step_atomic_bind (x := now) hwrite
    rw [Keyspace.set_run h.database] at hstep
    refine Or.inr (Or.inr (Or.inl ⟨⟨hbegun, ?_⟩, _, hstep⟩))
    rw [Pool.result, hwrite]
    rfl
  · exact Or.inr (Or.inr (Or.inr ⟨⟨_, hdone⟩, Pool.step_done hdone⟩))
  · exact Or.inr (Or.inr (Or.inr ⟨⟨_, hdone⟩, Pool.step_done hdone⟩))

/-- What a client has been told after a call. -/
theorem won_step (h : NxRace i k from_ values p) (hnow : from_ ≤ now) :
    KeyPool.Won (p.step (.call t now)) u ↔ p.Won u ∨ u = t ∧ p.Open t := by
  by_cases hut : u = t
  · subst hut
    rcases h.step_cases u hnow with ⟨hbegun, -, hstep⟩ | ⟨hbegun, -, hstep⟩ | ⟨hopen, v, hstep⟩ |
      ⟨⟨r, hr⟩, hstep⟩
    · have hnot := h.not_passed_of_not_begun hbegun
      rw [hstep, KeyPool.Won, Pool.result]
      simp only [Function.update_self, true_and]
      exact iff_of_false (by simp [RespValue.nil, RespValue.ok]) fun hp => hnot hp.symm
    · have hnot := h.not_passed_of_not_begun hbegun
      rw [hstep, KeyPool.Won, Pool.result]
      simp only [Function.update_self, true_and]
      exact iff_of_false (by intro h; cases h) fun hp => hnot hp.symm
    · rw [hstep, KeyPool.Won, Pool.result]
      simp only [Function.update_self, true_and]
      exact iff_of_true rfl (Or.inr hopen)
    · rw [hstep]
      refine ⟨Or.inl, Or.rec id fun hopen => ?_⟩
      rw [Pool.Open, Pool.result_of_done hr] at hopen
      cases hopen.2.2
  · rw [KeyPool.Won, Pool.result_step_of_ne hut]
    exact ⟨Or.inl, Or.rec id fun h => absurd h.1 hut⟩

/-- Who is between two calls after a call. -/
theorem open_step (h : NxRace i k from_ values p) (hnow : from_ ≤ now) :
    (p.step (.call t now)).Open u ↔
      p.Open u ∧ u ≠ t ∨ u = t ∧ p.begun t = false ∧ ∀ w, ¬p.Won w := by
  by_cases hut : u = t
  · subst hut
    rcases h.step_cases u hnow with ⟨-, hwon, hstep⟩ | ⟨hbegun, hfree, hstep⟩ | ⟨hopen, v, hstep⟩ |
      ⟨⟨r, hr⟩, hstep⟩
    · rw [hstep, Pool.Open, Pool.result]
      simp only [Function.update_self]
      obtain ⟨w, hw⟩ := hwon
      simp only [Calls.result_done, ne_eq, not_true, and_false, false_or, true_and, reduceCtorEq,
        false_iff]
      exact fun hnone => hnone.2 w hw
    · rw [hstep, Pool.Open, Pool.result]
      simp only [Function.update_self]
      exact iff_of_true ⟨trivial, rfl⟩ (Or.inr ⟨trivial, hbegun, hfree⟩)
    · rw [hstep, Pool.Open, Pool.result]
      simp [hopen.1]
    · rw [hstep, Pool.Open, Pool.result_of_done hr]
      refine iff_of_false (by simp) ?_
      rintro (⟨-, hne⟩ | ⟨-, hbegun, hfree⟩)
      · exact hne rfl
      · rcases h.phase u with ⟨-, hset⟩ | ⟨hb, -⟩
        · rw [hset] at hr
          cases hr
        · rw [hbegun] at hb
          cases hb
  · rw [Pool.open_step_of_ne hut]
    simp [hut]

/-- Who has found the key free after a call. -/
theorem passed_step (h : NxRace i k from_ values p) (hnow : from_ ≤ now) :
    KeyPool.Passed (p.step (.call t now)) u ↔
      p.Passed u ∨ u = t ∧ p.begun t = false ∧ ∀ w, ¬p.Won w := by
  rw [KeyPool.Passed, h.open_step hnow, h.won_step hnow, KeyPool.Passed]
  by_cases hut : u = t
  · subst hut
    simp only [ne_eq, not_true, and_false, true_and, false_or]
    tauto
  · simp only [ne_eq, hut, not_false_iff, and_true, false_and, or_false]

/-- Somebody who has looked has found the key free, or somebody else has taken it. -/
theorem step (h : NxRace i k from_ values p) {e : PoolEvent T UInt64 Keyspace}
    (he : KeyPool.LeavesKey i k from_ p e) : NxRace i k from_ values (p.step e) := by
  cases e with
  | other ks =>
    obtain ⟨hlength, hlive⟩ := he
    refine ⟨hlength.symm ▸ h.database, h.phase, fun hfree now hnow => ?_, fun t ht => ?_⟩
    · exact (hlive now hnow).trans (h.free hfree now hnow)
    · obtain ⟨u, hu, hstores⟩ := h.taken t ht
      refine ⟨u, hu, fun now hnow => ?_⟩
      rw [← hstores now hnow]
      exact congrArg _ (hlive now hnow)
  | call t now =>
    have hphase : ∀ c, (c = nxWrite i k (values t) ∨ c = .done (.ok .nil) ∨ c = .done (.ok .ok)) →
        ∀ u, (Function.update p.begun t true u = false ∧
            Function.update p.program t c u = nxSet i k (values u)) ∨
          (Function.update p.begun t true u = true ∧
            (Function.update p.program t c u = nxWrite i k (values u) ∨
              Function.update p.program t c u = .done (.ok .nil) ∨
              Function.update p.program t c u = .done (.ok .ok))) := by
      intro c hc u
      by_cases hut : u = t
      · subst hut
        simp only [Function.update_self]
        exact Or.inr ⟨trivial, hc⟩
      · simp only [Function.update_of_ne hut]
        exact h.phase u
    -- who has taken the key before the call
    have hbefore : p.begun t = false →
        ∀ u, KeyPool.Won (p.step (.call t now)) u → p.Won u := by
      intro hbegun u hu
      rcases (h.won_step he).mp hu with hu | ⟨-, hopen⟩
      · exact hu
      · exact (h.not_passed_of_not_begun hbegun (Or.inl hopen)).elim
    have hafter : ∀ u, p.Won u → KeyPool.Won (p.step (.call t now)) u := fun u hu =>
      (h.won_step he).mpr (Or.inl hu)
    rcases h.step_cases t he with ⟨hbegun, -, hstep⟩ | ⟨hbegun, -, hstep⟩ | ⟨hopen, version, hstep⟩ |
      ⟨-, hstep⟩
    · have hwon := hbefore hbegun
      rw [hstep] at hwon hafter ⊢
      refine ⟨h.database, hphase _ (Or.inr (Or.inl rfl)), fun hfree => ?_, fun u hu => ?_⟩
      · exact h.free fun u hu => hfree u (hafter u hu)
      · obtain ⟨w, hw, hstores⟩ := h.taken u (hwon u hu)
        exact ⟨w, hafter w hw, hstores⟩
    · have hwon := hbefore hbegun
      rw [hstep] at hwon hafter ⊢
      refine ⟨h.database, hphase _ (Or.inl rfl), fun hfree => ?_, fun u hu => ?_⟩
      · exact h.free fun u hu => hfree u (hafter u hu)
      · obtain ⟨w, hw, hstores⟩ := h.taken u (hwon u hu)
        exact ⟨w, hafter w hw, hstores⟩
    · have hwon : KeyPool.Won (p.step (.call t now)) t := (h.won_step he).mpr (Or.inr ⟨rfl, hopen⟩)
      rw [hstep] at hwon ⊢
      refine ⟨?_, hphase _ (Or.inr (Or.inr rfl)), fun hfree => (hfree t hwon).elim,
        fun _ _ => ⟨t, hwon, fun now _ => ?_⟩⟩
      · rw [Databases.length_put]
        exact h.database
      · rw [liveEntry_put_self h.database]
        rfl
    · rw [hstep]
      exact h

omit [DecidableEq T] in
/-- Before any client has begun. -/
theorem start {dbs : Databases} (hi : i < dbs.length)
    (hfree : ∀ now, from_ ≤ now → dbs.liveEntry now i k = none) :
    NxRace i k from_ values (KeyPool.start dbs fun t => nxSet i k (values t)) := by
  refine ⟨hi, fun _ => Or.inl ⟨rfl, rfl⟩, fun _ => hfree, fun t ht => ?_⟩
  rw [KeyPool.Won] at ht
  cases ht

/-- **Nobody else has found the key free**, as long as no client looks while another one has still
to write. -/
theorem passed_unique_step (h : NxRace i k from_ values p) (hnow : from_ ≤ now)
    (horder : p.Orderly (.call t now)) (hp : ∀ u w, p.Passed u → p.Passed w → u = w) :
    ∀ u w, KeyPool.Passed (p.step (.call t now)) u → KeyPool.Passed (p.step (.call t now)) w →
      u = w := by
  have hnobody : p.begun t = false → (∀ w, ¬p.Won w) → ∀ u, ¬p.Passed u := by
    intro hbegun hfree u hu
    rcases hu with hopen | hwon
    · by_cases hut : u = t
      · exact h.not_passed_of_not_begun hbegun (hut ▸ Or.inl hopen)
      · exact horder hbegun u hut hopen
    · exact hfree u hwon
  intro u w hu hw
  rw [h.passed_step hnow] at hu hw
  rcases hu with hu | ⟨rfl, hbegun, hfree⟩
  · rcases hw with hw | ⟨rfl, hbegun, hfree⟩
    · exact hp u w hu hw
    · exact (hnobody hbegun hfree u hu).elim
  · rcases hw with hw | ⟨rfl, -, -⟩
    · exact (hnobody hbegun hfree w hw).elim
    · rfl

variable {es : List (PoolEvent T UInt64 Keyspace)}

theorem run (h : NxRace i k from_ values p)
    (hes : Run.Along Pool.step (KeyPool.LeavesKey i k from_) p es) :
    NxRace i k from_ values (es.foldl Pool.step p) :=
  hes.invariant (fun _ _ hp he => hp.step he) h

/-- Who has found the key free goes on to take it. -/
theorem passed_run (h : NxRace i k from_ values p)
    (hes : Run.Along Pool.step (KeyPool.LeavesKey i k from_) p es) (hu : p.Passed u) :
    KeyPool.Passed (es.foldl Pool.step p) u := by
  have hboth := hes.invariant (I := fun q => NxRace i k from_ values q ∧ KeyPool.Passed q u)
    (fun q e hq he => ?_) ⟨h, hu⟩
  · exact hboth.2
  · refine ⟨hq.1.step he, ?_⟩
    cases e with
    | call t now => exact (hq.1.passed_step he).mpr (Or.inl hq.2)
    | other ks => exact hq.2

/-- As soon as somebody has looked, somebody has found the key free. -/
theorem passed_of_begun (h : NxRace i k from_ values p) (hnone : ∀ t, p.begun t = false)
    (hes : Run.Along Pool.step (KeyPool.LeavesKey i k from_) p es)
    (ht : (es.foldl Pool.step p).begun t = true) :
    ∃ u, KeyPool.Passed (es.foldl Pool.step p) u := by
  have hboth := hes.invariant
    (I := fun q => NxRace i k from_ values q ∧ ∀ t, q.begun t = true → ∃ u, KeyPool.Passed q u)
    (fun q e hq he => ?_) ⟨h, fun t ht => ?_⟩
  · exact hboth.2 t ht
  · refine ⟨hq.1.step he, fun u hu => ?_⟩
    cases e with
    | other ks => exact hq.2 u hu
    | call t now =>
      by_cases hwon : ∃ w, KeyPool.Won q w
      · obtain ⟨w, hw⟩ := hwon
        exact ⟨w, (hq.1.passed_step he).mpr (Or.inl (Or.inr hw))⟩
      · cases hbegun : q.begun t with
        | false =>
          exact ⟨t, (hq.1.passed_step he).mpr (Or.inr ⟨rfl, hbegun, fun w hw => hwon ⟨w, hw⟩⟩)⟩
        | true =>
          obtain ⟨w, hw⟩ := hq.2 t hbegun
          exact ⟨w, (hq.1.passed_step he).mpr (Or.inl hw)⟩
  · rw [hnone t] at ht
    cases ht

/-- **One client takes the key**, exactly if none looks while another one has still to write. -/
theorem taken_once_iff [Nonempty T] (h : NxRace i k from_ values p)
    (hnone : ∀ t, p.begun t = false)
    (hes : Run.Along Pool.step (KeyPool.LeavesKey i k from_) p es)
    (hdone : ∀ t, ((es.foldl Pool.step p).result t).isSome = true) :
    (∃ t, KeyPool.Won (es.foldl Pool.step p) t ∧
      (∀ u, KeyPool.Won (es.foldl Pool.step p) u → u = t) ∧
      KeyPool.Stores i k from_ (es.foldl Pool.step p) (values t)) ↔
    Run.Along Pool.step Pool.Orderly p es := by
  have hwon : ∀ t, KeyPool.Passed (es.foldl Pool.step p) t →
      KeyPool.Won (es.foldl Pool.step p) t := by
    rintro t (⟨-, hopen⟩ | hwon)
    · have hsome := hdone t
      rw [hopen] at hsome
      cases hsome
    · exact hwon
  constructor
  · rintro ⟨t, -, hone, -⟩
    rw [Run.along_iff_forall]
    rintro pre e post rfl
    obtain ⟨hpre, he, hpost⟩ := Run.along_append.mp hes
    have hq := h.run hpre
    rw [List.foldl_append, List.foldl_cons] at hone hwon
    -- two clients that have found the key free would both take it
    have hone' : ∀ u w, KeyPool.Passed (Pool.step (pre.foldl Pool.step p) e) u →
        KeyPool.Passed (Pool.step (pre.foldl Pool.step p) e) w → u = w := by
      intro u w hu hw
      have hu' := hwon u ((hq.step he).passed_run hpost hu)
      have hw' := hwon w ((hq.step he).passed_run hpost hw)
      exact (hone u hu').trans (hone w hw').symm
    cases e with
    | other ks => trivial
    | call x now =>
      intro hbegun u hux hopen
      by_cases htaken : ∃ w, KeyPool.Won (pre.foldl Pool.step p) w
      · obtain ⟨w, hw⟩ := htaken
        have huw : u = w := hone' u w ((hq.passed_step he).mpr (Or.inl (Or.inl hopen)))
          ((hq.passed_step he).mpr (Or.inl (Or.inr hw)))
        subst huw
        rw [KeyPool.Won, hopen.2] at hw
        cases hw
      · refine hux (hone' u x ((hq.passed_step he).mpr (Or.inl (Or.inl hopen))) ?_)
        exact (hq.passed_step he).mpr (Or.inr ⟨rfl, hbegun, fun w hw => htaken ⟨w, hw⟩⟩)
  · intro horder
    have hstart : ∀ u w, p.Passed u → p.Passed w → u = w := fun u w hu _ =>
      (h.not_passed_of_not_begun (hnone u) hu).elim
    have hunique := (hes.and horder).invariant
      (I := fun q => NxRace i k from_ values q ∧
        ∀ u w, KeyPool.Passed q u → KeyPool.Passed q w → u = w)
      (fun q e hq he => ⟨hq.1.step he.1, ?_⟩) ⟨h, hstart⟩
    · obtain ⟨t₀⟩ := ‹Nonempty T›
      have hbegun : (es.foldl Pool.step p).begun t₀ = true := by
        rcases (h.run hes).phase t₀ with ⟨-, hset⟩ | ⟨hbegun, -⟩
        · have hsome := hdone t₀
          rw [Pool.result, hset] at hsome
          cases hsome
        · exact hbegun
      obtain ⟨w, hw⟩ := h.passed_of_begun hnone hes hbegun
      obtain ⟨t, ht, hstores⟩ := (h.run hes).taken w (hwon w hw)
      refine ⟨t, ht, fun u hu => ?_, hstores⟩
      exact hunique.2 u t (Or.inr hu) (Or.inr ht)
    · cases e with
      | other ks => exact hq.2
      | call x now => exact hq.1.passed_unique_step he.1 he.2 hq.2

end NxRace

/-! ### `RENAMENX` -/

/-- `RENAMENX` once it has found an entry to move. -/
def nxMove (i : ℕ) (new : Bytes) (e : Entry) : KeyCalls RespValue := do
  Calls.atomic fun _ => Keyspace.put i new e
  pure (.integer 1)

/-- `RENAMENX` once it has found its destination free and its source there. -/
def nxTake (i : ℕ) (old new : Bytes) : KeyCalls RespValue := do
  let e ← Calls.atomic fun _ => Keyspace.takeEntry i old
  nxMove i new e

/-- `RENAMENX` once it has found its destination free. -/
def nxLook (i : ℕ) (old new : Bytes) : KeyCalls RespValue := do
  let found ← .atomic fun now => Keyspace.read fun dbs => dbs.existsKey now i old
  if !found then Calls.ofExcept (.error (.error .keyNotFound)) else nxTake i old new

/-- `RENAMENX old new`. -/
def nxRename (i : ℕ) (old new : Bytes) : KeyCalls RespValue := do
  let taken ← .atomic fun now => Keyspace.read fun dbs => dbs.existsKey now i new
  if taken then pure (.integer 0) else nxLook i old new

theorem renamenxCalls_eq (i : ℕ) (old new : Bytes) :
    Cmd.renamenxCalls i [old, new] = nxRename i old new := rfl

theorem takeEntry_run {dbs : Databases} {i : ℕ} (hi : i < dbs.length) (k : Bytes)
    (notified : List Bytes) : Keyspace.takeEntry i k ⟨dbs, notified⟩ = match dbs.find i k with
      | some e => (.ok e, ⟨dbs.remove i k, notified⟩)
      | none => (.error (.error .keyNotFound), ⟨dbs, notified⟩) := by
  rw [Keyspace.takeEntry, Proc.bind_ok (Keyspace.read_db hi notified), Keyspace.lookup_eq_find hi]
  cases dbs.find i k with
  | none => rfl
  | some e => rfl

namespace KeyPool

variable {T : Type}

/-- The client has been told that it has renamed its source. -/
def Moved (p : KeyPool T) (t : T) : Prop := p.result t = some (.ok (.integer 1))

/-- From some time on, only the clients change what is live at the destination, and no source has an
expiry. -/
def LeavesKeys (i : ℕ) (k : Bytes) (sources : T → Bytes) (from_ : UInt64) (p : KeyPool T)
    (e : PoolEvent T UInt64 Keyspace) : Prop :=
  LeavesKey i k from_ p e ∧ ∀ ks, e = .other ks → ∀ t entry,
    ks.databases.find i (sources t) = some entry → entry.expireAt = none

end KeyPool

/-- Where clients are that run `RENAMENX` onto a key. -/
structure RenameRace {T : Type} (i : ℕ) (k : Bytes) (from_ : UInt64) (sources : T → Bytes)
    (p : KeyPool T) : Prop where
  database : i < p.state.databases.length
  lasting : ∀ t e, p.state.databases.find i (sources t) = some e → e.expireAt = none
  phase : ∀ t, p.begun t = false ∧ p.program t = nxRename i (sources t) k ∨
    p.begun t = true ∧ (p.program t = nxLook i (sources t) k ∨ p.program t = nxTake i (sources t) k ∨
      (∃ e : Entry, e.expireAt = none ∧ p.program t = nxMove i k e) ∨ ∃ r, p.program t = .done r)
  single : ∀ t u, p.Open t → p.Open u → t = u
  moved : ∀ t, p.Moved t → (∀ now, from_ ≤ now →
      (p.state.databases.liveEntry now i k).isSome = true) ∧
    (∀ u, p.Moved u → u = t) ∧ ∀ u, ¬p.Open u

namespace RenameRace

variable {T : Type} {i : ℕ} {k : Bytes} {from_ : UInt64} {sources : T → Bytes} {p : KeyPool T}
  {t u : T} {now : UInt64}

/-- A client that has been told something is not between two calls. -/
theorem not_moved_of_open (h : RenameRace i k from_ sources p) (ht : p.Open t) : ¬p.Moved u :=
  fun hu => (h.moved u hu).2.2 t ht

theorem alone_of_open (h : RenameRace i k from_ sources p) (ht : p.Open t) :
    ∀ u, u ≠ t → ¬p.Open u := fun u hut hu => hut (h.single u t hu ht)

variable [DecidableEq T] {β : Type} {m : UInt64 → KeyM β} {f : β → KeyCalls RespValue}
  {c : KeyCalls RespValue}

/-- **A call of a client while no other one is between two calls**: where it may lead. -/
theorem advance (h : RenameRace i k from_ sources p) (hp : p.program t = Calls.atomic m >>= f)
    (halone : ∀ u, u ≠ t → ¬p.Open u) (hnone : ∀ u, ¬p.Moved u)
    (hc : (Calls.ofExcept (m now p.state).1 >>= f) = c)
    (hphase : c = nxLook i (sources t) k ∨ c = nxTake i (sources t) k ∨
      (∃ e : Entry, e.expireAt = none ∧ c = nxMove i k e) ∨ ∃ r, c = .done r)
    (hdatabase : i < (m now p.state).2.databases.length)
    (hlasting : ∀ u e, (m now p.state).2.databases.find i (sources u) = some e →
      e.expireAt = none)
    (hlive : c.result = some (.ok (.integer 1)) → ∀ t, from_ ≤ t →
      ((m now p.state).2.databases.liveEntry t i k).isSome = true) :
    RenameRace i k from_ sources (p.step (.call t now)) := by
  have hself : (p.step (.call t now)).result t = c.result := by
    rw [Pool.result_step_self hp]
    exact congrArg _ hc
  have hopen : ∀ u, (p.step (.call t now)).Open u → u = t := by
    intro u hu
    by_contra hut
    exact halone u hut ((Pool.open_step_of_ne hut).mp hu)
  have hmoved : ∀ u, KeyPool.Moved (p.step (.call t now)) u → u = t := by
    intro u hu
    by_contra hut
    rw [KeyPool.Moved, Pool.result_step_of_ne hut] at hu
    exact hnone u hu
  have hstep := Pool.step_atomic_bind (x := now) hp
  refine ⟨?_, ?_, fun u => ?_, fun u w hu hw => (hopen u hu).trans (hopen w hw).symm,
    fun u hu => ?_⟩
  · rw [hstep]
    exact hdatabase
  · rw [hstep]
    exact hlasting
  · by_cases hut : u = t
    · subst hut
      rw [hstep]
      dsimp only
      rw [Function.update_self, Function.update_self, hc]
      exact Or.inr ⟨rfl, hphase⟩
    · rw [Pool.begun_step_of_ne hut, Pool.program_step_of_ne hut]
      exact h.phase u
  · obtain rfl := hmoved u hu
    have hone : c.result = some (.ok (.integer 1)) := hself.symm.trans hu
    refine ⟨?_, hmoved, fun w hw => ?_⟩
    · rw [hstep]
      exact hlive hone
    · obtain rfl := hopen w hw
      rw [KeyPool.Moved, hw.2] at hu
      cases hu

/-- A client that finds the destination taken. -/
theorem refuse (h : RenameRace i k from_ sources p) (hp : p.program t = Calls.atomic m >>= f)
    (hc : (Calls.ofExcept (m now p.state).1 >>= f) = .done (.ok (.integer 0)))
    (hstate : (m now p.state).2 = p.state) :
    RenameRace i k from_ sources (p.step (.call t now)) := by
  have hself : (p.step (.call t now)).result t = some (.ok (.integer 0)) := by
    rw [Pool.result_step_self hp]
    exact congrArg _ hc
  have hopen : ∀ u, (p.step (.call t now)).Open u → p.Open u := by
    intro u hu
    by_cases hut : u = t
    · subst hut
      rw [Pool.Open, hself] at hu
      cases hu.2
    · exact (Pool.open_step_of_ne hut).mp hu
  have hmoved : ∀ u, KeyPool.Moved (p.step (.call t now)) u → p.Moved u := by
    intro u hu
    by_cases hut : u = t
    · subst hut
      rw [KeyPool.Moved, hself] at hu
      simp at hu
    · rwa [KeyPool.Moved, Pool.result_step_of_ne hut] at hu
  have hstep := Pool.step_atomic_bind (x := now) hp
  rw [hstate] at hstep
  refine ⟨?_, ?_, fun u => ?_, fun u w hu hw => h.single u w (hopen u hu) (hopen w hw),
    fun u hu => ?_⟩
  · rw [hstep]
    exact h.database
  · rw [hstep]
    exact h.lasting
  · by_cases hut : u = t
    · subst hut
      rw [hstep]
      dsimp only
      rw [Function.update_self, Function.update_self, hc]
      exact Or.inr ⟨rfl, Or.inr (Or.inr (Or.inr ⟨_, rfl⟩))⟩
    · rw [Pool.begun_step_of_ne hut, Pool.program_step_of_ne hut]
      exact h.phase u
  · obtain ⟨hlive, hone, hnone⟩ := h.moved u (hmoved u hu)
    refine ⟨?_, fun w hw => hone w (hmoved w hw), fun w hw => hnone w (hopen w hw)⟩
    rw [hstep]
    exact hlive

theorem step (h : RenameRace i k from_ sources p) {e : PoolEvent T UInt64 Keyspace}
    (he : KeyPool.LeavesKeys i k sources from_ p e) (horder : p.Orderly e) :
    RenameRace i k from_ sources (p.step e) := by
  cases e with
  | other ks =>
    obtain ⟨⟨hlength, hlive⟩, hsources⟩ := he
    refine ⟨hlength.symm ▸ h.database, hsources ks rfl, h.phase, h.single, fun t ht => ?_⟩
    obtain ⟨hsome, hrest⟩ := h.moved t ht
    refine ⟨fun now hnow => ?_, hrest⟩
    rw [← hsome now hnow]
    exact congrArg _ (hlive now hnow)
  | call t now =>
    obtain ⟨⟨dbs, notified⟩, program, begun⟩ := p
    have hi : i < dbs.length := h.database
    have hopen : begun t = true → (program t).result = none →
        Pool.Open ⟨⟨dbs, notified⟩, program, begun⟩ t := And.intro
    rcases h.phase t with ⟨hbegun, hp⟩ | ⟨hbegun, hp | hp | ⟨e, hexpire, hp⟩ | ⟨r, hr⟩⟩
    · -- the destination
      have hrun := existsKey_run hi now k notified
      cases hlive : (dbs.liveEntry now i k).isSome with
      | true =>
        rw [hlive] at hrun
        exact h.refuse hp (by rw [hrun]; rfl) (by rw [hrun])
      | false =>
        rw [hlive] at hrun
        refine h.advance hp (horder hbegun) (fun u hu => ?_) (by rw [hrun]; rfl) (Or.inl rfl)
          (by rw [hrun]; exact hi) (by rw [hrun]; exact h.lasting) fun hc => by cases hc
        have hsome := (h.moved u hu).1 now he.1
        rw [show dbs.liveEntry now i k = _ from rfl, hlive] at hsome
        cases hsome
    · -- the source
      have ht := hopen hbegun (congrArg _ hp)
      have hrun := existsKey_run hi now (sources t) notified
      cases hlive : (dbs.liveEntry now i (sources t)).isSome with
      | true =>
        rw [hlive] at hrun
        exact h.advance hp (h.alone_of_open ht) (fun u => h.not_moved_of_open ht)
          (by rw [hrun]; rfl) (Or.inr (Or.inl rfl)) (by rw [hrun]; exact hi)
          (by rw [hrun]; exact h.lasting) fun hc => by cases hc
      | false =>
        rw [hlive] at hrun
        exact h.advance hp (h.alone_of_open ht) (fun u => h.not_moved_of_open ht)
          (by rw [hrun]; rfl) (Or.inr (Or.inr (Or.inr ⟨_, rfl⟩))) (by rw [hrun]; exact hi)
          (by rw [hrun]; exact h.lasting) fun hc => by cases hc
    · -- the entry is taken from the source
      have ht := hopen hbegun (congrArg _ hp)
      have hrun := takeEntry_run hi (sources t) notified
      cases hfind : dbs.find i (sources t) with
      | none =>
        rw [hfind] at hrun
        exact h.advance hp (h.alone_of_open ht) (fun u => h.not_moved_of_open ht)
          (by rw [hrun]; rfl) (Or.inr (Or.inr (Or.inr ⟨_, rfl⟩))) (by rw [hrun]; exact hi)
          (by rw [hrun]; exact h.lasting) fun hc => by cases hc
      | some e =>
        rw [hfind] at hrun
        refine h.advance hp (h.alone_of_open ht) (fun u => h.not_moved_of_open ht)
          (by rw [hrun]; rfl) (Or.inr (Or.inr (Or.inl ⟨e, h.lasting t e hfind, rfl⟩)))
          (by rw [hrun]; exact Databases.length_remove.symm ▸ hi) (fun u e' he' => ?_)
          fun hc => by cases hc
        rw [hrun] at he'
        by_cases hu : sources u = sources t
        · rw [hu, Databases.find_remove_self] at he'
          cases he'
        · rw [Databases.find_remove_of_ne (Or.inr hu)] at he'
          exact h.lasting u e' he'
    · -- and stored at the destination
      have ht := hopen hbegun (congrArg _ hp)
      refine h.advance hp (h.alone_of_open ht) (fun u => h.not_moved_of_open ht) rfl
        (Or.inr (Or.inr (Or.inr ⟨_, rfl⟩))) (Databases.length_put.symm ▸ hi) (fun u e' he' => ?_)
        fun _ now _ => ?_
      · by_cases hu : sources u = k
        · rw [hu] at he'
          obtain rfl := Option.some.inj ((Databases.find_put_self hi).symm.trans he')
          exact hexpire
        · exact h.lasting u e' ((Databases.find_put_of_ne (Or.inr hu)).symm.trans he')
      · have hlive : (dbs.put i k e).liveEntry now i k = _ := liveEntry_put_self hi k e
        have hexpired : e.expired now = false := by
          rw [Entry.expired, hexpire]
        rw [Option.filter_some, hexpired] at hlive
        exact congrArg Option.isSome hlive
    · rw [Pool.step_done hr]
      exact h

end RenameRace

/-! ### Both commands -/

namespace KeyPool

variable {T : Type} (dbs : Databases) (i : ℕ) (k : Bytes)

/-- Clients that set a key if it is free. -/
def setters (env : T → Env) (values : T → Bytes) : KeyPool T :=
  start dbs fun t => Cmd.setCalls (env t) i [k, values t, asBytes "NX"]

/-- Clients that rename a key of their own to the same key if that is free. -/
def renamers (sources : T → Bytes) : KeyPool T :=
  start dbs fun t => Cmd.renamenxCalls i [sources t, k]

end KeyPool

/-- **A free key is taken once**, if no client looks whether it is free while another one is between
its calls; of the clients that set the key, exactly one takes it only in this case. -/
theorem free_key_taken_once {T : Type} [DecidableEq T] [Nonempty T] {dbs : Databases} {i : ℕ}
    (hi : i < dbs.length) (k : Bytes) (from_ : UInt64) (es : List (PoolEvent T UInt64 Keyspace)) :
    (∀ (env : T → Env) (values : T → Bytes), dbs.liveEntry from_ i k = none →
      Run.Along Pool.step (KeyPool.LeavesKey i k from_) (KeyPool.setters dbs i k env values) es →
      (∀ t, ((es.foldl Pool.step (KeyPool.setters dbs i k env values)).result t).isSome = true) →
      ((∃ t, KeyPool.Won (es.foldl Pool.step (KeyPool.setters dbs i k env values)) t ∧
        (∀ u, KeyPool.Won (es.foldl Pool.step (KeyPool.setters dbs i k env values)) u → u = t) ∧
        KeyPool.Stores i k from_ (es.foldl Pool.step (KeyPool.setters dbs i k env values))
          (values t)) ↔
        Run.Along Pool.step Pool.Orderly (KeyPool.setters dbs i k env values) es)) ∧
    ∀ sources : T → Bytes,
      (∀ t e, dbs.find i (sources t) = some e → e.expireAt = none) →
      Run.Along Pool.step (KeyPool.LeavesKeys i k sources from_) (KeyPool.renamers dbs i k sources)
        es →
      Run.Along Pool.step Pool.Orderly (KeyPool.renamers dbs i k sources) es →
      ∀ t u, KeyPool.Moved (es.foldl Pool.step (KeyPool.renamers dbs i k sources)) t →
        KeyPool.Moved (es.foldl Pool.step (KeyPool.renamers dbs i k sources)) u → t = u := by
  constructor
  · intro env values hfree hes hdone
    have hstart : KeyPool.setters dbs i k env values
        = KeyPool.start dbs fun t => nxSet i k (values t) := by
      rw [KeyPool.setters]
      exact congrArg _ (funext fun t => setCalls_nx (env t) i k (values t))
    rw [hstart] at hes hdone ⊢
    exact (NxRace.start hi fun now hnow => Databases.liveEntry_mono hnow hfree).taken_once_iff
      (fun _ => rfl) hes hdone
  · intro sources hlasting hes horder t u ht hu
    have hstart : RenameRace i k from_ sources (KeyPool.renamers dbs i k sources) := by
      refine ⟨hi, hlasting, fun t => Or.inl ⟨rfl, rfl⟩, fun t u ht _ => ?_, fun t ht => ?_⟩
      · cases ht.1
      · cases ht
    have hrace := (hes.and horder).invariant (fun q e hq he => hq.step he.1 he.2) hstart
    exact (hrace.moved u hu).2.1 t ht

/-- A database with two keys to rename. -/
def twoSources : Databases :=
  ((Store.new 1).databases.put 0 (asBytes "a") { value := .string (asBytes "1") }).put 0
    (asBytes "b") { value := .string (asBytes "2") }

/-- The key that a client of two has or wants to store. -/
def ownKey (t : Bool) : Bytes := asBytes (if t then "b" else "a")

/-- Calls of two clients, all at the same time of the clock. -/
def callsOf (ts : List Bool) : List (PoolEvent Bool UInt64 Keyspace) := ts.map fun t => .call t 7

/-- Two clients, one after the other. -/
def inTurn : List (PoolEvent Bool UInt64 Keyspace) :=
  callsOf [false, false, false, false, true, true, true, true]

/-- Two clients in step with each other. -/
def inStep : List (PoolEvent Bool UInt64 Keyspace) :=
  callsOf [false, true, false, true, false, true, false, true]

/-- The clients that set the key, as a pool. -/
def twoSetters : KeyPool Bool :=
  KeyPool.setters twoSources 0 (asBytes "k") (fun _ => Moment.on ⟨7, 0, 0, 1⟩ Host.plain) ownKey

/-- The clients that rename onto the key, as a pool. -/
def twoRenamers : KeyPool Bool := KeyPool.renamers twoSources 0 (asBytes "k") ownKey

theorem free_key_taken_once_inTurn :
    (∃ t, KeyPool.Won (inTurn.foldl Pool.step twoSetters) t ∧
      (∀ u, KeyPool.Won (inTurn.foldl Pool.step twoSetters) u → u = t) ∧
      KeyPool.Stores 0 (asBytes "k") 7 (inTurn.foldl Pool.step twoSetters) (ownKey t)) ∧
    ∀ t u, KeyPool.Moved (inTurn.foldl Pool.step twoRenamers) t →
      KeyPool.Moved (inTurn.foldl Pool.step twoRenamers) u → t = u := by
  have hone : 0 < twoSources.length := by decide
  obtain ⟨hset, hrename⟩ := free_key_taken_once (T := Bool) hone (asBytes "k") 7 inTurn
  constructor
  · refine (hset _ ownKey rfl ?_ (by decide +kernel)).mpr (by decide +kernel)
    simp [Run.Along, inTurn, callsOf, KeyPool.LeavesKey]
  · refine hrename ownKey (fun t e he => ?_) ?_ (by decide +kernel)
    · have hnone : (twoSources.find 0 (ownKey t)).bind Entry.expireAt = none := by
        cases t <;> decide
      rw [he] at hnone
      exact hnone
    · simp [Run.Along, inTurn, callsOf, KeyPool.LeavesKeys, KeyPool.LeavesKey]

/-- **A free key is taken twice** by clients that both look before either of them writes. -/
theorem free_key_taken_twice :
    twoSources.liveEntry 7 0 (asBytes "k") = none ∧
    (∀ t, KeyPool.Won (inStep.foldl Pool.step twoSetters) t) ∧
    ∀ t, KeyPool.Moved (inStep.foldl Pool.step twoRenamers) t := by
  refine ⟨rfl, fun t => ?_, fun t => ?_⟩
  · cases t <;> rfl
  · cases t <;> rfl

end VeloDB
