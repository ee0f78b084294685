import VeloDB.Cmd.Purged
import VeloDB.Cmd.Strings
import VeloDB.Lib.Run
import Mathlib.Logic.Function.Iterate

/-!
# Removing expired keys

`dbsize` and the active expiry cycle collect the expired keys of a database first and remove them
afterwards, one after the other, without looking at them again. An `ExpiryTask` is one of the two
between two calls of the store, and an `ExpiryRace` is a store with any number of them, whose steps
and the commands of other clients come in any order.

## Main results

* `dbsize_alone`, `cycle_alone` — what the tasks do when nothing comes in between
* `expiry_spares_live` — only expired entries are removed, as long as nobody stores a live entry
  under a key that has been collected
-/

namespace VeloDB

open Rust

/-- `dbsize` or the active expiry cycle, between two calls of the store. -/
inductive ExpiryTask
  | dbsize (i : ℕ)
  /-- `dbsize` has still to remove these keys. -/
  | dbsizeRemoving (i : ℕ) (toRemove : List Bytes) (count : ℕ)
  /-- The cycle has still to go through these databases, and has removed so many keys. -/
  | cycle (dbs : List ℕ) (totalRemoved : ℕ)
  /-- The cycle has still to remove these of the keys that it has collected in a database. -/
  | cycleRemoving (i : ℕ) (dbs : List ℕ) (expiredKeys : List Bytes) (removed totalRemoved : ℕ)
  | finished (r : Except Failure ℕ)

namespace ExpiryTask

/-- `active_expire_cycle`, on a store with `n` databases. -/
def activeExpireCycle (n : ℕ) : ExpiryTask := .cycle (List.range n) 0

/-- The keys that `dbsize` collects. -/
def expiredKeys (now : UInt64) (d : Db) : List Bytes :=
  (d.pairs.filter fun p => p.2.expired now).map Prod.fst

/-- The keys that the cycle collects: the expired ones of the first keys with an expiry. -/
def sampledKeys (sampleSize : ℕ) (now : UInt64) (d : Db) : List Bytes :=
  (((d.pairs.filter fun p => p.2.expireAt.isSome).take (max sampleSize 1)).filter fun p =>
    p.2.expired now).map Prod.fst

/-- The keys that a task has collected and not removed yet. -/
def pending : ExpiryTask → List (ℕ × Bytes)
  | dbsizeRemoving i keys _ | cycleRemoving i _ keys _ _ => keys.map fun k => (i, k)
  | dbsize _ | cycle _ _ | finished _ => []

/-- The next call of a task. -/
def step (sampleSize : ℕ) (now : UInt64) : ExpiryTask × Databases → ExpiryTask × Databases
  | (.dbsize i, dbs) =>
    match dbs.db i with
    | .ok d => (.dbsizeRemoving i (expiredKeys now d) (Databases.live now d).length, dbs)
    | .error e => (.finished (.error (.error e)), dbs)
  | (.dbsizeRemoving i (k :: keys) count, dbs) => (.dbsizeRemoving i keys count, dbs.remove i k)
  | (.dbsizeRemoving _ [] count, dbs) => (.finished (.ok count), dbs)
  | (.cycle (i :: is) total, dbs) =>
    let keys := sampledKeys sampleSize now (dbs[i]?.getD ∅)
    (.cycleRemoving i is keys keys.length total, dbs)
  | (.cycle [] total, dbs) => (.finished (.ok total), dbs)
  | (.cycleRemoving i is (k :: keys) removed total, dbs) =>
    (.cycleRemoving i is keys removed total, dbs.remove i k)
  | (.cycleRemoving i is [] removed total, dbs) =>
    (.cycle (if removed * 4 ≤ max sampleSize 1 then is else i :: is) (total + removed), dbs)
  | (.finished r, dbs) => (.finished r, dbs)

end ExpiryTask

/-- The databases, and the tasks at work on them. -/
structure ExpiryRace (T : Type) where
  databases : Databases
  task : T → ExpiryTask

/-- A call of a task, or a command of a client. -/
inductive ExpiryEvent (T : Type)
  | task (t : T) (now : UInt64)
  | command (now : UInt64) (m : KeyM RespValue)

/-- The time of an event. -/
def ExpiryEvent.now {T : Type} : ExpiryEvent T → UInt64
  | task _ now | command now _ => now

namespace ExpiryRace

variable {T : Type} [DecidableEq T] (sampleSize : ℕ)

/-- One event. -/
def run (s : ExpiryRace T) : ExpiryEvent T → ExpiryRace T
  | .task t now =>
    let r := ExpiryTask.step sampleSize now (s.task t, s.databases)
    { databases := r.2, task := Function.update s.task t r.1 }
  | .command _ m => { s with databases := (m ⟨s.databases, []⟩).2.databases }

/-- A command leaves no live entry under a key that a task has still to remove. -/
def Spares (s : ExpiryRace T) : ExpiryEvent T → Prop
  | .task _ _ => True
  | .command now m => ∀ t i k, (i, k) ∈ (s.task t).pending →
    (m ⟨s.databases, []⟩).2.databases.liveEntry now i k = none

/-- What is still to be removed has expired. -/
def Due (now : UInt64) (s : ExpiryRace T) : Prop :=
  ∀ t i k, (i, k) ∈ (s.task t).pending → s.databases.liveEntry now i k = none

end ExpiryRace

namespace ExpiryTask

variable {now : UInt64} {dbs : Databases} {i : ℕ} {k : Bytes} {d : Db} {sampleSize : ℕ}

theorem liveEntry_of_pair (hd : dbs[i]? = some d) {p : Bytes × Entry} (hp : p ∈ d.pairs)
    (hexp : p.2.expired now = true) : dbs.liveEntry now i p.1 = none := by
  rw [Databases.liveEntry_eq hd, (HashMap.mem_pairs (m := d)).mp hp, Option.filter_some, hexp]
  rfl

/-- What `dbsize` collects has expired. -/
theorem not_live_of_expiredKeys (hd : dbs[i]? = some d) (hk : k ∈ expiredKeys now d) :
    dbs.liveEntry now i k = none := by
  obtain ⟨p, hp, rfl⟩ := List.mem_map.mp hk
  obtain ⟨hmem, hexp⟩ := List.mem_filter.mp hp
  exact liveEntry_of_pair hd hmem hexp

/-- What the cycle collects has expired. -/
theorem not_live_of_sampledKeys (hk : k ∈ sampledKeys sampleSize now (dbs[i]?.getD ∅)) :
    dbs.liveEntry now i k = none := by
  obtain ⟨p, hp, rfl⟩ := List.mem_map.mp hk
  obtain ⟨hmem, hexp⟩ := List.mem_filter.mp hp
  have hpair := (List.mem_filter.mp (List.mem_of_mem_take hmem)).1
  cases hd : dbs[i]? with
  | none =>
    rw [Databases.liveEntry_eq_none_of_le (List.getElem?_eq_none_iff.mp hd)]
  | some d =>
    rw [hd] at hpair
    exact liveEntry_of_pair hd hpair hexp

/-- **What one call of a task does**: it collects keys that have expired, or removes one of those
that it has collected. -/
theorem step_cases (sampleSize : ℕ) (now : UInt64) (task : ExpiryTask) (dbs : Databases) :
    ((step sampleSize now (task, dbs)).2 = dbs ∧
      ∀ i k, (i, k) ∈ (step sampleSize now (task, dbs)).1.pending →
        dbs.liveEntry now i k = none) ∨
    ∃ i k, (i, k) ∈ task.pending ∧ (step sampleSize now (task, dbs)).2 = dbs.remove i k ∧
      (step sampleSize now (task, dbs)).1.pending ⊆ task.pending := by
  have hmap : ∀ {i j : ℕ} {k : Bytes} {keys : List Bytes},
      (i, k) ∈ keys.map (fun k => (j, k)) → i = j ∧ k ∈ keys := by
    intro i j k keys h
    obtain ⟨k', hk', heq⟩ := List.mem_map.mp h
    obtain ⟨rfl, rfl⟩ := Prod.mk.inj heq
    exact ⟨rfl, hk'⟩
  cases task with
  | dbsize i =>
    rw [step]
    cases hd : dbs[i]? with
    | none =>
      rw [Databases.db, hd]
      exact Or.inl ⟨rfl, fun j k h => absurd h List.not_mem_nil⟩
    | some d =>
      rw [Databases.db, hd]
      refine Or.inl ⟨rfl, fun j k h => ?_⟩
      obtain ⟨rfl, hk⟩ := hmap h
      exact not_live_of_expiredKeys hd hk
  | dbsizeRemoving i keys count =>
    cases keys with
    | nil => exact Or.inl ⟨rfl, fun j k h => absurd h List.not_mem_nil⟩
    | cons k keys =>
      exact Or.inr ⟨i, k, List.mem_cons_self, rfl, List.subset_cons_self _ _⟩
  | cycle is total =>
    cases is with
    | nil => exact Or.inl ⟨rfl, fun j k h => absurd h List.not_mem_nil⟩
    | cons i is =>
      refine Or.inl ⟨rfl, fun j k h => ?_⟩
      obtain ⟨rfl, hk⟩ := hmap h
      exact not_live_of_sampledKeys hk
  | cycleRemoving i is keys removed total =>
    cases keys with
    | nil => exact Or.inl ⟨rfl, fun j k h => absurd h List.not_mem_nil⟩
    | cons k keys =>
      exact Or.inr ⟨i, k, List.mem_cons_self, rfl, List.subset_cons_self _ _⟩
  | finished r => exact Or.inl ⟨rfl, fun j k h => absurd h List.not_mem_nil⟩

/-! ### A task on its own -/

/-- Removing what has been collected. -/
theorem iterate_dbsizeRemoving (sampleSize : ℕ) (now : UInt64) (i count : ℕ) (keys : List Bytes)
    (dbs : Databases) :
    (step sampleSize now)^[keys.length + 1] (.dbsizeRemoving i keys count, dbs)
      = (.finished (.ok count), keys.foldl (fun dbs k => dbs.remove i k) dbs) := by
  induction keys generalizing dbs with
  | nil => rfl
  | cons k keys ih => exact ih (dbs.remove i k)

theorem each_remove (i : ℕ) (l : List (Bytes × Entry)) (ks : Keyspace) :
    (Proc.each l (fun p => Keyspace.remove i p.1) ks).2.databases
      = (l.map Prod.fst).foldl (fun dbs k => dbs.remove i k) ks.databases := by
  induction l generalizing ks with
  | nil => rfl
  | cons p l ih => exact ih _

/-- **`dbsize` on its own.** -/
theorem dbsize_alone (sampleSize : ℕ) (now : UInt64) (i : ℕ) (ks : Keyspace) :
    ∃ n, (step sampleSize now)^[n] (.dbsize i, ks.databases)
      = (.finished (Keyspace.dbsize now i ks).1, (Keyspace.dbsize now i ks).2.databases) := by
  cases hd : ks.databases[i]? with
  | none =>
    obtain ⟨e, herror⟩ : ∃ e, ks.databases.db i = .error e := by
      rw [Databases.db, hd]
      exact ⟨_, rfl⟩
    have hread : Keyspace.read (fun dbs => dbs.db i) ks = (.error (.error e), ks) := by
      rw [Keyspace.read, herror]
      rfl
    refine ⟨1, ?_⟩
    rw [Function.iterate_one, step, herror, Keyspace.dbsize, Proc.bind_error hread]
  | some d =>
    have hok : ks.databases.db i = .ok d := by
      rw [Databases.db, hd]
    have hfirst : step sampleSize now (.dbsize i, ks.databases)
        = (.dbsizeRemoving i (expiredKeys now d) (Databases.live now d).length, ks.databases) := by
      rw [step, hok]
    have hread : Keyspace.read (fun dbs => dbs.db i) ks = (.ok d, ks) := by
      rw [Keyspace.read, hok]
      rfl
    have hdue : ∀ p ∈ d.pairs.filter fun p => p.2.expired now,
        ks.databases.liveEntry now i p.1 = none := by
      intro p hp
      obtain ⟨hmem, hexp⟩ := List.mem_filter.mp hp
      exact liveEntry_of_pair hd hmem hexp
    obtain ⟨heach, -⟩ := sameVisible_each_remove i hdue
    refine ⟨(expiredKeys now d).length + 1 + 1, ?_⟩
    rw [Function.iterate_succ_apply, hfirst, iterate_dbsizeRemoving, Keyspace.dbsize,
      Proc.bind_ok hread, Proc.bind_ok (Prod.ext heach rfl), Proc.pure_run, each_remove]
    rfl

/-- Removing what the cycle has collected. -/
theorem iterate_cycleRemoving (sampleSize : ℕ) (now : UInt64) (i : ℕ) (is : List ℕ)
    (removed total : ℕ) (keys : List Bytes) (dbs : Databases) :
    (step sampleSize now)^[keys.length + 1] (.cycleRemoving i is keys removed total, dbs)
      = (.cycle (if removed * 4 ≤ max sampleSize 1 then is else i :: is) (total + removed),
        keys.foldl (fun dbs k => dbs.remove i k) dbs) := by
  induction keys generalizing dbs with
  | nil => rfl
  | cons k keys ih => exact ih (dbs.remove i k)

/-- The number of entries in a database, expired or not. -/
def entryCount (dbs : Databases) (i : ℕ) : ℕ := (dbs[i]?.getD ∅).entries.length

theorem entryCount_remove (dbs : Databases) (i : ℕ) (k : Bytes) :
    entryCount (dbs.remove i k) i = (List.kerase k (dbs[i]?.getD ∅).entries).length := by
  rw [entryCount, Databases.remove, List.getElem?_modify]
  cases dbs[i]? with
  | none => rfl
  | some d =>
    rw [Option.map_eq_map, Option.map_some, if_pos rfl]
    rfl

theorem entryCount_remove_le (dbs : Databases) (i : ℕ) (k : Bytes) :
    entryCount (dbs.remove i k) i ≤ entryCount dbs i := by
  rw [entryCount_remove]
  exact (List.kerase_sublist k _).length_le

theorem entryCount_foldl_remove_le (keys : List Bytes) (dbs : Databases) (i : ℕ) :
    entryCount (keys.foldl (fun dbs k => dbs.remove i k) dbs) i ≤ entryCount dbs i := by
  induction keys generalizing dbs with
  | nil => exact le_rfl
  | cons k keys ih => exact (ih _).trans (entryCount_remove_le dbs i k)

theorem entryCount_remove_lt {dbs : Databases} {i : ℕ} {k : Bytes} {e : Entry}
    (h : dbs.find i k = some e) : entryCount (dbs.remove i k) i < entryCount dbs i := by
  obtain ⟨d, hd, hl⟩ := Option.bind_eq_some_iff.mp h
  have hmem : k ∈ d.entries.keys := AList.lookup_isSome.mp (by rw [hl]; rfl)
  obtain ⟨v, before, after, -, hentries, herase⟩ := List.exists_of_kerase hmem
  rw [entryCount_remove, entryCount, hd, Option.getD_some, herase, hentries]
  simp

theorem find_of_sampledKeys (hk : k ∈ sampledKeys sampleSize now (dbs[i]?.getD ∅)) :
    ∃ e, dbs.find i k = some e := by
  obtain ⟨p, hp, rfl⟩ := List.mem_map.mp hk
  have hpair := (List.mem_filter.mp (List.mem_of_mem_take (List.mem_filter.mp hp).1)).1
  refine ⟨p.2, ?_⟩
  cases hd : dbs[i]? with
  | none =>
    rw [hd] at hpair
    exact absurd hpair List.not_mem_nil
  | some d =>
    rw [hd] at hpair
    rw [Databases.find, hd]
    exact HashMap.mem_pairs.mp hpair

/-- **The cycle ends**, when nothing comes in between: it goes through a database again only if it
has removed something from it. -/
theorem cycle_alone (sampleSize : ℕ) (now : UInt64) (is : List ℕ) (total : ℕ) (dbs : Databases) :
    ∃ n removed dbs', (step sampleSize now)^[n] (.cycle is total, dbs)
      = (.finished (.ok removed), dbs') := by
  induction is generalizing total dbs with
  | nil => exact ⟨1, total, dbs, rfl⟩
  | cons i is ih =>
    induction hn : entryCount dbs i using Nat.strong_induction_on generalizing total dbs with
    | _ n again =>
      obtain ⟨keys, hkeys⟩ : ∃ keys, keys = sampledKeys sampleSize now (dbs[i]?.getD ∅) := ⟨_, rfl⟩
      obtain ⟨dbs', hdbs'⟩ : ∃ dbs', dbs' = keys.foldl (fun dbs k => dbs.remove i k) dbs := ⟨_, rfl⟩
      have hround : (step sampleSize now)^[keys.length + 1 + 1] (.cycle (i :: is) total, dbs)
          = (.cycle (if keys.length * 4 ≤ max sampleSize 1 then is else i :: is)
            (total + keys.length), dbs') := by
        rw [Function.iterate_succ_apply, step, ← hkeys, iterate_cycleRemoving, hdbs']
      suffices hrest : ∃ n removed dbs'', (step sampleSize now)^[n]
          (.cycle (if keys.length * 4 ≤ max sampleSize 1 then is else i :: is)
            (total + keys.length), dbs') = (.finished (.ok removed), dbs'') by
        obtain ⟨m, removed, dbs'', hm⟩ := hrest
        refine ⟨m + (keys.length + 1 + 1), removed, dbs'', ?_⟩
        rw [Function.iterate_add_apply, hround, hm]
      split
      · exact ih _ _
      · rename_i hmany
        cases hcons : keys with
        | nil => simp [hcons] at hmany
        | cons k rest =>
          obtain ⟨e, he⟩ := find_of_sampledKeys (hkeys ▸ hcons ▸ List.mem_cons_self :
            k ∈ sampledKeys sampleSize now (dbs[i]?.getD ∅))
          refine again (entryCount dbs' i) ?_ _ _ rfl
          rw [← hn, hdbs', hcons]
          exact (entryCount_foldl_remove_le rest _ i).trans_lt (entryCount_remove_lt he)

end ExpiryTask

namespace ExpiryRace

variable {T : Type} [DecidableEq T] {sampleSize : ℕ} {now t₀ : UInt64} {s : ExpiryRace T}

omit [DecidableEq T] in
theorem Due.mono (h : s.Due t₀) (hle : t₀ ≤ now) : s.Due now := fun t i k hk =>
  Databases.liveEntry_mono hle (h t i k hk)

theorem task_run_self (t : T) : (s.run sampleSize (.task t now)).task t
    = (ExpiryTask.step sampleSize now (s.task t, s.databases)).1 := Function.update_self ..

theorem task_run_of_ne {t u : T} (h : u ≠ t) :
    (s.run sampleSize (.task t now)).task u = s.task u := Function.update_of_ne h ..

/-- What is still to be removed has expired, after an event as before it. -/
theorem Due.run {e : ExpiryEvent T} (h : s.Due e.now) (he : s.Spares e) :
    (s.run sampleSize e).Due e.now := by
  cases e with
  | command now m => exact he
  | task t now =>
    intro u i k hk
    rcases ExpiryTask.step_cases sampleSize now (s.task t) s.databases with
      ⟨hsame, hnew⟩ | ⟨j, k', hpending, hremove, hsub⟩
    · have hdbs : (s.run sampleSize (.task t now)).databases = s.databases := hsame
      rw [hdbs]
      by_cases hut : u = t
      · subst hut
        rw [task_run_self] at hk
        exact hnew i k hk
      · rw [task_run_of_ne hut] at hk
        exact h u i k hk
    · have hdbs : (s.run sampleSize (.task t now)).databases = s.databases.remove j k' := hremove
      have hgone : s.databases.liveEntry now j k' = none := h t j k' hpending
      rw [hdbs, ExpiryEvent.now, liveEntry_remove hgone]
      by_cases hut : u = t
      · subst hut
        rw [task_run_self] at hk
        exact h u i k (hsub hk)
      · rw [task_run_of_ne hut] at hk
        exact h u i k hk

/-- What is still to be removed has expired, after a run as before it. -/
theorem Due.foldl {es : List (ExpiryEvent T)} (hpair : es.Pairwise fun e f => e.now ≤ f.now)
    (hle : ∀ e ∈ es, e.now ≤ now) (hes : Run.Along (ExpiryRace.run sampleSize) Spares s es)
    (hdue : ∀ e ∈ es, s.Due e.now) (hlast : s.Due now) :
    (es.foldl (ExpiryRace.run sampleSize) s).Due now := by
  induction es generalizing s with
  | nil => exact hlast
  | cons e es ih =>
    obtain ⟨hhead, htail⟩ := List.pairwise_cons.mp hpair
    have hnext : (s.run sampleSize e).Due e.now := (hdue e List.mem_cons_self).run hes.1
    exact ih htail (fun f hf => hle f (List.mem_cons_of_mem _ hf)) hes.2
      (fun f hf => hnext.mono (hhead f hf)) (hnext.mono (hle e List.mem_cons_self))

/-- What a task removes has expired. -/
theorem Due.removed {t : T} (h : s.Due now) {i : ℕ} {k : Bytes} {e : Entry}
    (hbefore : s.databases.find i k = some e)
    (hafter : (s.run sampleSize (.task t now)).databases.find i k = none) :
    e.expired now = true := by
  rcases ExpiryTask.step_cases sampleSize now (s.task t) s.databases with
    ⟨hsame, -⟩ | ⟨j, k', hpending, hremove, -⟩
  · have hdbs : (s.run sampleSize (.task t now)).databases = s.databases := hsame
    rw [hdbs, hbefore] at hafter
    cases hafter
  · have hdbs : (s.run sampleSize (.task t now)).databases = s.databases.remove j k' := hremove
    rw [hdbs] at hafter
    by_cases hne : i ≠ j ∨ k ≠ k'
    · rw [Databases.find_remove_of_ne hne, hbefore] at hafter
      cases hafter
    · obtain ⟨rfl, rfl⟩ := not_or.mp hne |>.imp not_ne_iff.mp not_ne_iff.mp
      have hgone := h t i k hpending
      rw [Databases.liveEntry, hbefore, Option.filter_some] at hgone
      by_contra hlive
      simp [hlive] at hgone

end ExpiryRace

/-- **Expiry removes nothing that is live**, for any number of tasks and any commands in between: as
long as the clock is not set back and no command leaves a live entry under a key that a task has
collected and not removed yet, a task removes a key only when its entry has expired. -/
theorem expiry_spares_live {T : Type} [DecidableEq T] (sampleSize : ℕ) {s : ExpiryRace T}
    (hstart : ∀ t, (s.task t).pending = []) {es : List (ExpiryEvent T)}
    (hclock : es.Pairwise fun e f => e.now ≤ f.now)
    (hes : Run.Along (ExpiryRace.run sampleSize) ExpiryRace.Spares s es)
    {pre post : List (ExpiryEvent T)} {t : T} {now : UInt64}
    (hsplit : es = pre ++ ExpiryEvent.task t now :: post) {i : ℕ} {k : Bytes} {e : Entry}
    (hbefore : (pre.foldl (ExpiryRace.run sampleSize) s).databases.find i k = some e)
    (hafter : ((pre ++ [ExpiryEvent.task t now]).foldl (ExpiryRace.run sampleSize) s).databases.find
      i k = none) : e.expired now = true := by
  have hnone : ∀ c, s.Due c := by
    intro c u i k hk
    rw [hstart u] at hk
    exact absurd hk List.not_mem_nil
  rw [hsplit] at hclock hes
  obtain ⟨hpair, -, hcross⟩ := List.pairwise_append.mp hclock
  have hdue := ExpiryRace.Due.foldl hpair (fun e he => hcross e he _ List.mem_cons_self)
    (Run.along_append.mp hes).1 (fun e _ => hnone e.now) (hnone now)
  rw [List.foldl_append] at hafter
  exact hdue.removed hbefore hafter

/-- A store whose only key has expired, with `dbsize` and the cycle about to start on it. -/
def expiredSession : ExpiryRace Bool where
  databases := (Store.new 1).databases.put 0 (asBytes "session")
    { value := .string (asBytes "old"), expireAt := some 5 }
  task t := if t then .activeExpireCycle 1 else .dbsize 0

/-- A task collects the expired keys, and then a client stores a value under a key. -/
def collectedThenSet (t : Bool) (k : Bytes) : List (ExpiryEvent Bool) :=
  [.task t 7, .command 7 (Cmd.set (Moment.on ⟨7, 0, 0, 1⟩ Host.plain) 0 [k, asBytes "new"])]

/-- The key is removed by the task that has collected it. -/
theorem expiry_spares_live_otherKey :
    (Entry.expired 7 { value := .string (asBytes "old"), expireAt := some 5 }) = true := by
  have hsplit : collectedThenSet false (asBytes "other") ++ [ExpiryEvent.task false 7]
      = collectedThenSet false (asBytes "other") ++ ExpiryEvent.task false 7 :: [] := rfl
  have hbefore : ((collectedThenSet false (asBytes "other")).foldl (ExpiryRace.run 20)
      expiredSession).databases.find 0 (asBytes "session")
      = some { value := .string (asBytes "old"), expireAt := some 5 } := rfl
  refine expiry_spares_live 20 (fun t => ?_) (by decide) ?_ hsplit hbefore rfl
  · cases t <;> rfl
  · refine ⟨trivial, fun t i k hk => ?_, trivial, trivial⟩
    cases t
    · obtain ⟨rfl, rfl⟩ := Prod.mk.inj (List.mem_singleton.mp hk)
      rfl
    · exact absurd hk List.not_mem_nil

/-- A client stores the key after a task has collected it, and then the task removes it. -/
def LiveKeyRemoved (t : Bool) : Prop :=
  (((collectedThenSet t (asBytes "session")).foldl (ExpiryRace.run 20)
    expiredSession).databases.find 0 (asBytes "session")).map (fun e => e.expired 7) = some false ∧
  ((collectedThenSet t (asBytes "session") ++ [ExpiryEvent.task t 7]).foldl (ExpiryRace.run 20)
    expiredSession).databases.find 0 (asBytes "session") = none

/-- **Expiry removes a live key**, one that a client has stored after its expired entry was
collected, by either task. -/
theorem expiry_removes_live : LiveKeyRemoved false ∧ LiveKeyRemoved true :=
  ⟨⟨rfl, rfl⟩, ⟨rfl, rfl⟩⟩

end VeloDB
