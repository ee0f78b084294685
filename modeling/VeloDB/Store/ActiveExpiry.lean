import VeloDB.Store.Eviction

/-!
# The active expiry cycle

In every database the cycle takes a sample of keys with an expiry time, removes those that have
expired, and takes the next sample as long as more than a quarter of the sample size was removed.
The sample is what the iteration happens to yield first.

## Main results

* `activeExpireCycle_returns` — that the cycle ends, and what it has removed
-/

namespace VeloDB

open Rust

/-! ### The loops -/

/-- The loop over one database: what it has removed so far, and the last sample it has taken. -/
structure Sweep where
  db : Db
  removed : ℕ := 0
  sample : List (Bytes × Entry) := []
  /-- How often a database has been iterated. -/
  scans : ℕ := 0

namespace Sweep

variable (it : Iteration) (now : UInt64) (size : ℕ)

/-- The sample that is taken next. -/
def nextSample (sw : Sweep) : List (Bytes × Entry) :=
  ((it.order sw.scans sw.db).filter fun p => p.2.expireAt.isSome).take size

/-- The keys of the sample that have expired. -/
def expiredKeys (sw : Sweep) : List Bytes :=
  ((sw.nextSample it size).filter fun p => p.2.expired now).map Prod.fst

/-- One turn of the loop. -/
def turn (sw : Sweep) : Sweep where
  db := (sw.expiredKeys it now size).foldl (fun d k => d.erase k) sw.db
  removed := sw.removed + (sw.expiredKeys it now size).length
  sample := sw.nextSample it size
  scans := sw.scans + 1

/-- The loop. -/
def loop : ℕ → Sweep → Option Sweep
  | 0, _ => none
  | fuel + 1, sw =>
    if (sw.expiredKeys it now size).length * 4 ≤ size then some (turn it now size sw)
    else loop fuel (turn it now size sw)

/-- The loop over all databases. -/
def loopAll (fuel : ℕ) : ℕ → Databases → Option (List Sweep)
  | _, [] => some []
  | scans, d :: dbs => do
    let sw ← loop it now size fuel { db := d, scans := scans }
    let sws ← loopAll fuel sw.scans dbs
    pure (sw :: sws)

end Sweep

/-- `Store::active_expire_cycle`: how many keys have been removed, the last sample of each database,
and the store. -/
def Store.activeExpireCycle (it : Iteration) (now : UInt64) (sampleSize fuel : ℕ) (s : Store) :
    Option (ℕ × List (List (Bytes × Entry)) × Store) :=
  (Sweep.loopAll it now (max sampleSize 1) fuel 0 s.databases).map fun sws =>
    ((sws.map Sweep.removed).sum, sws.map Sweep.sample, ⟨sws.map Sweep.db, s.tables⟩)

/-! ### One turn -/

/-- The number of keys of a database that have an expiry time. -/
def volatileCount (d : Db) : ℕ := (d.pairs.filter fun p => p.2.expireAt.isSome).length

theorem volatileCount_eq (d : Db) :
    volatileCount d = d.weight fun _ e => if e.expireAt.isSome then 1 else 0 := by
  rw [volatileCount, HashMap.weight]
  induction d.pairs with
  | nil => rfl
  | cons p ps ih =>
    rw [List.map_cons, List.sum_cons, ← ih]
    cases hp : p.2.expireAt.isSome with
    | false => rw [List.filter_cons_of_neg (by simp [hp])]; simp
    | true => rw [List.filter_cons_of_pos (by simp [hp])]; simp [Nat.add_comm]

namespace Sweep

variable {it : Iteration} {now : UInt64} {size : ℕ} {sw : Sweep} {k : Bytes} {e : Entry}

theorem mem_order {p : Bytes × Entry} :
    p ∈ it.order sw.scans sw.db ↔ sw.db.lookup p.1 = some p.2 := by
  rw [(it.perm _ _).mem_iff, ← HashMap.mem_pairs]

theorem lookup_of_mem_sample {p : Bytes × Entry} (hp : p ∈ sw.nextSample it size) :
    sw.db.lookup p.1 = some p.2 :=
  mem_order.mp (List.mem_filter.mp (List.mem_of_mem_take hp)).1

theorem mem_expiredKeys (hk : k ∈ sw.expiredKeys it now size) :
    ∃ e, sw.db.lookup k = some e ∧ e.expired now = true := by
  obtain ⟨p, hp, rfl⟩ := List.mem_map.mp hk
  obtain ⟨hsample, hexp⟩ := List.mem_filter.mp hp
  exact ⟨p.2, lookup_of_mem_sample hsample, hexp⟩

theorem nodup_expiredKeys : (sw.expiredKeys it now size).Nodup := by
  have hnd : ((it.order sw.scans sw.db).map Prod.fst).Nodup :=
    ((it.perm _ _).map Prod.fst).nodup_iff.mpr sw.db.nodup_pairs
  refine hnd.sublist (List.Sublist.map _ (List.filter_sublist.trans ?_))
  exact (List.take_sublist _ _).trans List.filter_sublist

theorem lookup_turn_of_mem (hk : k ∈ sw.expiredKeys it now size) :
    (sw.turn it now size).db.lookup k = none := by
  rw [turn, HashMap.lookup_foldl_erase, if_pos hk]

theorem lookup_turn_of_notMem (hk : k ∉ sw.expiredKeys it now size) :
    (sw.turn it now size).db.lookup k = sw.db.lookup k := by
  rw [turn, HashMap.lookup_foldl_erase, if_neg hk]

/-- Keys that are all there are erased one by one. -/
theorem weight_foldl_erase {ks : List Bytes} (hnd : ks.Nodup) {d : Db}
    (hks : ∀ k ∈ ks, (d.lookup k).isSome) :
    HashMap.weight (fun _ _ => 1) (ks.foldl (fun d k => d.erase k) d) + ks.length
      = d.weight fun _ _ => 1 := by
  induction ks generalizing d with
  | nil => rfl
  | cons k ks ih =>
    obtain ⟨hk, hnd'⟩ := List.nodup_cons.mp hnd
    have hrest := ih hnd' (d := d.erase k) fun k' hk' => by
      rw [AList.lookup_erase_ne (ne_of_mem_of_not_mem hk' hk)]
      exact hks k' (List.mem_cons_of_mem _ hk')
    have herase := HashMap.weight_erase (fun _ _ => 1) d k
    obtain ⟨e, he⟩ := Option.isSome_iff_exists.mp (hks k List.mem_cons_self)
    rw [he] at herase
    rw [List.foldl_cons, List.length_cons]
    change _ + 1 = _ at herase
    omega

/-! ### The loop -/

/-- What holds between two turns of the loop over a database. -/
structure Swept (now : UInt64) (d : Db) (sw : Sweep) : Prop where
  kept : ∀ k e, sw.db.lookup k = some e → d.lookup k = some e
  live : ∀ k e, d.lookup k = some e → e.expired now = false → sw.db.lookup k = some e
  count : HashMap.weight (fun _ _ => 1) sw.db + sw.removed = d.weight fun _ _ => 1
  volatile : volatileCount sw.db ≤ volatileCount d

variable {d : Db}

theorem Swept.start (scans : ℕ) : Swept now d { db := d, scans := scans } where
  kept _ _ he := he
  live _ _ he _ := he
  count := rfl
  volatile := le_rfl

/-- **Step.** -/
theorem Swept.turn (h : Swept now d sw) : Swept now d (sw.turn it now size) where
  kept k e he := by
    by_cases hk : k ∈ sw.expiredKeys it now size
    · rw [lookup_turn_of_mem hk] at he
      cases he
    · rw [lookup_turn_of_notMem hk] at he
      exact h.kept k e he
  live k e he hlive := by
    have hsw := h.live k e he hlive
    have hk : k ∉ sw.expiredKeys it now size := by
      intro hk
      obtain ⟨e', he', hexp⟩ := mem_expiredKeys hk
      obtain rfl := Option.some.inj (hsw.symm.trans he')
      rw [hlive] at hexp
      cases hexp
    rw [lookup_turn_of_notMem hk]
    exact hsw
  count := by
    have hthere : ∀ k ∈ sw.expiredKeys it now size, (sw.db.lookup k).isSome := by
      intro k hk
      obtain ⟨e, he, -⟩ := mem_expiredKeys hk
      rw [he]
      rfl
    rw [← h.count, ← weight_foldl_erase nodup_expiredKeys hthere, Nat.add_assoc,
      Nat.add_comm _ sw.removed]
    rfl
  volatile := by
    refine Nat.le_trans ?_ h.volatile
    rw [volatileCount_eq, volatileCount_eq]
    exact HashMap.weight_foldl_erase_le _ _ _

/-- What the loop over a database leaves. -/
structure Final (now : UInt64) (size : ℕ) (d : Db) (sw : Sweep) : Prop where
  swept : Swept now d sw
  few : volatileCount d ≤ size → ∀ k e, sw.db.lookup k = some e → e.expired now = false
  last : (sw.sample.filter fun p => p.2.expired now).length ≤ size / 4
  gone : ∀ p ∈ sw.sample, p.2.expired now = true → sw.db.lookup p.1 = none

theorem expiredKeys_of_few (hfew : volatileCount sw.db ≤ size) (he : sw.db.lookup k = some e)
    (hexp : e.expired now = true) : k ∈ sw.expiredKeys it now size := by
  have hvolatile : e.expireAt.isSome = true := by
    rw [Entry.expired] at hexp
    cases hat : e.expireAt with
    | none => simp [hat] at hexp
    | some at_ => rfl
  have hlength : ((it.order sw.scans sw.db).filter fun p => p.2.expireAt.isSome).length ≤ size :=
    ((it.perm _ _).filter _).length_eq.trans_le hfew
  rw [expiredKeys, nextSample, List.take_of_length_le hlength]
  refine List.mem_map.mpr ⟨(k, e), List.mem_filter.mpr ⟨List.mem_filter.mpr ⟨?_, hvolatile⟩, hexp⟩,
    rfl⟩
  exact mem_order.mpr he

theorem Swept.final (h : Swept now d sw)
    (hlast : (sw.expiredKeys it now size).length * 4 ≤ size) :
    Final now size d (sw.turn it now size) where
  swept := h.turn
  few hfew k e he := by
    by_cases hk : k ∈ sw.expiredKeys it now size
    · rw [lookup_turn_of_mem hk] at he
      cases he
    · rw [lookup_turn_of_notMem hk] at he
      exact Bool.eq_false_iff.mpr fun hexp =>
        hk (expiredKeys_of_few (h.volatile.trans hfew) he hexp)
  last := by
    rw [expiredKeys, List.length_map] at hlast
    exact (Nat.le_div_iff_mul_le (by decide)).mpr hlast
  gone p hp hexp :=
    lookup_turn_of_mem (List.mem_map_of_mem (List.mem_filter.mpr ⟨hp, hexp⟩))

/-- **The loop ends**: every turn but the last removes a key. -/
theorem Swept.loop_returns (it : Iteration) (h : Swept now d sw) (hsize : 1 ≤ size) :
    ∃ sw', (∀ fuel, HashMap.weight (fun _ _ => 1) sw.db < fuel →
      loop it now size fuel sw = some sw') ∧ Final now size d sw' := by
  induction hn : HashMap.weight (fun _ _ => 1) sw.db using Nat.strong_induction_on
    generalizing sw with
  | _ n ih =>
    subst hn
    by_cases hlast : (sw.expiredKeys it now size).length * 4 ≤ size
    · refine ⟨sw.turn it now size, fun fuel hfuel => ?_, h.final hlast⟩
      obtain ⟨fuel, rfl⟩ := Nat.exists_eq_add_one_of_ne_zero (Nat.ne_zero_of_lt hfuel)
      rw [loop, if_pos hlast]
    · have hfewer : HashMap.weight (fun _ _ => 1) (sw.turn it now size).db
          < HashMap.weight (fun _ _ => 1) sw.db := by
        have hcount := h.count
        have hturn : Swept now d (sw.turn it now size) := h.turn
        have hcount' := hturn.count
        rw [Sweep.turn] at hcount' ⊢
        dsimp only at hcount' ⊢
        omega
      obtain ⟨sw', hloop, hfinal⟩ := ih _ hfewer h.turn rfl
      refine ⟨sw', fun fuel hfuel => ?_, hfinal⟩
      obtain ⟨fuel, rfl⟩ := Nat.exists_eq_add_one_of_ne_zero (Nat.ne_zero_of_lt hfuel)
      rw [loop, if_neg hlast]
      exact hloop fuel (by omega)

theorem loopAll_returns (it : Iteration) (now : UInt64) (hsize : 1 ≤ size) (scans : ℕ)
    (dbs : Databases) : ∃ sws,
      (∀ fuel, dbs.keyCount < fuel → loopAll it now size fuel scans dbs = some sws) ∧
        List.Forall₂ (Final now size) dbs sws := by
  induction dbs generalizing scans with
  | nil => exact ⟨[], fun _ _ => rfl, .nil⟩
  | cons d dbs ih =>
    obtain ⟨sw, hloop, hfinal⟩ := (Swept.start scans).loop_returns it hsize
    obtain ⟨sws, hall, hfinals⟩ := ih sw.scans
    refine ⟨sw :: sws, fun fuel hfuel => ?_, .cons hfinal hfinals⟩
    have hsum : HashMap.weight (fun _ _ => 1) d + Databases.keyCount dbs < fuel := hfuel
    rw [loopAll, hloop fuel (by dsimp only; omega)]
    change (loopAll it now size fuel sw.scans dbs >>= fun sws => pure (sw :: sws)) = _
    rw [hall fuel (by omega)]
    rfl

/-! ### Nothing to remove -/

section Fresh

variable {it : Iteration} {now : UInt64} {size : ℕ}

theorem expiredKeys_of_fresh {sw : Sweep}
    (h : ∀ k e, sw.db.lookup k = some e → e.expired now = false) :
    sw.expiredKeys it now size = [] := by
  refine List.eq_nil_iff_forall_not_mem.mpr fun k hk => ?_
  obtain ⟨e, he, hexp⟩ := mem_expiredKeys hk
  rw [h k e he] at hexp
  cases hexp

/-- Where nothing has expired, the databases stay as they are. -/
theorem loopAll_of_fresh {dbs : Databases} (fuel scans : ℕ)
    (h : ∀ d ∈ dbs, ∀ k e, AList.lookup k d = some e → e.expired now = false) :
    ∃ sws, loopAll it now size (fuel + 1) scans dbs = some sws ∧ sws.map Sweep.db = dbs := by
  induction dbs generalizing scans with
  | nil => exact ⟨[], rfl, rfl⟩
  | cons d dbs ih =>
    let sw : Sweep := { db := d, scans := scans }
    have hnone : sw.expiredKeys it now size = [] :=
      expiredKeys_of_fresh (h d List.mem_cons_self)
    have hturn : (sw.turn it now size).db = d := by
      rw [turn, hnone]
      rfl
    obtain ⟨sws, hall, hsame⟩ := ih (scans + 1) fun d' hd' => h d' (List.mem_cons_of_mem _ hd')
    refine ⟨sw.turn it now size :: sws, ?_, by rw [List.map_cons, hturn, hsame]⟩
    have hloop : loop it now size (fuel + 1) sw = some (sw.turn it now size) := by
      rw [loop, hnone]
      exact if_pos (Nat.zero_le _)
    rw [loopAll, hloop]
    change (loopAll it now size (fuel + 1) (scans + 1) dbs >>= fun sws => pure (_ :: sws)) = _
    rw [hall]
    rfl

end Fresh

end Sweep

/-- **A cycle that finds nothing expired** changes nothing. -/
theorem Store.activeExpireCycle_of_fresh {now : UInt64} {s : Store} (it : Iteration)
    (size fuel : ℕ) (h : ∀ i k e, s.databases.find i k = some e → e.expired now = false) :
    (s.activeExpireCycle it now size (fuel + 1)).map (fun r => r.2.2) = some s := by
  have hfresh : ∀ d ∈ s.databases, ∀ k e, AList.lookup k d = some e → e.expired now = false := by
    intro d hd k e he
    obtain ⟨i, hi, rfl⟩ := List.mem_iff_getElem.mp hd
    refine h i k e ?_
    rw [Databases.find, List.getElem?_eq_getElem hi]
    exact he
  obtain ⟨sws, hall, hsame⟩ : ∃ sws, Sweep.loopAll it now (max size 1) (fuel + 1) 0 s.databases
      = some sws ∧ sws.map Sweep.db = s.databases := Sweep.loopAll_of_fresh fuel 0 hfresh
  rw [activeExpireCycle, hall, Option.map_some, Option.map_some, hsame]

/-! ### The result -/

/-- What `active_expire_cycle` returns and leaves; `samples` are the last samples it has taken, one
for each database. -/
structure ExpiryResult (now : UInt64) (size : ℕ) (s : Store) (removed : ℕ)
    (samples : List (List (Bytes × Entry))) (s' : Store) : Prop where
  kept : ∀ i k e, s'.databases.find i k = some e → s.databases.find i k = some e
  /-- Only expired entries are removed. -/
  live : ∀ i k, s'.databases.liveEntry now i k = s.databases.liveEntry now i k
  count : s'.databases.keyCount + removed = s.databases.keyCount
  /-- A database that fits into a sample has no expired entry left. -/
  few : ∀ i d, s.databases[i]? = some d → volatileCount d ≤ size →
    ∀ k e, s'.databases.find i k = some e → e.expired now = false
  /-- The last sample of a database has few expired entries, and they are removed. -/
  last : ∀ i d, s.databases[i]? = some d → ∃ sample, samples[i]? = some sample ∧
    (sample.filter fun p => p.2.expired now).length ≤ size / 4 ∧
    ∀ p ∈ sample, p.2.expired now = true → s'.databases.find i p.1 = none

namespace Sweep

variable {now : UInt64} {size : ℕ} {dbs : Databases} {sws : List Sweep}

/-- Every database has its loop. -/
theorem final_of_getElem (h : List.Forall₂ (Final now size) dbs sws) (i : ℕ) :
    (dbs[i]? = none ∧ sws[i]? = none) ∨
      ∃ d sw, dbs[i]? = some d ∧ sws[i]? = some sw ∧ Final now size d sw := by
  induction h generalizing i with
  | nil => exact Or.inl ⟨rfl, rfl⟩
  | @cons d sw dbs sws hfinal _ ih =>
    cases i with
    | zero => exact Or.inr ⟨d, sw, rfl, rfl, hfinal⟩
    | succ i => exact ih i

theorem keyCount_of_final (h : List.Forall₂ (Final now size) dbs sws) :
    Databases.keyCount (sws.map Sweep.db) + (sws.map Sweep.removed).sum = dbs.keyCount := by
  induction h with
  | nil => rfl
  | @cons d sw dbs sws hfinal _ ih =>
    have hcount := hfinal.swept.count
    simp only [Databases.keyCount, Databases.weigh, List.map_cons, List.sum_cons] at ih ⊢
    omega

/-- What is in a database afterwards. -/
theorem find_of_final {i : ℕ} {sw : Sweep} (hsw : sws[i]? = some sw) (k : Bytes) :
    Databases.find (sws.map Sweep.db) i k = sw.db.lookup k := by
  rw [Databases.find, List.getElem?_map, hsw]
  rfl

theorem result_of_final {s : Store} (h : List.Forall₂ (Final now size) s.databases sws) :
    ExpiryResult now size s (sws.map Sweep.removed).sum (sws.map Sweep.sample)
      ⟨sws.map Sweep.db, s.tables⟩ where
  kept i k e he := by
    rcases final_of_getElem h i with ⟨-, hnone⟩ | ⟨d, sw, hd, hsw, hfinal⟩
    · rw [Databases.find, List.getElem?_map, hnone] at he
      cases he
    · rw [find_of_final hsw] at he
      rw [Databases.find, hd]
      exact hfinal.swept.kept k e he
  live i k := by
    rcases final_of_getElem h i with ⟨hnone, hnone'⟩ | ⟨d, sw, hd, hsw, hfinal⟩
    · rw [Databases.liveEntry, Databases.liveEntry, Databases.find, Databases.find,
        List.getElem?_map, hnone, hnone']
      rfl
    · have hdb : (sws.map Sweep.db)[i]? = some sw.db := by rw [List.getElem?_map, hsw]; rfl
      refine Option.ext fun e => ?_
      rw [Databases.liveEntry_eq hdb, Databases.liveEntry_eq hd, Option.filter_eq_some_iff,
        Option.filter_eq_some_iff]
      refine and_congr_left fun hlive => ⟨hfinal.swept.kept k e, fun he => ?_⟩
      exact hfinal.swept.live k e he (by simpa using hlive)
  count := keyCount_of_final h
  few i d hd hfew k e he := by
    rcases final_of_getElem h i with ⟨hnone, -⟩ | ⟨d', sw, hd', hsw, hfinal⟩
    · cases hd.symm.trans hnone
    · obtain rfl := Option.some.inj (hd.symm.trans hd')
      rw [find_of_final hsw] at he
      exact hfinal.few hfew k e he
  last i d hd := by
    rcases final_of_getElem h i with ⟨hnone, -⟩ | ⟨d', sw, hd', hsw, hfinal⟩
    · cases hd.symm.trans hnone
    · refine ⟨sw.sample, by rw [List.getElem?_map, hsw]; rfl, hfinal.last, fun p hp hexp => ?_⟩
      rw [find_of_final hsw]
      exact hfinal.gone p hp hexp

end Sweep

/-- **The cycle ends**, and it removes only what has expired, whatever the orders of the iterations
are. -/
theorem activeExpireCycle_returns (it : Iteration) (now : UInt64) (sampleSize : ℕ) (s : Store) :
    ∃ removed samples s', (∀ fuel, s.databases.keyCount < fuel →
        s.activeExpireCycle it now sampleSize fuel = some (removed, samples, s')) ∧
      ExpiryResult now (max sampleSize 1) s removed samples s' := by
  obtain ⟨sws, hloop, hfinal⟩ := Sweep.loopAll_returns it now (le_max_right sampleSize 1) 0
    s.databases
  refine ⟨(sws.map Sweep.removed).sum, sws.map Sweep.sample, ⟨sws.map Sweep.db, s.tables⟩,
    fun fuel hfuel => ?_, Sweep.result_of_final hfinal⟩
  rw [Store.activeExpireCycle, hloop fuel hfuel]
  rfl

end VeloDB
