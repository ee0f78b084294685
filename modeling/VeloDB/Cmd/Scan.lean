import VeloDB.Cmd.Generic
import VeloDB.Lib.Paging

/-!
# What a scan returns

A scan remembers the last key of its page in the table of cursors, under a token that is never given
out again. Between two pages other clients change the keys as they like and run scans of their own;
as long as the token is in the table, what is found under it is the key the page ended with.

## Main results

* `isPage_scanKeys` — one call returns a page, in the sense of `Paging`
* `scan_exactly_once` — a whole scan
-/

namespace VeloDB

open Rust

/-! ### The order of the keys -/

local instance byteOrder : LinearOrder UInt8 where
  le_refl := UInt8.le_refl
  le_trans _ _ _ := UInt8.le_trans
  le_antisymm _ _ := UInt8.le_antisymm
  le_total := UInt8.le_total
  lt_iff_le_not_ge a b := by
    rw [UInt8.not_le]
    exact ⟨fun h => ⟨UInt8.le_of_lt h, h⟩, fun h => h.2⟩
  toDecidableLE := inferInstance
  toDecidableLT := inferInstance
  toDecidableEq := inferInstance

theorem bytesLe_iff {a b : Bytes} : bytesLe a b = true ↔ a ≤ b := by
  rw [bytesLe, bne_iff_ne, compareOfLessAndEq]
  split_ifs with hlt heq
  · exact ⟨fun _ => hlt.le, fun _ h => nomatch h⟩
  · exact ⟨fun _ => heq.le, fun _ h => nomatch h⟩
  · exact ⟨fun h => absurd rfl h, fun hle _ => (lt_or_eq_of_le hle).elim hlt heq⟩

theorem compare_gt_iff {a b : Bytes} : (compareOfLessAndEq a b == .gt) = true ↔ b < a := by
  rw [beq_iff_eq, ← not_le, ← bytesLe_iff, bytesLe, bne_iff_ne, not_not]

/-- The place a scan has come to: behind a key, or at the beginning. -/
def place : Option Bytes → WithBot Bytes
  | none => ⊥
  | some k => k

theorem mem_keysAfter {d : Db} {after : Option Bytes} {k : Bytes} :
    k ∈ keysAfter d after ↔ k ∈ d ∧ place after < k := by
  rw [keysAfter, List.mem_mergeSort, List.mem_filter, AList.mem_keys]
  cases after with
  | none => simp [place]
  | some s => rw [place, WithBot.coe_lt_coe, compare_gt_iff]

/-- The keys are in strict order, as they come once each. -/
theorem pairwise_keysAfter (d : Db) (after : Option Bytes) :
    (keysAfter d after).Pairwise (· < ·) := by
  have hle : (keysAfter d after).Pairwise (· ≤ ·) := by
    refine (List.pairwise_mergeSort (fun a b c => ?_) (fun a b => ?_) _).imp fun h => bytesLe_iff.mp h
    · simp only [bytesLe_iff]
      exact le_trans
    · simp only [Bool.or_eq_true, bytesLe_iff]
      exact le_total a b
  have hnd : (keysAfter d after).Nodup :=
    (List.mergeSort_perm _ _).nodup_iff.mpr (d.keys_nodup.filter _)
  exact (List.Pairwise.and hle hnd).imp fun h => lt_of_le_of_ne h.1 h.2

/-! ### One page -/

/-- A key that is live and matches. -/
def Visible (now : UInt64) (dbs : Databases) (i : ℕ) (pattern : Option String) (k : Bytes) : Prop :=
  (dbs.liveEntry now i k).isSome = true ∧ Cmd.matchesPattern pattern k = true

/-- Where the scan with a cursor goes on, if the cursor is known. -/
def scanStart (cursor : UInt64) (t : Tables) : Option (Option Bytes) :=
  if cursor = 0 then some none else (t.scanCursors.lookup cursor.toNat).map some

/-- The keys a page shows of those it goes over. -/
def visibleOf (now : UInt64) (d : Db) (pattern : Option String) (page : List Bytes) : List Bytes :=
  page.filter fun k =>
    (match d.lookup k with
      | some e => !e.expired now
      | none => false) && Cmd.matchesPattern pattern k

theorem mem_visibleOf {now : UInt64} {dbs : Databases} {i : ℕ} {d : Db} (hd : dbs[i]? = some d)
    {pattern : Option String} {page : List Bytes} {k : Bytes} :
    k ∈ visibleOf now d pattern page ↔ k ∈ page ∧ Visible now dbs i pattern k := by
  rw [visibleOf, List.mem_filter, Bool.and_eq_true, Visible, Databases.liveEntry_eq hd]
  cases d.lookup k with
  | none => simp
  | some e => cases he : e.expired now <;> simp [Option.filter, he]

variable {now : UInt64} {dbs : Databases} {i : ℕ} {cursor : UInt64} {pattern : Option String}
  {count : ℕ} {t t' : Tables} {n : ℕ} {keys : List Bytes}

/-- The tables after a page that is not the last one. -/
def remember (cursor : UInt64) (last : Bytes) (t : Tables) : Tables :=
  let cursors := t.scanCursors.erase cursor.toNat
  { t with
    scanCursors := (if maxScanCursors ≤ HashMap.size cursors then ∅ else cursors).insert
      t.nextScanCursor last
    nextScanCursor := t.nextScanCursor + 1 }

theorem ofExcept_db {d : Db} (hd : dbs[i]? = some d) (t : Tables) :
    (Proc.ofExcept (ofResult (dbs.db i)) : TableM Db) t = (.ok d, t) := by
  rw [Databases.db, hd]
  rfl

/-- **What a call does** when its cursor is known. -/
theorem scanKeys_run {d : Db} (hd : dbs[i]? = some d) {after : Option Bytes}
    (hafter : scanStart cursor t = some after) {l : List Bytes} (hl : keysAfter d after = l) :
    Tables.scanKeys now dbs i cursor pattern count t
      = if max count 1 < l.length then
          (.ok (t.nextScanCursor, visibleOf now d pattern (l.take (max count 1))),
            remember cursor ((l.take (max count 1)).getLast?.getD []) t)
        else (.ok (0, visibleOf now d pattern (l.take (max count 1))),
          { t with scanCursors := t.scanCursors.erase cursor.toNat }) := by
  subst hl
  rw [scanStart] at hafter
  rw [Tables.scanKeys, Proc.bind_ok (ofExcept_db hd t), Proc.get_bind, hafter]
  dsimp only
  rw [Proc.modify_bind]
  split <;> rfl

theorem exists_db_of_scanKeys {r : ℕ × List Bytes}
    (h : Tables.scanKeys now dbs i cursor pattern count t = (.ok r, t')) : ∃ d, dbs[i]? = some d := by
  rw [Tables.scanKeys, Databases.db] at h
  cases hd : dbs[i]? with
  | none =>
    rw [hd] at h
    cases h
  | some d => exact ⟨d, rfl⟩

/-- **One call returns a page.** It ends behind the key that is remembered, or is the last one. -/
theorem isPage_scanKeys {after : Option Bytes} (hafter : scanStart cursor t = some after)
    (hnext : 0 < t.nextScanCursor)
    (h : Tables.scanKeys now dbs i cursor pattern count t = (.ok (n, keys), t')) :
    (n = 0 ∧ Paging.IsPage (Visible now dbs i pattern) (place after) none keys) ∨
    (n ≠ 0 ∧ n < t'.nextScanCursor ∧ ∃ last, t'.scanCursors.lookup n = some last ∧
      Paging.IsPage (Visible now dbs i pattern) (place after) (some last) keys) := by
  obtain ⟨d, hd⟩ := exists_db_of_scanKeys h
  rw [scanKeys_run hd hafter rfl] at h
  have habove : ∀ k ∈ (keysAfter d after).take (max count 1), place after < k :=
    fun k hk => (mem_keysAfter.mp (List.mem_of_mem_take hk)).2
  have hnodup : (visibleOf now d pattern ((keysAfter d after).take (max count 1))).Nodup :=
    (((pairwise_keysAfter d after).imp ne_of_lt).sublist (List.take_sublist _ _)).filter _
  have hmem : ∀ k, Visible now dbs i pattern k → place after < k → k ∈ keysAfter d after := by
    intro k hk hlt
    obtain ⟨e, he⟩ := Option.isSome_iff_exists.mp hk.1
    rw [Databases.liveEntry_eq hd] at he
    exact mem_keysAfter.mpr
      ⟨AList.lookup_isSome.mp (Option.isSome_of_eq_some (Option.filter_eq_some_iff.mp he).1), hlt⟩
  by_cases hmore : max count 1 < (keysAfter d after).length
  case neg =>
    rw [if_neg hmore] at h
    obtain ⟨hres, -⟩ := Prod.mk.inj h
    obtain ⟨rfl, rfl⟩ := Prod.mk.inj (Except.ok.inj hres)
    refine Or.inl ⟨rfl, ?_, (fun h hh => nomatch hh), hnodup, ?_, (fun h hh => nomatch hh)⟩
    · exact fun k hk => habove k ((mem_visibleOf hd).mp hk).1
    · intro k hk hlt _
      rw [mem_visibleOf hd, List.take_of_length_le (not_lt.mp hmore)]
      exact ⟨hmem k hk hlt, hk⟩
  case pos =>
    rw [if_pos hmore] at h
    obtain ⟨hres, rfl⟩ := Prod.mk.inj h
    obtain ⟨rfl, rfl⟩ := Prod.mk.inj (Except.ok.inj hres)
    have hne : (keysAfter d after).take (max count 1) ≠ [] := by
      rw [← List.length_pos_iff, List.length_take]
      omega
    obtain ⟨last, hl⟩ := Option.ne_none_iff_exists'.mp fun hnone =>
      hne (List.getLast?_eq_none_iff.mp hnone)
    rw [hl, Option.getD_some]
    have hcut : ∀ k ∈ keysAfter d after,
        (k ∈ (keysAfter d after).take (max count 1) ↔ k ≤ last) :=
      fun k hk => Paging.mem_take_iff (pairwise_keysAfter d after) hl hk
    refine Or.inr ⟨hnext.ne', Nat.lt_succ_self _, last, AList.lookup_insert _, ?_, ?_, hnodup, ?_, ?_⟩
    · exact fun k hk => habove k ((mem_visibleOf hd).mp hk).1
    · intro m hm k hk
      obtain rfl := Option.some.inj hm
      have hk := ((mem_visibleOf hd).mp hk).1
      exact (hcut k (List.mem_of_mem_take hk)).mp hk
    · intro k hk hlt hle
      have hkeys := hmem k hk hlt
      exact (mem_visibleOf hd).mpr ⟨(hcut k hkeys).mpr (hle last rfl), hk⟩
    · intro m hm
      obtain rfl := Option.some.inj hm
      exact habove last (List.mem_of_getLast? hl)

/-- A page shows nothing else. -/
theorem visible_of_scanKeys {after : Option Bytes} (hafter : scanStart cursor t = some after)
    (h : Tables.scanKeys now dbs i cursor pattern count t = (.ok (n, keys), t')) {k : Bytes}
    (hk : k ∈ keys) : Visible now dbs i pattern k := by
  obtain ⟨d, hd⟩ := exists_db_of_scanKeys h
  rw [scanKeys_run hd hafter rfl] at h
  split at h
  all_goals
    obtain ⟨hres, -⟩ := Prod.mk.inj h
    obtain ⟨-, rfl⟩ := Prod.mk.inj (Except.ok.inj hres)
    exact ((mem_visibleOf hd).mp hk).2

/-! ### The table of cursors -/

/-- What others do to the tables meanwhile: scans of their own, and whatever leaves the cursors as
they are. -/
inductive TableStep : Tables → Tables → Prop
  | scan (now : UInt64) (dbs : Databases) (i : ℕ) (cursor : UInt64) (pattern : Option String)
    (count : ℕ) (t : Tables) : TableStep t (Tables.scanKeys now dbs i cursor pattern count t).2
  | other {t t' : Tables} (hcursors : t'.scanCursors = t.scanCursors)
    (hnext : t'.nextScanCursor = t.nextScanCursor) : TableStep t t'

/-- Tokens are given out once: one that was given out can only go. -/
structure Follows (t t' : Tables) : Prop where
  next : t.nextScanCursor ≤ t'.nextScanCursor
  kept : ∀ n k, n < t.nextScanCursor → t'.scanCursors.lookup n = some k →
    t.scanCursors.lookup n = some k

theorem Follows.refl (t : Tables) : Follows t t := ⟨le_rfl, fun _ _ _ h => h⟩

theorem Follows.trans {t t' t'' : Tables} (h : Follows t t') (h' : Follows t' t'') :
    Follows t t'' where
  next := h.next.trans h'.next
  kept := fun n k hn hk => h.kept n k hn (h'.kept n k (hn.trans_le h.next) hk)

theorem lookup_of_erase {m : HashMap ℕ Bytes} {n a : ℕ} {k : Bytes}
    (h : (m.erase a).lookup n = some k) : m.lookup n = some k := by
  by_cases hna : n = a
  · rw [hna, AList.lookup_erase] at h
    cases h
  · rwa [AList.lookup_erase_ne hna] at h

theorem follows_scanKeys (now : UInt64) (dbs : Databases) (i : ℕ) (cursor : UInt64)
    (pattern : Option String) (count : ℕ) (t : Tables) :
    Follows t (Tables.scanKeys now dbs i cursor pattern count t).2 := by
  cases hd : dbs[i]? with
  | none =>
    rw [Tables.scanKeys, Databases.db, hd]
    exact Follows.refl t
  | some d =>
    cases hafter : scanStart cursor t with
    | none =>
      rw [scanStart] at hafter
      rw [Tables.scanKeys, Proc.bind_ok (ofExcept_db hd t), Proc.get_bind, hafter]
      exact Follows.refl t
    | some after =>
      rw [scanKeys_run hd hafter rfl]
      split
      · refine ⟨Nat.le_succ _, fun n k hn hk => lookup_of_erase (a := cursor.toNat) ?_⟩
        have hins := (AList.lookup_insert_ne (Nat.ne_of_lt hn)).symm.trans hk
        split at hins
        · cases hins
        · exact hins
      · exact ⟨le_rfl, fun n k _ hk => lookup_of_erase hk⟩

theorem TableStep.follows {t t' : Tables} (h : TableStep t t') : Follows t t' := by
  cases h with
  | scan now dbs i cursor pattern count => exact follows_scanKeys ..
  | other hcursors hnext => exact ⟨hnext.ge, fun n k _ hk => hcursors ▸ hk⟩

theorem follows_of_steps {t t' : Tables} (h : Relation.ReflTransGen TableStep t t') :
    Follows t t' := by
  induction h with
  | refl => exact Follows.refl t
  | tail _ hstep ih => exact ih.trans hstep.follows

/-! ### A whole scan -/

/-- What a page finds when it is asked for, and how many keys it is asked to go over. -/
structure PageRequest where
  now : UInt64
  databases : Databases
  count : ℕ

/-- A scan from a cursor to its end. Each cursor is presented while it is in the table. -/
inductive Scan (i : ℕ) (pattern : Option String) :
    UInt64 → Tables → List PageRequest → List (List Bytes) → Prop
  | last {cursor : UInt64} {t t' : Tables} {q : PageRequest} {keys : List Bytes}
    (hcursor : cursor = 0 ∨ cursor.toNat ∈ t.scanCursors)
    (h : Tables.scanKeys q.now q.databases i cursor pattern q.count t = (.ok (0, keys), t')) :
    Scan i pattern cursor t [q] [keys]
  | next {cursor cursor' : UInt64} {t t' t'' : Tables} {q : PageRequest} {keys : List Bytes}
    {requests : List PageRequest} {pages : List (List Bytes)}
    (hcursor : cursor = 0 ∨ cursor.toNat ∈ t.scanCursors)
    (h : Tables.scanKeys q.now q.databases i cursor pattern q.count t
      = (.ok (cursor'.toNat, keys), t')) (hmore : cursor' ≠ 0)
    (hothers : Relation.ReflTransGen TableStep t' t'')
    (hrest : Scan i pattern cursor' t'' requests pages) :
    Scan i pattern cursor t (q :: requests) (keys :: pages)

theorem scanStart_of_mem {cursor : UInt64} {t : Tables}
    (h : cursor = 0 ∨ cursor.toNat ∈ t.scanCursors) : ∃ after, scanStart cursor t = some after := by
  rw [scanStart]
  split_ifs with h0
  · exact ⟨none, rfl⟩
  · obtain ⟨k, hk⟩ := Option.isSome_iff_exists.mp (AList.lookup_isSome.mpr (h.resolve_left h0))
    exact ⟨some k, by rw [hk]; rfl⟩

/-- The pages of a scan are pages in the order of the keys. -/
theorem Scan.pages {requests : List PageRequest} {pages : List (List Bytes)}
    (h : Scan i pattern cursor t requests pages) (hnext : 0 < t.nextScanCursor)
    {after : Option Bytes} (hafter : scanStart cursor t = some after) :
    Paging.Pages (place after)
      (requests.map fun q => Visible q.now q.databases i pattern) pages := by
  induction h generalizing after with
  | last hcursor h =>
    rcases isPage_scanKeys hafter hnext h with ⟨-, hpage⟩ | ⟨hne, -⟩
    · exact .last hpage
    · exact absurd rfl hne
  | @next cursor cursor' t t' t'' q keys requests pages hcursor h hmore hothers hrest ih =>
    rcases isPage_scanKeys hafter hnext h with ⟨hzero, -⟩ | ⟨-, hlt, last, hlast, hpage⟩
    · exact absurd (UInt64.toNat_inj.mp hzero) hmore
    · -- The token is still in the table, so it stands for the key it was given out for.
      have hfollows := follows_of_steps hothers
      have hcursor' : cursor' = 0 ∨ cursor'.toNat ∈ t''.scanCursors := by
        cases hrest with
        | last hcursor' => exact hcursor'
        | next hcursor' => exact hcursor'
      obtain ⟨k, hk⟩ := Option.isSome_iff_exists.mp
        (AList.lookup_isSome.mpr (hcursor'.resolve_left hmore))
      obtain rfl := Option.some.inj ((hfollows.kept _ k hlt hk).symm.trans hlast)
      have hstart : scanStart cursor' t'' = some (some k) := by
        rw [scanStart, if_neg hmore, hk]
        rfl
      have hnext'' : 0 < t''.nextScanCursor := ((Nat.zero_le _).trans_lt hlt).trans_le hfollows.next
      exact .next hpage (ih hnext'' hstart)

/-- What a scan shows was there when its page was asked for. -/
theorem Scan.shown {requests : List PageRequest} {pages : List (List Bytes)}
    (h : Scan i pattern cursor t requests pages) {k : Bytes} (hk : k ∈ pages.flatten) :
    ∃ q ∈ requests, Visible q.now q.databases i pattern k := by
  induction h with
  | @last cursor t t' q keys hcursor h =>
    obtain ⟨after, hafter⟩ := scanStart_of_mem hcursor
    rw [List.flatten_singleton] at hk
    exact ⟨q, List.mem_cons_self, visible_of_scanKeys hafter h hk⟩
  | @next cursor cursor' t t' t'' q keys requests pages hcursor h hmore hothers hrest ih =>
    obtain ⟨after, hafter⟩ := scanStart_of_mem hcursor
    rw [List.flatten_cons, List.mem_append] at hk
    rcases hk with hk | hk
    · exact ⟨q, List.mem_cons_self, visible_of_scanKeys hafter h hk⟩
    · obtain ⟨q', hq', hvisible⟩ := ih hk
      exact ⟨q', List.mem_cons_of_mem _ hq', hvisible⟩

/-- **A whole scan.** It starts with cursor `0` in any table that can be reached, and between two
pages the databases are arbitrary. -/
theorem scan_exactly_once (ht : Relation.ReflTransGen TableStep {} t)
    {requests : List PageRequest} {pages : List (List Bytes)}
    (h : Scan i pattern 0 t requests pages) :
    (∀ k, (∀ q ∈ requests, Visible q.now q.databases i pattern k) → pages.flatten.count k = 1) ∧
      ∀ k, pages.flatten.count k ≤ 1 := by
  have hnext : 0 < t.nextScanCursor := (follows_of_steps ht).next
  have hpages : Paging.Pages (place none) _ pages := h.pages hnext (if_pos rfl)
  have hle := List.nodup_iff_count_le_one.mp hpages.nodup
  refine ⟨fun k hk => ?_, hle⟩
  have hmem := hpages.complete (x := k) (fun present hp => ?_) (WithBot.bot_lt_coe k)
  · exact le_antisymm (hle k) (List.one_le_count_iff.mpr hmem)
  · obtain ⟨q, hq, rfl⟩ := List.mem_map.mp hp
    exact hk q hq

/-- The keys `a`, `b`, `c` and pages of two; after the first page `a` goes and `d` comes, and
another client begins a scan. -/
theorem scan_exactly_once_deletion :
    let entry : Entry := { value := .string [] }
    let before : Db := ((∅ : Db).insert [99] entry).insert [98] entry |>.insert [97] entry
    let later : Db := ((∅ : Db).insert [100] entry).insert [99] entry |>.insert [98] entry
    let requests : List PageRequest := [⟨0, [before], 2⟩, ⟨0, [later], 2⟩]
    let pages : List (List Bytes) := [[[97], [98]], [[99], [100]]]
    Scan 0 none 0 {} requests pages ∧
      (∀ k, (∀ q ∈ requests, Visible q.now q.databases 0 none k) → pages.flatten.count k = 1) ∧
      ∀ k, pages.flatten.count k ≤ 1 := by
  intro entry before later requests pages
  have hfirst : keysAfter before none = [[97], [98], [99]] :=
    List.mergeSort_of_pairwise (by decide)
  have hsecond : keysAfter later (some [98]) = [[99], [100]] :=
    List.mergeSort_of_pairwise (by decide)
  let t : Tables := remember 0 [98] {}
  have hrest : Scan 0 none 1 (Tables.scanKeys 0 [before] 0 0 none 1 t).2 [⟨0, [later], 2⟩]
      [[[99], [100]]] := by
    rw [scanKeys_run rfl rfl hfirst]
    exact .last (Or.inr (by decide +kernel)) (scanKeys_run rfl rfl hsecond)
  have hscan : Scan 0 none 0 {} requests pages :=
    .next (Or.inl rfl) (scanKeys_run rfl rfl hfirst) (by decide)
      (.single (.scan 0 [before] 0 0 none 1 t)) hrest
  exact ⟨hscan, scan_exactly_once .refl hscan⟩

end VeloDB
