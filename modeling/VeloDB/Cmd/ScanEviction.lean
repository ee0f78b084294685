import VeloDB.Cmd.Scan
import VeloDB.Lib.Run

/-!
# Cursors that are evicted

The table of cursors is bounded. A page that would add one to a full table empties it first, so the
cursors of all other scans are gone, whether they are abandoned or not, and a scan that goes on with
one of them is told that it is complete.

## Main results

* `lookup_run` — a cursor stays exactly until a page empties the table
* `cursor_zero_iff` — when the end of a scan means that nothing is left
-/

namespace VeloDB

open Rust

attribute [local instance] byteOrder

/-- What happens to the tables between two pages of a scan. -/
inductive TableEvent
  /-- A page of any scan. -/
  | scan (now : UInt64) (dbs : Databases) (i : ℕ) (cursor : UInt64) (pattern : Option String)
    (count : ℕ)
  /-- Anything that leaves the cursors as they are; the other tables are as in `t`. -/
  | other (t : Tables)

namespace TableEvent

/-- The tables afterwards. -/
def next (t : Tables) : TableEvent → Tables
  | scan now dbs i cursor pattern count => (Tables.scanKeys now dbs i cursor pattern count t).2
  | other u => { u with scanCursors := t.scanCursors, nextScanCursor := t.nextScanCursor }

/-- The event presents the cursor. -/
def Presents (n : ℕ) : TableEvent → Prop
  | scan _ _ _ cursor _ _ => cursor.toNat = n
  | other _ => False

/-- The event is a page that is not the last one, and the table is full without its own cursor. -/
def Overflows (t : Tables) : TableEvent → Prop
  | scan _ dbs i cursor _ count => ∃ d after, dbs[i]? = some d ∧ scanStart cursor t = some after ∧
    max count 1 < (keysAfter d after).length ∧
    maxScanCursors ≤ HashMap.size (t.scanCursors.erase cursor.toNat)
  | other _ => False

theorem follows (t : Tables) (e : TableEvent) : Follows t (e.next t) := by
  cases e with
  | scan => exact follows_scanKeys ..
  | other u => exact ⟨le_rfl, fun _ _ _ h => h⟩

theorem follows_run (t : Tables) (es : List TableEvent) : Follows t (es.foldl next t) := by
  induction es generalizing t with
  | nil => exact Follows.refl t
  | cons e es ih => exact (follows t e).trans (ih (e.next t))

/-- **One event.** A cursor that it does not present is gone exactly if the table overflows. -/
theorem lookup_next {t : Tables} {e : TableEvent} {n : ℕ} (hn : n < t.nextScanCursor)
    (he : ¬e.Presents n) {last : Bytes} (hlast : t.scanCursors.lookup n = some last) :
    (¬e.Overflows t → (e.next t).scanCursors.lookup n = some last) ∧
      (e.Overflows t → (e.next t).scanCursors.lookup n = none) := by
  cases e with
  | other u => exact ⟨fun _ => hlast, False.elim⟩
  | scan now dbs i cursor pattern count =>
    have hne : n ≠ cursor.toNat := fun h => he h.symm
    have herase : (t.scanCursors.erase cursor.toNat).lookup n = some last := by
      rwa [AList.lookup_erase_ne hne]
    rw [next]
    cases hd : dbs[i]? with
    | none =>
      have hsame : (Tables.scanKeys now dbs i cursor pattern count t).2 = t := by
        rw [Tables.scanKeys, Databases.db, hd]
        rfl
      rw [hsame]
      refine ⟨fun _ => hlast, ?_⟩
      rintro ⟨d, -, hd', -⟩
      cases hd.symm.trans hd'
    | some d =>
      cases hafter : scanStart cursor t with
      | none =>
        have hsame : (Tables.scanKeys now dbs i cursor pattern count t).2 = t := by
          rw [scanStart] at hafter
          rw [Tables.scanKeys, Proc.bind_ok (ofExcept_db hd t), Proc.get_bind, hafter]
          rfl
        rw [hsame]
        refine ⟨fun _ => hlast, ?_⟩
        rintro ⟨-, after, -, hafter', -⟩
        cases hafter.symm.trans hafter'
      | some after =>
        rw [scanKeys_run hd hafter rfl]
        by_cases hmore : max count 1 < (keysAfter d after).length
        · rw [if_pos hmore]
          refine ⟨fun hroom => ?_, fun hfull => ?_⟩
          · have hsize : ¬maxScanCursors ≤ HashMap.size (t.scanCursors.erase cursor.toNat) :=
              fun h => hroom ⟨d, after, hd, hafter, hmore, h⟩
            rw [remember]
            dsimp only
            rw [if_neg hsize, AList.lookup_insert_ne (Nat.ne_of_lt hn), herase]
          · obtain ⟨_, _, -, -, -, hsize⟩ := hfull
            rw [remember]
            dsimp only
            rw [if_pos hsize, AList.lookup_insert_ne (Nat.ne_of_lt hn)]
            rfl
        · rw [if_neg hmore]
          refine ⟨fun _ => herase, ?_⟩
          rintro ⟨d', after', hd', hafter', hmore', -⟩
          obtain rfl := Option.some.inj (hd.symm.trans hd')
          obtain rfl := Option.some.inj (hafter.symm.trans hafter')
          exact absurd hmore' hmore

/-- **A cursor that nobody presents** stays exactly as long as the table does not overflow. -/
theorem lookup_run {n : ℕ} {es : List TableEvent} (hes : ∀ e ∈ es, ¬e.Presents n) {t : Tables}
    (hn : n < t.nextScanCursor) {last : Bytes} (hlast : t.scanCursors.lookup n = some last) :
    (Run.Along next (fun t e => ¬e.Overflows t) t es →
        (es.foldl next t).scanCursors.lookup n = some last) ∧
      (¬Run.Along next (fun t e => ¬e.Overflows t) t es →
        (es.foldl next t).scanCursors.lookup n = none) := by
  induction es generalizing t with
  | nil => exact ⟨fun _ => hlast, fun h => absurd trivial h⟩
  | cons e es ih =>
    obtain ⟨hroom, hfull⟩ := lookup_next hn (hes e List.mem_cons_self) hlast
    have hrest : ∀ f ∈ es, ¬f.Presents n := fun f hf => hes f (List.mem_cons_of_mem _ hf)
    have hn' : n < (e.next t).nextScanCursor := hn.trans_le (follows t e).next
    by_cases he : e.Overflows t
    · refine ⟨fun h => absurd he h.1, fun _ => ?_⟩
      -- what is gone does not come back
      by_contra hsome
      obtain ⟨k, hk⟩ := Option.ne_none_iff_exists'.mp hsome
      cases (hfull he).symm.trans ((follows_run (e.next t) es).kept n k hn' hk)
    · obtain ⟨hstay, hgo⟩ := ih hrest hn' (hroom he)
      refine ⟨fun h => hstay h.2, fun h => hgo fun h' => h ⟨he, h'⟩⟩

end TableEvent

/-! ### The end of a scan -/

/-- If the page ends the scan, it shows every key behind `last` that is live and matches. -/
def EndsComplete (i : ℕ) (pattern : Option String) (cursor : UInt64) (t : Tables) (q : PageRequest)
    (last : Bytes) : Prop :=
  ∀ keys, (Tables.scanKeys q.now q.databases i cursor pattern q.count t).1 = .ok (0, keys) →
    ∀ k, Visible q.now q.databases i pattern k → last < k → k ∈ keys

section EndsComplete

variable {i : ℕ} {pattern : Option String} {cursor : UInt64} {t : Tables} {q : PageRequest}
  {last : Bytes}

theorem endsComplete_of_kept (hcursor : cursor ≠ 0) (hnext : 0 < t.nextScanCursor)
    (hkept : t.scanCursors.lookup cursor.toNat = some last) :
    EndsComplete i pattern cursor t q last := by
  intro keys hkeys k hk hbehind
  have hstart : scanStart cursor t = some (some last) := by
    rw [scanStart, if_neg hcursor, hkept]
    rfl
  rcases isPage_scanKeys hstart hnext (Prod.ext hkeys rfl) with ⟨-, hend⟩ | ⟨hne, -⟩
  · exact hend.complete k hk (WithBot.coe_lt_coe.mpr hbehind)
      fun _ h => absurd h (Option.not_mem_none _)
  · exact absurd rfl hne

theorem endsComplete_of_evicted (hcursor : cursor ≠ 0) (hi : i < q.databases.length)
    (hgone : t.scanCursors.lookup cursor.toNat = none) :
    EndsComplete i pattern cursor t q last ↔
      ∀ k, Visible q.now q.databases i pattern k → k ≤ last := by
  obtain ⟨d, hd⟩ : ∃ d, q.databases[i]? = some d := ⟨_, List.getElem?_eq_getElem hi⟩
  have hreply : (Tables.scanKeys q.now q.databases i cursor pattern q.count t).1 = .ok (0, []) := by
    rw [Tables.scanKeys, Proc.bind_ok (ofExcept_db hd t), Proc.get_bind, if_neg hcursor, hgone]
    rfl
  constructor
  · intro hcomplete k hk
    by_contra hbehind
    exact List.not_mem_nil (hcomplete [] hreply k hk (not_le.mp hbehind))
  · intro hnothing keys _ k hk hbehind
    exact absurd (hnothing k hk) (not_le.mpr hbehind)

end EndsComplete

/-- **Cursor `0` means that the scan is complete** exactly when the table of cursors has not
overflowed since the last page, or nothing is left anyway. -/
theorem cursor_zero_iff {t₀ t₁ : Tables} (ht : Relation.ReflTransGen TableStep {} t₀) {i : ℕ}
    {pattern : Option String} {cursor₀ cursor : UInt64} {q₀ : PageRequest} {keys₀ : List Bytes}
    (hknown : cursor₀ = 0 ∨ cursor₀.toNat ∈ t₀.scanCursors)
    (hpage : Tables.scanKeys q₀.now q₀.databases i cursor₀ pattern q₀.count t₀
      = (.ok (cursor.toNat, keys₀), t₁)) (hmore : cursor ≠ 0) {es : List TableEvent}
    (hes : ∀ e ∈ es, ¬e.Presents cursor.toNat) (q : PageRequest) (hi : i < q.databases.length) :
    ∃ after last, scanStart cursor₀ t₀ = some after ∧
      Paging.IsPage (Visible q₀.now q₀.databases i pattern) (place after) (some last) keys₀ ∧
      (EndsComplete i pattern cursor (es.foldl TableEvent.next t₁) q last ↔
        Run.Along TableEvent.next (fun t e => ¬e.Overflows t) t₁ es ∨
          ∀ k, Visible q.now q.databases i pattern k → k ≤ last) := by
  have hnext : 0 < t₀.nextScanCursor := (follows_of_steps ht).next
  obtain ⟨after, hafter⟩ := scanStart_of_mem hknown
  rcases isPage_scanKeys hafter hnext hpage with ⟨hzero, -⟩ | ⟨-, hlt, last, hlast, hcovered⟩
  · exact absurd (UInt64.toNat_inj.mp hzero) hmore
  refine ⟨after, last, hafter, hcovered, ?_⟩
  obtain ⟨hstay, hgo⟩ := TableEvent.lookup_run hes hlt hlast
  by_cases halong : Run.Along TableEvent.next (fun t e => ¬e.Overflows t) t₁ es
  · refine iff_of_true (endsComplete_of_kept hmore ?_ (hstay halong)) (Or.inl halong)
    exact ((Nat.zero_le _).trans_lt hlt).trans_le (TableEvent.follows_run t₁ es).next
  · rw [or_iff_right halong, endsComplete_of_evicted hmore hi (hgo halong)]

/-! ### Two scans -/

/-- The keys `a` and `b`. -/
def twoKeys : Db := ((∅ : Db).insert [98] { value := .string [] }).insert [97] { value := .string [] }

/-- A page of one key. -/
def onePage : PageRequest := ⟨0, [twoKeys], 1⟩

theorem keysAfter_twoKeys : keysAfter twoKeys none = [[97], [98]] :=
  List.mergeSort_of_pairwise (by decide)

/-- The page that begins a scan of the two keys. -/
theorem scanKeys_twoKeys (t : Tables) : Tables.scanKeys 0 [twoKeys] 0 0 none 1 t
    = (.ok (t.nextScanCursor, [[97]]), remember 0 [97] t) :=
  scanKeys_run rfl rfl keysAfter_twoKeys

theorem visible_twoKeys : Visible 0 [twoKeys] 0 none [98] := ⟨by decide, rfl⟩

/-- The page as one of a scan. -/
theorem firstPage : Tables.scanKeys onePage.now onePage.databases 0 0 none onePage.count {}
    = (.ok ((1 : UInt64).toNat, [[97]]), remember 0 [97] {}) := scanKeys_twoKeys {}

/-- The same page, asked for by another client. -/
def abandoned : TableEvent := .scan 0 [twoKeys] 0 0 none 1

theorem next_abandoned (t : Tables) : abandoned.next t = remember 0 [97] t :=
  congrArg Prod.snd (scanKeys_twoKeys t)

/-- Another client begins a scan in between. -/
theorem cursor_zero_twoKeys : ∃ last, EndsComplete 0 none 1
    ([abandoned].foldl TableEvent.next (remember 0 [97] {})) onePage last := by
  have hes : ∀ e ∈ [abandoned], ¬e.Presents (1 : UInt64).toNat := by
    intro e he
    rw [List.mem_singleton.mp he]
    exact fun h : (0 : UInt64).toNat = 1 => absurd h (by decide)
  obtain ⟨after, last, -, -, hiff⟩ :=
    cursor_zero_iff .refl (Or.inl rfl) firstPage (by decide) hes onePage (Nat.zero_lt_one)
  refine ⟨last, hiff.mpr (Or.inl ⟨?_, trivial⟩)⟩
  rintro ⟨_, _, -, -, -, hfull⟩
  exact absurd hfull (by decide +kernel)

/-- So many cursors, all of them given out before. -/
structure HoldsCursors (k : ℕ) (t : Tables) : Prop where
  size : HashMap.size t.scanCursors = k
  given : ∀ n ∈ t.scanCursors, 0 < n ∧ n < t.nextScanCursor
  next : 0 < t.nextScanCursor

theorem HoldsCursors.erase {k : ℕ} {t : Tables} (h : HoldsCursors k t) :
    t.scanCursors.erase (0 : UInt64).toNat = t.scanCursors := by
  have hzero : (0 : ℕ) ∉ t.scanCursors := fun h0 => absurd (h.given 0 h0).1 (Nat.lt_irrefl 0)
  exact AList.ext (List.kerase_of_notMem_keys hzero)

/-- A scan that is begun and abandoned leaves one more. -/
theorem HoldsCursors.abandon {k : ℕ} {t : Tables} (h : HoldsCursors k t) (hk : k < maxScanCursors) :
    HoldsCursors (k + 1) (abandoned.next t) := by
  have hroom : ¬maxScanCursors ≤ HashMap.size t.scanCursors := by
    rw [h.size]
    exact Nat.not_le.mpr hk
  have hfresh : t.nextScanCursor ∉ t.scanCursors :=
    fun hmem => absurd (h.given _ hmem).2 (Nat.lt_irrefl _)
  rw [next_abandoned, remember, h.erase, if_neg hroom]
  refine ⟨?_, fun n hn => ?_, Nat.succ_pos _⟩
  · rw [HashMap.size, AList.entries_insert_of_notMem hfresh, List.length_cons]
    exact congrArg Nat.succ h.size
  · dsimp only at hn ⊢
    rcases (AList.mem_insert _).mp hn with rfl | hn
    · exact ⟨h.next, Nat.lt_succ_self _⟩
    · exact ⟨(h.given n hn).1, (h.given n hn).2.trans (Nat.lt_succ_self _)⟩

/-- One of many scans that are begun and abandoned finds the table full. -/
theorem overflows_of_abandoned {k j : ℕ} {t : Tables} (h : HoldsCursors k t)
    (hj : k + j = maxScanCursors) :
    ¬Run.Along TableEvent.next (fun t e => ¬e.Overflows t) t (List.replicate (j + 1) abandoned) := by
  induction j generalizing k t with
  | zero =>
    rintro ⟨hroom, -⟩
    refine hroom ⟨twoKeys, none, rfl, rfl, ?_, ?_⟩
    · rw [keysAfter_twoKeys]
      decide
    · rw [h.erase, h.size, ← hj, Nat.add_zero]
  | succ j ih =>
    rw [List.replicate_succ]
    rintro ⟨-, hrest⟩
    exact ih (h.abandon (by omega)) (by omega) hrest

/-- **After 1024 abandoned scans a scan of two keys ends behind the first one.** -/
theorem cursor_zero_with_keys_left : ¬∀ (t₀ t₁ : Tables) (i : ℕ) (pattern : Option String)
    (cursor₀ cursor : UInt64) (q₀ q : PageRequest) (keys₀ : List Bytes) (last : Bytes)
    (es : List TableEvent), Relation.ReflTransGen TableStep {} t₀ →
    (cursor₀ = 0 ∨ cursor₀.toNat ∈ t₀.scanCursors) →
    Tables.scanKeys q₀.now q₀.databases i cursor₀ pattern q₀.count t₀
      = (.ok (cursor.toNat, keys₀), t₁) → cursor ≠ 0 →
    t₁.scanCursors.lookup cursor.toNat = some last → (∀ e ∈ es, ¬e.Presents cursor.toNat) →
    i < q.databases.length → EndsComplete i pattern cursor (es.foldl TableEvent.next t₁) q last := by
  intro hall
  have hes : ∀ e ∈ List.replicate 1024 abandoned, ¬e.Presents (1 : UInt64).toNat := by
    intro e he
    rw [List.eq_of_mem_replicate he]
    exact fun h : (0 : UInt64).toNat = 1 => absurd h (by decide)
  have hlast : (remember 0 [97] {}).scanCursors.lookup (1 : UInt64).toNat = some [97] :=
    AList.lookup_insert _
  have hholds : HoldsCursors 1 (remember 0 [97] {}) := by
    rw [← next_abandoned]
    exact HoldsCursors.abandon ⟨rfl, fun _ h => absurd h (AList.notMem_empty _), Nat.one_pos⟩
      (by decide)
  have hgone := (TableEvent.lookup_run hes (by decide) hlast).2 (overflows_of_abandoned hholds rfl)
  have hcomplete := hall _ _ 0 none 0 1 onePage onePage _ _ _ .refl (Or.inl rfl) firstPage (by decide)
    hlast hes Nat.zero_lt_one
  have hnothing := (endsComplete_of_evicted (by decide) Nat.zero_lt_one hgone).mp hcomplete [98]
    visible_twoKeys
  exact absurd hnothing (by decide)

end VeloDB
