import VeloDB.Cmd.Acknowledged
import VeloDB.Cmd.Containers
import VeloDB.Cmd.StringRace

/-!
# Counters

`INCR`, `DECR`, `INCRBY`, `DECRBY` and `HINCRBY` add to the number that is stored. They add exactly
or report the overflow, but a value that is no number counts as zero and is overwritten, and the
amount of `DECRBY` is negated before it is added, which wraps at the smallest number.

## Main results

* `countsExactly_iff` — when the counters count exactly
-/

namespace VeloDB

open Rust

/-! ### Checked addition -/

theorem checkedAdd_eq_some_iff {a b c : Int64} :
    checkedAdd a b = some c ↔ c.toInt = a.toInt + b.toInt := by
  refine ⟨toInt_of_checkedAdd, fun h => ?_⟩
  have hlow := c.le_toInt
  have hhigh := c.toInt_lt
  have hsum : checkedAdd a b = some (a + b) := if_pos (by omega)
  rw [hsum, Option.some_inj, ← Int64.toInt_inj, h]
  exact toInt_of_checkedAdd hsum

theorem checkedAdd_eq_none_iff {a b : Int64} : checkedAdd a b = none ↔
    a.toInt + b.toInt < -2 ^ 63 ∨ 2 ^ 63 ≤ a.toInt + b.toInt := by
  rw [checkedAdd]
  split
  · next hrange =>
    refine ⟨fun h => ?_, fun h => ?_⟩
    · cases h
    · omega
  · next hrange => exact ⟨fun _ => by omega, fun _ => rfl⟩

/-! ### Exact counting -/

/-- The number that is stored: nothing is zero. -/
def StoredNumber (text : Bytes → Int64 → Prop) (stored : Option Bytes) (n : Int64) : Prop :=
  (stored = none ∧ n = 0) ∨ ∃ v, stored = some v ∧ text v n

/-- What is stored is a number, as far as something is. -/
def Numeric (text : Bytes → Int64 → Prop) (stored : Option Bytes) : Prop :=
  ∀ v, stored = some v → ∃ n, text v n

/-- A change by `amount` of what is `stored`, where `text` says which texts are numbers. The sum is
answered and read afterwards, or there is an error and the key is `unchanged`. -/
structure CountsExactly (text : Bytes → Int64 → Prop) (stored : Option Bytes) (amount : ℤ)
    (reply : Except Failure RespValue) (after : Except VeloDBError (Option Bytes))
    (unchanged : Prop) : Prop where
  sum : ∀ n m : Int64, StoredNumber text stored n → m.toInt = n.toInt + amount →
    reply = .ok (.integer m) ∧ after = .ok (some (i64Bytes m))
  overflow : ∀ n : Int64, StoredNumber text stored n →
    n.toInt + amount < -2 ^ 63 ∨ 2 ^ 63 ≤ n.toInt + amount →
    reply = .error (.error .overflow) ∧ unchanged
  notInteger : ∀ v, stored = some v → (∀ n, ¬text v n) →
    reply = .error (.error .notInteger) ∧ unchanged

section Exact

variable {text : Bytes → Int64 → Prop} {stored : Option Bytes} {amount : ℤ}
  {reply : Except Failure RespValue} {after : Except VeloDBError (Option Bytes)} {unchanged : Prop}

/-- Which number is added to: what is not one counts as zero. -/
theorem StoredNumber.getD (htext : ∀ v n, text v n → parseI64 v = some n) {n : Int64}
    (h : StoredNumber text stored n) : (stored >>= parseI64).getD 0 = n := by
  rcases h with ⟨rfl, rfl⟩ | ⟨v, rfl, hv⟩
  · rfl
  · change (parseI64 v).getD 0 = n
    rw [htext v n hv, Option.getD_some]

/-- **A checked addition** counts exactly if and only if what is stored is a number. -/
theorem countsExactly_of_checkedAdd (htext : ∀ v n, text v n → parseI64 v = some n) {by_ : Int64}
    (hsome : ∀ m, checkedAdd ((stored >>= parseI64).getD 0) by_ = some m →
      reply = .ok (.integer m) ∧ after = .ok (some (i64Bytes m)))
    (hnone : checkedAdd ((stored >>= parseI64).getD 0) by_ = none →
      reply = .error (.error .overflow) ∧ unchanged) :
    CountsExactly text stored by_.toInt reply after unchanged ↔ Numeric text stored := by
  constructor
  · intro h v hv
    by_contra hnot
    rw [not_exists] at hnot
    have hreply := (h.notInteger v hv hnot).1
    cases hadd : checkedAdd ((stored >>= parseI64).getD 0) by_ with
    | none => cases hreply.symm.trans (hnone hadd).1
    | some m => cases hreply.symm.trans (hsome m hadd).1
  · intro h
    refine ⟨fun n m hn hm => hsome m ?_, fun n hn hover => hnone ?_, fun v hv hnot => ?_⟩
    · rw [hn.getD htext]
      exact checkedAdd_eq_some_iff.mpr hm
    · rw [hn.getD htext]
      exact checkedAdd_eq_none_iff.mpr hover
    · obtain ⟨n, hn⟩ := h v hv
      exact absurd hn (hnot n)

/-- **An amount that is negated too far** never counts exactly. -/
theorem not_countsExactly_of_min (htext : ∀ v n, text v n → parseI64 v = some n)
    (hsome : ∀ m, checkedAdd ((stored >>= parseI64).getD 0) Int64.minValue = some m →
      reply = .ok (.integer m))
    (hnone : checkedAdd ((stored >>= parseI64).getD 0) Int64.minValue = none →
      reply = .error (.error .overflow)) :
    ¬CountsExactly text stored (2 ^ 63) reply after unchanged := by
  intro h
  have hmin : Int64.minValue.toInt = -2 ^ 63 := rfl
  by_cases hnumber : ∃ n, StoredNumber text stored n
  · obtain ⟨n, hn⟩ := hnumber
    rw [hn.getD htext] at hsome hnone
    have hlow := n.le_toInt
    have hhigh := n.toInt_lt
    by_cases hneg : n.toInt < 0
    · -- the sum fits, and the code reports an overflow
      have hreply := hnone (checkedAdd_eq_none_iff.mpr (Or.inl (by omega)))
      have hfits : (Int64.ofInt (n.toInt + 2 ^ 63)).toInt = n.toInt + 2 ^ 63 :=
        Int64.toInt_ofInt_of_le (by omega) (by omega)
      cases hreply.symm.trans (h.sum n _ hn hfits).1
    · -- the sum does not fit, and the code answers a number
      have hfits : (Int64.ofInt (n.toInt - 2 ^ 63)).toInt = n.toInt - 2 ^ 63 :=
        Int64.toInt_ofInt_of_le (by omega) (by omega)
      have hreply := hsome _ (checkedAdd_eq_some_iff.mpr (by rw [hfits]; omega))
      cases hreply.symm.trans (h.overflow n hn (Or.inr (by omega))).1
  · cases hstored : stored with
    | none => exact hnumber ⟨0, Or.inl ⟨hstored, rfl⟩⟩
    | some v =>
      have hnot : ∀ n, ¬text v n := fun n hn => hnumber ⟨n, Or.inr ⟨v, hstored, hn⟩⟩
      have hreply := (h.notInteger v hstored hnot).1
      cases hadd : checkedAdd ((stored >>= parseI64).getD 0) Int64.minValue with
      | none => cases hreply.symm.trans (hnone hadd)
      | some m => cases hreply.symm.trans (hsome m hadd)

end Exact

/-! ### Strings -/

/-- The key is absent or a string: what a read finds. -/
theorem Databases.lt_of_get {now : UInt64} {dbs : Databases} {i : ℕ} {k : Bytes}
    {stored : Option Bytes} (h : dbs.get now i k = .ok stored) : i < dbs.length := by
  by_contra hi
  rw [get, entry, db_out (Nat.le_of_not_lt hi)] at h
  cases h

theorem Databases.get_put_string {dbs : Databases} {i : ℕ} (hi : i < dbs.length) (now : UInt64)
    (k v : Bytes) (version : ℕ) :
    (dbs.put i k { value := .string v, version := version }).get now i k = .ok (some v) := by
  rw [get, entry_eq (by rwa [length_put]), liveEntry_put_self hi]
  rfl

namespace StringUpdate

/-- The amount that a command is to add. -/
def amount : StringUpdate → Option ℤ
  | incr => some 1
  | incrby n => (parseI64 n).map Int64.toInt
  | decr => some (-1)
  | decrby n => (parseI64 n).map fun by_ => -by_.toInt
  | append _ => none

variable {u : StringUpdate} {c : ℤ} {env : Env} {i : ℕ} {k : Bytes} {ks : Keyspace}
  {stored : Option Bytes}

/-- What is added is the amount, unless that is one too large. -/
theorem change_of_amount (h : u.amount = some c) : ∃ by_, u.change = .ok (.add by_) ∧
    ((c = by_.toInt ∧ c < 2 ^ 63) ∨ (c = 2 ^ 63 ∧ by_ = Int64.minValue)) := by
  cases u with
  | incr =>
    cases h
    exact ⟨1, rfl, Or.inl ⟨rfl, by decide⟩⟩
  | decr =>
    cases h
    exact ⟨-1, rfl, Or.inl ⟨rfl, by decide⟩⟩
  | append suffix => cases h
  | incrby n =>
    obtain ⟨by_, hn, rfl⟩ := Option.map_eq_some_iff.mp h
    refine ⟨by_, ?_, Or.inl ⟨rfl, by_.toInt_lt⟩⟩
    rw [change, hn]
    rfl
  | decrby n =>
    obtain ⟨by_, hn, rfl⟩ := Option.map_eq_some_iff.mp h
    have hlow := by_.le_toInt
    have hhigh := by_.toInt_lt
    refine ⟨-by_, ?_, ?_⟩
    · rw [change, hn]
      rfl
    · by_cases hmin : by_ = Int64.minValue
      · subst hmin
        exact Or.inr ⟨rfl, rfl⟩
      · have hne : by_.toInt ≠ -2 ^ 63 := fun heq => hmin (Int64.toInt_inj.mp heq)
        rw [Int64.toInt_neg, Int.bmod_eq_of_le (by omega) (by omega)]
        exact Or.inl ⟨rfl, by omega⟩

theorem call_of_change (hget : ks.databases.get env.now i k = .ok stored) {by_ : Int64}
    (hchange : u.change = .ok (.add by_)) :
    u.call env i k ks = StringChange.finish i k stored (.add by_) ks := by
  have hread : Keyspace.read (fun dbs => dbs.get env.now i k) ks = (.ok stored, ks) := by
    rw [Keyspace.read, hget]
    rfl
  rw [call_eq, hchange, lift_ok_bind, Proc.bind_ok hread]

theorem finish_add_some (hi : i < ks.databases.length) {by_ m : Int64}
    (h : checkedAdd ((stored >>= parseI64).getD 0) by_ = some m) (now : UInt64) :
    (StringChange.finish i k stored (.add by_) ks).1 = .ok (.integer m) ∧
      (StringChange.finish i k stored (.add by_) ks).2.databases.get now i k
        = .ok (some (i64Bytes m)) := by
  rw [StringChange.finish, h, orError, lift_ok_bind,
    Proc.bind_ok (Keyspace.set_run hi _ none ks.notified)]
  exact ⟨rfl, Databases.get_put_string hi now k _ _⟩

theorem finish_add_none {by_ : Int64}
    (h : checkedAdd ((stored >>= parseI64).getD 0) by_ = none) :
    StringChange.finish i k stored (.add by_) ks = (.error (.error .overflow), ks) := by
  rw [StringChange.finish, h]
  rfl

/-- **The counters of strings.** -/
theorem countsExactly_call {text : Bytes → Int64 → Prop}
    (htext : ∀ v n, text v n → parseI64 v = some n)
    (hget : ks.databases.get env.now i k = .ok stored) (hamount : u.amount = some c) :
    CountsExactly text stored c (u.call env i k ks).1
        ((u.call env i k ks).2.databases.get env.now i k)
        ((u.call env i k ks).2.databases.find i k = ks.databases.find i k) ↔
      Numeric text stored ∧ c < 2 ^ 63 := by
  have hi := Databases.lt_of_get hget
  obtain ⟨by_, hchange, ⟨rfl, hlt⟩ | ⟨rfl, rfl⟩⟩ := change_of_amount hamount
  · rw [call_of_change hget hchange, countsExactly_of_checkedAdd htext, and_iff_left hlt]
    · exact fun m hm => finish_add_some hi hm env.now
    · intro hnone
      rw [finish_add_none hnone]
      exact ⟨rfl, rfl⟩
  · rw [call_of_change hget hchange]
    refine iff_of_false (not_countsExactly_of_min htext ?_ ?_) fun h => absurd h.2 (lt_irrefl _)
    · exact fun m hm => (finish_add_some hi hm env.now).1
    · intro hnone
      rw [finish_add_none hnone]

end StringUpdate

/-! ### Hash fields -/

section Field

variable {env : Env} {i : ℕ} {k field a : Bytes} {ks : Keyspace} {stored : Option Bytes}
  {by_ : Int64}

theorem Databases.lt_of_hget {now : UInt64} {dbs : Databases}
    (h : dbs.hget now i k field = .ok stored) : i < dbs.length := by
  by_contra hi
  rw [hget, readAs, entry, db_out (Nat.le_of_not_lt hi)] at h
  cases h

theorem hincrby_run (ha : parseI64 a = some by_) : Cmd.hincrby env i [k, field, a] ks
    = (Keyspace.hincrby i k field by_ >>= fun v => pure (.integer v)) ks := by
  rw [Cmd.hincrby, arg_cons_succ, arg_cons_succ, arg_cons_zero, lift_ok_bind, ha]
  rfl

/-- The hash that `hincrby` changes. -/
theorem unwrap_of_hget (hstale : ¬Stale env.now ks.databases i k)
    (hget : ks.databases.hget env.now i k field = .ok stored) : ∃ m : HashMap Bytes Bytes,
      Kind.hash.unwrap ((ks.databases.find i k).getD { value := Kind.hash.wrap ∅ }).value = some m ∧
        m.lookup field = stored := by
  have hi := Databases.lt_of_hget hget
  cases hfind : ks.databases.find i k with
  | none =>
    have hlive : ks.databases.liveEntry env.now i k = none := by
      rw [Databases.liveEntry, hfind]
      rfl
    rw [Databases.hget, Databases.readAs_none hi hlive] at hget
    exact ⟨∅, rfl, Except.ok.inj hget⟩
  | some e =>
    have hlive : ks.databases.liveEntry env.now i k = some e := by
      rw [Databases.liveEntry, hfind, Option.filter_some]
      refine if_pos ?_
      rw [Bool.not_eq_true']
      exact Bool.eq_false_iff.mpr fun hexp => hstale ⟨e, hfind, hexp⟩
    cases hm : Kind.hash.unwrap e.value with
    | none =>
      rw [Databases.hget, Databases.readAs_wrong hlive hm] at hget
      cases hget
    | some m =>
      rw [Databases.hget, Databases.readAs_some hlive hm] at hget
      exact ⟨m, hm, Except.ok.inj hget⟩

theorem hincrby_some (hi : i < ks.databases.length) {m : HashMap Bytes Bytes} {v : Int64}
    (hm : Kind.hash.unwrap ((ks.databases.find i k).getD { value := Kind.hash.wrap ∅ }).value
      = some m)
    (hadd : checkedAdd ((m.lookup field >>= parseI64).getD 0) by_ = some v) :
    Keyspace.hincrby i k field by_ ks = (.ok v, ⟨ks.databases.put i k
      { (ks.databases.find i k).getD { value := Kind.hash.wrap ∅ } with
        value := Kind.hash.wrap (m.insert field (i64Bytes v)) }, ks.notified⟩) := by
  rw [Keyspace.hincrby, Keyspace.upsertAs_run .hash hi hm _ ks.notified]
  dsimp only
  rw [hadd]

theorem hincrby_none (hi : i < ks.databases.length) {m : HashMap Bytes Bytes}
    (hm : Kind.hash.unwrap ((ks.databases.find i k).getD { value := Kind.hash.wrap ∅ }).value
      = some m)
    (hadd : checkedAdd ((m.lookup field >>= parseI64).getD 0) by_ = none) :
    (Keyspace.hincrby i k field by_ ks).1 = .error (.error .overflow) ∧
      (Keyspace.hincrby i k field by_ ks).2.databases.find i k = ks.databases.find i k := by
  rw [Keyspace.hincrby, Keyspace.upsertAs_run .hash hi hm _ ks.notified]
  dsimp only
  rw [hadd]
  refine ⟨rfl, ?_⟩
  dsimp only
  rw [Databases.find_put_self hi]
  cases hfind : ks.databases.find i k with
  | none =>
    -- an absent key is zero, which nothing overflows
    rw [hfind] at hm
    obtain rfl := Option.some.inj hm
    cases (checkedAdd_zero by_).symm.trans hadd
  | some e =>
    rw [hfind, Option.getD_some] at hm
    rw [Option.getD_some, Kind.Exact.wrap_unwrap hm]

/-- A stale entry keeps its expiry, so the field cannot be read afterwards. -/
theorem hget_hincrby_of_stale (hstale : Stale env.now ks.databases i k) {v : Int64}
    (hok : (Keyspace.hincrby i k field by_ ks).1 = .ok v) :
    (Keyspace.hincrby i k field by_ ks).2.databases.hget env.now i k field = .ok none := by
  have hi := hstale.lt
  obtain ⟨e, hfind, hexp⟩ := hstale
  rw [Keyspace.hincrby] at hok ⊢
  rcases Keyspace.upsertAs_cases .hash i k ∅ _ ks with ⟨e', hrun, -⟩ | ⟨m, -, -, hrun⟩
  · rw [hrun] at hok
    cases hok
  · rw [hrun]
    refine Databases.readAs_none (by rwa [Databases.length_put]) ?_ none _
    rw [liveEntry_put_self hi, hfind, Option.getD_some, Option.filter_some]
    exact if_neg (by rw [Bool.not_eq_true', Bool.not_eq_false]; exact hexp)

/-- **The counters of hash fields.** -/
theorem countsExactly_hincrby {text : Bytes → Int64 → Prop}
    (htext : ∀ v n, text v n → parseI64 v = some n)
    (hget : ks.databases.hget env.now i k field = .ok stored) (ha : parseI64 a = some by_) :
    CountsExactly text stored by_.toInt (Cmd.hincrby env i [k, field, a] ks).1
        ((Cmd.hincrby env i [k, field, a] ks).2.databases.hget env.now i k field)
        ((Cmd.hincrby env i [k, field, a] ks).2.databases.find i k = ks.databases.find i k) ↔
      Numeric text stored ∧ ¬Stale env.now ks.databases i k := by
  have hi := Databases.lt_of_hget hget
  rw [hincrby_run ha]
  by_cases hstale : Stale env.now ks.databases i k
  · refine iff_of_false (fun h => ?_) fun h => h.2 hstale
    have hnone : stored = none := by
      rw [Databases.hget, Databases.readAs_none hi hstale.liveEntry] at hget
      exact (Except.ok.inj hget).symm
    obtain ⟨hreply, hafter⟩ := h.sum 0 by_ (Or.inl ⟨hnone, rfl⟩) (by simp)
    rcases hrun : Keyspace.hincrby i k field by_ ks with ⟨e | v, ks'⟩
    · rw [Proc.bind_error hrun] at hreply
      cases hreply
    · have hread : (Keyspace.hincrby i k field by_ ks).2.databases.hget env.now i k field
          = .ok none := hget_hincrby_of_stale hstale (congrArg Prod.fst hrun)
      rw [Proc.bind_ok hrun] at hafter
      rw [hrun] at hread
      cases hread.symm.trans hafter
  · obtain ⟨m, hm, hfield⟩ := unwrap_of_hget hstale hget
    rw [← hfield, countsExactly_of_checkedAdd htext, and_iff_left hstale]
    · intro v hv
      have hrun := hincrby_some hi hm hv
      rw [Proc.bind_ok hrun]
      refine ⟨rfl, ?_⟩
      have hlive : ((ks.databases.find i k).getD { value := Kind.hash.wrap ∅ }).expired env.now
          = false := by
        cases hfind : ks.databases.find i k with
        | none => rfl
        | some e => exact Bool.eq_false_iff.mpr fun hexp => hstale ⟨e, hfind, hexp⟩
      have hentry : (ks.databases.put i k
          { (ks.databases.find i k).getD { value := Kind.hash.wrap ∅ } with
            value := Kind.hash.wrap (m.insert field (i64Bytes v)) }).liveEntry env.now i k
          = (some _).filter fun e => !e.expired env.now := liveEntry_put_self hi k _
      rw [Option.filter_some, if_pos (by rw [Bool.not_eq_true']; exact hlive)] at hentry
      have hread := Databases.readAs_some hentry (Kind.hash.unwrap_wrap _) none
        fun m => m.lookup field
      exact hread.trans (congrArg Except.ok (AList.lookup_insert _))
    · intro hnone
      obtain ⟨hreply, hsame⟩ := hincrby_none hi hm hnone
      have hrun := Proc.bind_error (f := fun v => (pure (.integer v) : KeyM RespValue))
        (Prod.ext hreply rfl)
      rw [hrun]
      exact ⟨rfl, hsame⟩

end Field

/-! ### All counters -/

/-- The text of a number as it is printed. -/
def DecimalText (v : Bytes) (n : Int64) : Prop := v = i64Bytes n

theorem parseI64_of_decimalText (v : Bytes) (n : Int64) (h : DecimalText v n) :
    parseI64 v = some n := by
  rw [h]
  exact parseI64_i64Bytes n

/-- **Exact counting.** Whatever counts as the text of a number (the texts that are printed, or all
that can be parsed), a counter counts exactly if and only if what is stored is such a text or
nothing, `DECRBY` is not asked to subtract the smallest number, and for a hash field no expired
entry is stored at the key. -/
theorem countsExactly_iff {text : Bytes → Int64 → Prop}
    (htext : ∀ v n, text v n → parseI64 v = some n) {env : Env} {i : ℕ} {ks : Keyspace} :
    (∀ (k : Bytes) (stored : Option Bytes) (u : StringUpdate) (c : ℤ),
      ks.databases.get env.now i k = .ok stored → u.amount = some c →
      (CountsExactly text stored c (u.call env i k ks).1
          ((u.call env i k ks).2.databases.get env.now i k)
          ((u.call env i k ks).2.databases.find i k = ks.databases.find i k) ↔
        Numeric text stored ∧ c < 2 ^ 63)) ∧
    ∀ (k field a : Bytes) (stored : Option Bytes) (by_ : Int64),
      ks.databases.hget env.now i k field = .ok stored → parseI64 a = some by_ →
      (CountsExactly text stored by_.toInt (Cmd.hincrby env i [k, field, a] ks).1
          ((Cmd.hincrby env i [k, field, a] ks).2.databases.hget env.now i k field)
          ((Cmd.hincrby env i [k, field, a] ks).2.databases.find i k = ks.databases.find i k) ↔
        Numeric text stored ∧ ¬Stale env.now ks.databases i k) :=
  ⟨fun _ _ _ _ hget hamount => StringUpdate.countsExactly_call htext hget hamount,
    fun _ _ _ _ _ hget ha => countsExactly_hincrby htext hget ha⟩

/-- The number 5, and 2 more. -/
theorem countsExactly_five :
    let env := Moment.on ⟨1, 0, 0, 1⟩ Host.plain
    let ks : Keyspace := ⟨(Store.new 1).databases.put 0 [107] { value := .string [53] }, []⟩
    CountsExactly DecimalText (some [53]) 2 (Cmd.incrby env 0 [[107], [50]] ks).1
      ((Cmd.incrby env 0 [[107], [50]] ks).2.databases.get env.now 0 [107])
      ((Cmd.incrby env 0 [[107], [50]] ks).2.databases.find 0 [107] = ks.databases.find 0 [107]) :=
  ((countsExactly_iff parseI64_of_decimalText).1 [107] (some [53]) (.incrby [50]) 2 rfl
    (by decide)).mpr ⟨fun v hv => ⟨5, (Option.some.inj hv).symm.trans (by decide)⟩, by decide⟩

/-- `INCRBY k 2` on a string that is no number answers 2 and overwrites it. -/
theorem not_countsExactly_word :
    let env := Moment.on ⟨1, 0, 0, 1⟩ Host.plain
    let ks : Keyspace := ⟨(Store.new 1).databases.put 0 [107] { value := .string [97] }, []⟩
    ¬CountsExactly DecimalText (some [97]) 2 (Cmd.incrby env 0 [[107], [50]] ks).1
      ((Cmd.incrby env 0 [[107], [50]] ks).2.databases.get env.now 0 [107])
      ((Cmd.incrby env 0 [[107], [50]] ks).2.databases.find 0 [107]
        = ks.databases.find 0 [107]) := by
  intro env ks h
  have hword : ∀ n, ¬DecimalText [97] n := by
    intro n hn
    have hparse : parseI64 [97] = none := by decide
    cases hparse.symm.trans (parseI64_of_decimalText [97] n hn)
  have hreply : (Cmd.incrby env 0 [[107], [50]] ks).1 = .ok (.integer 2) := rfl
  cases hreply.symm.trans (h.notInteger [97] rfl hword).1

end VeloDB
