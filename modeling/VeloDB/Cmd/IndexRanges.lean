import VeloDB.Cmd.Table
import VeloDB.Store.IndexRanges

/-!
# The commands on ranges of indices

`LRANGE`, `ZRANGE`, `LTRIM` and `GETRANGE` take a first and a last index. The lists and the sorted
sets cut with `slice`. `GETRANGE` has an arithmetic of its own: it clamps an end before the
beginning to `-1`, which as a `usize` is a huge position, and a start behind the end to the last
byte.

`LRANGE` and `LTRIM` normalise their indices in the same way, so that whatever `LRANGE` answers is
what `LTRIM` keeps.

## Main results

* `index_ranges` — `LRANGE` and `ZRANGE` against the positions that are asked for
* `ltrim_keeps_lrange` — `LTRIM` and `LRANGE`
* `getrange_slices` — `GETRANGE` against the positions that are asked for
-/

namespace VeloDB

open Rust Positions

/-! ### The commands -/

/-- A command that reads is not denied, and its reply is that of its handler. -/
theorem dispatch_reads {name : String} {arity : ℤ}
    {f : Env → Databases → ℕ → List Bytes → Reply} (hc : ⟨name, arity, .read f⟩ ∈ commands)
    (hgate : isDenyOomCommand name = false) {env : Env} {args : List Bytes} {w : Whole}
    (hargs : CommandDef.refuses ⟨name, arity, .read f⟩ args = false) {r : RespValue}
    (hf : f env w.store.databases w.ctx.dbIndex args = .ok r) :
    (dispatch env name args w).1 = .ok r := by
  have hmem : w.store.tables.deniesMemory name = false :=
    w.store.tables.deniesMemory_of_allowed hgate
  have hrun : dispatch env name args w
      = catchError (Handler.run (dispatchDepth env env.nesting) env args (.read f)) w :=
    dispatch_eq hc env hmem hargs
  rw [hrun, catchError_fst, Handler.run]
  dsimp only
  rw [hf]

section Lists

variable {env : Env} {w : Whole} {k : Bytes} {e : Entry} {l : List Bytes}
  (he : w.store.databases.liveEntry env.now w.ctx.dbIndex k = some e) (hv : e.value = .list l)

include he hv

theorem lrange_reply (a b : Bytes) : (dispatch env "LRANGE" [k, a, b] w).1
    = .ok (bulks (slice l ((parseI64 a).getD 0) ((parseI64 b).getD (-1)))) := by
  have hunwrap : Kind.list.unwrap e.value = some l := by
    rw [hv]
    rfl
  have hc : (⟨"LRANGE", 4, .read Cmd.lrange⟩ : CommandDef) ∈ commands := by
    simp [commands, Cmd.listCommands]
  refine dispatch_reads hc (by decide) (refuses_of_length rfl (by norm_num)) ?_
  have hread := Databases.readAs_some he hunwrap []
    fun l => Databases.listRange l ((parseI64 a).getD 0) ((parseI64 b).getD (-1))
  have hrange : Cmd.lrange env w.store.databases w.ctx.dbIndex [k, a, b]
      = (do
        let vals ← ofResult (w.store.databases.readAs .list env.now w.ctx.dbIndex k []
          fun l => Databases.listRange l ((parseI64 a).getD 0) ((parseI64 b).getD (-1)))
        pure (bulks vals)) := rfl
  rw [hrange, hread]
  rfl

/-- `LTRIM` stores a part of the list, and touches nothing else of the entry. -/
theorem dispatch_ltrim (a b : Bytes) : dispatch env "LTRIM" [k, a, b] w
    = (.ok .ok, ⟨⟨w.store.databases.put w.ctx.dbIndex k { e with
          value := .list (slice l ((parseI64 a).getD 0) ((parseI64 b).getD (-1))) },
        w.store.tables⟩, w.ctx⟩) := by
  have hunwrap : Kind.list.unwrap e.value = some l := by
    rw [hv]
    rfl
  have hc : (⟨"LTRIM", 4, .write Cmd.ltrim⟩ : CommandDef) ∈ commands := by
    simp [commands, Cmd.listCommands]
  have hmem : w.store.tables.deniesMemory "LTRIM" = false :=
    w.store.tables.deniesMemory_of_allowed (by decide)
  have hrun : dispatch env "LTRIM" [k, a, b] w
      = catchError (Handler.run (dispatchDepth env env.nesting) env [k, a, b] (.write Cmd.ltrim)) w :=
    dispatch_eq hc env hmem (refuses_of_length rfl (by norm_num))
  have hkeeps : ∀ start stop : Int64,
      Keyspace.ltrim env.now w.ctx.dbIndex k start stop ⟨w.store.databases, []⟩
        = (.ok (), ⟨w.store.databases.put w.ctx.dbIndex k
            { e with value := .list (slice l start stop) }, []⟩) := by
    intro start stop
    rw [Keyspace.ltrim, Keyspace.updateAs_run .list he hunwrap, slice]
    dsimp only
    split <;> rfl
  have hhandler : Cmd.ltrim env w.ctx.dbIndex [k, a, b] { databases := w.store.databases }
      = (Keyspace.ltrim env.now w.ctx.dbIndex k ((parseI64 a).getD 0) ((parseI64 b).getD (-1)) >>=
          fun _ => pure RespValue.ok) ⟨w.store.databases, []⟩ := rfl
  rw [hrun, catchError, Handler.run]
  dsimp only
  rw [hhandler, Proc.bind_ok (hkeeps _ _)]
  rfl

end Lists

/-! ### The three claims of the indices -/

theorem bulks_injective : Function.Injective bulks := by
  intro l l' h
  have hmap : l.map RespValue.bulk = l'.map RespValue.bulk := by
    injection h with h
    exact Option.some.inj h
  refine List.map_injective_iff.mpr (fun a b hab => ?_) hmap
  injection hab with hab
  exact Option.some.inj hab

theorem memberScores_eq_nil {H : Host} {items : List (Bytes × Option F64)}
    (h : Cmd.memberScores H items = Cmd.memberScores H []) : items = [] := by
  cases items with
  | nil => rfl
  | cons p items =>
    injection h with h
    cases Option.some.inj h

/-- `ZRANGE` numbers what `zrange_by_score` answers. -/
theorem zrange_eq_slice {now : UInt64} {dbs : Databases} {i : ℕ} {k : Bytes} {withscores : Bool}
    {all : List (Bytes × Option F64)}
    (hall : dbs.zrangeByScore now i k ⟨.negInfinity, true⟩ ⟨.infinity, true⟩ withscores none
      = .ok all) (start stop : Int64) :
    dbs.zrange now i k start stop withscores = .ok (slice all start stop) := by
  rw [Databases.zrange, hall]
  rfl

/-- The fourth argument of `ZRANGE`. -/
def wantsScores (env : Env) (rest : List Bytes) : Bool :=
  rest[0]?.any fun a => upper env a = "WITHSCORES"

theorem zrange_reply {env : Env} {w : Whole} {k : Bytes} {rest : List Bytes}
    {all : List (Bytes × Option F64)}
    (hall : w.store.databases.zrangeByScore env.now w.ctx.dbIndex k ⟨.negInfinity, true⟩
      ⟨.infinity, true⟩ (wantsScores env rest) none = .ok all) (a b : Bytes) :
    (dispatch env "ZRANGE" (k :: a :: b :: rest) w).1 = .ok (Cmd.memberScores env.host
      (slice all ((parseI64 a).getD 0) ((parseI64 b).getD (-1)))) := by
  have hc : (⟨"ZRANGE", -4, .read Cmd.zrange⟩ : CommandDef) ∈ commands := by
    simp [commands, Cmd.zsetCommands]
  refine dispatch_reads hc (by decide) rfl ?_
  have hrange : Cmd.zrange env w.store.databases w.ctx.dbIndex (k :: a :: b :: rest)
      = (do
        let items ← w.store.databases.zrange env.now w.ctx.dbIndex k ((parseI64 a).getD 0)
          ((parseI64 b).getD (-1)) (wantsScores env rest)
        pure (Cmd.memberScores env.host items)) := rfl
  rw [hrange, zrange_eq_slice hall]
  rfl

/-- **`LRANGE` and `ZRANGE`** answer the positions that are asked for, unless the range ends before
the beginning and starts at it. -/
theorem index_ranges (env : Env) (w : Whole) {a b : Bytes} {start stop : Int64}
    (ha : parseI64 a = some start) (hb : parseI64 b = some stop) :
    (∀ k e l, w.store.databases.liveEntry env.now w.ctx.dbIndex k = some e → e.value = .list l →
      l.length < 2 ^ 63 →
      ((dispatch env "LRANGE" [k, a, b] w).1
          = .ok (bulks (between l (low l.length start.toInt) (high l.length stop.toInt))) ↔
        ¬EndsBefore l.length start stop)) ∧
    ∀ k rest all, w.store.databases.zrangeByScore env.now w.ctx.dbIndex k ⟨.negInfinity, true⟩
        ⟨.infinity, true⟩ (wantsScores env rest) none = .ok all → all.length < 2 ^ 63 →
      w.store.databases.zrange env.now w.ctx.dbIndex k 0 (-1) (wantsScores env rest) = .ok all ∧
      ((dispatch env "ZRANGE" (k :: a :: b :: rest) w).1 = .ok (Cmd.memberScores env.host
          (between all (low all.length start.toInt) (high all.length stop.toInt))) ↔
        ¬EndsBefore all.length start stop) := by
  refine ⟨fun k e l he hv hlen => ?_, fun k rest all hall hlen => ⟨?_, ?_⟩⟩
  · rw [lrange_reply he hv, ha, hb, Option.getD_some, Option.getD_some]
    constructor
    · intro h hends
      obtain ⟨hnone, hsome⟩ := slice_of_endsBefore hlen hends
      rw [hnone] at h
      exact hsome (bulks_injective (Except.ok.inj h))
    · intro h
      rw [slice_of_not_endsBefore hlen h]
  · rw [zrange_eq_slice hall, slice_all hlen]
  · rw [zrange_reply hall, ha, hb, Option.getD_some, Option.getD_some]
    constructor
    · intro h hends
      obtain ⟨hnone, hsome⟩ := slice_of_endsBefore hlen hends
      rw [hnone] at h
      exact hsome (memberScores_eq_nil (Except.ok.inj h))
    · intro h
      rw [slice_of_not_endsBefore hlen h]

/-- One database, in which `l` holds the list `a` and `z` the sorted set `a` with the score one. -/
def listAndZset : Store where
  databases := (Store.new 1).databases.put 0 [108] { value := .list [[97]] } |>.put 0 [122]
    { value := .zset (AList.insert [97] ⟨0x3FF0000000000000⟩ ∅)
        [(⟨0x3FF0000000000000⟩, AList.insert [97] () ∅)] }

/-- `LRANGE l 0 -1` and `ZRANGE z 0 -1` in that store. -/
theorem index_ranges_all :
    let env := Moment.on ⟨1, 0, 0, 1⟩ Host.plain
    (dispatch env "LRANGE" [[108], asBytes "0", asBytes "-1"] ⟨listAndZset, {}⟩).1
        = .ok (bulks (between [[97]] (low 1 0) (high 1 (-1)))) ∧
      (dispatch env "ZRANGE" [[122], asBytes "0", asBytes "-1"] ⟨listAndZset, {}⟩).1
        = .ok (Cmd.memberScores env.host (between [([97], none)] (low 1 0) (high 1 (-1)))) := by
  intro env
  have ha : parseI64 (asBytes "0") = some 0 := by decide +kernel
  have hb : parseI64 (asBytes "-1") = some (-1) := by decide +kernel
  obtain ⟨hlist, hzset⟩ := index_ranges env ⟨listAndZset, {}⟩ ha hb
  refine ⟨(hlist [108] _ [[97]] rfl rfl (by decide)).mpr (by decide), ?_⟩
  exact (hzset [122] [] [([97], none)] (by decide +kernel) (by decide)).2.mpr (by decide)

/-- `LRANGE l 0 -2` on a list with one element answers this element. -/
theorem lrange_clamps_stop :
    let env := Moment.on ⟨1, 0, 0, 1⟩ Host.plain
    listAndZset.databases.liveEntry env.now 0 [108] = some { value := .list [[97]] } ∧
      parseI64 (asBytes "0") = some 0 ∧ parseI64 (asBytes "-2") = some (-2) ∧
      (dispatch env "LRANGE" [[108], asBytes "0", asBytes "-2"] ⟨listAndZset, {}⟩).1
        = .ok (bulks [[97]]) ∧
      between [([97] : Bytes)] (low 1 0) (high 1 (-2)) = [] ∧
      (dispatch env "LRANGE" [[108], asBytes "0", asBytes "-2"] ⟨listAndZset, {}⟩).1
        ≠ .ok (bulks (between [[97]] (low 1 0) (high 1 (-2)))) := by
  intro env
  have hreply : (dispatch env "LRANGE" [[108], asBytes "0", asBytes "-2"] ⟨listAndZset, {}⟩).1
      = .ok (bulks [[97]]) := by rfl
  have hnone : between [([97] : Bytes)] (low 1 0) (high 1 (-2)) = [] := by decide
  refine ⟨rfl, by decide +kernel, by decide +kernel, hreply, hnone, ?_⟩
  rw [hreply, hnone]
  intro h
  cases bulks_injective (Except.ok.inj h)

/-! ### What `LTRIM` keeps -/

/-- What `lrange` and `ltrim` rely on behind their check: neither `e - s` nor `e - s + 1` wraps, and
`drain(..s)` ends inside the list. -/
structure RangeSteps (len s e : ℕ) : Prop where
  ordered : s ≤ e
  sum : e - s + 1 < 2 ^ 64
  drain : s ≤ len

theorem rangeSteps {len : ℕ} (hlen : len < 2 ^ 63) {start stop : Int64}
    (h : ¬(rangeStop len stop < rangeStart len start ∨ len ≤ rangeStart len start)) :
    RangeSteps len (rangeStart len start) (rangeStop len stop) := by
  obtain ⟨hordered, hinside⟩ := not_or.mp h
  have hstop := rangeStop_eq hlen (by omega) stop
  have hbelow : rangeStop len stop < len := by
    split at hstop <;> omega
  exact ⟨by omega, by omega, by omega⟩

/-- A live entry with another value is live. -/
theorem liveEntry_put_value {dbs : Databases} {now : UInt64} {i : ℕ} {k : Bytes} {e : Entry}
    (he : dbs.liveEntry now i k = some e) (v : StorageValue) :
    (dbs.put i k { e with value := v }).liveEntry now i k = some { e with value := v } := by
  obtain ⟨hfind, hlive⟩ := Option.filter_eq_some_iff.mp he
  rw [Databases.liveEntry, Databases.find_put_self (Databases.lt_of_find hfind)]
  exact Option.filter_eq_some_iff.mpr ⟨rfl, hlive⟩

/-- **`LTRIM` keeps what `LRANGE` shows**, and no step of either is out of bounds. -/
theorem ltrim_keeps_lrange (env : Env) (w : Whole) {k : Bytes} {e : Entry} {l : List Bytes}
    (he : w.store.databases.liveEntry env.now w.ctx.dbIndex k = some e) (hv : e.value = .list l)
    (hlen : l.length < 2 ^ 63) (a b : Bytes) :
    (∀ start stop : Int64,
      ¬(rangeStop l.length stop < rangeStart l.length start ∨
          l.length ≤ rangeStart l.length start) →
        RangeSteps l.length (rangeStart l.length start) (rangeStop l.length stop)) ∧
    ∃ vals, (dispatch env "LRANGE" [k, a, b] w).1 = .ok (bulks vals) ∧
      (dispatch env "LTRIM" [k, a, b] w).1 = .ok .ok ∧
      (dispatch env "LTRIM" [k, a, b] w).2.store.databases.liveEntry env.now w.ctx.dbIndex k
        = some { e with value := .list vals } := by
  refine ⟨fun start stop => rangeSteps hlen, _, lrange_reply he hv a b, ?_, ?_⟩
  · rw [dispatch_ltrim he hv]
  · rw [dispatch_ltrim he hv]
    exact liveEntry_put_value he _

/-- `LTRIM l 0 -2` keeps the element that `LRANGE l 0 -2` shows. -/
theorem ltrim_keeps_lrange_one :
    let env := Moment.on ⟨1, 0, 0, 1⟩ Host.plain
    ∃ vals, (dispatch env "LRANGE" [[108], asBytes "0", asBytes "-2"] ⟨listAndZset, {}⟩).1
        = .ok (bulks vals) ∧
      (dispatch env "LTRIM" [[108], asBytes "0", asBytes "-2"] ⟨listAndZset, {}⟩).1 = .ok .ok ∧
      (dispatch env "LTRIM" [[108], asBytes "0", asBytes "-2"]
        ⟨listAndZset, {}⟩).2.store.databases.liveEntry env.now 0 [108]
        = some { value := .list vals } := by
  intro env
  have he : listAndZset.databases.liveEntry env.now 0 [108] = some { value := .list [[97]] } := rfl
  exact (ltrim_keeps_lrange env ⟨listAndZset, {}⟩ he rfl (by decide) (asBytes "0")
    (asBytes "-2")).2

/-! ### `GETRANGE` -/

/-- The range does not end before the beginning, and if it starts behind the end, it does not reach
the last byte. -/
def SlicesInside (len : ℕ) (start stop : Int64) : Prop :=
  len = 0 ∨ -len ≤ stop.toInt ∧
    (start.toInt < len ∨ stop.toInt ≠ -1 ∧ stop.toInt < len - 1)

/-- The first byte that `getrange` takes. -/
def bytesStart (len : ℕ) (start : Int64) : ℕ :=
  asUsize (if start < 0 then max (Int64.ofNat len + start) 0
    else min start (Int64.ofNat len - 1))

/-- The last byte that `getrange` takes. -/
def bytesStop (len : ℕ) (stop : Int64) : ℕ :=
  asUsize (if stop < 0 then max (Int64.ofNat len + stop) (-1)
    else min stop (Int64.ofNat len - 1))

section Bytes

variable {len : ℕ} (hlen : len < 2 ^ 63)

include hlen

theorem bytesStart_eq (hpos : 0 < len) (start : Int64) : (bytesStart len start : ℤ)
    = if start.toInt < 0 then max (len + start.toInt) 0 else min start.toInt (len - 1) := by
  have hhigh := start.toInt_lt
  rw [bytesStart, asUsize_eq]
  by_cases hneg : start.toInt < 0
  · rw [if_pos ((lt_zero_iff _).mpr hneg), if_pos hneg, toInt_max, toInt_len_add hlen hneg,
      Int64.toInt_zero]
    omega
  · rw [if_neg (mt (lt_zero_iff _).mp hneg), if_neg hneg, toInt_min, toInt_len_sub_one hlen]
    omega

/-- The end before the beginning is cast to the largest `usize`. -/
theorem bytesStop_eq (hpos : 0 < len) (stop : Int64) : (bytesStop len stop : ℤ)
    = if stop.toInt < -len then 2 ^ 64 - 1
      else if stop.toInt < 0 then len + stop.toInt else min stop.toInt (len - 1) := by
  have hhigh := stop.toInt_lt
  have hminus : (-1 : Int64).toInt = -1 := rfl
  rw [bytesStop, asUsize_eq]
  by_cases hneg : stop.toInt < 0
  · rw [if_pos ((lt_zero_iff _).mpr hneg), toInt_max, toInt_len_add hlen hneg, hminus, if_pos hneg]
    split <;> omega
  · rw [if_neg (mt (lt_zero_iff _).mp hneg), toInt_min, toInt_len_sub_one hlen, if_neg hneg]
    split <;> omega

end Bytes

theorem sliceBytes_eq (val : Bytes) (start stop : Int64) : Cmd.sliceBytes val start stop
    = (val.take (min (bytesStop val.length stop) (val.length - 1) + 1)).drop
        (bytesStart val.length start) := by
  rw [Cmd.sliceBytes, ← bytesStart, ← bytesStop, List.drop_take]
  split
  · next h =>
    rcases h with h | h
    · rw [show min (bytesStop val.length stop) (val.length - 1) + 1 - bytesStart val.length start = 0
        by omega, List.take_zero]
    · rw [List.drop_of_length_le h, List.take_nil]
  · rfl

/-- **`sliceBytes`** cuts out what is asked for if and only if the range is inside. -/
theorem sliceBytes_iff {val : Bytes} (hlen : val.length < 2 ^ 63) (start stop : Int64) :
    Cmd.sliceBytes val start stop
        = between val (low val.length start.toInt) (high val.length stop.toInt) ↔
      SlicesInside val.length start stop := by
  rcases Nat.eq_zero_or_pos val.length with hnil | hpos
  · refine iff_of_true ?_ (Or.inl hnil)
    rw [List.length_eq_zero_iff.mp hnil, sliceBytes_eq, between_eq, List.take_nil, List.take_nil,
      List.drop_nil, List.drop_nil]
  · have hs := bytesStart_eq hlen hpos start
    have he := bytesStop_eq hlen hpos stop
    rw [sliceBytes_eq, between_eq, SlicesInside, low, high]
    constructor
    · -- outside, the two differ in length
      intro h
      have hlength := congrArg List.length h
      rw [List.length_drop, List.length_drop, List.length_take, List.length_take] at hlength
      refine Or.inr ?_
      split_ifs at hs he hlength <;> omega
    · intro hinside
      by_cases hbehind : val.length ≤ start.toInt
      · -- nothing is asked for, and the code ends before the last byte
        have hstart : bytesStart val.length start = val.length - 1 := by
          split_ifs at hs <;> omega
        have hstop : bytesStop val.length stop < val.length - 1 := by
          split_ifs at he <;> omega
        rw [if_neg (by omega), List.drop_of_length_le (by rw [List.length_take]; omega),
          List.drop_of_length_le (by rw [List.length_take]; omega)]
      · refine drop_take_congr ?_ ?_
        · split_ifs at hs ⊢ <;> omega
        · split_ifs at he ⊢ <;> omega

/-- **`GETRANGE`** answers the bytes that are asked for if and only if the range is inside. -/
theorem getrange_slices (env : Env) (w : Whole) {k : Bytes} {e : Entry} {v : Bytes}
    (he : w.store.databases.liveEntry env.now w.ctx.dbIndex k = some e) (hv : e.value = .string v)
    (hlen : v.length < 2 ^ 63) {a b : Bytes} {start stop : Int64} (ha : parseI64 a = some start)
    (hb : parseI64 b = some stop) :
    (dispatch env "GETRANGE" [k, a, b] w).1
        = .ok (.bulk (between v (low v.length start.toInt) (high v.length stop.toInt))) ↔
      SlicesInside v.length start stop := by
  have hc : (⟨"GETRANGE", 4, .read Cmd.getrange⟩ : CommandDef) ∈ commands := by
    simp [commands, Cmd.stringCommands]
  have hget : w.store.databases.get env.now w.ctx.dbIndex k = .ok (some v) := by
    obtain ⟨value, expire, version⟩ := e
    obtain rfl : value = .string v := hv
    rw [Databases.get, Databases.entry_eq (Databases.lt_of_liveEntry he), he]
    rfl
  have hhandler : Cmd.getrange env w.store.databases w.ctx.dbIndex [k, a, b]
      = .ok (.bulk (Cmd.sliceBytes v start stop)) := by
    have hrange : Cmd.getrange env w.store.databases w.ctx.dbIndex [k, a, b]
        = (do
          let v ← ofResult (w.store.databases.get env.now w.ctx.dbIndex k)
          pure (.bulk ((v.map fun val => Cmd.sliceBytes val ((parseI64 a).getD 0)
            ((parseI64 b).getD (-1))).getD []))) := rfl
    rw [hrange, hget, ha, hb]
    rfl
  rw [dispatch_reads hc (by decide) (refuses_of_length rfl (by norm_num)) hhandler,
    ← sliceBytes_iff hlen]
  constructor
  · intro h
    injection h with h
    injection h with h
    exact Option.some.inj h
  · intro h
    rw [h]

/-- One database, in which `s` holds the string `abc`. -/
def threeBytes : Store where
  databases := (Store.new 1).databases.put 0 [115] { value := .string [97, 98, 99] }

/-- `GETRANGE s -2 -1` in that store. -/
theorem getrange_slices_back :
    let env := Moment.on ⟨1, 0, 0, 1⟩ Host.plain
    (dispatch env "GETRANGE" [[115], asBytes "-2", asBytes "-1"] ⟨threeBytes, {}⟩).1
      = .ok (.bulk (between [97, 98, 99] (low 3 (-2)) (high 3 (-1)))) := by
  intro env
  have he : threeBytes.databases.liveEntry env.now 0 [115]
      = some { value := .string [97, 98, 99] } := rfl
  have ha : parseI64 (asBytes "-2") = some (-2) := by decide +kernel
  have hb : parseI64 (asBytes "-1") = some (-1) := by decide +kernel
  refine (getrange_slices env ⟨threeBytes, {}⟩ he rfl (by decide) ha hb).mpr ?_
  exact Or.inr ⟨by decide, Or.inl (by decide)⟩

/-- `GETRANGE s 3 3` answers the last byte, and `GETRANGE s 0 -4` all bytes. -/
theorem getrange_outside :
    let env := Moment.on ⟨1, 0, 0, 1⟩ Host.plain
    threeBytes.databases.liveEntry env.now 0 [115] = some { value := .string [97, 98, 99] } ∧
      parseI64 (asBytes "3") = some 3 ∧ parseI64 (asBytes "-4") = some (-4) ∧
      (dispatch env "GETRANGE" [[115], asBytes "3", asBytes "3"] ⟨threeBytes, {}⟩).1
        = .ok (.bulk [99]) ∧
      between ([97, 98, 99] : Bytes) (low 3 3) (high 3 3) = [] ∧
      (dispatch env "GETRANGE" [[115], asBytes "0", asBytes "-4"] ⟨threeBytes, {}⟩).1
        = .ok (.bulk [97, 98, 99]) ∧
      between ([97, 98, 99] : Bytes) (low 3 0) (high 3 (-4)) = [] ∧
      (dispatch env "GETRANGE" [[115], asBytes "3", asBytes "3"] ⟨threeBytes, {}⟩).1
        ≠ .ok (.bulk (between [97, 98, 99] (low 3 3) (high 3 3))) := by
  intro env
  have hreply : (dispatch env "GETRANGE" [[115], asBytes "3", asBytes "3"] ⟨threeBytes, {}⟩).1
      = .ok (.bulk [99]) := by rfl
  have hnone : between ([97, 98, 99] : Bytes) (low 3 3) (high 3 3) = [] := by decide
  refine ⟨rfl, by decide +kernel, by decide +kernel, hreply, hnone, rfl, by decide, ?_⟩
  rw [hreply, hnone]
  intro h
  injection h with h
  injection h with h
  cases Option.some.inj h

end VeloDB
