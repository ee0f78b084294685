import VeloDB.Store.Containers

/-!
# Lists

The list methods of the store. Indices are `i64` and count from the end when negative; the
conversions between the signed index and the length are written as the source does them, casts
included.
-/

namespace VeloDB

open Rust

/-- `x as usize`. -/
def asUsize (x : Int64) : ℕ := x.toUInt64.toNat

/-- The first position of a range:
`if start < 0 { (len + start).max(0) } else { start.min(len) }`. -/
def rangeStart (len : ℕ) (start : Int64) : ℕ :=
  asUsize (if start < 0 then max (Int64.ofNat len + start) 0 else min start (Int64.ofNat len))

/-- The last position of a range:
`if stop < 0 { (len + stop).max(0) } else { stop.min(len - 1) }`. -/
def rangeStop (len : ℕ) (stop : Int64) : ℕ :=
  asUsize (if stop < 0 then max (Int64.ofNat len + stop) 0 else min stop (Int64.ofNat len - 1))

/-- A single index: counted from the end when negative, `none` when it is outside. -/
def listIndex (len : ℕ) (idx : Int64) : Option ℕ :=
  let i := if idx < 0 then Int64.ofNat len + idx else idx
  if i < 0 ∨ Int64.ofNat len ≤ i then none else some (asUsize i)

namespace Databases

/-- `Store::llen`. -/
def llen (now : UInt64) (dbs : Databases) (i : ℕ) (k : Bytes) : Except VeloDBError ℕ :=
  dbs.readAs .list now i k 0 List.length

/-- The elements of a range. -/
def listRange (l : List Bytes) (start stop : Int64) : List Bytes :=
  let s := rangeStart l.length start
  let e := rangeStop l.length stop
  if e < s ∨ l.length ≤ s then [] else (l.drop s).take (e - s + 1)

/-- `Store::lrange`. -/
def lrange (now : UInt64) (dbs : Databases) (i : ℕ) (k : Bytes) (start stop : Int64) :
    Except VeloDBError (List Bytes) :=
  dbs.readAs .list now i k [] fun l => listRange l start stop

/-- `Store::lindex`. -/
def lindex (now : UInt64) (dbs : Databases) (i : ℕ) (k : Bytes) (idx : Int64) :
    Except VeloDBError (Option Bytes) :=
  dbs.readAs .list now i k none fun l =>
    if l.length = 0 then none else listIndex l.length idx >>= fun i => l[i]?

end Databases

theorem asUsize_ofNat {n : ℕ} (h : n < 2 ^ 63) : asUsize (Int64.ofNat n) = n := by
  rw [asUsize, Int64.toUInt64_ofNat', UInt64.toNat_ofNat']
  omega

theorem ofNat_nonneg {n : ℕ} (h : n < 2 ^ 63) : (0 : Int64) ≤ Int64.ofNat n := by
  rw [Int64.le_iff_toInt_le, Int64.toInt_ofNat_of_lt h]
  exact Int.natCast_nonneg n

theorem min_ofNat {a b : ℕ} (ha : a < 2 ^ 63) (hb : b < 2 ^ 63) :
    min (Int64.ofNat a) (Int64.ofNat b) = Int64.ofNat (min a b) := by
  have hle : Int64.ofNat a ≤ Int64.ofNat b ↔ a ≤ b := by
    rw [Int64.le_iff_toInt_le, Int64.toInt_ofNat_of_lt ha, Int64.toInt_ofNat_of_lt hb]
    exact Int.ofNat_le
  by_cases h : a ≤ b
  · rw [Nat.min_eq_left h]
    exact if_pos (hle.mpr h)
  · rw [Nat.min_eq_right (Nat.le_of_not_le h)]
    exact if_neg fun h' => h (hle.mp h')

theorem not_ofNat_neg {n : ℕ} (h : n < 2 ^ 63) : ¬ Int64.ofNat n < 0 :=
  Int64.not_lt.mpr (ofNat_nonneg h)

/-- A range from a position counted from the front. -/
theorem rangeStart_ofNat {len n : ℕ} (hlen : len < 2 ^ 63) (hn : n < 2 ^ 63) :
    rangeStart len (Int64.ofNat n) = min n len := by
  rw [rangeStart, if_neg (not_ofNat_neg hn), min_ofNat hn hlen, asUsize_ofNat (by omega)]

/-- A range up to a position counted from the front. -/
theorem rangeStop_ofNat {len n : ℕ} (hlen : len + 1 < 2 ^ 63) (hn : n < 2 ^ 63) :
    rangeStop (len + 1) (Int64.ofNat n) = min n len := by
  have hlast : Int64.ofNat (len + 1) - 1 = Int64.ofNat len := by
    rw [Int64.ofNat_add]
    exact Int64.add_sub_cancel _ _
  rw [rangeStop, if_neg (not_ofNat_neg hn), hlast, min_ofNat hn (by omega), asUsize_ofNat (by omega)]

/-- A range up to the last position. -/
theorem rangeStop_last {len : ℕ} (hlen : len + 1 < 2 ^ 63) : rangeStop (len + 1) (-1) = len := by
  have hlen' : len < 2 ^ 63 := by omega
  have hlast : Int64.ofNat (len + 1) + -1 = Int64.ofNat len := by
    rw [Int64.ofNat_add, Int64.add_assoc]
    exact Int64.add_zero _
  have hmax : max (Int64.ofNat len) (0 : Int64) = Int64.ofNat len := by
    by_cases hzero : Int64.ofNat len ≤ 0
    · rw [Int64.le_antisymm hzero (ofNat_nonneg hlen')]
      rfl
    · exact if_neg hzero
  rw [rangeStop, if_pos (by decide), hlast, hmax, asUsize_ofNat hlen']

/-- The elements of a list between two indices, as `lrange` and `zrange` count them. -/
def slice {α : Type} (l : List α) (start stop : Int64) : List α :=
  let s := rangeStart l.length start
  let e := rangeStop l.length stop
  if e < s ∨ l.length ≤ s then [] else (l.drop s).take (e - s + 1)

/-- The range from the first to the last element is the list. -/
theorem slice_all {α : Type} {l : List α} (h : l.length < 2 ^ 63) : slice l 0 (-1) = l := by
  cases l with
  | nil => rfl
  | cons a l =>
    rw [List.length_cons] at h
    have hstart : rangeStart (l.length + 1) 0 = 0 := by
      have hzero := rangeStart_ofNat h (n := 0) (by norm_num)
      rwa [Nat.zero_min] at hzero
    rw [slice, List.length_cons, hstart, rangeStop_last h]
    simp

/-- The range from an index to itself is the element there, if there is one. -/
theorem slice_one {α : Type} {l : List α} (h : l.length < 2 ^ 63) {n : ℕ} (hn : n < 2 ^ 63) :
    slice l (Int64.ofNat n) (Int64.ofNat n) = l[n]?.toList := by
  cases l with
  | nil =>
    rw [slice, List.length_nil, if_pos (Or.inr (Nat.zero_le _))]
    rfl
  | cons a l =>
    rw [List.length_cons] at h
    rw [slice, List.length_cons, rangeStart_ofNat h hn, rangeStop_ofNat h hn]
    by_cases hin : n ≤ l.length
    · have hlt : n < (a :: l).length := Nat.lt_succ_of_le hin
      rw [Nat.min_eq_left (Nat.le_succ_of_le hin), Nat.min_eq_left hin,
        if_neg (by omega), Nat.sub_self, List.getElem?_eq_getElem hlt, List.drop_eq_getElem_cons hlt]
      rfl
    · have hout : (a :: l).length ≤ n := Nat.lt_of_not_le hin
      rw [if_pos (Or.inr (by omega)), List.getElem?_eq_none hout]
      rfl

theorem listRange_all {l : List Bytes} (h : l.length < 2 ^ 63) :
    Databases.listRange l 0 (-1) = l := slice_all h

namespace Keyspace

/-- `Store::lpush`: the values from the last to the first, each in front. -/
def lpush (i : ℕ) (k : Bytes) (values : List Bytes) : KeyM ℕ := do
  let len ← upsertAs .list i k [] fun l =>
    let l' := values.reverse.foldl (fun l v => v :: l) l
    (.ok l'.length, l')
  notify k
  pure len

/-- `Store::rpush`. -/
def rpush (i : ℕ) (k : Bytes) (values : List Bytes) : KeyM ℕ := do
  let len ← upsertAs .list i k [] fun l =>
    let l' := values.foldl (fun l v => l ++ [v]) l
    (.ok l'.length, l')
  notify k
  pure len

/-- `Store::lpop_one`. -/
def lpopOne (now : UInt64) (i : ℕ) (k : Bytes) : KeyM (Option Bytes) :=
  updateAs .list now i k (.ok none) fun l => (.ok l.head?, l.tail)

/-- `Store::rpop_one`. -/
def rpopOne (now : UInt64) (i : ℕ) (k : Bytes) : KeyM (Option Bytes) :=
  updateAs .list now i k (.ok none) fun l => (.ok l.getLast?, l.dropLast)

/-- `Store::lset`. -/
def lset (now : UInt64) (i : ℕ) (k : Bytes) (idx : Int64) (value : Bytes) : KeyM Unit :=
  updateAs .list now i k (.error (.error .keyNotFound)) fun l =>
    match listIndex l.length idx with
    | some i => (.ok (), l.set i value)
    | none => (.error (.error .indexOutOfRange), l)

/-- `Store::ltrim`. -/
def ltrim (now : UInt64) (i : ℕ) (k : Bytes) (start stop : Int64) : KeyM Unit :=
  updateAs .list now i k (.ok ()) fun l =>
    let s := rangeStart l.length start
    let e := rangeStop l.length stop
    if e < s ∨ l.length ≤ s then (.ok (), [])
    else (.ok (), (l.drop s).take (e - s + 1))

/-- The loop of `lrem` from the front: `n` times the first occurrence, if there is one. -/
def lremFront (value : Bytes) : ℕ → List Bytes → ℕ → ℕ × List Bytes
  | 0, l, removed => (removed, l)
  | n + 1, l, removed =>
    if value ∈ l then lremFront value n (l.erase value) (removed + 1)
    else lremFront value n l removed

/-- The loop of `lrem` from the back, over the positions below `n`. -/
def lremBack (value : Bytes) (limit : ℕ) : ℕ → List Bytes → ℕ → ℕ × List Bytes
  | 0, l, removed => (removed, l)
  | n + 1, l, removed =>
    if l[n]? = some value then
      if limit ≤ removed + 1 then (removed + 1, l.eraseIdx n)
      else lremBack value limit n (l.eraseIdx n) (removed + 1)
    else lremBack value limit n l removed

/-- `Store::lrem`. -/
def lrem (now : UInt64) (i : ℕ) (k : Bytes) (count : Int64) (value : Bytes) : KeyM ℕ :=
  updateAs .list now i k (.ok 0) fun l =>
    let r := if 0 ≤ count then
        lremFront value (if count = 0 then l.length else asUsize count) l 0
      else lremBack value (asUsize (-count)) l.length l 0
    (.ok r.1, r.2)

end Keyspace

end VeloDB
