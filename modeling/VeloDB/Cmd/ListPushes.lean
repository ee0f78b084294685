import VeloDB.Cmd.Containers

/-!
# Pushing to a list

`RPUSH` of some values is `RPUSH` of one after the other, however they are split into commands.
`LPUSH` goes through its values from the last to the first, so it leaves them in the order in which
they are given, and not in the order of one push after the other.

## Main results

* `lpush_inTurn_iff` — when `LPUSH` does what pushes in turn do
-/

namespace VeloDB

open Rust Proc

/-! ### The list at a key -/

/-- A key of a database has a list, or nothing, which is an empty list to a push. A push does not
look at the expiry. -/
structure Databases.HoldsList (dbs : Databases) (i : ℕ) (k : Bytes) (l : List Bytes) : Prop where
  lt : i < dbs.length
  unwrap : Kind.list.unwrap ((dbs.find i k).getD { value := .list [] }).value = some l

/-- The list at a key. -/
def Databases.storedList (dbs : Databases) (i : ℕ) (k : Bytes) : List Bytes :=
  ((dbs.find i k).bind fun e => Kind.list.unwrap e.value).getD []

theorem Databases.HoldsList.storedList_eq {dbs : Databases} {i : ℕ} {k : Bytes} {l : List Bytes}
    (h : dbs.HoldsList i k l) : dbs.storedList i k = l := by
  have hunwrap := h.unwrap
  rw [storedList]
  cases he : dbs.find i k with
  | none =>
    rw [he] at hunwrap
    exact Option.some.inj hunwrap
  | some e =>
    rw [he, Option.getD_some] at hunwrap
    rw [Option.bind_some, hunwrap, Option.getD_some]

theorem Databases.HoldsList.put {dbs : Databases} {i : ℕ} {k : Bytes} {l : List Bytes} {e : Entry}
    (hi : i < dbs.length) (he : e.value = .list l) : (dbs.put i k e).HoldsList i k l where
  lt := by rwa [length_put]
  unwrap := by
    rw [find_put_self hi, Option.getD_some, he]
    rfl

namespace Keyspace

variable {ks : Keyspace} {i : ℕ} {k : Bytes} {l : List Bytes}

theorem lpush_run (h : ks.databases.HoldsList i k l) (values : List Bytes) :
    (lpush i k values ks).1 = .ok (values ++ l).length ∧
      (lpush i k values ks).2.databases.HoldsList i k (values ++ l) := by
  have hfold : values.reverse.foldl (fun l v => v :: l) l = values ++ l := by
    rw [List.foldl_flip_cons_eq_append', List.reverse_reverse]
  rw [lpush, Proc.bind_ok (upsertAs_run .list h.lt h.unwrap _ ks.notified)]
  dsimp only
  rw [hfold]
  exact ⟨rfl, .put h.lt rfl⟩

theorem rpush_run (h : ks.databases.HoldsList i k l) (values : List Bytes) :
    (rpush i k values ks).1 = .ok (l ++ values).length ∧
      (rpush i k values ks).2.databases.HoldsList i k (l ++ values) := by
  rw [rpush, Proc.bind_ok (upsertAs_run .list h.lt h.unwrap _ ks.notified)]
  dsimp only
  rw [Run.foldl_snoc]
  exact ⟨rfl, .put h.lt rfl⟩

end Keyspace

/-! ### One command and several -/

/-- A pushing command of the table. -/
abbrev Push := Env → ℕ → List Bytes → KeyM RespValue

/-- What a pushing command makes of a list. -/
def Push.Makes (push : Push) (gives : List Bytes → List Bytes → List Bytes) : Prop :=
  ∀ {env : Env} {i : ℕ} {k : Bytes} {l : List Bytes} {ks : Keyspace} (values : List Bytes),
    ks.databases.HoldsList i k l →
      (push env i (k :: values) ks).1 = .ok (.count (gives values l).length) ∧
        (push env i (k :: values) ks).2.databases.HoldsList i k (gives values l)

theorem makes_lpush : Push.Makes Cmd.lpush fun values l => values ++ l := by
  intro env i k l ks values h
  obtain ⟨hlen, hlist⟩ := Keyspace.lpush_run h values
  have hrun : Cmd.lpush env i (k :: values) ks
      = (.ok (.count (values ++ l).length), (Keyspace.lpush i k values ks).2) :=
    bind_ok (Prod.ext hlen rfl)
  rw [hrun]
  exact ⟨rfl, hlist⟩

theorem makes_rpush : Push.Makes Cmd.rpush fun values l => l ++ values := by
  intro env i k l ks values h
  obtain ⟨hlen, hlist⟩ := Keyspace.rpush_run h values
  have hrun : Cmd.rpush env i (k :: values) ks
      = (.ok (.count (l ++ values).length), (Keyspace.rpush i k values ks).2) :=
    bind_ok (Prod.ext hlen rfl)
  rw [hrun]
  exact ⟨rfl, hlist⟩

namespace Push

variable (push : Push) (env : Env) (i : ℕ) (k : Bytes)

/-- One command for each value. -/
def eachAlone (values : List Bytes) (ks : Keyspace) : Keyspace :=
  values.foldl (fun ks v => (push env i [k, v] ks).2) ks

/-- A push of some values, and two pushes of a part each: the list is the same, it is that of one
push for each value, and every push answers how long the list has become. -/
structure InTurn (l xs ys : List Bytes) (ks : Keyspace) : Prop where
  batches : (push env i (k :: (xs ++ ys)) ks).2.databases.storedList i k
    = (push env i (k :: ys) (push env i (k :: xs) ks).2).2.databases.storedList i k
  alone : (push env i (k :: (xs ++ ys)) ks).2.databases.storedList i k
    = (eachAlone push env i k (xs ++ ys) ks).databases.storedList i k
  whole : (push env i (k :: (xs ++ ys)) ks).1 = .ok (.count (l.length + (xs.length + ys.length)))
  front : (push env i (k :: xs) ks).1 = .ok (.count (l.length + xs.length))
  back : (push env i (k :: ys) (push env i (k :: xs) ks).2).1
    = .ok (.count (l.length + (xs.length + ys.length)))

variable {push env i k} {gives : List Bytes → List Bytes → List Bytes} {l : List Bytes}
  {ks : Keyspace}

theorem Makes.eachAlone (h : Makes push gives) (hl : ks.databases.HoldsList i k l)
    (values : List Bytes) : (eachAlone push env i k values ks).databases.HoldsList i k
      (values.foldl (fun l v => gives [v] l) l) := by
  induction values generalizing ks l with
  | nil => exact hl
  | cons v values ih => exact ih (h [v] hl).2

/-- Pushes that make the list longer by their values are pushes in turn if their lists agree. -/
theorem Makes.inTurn_iff (h : Makes push gives)
    (hlen : ∀ values l, (gives values l).length = l.length + values.length)
    (hl : ks.databases.HoldsList i k l) {xs ys : List Bytes} :
    InTurn push env i k l xs ys ks ↔ gives (xs ++ ys) l = gives ys (gives xs l) ∧
      gives (xs ++ ys) l = (xs ++ ys).foldl (fun l v => gives [v] l) l := by
  obtain ⟨hwhole, hwholeList⟩ := @h env _ _ _ _ (xs ++ ys) hl
  obtain ⟨hfront, hfrontList⟩ := @h env _ _ _ _ xs hl
  obtain ⟨hback, hbackList⟩ := @h env _ _ _ _ ys hfrontList
  have hsum : (xs ++ ys).length = xs.length + ys.length := List.length_append
  constructor
  · intro hturn
    have hbatches := hturn.batches
    have halone := hturn.alone
    rw [hwholeList.storedList_eq, hbackList.storedList_eq] at hbatches
    rw [hwholeList.storedList_eq, (h.eachAlone hl _).storedList_eq] at halone
    exact ⟨hbatches, halone⟩
  · rintro ⟨hbatches, halone⟩
    refine ⟨?_, ?_, ?_, ?_, ?_⟩
    · rw [hwholeList.storedList_eq, hbackList.storedList_eq, hbatches]
    · rw [hwholeList.storedList_eq, (h.eachAlone hl _).storedList_eq, halone]
    · rw [hwhole, hlen, hsum]
    · rw [hfront, hlen]
    · rw [hback, hlen, hlen, Nat.add_assoc]

end Push

/-- **Pushes in turn.** `RPUSH` of some values does what pushes in turn do, and `LPUSH` does if and
only if the values read the same backwards and the two parts can be swapped. -/
theorem lpush_inTurn_iff (env : Env) {i : ℕ} {k : Bytes} {l : List Bytes} {ks : Keyspace}
    (hl : ks.databases.HoldsList i k l) (xs ys : List Bytes) :
    Push.InTurn Cmd.rpush env i k l xs ys ks ∧
      (Push.InTurn Cmd.lpush env i k l xs ys ks ↔
        xs ++ ys = ys ++ xs ∧ (xs ++ ys).reverse = xs ++ ys) := by
  constructor
  · have hlen : ∀ values l : List Bytes, (l ++ values).length = l.length + values.length :=
      fun _ _ => List.length_append
    refine (makes_rpush.inTurn_iff hlen hl).mpr ⟨(List.append_assoc l xs ys).symm, ?_⟩
    rw [Run.foldl_snoc]
  · have hlen : ∀ values l : List Bytes, (values ++ l).length = l.length + values.length :=
      fun values l => List.length_append.trans (Nat.add_comm _ _)
    rw [makes_lpush.inTurn_iff hlen hl, ← List.append_assoc, List.append_cancel_right_eq]
    have halone : (xs ++ ys).foldl (fun l v => [v] ++ l) l = (xs ++ ys).reverse ++ l :=
      List.foldl_flip_cons_eq_append'
    rw [halone, List.append_cancel_right_eq, eq_comm (a := xs ++ ys) (b := (xs ++ ys).reverse)]

/-- The same value twice. -/
theorem lpush_inTurn_twice :
    Push.InTurn Cmd.lpush (Moment.on ⟨1, 0, 0, 1⟩ Host.plain) 0 [107] [] [[97]] [[97]]
      ⟨(Store.new 1).databases, []⟩ := by
  have hl : (Store.new 1).databases.HoldsList 0 [107] [] := ⟨by decide, rfl⟩
  exact ((lpush_inTurn_iff _ hl [[97]] [[97]]).2).mpr ⟨rfl, rfl⟩

/-- `LPUSH k a b` leaves `a b`; `LPUSH k a` and then `LPUSH k b` leave `b a`. -/
theorem lpush_not_inTurn :
    ¬Push.InTurn Cmd.lpush (Moment.on ⟨1, 0, 0, 1⟩ Host.plain) 0 [107] [] [[97]] [[98]]
      ⟨(Store.new 1).databases, []⟩ := by
  intro h
  have hbatches := h.batches
  revert hbatches
  decide

end VeloDB
