import VeloDB.Cmd.Generic
import VeloDB.Cmd.Strings

/-!
# Expiry instants

Four commands and four options of `SET` make an instant out of a number: seconds or milliseconds,
from now or from the epoch. They compute it modulo `2 ^ 64`. A text that is no number of their type
is zero to the commands, and to `SET` it is as if the option were not there.

## Main results

* `setsExactly_iff` — when the instant that is set is the exact one
-/

namespace VeloDB

open Rust

/-- What the number counts. -/
inductive ExpiryUnit
  | seconds
  | millis
  | atSeconds
  | atMillis

namespace ExpiryUnit

/-- The instant, in milliseconds. -/
def instant (now : UInt64) (n : ℤ) : ExpiryUnit → ℤ
  | seconds => now.toNat + 1000 * n
  | millis => now.toNat + n
  | atSeconds => 1000 * n
  | atMillis => n

/-- The instant as it is computed. -/
def time (now x : UInt64) : ExpiryUnit → UInt64
  | seconds => now + x * 1000
  | millis => now + x
  | atSeconds => x * 1000
  | atMillis => x

/-- The command. -/
def command : ExpiryUnit → Env → ℕ → List Bytes → KeyM RespValue
  | seconds => Cmd.expire
  | millis => Cmd.pexpire
  | atSeconds => Cmd.expireat
  | atMillis => Cmd.pexpireat

/-- The option of `SET`. -/
def word : ExpiryUnit → String
  | seconds => "EX"
  | millis => "PX"
  | atSeconds => "EXAT"
  | atMillis => "PXAT"

variable (u : ExpiryUnit) (now : UInt64)

theorem toNat_emod (x : UInt64) : (x.toNat : ℤ) % 2 ^ 64 = x.toNat := by
  have hlt := x.toNat_lt
  exact Int.emod_eq_of_lt (by omega) (by omega)

theorem toNat_time (x : UInt64) :
    ((u.time now x).toNat : ℤ) = u.instant now x.toNat % 2 ^ 64 := by
  cases u with
  | atMillis => exact (toNat_emod x).symm
  | _ => simp [time, instant, UInt64.toNat_add, UInt64.toNat_mul, mul_comm]

theorem instant_emod {n m : ℤ} (h : n % 2 ^ 64 = m % 2 ^ 64) :
    u.instant now n % 2 ^ 64 = u.instant now m % 2 ^ 64 := by
  cases u <;> simp only [instant] <;> omega

/-- **The computed instant is exact** if and only if the exact one is a value of the type. -/
theorem toNat_time_eq_iff {x : UInt64} {n : ℤ} (h : n % 2 ^ 64 = x.toNat) :
    ((u.time now x).toNat : ℤ) = u.instant now n ↔
      0 ≤ u.instant now n ∧ u.instant now n < 2 ^ 64 := by
  rw [toNat_time, u.instant_emod now ((toNat_emod x).trans h.symm)]
  omega

theorem instant_injective : Function.Injective fun n => u.instant now n := by
  intro n m h
  cases u <;> simp only [instant] at h <;> omega

theorem le_instant {n : ℤ} (h : 0 ≤ n) : n ≤ u.instant now n := by
  cases u <;> simp only [instant] <;> omega

end ExpiryUnit

/-- A command sets the exact instant of the number that a text denotes, or it is refused, with an
error or by `NX` or `XX`, and the key stays as it is. -/
def SetsExactly (instant : ℤ → ℤ) (a : Bytes) (reply : Except Failure RespValue)
    (before after : Option Entry) : Prop :=
  (∃ n, ∃ t : UInt64, Denotes (fromUtf8Lossy a) n ∧ (t.toNat : ℤ) = instant n ∧
    (∃ r, reply = .ok r) ∧ ∃ e, after = some e ∧ e.expireAt = some t) ∨
  ((∃ e, reply = .error (.error e)) ∨ reply = .ok .nil) ∧ after = before

/-! ### The four commands -/

section Commands

variable {u : ExpiryUnit} {env : Env} {i : ℕ} {k a : Bytes} {ks : Keyspace} {e : Entry}

theorem expireCommand_run (hfind : ks.databases.find i k = some e) :
    u.command env i [k, a] ks = (.ok (.integer 1), ⟨ks.databases.put i k
      { e with expireAt := some (u.time env.now ((argU64 a).getD 0)) }, ks.notified⟩) := by
  have hi := Databases.lt_of_find hfind
  have hset := Keyspace.changeExpire_run hi hfind
    (some (u.time env.now ((argU64 a).getD 0))) ks.notified
  cases u <;> exact Proc.bind_ok hset

/-- The number that the commands take. -/
theorem argU64_getD {n : ℤ} (hn : Denotes (fromUtf8Lossy a) n) (hlow : 0 ≤ n) (hhigh : n < 2 ^ 64) :
    (((argU64 a).getD 0).toNat : ℤ) = n := by
  have hget : (((parseUnsigned (2 ^ 64 - 1) (fromUtf8Lossy a)).getD 0 : ℕ) : ℤ) = n :=
    getD_parseUnsigned hn hlow (by omega)
  rw [argU64, parseU64]
  cases hm : parseUnsigned (2 ^ 64 - 1) (fromUtf8Lossy a) with
  | none =>
    rw [hm] at hget
    exact hget
  | some m =>
    rw [hm, Option.getD_some] at hget
    rw [Option.map_some, Option.getD_some, UInt64.toNat_ofNat_of_lt' (show m < 2 ^ 64 by omega)]
    exact hget

theorem denotes_of_argU64 {m : UInt64} (h : argU64 a = some m) :
    Denotes (fromUtf8Lossy a) m.toNat := by
  obtain ⟨n, hn, rfl⟩ := Option.map_eq_some_iff.mp h
  have hle : n ≤ 2 ^ 64 - 1 := by
    obtain ⟨ds, hds⟩ := parseUnsigned_shape (fromUtf8Lossy a)
    rw [hds] at hn
    split_ifs at hn with hall
    exact (Option.some.inj hn) ▸ hall.2.2
  rw [UInt64.toNat_ofNat_of_lt' (show n < 2 ^ 64 by omega)]
  exact denotes_of_parseUnsigned hn

/-- **Of a stored key.** -/
theorem setsExactly_command (hfind : ks.databases.find i k = some e) :
    SetsExactly (fun n => u.instant env.now n) a (u.command env i [k, a] ks).1
        (ks.databases.find i k) ((u.command env i [k, a] ks).2.databases.find i k) ↔
      ∃ n, Denotes (fromUtf8Lossy a) n ∧ 0 ≤ n ∧ u.instant env.now n < 2 ^ 64 := by
  have hi : i < ks.databases.length := Databases.lt_of_find hfind
  rw [expireCommand_run hfind]
  dsimp only
  rw [Databases.find_put_self hi]
  constructor
  · rintro (⟨n, t, hn, ht, -, e', he', hat⟩ | ⟨⟨e', herror⟩ | hnil, -⟩)
    · obtain rfl := Option.some.inj he'
      obtain rfl := Option.some.inj hat
      dsimp only at ht
      have hlt := (u.time env.now ((argU64 a).getD 0)).toNat_lt
      refine ⟨n, hn, ?_, by omega⟩
      cases hm : argU64 a with
      | some m =>
        rw [hn.unique (denotes_of_argU64 hm)]
        exact Int.natCast_nonneg _
      | none =>
        -- zero has been taken instead
        rw [hm, Option.getD_none] at ht
        have hzero := (u.toNat_time_eq_iff env.now (x := 0) (n := 0) rfl).mpr ?_
        · exact (u.instant_injective env.now (ht.symm.trans hzero)).ge
        · have hlt := env.now.toNat_lt
          cases u <;> simp only [ExpiryUnit.instant] <;> omega
    · cases herror
    · cases hnil
  · rintro ⟨n, hn, hlow, hhigh⟩
    have hle := u.le_instant env.now hlow
    have hnumber := argU64_getD hn hlow (by omega)
    refine Or.inl ⟨n, _, hn, ?_, ⟨_, rfl⟩, _, rfl, rfl⟩
    refine (u.toNat_time_eq_iff env.now ?_).mpr ⟨by omega, hhigh⟩
    rw [hnumber]
    exact Int.emod_eq_of_lt hlow (by omega)

end Commands

/-! ### What `SET` does -/

/-- `SET` with these options goes on to write, when the key is live or not. -/
def SetWrites (o : Cmd.SetOptions) (live : Bool) : Prop :=
  ¬((o.nx ∧ live) ∨ (o.xx ∧ ¬live))

instance (o : Cmd.SetOptions) (live : Bool) : Decidable (SetWrites o live) := by
  unfold SetWrites
  infer_instance

section Set

variable {env : Env} {i : ℕ} {k v : Bytes} {flags : List Bytes} {dbs : Databases}

theorem read_existsKey (hi : i < dbs.length) (now : UInt64) (k : Bytes) (notified : List Bytes) :
    Keyspace.read (fun dbs => dbs.existsKey now i k) ⟨dbs, notified⟩
      = (.ok (dbs.liveEntry now i k).isSome, ⟨dbs, notified⟩) := by
  rw [Keyspace.read, Databases.existsKey, Databases.entry_eq hi]
  rfl

/-- A `SET` that its conditions let through. -/
theorem set_written (hi : i < dbs.length)
    (h : SetWrites (Cmd.setFlags env flags {}) (dbs.liveEntry env.now i k).isSome)
    (notified : List Bytes) : Cmd.set env i (k :: v :: flags) ⟨dbs, notified⟩
      = (.ok .ok, ⟨dbs.put i k
          { value := .string v, expireAt := (Cmd.setFlags env flags {}).expireMs,
            version := ((dbs.find i k).getD { value := .string [] }).version + 1 }, notified⟩) := by
  rw [Cmd.set, argsFrom_cons_succ, argsFrom_cons_succ, argsFrom_zero, lift_ok_bind, arg_cons_succ,
    arg_cons_zero, arg_cons_zero, lift_ok_bind, lift_ok_bind]
  rw [SetWrites] at h
  generalize Cmd.setFlags env flags {} = o at h ⊢
  have hset := Keyspace.set_run hi v o.expireMs notified (k := k)
  by_cases hcond : o.nx = true ∨ o.xx = true
  · rw [if_pos hcond, Proc.bind_ok (read_existsKey hi env.now k notified), if_neg h,
      Proc.bind_ok hset]
    rfl
  · rw [if_neg hcond, Proc.bind_ok hset]
    rfl

/-- A `SET` that its conditions stop. -/
theorem set_kept (hi : i < dbs.length)
    (h : ¬SetWrites (Cmd.setFlags env flags {}) (dbs.liveEntry env.now i k).isSome)
    (notified : List Bytes) :
    Cmd.set env i (k :: v :: flags) ⟨dbs, notified⟩ = (.ok .nil, ⟨dbs, notified⟩) := by
  rw [Cmd.set, argsFrom_cons_succ, argsFrom_cons_succ, argsFrom_zero, lift_ok_bind, arg_cons_succ,
    arg_cons_zero, arg_cons_zero, lift_ok_bind, lift_ok_bind]
  rw [SetWrites, not_not] at h
  generalize Cmd.setFlags env flags {} = o at h ⊢
  have hcond : o.nx = true ∨ o.xx = true := h.imp And.left And.left
  rw [if_pos hcond, Proc.bind_ok (read_existsKey hi env.now k notified), if_pos h]
  rfl

end Set

/-! ### The options of `SET` -/

section Options

variable {env : Env} {u : ExpiryUnit}

/-- The word does not announce a number. -/
def PlainWord (env : Env) (w : Bytes) : Prop := ∀ u : ExpiryUnit, upper env w ≠ u.word

theorem not_numbered {w : Bytes} (h : PlainWord env w) : ¬(upper env w = "EX" ∨
    upper env w = "PX" ∨ upper env w = "EXAT" ∨ upper env w = "PXAT") := by
  rintro (heq | heq | heq | heq)
  · exact h .seconds heq
  · exact h .millis heq
  · exact h .atSeconds heq
  · exact h .atMillis heq

/-- A plain word in front of the others sets at most a condition. -/
theorem setFlags_plain {w : Bytes} (h : PlainWord env w) (rest : List Bytes)
    (o : Cmd.SetOptions) : ∃ o' : Cmd.SetOptions, o'.expireMs = o.expireMs ∧
      Cmd.setFlags env (w :: rest) o = Cmd.setFlags env rest o' := by
  cases rest with
  | nil =>
    rw [Cmd.setFlags]
    split_ifs
    · exact ⟨{ o with nx := true }, rfl, by rw [Cmd.setFlags]⟩
    · exact ⟨{ o with xx := true }, rfl, by rw [Cmd.setFlags]⟩
    · exact ⟨o, rfl, by rw [Cmd.setFlags]⟩
  | cons v rest =>
    rw [Cmd.setFlags, if_neg (not_numbered h)]
    split_ifs
    · exact ⟨{ o with nx := true }, rfl, rfl⟩
    · exact ⟨{ o with xx := true }, rfl, rfl⟩
    · exact ⟨o, rfl, rfl⟩

theorem setFlags_append_plain {before : List Bytes} (h : ∀ w ∈ before, PlainWord env w)
    (rest : List Bytes) (o : Cmd.SetOptions) : ∃ o' : Cmd.SetOptions, o'.expireMs = o.expireMs ∧
      Cmd.setFlags env (before ++ rest) o = Cmd.setFlags env rest o' := by
  induction before generalizing o with
  | nil => exact ⟨o, rfl, rfl⟩
  | cons w before ih =>
    obtain ⟨hw, hbefore⟩ := List.forall_mem_cons.mp h
    obtain ⟨o₁, hexpire₁, heq₁⟩ := setFlags_plain hw (before ++ rest) o
    obtain ⟨o₂, hexpire₂, heq₂⟩ := ih hbefore o₁
    exact ⟨o₂, hexpire₂.trans hexpire₁, heq₁.trans heq₂⟩

theorem setExpiry_word (env : Env) (u : ExpiryUnit) (n : Int64) :
    Cmd.setExpiry env u.word n = u.time env.now n.toUInt64 := by
  cases u <;> rfl

/-- **One option with a number** among plain words. -/
theorem expireMs_setFlags {before after : List Bytes} {f a : Bytes} (hf : upper env f = u.word)
    (hbefore : ∀ w ∈ before, PlainWord env w) (hafter : ∀ w ∈ after, PlainWord env w) :
    (Cmd.setFlags env (before ++ f :: a :: after) {}).expireMs
      = (parseI64 a).map fun n => u.time env.now n.toUInt64 := by
  obtain ⟨o, hexpire, heq⟩ := setFlags_append_plain hbefore (f :: a :: after) {}
  have hword : upper env f = "EX" ∨ upper env f = "PX" ∨ upper env f = "EXAT" ∨
      upper env f = "PXAT" := by
    rw [hf]
    cases u <;> decide
  rw [heq, Cmd.setFlags, if_pos hword]
  cases parseI64 a with
  | none =>
    obtain ⟨o', hexpire', heq'⟩ := setFlags_append_plain hafter [] o
    rw [List.append_nil, Cmd.setFlags] at heq'
    exact (congrArg Cmd.SetOptions.expireMs heq').trans (hexpire'.trans hexpire)
  | some n =>
    obtain ⟨o', hexpire', heq'⟩ := setFlags_append_plain hafter []
      { o with expireMs := some (Cmd.setExpiry env (upper env f) n) }
    rw [List.append_nil, Cmd.setFlags] at heq'
    refine (congrArg Cmd.SetOptions.expireMs heq').trans (hexpire'.trans ?_)
    rw [hf, setExpiry_word]
    rfl

theorem toInt_emod (m : Int64) : m.toInt % 2 ^ 64 = m.toUInt64.toNat := by
  have hbmod : m.toInt = Int.bmod m.toUInt64.toNat (2 ^ 64) := BitVec.toInt_eq_toNat_bmod m.toBitVec
  rw [hbmod]
  exact (Int.bmod_emod ..).trans (ExpiryUnit.toNat_emod _)

/-- The number that `SET` takes. -/
theorem parseI64_eq_some_iff {a : Bytes} {m : Int64} :
    parseI64 a = some m ↔ Denotes (fromUtf8Lossy a) m.toInt := by
  have hlow := m.le_toInt
  have hhigh := m.toInt_lt
  constructor
  · intro h
    obtain ⟨n, hn, rfl⟩ := Option.map_eq_some_iff.mp h
    obtain ⟨hdenotes, hlow', hhigh'⟩ := parseSigned_eq_some_iff.mp hn
    rwa [Int64.toInt_ofInt_of_le (by omega) (by omega)]
  · intro h
    have hparse : parseSigned (2 ^ 63) (2 ^ 63 - 1) (fromUtf8Lossy a) = some m.toInt :=
      parseSigned_eq_some_iff.mpr ⟨h, by omega, by omega⟩
    rw [parseI64, hparse, Option.map_some, Int64.ofInt_toInt]

/-- **Of a key, stored or not.** -/
theorem setsExactly_set {i : ℕ} {k v f a : Bytes} {before after : List Bytes} {ks : Keyspace}
    (hi : i < ks.databases.length) (hf : upper env f = u.word)
    (hbefore : ∀ w ∈ before, PlainWord env w) (hafter : ∀ w ∈ after, PlainWord env w) :
    SetsExactly (fun n => u.instant env.now n) a
        (Cmd.set env i (k :: v :: (before ++ f :: a :: after)) ks).1 (ks.databases.find i k)
        ((Cmd.set env i (k :: v :: (before ++ f :: a :: after)) ks).2.databases.find i k) ↔
      ¬SetWrites (Cmd.setFlags env (before ++ f :: a :: after) {})
          (ks.databases.liveEntry env.now i k).isSome ∨
        ∃ n, Denotes (fromUtf8Lossy a) n ∧ -2 ^ 63 ≤ n ∧ n < 2 ^ 63 ∧
          0 ≤ u.instant env.now n ∧ u.instant env.now n < 2 ^ 64 := by
  by_cases hwrites : SetWrites (Cmd.setFlags env (before ++ f :: a :: after) {})
      (ks.databases.liveEntry env.now i k).isSome
  · rw [set_written hi hwrites ks.notified, expireMs_setFlags hf hbefore hafter]
    dsimp only
    rw [Databases.find_put_self hi, or_iff_right (not_not.mpr hwrites)]
    constructor
    · rintro (⟨n, t, hn, ht, -, e, he, hat⟩ | ⟨⟨e, herror⟩ | hnil, -⟩)
      · obtain rfl := Option.some.inj he
        obtain ⟨m, hm, rfl⟩ := Option.map_eq_some_iff.mp hat
        obtain rfl := hn.unique (parseI64_eq_some_iff.mp hm)
        exact ⟨m.toInt, hn, m.le_toInt, m.toInt_lt,
          (u.toNat_time_eq_iff env.now (toInt_emod m)).mp ht⟩
      · cases herror
      · cases hnil
    · rintro ⟨n, hn, hlow, hhigh, hinstant⟩
      have hm : (Int64.ofInt n).toInt = n := Int64.toInt_ofInt_of_le (by omega) (by omega)
      have hparse : parseI64 a = some (Int64.ofInt n) :=
        parseI64_eq_some_iff.mpr (by rwa [hm])
      rw [hparse]
      refine Or.inl ⟨n, _, hn, ?_, ⟨_, rfl⟩, _, rfl, rfl⟩
      exact (u.toNat_time_eq_iff env.now (by rw [← toInt_emod, hm])).mpr hinstant
  · rw [set_kept hi hwrites ks.notified]
    exact iff_of_true (Or.inr ⟨Or.inr rfl, rfl⟩) (Or.inl hwrites)

end Options

/-! ### All entry points -/

/-- **Exact instants.** A command that gives a stored key an expiry sets the exact instant if and
only if the text denotes a number, not negative, and the instant is below `2 ^ 64`. A `SET` with one
option that has a number does if and only if the text denotes a number of the type `i64` and the
instant is one of `u64`, unless its conditions stop it. -/
theorem setsExactly_iff (u : ExpiryUnit) (env : Env) {i : ℕ} {k a : Bytes} {ks : Keyspace} :
    (∀ e, ks.databases.find i k = some e →
      (SetsExactly (fun n => u.instant env.now n) a (u.command env i [k, a] ks).1
          (ks.databases.find i k) ((u.command env i [k, a] ks).2.databases.find i k) ↔
        ∃ n, Denotes (fromUtf8Lossy a) n ∧ 0 ≤ n ∧ u.instant env.now n < 2 ^ 64)) ∧
    ∀ (v f : Bytes) (before after : List Bytes), i < ks.databases.length →
      upper env f = u.word → (∀ w ∈ before, PlainWord env w) → (∀ w ∈ after, PlainWord env w) →
      (SetsExactly (fun n => u.instant env.now n) a
          (Cmd.set env i (k :: v :: (before ++ f :: a :: after)) ks).1 (ks.databases.find i k)
          ((Cmd.set env i (k :: v :: (before ++ f :: a :: after)) ks).2.databases.find i k) ↔
        ¬SetWrites (Cmd.setFlags env (before ++ f :: a :: after) {})
            (ks.databases.liveEntry env.now i k).isSome ∨
          ∃ n, Denotes (fromUtf8Lossy a) n ∧ -2 ^ 63 ≤ n ∧ n < 2 ^ 63 ∧
            0 ≤ u.instant env.now n ∧ u.instant env.now n < 2 ^ 64) :=
  ⟨fun _ hfind => setsExactly_command hfind,
    fun _ _ _ _ hi hf hbefore hafter => setsExactly_set hi hf hbefore hafter⟩

/-- `EXPIRE k 2`. -/
theorem setsExactly_two :
    let env := Moment.on ⟨1, 0, 0, 1⟩ Host.plain
    let ks : Keyspace := ⟨(Store.new 1).databases.put 0 [107] { value := .string [] }, []⟩
    SetsExactly (fun n => ExpiryUnit.seconds.instant env.now n) [50]
      (ExpiryUnit.seconds.command env 0 [[107], [50]] ks).1 (ks.databases.find 0 [107])
      ((ExpiryUnit.seconds.command env 0 [[107], [50]] ks).2.databases.find 0 [107]) :=
  ((setsExactly_iff .seconds (Moment.on ⟨1, 0, 0, 1⟩ Host.plain)).1 _ rfl).mpr
    ⟨2, ⟨0, 2, by decide⟩, by decide, by decide⟩

/-- `PEXPIRE k 18446744073709551615` at the time 1: the instant is 0. -/
theorem not_setsExactly_wrap :
    let env := Moment.on ⟨1, 0, 0, 1⟩ Host.plain
    let a := asBytes "18446744073709551615"
    let ks : Keyspace := ⟨(Store.new 1).databases.put 0 [107] { value := .string [] }, []⟩
    ¬SetsExactly (fun n => ExpiryUnit.millis.instant env.now n) a
      (ExpiryUnit.millis.command env 0 [[107], a] ks).1 (ks.databases.find 0 [107])
      ((ExpiryUnit.millis.command env 0 [[107], a] ks).2.databases.find 0 [107]) := by
  intro env a ks h
  have ha : Denotes (fromUtf8Lossy a) (2 ^ 64 - 1) := ⟨0, 2 ^ 64 - 1, by decide +kernel⟩
  have hafter : (ExpiryUnit.millis.command env 0 [[107], a] ks).2.databases.find 0 [107]
      = some { value := .string [], expireAt := some 0 } := by
    have htime : ExpiryUnit.millis.time env.now ((argU64 a).getD 0) = 0 := by decide +kernel
    rw [expireCommand_run (e := { value := .string [] }) rfl, htime]
    rfl
  rw [hafter] at h
  rcases h with ⟨n, t, hn, ht, -, e, he, hat⟩ | ⟨-, hsame⟩
  · obtain rfl := Option.some.inj he
    obtain rfl := Option.some.inj hat
    obtain rfl := hn.unique ha
    revert ht
    decide
  · cases congrArg (Option.map Entry.expireAt) hsame

end VeloDB
