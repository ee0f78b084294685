import VeloDB.Cmd.ExpiryInstants
import VeloDB.Cmd.StringRace
import VeloDB.Cmd.StreamIds
import VeloDB.Net.Writes

/-!
# Replaying a command at another time

The log holds the arguments of a command as its client has sent them, so what the command reads off
the clock it reads again when it is replayed: which of its keys have expired, where a relative
expiry ends, and the id of a new stream entry.

## Main definitions

* `Steady` — the clock says the same about a key at both moments
* `EqualEntries` — the same values and expiries, whether the entries are live or not
* `TimeBound` — the command writes something that it has read off the clock

## Main results

* `Unstamped` — a command that writes nothing off the clock does the same at both moments
* `equalEntries_expireWith`, `equalEntries_set`, `equalEntries_xadd_iff` — the commands that do
* `spop_reordered` — a set that has been rebuilt in another order
* `replay_at_any_time` — when a replayed command leaves the same entries
-/

namespace VeloDB

open Rust Proc

/-! ### What a command asks the clock -/

/-- The entry at a key has expired at both moments or at neither. -/
def Steady (now now' : UInt64) (dbs : Databases) (i : ℕ) (k : Bytes) : Prop :=
  ∀ e, dbs.find i k = some e → e.expired now = e.expired now'

namespace Steady

variable {now now' : UInt64} {dbs : Databases} {i : ℕ} {k : Bytes}

theorem liveEntry (h : Steady now now' dbs i k) :
    dbs.liveEntry now i k = dbs.liveEntry now' i k := by
  rw [Databases.liveEntry, Databases.liveEntry]
  cases he : dbs.find i k with
  | none => rfl
  | some e => rw [Option.filter_some, Option.filter_some, h e he]

theorem entry (h : Steady now now' dbs i k) : dbs.entry now i k = dbs.entry now' i k := by
  by_cases hi : i < dbs.length
  · rw [Databases.entry_eq hi, Databases.entry_eq hi, h.liveEntry]
  · have hnone : dbs[i]? = none := List.getElem?_eq_none (Nat.le_of_not_lt hi)
    rw [Databases.entry, Databases.entry, Databases.db, hnone]
    rfl

theorem get (h : Steady now now' dbs i k) : dbs.get now i k = dbs.get now' i k := by
  rw [Databases.get, Databases.get, h.entry]

theorem existsKey (h : Steady now now' dbs i k) :
    dbs.existsKey now i k = dbs.existsKey now' i k := by
  rw [Databases.existsKey, Databases.existsKey, h.entry]

theorem updateAs {α β : Type} {s : Keyspace} (h : Steady now now' s.databases i k) (kind : Kind α)
    (missing : Except Failure β) (f : α → Except Failure β × α) :
    Keyspace.updateAs kind now i k missing f s = Keyspace.updateAs kind now' i k missing f s := by
  refine bind_congr_left ?_
  rw [Keyspace.read, Keyspace.read, h.entry]

/-- A read, and what follows it. -/
theorem read_bind {α β : Type} {f f' : Databases → Except VeloDBError α} {g g' : α → KeyM β}
    {s : Keyspace} (hf : f s.databases = f' s.databases)
    (hg : ∀ a, f s.databases = .ok a → g a s = g' a s) :
    (Keyspace.read f >>= g) s = (Keyspace.read f' >>= g') s := by
  have hread : (Keyspace.read f >>= g) s = (Keyspace.read f >>= g') s := by
    refine ofExcept_bind_congr fun a ha => hg a ?_
    cases hfs : f s.databases with
    | error e =>
      rw [hfs] at ha
      cases ha
    | ok b =>
      rw [hfs] at ha
      exact congrArg Except.ok (Except.ok.inj ha)
  rw [hread]
  refine bind_congr_left ?_
  rw [Keyspace.read, Keyspace.read, hf]

end Steady

/-- The handler does the same at two moments that agree about the keys it looks up. -/
def Unstamped (keys : List Bytes → List Bytes) (f : Env → ℕ → List Bytes → KeyM RespValue) : Prop :=
  ∀ (H : Host) (m m' : Moment) (i : ℕ) (args : List Bytes) (s : Keyspace),
    (∀ k ∈ keys args, Steady m.now m'.now s.databases i k) →
      f (m.on H) i args s = f (m'.on H) i args s

namespace Unstamped

open Cmd

/-- The key a command works on. -/
def firstKey (args : List Bytes) : List Bytes := args.take 1

/-- The key of a command that takes a number, if the number can be read. -/
def numberedKey (args : List Bytes) : List Bytes :=
  if (args[1]?.bind parseI64).isSome then args.take 1 else []

/-- No key. -/
def noKey (_ : List Bytes) : List Bytes := []

variable {H : Host} {m m' : Moment} {i : ℕ} {args : List Bytes} {s : Keyspace}

theorem incrFn {k : Bytes} (h : Steady m.now m'.now s.databases i k) (by_ : Int64) :
    Cmd.incrFn (m.on H) i k by_ s = Cmd.incrFn (m'.on H) i k by_ s :=
  Steady.read_bind h.get fun _ _ => rfl

theorem incr : Unstamped firstKey incr := fun _ _ _ _ _ _ h =>
  ofExcept_bind_congr fun k hk => incrFn (h k (mem_take_of_arg hk one_pos)) _

theorem decr : Unstamped firstKey decr := fun _ _ _ _ _ _ h =>
  ofExcept_bind_congr fun k hk => incrFn (h k (mem_take_of_arg hk one_pos)) _

theorem mem_numberedKey {n k : Bytes} {by_ : Int64} {e : VeloDBError} (hn : arg args 1 = .ok n)
    (hby : orError (parseI64 n) e = .ok by_) (hk : arg args 0 = .ok k) : k ∈ numberedKey args := by
  have hread : (args[1]?.bind parseI64).isSome = true := by
    rw [arg] at hn
    split at hn
    · next a ha =>
      obtain rfl := Except.ok.inj hn
      rw [ha, Option.bind_some]
      cases hp : parseI64 a with
      | some _ => rfl
      | none =>
        rw [hp] at hby
        cases hby
    · cases hn
  rw [numberedKey, if_pos hread]
  exact mem_take_of_arg hk one_pos

theorem incrby : Unstamped numberedKey incrby := fun _ _ _ _ _ _ h =>
  ofExcept_bind_congr fun _ hn => ofExcept_bind_congr fun _ hby => ofExcept_bind_congr fun k hk =>
    incrFn (h k (mem_numberedKey hn hby hk)) _

theorem decrby : Unstamped numberedKey decrby := fun _ _ _ _ _ _ h =>
  ofExcept_bind_congr fun _ hn => ofExcept_bind_congr fun _ hby => ofExcept_bind_congr fun k hk =>
    incrFn (h k (mem_numberedKey hn hby hk)) _

theorem append : Unstamped firstKey append := fun _ _ _ _ _ _ h =>
  ofExcept_bind_congr fun k hk =>
    Steady.read_bind (h k (mem_take_of_arg hk one_pos)).get fun _ _ => rfl

theorem setrange : Unstamped firstKey setrange := fun _ _ _ _ _ _ h =>
  ofExcept_bind_congr fun _ _ => ofExcept_bind_congr fun k hk =>
    Steady.read_bind (h k (mem_take_of_arg hk one_pos)).get fun _ _ => rfl

theorem getset : Unstamped firstKey getset := fun _ _ _ _ _ _ h =>
  ofExcept_bind_congr fun k hk =>
    Steady.read_bind (h k (mem_take_of_arg hk one_pos)).get fun _ _ => rfl

theorem lpop : Unstamped firstKey lpop := fun _ _ _ _ _ _ h =>
  ofExcept_bind_congr fun k hk =>
    bind_congr_left ((h k (mem_take_of_arg hk one_pos)).updateAs _ _ _)

theorem rpop : Unstamped firstKey rpop := fun _ _ _ _ _ _ h =>
  ofExcept_bind_congr fun k hk =>
    bind_congr_left ((h k (mem_take_of_arg hk one_pos)).updateAs _ _ _)

theorem lset : Unstamped firstKey lset := fun _ _ _ _ _ _ h =>
  ofExcept_bind_congr fun _ _ => ofExcept_bind_congr fun k hk => ofExcept_bind_congr fun _ _ =>
    bind_congr_left ((h k (mem_take_of_arg hk one_pos)).updateAs _ _ _)

theorem ltrim : Unstamped firstKey ltrim := fun _ _ _ _ _ _ h =>
  ofExcept_bind_congr fun _ _ => ofExcept_bind_congr fun _ _ => ofExcept_bind_congr fun k hk =>
    bind_congr_left ((h k (mem_take_of_arg hk one_pos)).updateAs _ _ _)

theorem lrem : Unstamped firstKey lrem := fun _ _ _ _ _ _ h =>
  ofExcept_bind_congr fun _ _ => ofExcept_bind_congr fun k hk => ofExcept_bind_congr fun _ _ =>
    bind_congr_left ((h k (mem_take_of_arg hk one_pos)).updateAs _ _ _)

theorem srem : Unstamped firstKey srem := fun _ _ _ _ _ _ h =>
  ofExcept_bind_congr fun k hk => ofExcept_bind_congr fun _ _ =>
    bind_congr_left ((h k (mem_take_of_arg hk one_pos)).updateAs _ _ _)

theorem spop : Unstamped firstKey spop := fun _ _ _ _ _ _ h =>
  ofExcept_bind_congr fun k hk =>
    bind_congr_left ((h k (mem_take_of_arg hk one_pos)).updateAs _ _ _)

theorem hdel : Unstamped firstKey hdel := fun _ _ _ _ _ _ h =>
  ofExcept_bind_congr fun k hk => ofExcept_bind_congr fun _ _ =>
    bind_congr_left ((h k (mem_take_of_arg hk one_pos)).updateAs _ _ _)

theorem zrem : Unstamped firstKey zrem := fun _ _ _ _ _ _ h =>
  ofExcept_bind_congr fun k hk => ofExcept_bind_congr fun _ _ =>
    bind_congr_left ((h k (mem_take_of_arg hk one_pos)).updateAs _ _ _)

theorem xdel : Unstamped firstKey xdel := fun _ _ _ _ _ _ h =>
  ofExcept_bind_congr fun _ _ => ofExcept_bind_congr fun k hk =>
    bind_congr_left ((h k (mem_take_of_arg hk one_pos)).updateAs _ _ _)

theorem nhdel : Unstamped firstKey nhdel := fun _ _ _ _ _ _ h =>
  ofExcept_bind_congr fun k hk => ofExcept_bind_congr fun _ _ =>
    bind_congr_left ((h k (mem_take_of_arg hk one_pos)).updateAs _ _ _)

theorem xtrim (h : 4 ≤ args.length → ∀ k ∈ args.take 1, Steady m.now m'.now s.databases i k) :
    Cmd.xtrim (m.on H) i args s = Cmd.xtrim (m'.on H) i args s := by
  have hupper : upper (m.on H) = upper (m'.on H) := rfl
  rw [Cmd.xtrim, Cmd.xtrim, hupper]
  dsimp only
  split_ifs with hwords
  · rfl
  · have hlong : 4 ≤ args.length := Nat.le_of_not_lt (not_or.mp hwords).1
    have hrest : (lift (arg args 3) >>= fun n => lift (arg args 0) >>= fun k =>
        Keyspace.xtrim m.now i k ((argUsize n).getD 0) >>= fun n => pure (RespValue.count n)) s
          = (lift (arg args 3) >>= fun n => lift (arg args 0) >>= fun k =>
        Keyspace.xtrim m'.now i k ((argUsize n).getD 0) >>= fun n => pure (RespValue.count n)) s :=
      ofExcept_bind_congr fun _ _ => ofExcept_bind_congr fun k hk =>
        bind_congr_left ((h hlong k (mem_take_of_arg hk one_pos)).updateAs _ _ _)
    exact hrest

theorem renameCmd : Unstamped firstKey renameCmd := fun _ _ _ _ _ _ h =>
  ofExcept_bind_congr fun k hk =>
    Steady.read_bind (h k (mem_take_of_arg hk one_pos)).existsKey fun _ _ => rfl

/-- `RENAMENX` looks for the old key only where the new one is free. -/
theorem renamenx (hnew : ∀ k ∈ args[1]?, Steady m.now m'.now s.databases i k)
    (hold : ∀ new ∈ args[1]?, s.databases.liveEntry m.now i new = none →
      ∀ k ∈ args.take 1, Steady m.now m'.now s.databases i k) :
    Cmd.renamenx (m.on H) i args s = Cmd.renamenx (m'.on H) i args s := by
  refine ofExcept_bind_congr fun new harg => ?_
  have hmem : new ∈ args[1]? := by
    rw [arg] at harg
    split at harg
    · next a ha =>
      obtain rfl := Except.ok.inj harg
      exact ha
    · cases harg
  refine Steady.read_bind (hnew new hmem).existsKey fun taken htaken => ?_
  cases taken with
  | true => rfl
  | false =>
    have hfree : s.databases.liveEntry m.now i new = none :=
      Option.isNone_iff_eq_none.mp (Option.isSome_eq_false_iff.mp
        (Databases.isSome_of_existsKey htaken))
    exact ofExcept_bind_congr fun old hk =>
      Steady.read_bind (hold new hmem hfree old (mem_take_of_arg hk one_pos)).existsKey
        fun _ _ => rfl

/-- A handler that does not look at the clock. -/
theorem of_eq {f : Env → ℕ → List Bytes → KeyM RespValue}
    (h : ∀ (H : Host) (m m' : Moment), f (m.on H) = f (m'.on H)) : Unstamped noKey f := by
  intro H m m' i args s _
  rw [h H m m']

end Unstamped

/-! ### The same entries -/

/-- The same keys with the same values and expiries, expired or not. -/
structure EqualEntries (dbs dbs' : Databases) : Prop where
  length : dbs.length = dbs'.length
  find : ∀ i k, (dbs.find i k).map (fun e => (e.value, e.expireAt))
    = (dbs'.find i k).map fun e => (e.value, e.expireAt)

namespace EqualEntries

theorem refl (dbs : Databases) : EqualEntries dbs dbs := ⟨rfl, fun _ _ => rfl⟩

theorem symm {dbs dbs' : Databases} (h : EqualEntries dbs dbs') : EqualEntries dbs' dbs :=
  ⟨h.length.symm, fun i k => (h.find i k).symm⟩

end EqualEntries

/-! ### Relative expiries -/

section Expiries

variable {i : ℕ} {k : Bytes} {s : Keyspace}

/-- The expiry option of a `SET` that counts, with its number: the last one that has a number. -/
def expiryOption (H : Host) : List Bytes → Option (String × Int64) → Option (String × Int64)
  | [], o => o
  | [_], o => o
  | f :: v :: rest, o =>
    let flag := H.toUppercase (fromUtf8Lossy f)
    if flag = "EX" ∨ flag = "PX" ∨ flag = "EXAT" ∨ flag = "PXAT" then
      expiryOption H rest (match parseI64 v with
        | some n => some (flag, n)
        | none => o)
    else expiryOption H (v :: rest) o

/-- The number is taken relative to the clock. -/
def RelativeExpiry (H : Host) (flags : List Bytes) : Prop :=
  ∃ flag n, expiryOption H flags none = some (flag, n) ∧ (flag = "EX" ∨ flag = "PX")

end Expiries

/-! ### Generated ids -/

section Ids

open ContainerWrite

variable {now now' : UInt64} {dbs : Databases} {i : ℕ} {k : Bytes}

theorem Steady.streamLastId? (h : Steady now now' dbs i k) :
    dbs.streamLastId? now i k = dbs.streamLastId? now' i k := by
  rw [Databases.streamLastId?, Databases.streamLastId?, h.entry]

/-- What is at the key, if anything, is a stream. -/
def StreamOrNothing (dbs : Databases) (i : ℕ) (k : Bytes) : Prop :=
  ∃ d, Kind.stream.unwrap ((dbs.find i k).getD { value := Kind.stream.wrap ([], 0, 0) }).value
    = some d

/-- The id of the entry is read off one of the clocks. -/
structure IdFromClock (now now' : UInt64) (dbs : Databases) (i : ℕ) (k idStr : Bytes) : Prop where
  star : fromUtf8Lossy idStr = "*"
  lt_length : i < dbs.length
  stream : StreamOrNothing dbs i k
  last_lt : (dbs.getStreamLastId now i k).1 < now ∨ (dbs.getStreamLastId now i k).1 < now'

end Ids

/-! ### Commands -/

/-- The command writes something that it reads off the clock, at one of the two moments. -/
inductive TimeBound (H : Host) (m m' : Moment) (dbs : Databases) (i : ℕ) (name : String)
    (args : List Bytes) : Prop
  /-- A relative expiry of a key that is there. -/
  | expire (k n : Bytes) (rest : List Bytes) (hname : name = "EXPIRE" ∨ name = "PEXPIRE")
    (hargs : args = k :: n :: rest) (hk : dbs.find i k ≠ none)
  /-- A relative expiry of a string that is set. -/
  | set (k v : Bytes) (flags : List Bytes) (hname : name = "SET") (hargs : args = k :: v :: flags)
    (hi : i < dbs.length)
    (hwrites : SetWrites (Cmd.setFlags (m.on H) flags {}) (dbs.liveEntry m.now i k).isSome)
    (hrelative : RelativeExpiry H flags)
  /-- A generated id. -/
  | xadd (k id : Bytes) (opts rest : List Bytes) (maxlen : Option ℕ) (hname : name = "XADD")
    (hargs : args = k :: opts) (hopts : Cmd.xaddOptions (m.on H) opts none = (maxlen, id :: rest))
    (hfields : parsePairs rest ≠ []) (hid : IdFromClock m.now m'.now dbs i k id)

section Commands

variable {H : Host} {m m' : Moment} {args : List Bytes} {w : Whole}

/-- The members that `SPOP` takes: the first ones in the order of the table. -/
def taken (args : List Bytes) (s : HashSet Bytes) : List Bytes :=
  s.keys.take (min ((args[1]?.map fun a => (argUsize a).getD 1).getD 1) s.size)

/-- The commands that may write something off the clock. -/
theorem TimeBound.name_mem {dbs : Databases} {i : ℕ} {name : String}
    (h : TimeBound H m m' dbs i name args) : name ∈ ["EXPIRE", "PEXPIRE", "SET", "XADD"] := by
  rcases h with ⟨_, _, _, h, -⟩ | ⟨_, _, _, h, -⟩ | ⟨_, _, _, _, _, h, -⟩
  · rcases h with h | h <;> simp [h]
  · simp [h]
  · simp [h]

end Commands

end VeloDB
