import VeloDB.Cmd.Locality
import VeloDB.Lib.Object
import VeloDB.Store.Content

/-!
# Keys as objects

What a client relies on when it keeps a string, a list, a set or a hash at a key: the object that
the key then is, and that the server implements it. In between there may be any commands on other
keys.

The object is stated in terms of strings, lists, finite sets and finite maps. It leaves open which
member `SPOP` takes, and in which order `SMEMBERS`, `HKEYS`, `HVALS` and `HGETALL` list what they
list; apart from that it is deterministic.

Commands are taken as a whole here, one at a time. The memory gate is open, and no background task
has a turn in between: where memory is short, a `SET` is refused, and a key may be evicted.

## Main definitions

* `KeyOp.behaviour` — what each command may answer and leave

## Main results

* `KeyOp.does` — one command
* `key_is_object` — every run
-/

namespace VeloDB

open Rust

/-- What a client does with a key. -/
inductive KeyOp
  | get
  | set (v : Bytes)
  | getset (v : Bytes)
  | append (v : Bytes)
  | strlen
  | lpush (v : Bytes)
  | rpush (vs : List Bytes)
  | lpop
  | rpop
  | llen
  | lrange (start stop : Int64)
  | ltrim (start stop : Int64)
  | sadd (ms : List Bytes)
  | srem (ms : List Bytes)
  | sismember (m : Bytes)
  | scard
  | smembers
  | spop
  | hset (p : Bytes × Bytes) (ps : List (Bytes × Bytes))
  | hget (f : Bytes)
  | hdel (fs : List Bytes)
  | hexists (f : Bytes)
  | hlen
  | hkeys
  | hvals
  | hgetall
  | del
  | exists_
  | type

namespace KeyOp

/-- The command in the table. -/
def definition : KeyOp → CommandDef
  | get => ⟨"GET", 2, .read Cmd.get⟩
  | set _ => ⟨"SET", -3, .write Cmd.set⟩
  | getset _ => ⟨"GETSET", 3, .write Cmd.getset⟩
  | append _ => ⟨"APPEND", 3, .write Cmd.append⟩
  | strlen => ⟨"STRLEN", 2, .read Cmd.strlen⟩
  | lpush _ => ⟨"LPUSH", -3, .write Cmd.lpush⟩
  | rpush _ => ⟨"RPUSH", -3, .write Cmd.rpush⟩
  | lpop => ⟨"LPOP", -2, .write Cmd.lpop⟩
  | rpop => ⟨"RPOP", -2, .write Cmd.rpop⟩
  | llen => ⟨"LLEN", 2, .read Cmd.llen⟩
  | lrange _ _ => ⟨"LRANGE", 4, .read Cmd.lrange⟩
  | ltrim _ _ => ⟨"LTRIM", 4, .write Cmd.ltrim⟩
  | sadd _ => ⟨"SADD", -3, .write Cmd.sadd⟩
  | srem _ => ⟨"SREM", -3, .write Cmd.srem⟩
  | sismember _ => ⟨"SISMEMBER", 3, .read Cmd.sismember⟩
  | scard => ⟨"SCARD", 2, .read Cmd.scard⟩
  | smembers => ⟨"SMEMBERS", 2, .read Cmd.smembers⟩
  | spop => ⟨"SPOP", -2, .write Cmd.spop⟩
  | hset _ _ => ⟨"HSET", -4, .write Cmd.hset⟩
  | hget _ => ⟨"HGET", 3, .read Cmd.hget⟩
  | hdel _ => ⟨"HDEL", -3, .write Cmd.hdel⟩
  | hexists _ => ⟨"HEXISTS", 3, .read Cmd.hexists⟩
  | hlen => ⟨"HLEN", 2, .read Cmd.hlen⟩
  | hkeys => ⟨"HKEYS", 2, .read Cmd.hkeys⟩
  | hvals => ⟨"HVALS", 2, .read Cmd.hvals⟩
  | hgetall => ⟨"HGETALL", 2, .read Cmd.hgetall⟩
  | del => ⟨"DEL", -2, .write Cmd.del⟩
  | exists_ => ⟨"EXISTS", -2, .read Cmd.existsCmd⟩
  | type => ⟨"TYPE", 2, .read Cmd.typeCmd⟩

/-- The arguments behind the key. -/
def args : KeyOp → List Bytes
  | set v | getset v | append v | lpush v => [v]
  | lrange start stop | ltrim start stop => [i64Bytes start, i64Bytes stop]
  | rpush vs => vs
  | sadd ms | srem ms => ms
  | sismember m => [m]
  | hset p ps => (p :: ps).flatMap fun p => [p.1, p.2]
  | hget f | hexists f => [f]
  | hdel fs => fs
  | get | strlen | lpop | rpop | llen | scard | smembers | spop | hlen | hkeys | hvals | hgetall
    | del | exists_ | type => []

end KeyOp

/-! ### The object -/

section Behaviours

variable {σ : Type}

/-- The reply and what is left, where both are determined. -/
def answers (reply : Option σ → RespValue) (next : Option σ → Option σ) (o : Option σ)
    (r : RespValue) (o' : Option σ) : Prop := r = reply o ∧ o' = next o

/-- The members of a set, in some order. -/
def listsMembers (o : Option (Finset Bytes)) (r : RespValue) (o' : Option (Finset Bytes)) : Prop :=
  o' = o ∧ ∃ l : List Bytes, l.Nodup ∧ (∀ m, m ∈ l ↔ m ∈ o.getD ∅) ∧ r = bulks l

/-- One of the members of a set, which loses it. -/
def popsMember (o : Option (Finset Bytes)) (r : RespValue) (o' : Option (Finset Bytes)) : Prop :=
  (o.getD ∅ = ∅ ∧ r = .nil ∧ o' = o) ∨
    ∃ s m, o = some s ∧ m ∈ s ∧ r = .bulk m ∧ o' = some (s.erase m)

/-- The pairs of a hash, in some order. -/
def listsPairs (form : List (Bytes × Bytes) → RespValue)
    (o : Option (Finmap fun _ : Bytes => Bytes)) (r : RespValue)
    (o' : Option (Finmap fun _ : Bytes => Bytes)) : Prop :=
  o' = o ∧ ∃ l : List (Bytes × Bytes), (l.map Prod.fst).Nodup ∧
    (∀ f v, (f, v) ∈ l ↔ (o.getD ∅).lookup f = some v) ∧ r = form l

end Behaviours

/-- What each command may answer, and what it may leave. -/
def KeyOp.behaviour : KeyOp → Behaviour
  | get => Typed .string (answers bulkOrNil id)
  | set v => fun _ r c' => r = .ok ∧ c' = some (.string v)
  | getset v => Typed .string (answers bulkOrNil fun _ => some v)
  | append v => Typed .string (answers (fun o => .count (o.getD [] ++ v).length)
      fun o => some (o.getD [] ++ v))
  | strlen => Typed .string (answers (fun o => .count (o.getD []).length) id)
  | lpush v => Typed .list (answers (fun o => .count (v :: o.getD []).length)
      fun o => some (v :: o.getD []))
  | rpush vs => Typed .list (answers (fun o => .count (o.getD [] ++ vs).length)
      fun o => some (o.getD [] ++ vs))
  | lpop => Typed .list (answers (fun o => bulkOrNil (o.getD []).head?) (Option.map List.tail))
  | rpop => Typed .list (answers (fun o => bulkOrNil (o.getD []).getLast?)
      (Option.map List.dropLast))
  | llen => Typed .list (answers (fun o => .count (o.getD []).length) id)
  | lrange start stop => Typed .list (answers (fun o => bulks (slice (o.getD []) start stop)) id)
  | ltrim start stop => Typed .list (answers (fun _ => .ok)
      (Option.map fun l => slice l start stop))
  | sadd ms => Typed .set (answers (fun o => .count (ms.toFinset \ o.getD ∅).card)
      fun o => some (o.getD ∅ ∪ ms.toFinset))
  | srem ms => Typed .set (answers (fun o => .count (ms.toFinset ∩ o.getD ∅).card)
      (Option.map fun s => s \ ms.toFinset))
  | sismember m => Typed .set (answers (fun o => flag (decide (m ∈ o.getD ∅))) id)
  | scard => Typed .set (answers (fun o => .count (o.getD ∅).card) id)
  | smembers => Typed .set listsMembers
  | spop => Typed .set popsMember
  | hset p ps => Typed .hash (answers
      (fun o => .count (((p :: ps).map Prod.fst).toFinset \ (o.getD ∅).keys).card)
      fun o => some ((p :: ps).foldl (fun h p => h.insert p.1 p.2) (o.getD ∅)))
  | hget f => Typed .hash (answers (fun o => bulkOrNil ((o.getD ∅).lookup f)) id)
  | hdel fs => Typed .hash (answers (fun o => .count (fs.toFinset ∩ (o.getD ∅).keys).card)
      (Option.map fun h => fs.foldl (fun h f => h.erase f) h))
  | hexists f => Typed .hash (answers (fun o => flag ((o.getD ∅).lookup f).isSome) id)
  | hlen => Typed .hash (answers (fun o => .count (o.getD ∅).keys.card) id)
  | hkeys => Typed .hash (listsPairs fun l => bulks (l.map Prod.fst))
  | hvals => Typed .hash (listsPairs fun l => bulks (l.map Prod.snd))
  | hgetall => Typed .hash (listsPairs bulkPairs)
  | del => fun c r c' => r = flag c.isSome ∧ c' = none
  | exists_ => fun c r c' => r = flag c.isSome ∧ c' = c
  | type => fun c r c' => r = .simpleString ((c.map Content.typeName).getD "none") ∧ c' = c

/-- A key as an object. Every command is answered. -/
def keyObject : Object (Option Content) KeyOp (Except Failure RespValue) :=
  fun c op r c' => ∃ v, r = .ok v ∧ op.behaviour c v c'

namespace KeyOp

theorem definition_mem (op : KeyOp) : op.definition ∈ commands := by
  cases op <;> simp [definition, commands, Cmd.stringCommands, Cmd.genericCommands,
    Cmd.listCommands, Cmd.setCommands, Cmd.hashCommands]

theorem refuses_eq (op : KeyOp) (k : Bytes) : op.definition.refuses (k :: op.args) = false := by
  cases op <;> first | exact refuses_of_length rfl (by simp [args]) | rfl

end KeyOp

/-! ### The handlers -/

/-- The handler behaves, between the databases that it finds and leaves. -/
def Handler.Has (A : Behaviour) (env : Env) (i : ℕ) (k : Bytes) (args : List Bytes)
    (dbs : Databases) : Handler → Prop
  | .read f => Shows A i k dbs (f env dbs i args) dbs
  | .write f => Performs A i k dbs (f env i args)
  | _ => False

namespace KeyOp

variable {env : Env} {dbs : Databases} {i : ℕ} {k : Bytes}

/-- The pairs of a hash map as they come. -/
theorem listsPairs_pairs (form : List (Bytes × Bytes) → RespValue) (m : HashMap Bytes Bytes) :
    listsPairs form (some m.toFinmap) (form m.pairs) (some m.toFinmap) := by
  refine ⟨rfl, m.pairs, m.nodup_pairs, fun f v => ?_, rfl⟩
  rw [HashMap.mem_pairs, Option.getD_some, HashMap.lookup_toFinmap]

theorem listsPairs_none (form : List (Bytes × Bytes) → RespValue) :
    listsPairs form none (form []) none := by
  refine ⟨rfl, [], List.nodup_nil, fun f v => ?_, rfl⟩
  rw [Option.getD_none, Finmap.lookup_empty]
  exact iff_of_false List.not_mem_nil (Option.some_ne_none v).symm

theorem listsMembers_keys (s : HashSet Bytes) :
    listsMembers (some s.toFinmap.keys) (bulks s.keys) (some s.toFinmap.keys) := by
  refine ⟨rfl, s.keys, s.keys_nodup, fun m => ?_, rfl⟩
  rw [Option.getD_some, ← HashMap.toFinset_keys, List.mem_toFinset]

section

variable (hi : i < dbs.length) (hun : dbs.Untimed i k)

include hi hun

theorem has_get : Handler.Has get.behaviour env i k [k] dbs (.read Cmd.get) := by
  show Shows _ i k dbs (ofResult (dbs.get env.now i k) >>= fun v => pure (bulkOrNil v)) dbs
  rw [get_eq_readAs]
  exact means_string.reads hi hun env.now ⟨rfl, rfl⟩ fun _ => ⟨rfl, rfl⟩

theorem has_strlen : Handler.Has strlen.behaviour env i k [k] dbs (.read Cmd.strlen) := by
  show Shows _ i k dbs (ofResult (dbs.get env.now i k) >>= fun v =>
    pure (.count ((v.map List.length).getD 0))) dbs
  rw [get_eq_readAs]
  exact means_string.reads hi hun env.now ⟨rfl, rfl⟩ fun _ => ⟨rfl, rfl⟩

omit hun in
theorem has_set (v : Bytes) :
    Handler.Has (set v).behaviour env i k [k, v] dbs (.write Cmd.set) :=
  performs_set hi v ⟨rfl, rfl⟩

theorem has_getset (v : Bytes) :
    Handler.Has (getset v).behaviour env i k [k, v] dbs (.write Cmd.getset) :=
  performs_rewrite hi hun env.now fun _ => ⟨rfl, rfl⟩

theorem has_append (v : Bytes) :
    Handler.Has (append v).behaviour env i k [k, v] dbs (.write Cmd.append) :=
  performs_rewrite hi hun env.now fun _ => ⟨rfl, rfl⟩

theorem has_lpush (v : Bytes) :
    Handler.Has (lpush v).behaviour env i k [k, v] dbs (.write Cmd.lpush) := by
  show Performs _ i k dbs (Keyspace.lpush i k [v] >>= fun n => pure (.count n))
  rw [Keyspace.lpush, Proc.bind_assoc]
  have hreplies : Kind.Means.Replies RespValue.count fun n =>
      (Keyspace.notify k >>= fun _ => pure n) >>= fun n => pure (.count n) := fun _ _ => ⟨rfl, rfl⟩
  exact means_list.upserts hi hun hreplies ⟨_, rfl, rfl, rfl⟩ fun _ => ⟨_, rfl, rfl, rfl⟩

theorem has_rpush (vs : List Bytes) :
    Handler.Has (rpush vs).behaviour env i k (k :: vs) dbs (.write Cmd.rpush) := by
  have happend : ∀ l : List Bytes, vs.foldl (fun l v => l ++ [v]) l = l ++ vs :=
    fun l => Run.foldl_snoc l vs
  show Performs _ i k dbs (Keyspace.rpush i k vs >>= fun n => pure (.count n))
  rw [Keyspace.rpush, Proc.bind_assoc]
  simp only [happend]
  have hreplies : Kind.Means.Replies RespValue.count fun n =>
      (Keyspace.notify k >>= fun _ => pure n) >>= fun n => pure (.count n) := fun _ _ => ⟨rfl, rfl⟩
  exact means_list.upserts hi hun hreplies ⟨_, rfl, rfl, rfl⟩ fun _ => ⟨_, rfl, rfl, rfl⟩

theorem has_lpop : Handler.Has lpop.behaviour env i k [k] dbs (.write Cmd.lpop) :=
  means_list.updates hi hun env.now (Kind.Means.replies_pure _) ⟨rfl, rfl⟩
    fun _ => ⟨_, rfl, rfl, rfl⟩

theorem has_rpop : Handler.Has rpop.behaviour env i k [k] dbs (.write Cmd.rpop) :=
  means_list.updates hi hun env.now (Kind.Means.replies_pure _) ⟨rfl, rfl⟩
    fun _ => ⟨_, rfl, rfl, rfl⟩

theorem has_llen : Handler.Has llen.behaviour env i k [k] dbs (.read Cmd.llen) :=
  means_list.reads hi hun env.now ⟨rfl, rfl⟩ fun _ => ⟨rfl, rfl⟩

theorem has_lrange (start stop : Int64) : Handler.Has (lrange start stop).behaviour env i k
    [k, i64Bytes start, i64Bytes stop] dbs (.read Cmd.lrange) := by
  show Shows _ i k dbs (ofResult (dbs.lrange env.now i k ((parseI64 (i64Bytes start)).getD 0)
    ((parseI64 (i64Bytes stop)).getD (-1))) >>= fun l => pure (bulks l)) dbs
  rw [parseI64_i64Bytes, parseI64_i64Bytes]
  exact means_list.reads hi hun env.now ⟨by simp [slice], rfl⟩ fun _ => ⟨rfl, rfl⟩

theorem has_ltrim (start stop : Int64) : Handler.Has (ltrim start stop).behaviour env i k
    [k, i64Bytes start, i64Bytes stop] dbs (.write Cmd.ltrim) := by
  show Performs _ i k dbs (Keyspace.ltrim env.now i k ((parseI64 (i64Bytes start)).getD 0)
    ((parseI64 (i64Bytes stop)).getD (-1)) >>= fun _ => pure .ok)
  rw [parseI64_i64Bytes, parseI64_i64Bytes]
  refine means_list.updates hi hun env.now (Kind.Means.replies_pure fun _ => RespValue.ok)
    ⟨rfl, rfl⟩ fun l => ⟨(), ?_⟩
  rw [Option.getD_some, Option.getD_some]
  dsimp only
  split
  · next hempty => exact ⟨rfl, rfl, congrArg some (if_pos hempty).symm⟩
  · next hsome => exact ⟨rfl, rfl, congrArg some (if_neg hsome).symm⟩

theorem has_sadd (ms : List Bytes) :
    Handler.Has (sadd ms).behaviour env i k (k :: ms) dbs (.write Cmd.sadd) := by
  have hadd : ∀ (l : List Bytes) (s : HashSet Bytes), l.foldl (fun (r : ℕ × HashSet Bytes) m =>
      (if (r.2.lookup m).isSome then r.1 else r.1 + 1, r.2.insert m ())) (0, s)
        = ((l.toFinset \ s.toFinmap.keys).card, l.foldl (fun s m => s.insert m ()) s) := by
    intro l s
    have h := HashMap.foldl_insert (fun m => m) (fun _ => ()) l 0 s
    rwa [Nat.zero_add, List.map_id'] at h
  have hkeys : ∀ s : HashSet Bytes, (HashMap.toFinmap (ms.foldl (fun s m => s.insert m ()) s)).keys
      = s.toFinmap.keys ∪ ms.toFinset := by
    intro s
    have h := HashMap.keys_foldl_insert (fun m => m) (fun _ => ()) ms s
    rwa [List.map_id'] at h
  refine means_set.upserts hi hun (Kind.Means.replies_pure _) ⟨_, rfl, ?_⟩
    fun s => ⟨_, rfl, ?_⟩
  · rw [hadd]
    exact ⟨rfl, congrArg some (hkeys ∅)⟩
  · rw [hadd]
    exact ⟨rfl, congrArg some (hkeys s)⟩

theorem has_srem (ms : List Bytes) :
    Handler.Has (srem ms).behaviour env i k (k :: ms) dbs (.write Cmd.srem) := by
  refine means_set.updates hi hun env.now (Kind.Means.replies_pure _) ?_
    fun s => ⟨_, rfl, ?_⟩
  · exact ⟨by simp, rfl⟩
  · rw [HashMap.foldl_erase, Nat.zero_add]
    exact ⟨rfl, congrArg some (HashMap.keys_foldl_erase ms s)⟩

theorem has_sismember (m : Bytes) :
    Handler.Has (sismember m).behaviour env i k [k, m] dbs (.read Cmd.sismember) := by
  refine means_set.reads hi hun env.now ⟨rfl, rfl⟩ fun s => ⟨congrArg flag ?_, rfl⟩
  exact (decide_eq_decide.mpr (s.lookup_isSome_iff m)).symm.trans (Bool.decide_coe _) |>.symm

theorem has_scard : Handler.Has scard.behaviour env i k [k] dbs (.read Cmd.scard) :=
  means_set.reads hi hun env.now ⟨rfl, rfl⟩
    fun s => ⟨congrArg RespValue.count s.card_keys.symm, rfl⟩

theorem has_smembers : Handler.Has smembers.behaviour env i k [k] dbs (.read Cmd.smembers) :=
  means_set.reads hi hun env.now ⟨rfl, [], List.nodup_nil, fun _ => by simp, rfl⟩
    listsMembers_keys

theorem has_spop : Handler.Has spop.behaviour env i k [k] dbs (.write Cmd.spop) := by
  have hnext : Kind.Means.Replies (fun l : List Bytes => bulkOrNil l.head?) fun l =>
      (pure (if (none : Option ℕ) = none ∨ (none : Option ℕ) = some 1 then bulkOrNil l.head?
        else bulks l) : KeyM RespValue) :=
    fun l ks => ⟨congrArg Except.ok (if_pos (Or.inl rfl)), rfl⟩
  refine means_set.updates hi hun env.now hnext (Or.inl ⟨rfl, rfl, rfl⟩) fun s => ⟨_, rfl, ?_⟩
  have hsize : s.size = s.keys.length := (List.length_map _).symm
  show popsMember _ (bulkOrNil (s.keys.take (min 1 s.size)).head?) (some (HashMap.toFinmap
    ((s.keys.take (min 1 s.size)).foldl (fun s m => s.erase m) s)).keys)
  rw [hsize]
  cases hs : s.keys with
  | nil =>
    refine Or.inl ⟨?_, rfl, rfl⟩
    rw [Option.getD_some, ← HashMap.toFinset_keys, hs, List.toFinset_nil]
  | cons m rest =>
    rw [List.length_cons, Nat.min_eq_left (Nat.le_add_left 1 _), List.take_succ_cons,
      List.take_zero]
    refine Or.inr ⟨_, m, rfl, ?_, rfl, ?_⟩
    · rw [← HashMap.toFinset_keys, hs]
      exact List.mem_toFinset.mpr List.mem_cons_self
    · rw [List.foldl_cons, List.foldl_nil, HashMap.toFinmap_erase, Finmap.keys_erase]

omit hi hun in
theorem parsePairs_flatMap (ps : List (Bytes × Bytes)) :
    parsePairs (ps.flatMap fun p => [p.1, p.2]) = ps := by
  induction ps with
  | nil => rfl
  | cons p ps ih => exact congrArg (p :: ·) ih

theorem has_hset (p : Bytes × Bytes) (ps : List (Bytes × Bytes)) :
    Handler.Has (hset p ps).behaviour env i k
      (k :: (p :: ps).flatMap fun p => [p.1, p.2]) dbs (.write Cmd.hset) := by
  have hrun : Cmd.hset env i (k :: (p :: ps).flatMap fun p => [p.1, p.2])
      = Keyspace.hset i k (p :: ps) >>= fun n => pure (.count n) := by
    rw [Cmd.hset, argsFrom_cons_succ, argsFrom_zero, lift_ok_bind, parsePairs_flatMap,
      if_neg (List.cons_ne_nil p ps)]
    rfl
  rw [Handler.Has, hrun]
  refine means_hash.upserts hi hun (Kind.Means.replies_pure _) ⟨_, rfl, ?_⟩
    fun m => ⟨_, rfl, ?_⟩
  · rw [HashMap.foldl_insert Prod.fst Prod.snd, Nat.zero_add]
    exact ⟨rfl, congrArg some (HashMap.toFinmap_foldl_insert Prod.fst Prod.snd (p :: ps) ∅)⟩
  · rw [HashMap.foldl_insert Prod.fst Prod.snd, Nat.zero_add]
    exact ⟨rfl, congrArg some (HashMap.toFinmap_foldl_insert Prod.fst Prod.snd (p :: ps) m)⟩

theorem has_hget (f : Bytes) :
    Handler.Has (hget f).behaviour env i k [k, f] dbs (.read Cmd.hget) :=
  means_hash.reads hi hun env.now ⟨rfl, rfl⟩
    fun m => ⟨congrArg bulkOrNil (m.lookup_toFinmap f).symm, rfl⟩

theorem has_hdel (fs : List Bytes) :
    Handler.Has (hdel fs).behaviour env i k (k :: fs) dbs (.write Cmd.hdel) := by
  refine means_hash.updates hi hun env.now (Kind.Means.replies_pure _) ?_
    fun m => ⟨_, rfl, ?_⟩
  · exact ⟨by simp, rfl⟩
  · rw [HashMap.foldl_erase, Nat.zero_add]
    exact ⟨rfl, congrArg some (HashMap.toFinmap_foldl_erase fs m)⟩

theorem has_hexists (f : Bytes) :
    Handler.Has (hexists f).behaviour env i k [k, f] dbs (.read Cmd.hexists) :=
  means_hash.reads hi hun env.now ⟨rfl, rfl⟩ fun m =>
    ⟨congrArg (fun o => flag (Option.isSome o)) (m.lookup_toFinmap f).symm, rfl⟩

theorem has_hlen : Handler.Has hlen.behaviour env i k [k] dbs (.read Cmd.hlen) :=
  means_hash.reads hi hun env.now ⟨rfl, rfl⟩
    fun m => ⟨congrArg RespValue.count m.card_keys.symm, rfl⟩

theorem has_hkeys : Handler.Has hkeys.behaviour env i k [k] dbs (.read Cmd.hkeys) := by
  refine means_hash.reads hi hun env.now (listsPairs_none _) fun m => ?_
  rw [← m.map_fst_pairs]
  exact listsPairs_pairs (fun l => bulks (l.map Prod.fst)) m

theorem has_hvals : Handler.Has hvals.behaviour env i k [k] dbs (.read Cmd.hvals) :=
  means_hash.reads hi hun env.now (listsPairs_none _)
    (listsPairs_pairs fun l => bulks (l.map Prod.snd))

theorem has_hgetall : Handler.Has hgetall.behaviour env i k [k] dbs (.read Cmd.hgetall) :=
  means_hash.reads hi hun env.now (listsPairs_none _) (listsPairs_pairs bulkPairs)

omit hun in
theorem has_del : Handler.Has del.behaviour env i k [k] dbs (.write Cmd.del) := by
  have hdel : Keyspace.del i k ⟨dbs, []⟩
      = (.ok (dbs.find i k).isSome, ⟨dbs.remove i k, []⟩) := by
    rw [Keyspace.del, Proc.bind_ok (Keyspace.read_db hi []), ← Keyspace.lookup_eq_find hi]
    rfl
  have hrun : Cmd.del env i [k] ⟨dbs, []⟩
      = (.ok (flag (dbs.find i k).isSome), ⟨dbs.remove i k, []⟩) := by
    rw [Cmd.del, Proc.foldEach, Proc.bind_assoc, Proc.bind_assoc, Proc.bind_ok hdel]
    cases dbs.find i k <;> rfl
  rw [Handler.Has, Performs, hrun]
  refine .ok (fun e he => ?_) ⟨congrArg flag ?_, ?_⟩
  · rw [Databases.find_remove_self] at he
    cases he
  · rw [Databases.content, Option.isSome_map]
  · rw [Databases.content, Databases.find_remove_self, Option.map_none]

theorem has_exists : Handler.Has exists_.behaviour env i k [k] dbs (.read Cmd.existsCmd) := by
  have hread : dbs.existsKey env.now i k = .ok (dbs.find i k).isSome := by
    rw [Databases.existsKey, Databases.entry_eq hi, hun.liveEntry]
    rfl
  have hrun : Cmd.existsCmd env dbs i [k] = .ok (flag (dbs.find i k).isSome) := by
    rw [Cmd.existsCmd, List.mapM_cons, List.mapM_nil, hread]
    cases dbs.find i k <;> rfl
  rw [Handler.Has, hrun]
  exact .ok hun ⟨by rw [Databases.content, Option.isSome_map], rfl⟩

theorem has_type : Handler.Has type.behaviour env i k [k] dbs (.read Cmd.typeCmd) := by
  have hread : dbs.getType env.now i k
      = .ok ((dbs.find i k).map fun e => e.value.typeName) := by
    rw [Databases.getType, Databases.entry_eq hi, hun.liveEntry]
    rfl
  have hrun : Cmd.typeCmd env dbs i [k]
      = .ok (.simpleString (((dbs.find i k).map fun e => e.value.typeName).getD "none")) := by
    rw [Cmd.typeCmd, arg_cons_zero]
    show (ofResult (dbs.getType env.now i k) >>= fun t => _) = _
    rw [hread]
    rfl
  have hname : (fun e : Entry => e.value.content.typeName) = fun e => e.value.typeName :=
    funext fun e => e.value.typeName_content
  rw [Handler.Has, hrun]
  refine .ok hun ⟨?_, rfl⟩
  rw [Databases.content, Option.map_map]
  exact congrArg (fun f => RespValue.simpleString (((dbs.find i k).map f).getD "none")) hname.symm

/-- **Every command has its behaviour.** -/
theorem has_behaviour (op : KeyOp) (env : Env) :
    Handler.Has op.behaviour env i k (k :: op.args) dbs op.definition.handler := by
  cases op with
  | get => exact has_get hi hun
  | set v => exact has_set hi v
  | getset v => exact has_getset hi hun v
  | append v => exact has_append hi hun v
  | strlen => exact has_strlen hi hun
  | lpush v => exact has_lpush hi hun v
  | rpush vs => exact has_rpush hi hun vs
  | lpop => exact has_lpop hi hun
  | rpop => exact has_rpop hi hun
  | llen => exact has_llen hi hun
  | lrange start stop => exact has_lrange hi hun start stop
  | ltrim start stop => exact has_ltrim hi hun start stop
  | sadd ms => exact has_sadd hi hun ms
  | srem ms => exact has_srem hi hun ms
  | sismember m => exact has_sismember hi hun m
  | scard => exact has_scard hi hun
  | smembers => exact has_smembers hi hun
  | spop => exact has_spop hi hun
  | hset p ps => exact has_hset hi hun p ps
  | hget f => exact has_hget hi hun f
  | hdel fs => exact has_hdel hi hun fs
  | hexists f => exact has_hexists hi hun f
  | hlen => exact has_hlen hi hun
  | hkeys => exact has_hkeys hi hun
  | hvals => exact has_hvals hi hun
  | hgetall => exact has_hgetall hi hun
  | del => exact has_del hi
  | exists_ => exact has_exists hi hun
  | type => exact has_type hi hun

end

/-- **One command**, as the command table runs it. -/
theorem does (op : KeyOp) (env : Env) {ctx : ClientContext} {s : Store}
    (hmem : s.tables.deniesMemory op.definition.name = false)
    (hi : ctx.dbIndex < s.databases.length) (hun : s.databases.Untimed ctx.dbIndex k) :
    keyObject (s.databases.content ctx.dbIndex k) op
        (dispatch env op.definition.name (k :: op.args) ⟨s, ctx⟩).1
        ((dispatch env op.definition.name (k :: op.args) ⟨s, ctx⟩).2.store.databases.content
          ctx.dbIndex k) ∧
      (dispatch env op.definition.name (k :: op.args) ⟨s, ctx⟩).2.store.databases.Untimed
        ctx.dbIndex k := by
  have hhas := op.has_behaviour hi hun env
  rw [dispatch_eq op.definition_mem env hmem (op.refuses_eq k), catchError_fst, catchError_snd]
  cases hh : op.definition.handler with
  | read f =>
    rw [hh] at hhas
    exact ⟨hhas.reply, hhas.untimed⟩
  | write f =>
    rw [hh] at hhas
    exact ⟨hhas.reply, hhas.untimed⟩
  | _ =>
    rw [hh] at hhas
    exact hhas.elim

theorem mem_keyedNames (op : KeyOp) : op.definition.name ∈ keyedNames := by
  cases op <;> simp [definition, keyedNames]

end KeyOp

/-! ### Runs -/

/-- What happens on the server: a command on the key, or a command on others. -/
inductive Visit
  | own (client : ℕ) (ctx : ClientContext) (env : Env) (op : KeyOp)
  | other (r : Request)

namespace Visit

variable {i : ℕ} {k : Bytes}

/-- What is sent. -/
def request (k : Bytes) : Visit → Request
  | own client ctx env op => ⟨client, ctx, env, op.definition.name, k :: op.args⟩
  | other r => r

/-- The store afterwards. -/
def next (k : Bytes) (s : Store) (v : Visit) : Store := (v.request k).next s

/-- A command on the key, with its reply. -/
def seen (k : Bytes) (s : Store) (v : Visit) : List (KeyOp × Except Failure RespValue) :=
  match v with
  | own _ _ _ op => [(op, ((v.request k).run s).1)]
  | other _ => []

/-- The key is the one of database `i`, and other commands keep away from it. -/
def Fits (i : ℕ) (k : Bytes) : Visit → Prop
  | own _ ctx _ _ => ctx.dbIndex = i
  | other r => r.name ∈ keyedNames ∧ (r.ctx.dbIndex = i → k ∉ keysOf r.name r.args)

end Visit

/-- **A key is an object.** Whatever is done to other keys meanwhile, one command at a time, a key
without TTL answers the commands on it as the object that it is allows, and holds in the end what
the object has become, while no command is denied for memory. -/
theorem key_is_object {i : ℕ} {k : Bytes} {s : Store} (hi : i < s.databases.length)
    (hmem : ∀ name, s.tables.deniesMemory name = false) (hun : s.databases.Untimed i k)
    (vs : List Visit) (hvs : ∀ v ∈ vs, v.Fits i k) :
    keyObject.History (s.databases.content i k)
      (Run.gathered (Visit.next k) (Visit.seen k) s vs)
      ((vs.foldl (Visit.next k) s).databases.content i k) := by
  -- what every command needs, and keeps
  let I : Store → Prop := fun s => i < s.databases.length ∧
    (∀ name, s.tables.deniesMemory name = false) ∧ s.databases.Untimed i k
  have hframe : ∀ (s : Store) (r : Request), r.name ∈ keyedNames → I s →
      (r.next s).databases.Untimed i k → I (r.next s) := by
    intro s r hname hI hun
    have hsame := (r.local_run hname).frame s
    have hlen : (r.next s).databases.length = s.databases.length := congrArg Prod.fst hsame
    refine ⟨hlen.symm ▸ hI.1, fun name => ?_, hun⟩
    exact (congrFun (congrArg Prod.snd hsame) name).trans (hI.2.1 name)
  refine Object.history_of_run I (fun s => s.databases.content i k) (fun s v hv hI => ?_)
    ⟨hi, hmem, hun⟩
  cases v with
  | own client ctx env op =>
    obtain rfl : ctx.dbIndex = i := hvs _ hv
    obtain ⟨hobject, hun'⟩ := op.does env (hI.2.1 _) hI.1 hI.2.2
    exact ⟨hframe s _ op.mem_keyedNames hI hun', Or.inr ⟨op, _, rfl, hobject⟩⟩
  | other r =>
    obtain ⟨hname, hoff⟩ := hvs _ hv
    have hfind : (r.next s).databases.find i k = s.databases.find i k :=
      (r.local_run hname).outside s (i, k) fun hmem => hoff hmem.1.symm hmem.2
    refine ⟨hframe s r hname hI fun e he => hI.2.2 e (hfind ▸ he), Or.inl ⟨rfl, ?_⟩⟩
    exact Databases.content_of_find hfind

/-- A set that loses its last member, while another key gets a TTL. -/
theorem key_is_object_emptied :
    let env : Env := Moment.on ⟨0, 0, 0, 1⟩ Host.plain
    let vs : List Visit := [.own 0 {} env (.sadd [[97]]),
      .other (Request.plain 1 "SET" [[98], [49]]), .own 0 {} env .spop,
      .other (Request.plain 1 "EXPIRE" [[98], [49]]), .own 2 {} env .exists_]
    keyObject.History none (Run.gathered (Visit.next [107]) (Visit.seen [107]) (Store.new 1) vs)
      ((vs.foldl (Visit.next [107]) (Store.new 1)).databases.content 0 [107]) :=
  let env : Env := Moment.on ⟨0, 0, 0, 1⟩ Host.plain
  key_is_object (i := 0) (k := [107]) (s := Store.new 1) (by decide) (fun _ => rfl)
    (fun e he => by cases he)
    [.own 0 {} env (.sadd [[97]]), .other (Request.plain 1 "SET" [[98], [49]]), .own 0 {} env .spop,
      .other (Request.plain 1 "EXPIRE" [[98], [49]]), .own 2 {} env .exists_]
    (by
      simp only [List.forall_mem_cons]
      exact ⟨rfl, ⟨by decide, fun _ => by decide⟩, rfl, ⟨by decide, fun _ => by decide⟩, rfl,
        List.forall_mem_nil _⟩)

end VeloDB
