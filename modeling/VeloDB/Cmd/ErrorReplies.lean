import VeloDB.Cmd.Table

/-!
# Error replies

Nothing is rolled back when a command fails half way. That an error reply leaves the data as it was
rests on every handler failing, if it does, before its first change: it parses its arguments and
reads, then runs one method of the store, which checks before it writes, and what comes after that
cannot fail. Where a method loops over keys, it either succeeds for all of them or fails at the
first.

## Main results

* `movesIf_updateAs`, `movesIf_upsertAs` — the methods on one value
* `careful_commands` — all handlers that change databases
* `error_reply_unchanged` — every command but the two that run scripts
-/

namespace VeloDB

open Rust Proc

/-! ### Methods of the store -/

/-- Nothing differs. -/
abbrev Untouched : Keyspace → Keyspace → Prop := SameOff 0 []

/-- Storing what is there. -/
theorem untouched_put {s : Keyspace} {i : ℕ} {k : Bytes} {e : Entry}
    (h : s.databases.find i k = some e) :
    Untouched s { s with databases := s.databases.put i k e } where
  length := Databases.length_put
  find := by
    intro j k' _
    by_cases hne : j ≠ i ∨ k' ≠ k
    · exact Databases.find_put_of_ne hne
    · obtain ⟨rfl, rfl⟩ := not_or.mp hne |>.imp not_ne_iff.mp not_ne_iff.mp
      have hj : j < s.databases.length := by
        by_contra hj
        rw [Databases.find, List.getElem?_eq_none (Nat.le_of_not_lt hj)] at h
        cases h
      exact (Databases.find_put_self hj).trans h.symm

section Methods

variable {α β : Type} {kind : Kind α} [kind.Exact] {bad : Except Failure β → Prop}
  {f : α → Except Failure β × α} (now : UInt64) (i : ℕ) (k : Bytes)

theorem movesIf_updateAs (missing : Except Failure β) (hf : ∀ a, bad (f a).1 → (f a).2 = a) :
    MovesIf Untouched bad (Keyspace.updateAs kind now i k missing f) := by
  intro s
  rcases Keyspace.updateAs_cases kind now i k missing f s with ⟨e, h⟩ | ⟨-, -, h⟩ |
    ⟨e, a, -, he, ha, h⟩
  · rw [h]
    exact fun _ => refl_of Untouched s
  · rw [h]
    exact fun _ => refl_of Untouched s
  · rw [h]
    intro hbad
    have hfind : s.databases.find i k = some e := (Option.filter_eq_some_iff.mp he).1
    rw [hf a hbad, Kind.Exact.wrap_unwrap ha]
    exact untouched_put hfind

theorem movesIf_upsertAs {fresh : α} (hfresh : ¬bad (f fresh).1)
    (hf : ∀ a, bad (f a).1 → (f a).2 = a) :
    MovesIf Untouched bad (Keyspace.upsertAs kind i k fresh f) := by
  intro s
  rcases Keyspace.upsertAs_cases kind i k fresh f s with ⟨e, h, -⟩ | ⟨a, -, ha, h⟩
  · rw [h]
    exact fun _ => refl_of Untouched s
  · rw [h]
    intro hbad
    cases hfind : s.databases.find i k with
    | none =>
      rw [hfind] at ha
      obtain rfl := Option.some.inj ((kind.unwrap_wrap fresh).symm.trans ha)
      exact absurd hbad hfresh
    | some e =>
      rw [hfind] at ha
      have hwrap : kind.wrap a = e.value := Kind.Exact.wrap_unwrap ha
      rw [hf a hbad, Option.getD_some, hwrap]
      exact untouched_put hfind

end Methods

namespace Keyspace

variable (now : UInt64) (i : ℕ) (k : Bytes)

theorem movesIf_set (v : Bytes) (expireMs : Option UInt64) :
    MovesIf Untouched Failed (set i k v expireMs) :=
  (moves_read _).bind_movesIf fun _ => movesIf_of_never fun _ => not_failed_ok ()

theorem movesIf_changeExpire (at_ : Option UInt64) :
    MovesIf Untouched Failed (changeExpire i k at_) := by
  refine (moves_read _).bind_movesIf fun d => movesIf_of_never fun s => ?_
  cases d.lookup k with
  | none => exact not_failed_ok false
  | some e => exact not_failed_ok true

theorem movesIf_rename (new : Bytes) : MovesIf Untouched Failed (rename i k new) := by
  refine (moves_read _).bind_movesIf fun d => ?_
  cases d.lookup k with
  | none => exact (moves_throw _).movesIf _
  | some e => exact movesIf_of_never fun _ => not_failed_ok ()

theorem movesIf_dbsize : MovesIf Untouched Failed (dbsize now i) := by
  refine (moves_read _).bind_movesIf fun d => movesIf_of_never fun s => ?_
  rw [Proc.bind_ok (Prod.ext (each_remove_run _ s).1 rfl)]
  exact not_failed_ok _

theorem movesIf_flushdb : MovesIf Untouched Failed (flushdb i) :=
  (moves_read _).bind_movesIf fun _ => movesIf_of_never fun _ => not_failed_ok ()

theorem movesIf_flushall : MovesIf Untouched Failed flushall :=
  movesIf_of_never fun _ => not_failed_ok ()

end Keyspace

/-! ### Handlers -/

/-- What `dispatch` answers with an error. -/
def ErrorReply : Except Failure RespValue → Prop
  | .ok r => r.isError = true
  | .error (.error _) => True
  | .error _ => False

/-- A handler that leaves the databases alone when it is answered with an error. -/
abbrev Careful (m : KeyM RespValue) : Prop := MovesIf Untouched ErrorReply m

theorem not_errorReply {r : RespValue} (h : r.isError = false) : ¬ErrorReply (.ok r) :=
  Bool.eq_false_iff.mp h

namespace Careful

/-- Parsing an argument. -/
theorem lift {α : Type} {x : Except Failure α} {f : α → KeyM RespValue} (h : ∀ a, Careful (f a)) :
    Careful (VeloDB.lift x >>= f) :=
  (moves_ofExcept x).bind_movesIf h

/-- Reading. -/
theorem read {α : Type} {g : Databases → Except VeloDBError α} {f : α → KeyM RespValue}
    (h : ∀ a, Careful (f a)) : Careful (Keyspace.read g >>= f) :=
  (Keyspace.moves_read g).bind_movesIf h

theorem throw (e : VeloDBError) : Careful (Keyspace.throw e) := (Keyspace.moves_throw e).movesIf _

theorem panic : Careful (Proc.fail .panic) := (moves_fail _).movesIf _

theorem pure (r : RespValue) : Careful (Pure.pure r) := (moves_pure r).movesIf _

/-- A method of the store, and a reply that is not an error. -/
theorem reply {α : Type} {op : KeyM α} (h : MovesIf Untouched Failed op) {g : α → RespValue}
    (hg : ∀ a, (g a).isError = false) : Careful (op >>= fun a => Pure.pure (g a)) :=
  h.bind_failed fun a _ => not_errorReply (hg a)

end Careful

namespace Cmd

variable (env : Env) (i : ℕ) (args : List Bytes)

/-! ### Strings -/

theorem careful_set : Careful (set env i args) := by
  refine Careful.lift fun flags => Careful.lift fun key => Careful.lift fun value => ?_
  split
  · refine Careful.read fun found => ?_
    split
    · exact .pure _
    · exact .reply (Keyspace.movesIf_set i key value _) fun _ => rfl
  · exact .reply (Keyspace.movesIf_set i key value _) fun _ => rfl

/-- Setting several keys: the first fails, or none does. -/
theorem movesIf_each_set (pairs : List (Bytes × Bytes)) :
    MovesIf Untouched Failed (each pairs fun p => Keyspace.set i p.1 p.2 none) := by
  rw [each_eq_foldEach]
  refine movesIf_foldEach (P := fun s => i < s.databases.length) ?_ ?_ ()
  · rintro - p ⟨dbs, notified⟩ hi
    rw [Keyspace.set_run hi]
    refine ⟨(), rfl, ?_⟩
    rwa [Databases.length_put]
  · rintro - p ⟨dbs, notified⟩ hi
    obtain ⟨e, he⟩ := Keyspace.read_db_error (Nat.le_of_not_lt hi) notified
    rw [Keyspace.set, Proc.bind_error he]
    exact ⟨⟨_, rfl⟩, refl_of Untouched _⟩

theorem careful_mset : Careful (mset env i args) := by
  rw [mset]
  split
  · exact .throw _
  · exact .reply (movesIf_each_set i (parsePairs args)) fun _ => rfl

theorem careful_incrFn (key : Bytes) (by_ : Int64) : Careful (incrFn env i key by_) :=
  .read fun _ => .lift fun _ => .reply (Keyspace.movesIf_set i key _ _) fun _ => rfl

theorem careful_incr : Careful (incr env i args) := .lift fun key => careful_incrFn env i key 1

theorem careful_incrby : Careful (incrby env i args) :=
  .lift fun _ => .lift fun by_ => .lift fun key => careful_incrFn env i key by_

theorem careful_decr : Careful (decr env i args) := .lift fun key => careful_incrFn env i key (-1)

theorem careful_decrby : Careful (decrby env i args) :=
  .lift fun _ => .lift fun by_ => .lift fun key => careful_incrFn env i key (-by_)

theorem careful_append : Careful (append env i args) :=
  .lift fun key => .read fun _ => .lift fun _ =>
    .reply (Keyspace.movesIf_set i key _ _) fun _ => rfl

theorem careful_setrange : Careful (setrange env i args) := by
  refine .lift fun offset => .lift fun key => .read fun v => .lift fun patch => ?_
  split
  · exact .reply (Keyspace.movesIf_set i key _ _) fun _ => rfl
  · exact .panic

theorem bulkOrNil_isError (o : Option Bytes) : (bulkOrNil o).isError = false := by
  cases o <;> rfl

theorem careful_getset : Careful (getset env i args) :=
  .lift fun key => .read fun old => .lift fun _ =>
    .reply (Keyspace.movesIf_set i key _ _) fun _ => bulkOrNil_isError old

/-! ### Keys -/

theorem careful_del : Careful (del env i args) := by
  refine .reply (movesIf_foldEach (P := fun s => i < s.databases.length) ?_ ?_ 0) fun _ => rfl
  · rintro n key ⟨dbs, notified⟩ hi
    have hdel : Keyspace.del i key ⟨dbs, notified⟩
        = (.ok (dbs[i].lookup key).isSome, ⟨dbs.remove i key, notified⟩) := by
      rw [Keyspace.del, Proc.bind_ok (Keyspace.read_db hi notified)]
      rfl
    rw [Proc.bind_ok hdel]
    refine ⟨_, rfl, ?_⟩
    show i < (dbs.remove i key).length
    rwa [Databases.length_remove]
  · rintro n key ⟨dbs, notified⟩ hi
    obtain ⟨e, he⟩ := Keyspace.read_db_error (Nat.le_of_not_lt hi) notified
    have hdel : Keyspace.del i key ⟨dbs, notified⟩ = (.error (.error e), ⟨dbs, notified⟩) :=
      Proc.bind_error he
    rw [Proc.bind_error hdel]
    exact ⟨⟨_, rfl⟩, refl_of Untouched _⟩

theorem careful_expireWith (time : UInt64 → UInt64) : Careful (expireWith time i args) :=
  .lift fun _ => .lift fun key => .reply (Keyspace.movesIf_changeExpire i key _) fun _ => rfl

theorem careful_persist : Careful (persist env i args) :=
  .lift fun key => .reply (Keyspace.movesIf_changeExpire i key none) fun _ => rfl

theorem careful_renameCmd : Careful (renameCmd env i args) := by
  refine .lift fun old => .read fun found => ?_
  split
  · exact .throw _
  · exact .lift fun new => .reply (Keyspace.movesIf_rename i old new) fun _ => rfl

theorem careful_renamenx : Careful (renamenx env i args) := by
  refine .lift fun new => .read fun taken => ?_
  split
  · exact .pure _
  · refine .lift fun old => .read fun found => ?_
    split
    · exact .throw _
    · exact .reply (Keyspace.movesIf_rename i old new) fun _ => rfl

theorem careful_dbsizeCmd : Careful (dbsizeCmd env i args) :=
  .reply (Keyspace.movesIf_dbsize env.now i) fun _ => rfl

theorem careful_flushdbCmd : Careful (flushdbCmd env i args) :=
  .reply (Keyspace.movesIf_flushdb i) fun _ => rfl

theorem careful_flushallCmd : Careful (flushallCmd env i args) :=
  .reply Keyspace.movesIf_flushall fun _ => rfl

/-! ### Containers -/

section Containers

variable {i} {k : Bytes} {now : UInt64}

/-- A push: what it does to the list cannot fail, and then it notifies. -/
theorem movesIf_push {α β : Type} {kind : Kind α} [kind.Exact] {fresh : α}
    {f : α → Except Failure β × α} (hf : ∀ a, ¬Failed (f a).1) :
    MovesIf Untouched Failed (Keyspace.upsertAs kind i k fresh f >>= fun b =>
      Keyspace.notify k >>= fun _ => pure b) :=
  (movesIf_upsertAs i k (hf fresh) fun a h => absurd h (hf a)).bind_failed
    fun b _ => not_failed_ok b

theorem careful_lpush : Careful (lpush env i args) :=
  .lift fun _ => .lift fun _ => .reply (movesIf_push fun _ => not_failed_ok _) fun _ => rfl

theorem careful_rpush : Careful (rpush env i args) :=
  .lift fun _ => .lift fun _ => .reply (movesIf_push fun _ => not_failed_ok _) fun _ => rfl

/-- A method that changes a live value and does not fail when it has found one. -/
theorem movesIf_update {α β : Type} {kind : Kind α} [kind.Exact] {missing : Except Failure β}
    {f : α → Except Failure β × α} (hf : ∀ a, ¬Failed (f a).1) :
    MovesIf Untouched Failed (Keyspace.updateAs kind now i k missing f) :=
  movesIf_updateAs now i k missing fun a h => absurd h (hf a)

/-- A method that creates and does not fail. -/
theorem movesIf_upsert {α β : Type} {kind : Kind α} [kind.Exact] {fresh : α}
    {f : α → Except Failure β × α} (hf : ∀ a, ¬Failed (f a).1) :
    MovesIf Untouched Failed (Keyspace.upsertAs kind i k fresh f) :=
  movesIf_upsertAs i k (hf fresh) fun a h => absurd h (hf a)

theorem careful_lpop : Careful (lpop env i args) :=
  .lift fun _ => .reply (movesIf_update fun _ => not_failed_ok _) bulkOrNil_isError

theorem careful_rpop : Careful (rpop env i args) :=
  .lift fun _ => .reply (movesIf_update fun _ => not_failed_ok _) bulkOrNil_isError

/-- An index that is out of range is not written to. -/
theorem movesIf_lset (idx : Int64) (value : Bytes) :
    MovesIf Untouched Failed (Keyspace.lset now i k idx value) := by
  refine movesIf_updateAs now i k _ fun l h => ?_
  cases hidx : listIndex l.length idx with
  | some j =>
    rw [hidx] at h
    exact absurd h (not_failed_ok ())
  | none => rfl

theorem careful_lset : Careful (lset env i args) :=
  .lift fun _ => .lift fun _ => .lift fun _ => .reply (movesIf_lset _ _) fun _ => rfl

theorem careful_ltrim : Careful (ltrim env i args) := by
  refine .lift fun _ => .lift fun _ => .lift fun _ => .reply (movesIf_update fun l => ?_) fun _ => rfl
  dsimp only
  split <;> exact not_failed_ok ()

theorem careful_lrem : Careful (lrem env i args) :=
  .lift fun _ => .lift fun _ => .lift fun _ =>
    .reply (movesIf_update fun _ => not_failed_ok _) fun _ => rfl

theorem careful_sadd : Careful (sadd env i args) :=
  .lift fun _ => .lift fun _ => .reply (movesIf_upsert fun _ => not_failed_ok _) fun _ => rfl

theorem careful_srem : Careful (srem env i args) :=
  .lift fun _ => .lift fun _ => .reply (movesIf_update fun _ => not_failed_ok _) fun _ => rfl

theorem careful_spop : Careful (spop env i args) := by
  refine .lift fun _ => .reply (movesIf_update fun _ => not_failed_ok _) fun l => ?_
  split
  · exact bulkOrNil_isError _
  · rfl

theorem careful_hset : Careful (hset env i args) := by
  refine .lift fun rest => ?_
  dsimp only
  split
  · exact .throw _
  · exact .lift fun _ => .reply (movesIf_upsert fun _ => not_failed_ok _) fun _ => rfl

theorem careful_hdel : Careful (hdel env i args) :=
  .lift fun _ => .lift fun _ => .reply (movesIf_update fun _ => not_failed_ok _) fun _ => rfl

/-- A sum that overflows is not written, and the first increment of a field does not overflow. -/
theorem movesIf_hincrby (field : Bytes) (increment : Int64) :
    MovesIf Untouched Failed (Keyspace.hincrby i k field increment) := by
  refine movesIf_upsertAs i k ?_ fun m h => ?_
  · dsimp only
    split
    · exact not_failed_ok _
    · next hv => cases (checkedAdd_zero increment).symm.trans hv
  · dsimp only at h ⊢
    split at h
    · exact absurd h (not_failed_ok _)
    · rfl

theorem careful_hincrby : Careful (hincrby env i args) :=
  .lift fun _ => .lift fun _ => .lift fun _ => .lift fun _ =>
    .reply (movesIf_hincrby _ _) fun _ => rfl

theorem careful_nhset : Careful (nhset env i args) :=
  .lift fun _ => .lift fun _ => .lift fun _ => .lift fun _ =>
    .reply (movesIf_upsert fun _ => not_failed_ok _) fun _ => rfl

theorem careful_nhdel : Careful (nhdel env i args) := by
  refine .lift fun _ => .lift fun field => .reply (movesIf_update fun m => ?_) fun _ => rfl
  cases args[2]? with
  | none => exact not_failed_ok _
  | some subfield =>
    dsimp only
    cases m.lookup field with
    | none => exact not_failed_ok _
    | some inner =>
      dsimp only
      split <;> exact not_failed_ok _

theorem careful_zadd : Careful (zadd env i args) :=
  .lift fun _ => .lift fun _ => .lift fun _ =>
    .reply (movesIf_upsert fun _ => not_failed_ok _) fun _ => rfl

theorem careful_zrem : Careful (zrem env i args) :=
  .lift fun _ => .lift fun _ => .reply (movesIf_update fun _ => not_failed_ok _) fun _ => rfl

end Containers

/-! ### Streams -/

theorem movesIf_xadd (now : UInt64) (k idStr : Bytes) (fields : List (Bytes × Bytes))
    (maxlen : Option ℕ) : MovesIf Untouched Failed (Keyspace.xadd now i k idStr fields maxlen) := by
  refine (Keyspace.moves_read _).bind_movesIf fun id =>
    (Keyspace.moves_read _).bind_movesIf fun last => ?_
  cases last with
  | none => exact movesIf_push fun _ => not_failed_ok _
  | some last =>
    dsimp only
    split
    · exact movesIf_push fun _ => not_failed_ok _
    · exact (Keyspace.moves_throw _).movesIf _

theorem careful_xadd : Careful (xadd env i args) := by
  rw [xadd]
  dsimp only
  split
  · exact .throw _
  · split
    · exact .throw _
    · exact .lift fun _ => .reply (movesIf_xadd i _ _ _ _ _) fun _ => rfl

theorem careful_xdel : Careful (xdel env i args) :=
  .lift fun _ => .lift fun _ => .reply (movesIf_update fun _ => not_failed_ok _) fun _ => rfl

theorem careful_xtrim : Careful (xtrim env i args) := by
  rw [xtrim]
  split
  · exact .throw _
  · exact .lift fun _ => .lift fun _ =>
      .reply (movesIf_update fun _ => not_failed_ok _) fun _ => rfl

/-! ### The other commands -/

theorem infoLines_ok {l : List ℕ} {s : Keyspace} (hl : ∀ i ∈ l, i < s.databases.length) :
    ∃ lines, (infoLines env l s).1 = .ok lines := by
  induction l generalizing s with
  | nil => exact ⟨_, rfl⟩
  | cons i l ih =>
    obtain ⟨s', hs', hlen⟩ := Keyspace.dbsize_run (hl i List.mem_cons_self) env.now
    have hi : i < s'.databases.length := hlen.symm ▸ hl i List.mem_cons_self
    obtain ⟨expires, hexpires⟩ : ∃ n, Keyspace.read (fun dbs => dbs.expiresCount env.now i) s'
        = (.ok n, s') := by
      rw [Keyspace.read, Databases.expiresCount, Databases.db_eq hi]
      exact ⟨_, rfl⟩
    obtain ⟨lines, hlines⟩ := @ih s' fun j hj => hlen.symm ▸ hl j (List.mem_cons_of_mem _ hj)
    rw [infoLines, Proc.bind_ok hs', Proc.bind_ok hexpires, Proc.bind_ok (Prod.ext hlines rfl)]
    exact ⟨_, rfl⟩

theorem careful_info : Careful (info env i args) := by
  refine movesIf_of_never fun s => ?_
  obtain ⟨lines, hlines⟩ := infoLines_ok env (l := List.range s.databases.length) (s := s)
    fun i hi => List.mem_range.mp hi
  have hread : Keyspace.read (fun dbs => .ok dbs.length) s = (.ok s.databases.length, s) := rfl
  rw [info, Proc.bind_ok hread, Proc.bind_ok (Prod.ext hlines rfl)]
  exact not_errorReply rfl

end Cmd

/-- The same entries under the same keys. -/
structure SameEntries (dbs dbs' : Databases) : Prop where
  length : dbs'.length = dbs.length
  find : ∀ i k, dbs'.find i k = dbs.find i k

/-- The databases are as before. -/
def Kept (w w' : Whole) : Prop := SameEntries w.store.databases w'.store.databases

instance : Std.Refl Kept := ⟨fun _ => ⟨rfl, fun _ _ => rfl⟩⟩

instance : IsTrans Whole Kept :=
  ⟨fun _ _ _ h h' => ⟨h'.length.trans h.length, fun i k => (h'.find i k).trans (h.find i k)⟩⟩

namespace Cmd

variable (env : Env) (args : List Bytes)

/-- Nothing has been popped. -/
def Nothing {α : Type} (x : Except Failure (Option α)) : Prop := ∀ a, x ≠ .ok (some a)

theorem movesIf_lpopOne (now : UInt64) (i : ℕ) (k : Bytes) :
    MovesIf Untouched Nothing (Keyspace.lpopOne now i k) := by
  refine movesIf_updateAs now i k _ fun l h => ?_
  cases l with
  | nil => rfl
  | cons a l => exact absurd rfl (h a)

theorem movesIf_rpopOne (now : UInt64) (i : ℕ) (k : Bytes) :
    MovesIf Untouched Nothing (Keyspace.rpopOne now i k) := by
  refine movesIf_updateAs now i k _ fun l h => ?_
  cases hl : l.getLast? with
  | none => rw [List.getLast?_eq_none_iff.mp hl, List.dropLast_nil]
  | some a => exact absurd (congrArg Except.ok hl) (h a)

/-- Keys that have nothing to pop are passed over. -/
theorem movesIf_popFirst {pop : Bytes → KeyM (Option Bytes)}
    (hpop : ∀ k, MovesIf Untouched Nothing (pop k)) (keys : List Bytes) :
    MovesIf Untouched Nothing (popFirst pop keys) := by
  induction keys with
  | nil => exact (moves_pure none).movesIf _
  | cons k keys ih =>
    intro s hbad
    have hk := hpop k s
    rw [popFirst] at hbad ⊢
    rcases hr : pop k s with ⟨e | o, s'⟩
    · rw [hr] at hk
      rw [Proc.bind_error hr]
      exact hk fun a h => nomatch h
    · rw [hr] at hk
      rw [Proc.bind_ok hr] at hbad ⊢
      cases o with
      | none => exact trans_of Untouched (hk fun a h => nomatch h) (ih s' hbad)
      | some v => exact absurd rfl (hbad (k, v))

theorem movesIf_onKeyspace {α : Type} {bad : Except Failure α → Prop} {m : KeyM α}
    (h : MovesIf Untouched bad m) : MovesIf Kept bad (onKeyspace m) := by
  intro w hbad
  have hsame := h { databases := w.store.databases } hbad
  exact ⟨hsame.length, fun i k => hsame.find i k (Or.inr List.not_mem_nil)⟩

theorem careful_blockingPop {pop : UInt64 → ℕ → Bytes → KeyM (Option Bytes)}
    (hpop : ∀ now i k, MovesIf Untouched Nothing (pop now i k)) (direction : PopDirection) :
    MovesIf Kept ErrorReply (blockingPop pop direction env args) := by
  rw [blockingPop]
  dsimp only
  split
  · exact (moves_fail _).movesIf _
  · refine moves_get.bind_movesIf fun w => ?_
    have hfirst := movesIf_onKeyspace (movesIf_popFirst (hpop env.now w.ctx.dbIndex) args.dropLast)
    refine hfirst.bind (fun e _ a h => nomatch h) fun o w => ?_
    cases o with
    | some p => exact not_errorReply rfl
    | none =>
      dsimp only
      split <;> exact not_errorReply rfl

theorem movesIf_xgroupCreate (now : UInt64) (i : ℕ) (k : Bytes) (group : String) (startId : Bytes)
    (mkstream : Bool) :
    MovesIf Kept Failed (xgroupCreate now i k group startId mkstream) := by
  refine moves_get.bind_movesIf fun w => (moves_ofExcept _).bind_movesIf fun type => ?_
  cases type with
  | none =>
    dsimp only
    split
    · exact (moves_fail _).movesIf _
    · -- the stream is created, and nothing fails after that
      exact movesIf_of_never fun _ => not_failed_ok ()
  | some t =>
    dsimp only
    split
    · exact (moves_fail _).movesIf _
    · exact movesIf_of_never fun _ => not_failed_ok ()

/-- The table of groups is not part of the databases. -/
theorem moves_onTablesOfStore {α : Type} (m : TableM α) : Moves Kept (onTablesOfStore m) :=
  fun _ => ⟨rfl, fun _ _ => rfl⟩

theorem careful_xgroup : MovesIf Kept ErrorReply (xgroup env args) := by
  have htables : ∀ {α : Type} (m : TableM α) (g : α → RespValue),
      MovesIf Kept ErrorReply (onTablesOfStore m >>= fun a => pure (g a)) := fun m g =>
    (moves_onTablesOfStore m).bind_movesIf fun a => (moves_pure (g a)).movesIf _
  have hfail : ∀ e : Failure, MovesIf Kept ErrorReply (Proc.fail e : WholeM RespValue) :=
    fun e => (moves_fail e).movesIf _
  refine moves_get.bind_movesIf fun w => ?_
  dsimp only
  cases args with
  | nil => exact hfail _
  | cons sub rest =>
    dsimp only
    split
    · split
      · exact (movesIf_xgroupCreate _ _ _ _ _ _).bind_failed fun _ _ => not_errorReply rfl
      · exact hfail _
    · split
      · split
        · exact htables _ _
        · exact hfail _
      · split
        · split
          · exact htables _ _
          · exact hfail _
        · split
          · split
            · exact htables _ _
            · exact hfail _
          · exact hfail _

/-! ### Transactions -/

/-- The procedure failed with an error that would be replied. -/
def Raised {α : Type} (x : Except Failure α) : Prop := ∃ e, x = .error (.error e)

theorem not_raised_ok {α : Type} (a : α) : ¬Raised (.ok a) := by
  rintro ⟨e, h⟩
  cases h

/-- `dispatch` answers, panics or hangs. -/
theorem not_raised_dispatchDepth (env : Env) (depth : ℕ) (name : String) (args : List Bytes)
    (w : Whole) : ¬Raised (dispatchDepth env depth name args w).1 := by
  cases depth with
  | zero =>
    rintro ⟨e, h⟩
    cases h
  | succ depth =>
    rw [dispatchDepth, dispatchWith]
    split_ifs
    · exact not_raised_ok _
    · split
      · split_ifs
        · exact not_raised_ok _
        · rw [catchError_fst]
          split
          · exact not_raised_ok _
          · next h =>
            rintro ⟨e, he⟩
            exact h e he
      · exact not_raised_ok _

theorem not_raised_execQueue (env : Env) (depth : ℕ) (queue : List (List Bytes)) (w : Whole) :
    ¬Raised (execQueue (dispatchDepth env depth) env queue w).1 := by
  induction queue generalizing w with
  | nil => exact not_raised_ok _
  | cons args queue ih =>
    cases args with
    | nil =>
      rintro ⟨e, h⟩
      cases h
    | cons name args =>
      rw [execQueue, arg_cons_zero, lift_ok_bind, List.tail_cons]
      have hd := not_raised_dispatchDepth env depth (upper env name) args w
      rcases hr : dispatchDepth env depth (upper env name) args w with ⟨e | r, w₁⟩
      · rw [hr] at hd
        rw [Proc.bind_error hr]
        exact fun ⟨e', h⟩ => hd ⟨e', congrArg Except.error (Except.error.inj h)⟩
      · have hq := ih w₁
        rw [Proc.bind_ok hr]
        rcases hrest : execQueue (dispatchDepth env depth) env queue w₁ with ⟨e | results, w₂⟩
        · rw [hrest] at hq
          rw [Proc.bind_error hrest]
          exact fun ⟨e', h⟩ => hq ⟨e', congrArg Except.error (Except.error.inj h)⟩
        · rw [Proc.bind_ok hrest]
          exact not_raised_ok _

/-- `EXEC` is answered with an error only outside of a transaction. -/
theorem careful_exec (depth : ℕ) : MovesIf Kept ErrorReply (exec (dispatchDepth env depth) env) := by
  refine moves_get.bind_movesIf fun w => ?_
  split
  · exact (moves_fail _).movesIf _
  · have hctx : Moves Kept
        (Proc.modify fun w => { w with ctx := takeTransaction w.ctx } : WholeM Unit) :=
      fun _ => ⟨rfl, fun _ _ => rfl⟩
    refine hctx.bind_movesIf fun _ => (moves_ofExcept _).bind_movesIf fun unchanged => ?_
    split
    · have hqueue : MovesIf Kept Raised (execQueue (dispatchDepth env depth) env w.ctx.multiQueue) :=
        movesIf_of_never (not_raised_execQueue env depth w.ctx.multiQueue)
      refine hqueue.bind (fun e h => ?_) fun _ _ => not_errorReply rfl
      cases e with
      | error e => exact ⟨e, rfl⟩
      | panic => exact h.elim
      | hang => exact h.elim
    · exact (moves_pure _).movesIf _

end Cmd

/-! ### The command table -/

/-- A handler that leaves the databases alone when it is answered with an error. -/
def Handler.Careful : Handler → Prop
  | .write f => ∀ env i args, VeloDB.Careful (f env i args)
  | .whole f => ∀ env args, MovesIf Kept ErrorReply (f env args)
  | .eval | .evalsha => False
  | .read _ | .side _ | .exec => True

section

open Cmd

theorem careful_stringCommands : ∀ c ∈ stringCommands, c.handler.Careful := by
  simp only [stringCommands, List.forall_mem_cons]
  exact ⟨trivial, careful_set, trivial, careful_mset, careful_incr, careful_incrby, careful_decr,
    careful_decrby, careful_append, trivial, trivial, careful_setrange, careful_getset,
    List.forall_mem_nil _⟩

theorem careful_genericCommands : ∀ c ∈ genericCommands, c.handler.Careful := by
  simp only [genericCommands, List.forall_mem_cons]
  exact ⟨careful_del, trivial, fun _ i args => careful_expireWith i args _,
    fun _ i args => careful_expireWith i args _, fun _ i args => careful_expireWith i args _,
    fun _ i args => careful_expireWith i args _, trivial, trivial, careful_persist, trivial,
    careful_renameCmd, careful_renamenx, trivial, careful_dbsizeCmd, careful_flushdbCmd,
    careful_flushallCmd, trivial, trivial, trivial, trivial, trivial, List.forall_mem_nil _⟩

theorem careful_listCommands : ∀ c ∈ listCommands, c.handler.Careful := by
  simp only [listCommands, List.forall_mem_cons]
  exact ⟨fun env _ => careful_lpush env, fun env _ => careful_rpush env,
    fun env _ => careful_lpop env,
    fun env _ => careful_rpop env, trivial, trivial, trivial, fun env _ => careful_lset env,
    fun env _ => careful_ltrim env, fun env _ => careful_lrem env,
    fun env args => careful_blockingPop env args movesIf_lpopOne .left,
    fun env args => careful_blockingPop env args movesIf_rpopOne .right, List.forall_mem_nil _⟩

theorem careful_setCommands : ∀ c ∈ setCommands, c.handler.Careful := by
  simp only [setCommands, List.forall_mem_cons]
  exact ⟨fun env _ => careful_sadd env, fun env _ => careful_srem env, trivial, trivial, trivial,
    trivial, trivial, trivial, trivial, fun env _ => careful_spop env, List.forall_mem_nil _⟩

theorem careful_hashCommands : ∀ c ∈ hashCommands, c.handler.Careful := by
  simp only [hashCommands, List.forall_mem_cons]
  exact ⟨fun env _ => careful_hset env, trivial, fun env _ => careful_hdel env, trivial, trivial,
    trivial, trivial, trivial, fun env _ => careful_hincrby env, List.forall_mem_nil _⟩

theorem careful_zsetCommands : ∀ c ∈ zsetCommands, c.handler.Careful := by
  simp only [zsetCommands, List.forall_mem_cons]
  exact ⟨fun env _ => careful_zadd env, fun env _ => careful_zrem env, trivial, trivial, trivial,
    trivial, trivial, trivial, List.forall_mem_nil _⟩

theorem careful_streamCommands : ∀ c ∈ streamCommands, c.handler.Careful := by
  simp only [streamCommands, List.forall_mem_cons]
  exact ⟨careful_xadd, trivial, trivial, trivial, careful_xdel, careful_xtrim, trivial,
    careful_xgroup, trivial, trivial, trivial, trivial, List.forall_mem_nil _⟩

theorem careful_nestedHashCommands : ∀ c ∈ nestedHashCommands, c.handler.Careful := by
  simp only [nestedHashCommands, List.forall_mem_cons]
  exact ⟨fun env _ => careful_nhset env, trivial, fun env _ => careful_nhdel env, trivial, trivial,
    trivial, List.forall_mem_nil _⟩

theorem careful_serverCommands : ∀ c ∈ serverCommands, c.handler.Careful := by
  simp only [serverCommands, List.forall_mem_cons]
  exact ⟨trivial, trivial, trivial, trivial, careful_info, trivial, trivial, List.forall_mem_nil _⟩

/-- All commands but those that run scripts. -/
theorem careful_commands {c : CommandDef} (hc : c ∈ commands) (heval : c.name ≠ "EVAL")
    (hevalsha : c.name ≠ "EVALSHA") : c.handler.Careful := by
  have hsides : ∀ c ∈ pubsubCommands ++ transactionCommands ++ luaCommands ++ clusterCommands,
      c.name ≠ "EVAL" → c.name ≠ "EVALSHA" → c.handler.Careful := by
    simp only [pubsubCommands, transactionCommands, luaCommands, clusterCommands, List.cons_append,
      List.nil_append, List.forall_mem_cons]
    simp [Handler.Careful]
  exact forall_commands (fun c hc _ _ => careful_serverCommands c hc)
    (fun c hc _ _ => careful_stringCommands c hc) (fun c hc _ _ => careful_genericCommands c hc)
    (fun c hc _ _ => careful_listCommands c hc) (fun c hc _ _ => careful_setCommands c hc)
    (fun c hc _ _ => careful_hashCommands c hc) (fun c hc _ _ => careful_zsetCommands c hc)
    (fun c hc _ _ => careful_streamCommands c hc)
    (fun c hc _ _ => careful_nestedHashCommands c hc) hsides c hc heval hevalsha

end

theorem Handler.Careful.run {h : Handler} (hh : h.Careful) (env : Env) (depth : ℕ)
    (args : List Bytes) : MovesIf Kept ErrorReply (h.run (dispatchDepth env depth) env args) := by
  cases h with
  | read f => exact Moves.movesIf (fun _ => ⟨rfl, fun _ _ => rfl⟩) _
  | write f =>
    intro w hbad
    have hsame := hh env w.ctx.dbIndex args { databases := w.store.databases } hbad
    exact ⟨hsame.length, fun i k => hsame.find i k (Or.inr List.not_mem_nil)⟩
  | side f => exact Moves.movesIf (fun _ => ⟨rfl, fun _ _ => rfl⟩) _
  | whole f => exact hh env args
  | exec => exact Cmd.careful_exec env depth
  | eval => exact hh.elim
  | evalsha => exact hh.elim

/-- **An error reply leaves the data untouched**, whatever the arguments are. -/
theorem error_reply_unchanged {name : String} (heval : name ≠ "EVAL") (hevalsha : name ≠ "EVALSHA")
    (env : Env) (args : List Bytes) (w : Whole) {msg : String}
    (h : (dispatch env name args w).1 = .ok (.error msg)) :
    SameEntries w.store.databases (dispatch env name args w).2.store.databases := by
  rw [dispatch, dispatchDepth, dispatchWith] at h ⊢
  split_ifs at h ⊢ with hgate
  · exact ⟨rfl, fun _ _ => rfl⟩
  · cases hc : findCommand name with
    | none => exact ⟨rfl, fun _ _ => rfl⟩
    | some c =>
      obtain ⟨hmem, rfl⟩ := mem_of_findCommand hc
      rw [hc] at h
      dsimp only at h ⊢
      split_ifs at h ⊢ with hargs
      · exact ⟨rfl, fun _ _ => rfl⟩
      · rw [catchError_fst] at h
        rw [catchError_snd]
        refine (careful_commands hmem heval hevalsha).run env env.nesting args w ?_
        split at h
        · next herror =>
          rw [herror]
          trivial
        · rw [h]
          exact rfl

/-- Adding to a list that is not one. -/
theorem error_reply_unchanged_wrongType :
    let w : Whole := ⟨⟨(Store.new 1).databases.put 0 [97] { value := .string [98] }, {}⟩, {}⟩
    let env := Moment.on ⟨0, 0, 0, 0⟩ Host.plain
    SameEntries w.store.databases (dispatch env "LPUSH" [[97], [99]] w).2.store.databases := by
  intro w env
  exact error_reply_unchanged (by decide) (by decide) env [[97], [99]] w rfl

end VeloDB
