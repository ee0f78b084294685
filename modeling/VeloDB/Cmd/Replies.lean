import VeloDB.Cmd.GroupCalls
import VeloDB.Resp.Frames

/-!
# What the handlers answer

Every handler is gone through once for three things: the texts of its replies and of its errors hold
no carriage return, it panics only where it indexes an argument that is not there, and it always
comes to an end. `Replies fault m` says all of this of a procedure, with `fault` for the inputs on
which it may panic or hang. This file has the rules, one for each kind of step that the handlers are
made of.
-/

namespace VeloDB

open Rust Proc

/-- The text of an error is one line. -/
def VeloDBError.OneLine (e : VeloDBError) : Prop := '\r' ∉ e.display.toList

instance (e : VeloDBError) : Decidable e.OneLine :=
  inferInstanceAs (Decidable ('\r' ∉ e.display.toList))

/-- How a command may fail: with an error of one line, or where `fault` holds. -/
def Blames (fault : Prop) : Failure → Prop
  | .error e => e.OneLine
  | _ => fault

/-- Any value. -/
abbrev Whatever {α : Type} : α → Prop := fun _ => True

/-- The result of a reading method, with an error of one line. -/
abbrev Tidy {α : Type} (x : Except VeloDBError α) : Prop := OkOr VeloDBError.OneLine Whatever x

/-- Reads or parses something. -/
abbrev Reads {α : Type} (fault : Prop) (x : Except Failure α) : Prop :=
  OkOr (Blames fault) Whatever x

/-- Does something. -/
abbrev Does {σ α : Type} (fault : Prop) (m : Proc σ Failure α) : Prop :=
  Proc.Delivers (Blames fault) Whatever m

/-- Answers with a reply without a carriage return in a text. -/
abbrev Replies {σ : Type} (fault : Prop) (m : Proc σ Failure RespValue) : Prop :=
  Proc.Delivers (Blames fault) NoCR m

/-! ### Texts -/

theorem not_cr_mem_toDigits (n : ℕ) : '\r' ∉ Nat.toDigits 10 n := by
  intro h
  have hdigit := isDigit_of_mem_toDigits h
  revert hdigit
  decide

theorem oneLine_out (i : ℕ) :
    (VeloDBError.internal ("db " ++ toString i ++ " out of range")).OneLine := by
  show '\r' ∉ ("db " ++ toString i ++ " out of range").toList
  simp [not_cr_mem_toDigits]

theorem noCR_bulkOrNil (o : Option Bytes) : NoCR (bulkOrNil o) := by
  cases o <;> trivial

theorem noCR_array {l : List RespValue} (h : ∀ v ∈ l, NoCR v) : NoCR (.array (some l)) :=
  noCRItems_iff.mpr h

theorem noCR_bulks (l : List Bytes) : NoCR (bulks l) := by
  refine noCR_array fun v hv => ?_
  obtain ⟨b, -, rfl⟩ := List.mem_map.mp hv
  trivial

theorem noCR_bulkPairs (l : List (Bytes × Bytes)) : NoCR (bulkPairs l) := by
  refine noCR_array fun v hv => ?_
  obtain ⟨p, -, hv⟩ := List.mem_flatMap.mp hv
  rcases List.mem_pair.mp hv with rfl | rfl <;> trivial

theorem noCR_ok : NoCR .ok := by
  show '\r' ∉ "OK".toList
  decide

theorem noCR_scanReply {n : ℕ} {items : List RespValue} (h : ∀ v ∈ items, NoCR v) :
    NoCR (Cmd.scanReply n items) := by
  refine noCR_array fun v hv => ?_
  rcases List.mem_pair.mp hv with rfl | rfl
  · trivial
  · exact noCR_array h

theorem noCR_memberScores (H : Host) (l : List (Bytes × Option F64)) :
    NoCR (Cmd.memberScores H l) := by
  refine noCR_array fun v hv => ?_
  obtain ⟨p, -, hv⟩ := List.mem_flatMap.mp hv
  rcases List.mem_cons.mp hv with rfl | hv
  · trivial
  · obtain ⟨b, hb⟩ := Option.mem_toList.mp hv |> Option.map_eq_some_iff.mp
    rw [← hb.2]
    trivial

theorem noCR_serializeEntry (e : StreamEntry) : NoCR (Cmd.serializeEntry e) := by
  refine noCR_array fun v hv => ?_
  rcases List.mem_pair.mp hv with rfl | rfl
  · trivial
  · exact noCR_bulkPairs _

theorem noCR_serializeEntries (l : List StreamEntry) : NoCR (Cmd.serializeEntries l) := by
  refine noCR_array fun v hv => ?_
  obtain ⟨e, -, rfl⟩ := List.mem_map.mp hv
  exact noCR_serializeEntry e

theorem noCR_texts (l : List String) : NoCR (Cmd.texts l) := noCR_bulks _

/-! ### Reading methods -/

section Reading

variable (now : UInt64) (dbs : Databases) (i : ℕ) (k : Bytes)

theorem tidy_db : Tidy (dbs.db i) := by
  rw [Databases.db]
  split
  · trivial
  · exact oneLine_out i

theorem tidy_entry : Tidy (dbs.entry now i k) := (tidy_db dbs i).bind fun _ _ => trivial

theorem tidy_readAs {α β : Type} (kind : Kind α) (missing : β) (f : α → β) :
    Tidy (dbs.readAs kind now i k missing f) := by
  refine (tidy_entry now dbs i k).bind fun e _ => ?_
  cases e with
  | none => trivial
  | some e =>
    dsimp only
    cases kind.unwrap e.value with
    | none => exact (show VeloDBError.wrongType.OneLine by decide)
    | some a => trivial

theorem tidy_get : Tidy (dbs.get now i k) := by
  refine (tidy_entry now dbs i k).bind fun e _ => ?_
  cases e with
  | none => trivial
  | some e =>
    dsimp only
    split
    · trivial
    · exact (show VeloDBError.wrongType.OneLine by decide)

theorem tidy_existsKey : Tidy (dbs.existsKey now i k) :=
  (tidy_entry now dbs i k).bind fun _ _ => trivial

theorem tidy_getExpire : Tidy (dbs.getExpire now i k) :=
  (tidy_entry now dbs i k).bind fun _ _ => trivial

theorem tidy_expiresCount : Tidy (dbs.expiresCount now i) := (tidy_db dbs i).bind fun _ _ => trivial

theorem tidy_randomKey (nanos : ℕ) : Tidy (dbs.randomKey now nanos i) :=
  (tidy_db dbs i).bind fun _ _ => trivial

theorem tidy_keys (pattern : String) : Tidy (dbs.keys now i pattern) :=
  (tidy_db dbs i).bind fun _ _ => trivial

theorem okOr_getType :
    OkOr VeloDBError.OneLine (fun t => '\r' ∉ (t.getD "none").toList) (dbs.getType now i k) := by
  refine (tidy_entry now dbs i k).bind fun e _ => ?_
  cases e with
  | none => exact (show '\r' ∉ "none".toList by decide)
  | some e =>
    show '\r' ∉ e.value.typeName.toList
    cases e.value <;> simp [StorageValue.typeName]

theorem tidy_getSet : Tidy (dbs.getSet now i k) := tidy_readAs ..

theorem tidy_sinterLoop (ks result : List Bytes) : Tidy (dbs.sinterLoop now i ks result) := by
  induction ks generalizing result with
  | nil => trivial
  | cons k ks ih =>
    refine (tidy_getSet now dbs i k).bind fun s _ => ?_
    cases s with
    | none => trivial
    | some s => exact ih _

theorem tidy_sinter (ks : List Bytes) : Tidy (dbs.sinter now i ks) := by
  cases ks with
  | nil => trivial
  | cons k ks =>
    refine (tidy_getSet now dbs i k).bind fun s _ => ?_
    cases s with
    | none => trivial
    | some s => exact tidy_sinterLoop now dbs i ks _

theorem tidy_sunionLoop (ks : List Bytes) (result : HashSet Bytes) :
    Tidy (dbs.sunionLoop now i ks result) := by
  induction ks generalizing result with
  | nil => trivial
  | cons k ks ih =>
    refine (tidy_getSet now dbs i k).bind fun s _ => ?_
    cases s with
    | none => exact ih _
    | some s => exact ih _

theorem tidy_sdiffLoop (ks result : List Bytes) : Tidy (dbs.sdiffLoop now i ks result) := by
  induction ks generalizing result with
  | nil => trivial
  | cons k ks ih =>
    refine (tidy_getSet now dbs i k).bind fun s _ => ?_
    cases s with
    | none => exact ih _
    | some s => exact ih _

theorem tidy_sdiff (ks : List Bytes) : Tidy (dbs.sdiff now i ks) := by
  cases ks with
  | nil => trivial
  | cons k ks => exact (tidy_getSet now dbs i k).bind fun _ _ => tidy_sdiffLoop now dbs i ks _

theorem tidy_streamEntries : Tidy (dbs.streamEntries now i k) := tidy_readAs ..

theorem tidy_xrange (start stop : Bytes) (count : Option ℕ) :
    Tidy (dbs.xrange now i k start stop count) :=
  (tidy_streamEntries now dbs i k).bind fun _ _ => trivial

theorem tidy_xrevrange (stop start : Bytes) (count : Option ℕ) :
    Tidy (dbs.xrevrange now i k stop start count) :=
  (tidy_streamEntries now dbs i k).bind fun _ _ => trivial

theorem tidy_streamEntriesAfter (after : StreamId) (count : Option ℕ) :
    Tidy (dbs.streamEntriesAfter now i k after count) :=
  (tidy_streamEntries now dbs i k).bind fun _ _ => trivial

theorem tidy_xread (count : Option ℕ) (ks : List Bytes) (ids : List StreamId) :
    Tidy (dbs.xread now i count ks ids) := by
  induction ks generalizing ids with
  | nil => trivial
  | cons k ks ih =>
    exact (tidy_streamEntriesAfter now dbs i k _ count).bind fun _ _ =>
      (ih _).bind fun _ _ => trivial

theorem tidy_generateStreamId (idStr : Bytes) : Tidy (dbs.generateStreamId now i k idStr) := by
  have hnotInteger : VeloDBError.notInteger.OneLine := by decide
  have hsmall : VeloDBError.streamIdTooSmall.OneLine := by decide
  rw [Databases.generateStreamId]
  split
  · split <;> trivial
  split
  · exact hnotInteger
  split
  · exact hnotInteger
  split
  · split
    · trivial
    · split <;> trivial
  split
  · exact hnotInteger
  split
  · exact hsmall
  · trivial

end Reading

/-! ### Steps of a handler -/

section Steps

variable {fault : Prop}

theorem reads_ofResult {α : Type} {Q : α → Prop} {x : Except VeloDBError α}
    (h : OkOr VeloDBError.OneLine Q x) : OkOr (Blames fault) Q (ofResult x) := by
  cases x with
  | error e => exact h
  | ok a => exact h

theorem reads_arg {args : List Bytes} {n : ℕ} (h : args.length ≤ n → fault) :
    Reads fault (arg args n) := by
  rw [arg]
  split
  · trivial
  · next hnone => exact h (List.getElem?_eq_none_iff.mp hnone)

theorem reads_argsFrom {args : List Bytes} {n : ℕ} (h : args.length < n → fault) :
    Reads fault (argsFrom args n) := by
  rw [argsFrom]
  split
  · next hlt => exact h hlt
  · trivial

theorem reads_orError {α : Type} {o : Option α} {e : VeloDBError} (h : e.OneLine) :
    Reads fault (orError o e) := by
  cases o with
  | none => exact h
  | some a => trivial

theorem does_lift {σ α : Type} {Q : α → Prop} {x : Except Failure α} (h : OkOr (Blames fault) Q x) :
    Proc.Delivers (Blames fault) Q (lift x : Proc σ Failure α) := fun _ => h

/-- An argument that a handler indexes. -/
theorem reads_index {α : Type} {Q : α → Prop} {args : List Bytes} {n m : ℕ} (h : n < m)
    {f : Bytes → Except Failure α} (hf : ∀ a, OkOr (Blames (args.length < m)) Q (f a)) :
    OkOr (Blames (args.length < m)) Q (arg args n >>= f) :=
  (reads_arg fun hle => Nat.lt_of_le_of_lt hle h).bind fun a _ => hf a

theorem does_index {σ α : Type} {Q : α → Prop} {args : List Bytes} {n m : ℕ} (h : n < m)
    {f : Bytes → Proc σ Failure α} (hf : ∀ a, Proc.Delivers (Blames (args.length < m)) Q (f a)) :
    Proc.Delivers (Blames (args.length < m)) Q (lift (arg args n) >>= f) :=
  (does_lift (reads_arg fun hle => Nat.lt_of_le_of_lt hle h)).bind fun a _ => hf a

/-- The arguments behind one that a handler indexes. -/
theorem does_rest {σ α : Type} {Q : α → Prop} {args : List Bytes} {n m : ℕ} (h : n ≤ m)
    {f : List Bytes → Proc σ Failure α} (hf : ∀ l, Proc.Delivers (Blames (args.length < m)) Q (f l)) :
    Proc.Delivers (Blames (args.length < m)) Q (lift (argsFrom args n) >>= f) :=
  (does_lift (reads_argsFrom fun hlt => Nat.lt_of_lt_of_le hlt h)).bind fun l _ => hf l

theorem does_read {α : Type} {Q : α → Prop} {f : Databases → Except VeloDBError α}
    (h : ∀ dbs, OkOr VeloDBError.OneLine Q (f dbs)) :
    Proc.Delivers (Blames fault) Q (Keyspace.read f) := fun s => reads_ofResult (h s.databases)

theorem does_throw {α : Type} {Q : α → Prop} {e : VeloDBError} (h : e.OneLine) :
    Proc.Delivers (Blames fault) Q (Keyspace.throw e : KeyM α) := fun _ => h

/-- A step, and a reply. -/
theorem does_reply {σ α : Type} {m : Proc σ Failure α} {g : α → RespValue} (hm : Does fault m)
    (hg : ∀ a, NoCR (g a)) : Replies fault (m >>= fun a => pure (g a)) :=
  hm.bind fun a _ => delivers_pure (hg a)

section Methods

variable {α β : Type} (kind : Kind α) (now : UInt64) (i : ℕ) (k : Bytes)
  {f : α → Except Failure β × α}

theorem does_changeAs (e : Entry) (hf : ∀ a, Reads fault (f a).1) :
    Does fault (Keyspace.changeAs kind i k e f) := by
  rw [Keyspace.changeAs]
  cases kind.unwrap e.value with
  | none => exact does_throw (by decide)
  | some a => exact (delivers_modify _).bind fun _ _ => delivers_ofExcept (hf a)

theorem does_updateAs {missing : Except Failure β} (hmissing : Reads fault missing)
    (hf : ∀ a, Reads fault (f a).1) :
    Does fault (Keyspace.updateAs kind now i k missing f) := by
  refine (does_read fun dbs => tidy_entry now dbs i k).bind fun e _ => ?_
  cases e with
  | none => exact delivers_ofExcept hmissing
  | some e => exact does_changeAs kind i k e hf

theorem does_upsertAs {fresh : α} (hf : ∀ a, Reads fault (f a).1) :
    Does fault (Keyspace.upsertAs kind i k fresh f) :=
  (does_read fun dbs => tidy_db dbs i).bind fun _ _ => does_changeAs kind i k _ hf

end Methods

variable (now : UInt64) (i : ℕ) (k : Bytes)

theorem does_set (v : Bytes) (at_ : Option UInt64) : Does fault (Keyspace.set i k v at_) :=
  (does_read fun dbs => tidy_db dbs i).bind fun _ _ => delivers_modify _

theorem does_del : Does fault (Keyspace.del i k) :=
  (does_read fun dbs => tidy_db dbs i).bind fun _ _ =>
    (delivers_modify _).bind fun _ _ => delivers_pure trivial

theorem does_changeExpire (at_ : Option UInt64) : Does fault (Keyspace.changeExpire i k at_) := by
  refine (does_read fun dbs => tidy_db dbs i).bind fun d _ => ?_
  cases d.lookup k with
  | none => exact delivers_pure trivial
  | some e => exact (delivers_modify _).bind fun _ _ => delivers_pure trivial

theorem does_rename (new : Bytes) : Does fault (Keyspace.rename i k new) := by
  refine (does_read fun dbs => tidy_db dbs i).bind fun d _ => ?_
  cases d.lookup k with
  | none => exact does_throw (by decide)
  | some e => exact (delivers_modify _).bind fun _ _ => delivers_modify _

theorem does_dbsize : Does fault (Keyspace.dbsize now i) :=
  (does_read fun dbs => tidy_db dbs i).bind fun _ _ =>
    (delivers_each fun _ => delivers_modify _).bind fun _ _ => delivers_pure trivial

theorem does_flushdb : Does fault (Keyspace.flushdb i) :=
  (does_read fun dbs => tidy_db dbs i).bind fun _ _ => delivers_modify _

/-- Creating or changing a value, and then notifying who waits for it. -/
theorem does_push {α β : Type} (kind : Kind α) {fresh : α} {f : α → Except Failure β × α}
    (hf : ∀ a, Reads fault (f a).1) :
    Does fault (Keyspace.upsertAs kind i k fresh f >>= fun b =>
      Keyspace.notify k >>= fun _ => pure b) :=
  (does_upsertAs kind i k hf).bind fun _ _ =>
    (delivers_modify _).bind fun _ _ => delivers_pure trivial

theorem does_xadd (idStr : Bytes) (fields : List (Bytes × Bytes)) (maxlen : Option ℕ) :
    Does fault (Keyspace.xadd now i k idStr fields maxlen) := by
  refine (does_read fun dbs => tidy_generateStreamId now dbs i k idStr).bind fun id _ => ?_
  refine (does_read (Q := Whatever) fun dbs => show OkOr _ _ (.ok _) from trivial).bind
    fun last _ => ?_
  cases last with
  | none => exact does_push i k .stream fun _ => trivial
  | some last =>
    dsimp only
    split
    · exact does_push i k .stream fun _ => trivial
    · exact does_throw (by decide)

end Steps

end VeloDB
