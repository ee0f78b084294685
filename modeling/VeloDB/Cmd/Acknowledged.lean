import VeloDB.Cmd.Purged

/-!
# Writes to containers

The eight methods that create the container they write to take whatever is stored at the key,
expired or not. As long as nothing expired is there, what they write can be read at once, and a key
that is not there is created. An entry that has expired but is still there is reused with its
contents and its expiry: the write is answered, and cannot be read.

## Main results

* `UpsertsAt.reads`, `UpsertsAt.not_alike` — a write without and with an expired entry at its key
* `acknowledged_iff` — when a write can be read and starts from nothing
-/

namespace VeloDB

open Rust

/-! ### Entries that have expired -/

/-- An entry that has expired is still stored at the key. -/
def Stale (now : UInt64) (dbs : Databases) (i : ℕ) (k : Bytes) : Prop :=
  ∃ e, dbs.find i k = some e ∧ e.expired now = true

variable {now : UInt64} {dbs : Databases} {i : ℕ} {k : Bytes}

theorem Stale.lt (h : Stale now dbs i k) : i < dbs.length := by
  obtain ⟨e, he, -⟩ := h
  by_contra hi
  rw [Databases.find, List.getElem?_eq_none (Nat.le_of_not_lt hi)] at he
  cases he

theorem Stale.liveEntry (h : Stale now dbs i k) : dbs.liveEntry now i k = none := by
  obtain ⟨e, he, hexpired⟩ := h
  rw [Databases.liveEntry, he, Option.filter_some, hexpired]
  rfl

/-- A key that is not live and has nothing expired is not there. -/
theorem find_eq_none (hlive : dbs.liveEntry now i k = none) (h : ¬Stale now dbs i k) :
    dbs.find i k = none := by
  cases hfind : dbs.find i k with
  | none => rfl
  | some e =>
    cases hexpired : e.expired now with
    | true => exact absurd ⟨e, hfind, hexpired⟩ h
    | false =>
      rw [Databases.liveEntry, hfind, Option.filter_some, hexpired] at hlive
      cases hlive

/-- Removing a key that is not there. -/
theorem remove_eq_self (h : dbs.find i k = none) : dbs.remove i k = dbs := by
  by_cases hi : i < dbs.length
  · rw [Databases.find, List.getElem?_eq_getElem hi] at h
    have hnot : k ∉ dbs[i] := AList.lookup_eq_none.mp h
    have herase : dbs[i].erase k = dbs[i] := by
      refine AList.ext ?_
      exact List.kerase_of_notMem_keys hnot
    rw [Databases.remove, List.modify_eq_set_getElem? , List.getElem?_eq_getElem hi]
    show dbs.set i (dbs[i].erase k) = dbs
    rw [herase, List.set_getElem_self]
  · exact List.modify_eq_self (Nat.le_of_not_lt hi)

theorem sameVisible_refl (dbs : Databases) : SameVisible now dbs dbs := ⟨rfl, fun _ _ => rfl⟩

/-! ### Writes that create -/

/-- On this store, the write is an `upsertAs`, up to the form of its reply and to what it
notifies. -/
structure UpsertsAt {α β : Type} (m : KeyM RespValue) (kind : Kind α) (i : ℕ) (k : Bytes) (fresh : α)
    (f : α → Except Failure β × α) (reply : β → RespValue) (s : Keyspace) : Prop where
  result : (m s).1 = (Keyspace.upsertAs kind i k fresh f s).1.map reply
  databases : (m s).2.databases = (Keyspace.upsertAs kind i k fresh f s).2.databases

section Upserts

variable {α β : Type} {m : KeyM RespValue} {kind : Kind α} {fresh : α}
  {f : α → Except Failure β × α} {reply : β → RespValue} {s : Keyspace}

/-- An `upsertAs` and something behind it that neither fails nor changes the databases. -/
theorem upsertsAt_bind {tail : β → KeyM RespValue}
    (h : m = Keyspace.upsertAs kind i k fresh f >>= tail)
    (htail : ∀ b s, (tail b s).1 = .ok (reply b) ∧ (tail b s).2.databases = s.databases) :
    UpsertsAt m kind i k fresh f reply s := by
  rcases hu : Keyspace.upsertAs kind i k fresh f s with ⟨e | b, s'⟩
  · refine ⟨?_, ?_⟩ <;> rw [h, Proc.bind_error hu, hu]
    rfl
  · refine ⟨?_, ?_⟩ <;> rw [h, Proc.bind_ok hu, hu]
    · exact (htail b s').1
    · exact (htail b s').2

/-- **Nothing expired at the key.** What has been written is what a read finds. -/
theorem UpsertsAt.reads (h : UpsertsAt m kind i k fresh f reply s)
    (hstale : ¬Stale now s.databases i k) {r : RespValue} (hr : (m s).1 = .ok r) :
    ∃ a b, kind.unwrap ((s.databases.find i k).getD { value := kind.wrap fresh }).value = some a ∧
      (f a).1 = .ok b ∧ r = reply b ∧
      ∀ {γ : Type} (missing : γ) (g : α → γ),
        (m s).2.databases.readAs kind now i k missing g = .ok (g (f a).2) := by
  rcases Keyspace.upsertAs_cases kind i k fresh f s with ⟨e, hu, -⟩ | ⟨a, hi, ha, hu⟩
  · rw [h.result, hu] at hr
    cases hr
  · have hresult := h.result
    have hdbs := h.databases
    rw [hu] at hresult hdbs
    cases hb : (f a).1 with
    | error e =>
      rw [hr, hb] at hresult
      cases hresult
    | ok b =>
      rw [hr, hb] at hresult
      refine ⟨a, b, ha, hb, Except.ok.inj hresult, fun missing g => ?_⟩
      have hlive :
          ((s.databases.find i k).getD { value := kind.wrap fresh }).expired now = false := by
        cases hfind : s.databases.find i k with
        | none => rfl
        | some e =>
          cases hexpired : e.expired now with
          | true => exact absurd ⟨e, hfind, hexpired⟩ hstale
          | false => exact hexpired
      have hentry : (m s).2.databases.liveEntry now i k
          = some { (s.databases.find i k).getD { value := kind.wrap fresh } with
              value := kind.wrap (f a).2 } := by
        rw [hdbs, liveEntry_put_self hi, Option.filter_some]
        exact if_pos (by rw [Bool.not_eq_true']; exact hlive)
      exact Databases.readAs_some hentry (kind.unwrap_wrap _) missing g

/-- **An expired entry at the key.** The write does not do what it does on an absent key. -/
theorem UpsertsAt.not_alike {notified : List Bytes}
    (h : UpsertsAt m kind i k fresh f reply ⟨dbs, notified⟩)
    (h' : UpsertsAt m kind i k fresh f reply ⟨dbs.remove i k, notified⟩)
    (hstale : Stale now dbs i k) {b : β} (hb : (f fresh).1 = .ok b) :
    ¬AlikeOn now m ⟨dbs, notified⟩ ⟨dbs.remove i k, notified⟩ := by
  rintro ⟨hsame, hvisible⟩
  have hi : i < (dbs.remove i k).length := by
    rw [Databases.length_remove]
    exact hstale.lt
  have hnew := Keyspace.upsertAs_new kind hi Databases.find_remove_self fresh f notified
  have hresult := h'.result
  have hdbs' := h'.databases
  rw [hnew] at hresult hdbs'
  rw [h.result, hresult, hb] at hsame
  have hlive := hvisible.live i k
  rw [h.databases, hdbs', liveEntry_put_self hi] at hlive
  rcases Keyspace.upsertAs_cases kind i k fresh f ⟨dbs, notified⟩ with ⟨e, hu, -⟩ | ⟨a, -, -, hu⟩
  · rw [hu] at hsame
    cases hsame
  · -- the new value has the old expiry
    obtain ⟨e, he, hexpired⟩ := hstale
    have hnone : (dbs.put i k { e with value := kind.wrap (f a).2 }).liveEntry now i k = none := by
      rw [liveEntry_put_self (Stale.lt ⟨e, he, hexpired⟩), Option.filter_some]
      exact if_neg (by rw [Bool.not_eq_true', Bool.not_eq_false]; exact hexpired)
    rw [hu] at hlive
    dsimp only at hlive
    rw [he, Option.getD_some, hnone] at hlive
    cases hlive

end Upserts

/-! ### The eight writes -/

/-- A write to a container, with its arguments. -/
inductive ContainerWrite
  | lpush (values : List Bytes)
  | rpush (values : List Bytes)
  | sadd (members : List Bytes)
  | hset (pairs : List (Bytes × Bytes))
  | hincrby (field : Bytes) (increment : Int64)
  | zadd (items : List (F64 × Bytes))
  | xadd (id : Bytes) (fields : List (Bytes × Bytes)) (maxlen : Option ℕ)
  | nhset (field subfield value : Bytes)

namespace ContainerWrite

/-- Execute a write. The reply is the one of its command. -/
def run (now : UInt64) (i : ℕ) (k : Bytes) : ContainerWrite → KeyM RespValue
  | lpush values => Keyspace.lpush i k values >>= fun n => pure (.count n)
  | rpush values => Keyspace.rpush i k values >>= fun n => pure (.count n)
  | sadd members => Keyspace.sadd i k members >>= fun n => pure (.count n)
  | hset pairs => Keyspace.hset i k pairs >>= fun n => pure (.count n)
  | hincrby field increment => Keyspace.hincrby i k field increment >>= fun v => pure (.integer v)
  | zadd items => Keyspace.zadd i k items >>= fun n => pure (.count n)
  | xadd id fields maxlen => Keyspace.xadd now i k id fields maxlen >>= fun gid => pure (.bulk gid)
  | nhset field subfield value =>
    Keyspace.nhset i k field subfield value >>= fun n => pure (.count n)

/-- What has been written is what the corresponding read finds; of several values for one field, the
last. -/
def Seen (now : UInt64) (i : ℕ) (k : Bytes) (reply : RespValue) (dbs : Databases) :
    ContainerWrite → Prop
  | lpush values => ∃ l, dbs.lrange now i k 0 (-1) = .ok l ∧ values <+: l
  | rpush values => ∃ l, dbs.lrange now i k 0 (-1) = .ok l ∧ values <:+ l
  | sadd members => ∀ x ∈ members, dbs.sismember now i k x = .ok true
  | hset pairs => ∀ before p after, pairs = before ++ p :: after → p.1 ∉ after.map Prod.fst →
      dbs.hget now i k p.1 = .ok (some p.2)
  | hincrby field _ => ∃ v, reply = .integer v ∧ dbs.hget now i k field = .ok (some (i64Bytes v))
  | zadd items => ∀ before p after, items = before ++ p :: after → p.2 ∉ after.map Prod.snd →
      dbs.zscore now i k p.2 = .ok (some p.1)
  | xadd _ fields _ => ∃ es, dbs.xrange now i k (asBytes "-") (asBytes "+") none = .ok es ∧
      ∃ e ∈ es, reply = .bulk (formatId e.id) ∧ e.fields = fields
  | nhset field subfield value => dbs.nhget now i k field subfield = .ok (some value)

/-- A write that is answered can be read, and one to a key that is not live does what it does when
the key is absent. -/
def Acknowledged (now : UInt64) (dbs : Databases) (i : ℕ) (k : Bytes) (w : ContainerWrite) : Prop :=
  ∀ notified,
    (∀ reply, (w.run now i k ⟨dbs, notified⟩).1 = .ok reply →
      w.Seen now i k reply (w.run now i k ⟨dbs, notified⟩).2.databases) ∧
    (dbs.liveEntry now i k = none →
      AlikeOn now (w.run now i k) ⟨dbs, notified⟩ ⟨dbs.remove i k, notified⟩)

/-- `XADD` comes as far as adding an entry. -/
structure Adds (now : UInt64) (dbs : Databases) (i : ℕ) (k idStr : Bytes) (id : StreamId) :
    Prop where
  inRange : i < dbs.length
  stream : ∀ e, dbs.liveEntry now i k = some e → (Kind.stream.unwrap e.value).isSome = true
  generated : dbs.generateStreamId now i k idStr = .ok id
  after : ∀ last, dbs.streamLastId? now i k = some last → idAfter id last = true

/-- Nothing expired is in the way, and `XADD` does not trim its own entry. -/
def Safe (now : UInt64) (dbs : Databases) (i : ℕ) (k : Bytes) : ContainerWrite → Prop
  | xadd idStr _ maxlen =>
    ∀ id, Adds now dbs i k idStr id → ¬Stale now dbs i k ∧ maxlen ≠ some 0
  | _ => ¬Stale now dbs i k

/-- The list that is stored at a key, if there is one. -/
def storedList (dbs : Databases) (i : ℕ) (k : Bytes) : List Bytes :=
  ((dbs.find i k).bind fun e => Kind.list.unwrap e.value).getD []

/-- A list has at most as many elements as memory can hold. -/
def Fits (dbs : Databases) (i : ℕ) (k : Bytes) : ContainerWrite → Prop
  | lpush values | rpush values => (storedList dbs i k).length + values.length < 2 ^ 63
  | _ => True

end ContainerWrite

/-! ### What the writes write -/

theorem foldl_push_front (values l : List Bytes) :
    values.reverse.foldl (fun l v => v :: l) l = values ++ l := by
  simp

theorem foldl_push_back (values l : List Bytes) :
    values.foldl (fun l v => l ++ [v]) l = l ++ values := by
  simp [List.foldl_append_eq_append, ← List.flatMap_def]

theorem lookup_foldl_insert {members : List Bytes} {x : Bytes} {s : HashSet Bytes}
    (hx : x ∈ members ∨ (s.lookup x).isSome = true) :
    ((members.foldl (fun s m => s.insert m ()) s : HashSet Bytes).lookup x).isSome = true := by
  induction members generalizing s with
  | nil => exact hx.resolve_left List.not_mem_nil
  | cons m members ih =>
    refine ih ?_
    rcases eq_or_ne x m with rfl | hne
    · rw [AList.lookup_insert]
      exact Or.inr rfl
    · rw [AList.lookup_insert_ne hne]
      exact hx.imp_left fun h => (List.mem_cons.mp h).resolve_left hne

theorem zaddOne_fst (r : ℕ × HashMap Bytes F64 × Scores) (item : F64 × Bytes) :
    (zaddOne r item).2.1 = r.2.1.insert item.2 item.1 := by
  obtain ⟨added, members, scores⟩ := r
  obtain ⟨score, member⟩ := item
  simp only [zaddOne]
  split <;> rfl

theorem foldl_zaddOne_fst (items : List (F64 × Bytes)) (r : ℕ × HashMap Bytes F64 × Scores) :
    (items.foldl zaddOne r).2.1 = r.2.1.insertAll (items.map Prod.swap) := by
  induction items generalizing r with
  | nil => rfl
  | cons item items ih =>
    rw [List.foldl_cons, ih, zaddOne_fst]
    rfl

theorem le_maxId (a : UInt64) : a ≤ UInt64.ofNat (2 ^ 64 - 1) := by
  have := a.toNat_lt
  rw [UInt64.le_iff_toNat_le, UInt64.toNat_ofNat']
  omega

theorem idNotBefore_zero (a : StreamId) : idNotBefore a (0, 0) = true := by
  rw [idNotBefore, Bool.or_eq_true, decide_eq_true_eq, Bool.and_eq_true, beq_iff_eq,
    decide_eq_true_eq]
  rcases eq_or_ne a.1 0 with h | h
  · exact Or.inr ⟨h, UInt64.zero_le⟩
  · exact Or.inl (UInt64.pos_iff_ne_zero.mpr h)

theorem idNotBefore_max (a : StreamId) :
    idNotBefore (UInt64.ofNat (2 ^ 64 - 1), UInt64.ofNat (2 ^ 64 - 1)) a = true := by
  rw [idNotBefore, Bool.or_eq_true, decide_eq_true_eq, Bool.and_eq_true, beq_iff_eq,
    decide_eq_true_eq]
  rcases eq_or_ne (UInt64.ofNat (2 ^ 64 - 1)) a.1 with h | h
  · exact Or.inr ⟨h, le_maxId a.2⟩
  · exact Or.inl (UInt64.lt_of_le_of_ne (le_maxId a.1) h.symm)

/-- The range from `-` to `+` is the stream. -/
theorem xrange_all {es : List StreamEntry} (h : dbs.streamEntries now i k = .ok es) :
    dbs.xrange now i k (asBytes "-") (asBytes "+") none = .ok es := by
  have hstart : parseStreamId (asBytes "-") true = (0, 0) := by decide +kernel
  have hstop : parseStreamId (asBytes "+") false
      = (UInt64.ofNat (2 ^ 64 - 1), UInt64.ofNat (2 ^ 64 - 1)) := by decide +kernel
  rw [Databases.xrange, h]
  show Except.ok _ = _
  rw [hstart, hstop, List.filter_eq_self.mpr fun x _ => by
    rw [idNotBefore_zero, idNotBefore_max]
    rfl]
  rfl

/-! ### Seven of the eight -/

namespace ContainerWrite

/-- Writes that are an `upsertAs` on every store. -/
theorem acknowledged_iff_of_upserts {α β : Type} {w : ContainerWrite} {kind : Kind α} {fresh : α}
    {f : α → Except Failure β × α} {reply : β → RespValue}
    (h : ∀ s, UpsertsAt (w.run now i k) kind i k fresh f reply s) (hfresh : ∃ b, (f fresh).1 = .ok b)
    (hseen : ∀ a b (dbs' : Databases),
      kind.unwrap ((dbs.find i k).getD { value := kind.wrap fresh }).value = some a →
      (f a).1 = .ok b →
      (∀ {γ : Type} (missing : γ) (g : α → γ),
        dbs'.readAs kind now i k missing g = .ok (g (f a).2)) →
      w.Seen now i k (reply b) dbs') :
    w.Acknowledged now dbs i k ↔ ¬Stale now dbs i k := by
  constructor
  · intro hack hstale
    obtain ⟨b, hb⟩ := hfresh
    exact (h _).not_alike (h _) hstale hb ((hack []).2 hstale.liveEntry)
  · intro hstale notified
    refine ⟨fun r hr => ?_, fun hlive => ?_⟩
    · obtain ⟨a, b, ha, hb, rfl, hread⟩ := (h ⟨dbs, notified⟩).reads hstale hr
      exact hseen a b _ ha hb hread
    · rw [remove_eq_self (find_eq_none hlive hstale)]
      exact ⟨rfl, sameVisible_refl _⟩

theorem storedList_eq {l : List Bytes}
    (h : Kind.list.unwrap ((dbs.find i k).getD { value := Kind.list.wrap [] }).value = some l) :
    storedList dbs i k = l := by
  rw [storedList]
  cases hfind : dbs.find i k with
  | none =>
    rw [hfind] at h
    exact Option.some.inj h
  | some e =>
    rw [hfind] at h
    show (Kind.list.unwrap e.value).getD [] = l
    rw [show Kind.list.unwrap e.value = some l from h]
    rfl

theorem acknowledged_lpush {values : List Bytes} (hfits : (lpush values).Fits dbs i k) :
    (lpush values).Acknowledged now dbs i k ↔ ¬Stale now dbs i k := by
  let f := fun l : List Bytes =>
    let l' := values.reverse.foldl (fun l v => v :: l) l
    ((.ok l'.length, l') : Except Failure ℕ × List Bytes)
  have hrun : run now i k (lpush values) = Keyspace.upsertAs .list i k [] f >>= fun n =>
      Keyspace.notify k >>= fun _ => pure (.count n) := by
    rw [run, Keyspace.lpush, Proc.bind_assoc]
    rfl
  refine acknowledged_iff_of_upserts (fun s => upsertsAt_bind hrun fun _ _ => ⟨rfl, rfl⟩)
    ⟨_, rfl⟩ ?_
  intro l b dbs' hl _ hread
  have hlen : (values ++ l).length < 2 ^ 63 := by
    have hstored : (storedList dbs i k).length + values.length < 2 ^ 63 := hfits
    rw [storedList_eq hl] at hstored
    rw [List.length_append]
    omega
  have hfold : (f l).2 = values ++ l := foldl_push_front values l
  refine ⟨values ++ l, ?_, List.prefix_append _ _⟩
  rw [Databases.lrange, hread, hfold, listRange_all hlen]

theorem acknowledged_rpush {values : List Bytes} (hfits : (rpush values).Fits dbs i k) :
    (rpush values).Acknowledged now dbs i k ↔ ¬Stale now dbs i k := by
  let f := fun l : List Bytes =>
    let l' := values.foldl (fun l v => l ++ [v]) l
    ((.ok l'.length, l') : Except Failure ℕ × List Bytes)
  have hrun : run now i k (rpush values) = Keyspace.upsertAs .list i k [] f >>= fun n =>
      Keyspace.notify k >>= fun _ => pure (.count n) := by
    rw [run, Keyspace.rpush, Proc.bind_assoc]
    rfl
  refine acknowledged_iff_of_upserts (fun s => upsertsAt_bind hrun fun _ _ => ⟨rfl, rfl⟩)
    ⟨_, rfl⟩ ?_
  intro l b dbs' hl _ hread
  have hlen : (l ++ values).length < 2 ^ 63 := by
    have hstored : (storedList dbs i k).length + values.length < 2 ^ 63 := hfits
    rw [storedList_eq hl] at hstored
    rw [List.length_append]
    omega
  have hfold : (f l).2 = l ++ values := foldl_push_back values l
  refine ⟨l ++ values, ?_, List.suffix_append _ _⟩
  rw [Databases.lrange, hread, hfold, listRange_all hlen]

theorem acknowledged_sadd {members : List Bytes} :
    (sadd members).Acknowledged now dbs i k ↔ ¬Stale now dbs i k := by
  refine acknowledged_iff_of_upserts (fun s => upsertsAt_bind rfl fun _ _ => ⟨rfl, rfl⟩) ⟨_, rfl⟩ ?_
  intro a b dbs' _ _ hread x hx
  have hfold := HashMap.snd_foldl (fun (r : ℕ × HashSet Bytes) m =>
    if (r.2.lookup m).isSome then r.1 else r.1 + 1) (fun s m => s.insert m ()) members (0, a)
  rw [Databases.sismember, hread]
  dsimp only
  rw [hfold, lookup_foldl_insert (Or.inl hx)]

theorem acknowledged_hset {pairs : List (Bytes × Bytes)} :
    (hset pairs).Acknowledged now dbs i k ↔ ¬Stale now dbs i k := by
  refine acknowledged_iff_of_upserts (fun s => upsertsAt_bind rfl fun _ _ => ⟨rfl, rfl⟩) ⟨_, rfl⟩ ?_
  rintro a b dbs' - - hread before p after rfl hlast
  have hfold := HashMap.snd_foldl (fun (r : ℕ × HashMap Bytes Bytes) p =>
    if (r.2.lookup p.1).isSome then r.1 else r.1 + 1) (fun m p => m.insert p.1 p.2)
    (before ++ p :: after) (0, a)
  rw [Databases.hget, hread]
  dsimp only
  rw [hfold]
  exact congrArg Except.ok (HashMap.lookup_insertAll_last hlast)

theorem acknowledged_hincrby {field : Bytes} {increment : Int64} :
    (hincrby field increment).Acknowledged now dbs i k ↔ ¬Stale now dbs i k := by
  refine acknowledged_iff_of_upserts (fun s => upsertsAt_bind rfl fun _ _ => ⟨rfl, rfl⟩)
    ⟨0 + increment, ?_⟩ ?_
  · dsimp only
    split
    · next v hv => exact congrArg Except.ok (Option.some.inj (hv.symm.trans (checkedAdd_zero _)))
    · next hv => cases (checkedAdd_zero increment).symm.trans hv
  · intro a b dbs' _ hb hread
    have hread' := hread none fun m => m.lookup field
    dsimp only at hb hread'
    split at hb
    · next v hv =>
      obtain rfl := Except.ok.inj hb
      rw [hv] at hread'
      refine ⟨v, rfl, hread'.trans ?_⟩
      rw [AList.lookup_insert]
    · cases hb

theorem acknowledged_zadd {items : List (F64 × Bytes)} :
    (zadd items).Acknowledged now dbs i k ↔ ¬Stale now dbs i k := by
  refine acknowledged_iff_of_upserts (fun s => upsertsAt_bind rfl fun _ _ => ⟨rfl, rfl⟩) ⟨_, rfl⟩ ?_
  rintro a b dbs' - - hread before p after rfl hlast
  have hnot : p.2 ∉ (after.map Prod.swap).map Prod.fst := by
    rw [List.map_map]
    exact hlast
  rw [Databases.zscore, hread]
  dsimp only
  rw [foldl_zaddOne_fst, List.map_append, List.map_cons]
  exact congrArg Except.ok (HashMap.lookup_insertAll_last hnot)

theorem acknowledged_nhset {field subfield value : Bytes} :
    (nhset field subfield value).Acknowledged now dbs i k ↔ ¬Stale now dbs i k := by
  refine acknowledged_iff_of_upserts (fun s => upsertsAt_bind rfl fun _ _ => ⟨rfl, rfl⟩) ⟨_, rfl⟩ ?_
  intro a b dbs' _ _ hread
  rw [Seen, Databases.nhget, hread]
  dsimp only
  rw [AList.lookup_insert]
  exact congrArg Except.ok (AList.lookup_insert _)

end ContainerWrite

/-! ### Streams -/

theorem streamLastId?_eq (hi : i < dbs.length) :
    dbs.streamLastId? now i k
      = (dbs.liveEntry now i k).bind fun e => (Kind.stream.unwrap e.value).map Prod.snd := by
  rw [Databases.streamLastId?, Databases.entry_eq hi]
  cases dbs.liveEntry now i k <;> rfl

/-- Ids are generated from the last id of the live stream. -/
theorem generateStreamId_congr {dbs' : Databases}
    (h : dbs.streamLastId? now i k = dbs'.streamLastId? now i k) (idStr : Bytes) :
    dbs.generateStreamId now i k idStr = dbs'.generateStreamId now i k idStr := by
  rw [Databases.generateStreamId, Databases.getStreamLastId, h, Databases.generateStreamId,
    Databases.getStreamLastId]

/-- A key that is not live has no last id, be it removed or not. -/
theorem streamLastId?_remove (hi : i < dbs.length) (hlive : dbs.liveEntry now i k = none) :
    dbs.streamLastId? now i k = none ∧ (dbs.remove i k).streamLastId? now i k = none := by
  have hi' : i < (dbs.remove i k).length := by rwa [Databases.length_remove]
  rw [streamLastId?_eq hi, streamLastId?_eq hi', liveEntry_remove hlive, hlive]
  exact ⟨rfl, rfl⟩

namespace ContainerWrite

/-- What `xadd` does to the value at its key. -/
def addEntry (id : StreamId) (fields : List (Bytes × Bytes)) (maxlen : Option ℕ)
    (s : List StreamEntry × UInt64 × UInt64) :
    Except Failure Bytes × List StreamEntry × UInt64 × UInt64 :=
  let entries := s.1 ++ [{ idMs := id.1, idSeq := id.2, fields }]
  let entries := match maxlen with
    | some max => entries.drop (entries.length - max)
    | none => entries
  (.ok (formatId id), (entries, id.1, id.2))

theorem read_id {idStr : Bytes} {id : StreamId}
    (h : dbs.generateStreamId now i k idStr = .ok id) (notified : List Bytes) :
    Keyspace.read (fun dbs => dbs.generateStreamId now i k idStr) ⟨dbs, notified⟩
      = (.ok id, ⟨dbs, notified⟩) := by
  rw [Keyspace.read, h]
  rfl

theorem read_last (notified : List Bytes) :
    Keyspace.read (fun dbs => .ok (dbs.streamLastId? now i k)) ⟨dbs, notified⟩
      = (.ok (dbs.streamLastId? now i k), ⟨dbs, notified⟩) := rfl

/-- No id. -/
theorem xadd_eq_error {idStr : Bytes} {e : VeloDBError}
    (h : dbs.generateStreamId now i k idStr = .error e) (fields : List (Bytes × Bytes))
    (maxlen : Option ℕ) (notified : List Bytes) :
    Keyspace.xadd now i k idStr fields maxlen ⟨dbs, notified⟩
      = (.error (.error e), ⟨dbs, notified⟩) := by
  have hgen : Keyspace.read (fun dbs => dbs.generateStreamId now i k idStr) ⟨dbs, notified⟩
      = (.error (.error e), ⟨dbs, notified⟩) := by
    rw [Keyspace.read, h]
    rfl
  exact Proc.bind_error hgen

/-- An id that is not after the last one. -/
theorem xadd_eq_tooSmall {idStr : Bytes} {id last : StreamId}
    (h : dbs.generateStreamId now i k idStr = .ok id)
    (hlast : dbs.streamLastId? now i k = some last) (hafter : idAfter id last = false)
    (fields : List (Bytes × Bytes)) (maxlen : Option ℕ) (notified : List Bytes) :
    Keyspace.xadd now i k idStr fields maxlen ⟨dbs, notified⟩
      = (.error (.error .streamIdTooSmall), ⟨dbs, notified⟩) := by
  rw [Keyspace.xadd, Proc.bind_ok (read_id h notified), Proc.bind_ok (read_last notified)]
  simp only [hlast, hafter]
  rfl

/-- An id that is. -/
theorem xadd_eq_upsert {idStr : Bytes} {id : StreamId}
    (h : dbs.generateStreamId now i k idStr = .ok id)
    (hafter : ∀ last, dbs.streamLastId? now i k = some last → idAfter id last = true)
    (fields : List (Bytes × Bytes)) (maxlen : Option ℕ) (notified : List Bytes) :
    Keyspace.xadd now i k idStr fields maxlen ⟨dbs, notified⟩
      = (Keyspace.upsertAs .stream i k ([], 0, 0) (addEntry id fields maxlen) >>= fun gid =>
          Keyspace.notify k >>= fun _ => pure gid) ⟨dbs, notified⟩ := by
  rw [Keyspace.xadd, Proc.bind_ok (read_id h notified), Proc.bind_ok (read_last notified)]
  cases hlast : dbs.streamLastId? now i k with
  | none => rfl
  | some last =>
    simp only [hafter last hlast, if_true]
    rfl

theorem xadd_of_error {idStr : Bytes} {e : VeloDBError}
    (h : dbs.generateStreamId now i k idStr = .error e) (fields : List (Bytes × Bytes))
    (maxlen : Option ℕ) (notified : List Bytes) :
    (xadd idStr fields maxlen).run now i k ⟨dbs, notified⟩
      = (.error (.error e), ⟨dbs, notified⟩) :=
  Proc.bind_error (xadd_eq_error h fields maxlen notified)

theorem xadd_of_not_after {idStr : Bytes} {id last : StreamId}
    (h : dbs.generateStreamId now i k idStr = .ok id)
    (hlast : dbs.streamLastId? now i k = some last) (hafter : idAfter id last = false)
    (fields : List (Bytes × Bytes)) (maxlen : Option ℕ) (notified : List Bytes) :
    (xadd idStr fields maxlen).run now i k ⟨dbs, notified⟩
      = (.error (.error .streamIdTooSmall), ⟨dbs, notified⟩) :=
  Proc.bind_error (xadd_eq_tooSmall h hlast hafter fields maxlen notified)

theorem upsertsAt_xadd {idStr : Bytes} {id : StreamId}
    (h : dbs.generateStreamId now i k idStr = .ok id)
    (hafter : ∀ last, dbs.streamLastId? now i k = some last → idAfter id last = true)
    (fields : List (Bytes × Bytes)) (maxlen : Option ℕ) (notified : List Bytes) :
    UpsertsAt ((xadd idStr fields maxlen).run now i k) .stream i k ([], 0, 0)
      (addEntry id fields maxlen) .bulk ⟨dbs, notified⟩ := by
  have htail : UpsertsAt (Keyspace.upsertAs .stream i k ([], 0, 0) (addEntry id fields maxlen) >>=
      fun gid => Keyspace.notify k >>= fun _ => pure (.bulk gid)) .stream i k ([], 0, 0)
      (addEntry id fields maxlen) .bulk ⟨dbs, notified⟩ :=
    upsertsAt_bind rfl fun _ _ => ⟨rfl, rfl⟩
  have hsame : (xadd idStr fields maxlen).run now i k ⟨dbs, notified⟩
      = (Keyspace.upsertAs .stream i k ([], 0, 0) (addEntry id fields maxlen) >>= fun gid =>
          Keyspace.notify k >>= fun _ => pure (.bulk gid)) ⟨dbs, notified⟩ := by
    show Proc.andThen (Keyspace.xadd now i k idStr fields maxlen) _ ⟨dbs, notified⟩ = _
    rw [Proc.andThen, xadd_eq_upsert h hafter]
    exact congrFun (Proc.bind_assoc _ _ _) _
  exact ⟨hsame ▸ htail.result, hsame ▸ htail.databases⟩

/-- **What `XADD` needs** to add an entry. -/
theorem adds_of_ok {idStr : Bytes} {fields : List (Bytes × Bytes)} {maxlen : Option ℕ}
    {notified : List Bytes} {r : RespValue}
    (h : ((xadd idStr fields maxlen).run now i k ⟨dbs, notified⟩).1 = .ok r) :
    ∃ id, Adds now dbs i k idStr id := by
  cases hgen : dbs.generateStreamId now i k idStr with
  | error e =>
    rw [xadd_of_error hgen] at h
    cases h
  | ok id =>
    have hafter : ∀ last, dbs.streamLastId? now i k = some last → idAfter id last = true := by
      intro last hlast
      cases hnot : idAfter id last with
      | true => rfl
      | false =>
        rw [xadd_of_not_after hgen hlast hnot] at h
        cases h
    have hupserts := upsertsAt_xadd hgen hafter fields maxlen notified
    rw [hupserts.result] at h
    rcases Keyspace.upsertAs_cases .stream i k ([], 0, 0) (addEntry id fields maxlen)
      ⟨dbs, notified⟩ with ⟨e, hu, -⟩ | ⟨a, hi, ha, -⟩
    · rw [hu] at h
      cases h
    · refine ⟨id, hi, fun e he => ?_, hgen, hafter⟩
      have hfind : dbs.find i k = some e := (Option.filter_eq_some_iff.mp he).1
      rw [hfind] at ha
      exact Option.isSome_iff_exists.mpr ⟨a, ha⟩

/-- The new entry is the last one, and stays unless everything is trimmed. -/
theorem mem_addEntry (id : StreamId) (fields : List (Bytes × Bytes)) {maxlen : Option ℕ}
    (hmax : maxlen ≠ some 0) (s : List StreamEntry × UInt64 × UInt64) :
    { idMs := id.1, idSeq := id.2, fields } ∈ (addEntry id fields maxlen s).2.1 := by
  cases maxlen with
  | none => exact List.mem_append_right _ (List.mem_singleton.mpr rfl)
  | some max =>
    have hpos : 0 < max := Nat.pos_of_ne_zero fun h => hmax (congrArg some h)
    let e : StreamEntry := { idMs := id.1, idSeq := id.2, fields }
    have hdrop : (s.1 ++ [e]).length - max ≤ s.1.length := by
      rw [List.length_append, List.length_singleton]
      omega
    show e ∈ (s.1 ++ [e]).drop ((s.1 ++ [e]).length - max)
    rw [List.drop_append_of_le_length hdrop]
    exact List.mem_append_right _ (List.mem_singleton.mpr rfl)

/-- `XADD` answers when it comes as far as adding an entry. -/
theorem xadd_of_adds {idStr : Bytes} {id : StreamId} (h : Adds now dbs i k idStr id)
    (hstale : ¬Stale now dbs i k) (fields : List (Bytes × Bytes)) (maxlen : Option ℕ)
    (notified : List Bytes) :
    ((xadd idStr fields maxlen).run now i k ⟨dbs, notified⟩).1 = .ok (.bulk (formatId id)) := by
  have hunwrap : ∃ a, Kind.stream.unwrap
      ((dbs.find i k).getD { value := Kind.stream.wrap ([], 0, 0) }).value = some a := by
    cases hfind : dbs.find i k with
    | none => exact ⟨([], 0, 0), rfl⟩
    | some e =>
      have hlive : dbs.liveEntry now i k = some e := by
        rw [Databases.liveEntry, hfind, Option.filter_some]
        refine if_pos ?_
        rw [Bool.not_eq_true']
        exact Bool.eq_false_iff.mpr fun hexpired => hstale ⟨e, hfind, hexpired⟩
      exact Option.isSome_iff_exists.mp (h.stream e hlive)
  obtain ⟨a, ha⟩ := hunwrap
  rw [(upsertsAt_xadd h.generated h.after fields maxlen notified).result,
    Keyspace.upsertAs_run .stream h.inRange ha]
  rfl

theorem acknowledged_xadd {idStr : Bytes} {fields : List (Bytes × Bytes)} {maxlen : Option ℕ} :
    (xadd idStr fields maxlen).Acknowledged now dbs i k
      ↔ (xadd idStr fields maxlen).Safe now dbs i k := by
  constructor
  · intro hack id hadds
    have hstale : ¬Stale now dbs i k := by
      intro hstale
      obtain ⟨hlast, hlast'⟩ := streamLastId?_remove hadds.inRange hstale.liveEntry
      have hgen := generateStreamId_congr (hlast'.trans hlast.symm) idStr
      have hupserts := upsertsAt_xadd hadds.generated hadds.after fields maxlen []
      have hupserts' := upsertsAt_xadd (hgen.trans hadds.generated)
        (fun last h => by cases hlast'.symm.trans h) fields maxlen []
      exact hupserts.not_alike hupserts' hstale rfl ((hack []).2 hstale.liveEntry)
    refine ⟨hstale, ?_⟩
    rintro rfl
    -- the entry is trimmed at once
    have hr := xadd_of_adds hadds hstale fields (some 0) []
    obtain ⟨es, hes, e, he, -⟩ := (hack []).1 _ hr
    obtain ⟨a, -, -, -, -, hread⟩ :=
      (upsertsAt_xadd hadds.generated hadds.after fields (some 0) []).reads hstale hr
    have hnil : (addEntry id fields (some 0) a).2.1 = [] := List.drop_length
    have hentries := hread [] Prod.fst
    rw [hnil] at hentries
    rw [xrange_all hentries] at hes
    rw [← Except.ok.inj hes] at he
    cases he
  · intro hsafe notified
    refine ⟨fun r hr => ?_, fun hlive => ?_⟩
    · obtain ⟨id, hadds⟩ := adds_of_ok hr
      obtain ⟨hstale, hmax⟩ := hsafe id hadds
      obtain ⟨a, b, -, hb, rfl, hread⟩ :=
        (upsertsAt_xadd hadds.generated hadds.after fields maxlen notified).reads hstale hr
      obtain rfl := Except.ok.inj hb
      exact ⟨_, xrange_all (hread [] Prod.fst), _, mem_addEntry id fields hmax a, rfl, rfl⟩
    · by_cases hstale : Stale now dbs i k
      · -- an id that is refused is refused on both stores
        obtain ⟨hlast, hlast'⟩ := streamLastId?_remove hstale.lt hlive
        have hgen := generateStreamId_congr (hlast'.trans hlast.symm) idStr
        cases hid : dbs.generateStreamId now i k idStr with
        | error e =>
          rw [AlikeOn, xadd_of_error hid, xadd_of_error (hgen.trans hid)]
          refine ⟨rfl, Databases.length_remove.symm, fun j k' => ?_⟩
          rw [liveEntry_remove hlive]
        | ok id =>
          have hadds : Adds now dbs i k idStr id :=
            ⟨hstale.lt, fun e he => (by cases hlive.symm.trans he), hid,
              fun last h => by cases hlast.symm.trans h⟩
          exact absurd hstale (hsafe id hadds).1
      · rw [remove_eq_self (find_eq_none hlive hstale)]
        exact ⟨rfl, sameVisible_refl _⟩

end ContainerWrite

/-- **When a write can be read** and starts from nothing. -/
theorem acknowledged_iff (now : UInt64) (dbs : Databases) (i : ℕ) (k : Bytes) (w : ContainerWrite)
    (hfits : w.Fits dbs i k) : w.Acknowledged now dbs i k ↔ w.Safe now dbs i k := by
  cases w with
  | lpush values => exact ContainerWrite.acknowledged_lpush hfits
  | rpush values => exact ContainerWrite.acknowledged_rpush hfits
  | sadd members => exact ContainerWrite.acknowledged_sadd
  | hset pairs => exact ContainerWrite.acknowledged_hset
  | hincrby field increment => exact ContainerWrite.acknowledged_hincrby
  | zadd items => exact ContainerWrite.acknowledged_zadd
  | xadd id fields maxlen => exact ContainerWrite.acknowledged_xadd
  | nhset field subfield value => exact ContainerWrite.acknowledged_nhset

/-- A push to the list before it expires. -/
theorem acknowledged_iff_live : (ContainerWrite.rpush [[50]]).Acknowledged 2 staleList 0 [97] :=
  (acknowledged_iff 2 staleList 0 [97] (.rpush [[50]]) (by
    show (ContainerWrite.storedList staleList 0 [97]).length + 1 < 2 ^ 63
    decide +kernel)).mpr (by
      rintro ⟨e, he, hexpired⟩
      obtain rfl := Option.some.inj (he.symm.trans rfl)
      exact absurd hexpired (by decide))

/-- A push to a list that has expired is answered with the length of both, and the list stays
invisible; a set that is added to it is answered with `WRONGTYPE`. -/
theorem push_to_expired :
    ((ContainerWrite.rpush [[50]]).run 5 0 [97] ⟨staleList, []⟩).1 = .ok (.count 2) ∧
      ((ContainerWrite.rpush [[50]]).run 5 0 [97] ⟨staleList, []⟩).2.databases.lrange 5 0 [97] 0 (-1)
        = .ok [] ∧
      ((ContainerWrite.sadd [[50]]).run 5 0 [97] ⟨staleList, []⟩).1 = .error (.error .wrongType) ∧
      ¬(ContainerWrite.rpush [[50]]).Acknowledged 5 staleList 0 [97] := by
  have hreply : ((ContainerWrite.rpush [[50]]).run 5 0 [97] ⟨staleList, []⟩).1
      = .ok (.count 2) := rfl
  have hread : ((ContainerWrite.rpush [[50]]).run 5 0 [97]
      ⟨staleList, []⟩).2.databases.lrange 5 0 [97] 0 (-1) = .ok [] := by decide +kernel
  refine ⟨hreply, hread, rfl, fun hack => ?_⟩
  obtain ⟨l, hl, hsuffix⟩ := (hack []).1 _ hreply
  rw [hread] at hl
  rw [← Except.ok.inj hl] at hsuffix
  exact absurd (List.suffix_nil.mp hsuffix) (List.cons_ne_nil _ _)

end VeloDB
