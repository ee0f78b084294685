import VeloDB.Lib.Footprint
import VeloDB.Store.Sets
import VeloDB.Store.Streams
import VeloDB.Store.Zsets
import VeloDB.Store.Lists
import VeloDB.Store.Hashes

/-!
# The keys a method works on

The cells of the store are the keys of its databases; the frame is how many databases there are. A
method that is given a key is local to that key. Everything a method learns about a key it learns
from `entry` or from one lookup in the database, so both are dealt with once.
-/

namespace VeloDB

open Rust Proc

/-- The keys of the databases as cells. -/
def keyView : View Keyspace (ℕ × Bytes) (Option Entry) ℕ where
  cell s c := s.databases.find c.1 c.2
  frame s := s.databases.length

/-- Databases that look the same on some keys. -/
structure Databases.SameOn (K : Set (ℕ × Bytes)) (dbs dbs' : Databases) : Prop where
  length : dbs.length = dbs'.length
  find : ∀ i k, (i, k) ∈ K → dbs.find i k = dbs'.find i k

namespace Databases.SameOn

variable {K : Set (ℕ × Bytes)} {dbs dbs' : Databases}

theorem of_agree {s s' : Keyspace} (h : keyView.Agree K s s') :
    SameOn K s.databases s'.databases :=
  ⟨h.frame, fun i k hk => h.cell (i, k) hk⟩

/-- What is live at a key. -/
theorem entry (h : SameOn K dbs dbs') {i : ℕ} {k : Bytes} (hk : (i, k) ∈ K) (now : UInt64) :
    dbs.entry now i k = dbs'.entry now i k := by
  rcases Nat.lt_or_ge i dbs.length with hi | hi
  · rw [entry_eq hi, entry_eq (h.length ▸ hi), liveEntry, liveEntry, h.find i k hk]
  · rw [Databases.entry, Databases.entry, db_out hi, db_out (h.length ▸ hi)]

section Methods

variable {i : ℕ} {k : Bytes} (h : SameOn K dbs dbs') (hk : (i, k) ∈ K) (now : UInt64)

include h hk

theorem readAs {α β : Type} (kind : Kind α) (missing : β) (f : α → β) :
    dbs.readAs kind now i k missing f = dbs'.readAs kind now i k missing f := by
  rw [Databases.readAs, Databases.readAs, h.entry hk]

theorem get : dbs.get now i k = dbs'.get now i k := by
  rw [Databases.get, Databases.get, h.entry hk]

theorem existsKey : dbs.existsKey now i k = dbs'.existsKey now i k := by
  rw [Databases.existsKey, Databases.existsKey, h.entry hk]

theorem getExpire : dbs.getExpire now i k = dbs'.getExpire now i k := by
  rw [Databases.getExpire, Databases.getExpire, h.entry hk]

theorem getType : dbs.getType now i k = dbs'.getType now i k := by
  rw [Databases.getType, Databases.getType, h.entry hk]

theorem streamLastId : dbs.streamLastId? now i k = dbs'.streamLastId? now i k := by
  rw [Databases.streamLastId?, Databases.streamLastId?, h.entry hk]

theorem generateStreamId (idStr : Bytes) :
    dbs.generateStreamId now i k idStr = dbs'.generateStreamId now i k idStr := by
  have hlast : dbs.getStreamLastId now i k = dbs'.getStreamLastId now i k := by
    rw [Databases.getStreamLastId, Databases.getStreamLastId, h.streamLastId hk]
  rw [Databases.generateStreamId, Databases.generateStreamId, hlast]

theorem xrange (start stop : Bytes) (count : Option ℕ) :
    dbs.xrange now i k start stop count = dbs'.xrange now i k start stop count := by
  rw [Databases.xrange, Databases.xrange, Databases.streamEntries, Databases.streamEntries,
    h.readAs hk]

theorem xrevrange (stop start : Bytes) (count : Option ℕ) :
    dbs.xrevrange now i k stop start count = dbs'.xrevrange now i k stop start count := by
  rw [Databases.xrevrange, Databases.xrevrange, Databases.streamEntries, Databases.streamEntries,
    h.readAs hk]

theorem srandmember (nano : ℕ) (count : Option Int64) :
    dbs.srandmember now nano i k count = dbs'.srandmember now nano i k count := by
  rw [Databases.srandmember, Databases.srandmember, h.readAs hk]

theorem zrangeByScore (lo hi : ScoreBound) (withscores : Bool) (limit : Option (ℕ × ℕ)) :
    dbs.zrangeByScore now i k lo hi withscores limit
      = dbs'.zrangeByScore now i k lo hi withscores limit := by
  rw [Databases.zrangeByScore, Databases.zrangeByScore, h.readAs hk]

theorem zrange (start stop : Int64) (withscores : Bool) :
    dbs.zrange now i k start stop withscores = dbs'.zrange now i k start stop withscores := by
  rw [Databases.zrange, Databases.zrange, h.zrangeByScore hk]

end Methods

/-! ### Several keys -/

section Several

variable {i : ℕ} {ks : List Bytes} (h : SameOn K dbs dbs') (hks : ∀ k ∈ ks, (i, k) ∈ K)
  (now : UInt64)

include h hks

theorem sinterLoop (result : List Bytes) :
    dbs.sinterLoop now i ks result = dbs'.sinterLoop now i ks result := by
  induction ks generalizing result with
  | nil => rfl
  | cons k ks ih =>
    rw [List.forall_mem_cons] at hks
    have hset : dbs.getSet now i k = dbs'.getSet now i k := h.readAs hks.1 now .set none some
    simp only [Databases.sinterLoop, hset, ih hks.2]

theorem sinter : dbs.sinter now i ks = dbs'.sinter now i ks := by
  cases ks with
  | nil => rfl
  | cons k ks =>
    rw [List.forall_mem_cons] at hks
    have hset : dbs.getSet now i k = dbs'.getSet now i k := h.readAs hks.1 now .set none some
    simp only [Databases.sinter, hset, h.sinterLoop hks.2]

theorem sunionLoop (result : HashSet Bytes) :
    dbs.sunionLoop now i ks result = dbs'.sunionLoop now i ks result := by
  induction ks generalizing result with
  | nil => rfl
  | cons k ks ih =>
    rw [List.forall_mem_cons] at hks
    have hset : dbs.getSet now i k = dbs'.getSet now i k := h.readAs hks.1 now .set none some
    simp only [Databases.sunionLoop, hset, ih hks.2]

theorem sunion : dbs.sunion now i ks = dbs'.sunion now i ks := h.sunionLoop hks now ∅

theorem sdiffLoop (result : List Bytes) :
    dbs.sdiffLoop now i ks result = dbs'.sdiffLoop now i ks result := by
  induction ks generalizing result with
  | nil => rfl
  | cons k ks ih =>
    rw [List.forall_mem_cons] at hks
    have hset : dbs.getSet now i k = dbs'.getSet now i k := h.readAs hks.1 now .set none some
    simp only [Databases.sdiffLoop, hset, ih hks.2]

theorem sdiff : dbs.sdiff now i ks = dbs'.sdiff now i ks := by
  cases ks with
  | nil => rfl
  | cons k ks =>
    rw [List.forall_mem_cons] at hks
    have hset : dbs.getSet now i k = dbs'.getSet now i k := h.readAs hks.1 now .set none some
    simp only [Databases.sdiff, hset, h.sdiffLoop hks.2]

theorem xread (count : Option ℕ) (ids : List StreamId) :
    dbs.xread now i count ks ids = dbs'.xread now i count ks ids := by
  induction ks generalizing ids with
  | nil => rfl
  | cons k ks ih =>
    rw [List.forall_mem_cons] at hks
    have hall : dbs.streamEntries now i k = dbs'.streamEntries now i k := h.readAs hks.1 now _ _ _
    simp only [Databases.xread, Databases.streamEntriesAfter, hall, ih hks.2]

end Several

end Databases.SameOn

namespace Keyspace

variable {K : Set (ℕ × Bytes)} {i : ℕ} {k : Bytes} {α β : Type}

/-- A reading method. -/
theorem local_read {f : Databases → Except VeloDBError α}
    (hf : ∀ dbs dbs', Databases.SameOn K dbs dbs' → f dbs = f dbs') : Local keyView K (read f) :=
  Local.reads fun _ _ h => congrArg ofResult (hf _ _ (.of_agree h))

/-- A method that goes on with its database, of which it uses what is at the key. -/
theorem local_lookup (hk : (i, k) ∈ K) {f : Db → KeyM α}
    (hlookup : ∀ d d', d.lookup k = d'.lookup k → f d = f d') (hf : ∀ d, Local keyView K (f d)) :
    Local keyView K (read (fun dbs => dbs.db i) >>= f) := by
  have hin : ∀ (s : Keyspace) (hi : i < s.databases.length),
      (read (fun dbs => dbs.db i) >>= f) s = f s.databases[i] s :=
    fun s hi => Proc.bind_ok (read_db hi s.notified)
  have hout : ∀ s : Keyspace, s.databases.length ≤ i → (read (fun dbs => dbs.db i) >>= f) s
      = (.error (.error (.internal ("db " ++ toString i ++ " out of range"))), s) := by
    intro s hi
    refine Proc.bind_error ?_
    rw [read, Databases.db_out hi]
    rfl
  refine ⟨fun s => ?_, fun s c hc => ?_, fun s s' h => ?_⟩
  · rcases Nat.lt_or_ge i s.databases.length with hi | hi
    · rw [hin s hi]
      exact (hf _).frame s
    · rw [hout s hi]
  · rcases Nat.lt_or_ge i s.databases.length with hi | hi
    · rw [hin s hi]
      exact (hf _).outside s c hc
    · rw [hout s hi]
  · have hlen : s.databases.length = s'.databases.length := h.frame
    rcases Nat.lt_or_ge i s.databases.length with hi | hi
    · have hi' : i < s'.databases.length := hlen ▸ hi
      have hsame : s.databases[i].lookup k = s'.databases[i].lookup k := by
        rw [lookup_eq_find hi, lookup_eq_find hi']
        exact h.cell (i, k) hk
      rw [hin s hi, hin s' hi', ← hlookup _ _ hsame]
      exact (hf _).agrees s s' h
    · rw [hout s hi, hout s' (hlen ▸ hi)]
      exact ⟨rfl, h.cell⟩

/-- A change of what is at the key, into something that is the same whatever there is. -/
theorem local_change (hk : (i, k) ∈ K) {g : Databases → Databases}
    (hlen : ∀ dbs, (g dbs).length = dbs.length)
    (hne : ∀ dbs j k', j ≠ i ∨ k' ≠ k → (g dbs).find j k' = dbs.find j k')
    (hself : ∀ dbs dbs', dbs.length = dbs'.length → (g dbs).find i k = (g dbs').find i k) :
    Local keyView K (Proc.modify fun s => { s with databases := g s.databases } : KeyM Unit) := by
  refine ⟨fun s => hlen _, fun s c hc => ?_, fun s s' h => ⟨rfl, fun c hc => ?_⟩⟩
  · refine hne _ _ _ (not_and_or.mp fun hsame => hc ?_)
    rwa [show c = (i, k) from Prod.ext hsame.1 hsame.2]
  · by_cases hsame : c = (i, k)
    · subst hsame
      exact hself _ _ h.frame
    · have hother : c.1 ≠ i ∨ c.2 ≠ k := not_and_or.mp fun heq => hsame (Prod.ext heq.1 heq.2)
      exact (hne _ _ _ hother).trans ((h.cell c hc).trans (hne _ _ _ hother).symm)

theorem local_put (hk : (i, k) ∈ K) (e : Entry) : Local keyView K (put i k e) := by
  refine local_change hk (fun _ => Databases.length_put) (fun _ _ _ => Databases.find_put_of_ne)
    fun dbs dbs' hlen => ?_
  rcases Nat.lt_or_ge i dbs.length with hi | hi
  · have hi' : i < dbs'.length := hlen ▸ hi
    exact (Databases.find_put_self hi).trans (Databases.find_put_self hi').symm
  · have hi' : dbs'.length ≤ i := hlen ▸ hi
    have hnone : ∀ dbs : Databases, dbs.length ≤ i → (dbs.put i k e).find i k = none :=
      fun dbs hle => by
        rw [Databases.find, List.getElem?_eq_none (Databases.length_put.trans_le hle)]
        rfl
    exact (hnone _ hi).trans (hnone _ hi').symm

theorem local_remove (hk : (i, k) ∈ K) : Local keyView K (remove i k) :=
  local_change hk (fun _ => Databases.length_remove) (fun _ _ _ => Databases.find_remove_of_ne)
    fun _ _ _ => Databases.find_remove_self.trans Databases.find_remove_self.symm

theorem local_notify (k : Bytes) : Local keyView K (notify k) :=
  ⟨fun _ => rfl, fun _ _ _ => rfl, fun _ _ h => ⟨rfl, h.cell⟩⟩

theorem local_throw (e : VeloDBError) : Local keyView K (throw e : KeyM α) := Local.fail _

/-! ### Methods -/

section Methods

variable (hk : (i, k) ∈ K)

include hk

theorem local_changeAs (kind : Kind α) (e : Entry) (f : α → Except Failure β × α) :
    Local keyView K (changeAs kind i k e f) := by
  rw [changeAs]
  cases kind.unwrap e.value with
  | none => exact local_throw _
  | some a => exact (local_put hk _).bind fun _ => Local.ofExcept _

theorem local_updateAs (kind : Kind α) (now : UInt64) (missing : Except Failure β)
    (f : α → Except Failure β × α) : Local keyView K (updateAs kind now i k missing f) := by
  refine (local_read fun dbs dbs' h => h.entry hk now).bind fun e => ?_
  cases e with
  | none => exact Local.ofExcept _
  | some e => exact local_changeAs hk kind e f

theorem local_upsertAs (kind : Kind α) (fresh : α) (f : α → Except Failure β × α) :
    Local keyView K (upsertAs kind i k fresh f) :=
  local_lookup hk (fun d d' h => by simp only [h]) fun _ => local_changeAs hk kind _ f

theorem local_set (v : Bytes) (at_ : Option UInt64) : Local keyView K (set i k v at_) :=
  local_lookup hk (fun d d' h => by simp only [h]) fun _ => local_put hk _

theorem local_del : Local keyView K (del i k) :=
  local_lookup hk (fun d d' h => by simp only [h]) fun _ =>
    (local_remove hk).bind fun _ => Local.pure _

theorem local_changeExpire (at_ : Option UInt64) : Local keyView K (changeExpire i k at_) := by
  refine local_lookup hk (fun d d' h => by simp only [h]) fun d => ?_
  cases d.lookup k with
  | none => exact Local.pure _
  | some e => exact (local_put hk _).bind fun _ => Local.pure _

theorem local_rename {new : Bytes} (hnew : (i, new) ∈ K) : Local keyView K (rename i k new) := by
  refine local_lookup hk (fun d d' h => by simp only [h]) fun d => ?_
  cases d.lookup k with
  | none => exact local_throw _
  | some e => exact (local_remove hk).bind fun _ => local_put hnew _

theorem local_get (now : UInt64) : Local keyView K (read fun dbs => dbs.get now i k) :=
  local_read fun _ _ h => h.get hk now

theorem local_existsKey (now : UInt64) : Local keyView K (read fun dbs => dbs.existsKey now i k) :=
  local_read fun _ _ h => h.existsKey hk now

/-- Something is pushed, and a waiting client is told. -/
theorem local_push (kind : Kind α) (fresh : α) (f : α → Except Failure β × α) :
    Local keyView K (upsertAs kind i k fresh f >>= fun b => notify k >>= fun _ => pure b) :=
  (local_upsertAs hk kind fresh f).bind fun _ => (local_notify k).bind fun _ => Local.pure _

end Methods

end Keyspace

end VeloDB
