import VeloDB.Lib.FiniteMap
import VeloDB.Resp.Parser
import VeloDB.Store.Containers

/-!
# What a client finds at a key

To a client a key is absent, or it holds a string, a list, a finite set or a finite map; the order
in which a hash map iterates, versions and score indexes are not part of it. A `Behaviour` says what
may be answered and what may be left, and a method has a behaviour when that is all it does.

An emptied list, set or hash stays where it is: it is something else than an absent key.

Keys with a TTL are left out here. Creating methods take an expired entry for a present one, so what
they answer is not a matter of what a client finds.

## Main results

* `Means.reads`, `Means.updates`, `Means.upserts` — the three patterns of methods
* `performs_rewrite` — the methods on strings
-/

namespace VeloDB

open Rust

/-- What a key holds, to a client. -/
inductive Content
  | string (v : Bytes)
  | list (l : List Bytes)
  | set (s : Finset Bytes)
  | hash (h : Finmap fun _ : Bytes => Bytes)
  | other (typeName : String)

/-- What a value means. -/
def StorageValue.content : StorageValue → Content
  | .string v => .string v
  | .list l => .list l
  | .set s => .set s.toFinmap.keys
  | .hash h => .hash h.toFinmap
  | .zset _ _ => .other "zset"
  | .stream _ _ _ => .other "stream"
  | .nestedHash _ => .other "nh"

/-- The name of the type of a content. -/
def Content.typeName : Content → String
  | string _ => "string"
  | list _ => "list"
  | set _ => "set"
  | hash _ => "hash"
  | other typeName => typeName

theorem StorageValue.typeName_content (v : StorageValue) : v.content.typeName = v.typeName := by
  cases v <;> rfl

namespace Databases

/-- What is at a key, expired or not. -/
def content (dbs : Databases) (i : ℕ) (k : Bytes) : Option Content :=
  (dbs.find i k).map fun e => e.value.content

/-- The key has no TTL. -/
def Untimed (dbs : Databases) (i : ℕ) (k : Bytes) : Prop :=
  ∀ e, dbs.find i k = some e → e.expireAt = none

variable {dbs dbs' : Databases} {i : ℕ} {k : Bytes}

theorem Untimed.liveEntry (h : dbs.Untimed i k) (now : UInt64) :
    dbs.liveEntry now i k = dbs.find i k := by
  rw [Databases.liveEntry]
  cases he : dbs.find i k with
  | none => rfl
  | some e => rw [Option.filter_some, Entry.expired, h e he]; rfl

theorem untimed_put (hi : i < dbs.length) {e : Entry} (h : e.expireAt = none) :
    (dbs.put i k e).Untimed i k := by
  intro e' he'
  rw [find_put_self hi] at he'
  rw [← Option.some.inj he', h]

theorem content_put (hi : i < dbs.length) (e : Entry) :
    (dbs.put i k e).content i k = some e.value.content := by
  rw [content, find_put_self hi, Option.map_some]

theorem content_of_find (h : dbs'.find i k = dbs.find i k) :
    dbs'.content i k = dbs.content i k := by
  rw [content, h, content]

end Databases

/-! ### Behaviours -/

/-- What may be answered and left at a key. -/
abbrev Behaviour := Option Content → RespValue → Option Content → Prop

/-- The reply to a value of the wrong kind. -/
def wrongTypeReply : RespValue := .error VeloDBError.wrongType.display

/-- A behaviour on contents of one kind; others are refused. -/
inductive Typed {σ : Type} (make : σ → Content) (A : Option σ → RespValue → Option σ → Prop) :
    Behaviour
  | fits {o p : Option σ} {r : RespValue} (h : A o r p) :
    Typed make A (o.map make) r (p.map make)
  | refused {c : Content} (h : ∀ s, c ≠ make s) : Typed make A (some c) wrongTypeReply (some c)

/-- A result as the command table replies it. -/
def shown : Except Failure RespValue → Except Failure RespValue
  | .error (.error e) => .ok (.error e.display)
  | r => r

/-- Between two keyspaces and with a result, a key behaves. -/
structure Shows (A : Behaviour) (i : ℕ) (k : Bytes) (dbs : Databases) (r : Except Failure RespValue)
    (dbs' : Databases) : Prop where
  reply : ∃ v, shown r = .ok v ∧ A (dbs.content i k) v (dbs'.content i k)
  untimed : dbs'.Untimed i k

theorem Shows.ok {A : Behaviour} {i : ℕ} {k : Bytes} {dbs dbs' : Databases} {v : RespValue}
    (hun : dbs'.Untimed i k) (h : A (dbs.content i k) v (dbs'.content i k)) :
    Shows A i k dbs (.ok v) dbs' := ⟨⟨v, rfl, h⟩, hun⟩

/-- The procedure behaves, on given databases. -/
def Performs (A : Behaviour) (i : ℕ) (k : Bytes) (dbs : Databases) (m : KeyM RespValue) : Prop :=
  Shows A i k dbs (m ⟨dbs, []⟩).1 (m ⟨dbs, []⟩).2.databases

/-- The values of a kind mean contents of one form. -/
structure Kind.Means {α σ : Type} (kind : Kind α) (make : σ → Content) (abs : α → σ) : Prop where
  unwrap : ∀ {v a}, kind.unwrap v = some a → v.content = make (abs a)
  other : ∀ {v}, kind.unwrap v = none → ∀ s, v.content ≠ make s

theorem means_string : Kind.string.Means .string id :=
  ⟨fun {v a} h => by cases v <;> cases h; rfl,
    fun {v} h s heq => by cases v <;> cases h <;> cases heq⟩

theorem means_list : Kind.list.Means .list id :=
  ⟨fun {v a} h => by cases v <;> cases h; rfl,
    fun {v} h s heq => by cases v <;> cases h <;> cases heq⟩

theorem means_set : Kind.set.Means .set fun s => s.toFinmap.keys :=
  ⟨fun {v a} h => by cases v <;> cases h; rfl,
    fun {v} h s heq => by cases v <;> cases h <;> cases heq⟩

theorem means_hash : Kind.hash.Means .hash HashMap.toFinmap :=
  ⟨fun {v a} h => by cases v <;> cases h; rfl,
    fun {v} h s heq => by cases v <;> cases h <;> cases heq⟩

namespace Kind.Means

variable {α β σ : Type} {kind : Kind α} {make : σ → Content} {abs : α → σ} {dbs : Databases} {i : ℕ}
  {k : Bytes} {A : Option σ → RespValue → Option σ → Prop} {reply : β → RespValue}

theorem wrap (h : kind.Means make abs) (a : α) : (kind.wrap a).content = make (abs a) :=
  h.unwrap (kind.unwrap_wrap a)

/-- What a key can be to a method on one kind. -/
theorem cases (h : kind.Means make abs) (dbs : Databases) (i : ℕ) (k : Bytes) :
    (dbs.find i k = none ∧ dbs.content i k = none) ∨
      (∃ e a, dbs.find i k = some e ∧ kind.unwrap e.value = some a ∧
        dbs.content i k = some (make (abs a))) ∨
      ∃ e c, dbs.find i k = some e ∧ kind.unwrap e.value = none ∧ dbs.content i k = some c ∧
        ∀ s, c ≠ make s := by
  rw [Databases.content]
  cases dbs.find i k with
  | none => exact Or.inl ⟨rfl, rfl⟩
  | some e =>
    rw [Option.map_some]
    cases ha : kind.unwrap e.value with
    | some a => exact Or.inr (Or.inl ⟨e, a, rfl, ha, congrArg some (h.unwrap ha)⟩)
    | none => exact Or.inr (Or.inr ⟨e, _, rfl, ha, rfl, h.other ha⟩)

/-- **Reading** behaves as the values mean it. -/
theorem reads (h : kind.Means make abs) (hi : i < dbs.length) (hun : dbs.Untimed i k)
    (now : UInt64) {missing : β} {f : α → β} (hmissing : A none (reply missing) none)
    (hf : ∀ a, A (some (abs a)) (reply (f a)) (some (abs a))) :
    Shows (Typed make A) i k dbs
      (ofResult (dbs.readAs kind now i k missing f) >>= fun b => pure (reply b)) dbs := by
  have hlive := hun.liveEntry now
  rcases h.cases dbs i k with ⟨hnone, hc⟩ | ⟨e, a, he, ha, hc⟩ | ⟨e, c, he, ha, hc, hne⟩
  · rw [Databases.readAs_none hi (hlive.trans hnone)]
    exact .ok hun (hc ▸ .fits (o := none) (p := none) hmissing)
  · rw [Databases.readAs_some (hlive.trans he) ha]
    exact .ok hun (hc ▸ .fits (o := some (abs a)) (p := some (abs a)) (hf a))
  · rw [Databases.readAs_wrong (hlive.trans he) ha]
    exact ⟨⟨wrongTypeReply, rfl, hc ▸ .refused hne⟩, hun⟩

/-- What a handler does after its method: reply, and perhaps wake somebody. -/
def Replies (reply : β → RespValue) (next : β → KeyM RespValue) : Prop :=
  ∀ b ks, (next b ks).1 = .ok (reply b) ∧ (next b ks).2.databases = ks.databases

theorem replies_pure (reply : β → RespValue) : Replies reply fun b => pure (reply b) :=
  fun _ _ => ⟨rfl, rfl⟩

variable {next : β → KeyM RespValue}

/-- A value has been changed. -/
theorem changed (h : kind.Means make abs) (hi : i < dbs.length) (hnext : Replies reply next)
    {o : Option σ} (hc : dbs.content i k = o.map make) {e : Entry} (hun : e.expireAt = none)
    {m : KeyM β} {a : α} {b : β}
    (hm : m ⟨dbs, []⟩ = (.ok b, ⟨dbs.put i k { e with value := kind.wrap a }, []⟩))
    (hA : A o (reply b) (some (abs a))) : Performs (Typed make A) i k dbs (m >>= next) := by
  obtain ⟨hreply, hsame⟩ := hnext b ⟨dbs.put i k { e with value := kind.wrap a }, []⟩
  rw [Performs, Proc.bind_ok hm, hreply, hsame]
  refine .ok (Databases.untimed_put hi hun) ?_
  rw [hc, Databases.content_put hi, h.wrap]
  exact .fits (p := some (abs a)) hA

/-- The value is of another kind. -/
theorem refuses {c : Content} (hun : dbs.Untimed i k) (hc : dbs.content i k = some c)
    (hne : ∀ s, c ≠ make s) {m : KeyM β}
    (hm : m ⟨dbs, []⟩ = (.error (.error .wrongType), ⟨dbs, []⟩)) :
    Performs (Typed make A) i k dbs (m >>= next) := by
  rw [Performs, Proc.bind_error hm]
  exact ⟨⟨wrongTypeReply, rfl, hc ▸ .refused hne⟩, hun⟩

/-- **Changing** a value that is there. -/
theorem updates (h : kind.Means make abs) (hi : i < dbs.length) (hun : dbs.Untimed i k)
    (now : UInt64) (hnext : Replies reply next) {missing : β} {f : α → Except Failure β × α}
    (hmissing : A none (reply missing) none)
    (hf : ∀ a, ∃ b, (f a).1 = .ok b ∧ A (some (abs a)) (reply b) (some (abs (f a).2))) :
    Performs (Typed make A) i k dbs (Keyspace.updateAs kind now i k (.ok missing) f >>= next) := by
  have hlive := hun.liveEntry now
  rcases h.cases dbs i k with ⟨hnone, hc⟩ | ⟨e, a, he, ha, hc⟩ | ⟨e, c, he, ha, hc, hne⟩
  · obtain ⟨hreply, hsame⟩ := hnext missing ⟨dbs, []⟩
    have hrun : Keyspace.updateAs kind now i k (.ok missing) f ⟨dbs, []⟩
        = (.ok missing, ⟨dbs, []⟩) := by
      rw [Keyspace.updateAs, Proc.bind_ok (Keyspace.read_entry hi now k []), hlive, hnone]
      rfl
    rw [Performs, Proc.bind_ok hrun, hreply, hsame]
    exact .ok hun (hc ▸ .fits (o := none) (p := none) hmissing)
  · obtain ⟨b, hb, hA⟩ := hf a
    refine h.changed hi hnext (o := some (abs a)) hc (hun e he) (b := b) ?_ hA
    rw [Keyspace.updateAs_run kind (hlive.trans he) ha, hb]
  · refine refuses hun hc hne ?_
    rw [Keyspace.updateAs, Proc.bind_ok (Keyspace.read_entry hi now k []), hlive, he]
    dsimp only
    rw [Keyspace.changeAs, ha]
    rfl

/-- **Changing** a value that is made when it is not there. -/
theorem upserts (h : kind.Means make abs) (hi : i < dbs.length) (hun : dbs.Untimed i k)
    (hnext : Replies reply next) {fresh : α} {f : α → Except Failure β × α}
    (hfresh : ∃ b, (f fresh).1 = .ok b ∧ A none (reply b) (some (abs (f fresh).2)))
    (hf : ∀ a, ∃ b, (f a).1 = .ok b ∧ A (some (abs a)) (reply b) (some (abs (f a).2))) :
    Performs (Typed make A) i k dbs (Keyspace.upsertAs kind i k fresh f >>= next) := by
  rcases h.cases dbs i k with ⟨hnone, hc⟩ | ⟨e, a, he, ha, hc⟩ | ⟨e, c, he, ha, hc, hne⟩
  · obtain ⟨b, hb, hA⟩ := hfresh
    refine h.changed hi hnext (o := none) (e := { value := kind.wrap fresh }) hc rfl (b := b) ?_ hA
    rw [Keyspace.upsertAs_new kind hi hnone, hb]
  · obtain ⟨b, hb, hA⟩ := hf a
    have hget : (dbs.find i k).getD { value := kind.wrap fresh } = e := by
      rw [he, Option.getD_some]
    refine h.changed hi hnext (o := some (abs a)) hc (hun e he) (b := b) ?_ hA
    rw [Keyspace.upsertAs_run kind hi (hget.symm ▸ ha), hget, hb]
  · refine refuses hun hc hne ?_
    rw [Keyspace.upsertAs, Proc.bind_ok (Keyspace.read_db hi []), Keyspace.changeAs,
      Keyspace.lookup_eq_find hi, he, Option.getD_some, ha]
    rfl

end Kind.Means

/-! ### Strings -/

section Strings

variable {dbs : Databases} {i : ℕ} {k : Bytes}

theorem get_eq_readAs (now : UInt64) (dbs : Databases) (i : ℕ) (k : Bytes) :
    dbs.get now i k = dbs.readAs .string now i k none some := by
  rw [Databases.get, Databases.readAs]
  cases dbs.entry now i k with
  | error e => rfl
  | ok o =>
    cases o with
    | none => rfl
    | some e =>
      rcases e with ⟨v, at_, version⟩
      cases v <;> rfl

/-- Overwriting, whatever is there. -/
theorem performs_set {A : Behaviour} (hi : i < dbs.length) (v : Bytes) {r : RespValue}
    (hA : A (dbs.content i k) r (some (.string v))) :
    Performs A i k dbs (Keyspace.set i k v none >>= fun _ => pure r) := by
  rw [Performs, Proc.bind_ok (Keyspace.set_run hi v none []), Proc.pure_run]
  refine .ok (Databases.untimed_put hi rfl) ?_
  rw [Databases.content_put hi]
  exact hA

/-- **Reading a string and writing another one.** -/
theorem performs_rewrite {A : Option Bytes → RespValue → Option Bytes → Prop} (hi : i < dbs.length)
    (hun : dbs.Untimed i k) (now : UInt64) {f : Option Bytes → Bytes}
    {reply : Option Bytes → RespValue} (hA : ∀ o, A o (reply o) (some (f o))) :
    Performs (Typed .string A) i k dbs (Keyspace.read (fun dbs => dbs.get now i k) >>= fun o =>
      Keyspace.set i k (f o) none >>= fun _ => pure (reply o)) := by
  have hlive := hun.liveEntry now
  have hread : ∀ o : Option Bytes, dbs.content i k = o.map .string →
      dbs.readAs .string now i k none some = .ok o →
      Performs (Typed .string A) i k dbs (Keyspace.read (fun dbs => dbs.get now i k) >>= fun o =>
        Keyspace.set i k (f o) none >>= fun _ => pure (reply o)) := by
    intro o hc ho
    have hrun : Keyspace.read (fun dbs => dbs.get now i k) ⟨dbs, []⟩ = (.ok o, ⟨dbs, []⟩) := by
      rw [Keyspace.read]
      simp only [get_eq_readAs, ho, ofResult]
    rw [Performs, Proc.bind_ok hrun]
    exact performs_set hi (f o) (hc ▸ .fits (o := o) (p := some (f o)) (hA o))
  rcases means_string.cases dbs i k with ⟨hnone, hc⟩ | ⟨e, a, he, ha, hc⟩ | ⟨e, c, he, ha, hc, hne⟩
  · exact hread none hc (Databases.readAs_none hi (hlive.trans hnone) _ _)
  · exact hread (some a) hc (Databases.readAs_some (hlive.trans he) ha _ _)
  · refine Kind.Means.refuses hun hc hne ?_
    rw [Keyspace.read]
    simp only [get_eq_readAs, Databases.readAs_wrong (hlive.trans he) ha, ofResult]

end Strings

end VeloDB
