import VeloDB.Net.ListQueue

/-!
# Blocking pops, step by step

A client in a blocking pop looks at its keys one after the other, registers under each of them, and
only then starts to wait. A push appends first and notifies afterwards, and `BlockRegistry::notify`
first takes the waiters of the key out of the registry, in all databases, and then fires their
handles. A handle that is fired before its client waits wakes nobody.

`BlockingRace` is the state of any number of clients between these steps, and a run is any list of
steps. What is still to be notified and to be fired is kept without the connection that does it.

## Main results

* `looks_eq`, `registers_eq`, `pops_eq` — steps in a row are the functions of the source
* `no_lost_wakeup` — when no client waits for what is there
* `gives_up_on_timeout_iff` — when no client gives up before its timeout, and exactly when
-/

namespace VeloDB

open Rust

/-- A blocking pop and the database of its client. -/
structure BlockingPop extends BlockState where
  db : ℕ

/-- How far a client has come with its blocking pop. -/
inductive PopPhase
  /-- It is in none; the result of the last one. -/
  | idle (reply : Option (Except Failure RespValue))
  /-- It has looked at some of its keys in vain. -/
  | looking (b : BlockingPop) (seen todo : List Bytes)
  /-- It has registered under some of its keys. -/
  | registering (b : BlockingPop) (id : ℕ) (done todo : List Bytes)
  | waiting (b : BlockingPop) (id : ℕ) (since : UInt64)
  | woken (b : BlockingPop) (id : ℕ) (since : UInt64)
  /-- It looks at its keys again. -/
  | popping (b : BlockingPop) (since : UInt64) (todo : List Bytes)

/-- The clients, what they share, the keys whose clients have still to be notified, and the handles
that have still to be fired. -/
structure BlockingRace where
  now : UInt64
  databases : Databases
  registry : BlockRegistry := {}
  clients : List PopPhase
  toNotify : List Bytes := []
  toWake : List ℕ := []

/-- The steps. -/
inductive BlockEvent
  | call (j : ℕ) (b : BlockingPop)
  | look (j : ℕ)
  | register (j : ℕ)
  | wait (j : ℕ)
  | push (d : PopDirection) (i : ℕ) (k : Bytes) (values : List Bytes)
  | take (k : Bytes)
  | wake (id : ℕ)
  | resume (j : ℕ)
  | expire (j : ℕ)
  | pop (j : ℕ)
  /-- Another command, with the keys that it notifies. -/
  | other (dbs : Databases) (notified : List Bytes)
  | tick (t : UInt64)

/-- The call of the store that pushes. -/
def PopDirection.push : PopDirection → ℕ → Bytes → List Bytes → KeyM ℕ
  | .left => Keyspace.lpush
  | .right => Keyspace.rpush

/-- `unregister`, on the registry alone. -/
def BlockRegistry.unregister (r : BlockRegistry) (id : ℕ) (keys : List Bytes) : BlockRegistry :=
  (Tables.unregister { blockRegistry := r } id keys).blockRegistry

/-- The loop body of `register`. -/
def BlockRegistry.registerKey (r : BlockRegistry) (id : ℕ) (k : Bytes) : BlockRegistry :=
  { r with waiters := r.waiters.insert k ((r.waiters.lookup k).getD [] ++ [(id, id)]) }

/-- The clients that are registered under a key. -/
def BlockRegistry.at (r : BlockRegistry) (k : Bytes) : List (ℕ × ℕ) := (r.waiters.lookup k).getD []

/-- Firing a handle. -/
def PopPhase.wake (id : ℕ) : PopPhase → PopPhase
  | .waiting b id' since => if id' = id then .woken b id' since else .waiting b id' since
  | c => c

/-- The timeout of a client has elapsed. A negative one is taken for a very long one. -/
def BlockingPop.Elapsed (b : BlockingPop) (since now : UInt64) : Prop :=
  since.toNat + b.timeoutMs.toUInt64.toNat ≤ now.toNat

instance (b : BlockingPop) (since now : UInt64) : Decidable (b.Elapsed since now) :=
  inferInstanceAs (Decidable (_ ≤ _))

/-- The reply of a client that gives up. -/
def emptyReply : PopPhase := .idle (some (.ok (.array (some []))))

namespace BlockingRace

/-- Another phase of a client. -/
def goto (s : BlockingRace) (j : ℕ) (c : PopPhase) : BlockingRace :=
  { s with clients := s.clients.set j c }

/-- A client that looks at a key. -/
def look (s : BlockingRace) (j : ℕ) (b : BlockingPop) (seen : List Bytes) (k : Bytes)
    (todo : List Bytes) : BlockingRace :=
  let r := b.popDirection.pop s.now b.db k { databases := s.databases }
  { s with databases := r.2.databases }.goto j
    (match r.1 with
    | .ok (some v) => .idle (some (.ok (bulks [k, v])))
    | .ok none => .looking b (seen ++ [k]) todo
    | .error e => .idle (some (.error e)))

/-- What comes after a look at a key. Errors are passed over. -/
def popped (b : BlockingPop) (since : UInt64) (k : Bytes) (todo : List Bytes) :
    Except Failure (Option Bytes) → PopPhase
  | .ok (some v) => .idle (some (.ok (bulks [k, v])))
  | .ok none | .error _ => if todo = [] then emptyReply else .popping b since todo

/-- A client that has been woken looks at a key. -/
def pop (s : BlockingRace) (j : ℕ) (b : BlockingPop) (since : UInt64) (k : Bytes)
    (todo : List Bytes) : BlockingRace :=
  let r := b.popDirection.pop s.now b.db k { databases := s.databases }
  { s with databases := r.2.databases }.goto j (popped b since k todo r.1)

/-- One step. What cannot happen changes nothing. -/
def step (s : BlockingRace) : BlockEvent → BlockingRace
  | .call j b =>
    match s.clients[j]? with
    | some (.idle _) => s.goto j (.looking b [] b.keys)
    | _ => s
  | .look j =>
    match s.clients[j]? with
    | some (.looking b seen (k :: todo)) => s.look j b seen k todo
    | some (.looking b _ []) =>
      if b.timeoutMs = 0 then s.goto j (.idle (some (.ok .nil)))
      else { s with registry := { s.registry with nextId := s.registry.nextId + 1 } }.goto j
        (.registering b s.registry.nextId [] b.keys)
    | _ => s
  | .register j =>
    match s.clients[j]? with
    | some (.registering b id done (k :: todo)) =>
      { s with registry := s.registry.registerKey id k }.goto j
        (.registering b id (done ++ [k]) todo)
    | _ => s
  | .wait j =>
    match s.clients[j]? with
    | some (.registering b id _ []) => s.goto j (.waiting b id s.now)
    | _ => s
  | .push d i k values =>
    let r := (d.push i k values { databases := s.databases }).2
    { s with databases := r.databases, toNotify := s.toNotify ++ r.notified }
  | .take k =>
    if s.toNotify.contains k then
      let t := Tables.notify { blockRegistry := s.registry } k
      { s with
        registry := t.blockRegistry
        toNotify := s.toNotify.erase k
        toWake := s.toWake ++ t.woken }
    else s
  | .wake id =>
    if id ∈ s.toWake then
      { s with toWake := s.toWake.erase id, clients := s.clients.map (PopPhase.wake id) }
    else s
  | .resume j =>
    match s.clients[j]? with
    | some (.woken b id since) =>
      { s with registry := s.registry.unregister id b.keys }.goto j
        (if b.keys = [] then emptyReply else .popping b since b.keys)
    | _ => s
  | .expire j =>
    match s.clients[j]? with
    | some (.waiting b id since) | some (.woken b id since) =>
      if b.Elapsed since s.now then
        { s with registry := s.registry.unregister id b.keys }.goto j emptyReply
      else s
    | _ => s
  | .pop j =>
    match s.clients[j]? with
    | some (.popping b since (k :: todo)) => s.pop j b since k todo
    | some (.popping _ _ []) => s.goto j emptyReply
    | _ => s
  | .other dbs notified => { s with databases := dbs, toNotify := s.toNotify ++ notified }
  | .tick t => { s with now := t }

/-- Nobody is in a blocking pop. -/
def start (now : UInt64) (dbs : Databases) (n : ℕ) : BlockingRace :=
  { now, databases := dbs, clients := List.replicate n (.idle none) }

/-! ### Steps in a row -/

variable {s : BlockingRace} {j : ℕ} {c : PopPhase}

theorem goto_goto (s : BlockingRace) (j : ℕ) (c c' : PopPhase) :
    (s.goto j c).goto j c' = s.goto j c' := by
  rw [goto, goto, goto, List.set_set]

theorem goto_self (h : s.clients[j]? = some c) : s.goto j c = s := by
  obtain ⟨hj, rfl⟩ := List.getElem?_eq_some_iff.mp h
  rw [goto, List.set_getElem_self]

theorem clients_goto_self {c' : PopPhase} (h : s.clients[j]? = some c') (c : PopPhase) :
    (s.goto j c).clients[j]? = some c := by
  obtain ⟨hj, -⟩ := List.getElem?_eq_some_iff.mp h
  exact List.getElem?_set_self hj

/-- A pop notifies nobody. -/
theorem notified_pop (d : PopDirection) (now : UInt64) (i : ℕ) (k : Bytes) (ks : Keyspace) :
    (d.pop now i k ks).2.notified = ks.notified := by
  rw [d.pop_eq]
  rcases Keyspace.updateAs_cases .list now i k (.ok none)
    (fun l => (.ok (d.split l).1, (d.split l).2)) ks with ⟨e, he⟩ | ⟨-, -, he⟩ | ⟨e, l, -, -, -, he⟩
  all_goals rw [he]

/-- What a client does when it has looked at all of its keys. -/
def looked (s : BlockingRace) (j : ℕ) (b : BlockingPop) (seen : List Bytes)
    (r : Except Failure (Option (Bytes × Bytes)) × Keyspace) : BlockingRace :=
  { s with databases := r.2.databases }.goto j
    (match r.1 with
    | .ok (some (k, v)) => .idle (some (.ok (bulks [k, v])))
    | .ok none => .looking b seen []
    | .error e => .idle (some (.error e)))

/-- **Looking at the keys**, with nothing in between. -/
theorem looks_eq {b : BlockingPop} {seen todo : List Bytes}
    (h : s.clients[j]? = some (.looking b seen todo)) :
    (fun s => s.step (.look j))^[todo.length] s = s.looked j b (seen ++ todo)
      (Cmd.popFirst (b.popDirection.pop s.now b.db) todo { databases := s.databases }) := by
  induction todo generalizing s seen with
  | nil =>
    rw [List.append_nil]
    exact (goto_self h).symm
  | cons k todo ih =>
    have hstep : s.step (.look j) = s.look j b seen k todo := by rw [step, h]
    rw [List.length_cons, Function.iterate_succ_apply, hstep, Cmd.popFirst]
    have hnotified := notified_pop b.popDirection s.now b.db k { databases := s.databases }
    rcases hpop : b.popDirection.pop s.now b.db k { databases := s.databases } with
      ⟨e | _ | v, dbs, notified⟩
    · have hlook : s.look j b seen k todo = { s with databases := dbs }.goto j
          (.idle (some (.error e))) := by rw [look, hpop]
      have hdone : ({ s with databases := dbs }.goto j (.idle (some (.error e)))).clients[j]?
          = some (.idle (some (.error e))) :=
        clients_goto_self (s := { s with databases := dbs }) h _
      rw [hlook, Proc.bind_error hpop, Function.iterate_fixed (by rw [step, hdone])]
      rfl
    · have hlook : s.look j b seen k todo = { s with databases := dbs }.goto j
          (.looking b (seen ++ [k]) todo) := by rw [look, hpop]
      have hnext : ({ s with databases := dbs }.goto j (.looking b (seen ++ [k]) todo)).clients[j]?
          = some (.looking b (seen ++ [k]) todo) :=
        clients_goto_self (s := { s with databases := dbs }) h _
      rw [hpop] at hnotified
      obtain rfl : notified = [] := hnotified
      rw [hlook, Proc.bind_ok hpop, ih hnext, List.append_assoc]
      exact goto_goto { s with databases := (Cmd.popFirst (b.popDirection.pop s.now b.db) todo
        { databases := dbs }).2.databases } j _ _
    · have hlook : s.look j b seen k todo = { s with databases := dbs }.goto j
          (.idle (some (.ok (bulks [k, v])))) := by rw [look, hpop]
      have hdone : ({ s with databases := dbs }.goto j
          (.idle (some (.ok (bulks [k, v]))))).clients[j]?
          = some (.idle (some (.ok (bulks [k, v])))) :=
        clients_goto_self (s := { s with databases := dbs }) h _
      rw [hlook, Proc.bind_ok hpop, Function.iterate_fixed (by rw [step, hdone])]
      rfl

/-- **Looking again after a wait**, with nothing in between. -/
theorem pops_eq {b : BlockingPop} {since : UInt64} {todo : List Bytes} (hne : todo ≠ [])
    (h : s.clients[j]? = some (.popping b since todo)) :
    (fun s => s.step (.pop j))^[todo.length] s
      = let r := unblockPop (b.popDirection.pop s.now b.db) todo { databases := s.databases }
        { s with databases := r.2.databases }.goto j (.idle (some r.1)) := by
  induction todo generalizing s with
  | nil => exact absurd rfl hne
  | cons k todo ih =>
    have hstep : s.step (.pop j) = s.pop j b since k todo := by rw [step, h]
    rw [List.length_cons, Function.iterate_succ_apply, hstep]
    have hnotified := notified_pop b.popDirection s.now b.db k { databases := s.databases }
    rcases hpop : b.popDirection.pop s.now b.db k { databases := s.databases } with
      ⟨r, dbs, notified⟩
    rw [hpop] at hnotified
    obtain rfl : notified = [] := hnotified
    by_cases hfound : ∃ v, r = .ok (some v)
    · obtain ⟨v, rfl⟩ := hfound
      have hpopped : s.pop j b since k todo = { s with databases := dbs }.goto j
          (.idle (some (.ok (bulks [k, v])))) := by rw [pop, hpop, popped]
      have hdone : ({ s with databases := dbs }.goto j
          (.idle (some (.ok (bulks [k, v]))))).clients[j]?
          = some (.idle (some (.ok (bulks [k, v])))) :=
        clients_goto_self (s := { s with databases := dbs }) h _
      rw [hpopped, unblockPop_some hpop, Function.iterate_fixed (by rw [step, hdone])]
    · have hpassed : ∀ v, r ≠ .ok (some v) := fun v hr => hfound ⟨v, hr⟩
      have hpopped : s.pop j b since k todo = { s with databases := dbs }.goto j
          (if todo = [] then emptyReply else .popping b since todo) := by
        rw [pop, hpop]
        rcases r with e | _ | v
        · rfl
        · rfl
        · exact absurd rfl (hpassed v)
      rw [hpopped, unblockPop_passed hpop hpassed]
      by_cases htodo : todo = []
      · subst htodo
        rfl
      · rw [if_neg htodo]
        have hnext : ({ s with databases := dbs }.goto j (.popping b since todo)).clients[j]?
            = some (.popping b since todo) :=
          clients_goto_self (s := { s with databases := dbs }) h _
        rw [ih htodo hnext]
        exact goto_goto { s with databases := (unblockPop (b.popDirection.pop s.now b.db) todo
          { databases := dbs }).2.databases } j _ _

/-- **Registering**, with nothing in between. -/
theorem registers_eq {b : BlockingPop} {id : ℕ} {done todo : List Bytes}
    (h : s.clients[j]? = some (.registering b id done todo)) :
    (fun s => s.step (.register j))^[todo.length] s
      = { s with registry := todo.foldl (fun r k => r.registerKey id k) s.registry }.goto j
          (.registering b id (done ++ todo) []) := by
  induction todo generalizing s done with
  | nil =>
    rw [List.append_nil]
    exact (goto_self h).symm
  | cons k todo ih =>
    have hstep : s.step (.register j) = { s with registry := s.registry.registerKey id k }.goto j
        (.registering b id (done ++ [k]) todo) := by rw [step, h]
    have hnext : ({ s with registry := s.registry.registerKey id k }.goto j
        (.registering b id (done ++ [k]) todo)).clients[j]?
        = some (.registering b id (done ++ [k]) todo) :=
      clients_goto_self (s := { s with registry := s.registry.registerKey id k }) h _
    rw [List.length_cons, Function.iterate_succ_apply, hstep, ih hnext, List.append_assoc]
    exact goto_goto { s with
      registry := (k :: todo).foldl (fun r k => r.registerKey id k) s.registry } j _ _

/-- `register` takes an id and registers it under every key. -/
theorem register_eq (t : Tables) (keys : List Bytes) :
    (t.register keys).1 = t.blockRegistry.nextId ∧ (t.register keys).2.blockRegistry
      = keys.foldl (fun r k => r.registerKey t.blockRegistry.nextId k)
          { t.blockRegistry with nextId := t.blockRegistry.nextId + 1 } := by
  refine ⟨rfl, ?_⟩
  have hall : ∀ (r : BlockRegistry) (id : ℕ), keys.foldl (fun r k => r.registerKey id k) r
      = { r with
          waiters := keys.foldl (fun w k => w.insert k ((w.lookup k).getD [] ++ [(id, id)]))
            r.waiters } := by
    intro r id
    induction keys generalizing r with
    | nil => rfl
    | cons k keys ih =>
      rw [List.foldl_cons, ih, List.foldl_cons]
      rfl
  rw [hall]
  rfl

end BlockingRace

/-! ### Elements -/

section Elements

variable {now t : UInt64} {dbs : Databases} {i i' : ℕ} {k k' : Bytes}

theorem hasElement_iff_ne_nil : HasElement now dbs i k ↔
    (((dbs.liveEntry now i k).map Entry.value).bind Kind.list.unwrap).getD [] ≠ [] := by
  rw [HasElement]
  cases (dbs.liveEntry now i k).map Entry.value with
  | none => simp
  | some v =>
    cases hl : Kind.list.unwrap v with
    | none => simp [hl]
    | some l => cases l <;> simp [hl]

instance decidableHasElement : Decidable (HasElement now dbs i k) :=
  decidable_of_iff' _ hasElement_iff_ne_nil

/-- What is live was live before. -/
theorem liveEntry_of_le (h : now ≤ t) {e : Entry} (he : dbs.liveEntry t i k = some e) :
    dbs.liveEntry now i k = some e := by
  cases hnow : dbs.liveEntry now i k with
  | none => cases (Databases.liveEntry_mono h hnow).symm.trans he
  | some e' =>
    have hfind := (Option.filter_eq_some_iff.mp he).1
    have hfind' := (Option.filter_eq_some_iff.mp hnow).1
    rw [Option.some.inj (hfind'.symm.trans hfind)]

theorem HasElement.of_le (h : now ≤ t) (hhas : HasElement t dbs i k) : HasElement now dbs i k := by
  obtain ⟨v, a, l, hv, hl⟩ := hhas
  obtain ⟨e, he, rfl⟩ := Option.map_eq_some_iff.mp hv
  exact ⟨e.value, a, l, by rw [liveEntry_of_le h he]; rfl, hl⟩

theorem hasElement_put_of_ne (h : i' ≠ i ∨ k' ≠ k) (e : Entry) :
    HasElement now (dbs.put i k e) i' k' ↔ HasElement now dbs i' k' := by
  rw [HasElement, HasElement, liveEntry_put_of_ne h]

/-- A pop brings no elements. -/
theorem HasElement.of_pop {d : PopDirection} {notified : List Bytes}
    (h : HasElement now (d.pop now i k ⟨dbs, notified⟩).2.databases i' k') :
    HasElement now dbs i' k' := by
  rw [d.pop_eq] at h
  rcases Keyspace.updateAs_cases .list now i k (.ok none)
    (fun l => (.ok (d.split l).1, (d.split l).2)) ⟨dbs, notified⟩ with ⟨e, he⟩ | ⟨-, -, he⟩ |
    ⟨e, l, hi, he, hl, hrun⟩
  · rwa [he] at h
  · rwa [he] at h
  · rw [hrun] at h
    by_cases hne : i' ≠ i ∨ k' ≠ k
    · exact (hasElement_put_of_ne hne _).mp h
    · rw [not_or, not_ne_iff, not_ne_iff] at hne
      obtain ⟨rfl, rfl⟩ := hne
      cases l with
      | cons a l => exact (hasElement_iff he).mpr ⟨a, l, hl⟩
      | nil =>
        obtain ⟨v, a, l', hv, hl'⟩ := h
        obtain ⟨e', he', rfl⟩ := Option.map_eq_some_iff.mp hv
        have hput := (Option.filter_eq_some_iff.mp he').1
        dsimp only at hput
        rw [Databases.find_put_self hi, d.split_nil] at hput
        obtain rfl := Option.some.inj hput
        cases hl'

/-- A push brings elements only to a key that it notifies. -/
theorem HasElement.of_push {d : PopDirection} {values : List Bytes}
    (h : HasElement now (d.push i k values ⟨dbs, []⟩).2.databases i' k') :
    HasElement now dbs i' k' ∨ k' ∈ (d.push i k values ⟨dbs, []⟩).2.notified := by
  have hall : ∀ f : List Bytes → Except Failure ℕ × List Bytes, (∀ l, ∃ n, (f l).1 = .ok n) →
      d.push i k values = (Keyspace.upsertAs .list i k [] f >>= fun len =>
        Keyspace.notify k >>= fun _ => pure len) →
      HasElement now dbs i' k' ∨ k' ∈ (d.push i k values ⟨dbs, []⟩).2.notified := by
    intro f hok hf
    rw [hf] at h ⊢
    rcases Keyspace.upsertAs_cases .list i k [] f ⟨dbs, []⟩ with ⟨e, he, -⟩ | ⟨l, hi, -, hrun⟩
    · rw [Proc.bind_error he] at h
      exact Or.inl h
    · obtain ⟨n, hn⟩ := hok l
      rw [hn] at hrun
      rw [Proc.bind_ok hrun] at h ⊢
      by_cases hne : i' ≠ i ∨ k' ≠ k
      · exact Or.inl ((hasElement_put_of_ne hne _).mp h)
      · rw [not_or, not_ne_iff, not_ne_iff] at hne
        obtain ⟨-, rfl⟩ := hne
        exact Or.inr List.mem_cons_self
  cases d with
  | left => exact hall _ (fun l => ⟨_, rfl⟩) rfl
  | right => exact hall _ (fun l => ⟨_, rfl⟩) rfl

end Elements

/-! ### The registry -/

namespace BlockRegistry

variable {r : BlockRegistry} {id id' : ℕ} {k k' : Bytes}

theorem mem_at_registerKey (h : (id, id) ∈ r.at k) (id' : ℕ) (k' : Bytes) :
    (id, id) ∈ (r.registerKey id' k').at k := by
  rw [BlockRegistry.at, registerKey]
  by_cases hk : k = k'
  · subst hk
    rw [AList.lookup_insert]
    exact List.mem_append_left _ h
  · rw [AList.lookup_insert_ne hk]
    exact h

theorem mem_at_registerKey_self : (id, id) ∈ (r.registerKey id k).at k := by
  rw [BlockRegistry.at, registerKey, AList.lookup_insert]
  exact List.mem_append_right _ List.mem_cons_self

theorem mem_at_unregister (h : (id, id) ∈ r.at k) (hne : id ≠ id') (keys : List Bytes) :
    (id, id) ∈ (r.unregister id' keys).at k := by
  rw [BlockRegistry.at, unregister, Tables.unregister]
  refine List.foldlRecOn (motive := fun w : HashMap Bytes (List (ℕ × ℕ)) =>
    (id, id) ∈ (w.lookup k).getD []) keys _ h ?_
  intro w hw k' _
  cases hl : w.lookup k' with
  | none => exact hw
  | some l =>
    dsimp only
    by_cases hk : k = k'
    · subst hk
      rw [AList.lookup_insert]
      rw [hl] at hw
      exact List.mem_filter.mpr ⟨hw, by simpa using hne⟩
    · rw [AList.lookup_insert_ne hk]
      exact hw

/-- The clients of a key are taken out, and those of the other keys stay. -/
theorem notify_spec (r : BlockRegistry) (k : Bytes) :
    ((id, id) ∈ r.at k → id ∈ (Tables.notify { blockRegistry := r } k).woken) ∧
    (k' ≠ k → (Tables.notify { blockRegistry := r } k).blockRegistry.at k' = r.at k') ∧
    (Tables.notify { blockRegistry := r } k).blockRegistry.nextId = r.nextId := by
  rw [Tables.notify, BlockRegistry.at]
  cases hl : r.waiters.lookup k with
  | none => exact ⟨fun h => absurd h List.not_mem_nil, fun _ => rfl, rfl⟩
  | some l =>
    refine ⟨fun h => ?_, fun hne => ?_, rfl⟩
    · exact List.mem_map_of_mem (f := Prod.snd) h
    · rw [BlockRegistry.at, AList.lookup_insert_ne hne]
      rfl

end BlockRegistry

/-! ### What a blocked client can rely on -/

/-- The id of a client in the registry. -/
def PopPhase.id? : PopPhase → Option ℕ
  | .registering _ id _ _ | .waiting _ id _ | .woken _ id _ => some id
  | .idle _ | .looking _ _ _ | .popping _ _ _ => none

/-- The database of a client that has looked at the key in vain and has not registered under it. -/
def PopPhase.overlooks (k : Bytes) : PopPhase → Option ℕ
  | .looking b seen _ => if seen.contains k then some b.db else none
  | .registering b _ done _ => if b.keys.contains k && !done.contains k then some b.db else none
  | .idle _ | .waiting _ _ _ | .woken _ _ _ | .popping _ _ _ => none

/-- The id under which a client registers that does not wait yet. -/
def PopPhase.registers : PopPhase → Option ℕ
  | .registering _ id _ _ => some id
  | .idle _ | .looking _ _ _ | .waiting _ _ _ | .woken _ _ _ | .popping _ _ _ => none

namespace BlockingRace

/-- The other commands bring no elements, and the time goes on. -/
def Allowed (s : BlockingRace) : BlockEvent → Prop
  | .other dbs _ => ∀ i k, HasElement s.now dbs i k → HasElement s.now s.databases i k
  | .tick t => s.now ≤ t
  | _ => True

/-- No client is between looking at its keys and waiting for them: when the clients of a key are
taken out of the registry, nobody has overlooked what is there, unless another push has still to
notify, and when a handle is fired, its client does not have yet to wait. -/
def Timely (s : BlockingRace) : BlockEvent → Prop
  | .take k => ∀ c ∈ s.clients, ∀ i ∈ c.overlooks k,
      HasElement s.now s.databases i k → k ∈ s.toNotify.erase k
  | .wake id => ∀ c ∈ s.clients, c.registers ≠ some id
  | _ => True

/-- What is at the key has still to be notified. -/
def Announced (s : BlockingRace) (i : ℕ) (k : Bytes) : Prop :=
  HasElement s.now s.databases i k → k ∈ s.toNotify

/-- Whatever is at the keys that a client has looked at has still to be notified, and a client that
has registered under a key is still registered, unless its handle is about to be fired. -/
def Watched (s : BlockingRace) : PopPhase → Prop
  | .looking b seen todo => b.keys = seen ++ todo ∧ ∀ k ∈ seen, s.Announced b.db k
  | .registering b id done todo => b.keys = done ++ todo ∧ (id ∈ s.toWake ∨
      ∀ k ∈ b.keys, s.Announced b.db k ∧ (k ∈ done → (id, id) ∈ s.registry.at k))
  | .waiting b id _ => id ∈ s.toWake ∨
      ∀ k ∈ b.keys, s.Announced b.db k ∧ (id, id) ∈ s.registry.at k
  | .idle _ | .woken _ _ _ | .popping _ _ _ => True

/-- There are no more elements than before, except where they are announced, and nobody has been
notified or woken. -/
structure Extends (s t : BlockingRace) : Prop where
  elements : ∀ i k, HasElement t.now t.databases i k →
    HasElement s.now s.databases i k ∨ k ∈ t.toNotify
  toNotify : ∀ k ∈ s.toNotify, k ∈ t.toNotify
  toWake : ∀ id ∈ s.toWake, id ∈ t.toWake

/-- The invariant. -/
structure Sound (s : BlockingRace) : Prop where
  fresh : ∀ c ∈ s.clients, ∀ id, c.id? = some id → id < s.registry.nextId
  distinct : ∀ (j j' : ℕ) (c c' : PopPhase) (id : ℕ), s.clients[j]? = some c →
    s.clients[j']? = some c' → c.id? = some id → c'.id? = some id → j = j'
  watched : ∀ c ∈ s.clients, s.Watched c

variable {s t : BlockingRace} {j : ℕ} {c c' : PopPhase}

theorem Extends.announced (h : s.Extends t) {i : ℕ} {k : Bytes} (ha : s.Announced i k) :
    t.Announced i k := fun hhas => (h.elements i k hhas).elim (fun hs => h.toNotify k (ha hs)) id

theorem Watched.mono (h : s.Extends t) (hreg : ∀ id, c.id? = some id → ∀ k,
    (id, id) ∈ s.registry.at k → (id, id) ∈ t.registry.at k) (hc : s.Watched c) : t.Watched c := by
  cases c with
  | idle reply => trivial
  | looking b seen todo => exact ⟨hc.1, fun k hk => h.announced (hc.2 k hk)⟩
  | registering b id done todo =>
    refine ⟨hc.1, hc.2.imp (h.toWake id) fun hall k hk => ?_⟩
    obtain ⟨ha, hr⟩ := hall k hk
    exact ⟨h.announced ha, fun hd => hreg id rfl k (hr hd)⟩
  | waiting b id since =>
    refine Or.imp (h.toWake id) (fun hall k hk => ?_) hc
    obtain ⟨ha, hr⟩ := hall k hk
    exact ⟨h.announced ha, hreg id rfl k hr⟩
  | woken b id since => trivial
  | popping b since todo => trivial

/-- Something happens beside the clients. -/
theorem Sound.extends (h : s.Sound) (hext : s.Extends t) (hclients : t.clients = s.clients)
    (hregistry : t.registry = s.registry) : t.Sound where
  fresh := by rw [hclients, hregistry]; exact h.fresh
  distinct := by rw [hclients]; exact h.distinct
  watched := by
    rw [hclients]
    intro c hc
    refine (h.watched c hc).mono hext fun id _ k hk => ?_
    rwa [hregistry]

/-- One client goes on. It keeps its id or takes a new one, and the others stay registered. -/
theorem Sound.goto (h : s.Sound) (hj : s.clients[j]? = some c) (hext : s.Extends t)
    (hclients : t.clients = s.clients) (hnext : s.registry.nextId ≤ t.registry.nextId)
    (hreg : ∀ id, c.id? ≠ some id → ∀ k, (id, id) ∈ s.registry.at k → (id, id) ∈ t.registry.at k)
    (hid : ∀ id, c'.id? = some id →
      c.id? = some id ∨ s.registry.nextId ≤ id ∧ id < t.registry.nextId)
    (hc' : t.Watched c') : (t.goto j c').Sound := by
  have hset : ∀ (j' : ℕ) (x : PopPhase), (t.goto j c').clients[j']? = some x →
      j' = j ∧ x = c' ∨ j' ≠ j ∧ s.clients[j']? = some x := by
    intro j' x hx
    rw [BlockingRace.goto, hclients, List.getElem?_set] at hx
    by_cases hjj : j = j'
    · subst hjj
      rw [if_pos rfl] at hx
      split_ifs at hx
      exact Or.inl ⟨rfl, (Option.some.inj hx).symm⟩
    · rw [if_neg hjj] at hx
      exact Or.inr ⟨Ne.symm hjj, hx⟩
  have hold : ∀ (j' : ℕ) (x : PopPhase) (id : ℕ), j' ≠ j → s.clients[j']? = some x →
      x.id? = some id → c'.id? ≠ some id ∧ c.id? ≠ some id := by
    intro j' x id hne hx hxid
    have hc : c.id? ≠ some id := fun hcid => hne (h.distinct j' j x c id hx hj hxid hcid)
    refine ⟨fun hcid' => ?_, hc⟩
    rcases hid id hcid' with hcid | ⟨hge, -⟩
    · exact hc hcid
    · exact absurd (h.fresh x (List.mem_of_getElem? hx) id hxid) (Nat.not_lt.mpr hge)
  constructor
  · intro x hx id hxid
    obtain ⟨j', hj'⟩ := List.getElem?_of_mem hx
    rcases hset j' x hj' with ⟨-, rfl⟩ | ⟨-, hx'⟩
    · rcases hid id hxid with hcid | ⟨-, hlt⟩
      · exact (h.fresh c (List.mem_of_getElem? hj) id hcid).trans_le hnext
      · exact hlt
    · exact (h.fresh x (List.mem_of_getElem? hx') id hxid).trans_le hnext
  · intro j₁ j₂ x₁ x₂ id h₁ h₂ hid₁ hid₂
    rcases hset j₁ x₁ h₁ with ⟨rfl, rfl⟩ | ⟨hne₁, h₁'⟩ <;>
      rcases hset j₂ x₂ h₂ with ⟨rfl, rfl⟩ | ⟨hne₂, h₂'⟩
    · rfl
    · exact absurd hid₁ (hold j₂ x₂ id hne₂ h₂' hid₂).1
    · exact absurd hid₂ (hold j₁ x₁ id hne₁ h₁' hid₁).1
    · exact h.distinct j₁ j₂ x₁ x₂ id h₁' h₂' hid₁ hid₂
  · intro x hx
    obtain ⟨j', hj'⟩ := List.getElem?_of_mem hx
    rcases hset j' x hj' with ⟨-, rfl⟩ | ⟨hne, hx'⟩
    · exact hc'
    · exact (h.watched x (List.mem_of_getElem? hx')).mono (t := t.goto j c')
        ⟨hext.1, hext.2, hext.3⟩ fun id hxid => hreg id (hold j' x id hne hx' hxid).2

/-! ### Steps keep the invariant -/

theorem Extends.refl (s : BlockingRace) : s.Extends s :=
  ⟨fun _ _ h => Or.inl h, fun _ h => h, fun _ h => h⟩

/-- A client pops. -/
theorem extends_pop (s : BlockingRace) (d : PopDirection) (i : ℕ) (k : Bytes) :
    s.Extends { s with databases := (d.pop s.now i k { databases := s.databases }).2.databases } :=
  ⟨fun _ _ h => Or.inl h.of_pop, fun _ h => h, fun _ h => h⟩

theorem Sound.call (h : s.Sound) {reply : Option (Except Failure RespValue)}
    (hj : s.clients[j]? = some (.idle reply)) (b : BlockingPop) :
    (s.goto j (.looking b [] b.keys)).Sound := by
  refine h.goto hj (Extends.refl s) rfl le_rfl (fun _ _ _ hk => hk) (fun _ hid => by cases hid) ?_
  exact ⟨rfl, fun k hk => absurd hk List.not_mem_nil⟩

theorem Sound.look (h : s.Sound) {b : BlockingPop} {seen todo : List Bytes} {k : Bytes}
    (hj : s.clients[j]? = some (.looking b seen (k :: todo))) : (s.look j b seen k todo).Sound := by
  have hext := extends_pop s b.popDirection b.db k
  have hold := h.watched _ (List.mem_of_getElem? hj)
  refine h.goto hj hext rfl le_rfl (fun _ _ _ hk => hk) (fun id hid => ?_) ?_
  · revert hid
    rcases (b.popDirection.pop s.now b.db k { databases := s.databases }).1 with e | _ | v
    all_goals exact fun hid => by cases hid
  · rcases pop_cases b.popDirection s.now b.db k { databases := s.databases } with
      ⟨e, hpop, -⟩ | ⟨ks, hpop, hnot, -⟩ | ⟨v, ks, hpop, -⟩
    · rw [hpop]
      trivial
    · rw [hpop] at hext ⊢
      refine ⟨by rw [hold.1, List.append_assoc]; rfl, fun k' hk' => ?_⟩
      rcases List.mem_append.mp hk' with hseen | hlast
      · exact hext.announced (hold.2 k' hseen)
      · rw [List.mem_singleton.mp hlast]
        exact fun hhas => ((hext.elements b.db k hhas).elim (fun hs => absurd hs hnot) fun hk => hk)
    · rw [hpop]
      trivial

theorem Sound.startRegister (h : s.Sound) {b : BlockingPop} {seen : List Bytes}
    (hj : s.clients[j]? = some (.looking b seen [])) :
    ({ s with registry := { s.registry with nextId := s.registry.nextId + 1 } }.goto j
      (.registering b s.registry.nextId [] b.keys)).Sound := by
  have hold := h.watched _ (List.mem_of_getElem? hj)
  have hkeys : b.keys = seen := hold.1.trans (List.append_nil seen)
  refine h.goto hj ⟨fun _ _ h => Or.inl h, fun _ h => h, fun _ h => h⟩ rfl (Nat.le_succ _)
    (fun _ _ _ hk => hk) (fun id hid => ?_) ⟨rfl, Or.inr fun k hk => ⟨?_, fun hd => ?_⟩⟩
  · obtain rfl := Option.some.inj hid
    exact Or.inr ⟨le_rfl, Nat.lt_succ_self _⟩
  · exact hold.2 k (hkeys ▸ hk)
  · exact absurd hd List.not_mem_nil

theorem Sound.register (h : s.Sound) {b : BlockingPop} {id : ℕ} {done todo : List Bytes} {k : Bytes}
    (hj : s.clients[j]? = some (.registering b id done (k :: todo))) :
    ({ s with registry := s.registry.registerKey id k }.goto j
      (.registering b id (done ++ [k]) todo)).Sound := by
  obtain ⟨hkeys, hold⟩ := h.watched _ (List.mem_of_getElem? hj)
  refine h.goto hj ⟨fun _ _ h => Or.inl h, fun _ h => h, fun _ h => h⟩ rfl le_rfl
    (fun _ _ _ hk => BlockRegistry.mem_at_registerKey hk _ _) (fun id hid => Or.inl hid)
    ⟨by rw [hkeys, List.append_assoc]; rfl, hold.imp_right fun hall k' hk' => ?_⟩
  obtain ⟨ha, hr⟩ := hall k' hk'
  refine ⟨ha, fun hd => ?_⟩
  rcases List.mem_append.mp hd with hdone | hlast
  · exact BlockRegistry.mem_at_registerKey (hr hdone) _ _
  · rw [List.mem_singleton.mp hlast]
    exact BlockRegistry.mem_at_registerKey_self

theorem Sound.wait (h : s.Sound) {b : BlockingPop} {id : ℕ} {done : List Bytes}
    (hj : s.clients[j]? = some (.registering b id done [])) :
    (s.goto j (.waiting b id s.now)).Sound := by
  obtain ⟨hkeys, hold⟩ := h.watched _ (List.mem_of_getElem? hj)
  rw [List.append_nil] at hkeys
  refine h.goto hj (Extends.refl s) rfl le_rfl (fun _ _ _ hk => hk) (fun id hid => Or.inl hid)
    (hold.imp_right fun hall k hk => ?_)
  obtain ⟨ha, hr⟩ := hall k hk
  exact ⟨ha, hr (hkeys ▸ hk)⟩

/-- A client leaves the registry. -/
theorem Sound.unregister (h : s.Sound) {b : BlockingPop} {id : ℕ}
    (hj : s.clients[j]? = some c) (hc : c.id? = some id) (hid : c'.id? = none)
    (hc' : ∀ t : BlockingRace, t.Watched c') :
    ({ s with registry := s.registry.unregister id b.keys }.goto j c').Sound := by
  refine h.goto hj ⟨fun _ _ h => Or.inl h, fun _ h => h, fun _ h => h⟩ rfl le_rfl
    (fun id' hne k hk => BlockRegistry.mem_at_unregister hk ?_ b.keys) (fun id' hid' => ?_) (hc' _)
  · rintro rfl
    exact hne hc
  · rw [hid] at hid'
    cases hid'

theorem popped_spec (b : BlockingPop) (since : UInt64) (k : Bytes) (todo : List Bytes)
    (r : Except Failure (Option Bytes)) :
    (popped b since k todo r).id? = none ∧
      ∀ t : BlockingRace, t.Watched (popped b since k todo r) := by
  have hnone : (if todo = [] then emptyReply else .popping b since todo).id? = none ∧
      ∀ t : BlockingRace, t.Watched (if todo = [] then emptyReply else .popping b since todo) := by
    by_cases htodo : todo = []
    · rw [if_pos htodo]
      exact ⟨rfl, fun _ => trivial⟩
    · rw [if_neg htodo]
      exact ⟨rfl, fun _ => trivial⟩
  rcases r with e | _ | v
  · exact hnone
  · exact hnone
  · exact ⟨rfl, fun _ => trivial⟩

theorem Sound.pop (h : s.Sound) {b : BlockingPop} {since : UInt64} {todo : List Bytes} {k : Bytes}
    (hj : s.clients[j]? = some (.popping b since (k :: todo))) :
    (s.pop j b since k todo).Sound := by
  obtain ⟨hid, hwatched⟩ := popped_spec b since k todo
    (b.popDirection.pop s.now b.db k { databases := s.databases }).1
  refine h.goto hj (extends_pop s b.popDirection b.db k) rfl le_rfl (fun _ _ _ hk => hk)
    (fun id' hid' => ?_) (hwatched _)
  cases hid.symm.trans hid'

/-- The clients of a key are taken out of the registry. -/
theorem Sound.take (h : s.Sound) {k : Bytes} (htimely : s.Timely (.take k)) :
    (s.step (.take k)).Sound := by
  rw [step]
  split_ifs with hk
  · have hspec : ∀ id k', ((id, id) ∈ s.registry.at k →
        id ∈ (Tables.notify { blockRegistry := s.registry } k).woken) ∧
        (k' ≠ k → (Tables.notify { blockRegistry := s.registry } k).blockRegistry.at k'
          = s.registry.at k') ∧
        (Tables.notify { blockRegistry := s.registry } k).blockRegistry.nextId
          = s.registry.nextId := fun id k' => s.registry.notify_spec k
    have hother : ∀ i k', k' ≠ k → s.Announced i k' →
        HasElement s.now s.databases i k' → k' ∈ s.toNotify.erase k := by
      intro i k' hne ha hhas
      exact (List.mem_erase_of_ne hne).mpr (ha hhas)
    refine ⟨fun c hc id hid => ?_, h.distinct, fun c hc => ?_⟩
    · rw [(hspec id k).2.2]
      exact h.fresh c hc id hid
    · have hold := h.watched c hc
      have hquiet := htimely c hc
      cases c with
      | idle reply => trivial
      | looking b seen todo =>
        refine ⟨hold.1, fun k' hk' hhas => ?_⟩
        by_cases hkk : k' = k
        · subst hkk
          exact hquiet b.db (if_pos (List.contains_iff_mem.mpr hk')) hhas
        · exact hother b.db k' hkk (hold.2 k' hk') hhas
      | registering b id done todo =>
        refine ⟨hold.1, ?_⟩
        rcases hold.2 with hwake | hall
        · exact Or.inl (List.mem_append_left _ hwake)
        · by_cases hreg : (id, id) ∈ s.registry.at k
          · exact Or.inl (List.mem_append_right _ ((hspec id k).1 hreg))
          · refine Or.inr fun k' hk' => ?_
            obtain ⟨ha, hr⟩ := hall k' hk'
            by_cases hkk : k' = k
            · subst hkk
              have hdone : k' ∉ done := fun hd => hreg (hr hd)
              have hover : (b.keys.contains k' && !done.contains k') = true := by
                simp [hk', hdone]
              exact ⟨fun hhas => hquiet b.db (if_pos hover) hhas, fun hd => absurd hd hdone⟩
            · refine ⟨hother b.db k' hkk ha, fun hd => ?_⟩
              rw [(hspec id k').2.1 hkk]
              exact hr hd
      | waiting b id since =>
        rcases hold with hwake | hall
        · exact Or.inl (List.mem_append_left _ hwake)
        · by_cases hreg : (id, id) ∈ s.registry.at k
          · exact Or.inl (List.mem_append_right _ ((hspec id k).1 hreg))
          · refine Or.inr fun k' hk' => ?_
            obtain ⟨ha, hr⟩ := hall k' hk'
            have hkk : k' ≠ k := by
              rintro rfl
              exact hreg hr
            refine ⟨hother b.db k' hkk ha, ?_⟩
            rw [(hspec id k').2.1 hkk]
            exact hr
      | woken b id since => trivial
      | popping b since todo => trivial
  · exact h

theorem id?_wake (id : ℕ) (c : PopPhase) : (c.wake id).id? = c.id? := by
  cases c with
  | waiting b id' since =>
    rw [PopPhase.wake]
    split_ifs <;> rfl
  | _ => rfl

/-- A handle is fired. -/
theorem Sound.wake (h : s.Sound) {id : ℕ} (htimely : s.Timely (.wake id)) :
    (s.step (.wake id)).Sound := by
  rw [step]
  split_ifs with hid
  · have herase : ∀ id', id' ≠ id → id' ∈ s.toWake → id' ∈ s.toWake.erase id :=
      fun id' hne hmem => (List.mem_erase_of_ne hne).mpr hmem
    refine ⟨fun c hc id' hcid => ?_, fun j j' c c' id' hj hj' hcid hcid' => ?_, fun c hc => ?_⟩
    · obtain ⟨x, hx, rfl⟩ := List.mem_map.mp hc
      rw [id?_wake] at hcid
      exact h.fresh x hx id' hcid
    · dsimp only at hj hj'
      rw [List.getElem?_map] at hj hj'
      obtain ⟨x, hx, rfl⟩ := Option.map_eq_some_iff.mp hj
      obtain ⟨x', hx', rfl⟩ := Option.map_eq_some_iff.mp hj'
      rw [id?_wake] at hcid hcid'
      exact h.distinct j j' x x' id' hx hx' hcid hcid'
    · obtain ⟨x, hx, rfl⟩ := List.mem_map.mp hc
      have hold := h.watched x hx
      cases x with
      | idle reply => trivial
      | looking b seen todo => exact hold
      | registering b id' done todo =>
        have hne : id' ≠ id := fun heq => htimely _ hx (congrArg some heq)
        exact ⟨hold.1, hold.2.imp_left (herase id' hne)⟩
      | waiting b id' since =>
        rw [PopPhase.wake]
        split_ifs with hne
        · trivial
        · exact Or.imp_left (herase id' hne) hold
      | woken b id' since => trivial
      | popping b since todo => trivial
  · exact h

/-- **One step.** -/
theorem Sound.step (h : s.Sound) {e : BlockEvent} (hallowed : s.Allowed e) (htimely : s.Timely e) :
    (s.step e).Sound := by
  cases e with
  | call j b =>
    rw [BlockingRace.step]
    split
    · next reply hj => exact h.call hj b
    · exact h
  | look j =>
    rw [BlockingRace.step]
    split
    · next b seen k todo hj => exact h.look hj
    · next b seen hj =>
      split_ifs
      · exact h.goto hj (Extends.refl s) rfl le_rfl (fun _ _ _ hk => hk)
          (fun _ hid => by cases hid) trivial
      · exact h.startRegister hj
    · exact h
  | register j =>
    rw [BlockingRace.step]
    split
    · next b id done k todo hj => exact h.register hj
    · exact h
  | wait j =>
    rw [BlockingRace.step]
    split
    · next b id done hj => exact h.wait hj
    · exact h
  | push d i k values =>
    refine h.extends ⟨fun i' k' hhas => ?_, fun k' hk' => ?_, fun _ hid => hid⟩ rfl rfl
    · exact hhas.of_push.imp_right (List.mem_append_right _)
    · exact List.mem_append_left _ hk'
  | take k => exact h.take htimely
  | wake id => exact h.wake htimely
  | resume j =>
    rw [BlockingRace.step]
    split
    · next b id since hj =>
      refine h.unregister hj rfl ?_ fun t => ?_
      · split_ifs <;> rfl
      · split_ifs <;> trivial
    · exact h
  | expire j =>
    rw [BlockingRace.step]
    split
    · next b id since hj =>
      split_ifs
      · exact h.unregister hj rfl rfl fun _ => trivial
      · exact h
    · next b id since hj =>
      split_ifs
      · exact h.unregister hj rfl rfl fun _ => trivial
      · exact h
    · exact h
  | pop j =>
    rw [BlockingRace.step]
    split
    · next b since k todo hj => exact h.pop hj
    · next b since hj =>
      exact h.goto hj (Extends.refl s) rfl le_rfl (fun _ _ _ hk => hk) (fun _ hid => by cases hid)
        trivial
    · exact h
  | other dbs notified =>
    refine h.extends ⟨fun i k hhas => Or.inl (hallowed i k hhas), fun k hk => ?_, fun _ hid => hid⟩
      rfl rfl
    exact List.mem_append_left _ hk
  | tick t =>
    exact h.extends ⟨fun i k hhas => Or.inl (hhas.of_le hallowed), fun _ hk => hk,
      fun _ hid => hid⟩ rfl rfl

theorem sound_start (now : UInt64) (dbs : Databases) (n : ℕ) : (start now dbs n).Sound := by
  have hidle : ∀ c ∈ (start now dbs n).clients, c = .idle none :=
    fun c hc => List.eq_of_mem_replicate hc
  refine ⟨fun c hc id hid => ?_, fun j j' c c' id hj _ hid _ => ?_, fun c hc => ?_⟩
  · rw [hidle c hc] at hid
    cases hid
  · rw [hidle c (List.mem_of_getElem? hj)] at hid
    cases hid
  · rw [hidle c hc]
    trivial

/-! ### Lost wake-ups -/

/-- A wake-up of a blocked client is on its way. -/
def WakePending (s : BlockingRace) (b : BlockingPop) (id : ℕ) : Prop :=
  id ∈ s.toWake ∨ ∃ k ∈ b.keys, k ∈ s.toNotify ∧ (id, id) ∈ s.registry.at k

/-- A client has been woken, or is about to be, and has still to look at the key. -/
def Holds (s : BlockingRace) (i : ℕ) (k : Bytes) : PopPhase → Prop
  | .waiting b id _ => b.db = i ∧ k ∈ b.keys ∧ s.WakePending b id
  | .woken b _ _ => b.db = i ∧ k ∈ b.keys
  | .popping b _ todo => b.db = i ∧ k ∈ todo
  | .idle _ | .looking _ _ _ | .registering _ _ _ _ => False

/-- A client waits for an element that is there, and neither it nor another client is going to be
woken for it. -/
def Lost (s : BlockingRace) (j : ℕ) (k : Bytes) : Prop :=
  ∃ b id since, s.clients[j]? = some (.waiting b id since) ∧ k ∈ b.keys ∧
    HasElement s.now s.databases b.db k ∧ ¬s.WakePending b id ∧
    ∀ j' c, j' ≠ j → s.clients[j']? = some c → ¬s.Holds b.db k c

theorem Sound.not_lost (h : s.Sound) (j : ℕ) (k : Bytes) : ¬s.Lost j k := by
  rintro ⟨b, id, since, hj, hk, hhas, hpending, -⟩
  rcases h.watched _ (List.mem_of_getElem? hj) with hwake | hall
  · exact hpending (Or.inl hwake)
  · obtain ⟨ha, hr⟩ := hall k hk
    exact hpending (Or.inr ⟨k, hk, ha hhas, hr⟩)

/-- **No lost wake-up.** For any number of clients and any order of their steps, no client waits for
an element that is there without a wake-up on its way, as long as no client is between its looks at
the keys and its wait when the clients of a key are notified. -/
theorem no_lost_wakeup {now : UInt64} {dbs : Databases} {n : ℕ} {es : List BlockEvent}
    (hes : Run.Along BlockingRace.step (fun s e => s.Allowed e ∧ s.Timely e) (start now dbs n) es)
    (j : ℕ) (k : Bytes) : ¬(es.foldl BlockingRace.step (start now dbs n)).Lost j k := by
  have hsound : (es.foldl BlockingRace.step (start now dbs n)).Sound :=
    hes.invariant (fun s e hs he => hs.step he.1 he.2) (sound_start now dbs n)
  exact hsound.not_lost j k

/-- `BLPOP job 100` in the first database. -/
def jobPop : BlockingPop :=
  { keys := [asBytes "job"], timeoutMs := 100, popDirection := .left, db := 0 }

/-- The client waits before there is a job. -/
def jobWaited : List BlockEvent :=
  [.call 0 jobPop, .look 0, .look 0, .register 0, .wait 0,
    .push .right 0 (asBytes "job") [asBytes "x"], .take (asBytes "job")]

theorem no_lost_wakeup_waited :
    ¬(jobWaited.foldl BlockingRace.step (start 7 (Store.new 1).databases 1)).Lost 0
      (asBytes "job") := by
  have hes : Run.Along BlockingRace.step (fun s e => s.Allowed e ∧ s.Timely e)
      (start 7 (Store.new 1).databases 1) jobWaited := by
    refine ⟨⟨trivial, trivial⟩, ⟨trivial, trivial⟩, ⟨trivial, trivial⟩, ⟨trivial, trivial⟩,
      ⟨trivial, trivial⟩, ⟨trivial, trivial⟩, ⟨trivial, ?_⟩, trivial⟩
    intro c hc i hi
    obtain rfl : c = .waiting jobPop 1 7 := List.mem_singleton.mp hc
    cases hi
  exact no_lost_wakeup hes 0 _

/-- The job comes and is announced after the client has looked for it. -/
def jobOverlooked : List BlockEvent :=
  [.call 0 jobPop, .look 0, .push .right 0 (asBytes "job") [asBytes "x"], .take (asBytes "job"),
    .look 0, .register 0, .wait 0]

/-- The handle of the client is fired before it waits. -/
def jobFiredEarly : List BlockEvent :=
  [.call 0 jobPop, .look 0, .look 0, .register 0,
    .push .right 0 (asBytes "job") [asBytes "x"], .take (asBytes "job"), .wake 1, .wait 0]

/-- What the client waits for at its only key. -/
theorem lost_of_alone {s : BlockingRace} {b : BlockingPop} {id : ℕ} {since : UInt64} {k : Bytes}
    (hclients : s.clients = [.waiting b id since]) (hkeys : b.keys = [k])
    (hhas : HasElement s.now s.databases b.db k) (hwake : id ∉ s.toWake)
    (hnotify : k ∉ s.toNotify) : s.Lost 0 k := by
  refine ⟨b, id, since, by rw [hclients]; rfl, hkeys ▸ List.mem_cons_self, hhas, ?_, ?_⟩
  · rintro (hmem | ⟨k', hk', hmem, -⟩)
    · exact hwake hmem
    · rw [hkeys, List.mem_singleton] at hk'
      exact hnotify (hk' ▸ hmem)
  · intro j' c hne hc
    obtain ⟨hlt, -⟩ := List.getElem?_eq_some_iff.mp hc
    rw [hclients] at hlt
    exact absurd (Nat.lt_one_iff.mp hlt) hne

theorem lost_wakeup :
    (Run.Along BlockingRace.step Allowed (start 7 (Store.new 1).databases 1) jobOverlooked ∧
      (jobOverlooked.foldl BlockingRace.step (start 7 (Store.new 1).databases 1)).Lost 0
        (asBytes "job")) ∧
    Run.Along BlockingRace.step Allowed (start 7 (Store.new 1).databases 1) jobFiredEarly ∧
      (jobFiredEarly.foldl BlockingRace.step (start 7 (Store.new 1).databases 1)).Lost 0
        (asBytes "job") := by
  refine ⟨⟨by simp [Run.Along, jobOverlooked, Allowed],
      lost_of_alone (b := jobPop) rfl rfl ?_ ?_ ?_⟩,
    by simp [Run.Along, jobFiredEarly, Allowed], lost_of_alone (b := jobPop) rfl rfl ?_ ?_ ?_⟩
  all_goals decide +kernel

end BlockingRace

/-! ### Giving up -/

/-- A blocked client, since when it waits, and the keys that it can still take an element from. -/
def PopPhase.blocked : PopPhase → Option (BlockingPop × UInt64 × List Bytes)
  | .waiting b _ since | .woken b _ since => some (b, since, b.keys)
  | .popping b since todo => some (b, since, todo)
  | .idle _ | .looking _ _ _ | .registering _ _ _ _ => none

/-- The client that makes a step of its own. -/
def BlockEvent.client : BlockEvent → Option ℕ
  | .call j _ | .look j | .register j | .wait j | .resume j | .expire j | .pop j => some j
  | .push _ _ _ _ | .take _ | .wake _ | .other _ _ | .tick _ => none

namespace BlockingRace

variable {s : BlockingRace} {j : ℕ} {c : PopPhase}

/-- A blocked client stays blocked, is handed an element, or gives up after its timeout. -/
def GivesUpInTime (s : BlockingRace) (e : BlockEvent) : Prop :=
  ∀ (j : ℕ) (c : PopPhase) b since keys, s.clients[j]? = some c →
    c.blocked = some (b, since, keys) → ∀ c' : PopPhase, (s.step e).clients[j]? = some c' →
      (∃ keys', c'.blocked = some (b, since, keys') ∧ keys' ⊆ keys) ∨
      (∃ k ∈ keys, ∃ v, (b.popDirection.pop s.now b.db k { databases := s.databases }).1
        = .ok (some v) ∧ c' = .idle (some (.ok (bulks [k, v])))) ∨
      c' = emptyReply ∧ b.Elapsed since s.now

/-- A client that has been woken finds an element at the last of its keys, unless its timeout has
elapsed. -/
def Finds (s : BlockingRace) : BlockEvent → Prop
  | .resume j => ∀ b id since, s.clients[j]? = some (.woken b id since) → b.keys = [] →
      b.Elapsed since s.now
  | .pop j => ∀ b since todo, s.clients[j]? = some (.popping b since todo) → todo.length ≤ 1 →
      (∃ k ∈ todo, HasElement s.now s.databases b.db k) ∨ b.Elapsed since s.now
  | _ => True

theorem blocked_wake (id : ℕ) (c : PopPhase) : (c.wake id).blocked = c.blocked := by
  cases c with
  | waiting b id' since =>
    rw [PopPhase.wake]
    split_ifs <;> rfl
  | _ => rfl

/-- **What a step does to the clients**: nothing, one of them goes on, or a handle is fired. -/
theorem clients_step (s : BlockingRace) (e : BlockEvent) :
    (s.step e).clients = s.clients ∨
    (∃ j c, e.client = some j ∧ (s.step e).clients = s.clients.set j c) ∨
    ∃ id, (s.step e).clients = s.clients.map (PopPhase.wake id) := by
  cases e with
  | call j b =>
    rw [step]
    split
    · exact Or.inr (Or.inl ⟨j, _, rfl, rfl⟩)
    · exact Or.inl rfl
  | look j =>
    rw [step]
    split
    · exact Or.inr (Or.inl ⟨j, _, rfl, rfl⟩)
    · split_ifs
      · exact Or.inr (Or.inl ⟨j, _, rfl, rfl⟩)
      · exact Or.inr (Or.inl ⟨j, _, rfl, rfl⟩)
    · exact Or.inl rfl
  | register j =>
    rw [step]
    split
    · exact Or.inr (Or.inl ⟨j, _, rfl, rfl⟩)
    · exact Or.inl rfl
  | wait j =>
    rw [step]
    split
    · exact Or.inr (Or.inl ⟨j, _, rfl, rfl⟩)
    · exact Or.inl rfl
  | resume j =>
    rw [step]
    split
    · exact Or.inr (Or.inl ⟨j, _, rfl, rfl⟩)
    · exact Or.inl rfl
  | expire j =>
    rw [step]
    split
    · split_ifs
      · exact Or.inr (Or.inl ⟨j, _, rfl, rfl⟩)
      · exact Or.inl rfl
    · split_ifs
      · exact Or.inr (Or.inl ⟨j, _, rfl, rfl⟩)
      · exact Or.inl rfl
    · exact Or.inl rfl
  | pop j =>
    rw [step]
    split
    · exact Or.inr (Or.inl ⟨j, _, rfl, rfl⟩)
    · exact Or.inr (Or.inl ⟨j, _, rfl, rfl⟩)
    · exact Or.inl rfl
  | wake id =>
    rw [step]
    split_ifs
    · exact Or.inr (Or.inr ⟨id, rfl⟩)
    · exact Or.inl rfl
  | take k =>
    rw [step]
    split_ifs
    · exact Or.inl rfl
    · exact Or.inl rfl
  | push d i k values => exact Or.inl rfl
  | other dbs notified => exact Or.inl rfl
  | tick t => exact Or.inl rfl

/-- The steps of the others leave a blocked client blocked. -/
theorem step_of_ne {e : BlockEvent} (h : e.client ≠ some j) (hj : s.clients[j]? = some c) :
    ∃ c', (s.step e).clients[j]? = some c' ∧ c'.blocked = c.blocked := by
  rcases clients_step s e with he | ⟨j', c', hclient, he⟩ | ⟨id, he⟩
  · exact ⟨c, by rw [he, hj], rfl⟩
  · have hne : j' ≠ j := fun heq => h (hclient.trans (congrArg some heq))
    exact ⟨c, by rw [he, List.getElem?_set_ne hne, hj], rfl⟩
  · exact ⟨c.wake id, by rw [he, List.getElem?_map, hj]; rfl, blocked_wake id c⟩

/-- A client that has been woken looks at a key. -/
theorem pop_spec (s : BlockingRace) (b : BlockingPop) (since : UInt64) (k : Bytes)
    (todo : List Bytes) :
    (HasElement s.now s.databases b.db k ∧ ∃ v,
      (b.popDirection.pop s.now b.db k { databases := s.databases }).1 = .ok (some v) ∧
      popped b since k todo (b.popDirection.pop s.now b.db k { databases := s.databases }).1
        = .idle (some (.ok (bulks [k, v])))) ∨
    ¬HasElement s.now s.databases b.db k ∧
      popped b since k todo (b.popDirection.pop s.now b.db k { databases := s.databases }).1
        = if todo = [] then emptyReply else .popping b since todo := by
  rcases pop_cases b.popDirection s.now b.db k { databases := s.databases } with
    ⟨e, hpop, hnot, -⟩ | ⟨ks, hpop, hnot, -⟩ | ⟨v, ks, hpop, hhas, -⟩
  · exact Or.inr ⟨hnot, by rw [hpop]; rfl⟩
  · exact Or.inr ⟨hnot, by rw [hpop]; rfl⟩
  · exact Or.inl ⟨hhas, v, by rw [hpop], by rw [hpop]; rfl⟩

theorem GivesUpInTime.finds {e : BlockEvent} (h : s.GivesUpInTime e) : s.Finds e := by
  cases e with
  | resume j =>
    intro b id since hj hkeys
    have hstep : (s.step (.resume j)).clients[j]? = some emptyReply := by
      rw [step, hj]
      dsimp only
      rw [if_pos hkeys]
      exact clients_goto_self (s := { s with registry := s.registry.unregister id b.keys }) hj _
    rcases h j _ b since b.keys hj rfl _ hstep with ⟨_, hblocked, -⟩ | ⟨k, hk, -⟩ | ⟨-, helapsed⟩
    · cases hblocked
    · rw [hkeys] at hk
      cases hk
    · exact helapsed
  | pop j =>
    intro b since todo hj hlast
    cases todo with
    | nil =>
      have hstep : (s.step (.pop j)).clients[j]? = some emptyReply := by
        rw [step, hj]
        exact clients_goto_self hj _
      rcases h j _ b since [] hj rfl _ hstep with ⟨_, hblocked, -⟩ | ⟨k, hk, -⟩ | ⟨-, helapsed⟩
      · cases hblocked
      · cases hk
      · exact Or.inr helapsed
    | cons k todo =>
      obtain rfl : todo = [] :=
        List.length_eq_zero_iff.mp (Nat.le_zero.mp (Nat.le_of_succ_le_succ hlast))
      rcases pop_spec s b since k [] with
        ⟨hhas, -⟩ | ⟨-, hpopped⟩
      · exact Or.inl ⟨k, List.mem_cons_self, hhas⟩
      · have hstep : (s.step (.pop j)).clients[j]? = some emptyReply := by
          rw [step, hj]
          dsimp only
          rw [pop, hpopped]
          exact clients_goto_self (s := { s with databases := _ }) hj _
        rcases h j _ b since [k] hj rfl _ hstep with ⟨_, hblocked, -⟩ | ⟨k', -, v, -, heq⟩ |
          ⟨-, helapsed⟩
        · cases hblocked
        · cases heq
        · exact Or.inr helapsed
  | _ => trivial

/-- **The steps of a blocked client.** It gives up after its timeout, leaves the registry when it
has been woken, and looks at its keys again. -/
theorem step_blocked {e : BlockEvent} {b : BlockingPop} {since : UInt64} {keys : List Bytes}
    (hclient : e.client = some j) (hj : s.clients[j]? = some c)
    (hc : c.blocked = some (b, since, keys)) :
    s.step e = s ∨ ((s.step e).clients[j]? = some emptyReply ∧ b.Elapsed since s.now) ∨
    (∃ id, e = .resume j ∧ c = .woken b id since ∧ keys = b.keys ∧ (s.step e).clients[j]?
      = some (if b.keys = [] then emptyReply else .popping b since b.keys)) ∨
    e = .pop j ∧ c = .popping b since keys := by
  cases e with
  | call j' b' =>
    obtain rfl := Option.some.inj hclient
    rw [step, hj]
    cases c with
    | idle reply => cases hc
    | _ => exact Or.inl rfl
  | look j' =>
    obtain rfl := Option.some.inj hclient
    rw [step, hj]
    cases c with
    | looking b' seen todo => cases hc
    | _ => exact Or.inl rfl
  | register j' =>
    obtain rfl := Option.some.inj hclient
    rw [step, hj]
    cases c with
    | registering b' id done todo => cases hc
    | _ => exact Or.inl rfl
  | wait j' =>
    obtain rfl := Option.some.inj hclient
    rw [step, hj]
    cases c with
    | registering b' id done todo => cases hc
    | _ => exact Or.inl rfl
  | resume j' =>
    obtain rfl := Option.some.inj hclient
    rw [step, hj]
    cases c with
    | woken b' id since' =>
      cases hc
      exact Or.inr (Or.inr (Or.inl ⟨id, rfl, rfl, rfl, clients_goto_self
        (s := { s with registry := s.registry.unregister id b.keys }) hj _⟩))
    | _ => exact Or.inl rfl
  | expire j' =>
    obtain rfl := Option.some.inj hclient
    have hgives : ∀ id, b.Elapsed since s.now →
        (({ s with registry := s.registry.unregister id b.keys }.goto j' emptyReply).clients[j']?
          = some emptyReply ∧ b.Elapsed since s.now) := fun id helapsed =>
      ⟨clients_goto_self (s := { s with registry := s.registry.unregister id b.keys }) hj _,
        helapsed⟩
    rw [step, hj]
    cases c with
    | waiting b' id since' =>
      cases hc
      by_cases helapsed : b.Elapsed since s.now
      · dsimp only
        rw [if_pos helapsed]
        exact Or.inr (Or.inl (hgives id helapsed))
      · exact Or.inl (if_neg helapsed)
    | woken b' id since' =>
      cases hc
      by_cases helapsed : b.Elapsed since s.now
      · dsimp only
        rw [if_pos helapsed]
        exact Or.inr (Or.inl (hgives id helapsed))
      · exact Or.inl (if_neg helapsed)
    | _ => exact Or.inl rfl
  | pop j' =>
    obtain rfl := Option.some.inj hclient
    cases c with
    | popping b' since' todo =>
      cases hc
      exact Or.inr (Or.inr (Or.inr ⟨rfl, rfl⟩))
    | _ => exact Or.inl (by rw [step, hj])
  | _ => cases hclient

theorem Finds.givesUpInTime {e : BlockEvent} (h : s.Finds e) : s.GivesUpInTime e := by
  intro j c b since keys hj hblocked c' hc'
  by_cases hclient : e.client = some j
  · rcases step_blocked hclient hj hblocked with hsame | ⟨hgives, helapsed⟩ |
      ⟨id, rfl, rfl, rfl, hresume⟩ | ⟨rfl, rfl⟩
    · rw [hsame, hj] at hc'
      exact Or.inl ⟨keys, Option.some.inj hc' ▸ hblocked, List.Subset.refl keys⟩
    · exact Or.inr (Or.inr ⟨Option.some.inj (hc'.symm.trans hgives), helapsed⟩)
    · obtain rfl := Option.some.inj (hc'.symm.trans hresume)
      by_cases hkeys : b.keys = []
      · exact Or.inr (Or.inr ⟨if_pos hkeys, h b id since hj hkeys⟩)
      · exact Or.inl ⟨b.keys, by rw [if_neg hkeys]; rfl, List.Subset.refl b.keys⟩
    · cases keys with
      | nil =>
        have hgives : (s.step (.pop j)).clients[j]? = some emptyReply := by
          rw [step, hj]
          exact clients_goto_self hj _
        obtain rfl := Option.some.inj (hc'.symm.trans hgives)
        rcases h b since [] hj (Nat.zero_le 1) with ⟨k, hk, -⟩ | helapsed
        · cases hk
        · exact Or.inr (Or.inr ⟨rfl, helapsed⟩)
      | cons k todo =>
        have hpop : (s.step (.pop j)).clients[j]? = some (popped b since k todo
            (b.popDirection.pop s.now b.db k { databases := s.databases }).1) := by
          rw [step, hj]
          exact clients_goto_self (s := { s with databases := _ }) hj _
        obtain rfl := Option.some.inj (hc'.symm.trans hpop)
        rcases pop_spec s b since k todo with
          ⟨-, v, hv, hpopped⟩ | ⟨hnot, hpopped⟩
        · exact Or.inr (Or.inl ⟨k, List.mem_cons_self, v, hv, hpopped⟩)
        · rw [hpopped]
          by_cases htodo : todo = []
          · subst htodo
            rcases h b since [k] hj le_rfl with ⟨k', hk', hhas⟩ | helapsed
            · exact absurd (List.mem_singleton.mp hk' ▸ hhas) hnot
            · exact Or.inr (Or.inr ⟨if_pos rfl, helapsed⟩)
          · rw [if_neg htodo]
            exact Or.inl ⟨todo, rfl, List.subset_cons_self k todo⟩
  · obtain ⟨x, hx, hxblocked⟩ := step_of_ne hclient hj
    obtain rfl := Option.some.inj (hx.symm.trans hc')
    exact Or.inl ⟨keys, hxblocked.trans hblocked, List.Subset.refl keys⟩

/-- **Giving up.** In any run, whatever its clients and their steps are, a blocked client is handed
an element or stays blocked until its timeout has elapsed exactly when whoever has been woken finds
an element at the last of its keys. -/
theorem gives_up_on_timeout_iff (s : BlockingRace) (es : List BlockEvent) :
    Run.Along BlockingRace.step GivesUpInTime s es ↔ Run.Along BlockingRace.step Finds s es :=
  ⟨fun h => h.mono fun _ _ he => he.finds, fun h => h.mono fun _ _ he => he.givesUpInTime⟩

/-- Two clients wait for the job, and one of them gets it. -/
def jobForTwo : List BlockEvent :=
  [.call 0 jobPop, .call 1 jobPop, .look 0, .look 0, .register 0, .wait 0,
    .look 1, .look 1, .register 1, .wait 1,
    .push .right 0 (asBytes "job") [asBytes "x"], .take (asBytes "job"), .wake 1, .wake 2,
    .resume 0, .resume 1, .pop 0]

theorem gives_up_early :
    ¬Run.Along BlockingRace.step GivesUpInTime (start 7 (Store.new 1).databases 2)
      (jobForTwo ++ [.pop 1]) := by
  rw [Run.along_append]
  rintro ⟨-, hgives, -⟩
  have hj : (jobForTwo.foldl BlockingRace.step (start 7 (Store.new 1).databases 2)).clients[1]?
      = some (.popping jobPop 7 [asBytes "job"]) := rfl
  rcases hgives.finds jobPop 7 [asBytes "job"] hj le_rfl with ⟨k, hk, hhas⟩ | helapsed
  · rw [List.mem_singleton.mp hk] at hhas
    revert hhas
    decide +kernel
  · revert helapsed
    decide +kernel

end BlockingRace

end VeloDB
