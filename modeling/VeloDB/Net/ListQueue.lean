import VeloDB.Lib.Calls
import VeloDB.Net.Unlogged
import Mathlib.Data.Multiset.AddSub

/-!
# Lists as queues

Elements get into a list by `LPUSH` and `RPUSH`, and out of it on three ways: by `LPOP` and `RPOP`,
by a blocking pop that finds something at once, and by the pop of a client that has been woken. The
last two go through several keys, one call of the store for each.

Here every command is a program of such calls and the clients are a `Pool`, so that the calls come
in any order. A client that sends one command after the other is one program for each of them.

## Main results

* `popFirstCalls_alone`, `unblockCalls_alone` — the loops over several keys
* `ListCommand.guarantees` — what one call of a command does to a list
* `list_conserved` — no element is lost and none is returned twice
-/

namespace VeloDB

open Rust

/-- A program over the keyspace whose calls are given a moment of their own. -/
abbrev MomentCalls := Calls Env Keyspace Failure

/-- `popFirst`, call by call. -/
def popFirstCalls (d : PopDirection) (i : ℕ) : List Bytes → MomentCalls (Option (Bytes × Bytes))
  | [] => pure none
  | key :: keys => do
    match ← Calls.atomic fun env => d.pop env.now i key with
    | some val => pure (some (key, val))
    | none => popFirstCalls d i keys

/-- `unblock_pop`, call by call. Errors are passed over. -/
def unblockCalls (d : PopDirection) (i : ℕ) : List Bytes → MomentCalls RespValue
  | [] => pure (.array (some []))
  | key :: keys => .call (fun env ks => (d.pop env.now i key ks).2) fun env ks =>
    match (d.pop env.now i key ks).1 with
    | .ok (some val) => pure (bulks [key, val])
    | _ => unblockCalls d i keys

theorem popFirstCalls_alone (d : PopDirection) (i : ℕ) (env : Env) (keys : List Bytes) :
    (popFirstCalls d i keys).alone env = Cmd.popFirst (d.pop env.now i) keys := by
  induction keys with
  | nil => rfl
  | cons key keys ih =>
    rw [popFirstCalls, Calls.alone_bind, Calls.alone_atomic, Cmd.popFirst]
    refine congrArg _ (funext fun v => ?_)
    cases v with
    | none => exact ih
    | some val => rfl

theorem unblockCalls_alone (d : PopDirection) (i : ℕ) (env : Env) (keys : List Bytes) :
    (unblockCalls d i keys).alone env = unblockPop (d.pop env.now i) keys := by
  induction keys with
  | nil => rfl
  | cons key keys ih =>
    funext ks
    rw [unblockCalls, Calls.alone, unblockPop]
    dsimp only
    rcases d.pop env.now i key ks with ⟨_ | _ | val, ks'⟩
    · exact congrFun ih ks'
    · exact congrFun ih ks'
    · rfl

/-- What clients do with the list at a key. A blocking pop and a pop after a wait go through keys of
their own, which may or may not contain that key. -/
inductive ListCommand
  | push (d : PopDirection) (values : List Bytes)
  | pop (d : PopDirection)
  | blockingPop (d : PopDirection) (keys : List Bytes)
  | unblock (d : PopDirection) (keys : List Bytes)

/-- The reply of a blocking pop. One that has found nothing is answered with nil or waits. -/
def popReply : Option (Bytes × Bytes) → MomentCalls RespValue
  | some (key, val) => pure (bulks [key, val])
  | none => pure .nil

namespace ListCommand

/-- The command, call by call. -/
def calls (i : ℕ) (k : Bytes) : ListCommand → MomentCalls RespValue
  | push .left values => .atomic fun env => Cmd.lpush env i (k :: values)
  | push .right values => .atomic fun env => Cmd.rpush env i (k :: values)
  | pop .left => .atomic fun env => Cmd.lpop env i [k]
  | pop .right => .atomic fun env => Cmd.rpop env i [k]
  | blockingPop d keys => popFirstCalls d i keys >>= popReply
  | unblock d keys => unblockCalls d i keys

/-- The elements that a command has put into the list, by its result. -/
def gives : ListCommand → Except Failure RespValue → List Bytes
  | push _ values, .ok _ => values
  | _, _ => []

/-- The elements of the list that a command returns. -/
def takes (k : Bytes) : ListCommand → Except Failure RespValue → List Bytes
  | pop _, .ok (.bulkString (some v)) => [v]
  | blockingPop .., .ok (.array (some [.bulkString (some key), .bulkString (some v)]))
  | unblock .., .ok (.array (some [.bulkString (some key), .bulkString (some v)])) =>
    if key = k then [v] else []
  | _, _ => []

/-- Puts elements at the end of the list, or takes them from its front. -/
def IsFifo : ListCommand → Prop
  | push d _ => d = .right
  | pop d | blockingPop d _ | unblock d _ => d = .left

end ListCommand

/-! ### What a call does to a list -/

open ContainerWrite (storedList)

/-- The end of the list at which a command works. -/
def ListCommand.direction : ListCommand → PopDirection
  | push d _ | pop d | blockingPop d _ | unblock d _ => d

/-- A list with more elements at one of its ends. -/
def PopDirection.attach : PopDirection → List Bytes → List Bytes → List Bytes
  | .left, values, l => values ++ l
  | .right, values, l => l ++ values

/-- The key never expires. -/
def NoExpiry (i : ℕ) (k : Bytes) (s : Keyspace) : Prop :=
  ∀ e, s.databases.find i k = some e → e.expireAt = none

/-- A call moves the elements between the list and its clients. -/
def Transfers (i : ℕ) (k : Bytes) (c : ListCommand) (s s' : Keyspace)
    (r : Option (Except Failure RespValue)) : Prop :=
  c.direction.attach ((r.map (c.takes k)).getD []) (storedList s'.databases i k)
    = c.direction.attach ((r.map c.gives).getD []) (storedList s.databases i k)

@[simp] theorem PopDirection.attach_nil (d : PopDirection) (l : List Bytes) : d.attach [] l = l := by
  cases d
  · rfl
  · exact List.append_nil l

theorem PopDirection.attach_split (d : PopDirection) {l : List Bytes} {v : Bytes}
    (h : (d.split l).1 = some v) : d.attach [v] (d.split l).2 = l := by
  cases d with
  | left => exact List.cons_head?_tail h
  | right => exact List.dropLast_append_getLast? v h

theorem PopDirection.split_none (d : PopDirection) {l : List Bytes} (h : (d.split l).1 = none) :
    (d.split l).2 = l := by
  cases l with
  | nil => rw [d.split_nil]
  | cons a l =>
    obtain ⟨v, hv, -⟩ := d.split_cons a l
    rw [hv] at h
    cases h

/-- The element of the list at `k` that the pop of a key has returned. -/
def poppedFrom (k key : Bytes) : Except Failure (Option Bytes) → List Bytes
  | .ok (some v) => if key = k then [v] else []
  | .ok none | .error _ => []

variable {i : ℕ} {k : Bytes} {s : Keyspace}

theorem storedList_of_find {dbs : Databases} {e : Entry} (he : dbs.find i k = some e)
    {l : List Bytes} (hl : Kind.list.unwrap e.value = some l) : storedList dbs i k = l := by
  rw [storedList, he]
  show (Kind.list.unwrap e.value).getD [] = l
  rw [hl]
  rfl

/-- What a pop of a key leaves in the list. -/
theorem pop_storedList (d : PopDirection) (now : UInt64) (key : Bytes) (h : NoExpiry i k s) :
    NoExpiry i k (d.pop now i key s).2 ∧
    d.attach (poppedFrom k key (d.pop now i key s).1)
      (storedList (d.pop now i key s).2.databases i k) = storedList s.databases i k := by
  rw [d.pop_eq]
  rcases Keyspace.updateAs_cases .list now i key (.ok none)
    (fun l => (.ok (d.split l).1, (d.split l).2)) s with ⟨e, he⟩ | ⟨-, -, he⟩ | ⟨e, l, hi, he, hl, hrun⟩
  · rw [he]
    exact ⟨h, d.attach_nil _⟩
  · rw [he]
    exact ⟨h, d.attach_nil _⟩
  · rw [hrun]
    dsimp only
    by_cases hkey : key = k
    · subst hkey
      have hfind : s.databases.find i key = some e := (Option.filter_eq_some_iff.mp he).1
      have hput := Databases.find_put_self (k := key)
        (e := { e with value := Kind.list.wrap (d.split l).2 }) hi
      refine ⟨fun e' he' => ?_, ?_⟩
      · obtain rfl := Option.some.inj (hput.symm.trans he')
        exact h e hfind
      · rw [storedList_of_find hput rfl, storedList_of_find hfind hl]
        cases hsplit : (d.split l).1 with
        | none => rw [poppedFrom, d.attach_nil, d.split_none hsplit]
        | some v =>
          rw [poppedFrom, if_pos rfl]
          exact d.attach_split hsplit
    · have hput : ∀ e', (s.databases.put i key e').find i k = s.databases.find i k :=
        fun e' => Databases.find_put_of_ne (Or.inr (Ne.symm hkey))
      refine ⟨fun e' he' => h e' ((hput _).symm.trans he'), ?_⟩
      have hnil : poppedFrom k key (.ok (d.split l).1) = [] := by
        cases (d.split l).1 with
        | none => rfl
        | some v => exact if_neg hkey
      rw [hnil, d.attach_nil, storedList, storedList, hput]

/-- What a push leaves in the list. -/
theorem push_storedList (d : PopDirection) (values : List Bytes)
    {f : List Bytes → Except Failure ℕ × List Bytes} (hok : ∀ l, ∃ n, (f l).1 = .ok n)
    (hf : ∀ l, (f l).2 = d.attach values l) (h : NoExpiry i k s) {m : KeyM ℕ}
    (hm : m = Keyspace.upsertAs .list i k [] f >>= fun len =>
      Keyspace.notify k >>= fun _ => pure len) :
    NoExpiry i k ((m >>= fun len => (pure (.count len) : KeyM RespValue)) s).2 ∧
    storedList ((m >>= fun len => (pure (.count len) : KeyM RespValue)) s).2.databases i k
      = d.attach ((ListCommand.push d values).gives
          ((m >>= fun len => (pure (.count len) : KeyM RespValue)) s).1)
        (storedList s.databases i k) := by
  rw [hm, Proc.bind_assoc]
  rcases Keyspace.upsertAs_cases .list i k [] f s with ⟨e, he, -⟩ | ⟨l, hi, hl, hrun⟩
  · rw [Proc.bind_error he]
    exact ⟨h, (d.attach_nil _).symm⟩
  · obtain ⟨n, hn⟩ := hok l
    rw [hn] at hrun
    rw [Proc.bind_ok hrun]
    have hput := Databases.find_put_self (k := k)
      (e := { (s.databases.find i k).getD { value := Kind.list.wrap [] } with
        value := Kind.list.wrap (f l).2 }) hi
    refine ⟨fun e he => ?_, ?_⟩
    · obtain rfl := Option.some.inj (hput.symm.trans he)
      cases hfind : s.databases.find i k with
      | none => rfl
      | some e => exact h e hfind
    · show storedList (s.databases.put i k _) i k = d.attach values _
      rw [storedList_of_find hput rfl, hf, ContainerWrite.storedList_eq hl]

/-- A blocking pop that has still to look at some keys has returned nothing. -/
theorem takes_popFirstCalls (d : PopDirection) (keys keys' : List Bytes) :
    (((popFirstCalls d i keys >>= popReply).result.map
      ((ListCommand.blockingPop d keys').takes k)).getD []) = [] := by
  cases keys with
  | nil => rfl
  | cons key keys => rfl

theorem takes_unblockCalls (d : PopDirection) (keys keys' : List Bytes) :
    ((unblockCalls d i keys).result.map ((ListCommand.unblock d keys').takes k)).getD [] = [] := by
  cases keys with
  | nil => rfl
  | cons key keys => rfl

namespace ListCommand

/-- A pop that is the only call of its command. -/
theorem pop_guarantees (d : PopDirection) (env : Env) (h : NoExpiry i k s) :
    let r := (d.pop env.now i k >>= fun v => (pure (bulkOrNil v) : KeyM RespValue)) s
    NoExpiry i k r.2 ∧ Transfers i k (.pop d) s r.2 (some r.1) := by
  obtain ⟨hexpiry, hstored⟩ := pop_storedList d env.now k h
  dsimp only
  rcases hrun : d.pop env.now i k s with ⟨e | v, s'⟩
  · rw [hrun] at hexpiry hstored
    rw [Proc.bind_error hrun]
    exact ⟨hexpiry, hstored.trans (d.attach_nil _).symm⟩
  · rw [hrun] at hexpiry hstored
    rw [Proc.bind_ok hrun]
    refine ⟨hexpiry, Eq.trans ?_ (hstored.trans (d.attach_nil _).symm)⟩
    cases v with
    | none => rfl
    | some v =>
      show d.attach [v] _ = d.attach (poppedFrom k k (.ok (some v))) _
      rw [poppedFrom, if_pos rfl]
      rfl

/-- **What one call of a command does to the list.** -/
theorem guarantees (c : ListCommand) :
    (c.calls i k).Guarantees (NoExpiry i k) (Transfers i k c) := by
  cases c with
  | push d values =>
    cases d with
    | left =>
      intro env s h
      obtain ⟨hexpiry, hstored⟩ := push_storedList .left values (m := Keyspace.lpush i k values)
        (fun l => ⟨_, rfl⟩) (foldl_push_front values) h rfl
      exact ⟨hexpiry, (PopDirection.attach_nil .left _).trans hstored, trivial⟩
    | right =>
      intro env s h
      obtain ⟨hexpiry, hstored⟩ := push_storedList .right values (m := Keyspace.rpush i k values)
        (fun l => ⟨_, rfl⟩) (foldl_push_back values) h rfl
      exact ⟨hexpiry, (PopDirection.attach_nil .right _).trans hstored, trivial⟩
  | pop d =>
    cases d with
    | left =>
      intro env s h
      obtain ⟨hexpiry, htransfers⟩ := pop_guarantees .left env h
      exact ⟨hexpiry, htransfers, trivial⟩
    | right =>
      intro env s h
      obtain ⟨hexpiry, htransfers⟩ := pop_guarantees .right env h
      exact ⟨hexpiry, htransfers, trivial⟩
  | blockingPop d keys =>
    have hgives : ∀ o : Option (Except Failure RespValue),
        (o.map (blockingPop d keys).gives).getD [] = [] := by
      intro o
      cases o <;> rfl
    have hall : ∀ keys', Calls.Guarantees (NoExpiry i k) (Transfers i k (.blockingPop d keys))
        (popFirstCalls d i keys' >>= popReply) := by
      intro keys'
      induction keys' with
      | nil => trivial
      | cons key keys' ih =>
        intro env s h
        obtain ⟨hexpiry, hstored⟩ := pop_storedList d env.now key h
        refine ⟨hexpiry, ?_⟩
        rw [Transfers, hgives, PopDirection.attach_nil, ← hstored]
        dsimp only
        rcases hrun : d.pop env.now i key s with ⟨e | _ | v, s'⟩
        · exact ⟨rfl, trivial⟩
        · exact ⟨congrArg (d.attach · _) (takes_popFirstCalls d keys' keys), ih⟩
        · exact ⟨rfl, trivial⟩
    exact hall keys
  | unblock d keys =>
    have hgives : ∀ o : Option (Except Failure RespValue),
        (o.map (unblock d keys).gives).getD [] = [] := by
      intro o
      cases o <;> rfl
    have hall : ∀ keys', Calls.Guarantees (NoExpiry i k) (Transfers i k (.unblock d keys))
        (unblockCalls d i keys') := by
      intro keys'
      induction keys' with
      | nil => trivial
      | cons key keys' ih =>
        intro env s h
        obtain ⟨hexpiry, hstored⟩ := pop_storedList d env.now key h
        refine ⟨hexpiry, ?_⟩
        rw [Transfers, hgives, PopDirection.attach_nil, ← hstored]
        dsimp only
        rcases hrun : d.pop env.now i key s with ⟨e | _ | v, s'⟩
        · exact ⟨congrArg (d.attach · _) (takes_unblockCalls d keys' keys), ih⟩
        · exact ⟨congrArg (d.attach · _) (takes_unblockCalls d keys' keys), ih⟩
        · exact ⟨rfl, trivial⟩
    exact hall keys

end ListCommand

/-! ### Clients of a list -/

/-- Clients that run programs whose calls are given a moment. -/
abbrev MomentPool (T : Type) := Pool T Env Keyspace Failure RespValue

namespace MomentPool

variable {T : Type} [DecidableEq T]

/-- Clients of a list of which none has begun. -/
def onList (dbs : Databases) (i : ℕ) (k : Bytes) (command : T → ListCommand) : MomentPool T where
  state := ⟨dbs, []⟩
  program t := (command t).calls i k

/-- What a call says about its result, if it is the last one of its command. -/
def byLastCall (f : T → Except Failure RespValue → List Bytes) (p : MomentPool T) :
    PoolEvent T Env Keyspace → List Bytes
  | .call t env =>
    match p.result t with
    | some _ => []
    | none => ((Pool.result (p.step (.call t env)) t).map (f t)).getD []
  | .other _ => []

/-- The elements that have been pushed, in the order of the calls. -/
def pushed (command : T → ListCommand) : MomentPool T → List (PoolEvent T Env Keyspace) →
    List Bytes :=
  Run.gathered Pool.step (byLastCall fun t => (command t).gives)

/-- The elements that have been returned, in the order of the calls. -/
def returned (k : Bytes) (command : T → ListCommand) : MomentPool T →
    List (PoolEvent T Env Keyspace) → List Bytes :=
  Run.gathered Pool.step (byLastCall fun t => (command t).takes k)

/-- Nobody else writes the key. -/
def LeavesList (i : ℕ) (k : Bytes) (p : MomentPool T) : PoolEvent T Env Keyspace → Prop
  | .call _ _ => True
  | .other s => s.databases.find i k = p.state.databases.find i k

end MomentPool

variable {T : Type} [DecidableEq T]

/-- Every client keeps to the guarantee of its command. -/
structure OnList (i : ℕ) (k : Bytes) (command : T → ListCommand) (p : MomentPool T) : Prop where
  expiry : NoExpiry i k p.state
  guarantees : ∀ t, (p.program t).Guarantees (NoExpiry i k) (Transfers i k (command t))

theorem PopDirection.attach_perm (d : PopDirection) (values l : List Bytes) :
    (d.attach values l).Perm (l ++ values) := by
  cases d with
  | left => exact List.perm_append_comm
  | right => exact List.Perm.refl _

/-- A command at the right ends leaves the elements in their order. -/
theorem Transfers.fifo {c : ListCommand} (hc : c.IsFifo) {s s' : Keyspace}
    {r : Option (Except Failure RespValue)} (h : Transfers i k c s s' r) :
    storedList s.databases i k ++ (r.map c.gives).getD []
      = (r.map (c.takes k)).getD [] ++ storedList s'.databases i k := by
  rw [Transfers] at h
  cases c with
  | push d values =>
    obtain rfl : d = .right := hc
    have htakes : (r.map ((ListCommand.push .right values).takes k)).getD [] = [] := by
      cases r <;> rfl
    rw [htakes] at h ⊢
    exact h.symm.trans (List.append_nil _)
  | pop d | blockingPop d keys | unblock d keys =>
    obtain rfl : d = .left := hc
    have hgives : ∀ c : ListCommand, (∀ r, c.gives r = []) → (r.map c.gives).getD [] = [] := by
      intro c hc
      cases r with
      | none => rfl
      | some r => exact hc r
    rw [hgives _ fun _ => rfl] at h ⊢
    exact (List.append_nil _).trans h.symm

namespace OnList

variable {command : T → ListCommand} {p : MomentPool T}

/-- **One call.** -/
theorem step (h : OnList i k command p) {e : PoolEvent T Env Keyspace}
    (he : p.LeavesList i k e) : OnList i k command (p.step e) ∧
      (storedList p.state.databases i k ++ p.byLastCall (fun t => (command t).gives) e).Perm
        (p.byLastCall (fun t => (command t).takes k) e ++
          storedList (p.step e).state.databases i k) ∧
      ((∀ t, (command t).IsFifo) →
        storedList p.state.databases i k ++ p.byLastCall (fun t => (command t).gives) e
          = p.byLastCall (fun t => (command t).takes k) e ++
            storedList (p.step e).state.databases i k) := by
  cases e with
  | other s =>
    have hfind : s.databases.find i k = p.state.databases.find i k := he
    have hstored : storedList (p.step (.other s)).state.databases i k
        = storedList p.state.databases i k := by
      rw [storedList, storedList]
      exact congrArg (fun o : Option Entry => (o.bind _).getD []) hfind
    refine ⟨⟨fun e' he' => h.expiry e' (hfind.symm.trans he'), h.guarantees⟩, ?_, fun _ => ?_⟩
    · rw [hstored]
      exact (List.append_nil _).symm ▸ List.Perm.refl _
    · rw [hstored]
      exact List.append_nil _
  | call t env =>
    cases hr : p.result t with
    | some r =>
      have hsame : p.step (.call t env) = p := Pool.step_done (Pool.program_of_result hr)
      have hnil : ∀ f, p.byLastCall f (.call t env) = [] := by
        intro f
        rw [MomentPool.byLastCall, hr]
      rw [hsame, hnil, hnil, List.append_nil]
      exact ⟨h, List.Perm.refl _, fun _ => rfl⟩
    | none =>
      obtain ⟨hexpiry, htransfers, hall⟩ := Pool.step_guarantees h.guarantees h.expiry hr env
      have hlast : ∀ f, p.byLastCall f (.call t env)
          = ((Pool.result (p.step (.call t env)) t).map (f t)).getD [] := by
        intro f
        rw [MomentPool.byLastCall, hr]
      rw [hlast, hlast]
      refine ⟨⟨hexpiry, hall⟩, ?_, fun hfifo => htransfers.fifo (hfifo t)⟩
      have hgive := PopDirection.attach_perm (command t).direction
      exact ((hgive _ _).symm.trans (htransfers.symm ▸ hgive _ _)).trans List.perm_append_comm

omit [DecidableEq T] in
/-- The clients before any of them has begun. -/
theorem start {dbs : Databases} (command : T → ListCommand)
    (hexpiry : ∀ e, dbs.find i k = some e → e.expireAt = none) :
    OnList i k command (MomentPool.onList dbs i k command) :=
  ⟨hexpiry, fun t => (command t).guarantees⟩

end OnList

/-- **Elements are conserved.** For any number of clients and any order of their calls, the elements
of a list without expiry and those pushed are the elements returned and those still there; and they
are returned in the order in which they have been pushed, if they are pushed at the end and popped
from the front. -/
theorem list_conserved {dbs : Databases} {i : ℕ} {k : Bytes} (command : T → ListCommand)
    (hexpiry : ∀ e, dbs.find i k = some e → e.expireAt = none)
    {es : List (PoolEvent T Env Keyspace)} (hes : Run.Along Pool.step
      (MomentPool.LeavesList i k) (MomentPool.onList dbs i k command) es) :
    ((storedList dbs i k : Multiset Bytes)
        + (MomentPool.pushed command (MomentPool.onList dbs i k command) es : Multiset Bytes)
      = (MomentPool.returned k command (MomentPool.onList dbs i k command) es : Multiset Bytes)
        + (storedList (es.foldl Pool.step (MomentPool.onList dbs i k command)).state.databases i k
          : Multiset Bytes)) ∧
    ((∀ t, (command t).IsFifo) →
      storedList dbs i k ++ MomentPool.pushed command (MomentPool.onList dbs i k command) es
        = MomentPool.returned k command (MomentPool.onList dbs i k command) es
          ++ storedList (es.foldl Pool.step (MomentPool.onList dbs i k command)).state.databases
            i k) := by
  have hstart := OnList.start command hexpiry
  constructor
  · rw [Multiset.coe_add, Multiset.coe_add, Multiset.coe_eq_coe]
    exact hes.conserved List.Perm.refl List.Perm.trans (fun c h => h.append_right c)
      (fun c h => h.append_left c) (fun p e hp he => ⟨(hp.step he).1, (hp.step he).2.1⟩) hstart
  · intro hfifo
    exact hes.conserved (fun _ => rfl) Eq.trans (fun c h => congrArg (· ++ c) h)
      (fun c h => congrArg (c ++ ·) h)
      (fun p e hp he => ⟨(hp.step he).1, (hp.step he).2.2 hfifo⟩) hstart

/-- A client that pushes two jobs and two that wait for one, the first of them at two keys. -/
def jobQueue : Fin 3 → ListCommand
  | 0 => .push .right [asBytes "a", asBytes "b"]
  | 1 => .blockingPop .left [asBytes "none", asBytes "jobs"]
  | 2 => .unblock .left [asBytes "jobs"]

/-- The second client looks at its first key before the jobs are there. -/
def jobCalls : List (PoolEvent (Fin 3) Env Keyspace) :=
  [1, 0, 1, 2].map fun t => .call t (Moment.on ⟨7, 0, 0, 1⟩ Host.plain)

theorem list_conserved_jobs :
    MomentPool.returned (asBytes "jobs") jobQueue
        (MomentPool.onList (Store.new 1).databases 0 (asBytes "jobs") jobQueue) jobCalls
      ++ storedList (jobCalls.foldl Pool.step (MomentPool.onList (Store.new 1).databases 0
        (asBytes "jobs") jobQueue)).state.databases 0 (asBytes "jobs")
      = [asBytes "a", asBytes "b"] := by
  have hexpiry : ∀ e, (Store.new 1).databases.find 0 (asBytes "jobs") = some e →
      e.expireAt = none := by
    intro e he
    rw [Databases.find_new] at he
    cases he
  have hes : Run.Along Pool.step (MomentPool.LeavesList 0 (asBytes "jobs"))
      (MomentPool.onList (Store.new 1).databases 0 (asBytes "jobs") jobQueue) jobCalls := by
    simp [Run.Along, jobCalls, MomentPool.LeavesList]
  have hfifo : ∀ t, (jobQueue t).IsFifo := by
    rintro ⟨_ | _ | _ | n, ht⟩
    · rfl
    · rfl
    · rfl
    · omega
  rw [← (list_conserved jobQueue hexpiry hes).2 hfifo]
  decide +kernel

end VeloDB
