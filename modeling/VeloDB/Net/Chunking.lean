import VeloDB.Net.Connection

/-!
# How the bytes arrive

The parser of commands never answers "incomplete": on the first bytes of a command it fails, and the
loop takes that for a malformed request. So a connection serves a sequence of commands exactly when
every read ends where a command ends.

## Main results

* `drain_served` — the inner loop serves the commands in its buffer
* `feedAll_serves_iff` — which ways of splitting the input are served
-/

namespace VeloDB

open Rust Nom

/-! ### Running a connection -/

section Feed

variable (L : Listener) (H : Host) (clock : ℕ → Moment)

/-- Turns of the inner loop, as many as there is fuel for. -/
def Net.drain : ℕ → Net → Net
  | 0, n => n
  | fuel + 1, n =>
    match n.step L H (.turn (clock n.conn.served.length)) with
    | some n' => drain fuel n'
    | none => n

/-- One read, and the inner loop behind it. Every turn but the last eats at least one byte. -/
def Net.feed (n : Net) (chunk : Bytes) : Net :=
  match n.step L H (.read chunk) with
  | some n' => n'.drain L H clock (n'.conn.buf.length + 1)
  | none => n

/-- Successive reads. -/
def Net.feedAll (n : Net) (chunks : List Bytes) : Net := chunks.foldl (Net.feed L H clock) n

/-- Commands served one after the other, with their replies: `none` when one of them does not
answer at once and leave the connection in normal mode. -/
def serveAll : ℕ → List (List Bytes) → Whole → Option (List Bytes × Whole)
  | _, [], w => some ([], w)
  | _, [] :: _, _ => none
  | i, (name :: args) :: cmds, w =>
    match serve L ((clock i).on H) name args w with
    | (.ok { reply := some reply, outcome := .next, .. }, w') =>
      if w'.ctx.subMode then none
      else (serveAll (i + 1) cmds w').map fun r => (reply :: r.1, r.2)
    | _ => none

end Feed

variable {L : Listener} {H : Host} {clock : ℕ → Moment}

/-! ### Commands in the buffer -/

theorem serveAll_cons {i : ℕ} {cmd : List Bytes} {cmds : List (List Bytes)} {w w' : Whole}
    {replies : List Bytes} (h : serveAll L H clock i (cmd :: cmds) w = some (replies, w')) :
    ∃ name args s reply w₁ replies', cmd = name :: args ∧
      serve L ((clock i).on H) name args w = (.ok s, w₁) ∧ s.reply = some reply ∧
      s.outcome = .next ∧ w₁.ctx.subMode = false ∧ replies = reply :: replies' ∧
      serveAll L H clock (i + 1) cmds w₁ = some (replies', w') := by
  cases cmd with
  | nil => cases h
  | cons name args =>
    rw [serveAll] at h
    split at h
    · next reply logged pushed rewrites w₁ hs =>
      split at h
      · cases h
      · next hsub =>
        obtain ⟨⟨replies', w''⟩, hrest, heq⟩ := Option.map_eq_some_iff.mp h
        obtain ⟨rfl, rfl⟩ := Prod.mk.inj heq
        exact ⟨name, args, _, reply, w₁, replies', rfl, hs, rfl, rfl, by simpa using hsub, rfl,
          hrest⟩
    · cases h

theorem serveAll_append {i : ℕ} {cmds cmds' : List (List Bytes)} {w w' : Whole}
    {replies : List Bytes} (h : serveAll L H clock i (cmds ++ cmds') w = some (replies, w')) :
    ∃ replies₁ replies₂ w₁, serveAll L H clock i cmds w = some (replies₁, w₁) ∧
      serveAll L H clock (i + cmds.length) cmds' w₁ = some (replies₂, w') ∧
      replies = replies₁ ++ replies₂ := by
  induction cmds generalizing i w replies with
  | nil => exact ⟨[], replies, w, rfl, h, rfl⟩
  | cons cmd cmds ih =>
    obtain ⟨name, args, s, reply, w₁, replies', rfl, hs, hreply, hout, hsub, rfl, hrest⟩ :=
      serveAll_cons h
    obtain ⟨r₁, r₂, w₂, h₁, h₂, rfl⟩ := ih hrest
    refine ⟨reply :: r₁, r₂, w₂, ?_, ?_, rfl⟩
    · obtain ⟨_, _, _, _, _⟩ := s
      subst hreply hout
      rw [serveAll, hs]
      simp [hsub, h₁]
    · rw [List.length_cons, ← Nat.add_assoc, Nat.add_right_comm]
      exact h₂

/-- A connection between two commands of the normal loop. -/
structure Between (n : Net) (w : Whole) (buf : Bytes) (served : List (List Bytes))
    (out : List Bytes) : Prop where
  status : n.conn.status = .running false
  whole : n.whole = w
  buf : n.conn.buf = buf
  served : n.conn.served = served
  out : n.conn.out = out

theorem drain_succ {n n' : Net} {fuel : ℕ}
    (h : n.step L H (.turn (clock n.conn.served.length)) = some n') :
    n.drain L H clock (fuel + 1) = n'.drain L H clock fuel := by
  rw [Net.drain, h]

theorem step_turn {n : Net} (h : n.conn.status = .running false) (m : Moment) :
    n.step L H (.turn m) = some (n.normalTurn L (m.on H)) := by
  rw [Net.step, h]

/-- **The commands in the buffer are served.** -/
theorem drain_served {cmds : List (List Bytes)}
    (hlen : ∀ c ∈ cmds, (encodeCommandForAof c).length < 2 ^ 63) {n : Net} {w w' : Whole}
    {rest : Bytes} {served : List (List Bytes)} {out replies : List Bytes}
    (hn : Between n w (encodeCommands cmds ++ rest) served out)
    (hs : serveAll L H clock served.length cmds w = some (replies, w')) (fuel : ℕ) :
    ∃ n', n.drain L H clock (cmds.length + fuel) = n'.drain L H clock fuel ∧
      Between n' w' rest (served ++ cmds) (out ++ replies) := by
  induction cmds generalizing n w served out replies with
  | nil =>
    obtain ⟨rfl, rfl⟩ := Prod.mk.inj (Option.some.inj hs)
    refine ⟨n, by rw [List.length_nil, Nat.zero_add], ?_⟩
    rw [List.append_nil, List.append_nil]
    exact hn
  | cons cmd cmds ih =>
    obtain ⟨name, args, s, reply, w₁, replies', rfl, hserve, hreply, hout, -, rfl, hrest⟩ :=
      serveAll_cons hs
    have hbuf : n.conn.buf
        = encodeCommandForAof (name :: args) ++ (encodeCommands cmds ++ rest) := by
      rw [hn.buf, encodeCommands, List.flatMap_cons, List.append_assoc]
      rfl
    have hparse := parseCommand_encodeCommand (hlen _ List.mem_cons_self)
      (encodeCommands cmds ++ rest)
    have hne : n.conn.buf ≠ [] := by
      rw [hbuf]
      exact List.append_ne_nil_of_left_ne_nil (encodeCommandForAof_ne_nil _) _
    have hturn : n.normalTurn L ((clock served.length).on H)
        = (((n.withWhole w₁).taken (name :: args) (encodeCommands cmds ++ rest)).sent s).follow
            .next := by
      rw [Net.normalTurn, if_neg hne, hbuf, hparse]
      dsimp only
      rw [hn.whole, hserve]
      dsimp only
      rw [hout]
    have hnext : Between ((((n.withWhole w₁).taken (name :: args)
        (encodeCommands cmds ++ rest)).sent s).follow .next) w₁ (encodeCommands cmds ++ rest)
        (served ++ [name :: args]) (out ++ [reply]) := by
      refine ⟨rfl, rfl, rfl, ?_, ?_⟩
      · show n.conn.served ++ _ = _
        rw [hn.served]
      · show n.conn.out ++ s.reply.toList = _
        rw [hn.out, hreply]
        rfl
    have hstep := step_turn (L := L) (H := H) hn.status (clock n.conn.served.length)
    rw [hn.served, hturn] at hstep
    have hcount : served.length + 1 = (served ++ [name :: args]).length := by simp
    rw [hcount] at hrest
    obtain ⟨n', hdrain, hbetween⟩ :=
      ih (fun c hc => hlen c (List.mem_cons_of_mem _ hc)) hnext hrest
    refine ⟨n', ?_, ?_⟩
    · rw [List.length_cons, Nat.add_right_comm, drain_succ (by rwa [hn.served]), hdrain]
    · simpa using hbetween

/-- The inner loop goes nowhere from a connection that is not in it. -/
theorem drain_halted {n : Net} (h : ∀ sub, n.conn.status ≠ .running sub) (fuel : ℕ) :
    n.drain L H clock fuel = n := by
  cases fuel with
  | zero => rfl
  | succ fuel =>
    rw [Net.drain, Net.step]
    split
    · next heq =>
      split at heq
      · next hst => exact absurd hst (h false)
      · next hst => exact absurd hst (h true)
      · cases heq
    · rfl

/-- The inner loop ends when the buffer is empty. -/
theorem drain_empty {n : Net} {w : Whole} {served : List (List Bytes)} {out : List Bytes}
    (hn : Between n w [] served out) (fuel : ℕ) :
    n.drain L H clock (fuel + 1) = n.goto .reading := by
  have hturn : n.normalTurn L ((clock n.conn.served.length).on H) = n.goto .reading := by
    rw [Net.normalTurn, if_pos hn.buf]
  rw [drain_succ ((step_turn hn.status _).trans (congrArg some hturn))]
  exact drain_halted (fun _ h => by cases h) fuel

/-- The inner loop ends the connection when it finds something that does not parse. -/
theorem drain_error {n : Net} {w : Whole} {p : Bytes} {served : List (List Bytes)}
    {out : List Bytes} (hn : Between n w p served out) (hp : p ≠ [])
    (herr : parseCommand p = .error .error) (fuel : ℕ) :
    n.drain L H clock (fuel + 1) = (n.write (n.protocolError H)).close := by
  have hturn : n.normalTurn L ((clock n.conn.served.length).on H)
      = (n.write (n.protocolError H)).close := by
    rw [Net.normalTurn, if_neg (hn.buf ▸ hp), hn.buf, herr]
    rfl
  rw [drain_succ ((step_turn hn.status _).trans (congrArg some hturn))]
  exact drain_halted (fun _ h => by cases h) fuel

/-- Nothing is read any more once the loop has ended. -/
theorem feedAll_ended {n : Net} (h : n.conn.status ≠ .reading) (chunks : List Bytes) :
    n.feedAll L H clock chunks = n := by
  induction chunks with
  | nil => rfl
  | cons c cs ih =>
    have hfeed : n.feed L H clock c = n := by
      rw [Net.feed, Net.step]
      split
      · next heq =>
        split at heq
        · next hst => exact absurd hst h
        · cases heq
      · rfl
    rw [Net.feedAll, List.foldl_cons, hfeed]
    exact ih

/-! ### Reads -/

theorem serveAll_subMode {i : ℕ} {cmds : List (List Bytes)} {w w' : Whole} {replies : List Bytes}
    (hw : w.ctx.subMode = false) (h : serveAll L H clock i cmds w = some (replies, w')) :
    w'.ctx.subMode = false := by
  induction cmds generalizing i w replies with
  | nil =>
    obtain ⟨-, rfl⟩ := Prod.mk.inj (Option.some.inj h)
    exact hw
  | cons cmd cmds ih =>
    obtain ⟨_, _, _, _, w₁, _, -, -, -, -, hsub, -, hrest⟩ := serveAll_cons h
    exact ih hsub hrest

/-- A connection in normal mode that waits for its socket with nothing left in its buffer. -/
structure Idle (n : Net) (w : Whole) (served : List (List Bytes)) (out : List Bytes) : Prop where
  status : n.conn.status = .reading
  whole : n.whole = w
  normal : w.ctx.subMode = false
  buf : n.conn.buf = []
  served : n.conn.served = served
  out : n.conn.out = out

variable (L H clock) in
theorem feed_idle {n : Net} {w : Whole} {served : List (List Bytes)} {out : List Bytes}
    (hn : Idle n w served out) {c : Bytes} (hc : c ≠ []) :
    (maxQueryBuffer < c.length ∧ (n.feed L H clock c).conn.status = .closed ∧
        (n.feed L H clock c).conn.served = served) ∨
      (c.length ≤ maxQueryBuffer ∧ ∃ n', n.feed L H clock c = n'.drain L H clock (c.length + 1) ∧
        Between n' w c served out) := by
  have hsub : n.conn.ctx.subMode = false := by
    rw [← hn.normal, ← hn.whole]
    rfl
  have hstep : n.step L H (.read c) = some (n.receive c) := by rw [Net.step, hn.status]
  rw [Net.feed, hstep]
  dsimp only
  rw [Net.receive, if_neg hc, hn.buf, hsub, List.nil_append]
  by_cases hmax : maxQueryBuffer < c.length
  · refine Or.inl ⟨hmax, ?_⟩
    rw [if_pos (by simpa using hmax)]
    exact ⟨rfl, hn.served⟩
  · refine Or.inr ⟨Nat.le_of_not_lt hmax, ?_⟩
    rw [if_neg (by simpa using hmax)]
    exact ⟨_, rfl, rfl, hn.whole, rfl, hn.served, hn.out⟩

/-- A read that ends where a command ends. -/
theorem feed_whole {n : Net} {w w' : Whole} {served done : List (List Bytes)}
    {out replies : List Bytes} (hn : Idle n w served out) (hne : encodeCommands done ≠ [])
    (hmax : (encodeCommands done).length ≤ maxQueryBuffer)
    (hlen : ∀ c ∈ done, (encodeCommandForAof c).length < 2 ^ 63)
    (hs : serveAll L H clock served.length done w = some (replies, w')) :
    Idle (n.feed L H clock (encodeCommands done)) w' (served ++ done) (out ++ replies) := by
  rcases feed_idle L H clock hn hne with ⟨hlt, -⟩ | ⟨-, n₁, hfeed, hb⟩
  · omega
  · have hle := length_le_encodeCommands done
    obtain ⟨fuel, hfuel⟩ : ∃ f, (encodeCommands done).length + 1 = done.length + (f + 1) :=
      ⟨(encodeCommands done).length - done.length, by omega⟩
    rw [← List.append_nil (encodeCommands done)] at hb
    obtain ⟨n₂, hdrain, hb₂⟩ := drain_served hlen hb hs (fuel + 1)
    rw [hfeed, hfuel, hdrain, drain_empty hb₂]
    exact ⟨rfl, hb₂.whole, serveAll_subMode hn.normal hs, hb₂.buf, hb₂.served, hb₂.out⟩

/-- A read that ends inside a command ends the connection. -/
theorem feed_cut {n : Net} {w : Whole} {served done : List (List Bytes)} {cmd : List Bytes}
    {out replies : List Bytes} {w' : Whole} (hn : Idle n w served out) {p x : Bytes} (hp : p ≠ [])
    (hx : x ≠ []) (hcut : p ++ x = encodeCommandForAof cmd)
    (hmax : (encodeCommands done ++ p).length ≤ maxQueryBuffer)
    (hlen : ∀ c ∈ done, (encodeCommandForAof c).length < 2 ^ 63)
    (hcmd : (encodeCommandForAof cmd).length < 2 ^ 63)
    (hs : serveAll L H clock served.length done w = some (replies, w')) :
    (n.feed L H clock (encodeCommands done ++ p)).conn.status = .closed ∧
      (n.feed L H clock (encodeCommands done ++ p)).conn.served = served ++ done := by
  have hne : encodeCommands done ++ p ≠ [] := List.append_ne_nil_of_right_ne_nil _ hp
  rcases feed_idle L H clock hn hne with ⟨hlt, -⟩ | ⟨-, n₁, hfeed, hb⟩
  · omega
  · have hle := length_le_encodeCommands done
    obtain ⟨fuel, hfuel⟩ : ∃ f, (encodeCommands done ++ p).length + 1 = done.length + (f + 1) :=
      ⟨(encodeCommands done ++ p).length - done.length, by rw [List.length_append]; omega⟩
    obtain ⟨n₂, hdrain, hb₂⟩ := drain_served hlen hb hs (fuel + 1)
    rw [hfeed, hfuel, hdrain, drain_error hb₂ hp (parseCommand_cut hcmd hcut hx)]
    exact ⟨rfl, hb₂.served⟩

/-- The induction behind the equivalence, over the reads: a connection with nothing in its buffer
serves all that is still to come exactly when the remaining reads are aligned with it. -/
theorem feedAll_idle_iff {chunks : List Bytes} (hne : ∀ c ∈ chunks, c ≠ [])
    {cmds : List (List Bytes)} (hlen : ∀ c ∈ cmds, (encodeCommandForAof c).length < 2 ^ 63)
    (hjoin : chunks.flatten = encodeCommands cmds) {n : Net} {w w' : Whole}
    {served : List (List Bytes)} {out replies : List Bytes} (hn : Idle n w served out)
    (hs : serveAll L H clock served.length cmds w = some (replies, w')) :
    ((n.feedAll L H clock chunks).conn.served = served ++ cmds ∧
        (n.feedAll L H clock chunks).conn.out = out ++ replies) ↔
      Aligned cmds chunks ∧ ∀ c ∈ chunks, c.length ≤ maxQueryBuffer := by
  induction chunks generalizing n w served out cmds replies with
  | nil =>
    obtain rfl : cmds = [] := by
      rw [← List.length_eq_zero_iff]
      have := length_le_encodeCommands cmds
      rw [← hjoin] at this
      exact Nat.le_zero.mp this
    obtain ⟨rfl, -⟩ := Prod.mk.inj (Option.some.inj hs)
    rw [List.append_nil, List.append_nil]
    exact ⟨fun _ => ⟨⟨[], rfl, rfl⟩, fun c hc => absurd hc List.not_mem_nil⟩,
      fun _ => ⟨hn.served, hn.out⟩⟩
  | cons c cs ih =>
    have hc := hne c List.mem_cons_self
    have hfeedAll : n.feedAll L H clock (c :: cs) = (n.feed L H clock c).feedAll L H clock cs := rfl
    rw [List.flatten_cons] at hjoin
    obtain ⟨done, todo, p, rfl, rfl, hend⟩ := split_encodeCommands hjoin
    obtain ⟨r₁, r₂, w₁, hs₁, hs₂, rfl⟩ := serveAll_append hs
    have hlen₁ : ∀ c ∈ done, (encodeCommandForAof c).length < 2 ^ 63 :=
      fun c hc => hlen c (List.mem_append_left _ hc)
    by_cases hmax : (encodeCommands done ++ p).length ≤ maxQueryBuffer
    · rcases hend with ⟨rfl, hrest⟩ | ⟨cmd, todo', x, rfl, hp, hx, hcut⟩
      · rw [List.append_nil] at hc hmax hfeedAll ⊢
        have hidle := feed_whole hn hc hmax hlen₁ hs₁
        rw [← List.length_append] at hs₂
        have hrec := ih (fun c hc => hne c (List.mem_cons_of_mem _ hc))
          (fun c hc => hlen c (List.mem_append_right _ hc)) hrest hidle hs₂
        rw [hfeedAll, ← List.append_assoc, ← List.append_assoc, hrec, aligned_cons,
          List.forall_mem_cons]
        exact and_congr_right fun _ => ⟨fun h => ⟨hmax, h⟩, And.right⟩
      · obtain ⟨hclosed, hserved⟩ := feed_cut hn hp hx hcut hmax hlen₁
          (hlen cmd (List.mem_append_right _ List.mem_cons_self)) hs₁
        refine iff_of_false (fun h => ?_) fun h => not_aligned_cut hp hx hcut cs h.1
        rw [hfeedAll, feedAll_ended (by rw [hclosed]; nofun), hserved] at h
        have := congrArg List.length (List.append_cancel_left h.1)
        simp at this
    · rcases feed_idle L H clock hn hc with ⟨-, hclosed, hserved⟩ | ⟨hle, -⟩
      · refine iff_of_false (fun h => ?_) fun h => hmax (h.2 _ List.mem_cons_self)
        rw [hfeedAll, feedAll_ended (by rw [hclosed]; nofun), hserved] at h
        have hnil : done ++ todo = [] := List.self_eq_append_right.mp h.1
        rw [hnil] at hjoin
        exact hc (List.append_eq_nil_iff.mp hjoin).1
      · exact absurd hle hmax

/-- **Which ways of splitting the input are served.** For commands that are answered at once and
keep the connection in normal mode, a connection takes exactly these commands from its reads and
writes exactly their replies if and only if every read ends where a command ends (and fits the query
buffer). -/
theorem feedAll_serves_iff {cmds : List (List Bytes)}
    (hlen : ∀ c ∈ cmds, (encodeCommandForAof c).length < 2 ^ 63) {store : Store} {w : Whole}
    {replies : List Bytes}
    (hs : serveAll L H clock 0 cmds ⟨store, (Conn.accept L).ctx⟩ = some (replies, w))
    {chunks : List Bytes} (hne : ∀ c ∈ chunks, c ≠ [])
    (hjoin : chunks.flatten = encodeCommands cmds) :
    ((Net.feedAll L H clock ⟨{ store }, .accept L⟩ chunks).conn.served = cmds ∧
        (Net.feedAll L H clock ⟨{ store }, .accept L⟩ chunks).conn.out = replies) ↔
      Aligned cmds chunks ∧ ∀ c ∈ chunks, c.length ≤ maxQueryBuffer :=
  feedAll_idle_iff hne hlen hjoin ⟨rfl, rfl, rfl, rfl, rfl, rfl⟩ hs

/-- A clock that stands still. -/
def stopped : ℕ → Moment := fun _ => ⟨0, 0, 0, 0⟩

/-- `PING`, as a client sends it. -/
def ping : List Bytes := [asBytes "PING"]

/-- Two commands in one read, and a third in the next. -/
theorem feedAll_serves_pings :
    (Net.feedAll (.plain none false) Host.plain stopped
        ⟨{ store := Store.new 1 }, .accept (.plain none false)⟩
        [encodeCommands [ping, ping], encodeCommands [ping]]).conn.served
      = [ping, ping, ping] ∧
    (Net.feedAll (.plain none false) Host.plain stopped
        ⟨{ store := Store.new 1 }, .accept (.plain none false)⟩
        [encodeCommands [ping, ping], encodeCommands [ping]]).conn.out
      = [asBytes "+PONG\r\n", asBytes "+PONG\r\n", asBytes "+PONG\r\n"] := by
  have hreplies : (serveAll (.plain none false) Host.plain stopped 0 [ping, ping, ping]
      ⟨Store.new 1, (Conn.accept (.plain none false)).ctx⟩).map Prod.fst
      = some [asBytes "+PONG\r\n", asBytes "+PONG\r\n", asBytes "+PONG\r\n"] := by
    decide +kernel
  obtain ⟨⟨replies, w⟩, hs, hr⟩ := Option.map_eq_some_iff.mp hreplies
  have hjoin : [encodeCommands [ping, ping], encodeCommands [ping]].flatten
      = encodeCommands [ping, ping, ping] := by decide +kernel
  have hlen : ∀ c ∈ [ping, ping, ping], (encodeCommandForAof c).length < 2 ^ 63 := by
    decide +kernel
  have hne : ∀ c ∈ [encodeCommands [ping, ping], encodeCommands [ping]], c ≠ [] := by
    decide +kernel
  rw [← hr]
  exact (feedAll_serves_iff hlen hs hne hjoin).mpr
    ⟨⟨[[ping, ping], [ping]], rfl, rfl⟩, by decide +kernel⟩

/-- A `PING` cut behind its first line is answered with an error. -/
theorem feedAll_cut_ping :
    let cmds : List (List Bytes) := [[asBytes "PING"]]
    let chunks : List Bytes := [asBytes "*1\r\n", asBytes "$4\r\nPING\r\n"]
    let n := Net.feedAll (.plain none false) Host.plain stopped
      ⟨{ store := Store.new 1 }, .accept (.plain none false)⟩ chunks
    chunks.flatten = encodeCommands cmds ∧
      (serveAll (.plain none false) Host.plain stopped 0 cmds ⟨Store.new 1, {}⟩).map Prod.fst
        = some [asBytes "+PONG\r\n"] ∧
      n.conn.served = [] ∧ n.conn.out = [asBytes "-ERR protocol error\r\n"] := by
  decide +kernel

end VeloDB
