import VeloDB.Net.Connection

/-!
# HELLO half done

`HELLO` does three things at once: it selects a protocol, takes options, and logs in. `handle_auth`
looks at everything before it changes anything; `handle_hello` changes the context while it reads,
so an error in a later option, or the missing login at the end, leaves the earlier changes behind,
and the error itself is already written in the new protocol.

What the options do is said by two predicates on them, `acceptsOptions` and `logsIn`. A failing
`HELLO` is harmless exactly when the protocol it asks for is already in use and it has not logged
in a connection that was not logged in before.

## Main results

* `helloOptions_eq` — what the loop over the options does
* `handleHello_atomic_iff` — when `HELLO` is atomic
-/

namespace VeloDB

open Rust

variable (L : Listener) (env : Env)

/-- Whether `AUTH user password` is right. -/
def rightLogin (user password : Bytes) : Bool :=
  eqIgnoreAsciiCase user (asBytes "default") &&
    L.requirepass.any fun expected => asBytes expected = password

/-- Whether every option is accepted. -/
def acceptsOptions : List Bytes → Bool
  | [] => true
  | [_] => false
  | [opt, _] => upper env opt = "SETNAME"
  | opt :: a :: b :: rest =>
    if upper env opt = "AUTH" then rightLogin L a b && acceptsOptions rest
    else if upper env opt = "SETNAME" then acceptsOptions (b :: rest)
    else false

/-- Whether a right password comes before the first option that is not accepted. -/
def logsIn : List Bytes → Bool
  | opt :: a :: b :: rest =>
    if upper env opt = "AUTH" then rightLogin L a b
    else if upper env opt = "SETNAME" then logsIn (b :: rest)
    else false
  | _ => false

/-- The version that is asked for. -/
def requestedVersion (args : List Bytes) : Option ℕ :=
  args.head?.bind fun version =>
    (parseUnsigned 255 (fromUtf8Lossy version)).filter fun v => v = 2 ∨ v = 3

/-- A `HELLO` that leaves nothing half done. -/
def HelloAtomic (args : List Bytes) (c : ClientContext) : Prop :=
  let r := handleHello L env args c
  if r.1.isError then r.2.protocol = c.protocol ∧ r.2.authenticated = c.authenticated
  else r.2.protocol = (requestedVersion args).getD c.protocol ∧ r.2.authenticated = true

theorem handleAuth_eq (a b : Bytes) (c : ClientContext) : ∃ e : String,
    handleAuth L [a, b] c = if rightLogin L a b then (.ok, { c with authenticated := true })
      else (.error e, c) := by
  rw [handleAuth, checkPassword, rightLogin]
  cases heq : eqIgnoreAsciiCase a (asBytes "default") with
  | false => exact ⟨_, rfl⟩
  | true =>
    cases L.requirepass with
    | none => exact ⟨_, rfl⟩
    | some expected =>
      by_cases hpw : asBytes expected = b
      · exact ⟨"", by simp [hpw]⟩
      · exact ⟨_, by simp [hpw]; rfl⟩

/-- **What the loop over the options does.** -/
theorem helloOptions_eq (options : List Bytes) (c : ClientContext) : ∃ e : String,
    helloOptions L env options c = (if acceptsOptions L env options then none else some (.error e),
      if logsIn L env options then { c with authenticated := true } else c) := by
  -- the induction follows the recursion of the options, which skips two or three of them
  induction options using acceptsOptions.induct env generalizing c with
  | case1 => exact ⟨"", rfl⟩
  | case2 => exact ⟨_, rfl⟩
  | case3 opt a =>
    have hlogs : logsIn L env [opt, a] = false := rfl
    rw [helloOptions, acceptsOptions, hlogs]
    by_cases hname : upper env opt = "SETNAME"
    · exact ⟨"", by simp [hname]⟩
    · exact ⟨_, by simp [hname]; rfl⟩
  | case4 opt a b rest hauth ih =>
    obtain ⟨e, hone⟩ := handleAuth_eq L a b c
    rw [helloOptions, acceptsOptions, logsIn, if_pos hauth, if_pos hauth, if_pos hauth, hone]
    cases hright : rightLogin L a b with
    | false => exact ⟨e, rfl⟩
    | true =>
      obtain ⟨e', hrest⟩ := ih { c with authenticated := true }
      refine ⟨e', ?_⟩
      simp only [Bool.true_and, if_true]
      rw [if_neg (by simp [RespValue.ok, RespValue.isError]), hrest, ite_self]
  | case5 opt a b rest hauth hname ih =>
    rw [helloOptions, acceptsOptions, logsIn, if_neg hauth, if_neg hauth, if_neg hauth,
      if_pos hname, if_pos hname, if_pos hname]
    exact ih c
  | case6 opt a b rest hauth hname =>
    rw [helloOptions, acceptsOptions, logsIn, if_neg hauth, if_neg hauth, if_neg hauth,
      if_neg hname, if_neg hname, if_neg hname]
    exact ⟨_, rfl⟩

theorem isError_helloReply (c : ClientContext) :
    (helloReply c).isError = !c.authenticated := by
  rw [helloReply]
  cases c.authenticated <;> rfl

/-- `HELLO` without a version that it speaks changes nothing. -/
theorem handleHello_of_none {args : List Bytes} (h : requestedVersion args = none)
    (c : ClientContext) : (handleHello L env args c).2 = c ∧
      ((handleHello L env args c).1.isError = false → c.authenticated = true) := by
  cases args with
  | nil =>
    refine ⟨rfl, fun hok => ?_⟩
    have hreply : (helloReply c).isError = false := hok
    rw [isError_helloReply, Bool.not_eq_false'] at hreply
    exact hreply
  | cons version options =>
    rw [requestedVersion, List.head?_cons, Option.bind_some, Option.filter_eq_none_iff] at h
    rw [handleHello]
    cases hv : parseUnsigned 255 (fromUtf8Lossy version) with
    | none => exact ⟨rfl, fun hok => by cases hok⟩
    | some v =>
      have hno : ¬(v = 2 ∨ v = 3) := by simpa using h v hv
      dsimp only
      rw [if_neg hno]
      exact ⟨rfl, fun hok => by cases hok⟩

/-- `HELLO` with a version that it speaks. -/
theorem handleHello_of_some {args : List Bytes} {v : ℕ} (h : requestedVersion args = some v)
    (c : ClientContext) :
    (handleHello L env args c).2.protocol = v ∧
      ((handleHello L env args c).2.authenticated = true ↔
        c.authenticated = true ∨ logsIn L env args.tail = true) ∧
      ((handleHello L env args c).1.isError = false ↔ acceptsOptions L env args.tail = true ∧
        (c.authenticated = true ∨ logsIn L env args.tail = true)) := by
  cases args with
  | nil => cases h
  | cons version options =>
    rw [requestedVersion, List.head?_cons, Option.bind_some, Option.filter_eq_some_iff] at h
    obtain ⟨hv, hsome⟩ := h
    obtain ⟨e, hoptions⟩ := helloOptions_eq L env options { c with protocol := v }
    rw [handleHello, hv, List.tail_cons]
    dsimp only
    rw [if_pos (by simpa using hsome), hoptions]
    have hreply : ∀ c : ClientContext, (helloReply c).isError = false ↔ c.authenticated = true :=
      fun c => by rw [isError_helloReply, Bool.not_eq_false']
    refine ⟨?_, ?_, ?_⟩
    · dsimp only
      split_ifs <;> rfl
    · dsimp only
      split_ifs with hlogs <;> simp [hlogs]
    · dsimp only
      cases hacc : acceptsOptions L env options with
      | false => simp [RespValue.isError]
      | true =>
        rw [if_pos rfl, Option.getD_none, hreply]
        split_ifs with hlogs <;> simp [hlogs]

/-- **When `HELLO` is atomic**: it goes through, or it neither asks for another protocol nor logs
in. -/
theorem handleHello_atomic_iff (args : List Bytes) (c : ClientContext) :
    HelloAtomic L env args c ↔ ∀ v, requestedVersion args = some v →
      acceptsOptions L env args.tail = true ∧
          (c.authenticated = true ∨ logsIn L env args.tail = true) ∨
        v = c.protocol ∧ (c.authenticated = true ∨ logsIn L env args.tail = false) := by
  rw [HelloAtomic]
  cases hv : requestedVersion args with
  | none =>
    obtain ⟨hsame, hok⟩ := handleHello_of_none L env hv c
    rw [hsame]
    split_ifs with herror
    · exact ⟨by rintro - v ⟨⟩, fun _ => ⟨rfl, rfl⟩⟩
    · exact ⟨by rintro - v ⟨⟩, fun _ => ⟨rfl, hok (Bool.eq_false_iff.mpr herror)⟩⟩
  | some v =>
    obtain ⟨hproto, hauth, hok⟩ := handleHello_of_some L env hv c
    have hall : (∀ w, some v = some w → acceptsOptions L env args.tail = true ∧
          (c.authenticated = true ∨ logsIn L env args.tail = true) ∨
        w = c.protocol ∧ (c.authenticated = true ∨ logsIn L env args.tail = false)) ↔
        (handleHello L env args c).1.isError = false ∨
          v = c.protocol ∧ (c.authenticated = true ∨ logsIn L env args.tail = false) := by
      simp only [Option.some.injEq, forall_eq', ← hok]
    rw [hall, hproto, Option.getD_some]
    split_ifs with herror
    · -- on an error the login must have been there before, or not have happened
      rw [herror]
      simp only [false_or, Bool.true_eq_false]
      refine and_congr_right fun _ => ?_
      rw [Bool.eq_iff_iff, hauth]
      cases c.authenticated <;> cases logsIn L env args.tail <;> simp
    · have hgood := Bool.eq_false_iff.mpr herror
      exact ⟨fun _ => Or.inl hgood, fun _ => ⟨rfl, hauth.mpr (hok.mp hgood).2⟩⟩

/-- `HELLO 3` on a fresh connection to a server with a password is refused, in RESP3. -/
theorem handleHello_half_done : ¬∀ (L : Listener) (env : Env) (args : List Bytes)
    (c : ClientContext), HelloAtomic L env args c := by
  intro h
  have hfails := h (Listener.plain (some "secret") false)
    ((⟨0, 0, 0, 0⟩ : Moment).on Host.plain) [asBytes "3"] { authenticated := false }
  rw [HelloAtomic] at hfails
  exact absurd hfails (by decide +kernel)

end VeloDB
