import VeloDB.Cmd.Effects

/-!
# What the subscribing commands do

The loops of `SUBSCRIBE` and its siblings, as functions of the state: what they leave in the context
and in the registry, and what they answer.

## Main results

* `subscribe_run`, `psubscribe_run` — a new receiver for each name, of which the last one is kept
* `unsubscribe_run`, `punsubscribe_run` — the registry is not told
-/

namespace VeloDB

open Rust Proc

namespace Cmd

variable (env : Env) (dbs : Databases) (args : List Bytes) (s : Side)

/-! ### New receivers -/

/-- A new receiver, registered with `register`, takes the place of the one of the context. -/
def withReceiver (register : PubSubRegistry → ℕ → PubSubRegistry) (s : Side) : Side :=
  let r := s.tables.pubsubRegistry.openMailbox
  { tables := { s.tables with
      pubsubRegistry := PubSubRegistry.dropMailbox s.ctx.pubsubRx (register r.2 r.1) }
    ctx := { s.ctx with pubsubRx := some r.1 } }

/-- One turn of the loop of `subscribe`. -/
def subscribeOne (s : Side) (ch : Bytes) : Side :=
  withReceiver (fun r tx => r.subscribeChannel ch tx)
    { s with ctx := { s.ctx with subscribedChannels := s.ctx.subscribedChannels ++ [ch] } }

/-- One turn of the loop of `psubscribe`. -/
def psubscribeOne (s : Side) (p : Bytes) : Side :=
  withReceiver (fun r tx => r.subscribePattern (fromUtf8Lossy p) tx) { s with
    ctx := { s.ctx with subscribedPatterns := s.ctx.subscribedPatterns ++ [fromUtf8Lossy p] } }

/-- The context after a command has subscribed to something. -/
def enterSubMode (s : Side) : Side := { s with ctx := { s.ctx with subMode := true } }

/-- What `subscribe` answers. -/
def subscribeLines (s : Side) : List Bytes → List RespValue :=
  Run.gathered subscribeOne (fun s ch =>
    subLine "subscribe" ch (s.ctx.subscribedChannels.length + 1)) s

/-- What `psubscribe` answers. -/
def psubscribeLines (s : Side) : List Bytes → List RespValue :=
  Run.gathered psubscribeOne (fun s p =>
    subLine "psubscribe" p (s.ctx.subscribedPatterns.length + 1)) s

/-- **`SUBSCRIBE`** of some channels. -/
theorem subscribe_run (hargs : args ≠ []) : subscribe env dbs args s
    = (.ok (.array (some (subscribeLines s args))), enterSubMode (args.foldl subscribeOne s)) := by
  have hlength : ∀ (s : Side) (ch : Bytes), (subscribeOne s ch).ctx.subscribedChannels.length
      = s.ctx.subscribedChannels.length + 1 := fun s ch => List.length_append
  rw [subscribe, if_neg hargs, bind_ok (foldEach_collect (fun s ch =>
    subLine "subscribe" ch (s.ctx.subscribedChannels.length + 1)) subscribeOne
    (fun acc ch s => ?_) args [] s)]
  · rfl
  · rw [← hlength]
    rfl

/-- **`PSUBSCRIBE`** of some patterns. -/
theorem psubscribe_run (hargs : args ≠ []) : psubscribe env dbs args s
    = (.ok (.array (some (psubscribeLines s args))), enterSubMode (args.foldl psubscribeOne s)) := by
  have hlength : ∀ (s : Side) (p : Bytes), (psubscribeOne s p).ctx.subscribedPatterns.length
      = s.ctx.subscribedPatterns.length + 1 := fun s p => List.length_append
  rw [psubscribe, if_neg hargs, bind_ok (foldEach_collect (fun s p =>
    subLine "psubscribe" p (s.ctx.subscribedPatterns.length + 1)) psubscribeOne
    (fun acc p s => ?_) args [] s)]
  · rfl
  · rw [← hlength]
    rfl

/-! ### Giving up subscriptions -/

/-- The receiver of the context goes away. -/
def dropReceiver (s : Side) : Side where
  tables := { s.tables with
    pubsubRegistry := s.tables.pubsubRegistry.dropMailbox s.ctx.pubsubRx }
  ctx := { s.ctx with pubsubRx := none }

/-- The end of `unsubscribe` and `punsubscribe`. -/
def leftSubMode (s : Side) : Side :=
  if s.ctx.subscribedChannels = [] ∧ s.ctx.subscribedPatterns = [] then
    dropReceiver { s with ctx := { s.ctx with subMode := false } }
  else s

theorem leaveSubMode_run : leaveSubMode s = (.ok (), leftSubMode s) := by
  rw [leaveSubMode, get_bind, leftSubMode]
  split <;> rfl

/-- The channels that a client keeps. -/
def keepChannels (p : Bytes → Bool) (s : Side) : Side :=
  { s with ctx := { s.ctx with subscribedChannels := s.ctx.subscribedChannels.filter p } }

/-- The patterns that a client keeps. -/
def keepPatterns (p : String → Bool) (s : Side) : Side :=
  { s with ctx := { s.ctx with subscribedPatterns := s.ctx.subscribedPatterns.filter p } }

theorem keepChannels_foldl : args.foldl (fun s ch => keepChannels (· ≠ ch) s) s
    = keepChannels (!args.contains ·) s := by
  induction args generalizing s with
  | nil => simp [keepChannels]
  | cons ch args ih =>
    rw [List.foldl_cons, ih]
    simp [keepChannels, List.filter_filter, Bool.and_comm]

/-- What `unsubscribe` answers to some channels. -/
def unsubscribeLines (s : Side) : List Bytes → List RespValue :=
  Run.gathered (fun s ch => keepChannels (· ≠ ch) s) (fun s ch =>
    subLine "unsubscribe" ch (keepChannels (· ≠ ch) s).ctx.subscribedChannels.length) s

/-- What is left of a client after `unsubscribe`, before it looks whether that is anything. -/
def withoutChannels (s : Side) : Side :=
  if args = [] then dropReceiver (keepChannels (fun _ => false) s)
  else keepChannels (!args.contains ·) s

/-- What is left of a client after `punsubscribe`, before it looks whether that is anything. -/
def withoutPatterns (s : Side) : Side :=
  if args = [] then dropReceiver (keepPatterns (fun _ => false) s)
  else keepPatterns (· ∉ args.map fromUtf8Lossy) s

/-- **`UNSUBSCRIBE`.** -/
theorem unsubscribe_run : ∃ lines, unsubscribe env dbs args s
    = (.ok (.array (some lines)), leftSubMode (withoutChannels args s)) := by
  rw [unsubscribe, withoutChannels]
  split
  · have hchannels : s.ctx.subscribedChannels.filter (fun _ => false) = [] := by simp
    refine ⟨subLine "unsubscribe" [] 0, ?_⟩
    rw [keepChannels, hchannels]
    exact bind_ok (leaveSubMode_run _)
  · refine ⟨unsubscribeLines s args, ?_⟩
    rw [bind_ok (foldEach_collect (fun s ch =>
      subLine "unsubscribe" ch (keepChannels (· ≠ ch) s).ctx.subscribedChannels.length)
      (fun s ch => keepChannels (· ≠ ch) s) (fun acc ch s => ?_) args [] s), keepChannels_foldl]
    · exact bind_ok (leaveSubMode_run _)
    · rfl

/-- **`PUNSUBSCRIBE`.** -/
theorem punsubscribe_run : punsubscribe env dbs args s
    = (.ok (.array (some (subLine "punsubscribe" [] 0))), leftSubMode (withoutPatterns args s)) := by
  rw [punsubscribe, withoutPatterns]
  split
  · have hpatterns : s.ctx.subscribedPatterns.filter (fun _ => false) = [] := by simp
    rw [keepPatterns, hpatterns]
    exact bind_ok (leaveSubMode_run _)
  · exact bind_ok (leaveSubMode_run _)

end Cmd

end VeloDB
