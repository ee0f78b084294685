import VeloDB.Cmd.Containers
import VeloDB.Store.ZsetRanks

/-!
# Scores that `ZADD` takes

`ZADD` takes as a score what `f64`'s parser takes, and that includes a NaN. The score index compares
with `OrderedF64::cmp`, for which a NaN is equal to everything: what a lookup finds then depends on
which keys it meets, and no bucket has a score equal to a NaN. As long as the scores that are added
are numbers, the two indexes of every sorted set stay in step.

## Main results

* `scores_consistent` — every sequence of `ZADD` and `ZREM` whose scores are numbers
* `nan_score_has_no_rank` — one score that is not
-/

namespace VeloDB

open Rust

/-- `ZADD` and `ZREM` with their arguments, each in some environment and on some database. -/
inductive ZsetCall
  | zadd (env : Env) (i : ℕ) (args : List Bytes)
  | zrem (env : Env) (i : ℕ) (args : List Bytes)

namespace ZsetCall

/-- Run the handler. -/
def run : ZsetCall → KeyM RespValue
  | .zadd env i args => Cmd.zadd env i args
  | .zrem env i args => Cmd.zrem env i args

/-- No score that is accepted is a NaN. -/
def Numbers : ZsetCall → Prop
  | .zadd env _ args => ∀ pairs, Cmd.parseScoreMemberPairs env.host args.tail = .ok pairs →
      ∀ p ∈ pairs, p.1.isNaN = false
  | .zrem _ _ _ => True

/-- Run them one after the other, whatever each of them answers. -/
def runAll (calls : List ZsetCall) (ks : Keyspace) : Keyspace :=
  calls.foldl (fun ks call => (call.run ks).2) ks

/-- A `ZADD` whose scores are accepted. -/
theorem zadd_run {env : Env} {i : ℕ} {k : Bytes} {rest : List Bytes} {pairs : List (F64 × Bytes)}
    (hpairs : Cmd.parseScoreMemberPairs env.host rest = .ok pairs) (ks : Keyspace) :
    ((zadd env i (k :: rest)).run ks).2 = ((ZsetOp.zadd i k pairs).run ks).2 := by
  have hargs : argsFrom (k :: rest) 1 = .ok rest := if_neg (by simp)
  rw [run, Cmd.zadd, hargs, lift_ok_bind, hpairs, lift_ok_bind]
  exact Proc.bind_pure_snd _ _ _

/-- A call either changes nothing, or it does what the method does. -/
theorem run_cases (call : ZsetCall) (ks : Keyspace) : (call.run ks).2 = ks ∨
    ∃ op : ZsetOp, (call.Numbers → op.Numbers) ∧ (call.run ks).2 = (op.run ks).2 := by
  cases call with
  | zadd env i args =>
    cases args with
    | nil => exact Or.inl rfl
    | cons k rest =>
      cases hpairs : Cmd.parseScoreMemberPairs env.host rest with
      | error e =>
        have hargs : argsFrom (k :: rest) 1 = .ok rest := if_neg (by simp)
        refine Or.inl ?_
        rw [run, Cmd.zadd, hargs, lift_ok_bind, hpairs]
        rfl
      | ok pairs =>
        exact Or.inr ⟨.zadd i k pairs, fun hnum => hnum pairs hpairs, zadd_run hpairs ks⟩
  | zrem env i args =>
    cases args with
    | nil => exact Or.inl rfl
    | cons k rest => exact Or.inr ⟨.zrem env.now i k rest, fun _ => trivial, Proc.bind_pure_snd _ _ _⟩

theorem allAgree_runAll {calls : List ZsetCall} (hcalls : ∀ call ∈ calls, call.Numbers)
    {ks : Keyspace} (h : ks.databases.AllAgree) : (runAll calls ks).databases.AllAgree := by
  induction calls generalizing ks with
  | nil => exact h
  | cons call calls ih =>
    have hcall : (call.run ks).2.databases.AllAgree := by
      rcases call.run_cases ks with hsame | ⟨op, hnum, hop⟩
      · rw [hsame]
        exact h
      · rw [hop]
        exact allAgree_run (hnum (hcalls call List.mem_cons_self)) h
    exact ih (fun c hc => hcalls c (List.mem_cons_of_mem _ hc)) hcall

end ZsetCall

/-- A sorted set is consistent: every member that has a score is where the methods look for it. -/
structure ZsetConsistent (now : UInt64) (ks : Keyspace) (i : ℕ) (k : Bytes) (scores : Scores) :
    Prop where
  bucket : ∀ m s, ks.databases.zscore now i k m = .ok (some s) → ∃! p, p ∈ scores ∧ m ∈ p.2
  key : ∀ m s, ks.databases.zscore now i k m = .ok (some s) →
    ∀ p ∈ scores, m ∈ p.2 → p.1.eq s = true
  rank : ∀ m s, ks.databases.zscore now i k m = .ok (some s) →
    ∃ n, ks.databases.zrank now i k m = .ok (some n)
  removed : ∀ m s, ks.databases.zscore now i k m = .ok (some s) →
    ∃ e members scores', (Keyspace.zrem now i k [m] ks).2.databases.liveEntry now i k = some e ∧
      e.value = .zset members scores' ∧ members.lookup m = none ∧ ∀ p ∈ scores', m ∉ p.2

/-- **Indexes in step.** -/
theorem ZsetAgrees.consistent {now : UInt64} {ks : Keyspace} {i : ℕ} {k : Bytes} {e : Entry}
    {members : HashMap Bytes F64} {scores : Scores} (h : ZsetAgrees members scores)
    (he : ks.databases.liveEntry now i k = some e) (hv : e.value = .zset members scores) :
    ZsetConsistent now ks i k scores := by
  have hunwrap : Kind.zset.unwrap e.value = some (members, scores) := by rw [hv]; rfl
  have hscore : ∀ {m s}, ks.databases.zscore now i k m = .ok (some s) →
      members.lookup m = some s := by
    intro m s hs
    rw [Databases.zscore, Databases.readAs_some he hunwrap] at hs
    exact Except.ok.inj hs
  exact {
    bucket := fun m s hs => h.existsUnique_bucket (hscore hs)
    key := fun m s hs p hp hm => by
      obtain ⟨s', hs', hrank⟩ := h.score_of_mem hp hm
      obtain rfl := Option.some.inj ((hscore hs).symm.trans hs')
      exact (F64.eq_iff (h.index.sorted.1 p hp) (h.numbers m s hs')).mpr hrank.symm
    rank := fun m s hs => ⟨(inOrder scores).idxOf m, by rw [zrank_eq he hv h, hscore hs]; rfl⟩
    removed := fun m s hs => by
      have hm := hscore hs
      have hi := Databases.lt_of_liveEntry he
      obtain ⟨hfind, hlive⟩ := Option.filter_eq_some_iff.mp he
      have hagrees := h.remove hm
      have hgone : (members.erase m).lookup m = none := AList.lookup_erase m members
      have hzrem : (Keyspace.zrem now i k [m] ks).2.databases
          = ks.databases.put i k { e with value := .zset (members.erase m) (scores.remove s m) } := by
        obtain ⟨dbs, notified⟩ := ks
        rw [Keyspace.zrem, Keyspace.updateAs_run .zset he hunwrap, List.foldl_cons, List.foldl_nil,
          VeloDB.zremOne, hm]
        rfl
      refine ⟨{ e with value := .zset (members.erase m) (scores.remove s m) }, members.erase m,
        scores.remove s m, ?_, rfl, hgone, fun p hp hmem => ?_⟩
      · rw [hzrem, Databases.liveEntry, Databases.find_put_self hi]
        exact Option.filter_eq_some_iff.mpr ⟨rfl, hlive⟩
      · obtain ⟨s', hs', -⟩ := hagrees.score_of_mem hp hmem
        cases hgone.symm.trans hs' }

/-- **Every sequence of `ZADD` and `ZREM`.** When no score that is accepted is a NaN, every sorted
set stays consistent. -/
theorem scores_consistent (n : ℕ) {calls : List ZsetCall} (hcalls : ∀ call ∈ calls, call.Numbers)
    {now : UInt64} {i : ℕ} {k : Bytes} {e : Entry} {members : HashMap Bytes F64} {scores : Scores} :
    let ks := ZsetCall.runAll calls { databases := (Store.new n).databases }
    ks.databases.liveEntry now i k = some e → e.value = .zset members scores →
      ZsetConsistent now ks i k scores := by
  intro ks he hv
  have hstart : ({ databases := (Store.new n).databases } : Keyspace).databases.AllAgree :=
    Databases.allAgree_new n
  have h := ZsetCall.allAgree_runAll hcalls hstart i k e (Option.filter_eq_some_iff.mp he).1
  rw [hv] at h
  exact ZsetAgrees.consistent h he hv

/-- A host that reads two numbers. -/
def Host.reads : Host :=
  { Host.plain with parseF64 := fun s =>
      if s = "nan" then some ⟨0x7FF8000000000000⟩
      else if s = "1" then some ⟨0x3FF0000000000000⟩
      else none }

/-- `ZADD z 1 a`. -/
theorem scores_consistent_one :
    let calls := [ZsetCall.zadd (Moment.on ⟨0, 0, 0, 1⟩ Host.reads) 0 [[122], [49], [97]]]
    let ks := ZsetCall.runAll calls { databases := (Store.new 1).databases }
    ∃ e members scores, ks.databases.liveEntry 0 0 [122] = some e ∧
      e.value = .zset members scores ∧ ZsetConsistent 0 ks 0 [122] scores := by
  intro calls ks
  have hpairs : Cmd.parseScoreMemberPairs Host.reads [[49], [97]]
      = .ok [(⟨0x3FF0000000000000⟩, [97])] := by decide +kernel
  have hcalls : ∀ call ∈ calls, call.Numbers := by
    intro call hcall
    obtain rfl := List.mem_singleton.mp hcall
    intro pairs hok p hp
    obtain rfl := Except.ok.inj (hpairs.symm.trans hok)
    rw [List.mem_singleton.mp hp]
    decide
  have hks : ks = ((ZsetOp.zadd 0 [122] [(⟨0x3FF0000000000000⟩, [97])]).run
      { databases := (Store.new 1).databases }).2 := ZsetCall.zadd_run hpairs _
  have hlive : ∃ e members scores, ks.databases.liveEntry 0 0 [122] = some e ∧
      e.value = .zset members scores := by
    rw [hks]
    exact ⟨_, _, _, rfl, rfl⟩
  obtain ⟨e, members, scores, he, hv⟩ := hlive
  exact ⟨e, members, scores, he, hv, scores_consistent 1 hcalls he hv⟩

/-- `ZADD z nan a`: the member has a score and no rank. -/
theorem nan_score_has_no_rank :
    let call := ZsetCall.zadd (Moment.on ⟨0, 0, 0, 1⟩ Host.reads) 0 [[122], [110, 97, 110], [97]]
    let ks := ZsetCall.runAll [call] { databases := (Store.new 1).databases }
    ks.databases.zscore 0 0 [122] [97] = .ok (some ⟨0x7FF8000000000000⟩) ∧
      ks.databases.zrank 0 0 [122] [97] = .ok none ∧
      ∀ scores, ¬ ZsetConsistent 0 ks 0 [122] scores := by
  intro call ks
  have hscore : ks.databases.zscore 0 0 [122] [97] = .ok (some ⟨0x7FF8000000000000⟩) := by
    decide +kernel
  have hrank : ks.databases.zrank 0 0 [122] [97] = .ok none := by decide +kernel
  refine ⟨hscore, hrank, fun scores h => ?_⟩
  obtain ⟨n, hn⟩ := h.rank [97] _ hscore
  cases hrank.symm.trans hn

end VeloDB
