import VeloDB.Cmd.StreamIds
import VeloDB.Persist.AofRewrite

/-!
# Snapshots and rewritten logs

A snapshot and a rewritten log are made from the same live entries. The snapshot holds every value
as it is, with the last id of a stream and with containers that have become empty. The log holds
commands that build the values, and there is none that builds an empty container or a last id.

## Main definitions

* `SameDataset` — what a client can tell of two datasets, for ranges of scores and `XADD` as well
* `StorageValue.Repeatable`, `StorageValue.LastIdKept` — what commands can build
* `StorageValue.Sortable` — scores that a sort puts in an order

## Main results

* `replays_entry` — what the commands for a value build, whatever the value is
* `forms_agree_iff` — the datasets of which both forms restore the same
-/

namespace VeloDB

open Rust

namespace StorageValue

/-- The commands for a value build its contents. -/
def Repeatable (H : Host) : StorageValue → Prop
  | string _ => True
  | list l => l ≠ []
  | set s => s.keys ≠ []
  | hash h => h.pairs ≠ []
  | zset members _ => members.pairs ≠ [] ∧
      ∀ p ∈ members.pairs, H.parseF64 (H.displayF64 p.2) = some p.2
  | stream es _ _ => es ≠ [] ∧ (es.Pairwise fun a b => idAfter b.id a.id = true) ∧
      ∀ e ∈ es, idAfter e.id (0, 0) = true ∧ e.fields ≠ []
  | nestedHash nh => nh.pairs ≠ [] ∧ ∀ p ∈ nh.pairs, p.2.pairs ≠ []

/-- The last id of a stream is that of its last entry. -/
def LastIdKept : StorageValue → Prop
  | stream es ms seq => ∀ last ∈ es.getLast?, last.id = (ms, seq)
  | _ => True

/-- The comparison of scores is an order on these: none of them is a NaN, which compares equal to
everything, or they all compare equal. -/
def Sortable : StorageValue → Prop
  | zset members _ => (∀ p ∈ members.pairs, p.2.isNaN = false) ∨
      ∀ p ∈ members.pairs, ∀ q ∈ members.pairs, orderedCmp p.2 q.2 = .eq
  | _ => True

/-- The same score index, if both have one. -/
def SameIndex : StorageValue → StorageValue → Prop
  | zset _ scores, zset _ scores' => VeloDB.SameIndex scores scores'
  | _, _ => True

end StorageValue

/-- What is at a key after the commands for a value, if nothing was there before. The score index
is the one that the snapshot gives. -/
structure ValueReplayed (H : Host) (v : StorageValue) (o : Option Entry) : Prop where
  repeats : v.Repeatable H →
    ∃ e, o = some e ∧ v.SameContents e.value ∧ (v.Sortable → v.rebuilt.SameIndex e.value)
  repeatable : ∀ e, o = some e → v.SameContents e.value → v.Repeatable H
  lasting : ∀ e, o = some e → e.expireAt = none
  lastId : ∀ e, o = some e → e.value.LastIdKept

/-- The commands for a value leave something at a key that was not there. -/
def ReplaysValue (H : Host) (k : Bytes) (v : StorageValue) : Prop :=
  ∀ (dbs : Databases) (i : ℕ), i < dbs.length → dbs.find i k = none → ∃ dbs' o,
    Builds H (fresh dbs i) (commandsForValue H k v) (fresh dbs' i) ∧ Leaves dbs i k o dbs' ∧
      ValueReplayed H v o

variable {H : Host} {dbs dbs' : Databases} {i : ℕ} {k : Bytes} {v : StorageValue}

/-! ### Values that commands cannot build -/

theorem leaves_self {o : Option Entry} (h : dbs.find i k = o) : Leaves dbs i k o dbs :=
  ⟨rfl, h, fun _ _ _ => rfl⟩

theorem valueReplayed_none (h : ¬v.Repeatable H) : ValueReplayed H v none where
  repeats hv := absurd hv h
  repeatable _ he := absurd he (Option.some_ne_none _).symm
  lasting _ he := absurd he (Option.some_ne_none _).symm
  lastId _ he := absurd he (Option.some_ne_none _).symm

/-- No command is written. -/
theorem replaysValue_nil (hcmds : commandsForValue H k v = []) (h : ¬v.Repeatable H) :
    ReplaysValue H k v := by
  intro dbs i _ hnone
  rw [hcmds]
  exact ⟨dbs, none, builds_nil _, leaves_self hnone, valueReplayed_none h⟩

/-- A value that is built as a whole. -/
theorem replaysValue_of_rebuilds (h : Rebuilds H k v) (hv : v.Repeatable H)
    (hlast : ∀ v', v.SameContents v' → v'.LastIdKept) (hindex : ∀ v', v.rebuilt.SameIndex v') :
    ReplaysValue H k v := by
  intro dbs i hi hnone
  obtain ⟨dbs', v', version, hbuilds, hwrote, hsame, -⟩ := h dbs i hi hnone
  refine ⟨dbs', _, hbuilds, hwrote.leaves, fun _ => ⟨_, rfl, hsame, fun _ => hindex v'⟩,
    fun _ _ _ => hv, fun e he => ?_, fun e he => ?_⟩
  · rw [← Option.some.inj he]
  · rw [← Option.some.inj he]
    exact hlast v' hsame

/-- A command whose handler raises an error changes nothing. -/
theorem builds_refused {name : String} {arity : ℤ} {f : Env → ℕ → List Bytes → KeyM RespValue}
    (hc : findCommand name = some ⟨name, arity, .write f⟩) {args : List Bytes}
    (hargs : (CommandDef.mk name arity (.write f)).refuses args = false)
    (hrun : ∀ env : Env, env.host = H →
      ∃ e, f env i args ⟨dbs, []⟩ = (.error (.error e), ⟨dbs, []⟩)) :
    Builds H (fresh dbs i) [asBytes name :: args] (fresh dbs i) := by
  refine builds_answered hc hargs fun env henv => ?_
  obtain ⟨e, he⟩ := hrun env henv
  exact ⟨_, [], .error e.display, he, fun m w w' hm => by rw [catchError, hm]⟩

/-! ### Sorted sets -/

/-- The scores that the text of the scores is read as. -/
theorem parseScoreMemberPairs_cases (H : Host) (l : List (Bytes × F64)) :
    (∃ e, Cmd.parseScoreMemberPairs H (l.flatMap fun p => [asBytes (H.displayF64 p.2), p.1])
      = .error (.error e)) ∧ (∃ p ∈ l, H.parseF64 (H.displayF64 p.2) = none) ∨
    ∃ score : F64 → F64, (∀ p ∈ l, H.parseF64 (H.displayF64 p.2) = some (score p.2)) ∧
      Cmd.parseScoreMemberPairs H (l.flatMap fun p => [asBytes (H.displayF64 p.2), p.1])
        = .ok ((l.map fun p => (p.1, score p.2)).map Prod.swap) := by
  by_cases h : ∃ p ∈ l, H.parseF64 (H.displayF64 p.2) = none
  · left
    refine ⟨?_, h⟩
    obtain ⟨p, hp, hnone⟩ := h
    induction l with
    | nil => exact absurd hp List.not_mem_nil
    | cons q l ih =>
      rw [List.flatMap_cons, List.cons_append, List.cons_append, List.nil_append,
        Cmd.parseScoreMemberPairs, fromUtf8Lossy_asBytes]
      cases hq : H.parseF64 (H.displayF64 q.2) with
      | none => exact ⟨_, rfl⟩
      | some s =>
        rcases List.mem_cons.mp hp with rfl | hmem
        · rw [hq] at hnone
          cases hnone
        · obtain ⟨e, he⟩ := ih hmem
          rw [he]
          exact ⟨e, rfl⟩
  · right
    have hsome : ∀ p ∈ l, H.parseF64 (H.displayF64 p.2)
        = some ((H.parseF64 (H.displayF64 p.2)).getD p.2) := by
      intro p hp
      cases hs : H.parseF64 (H.displayF64 p.2) with
      | none => exact absurd ⟨p, hp, hs⟩ h
      | some s => rfl
    refine ⟨fun s => (H.parseF64 (H.displayF64 s)).getD s, hsome, ?_⟩
    clear h
    induction l with
    | nil => rfl
    | cons p l ih =>
      rw [List.flatMap_cons, List.cons_append, List.cons_append, List.nil_append,
        Cmd.parseScoreMemberPairs, fromUtf8Lossy_asBytes, hsome p List.mem_cons_self,
        ih fun q hq => hsome q (List.mem_cons_of_mem _ hq)]
      rfl

theorem replaysValue_zset (members : HashMap Bytes F64) (scores : Scores) :
    ReplaysValue H k (.zset members scores) := by
  by_cases hne : members.pairs = []
  · exact replaysValue_nil (by rw [commandsForValue, if_pos hne]) fun h => h.1 hne
  intro dbs i hi hnone
  rw [commandsForValue, if_neg hne]
  have hzadd : findCommand "ZADD" = some ⟨"ZADD", -4, .write Cmd.zadd⟩ := rfl
  rcases parseScoreMemberPairs_cases H members.pairs with ⟨⟨e, he⟩, p, hp, hbad⟩ |
      ⟨score, hscore, hparse⟩
  · refine ⟨dbs, none, builds_refused hzadd rfl fun env henv => ⟨e, ?_⟩, leaves_self hnone,
      valueReplayed_none fun h => ?_⟩
    · simp only [Cmd.zadd, argsFrom_cons_succ, argsFrom_zero, lift_ok_bind, henv, he]
      rfl
    · rw [h.2 p hp] at hbad
      cases hbad
  · obtain ⟨l, hl⟩ : ∃ l, l = members.pairs.map fun p => (p.1, score p.2) := ⟨_, rfl⟩
    rw [← hl] at hparse
    have hnd : (l.map Prod.fst).Nodup := by
      rw [hl, List.map_map]
      exact members.nodup_pairs
    obtain ⟨z, hz⟩ : ∃ z, z = l.foldl StorageValue.addMember (∅, []) := ⟨_, rfl⟩
    obtain ⟨n, hrun⟩ := zadd_new hi hnone hnd
    rw [← hz] at hrun
    have hbuilds : Builds H (fresh dbs i) [asBytes "ZADD" :: k ::
        members.pairs.flatMap fun p => [asBytes (H.displayF64 p.2), p.1]]
        (fresh (dbs.put i k { value := .zset z.1 z.2 }) i) := by
      refine builds_write hzadd rfl fun env henv => ⟨.count n, [], ?_⟩
      simp only [Cmd.zadd, argsFrom_cons_succ, argsFrom_zero, lift_ok_bind, henv, hparse,
        arg_cons_zero]
      exact Proc.bind_ok hrun
    have hlookup : ∀ p ∈ members.pairs, z.1.lookup p.1 = some (score p.2) := by
      intro p hp
      rw [hz, StorageValue.addMember_foldl]
      exact HashMap.lookup_insertAll_of_mem hnd (hl ▸ List.mem_map_of_mem hp)
    refine ⟨_, _, hbuilds, (wrote_put hi _).leaves, fun hv => ?_, fun e he hsame => ?_,
      fun e he => ?_, fun e he => ?_⟩
    · -- the scores are read as they are
      have hpairs : l = members.pairs := by
        rw [hl]
        refine (List.map_congr_left fun p hp => ?_).trans (List.map_id _)
        have hread := (hscore p hp).symm.trans (hv.2 p hp)
        exact Prod.ext rfl (Option.some.inj hread)
      rw [hpairs] at hz
      have hsame : HashMap.Same members z.1 := by
        intro m
        rw [hz, StorageValue.addMember_foldl]
        exact (HashMap.lookup_insertAll_perm (List.Perm.refl _) m).symm
      refine ⟨_, rfl, .zset hsame scores _, fun hsortable => ?_⟩
      -- the snapshot adds the members by score, the log as they come
      rw [hz, StorageValue.rebuilt]
      dsimp only [StorageValue.SameIndex]
      rw [StorageValue.addMember_foldl_index, StorageValue.addMember_foldl_index]
      rcases hsortable with hnan | hequal
      · have hnan' : ∀ p ∈ sortByScore members, p.2.isNaN = false :=
          fun p hp => hnan p ((sortByScore_perm members).mem_iff.mp hp)
        exact sameIndex_ofMembers hnan' hnan fun r => (ofRank_sortByScore hnan r).symm
      · rw [sortByScore_eq_self hequal]
        exact sameIndex_refl _
    · rw [← Option.some.inj he] at hsame
      have hsame : HashMap.Same members z.1 := by
        cases hsame with
        | zset h => exact h
      refine ⟨hne, fun p hp => ?_⟩
      have hboth := (HashMap.mem_pairs.mp hp).symm.trans ((hsame p.1).trans (hlookup p hp))
      rw [hscore p hp, ← Option.some.inj hboth]
    · rw [← Option.some.inj he]
    · rw [← Option.some.inj he]
      trivial

/-! ### Streams -/

/-- A replayed `XADD` is accepted after these entries. -/
def Accepted (es : List StreamEntry) (e : StreamEntry) : Prop :=
  (∀ last ∈ es.getLast?, idAfter e.id last.id = true) ∧ idAfter e.id (0, 0) = true ∧ e.fields ≠ []

/-- The id `0-0` is never taken. -/
theorem generateStreamId_zero (now : UInt64) (dbs : Databases) (i : ℕ) (k : Bytes)
    {id : StreamId} (hid : idAfter id (0, 0) = false) :
    dbs.generateStreamId now i k (formatId id) = .error .streamIdTooSmall := by
  rw [generateStreamId_text, if_pos]
  rw [not_idAfter_iff] at hid
  have hrank : idRank id = idRank (0, 0) := Nat.le_antisymm hid (Nat.zero_le _)
  rw [idRank_injective hrank]
  exact ⟨rfl, rfl⟩

/-- One entry more, if it is accepted. -/
theorem builds_entryOf (hi : i < dbs.length) {es : List StreamEntry}
    (hfind : dbs.find i k = streamSoFar es) (e : StreamEntry) : ∃ dbs' es',
      Builds H (fresh dbs i) [asBytes "XADD" :: k :: formatId e.id :: flatPairs e.fields]
        (fresh dbs' i) ∧ Leaves dbs i k (streamSoFar es') dbs' ∧
      (es' = es ++ [e] ∧ Accepted es e ∨ es' = es ∧ ¬Accepted es e) := by
  by_cases hacc : Accepted es e
  · have hwrote := wrote_put hi (k := k) { value := .stream (es ++ [e]) e.idMs e.idSeq }
    refine ⟨_, es ++ [e], builds_xadd hi hfind hacc.1 hacc.2.1 hacc.2.2, ?_, Or.inl ⟨rfl, hacc⟩⟩
    rw [streamSoFar_concat]
    exact hwrote.leaves
  · refine ⟨dbs, es, ?_, leaves_self hfind, Or.inr ⟨rfl, hacc⟩⟩
    have hxadd : findCommand "XADD" = some ⟨"XADD", -4, .write Cmd.xadd⟩ := rfl
    refine builds_refused hxadd rfl fun env _ => ?_
    simp only [Cmd.xadd, List.drop_succ_cons, List.drop_zero, xaddOptions_formatId,
      parsePairs_flatPairs]
    by_cases hfields : e.fields = []
    · rw [if_pos hfields]
      exact ⟨_, rfl⟩
    · simp only [if_neg hfields, arg_cons_zero, lift_ok_bind]
      cases hid : idAfter e.id (0, 0) with
      | false =>
        exact ⟨_, Proc.bind_error (ContainerWrite.xadd_eq_error
          (generateStreamId_zero env.now dbs i k hid) e.fields none [])⟩
      | true =>
        have hgen := generateStreamId_formatId env.now dbs i k hid
        have hlast := streamLastId?_soFar hi hfind env.now
        cases hes : es.getLast? with
        | none => exact absurd ⟨fun last h => (by rw [hes] at h; cases h), hid, hfields⟩ hacc
        | some last =>
          rw [hes] at hlast
          cases hafter : idAfter e.id last.id with
          | true =>
            refine absurd ⟨fun last' h => ?_, hid, hfields⟩ hacc
            rw [hes] at h
            obtain rfl := Option.some.inj h
            exact hafter
          | false =>
            exact ⟨_, Proc.bind_error (ContainerWrite.xadd_eq_tooSmall hgen hlast hafter e.fields
              none [])⟩

/-- The entries of a stream, one after the other: those that are accepted are there. -/
theorem builds_entriesOf (todo : List StreamEntry) (hi : i < dbs.length) {es : List StreamEntry}
    (hfind : dbs.find i k = streamSoFar es) : ∃ dbs' es',
      Builds H (fresh dbs i)
        (todo.map fun e => asBytes "XADD" :: k :: formatId e.id :: flatPairs e.fields)
        (fresh dbs' i) ∧ Leaves dbs i k (streamSoFar es') dbs' ∧
      es'.length ≤ es.length + todo.length ∧
      (es' = es ++ todo ↔ ∀ pre e post, todo = pre ++ e :: post → Accepted (es ++ pre) e) := by
  induction todo generalizing dbs es with
  | nil =>
    refine ⟨dbs, es, builds_nil _, leaves_self hfind, le_rfl, iff_of_true (by simp) ?_⟩
    exact fun pre e post h => absurd h.symm (by simp)
  | cons e todo ih =>
    obtain ⟨dbs₁, es₁, hone, hleaves, hcases⟩ := builds_entryOf (H := H) hi hfind e
    obtain ⟨dbs₂, es₂, hrest, hleaves', hlen, hacc⟩ := ih (hleaves.length ▸ hi) hleaves.self
    have hboth : Leaves dbs i k (streamSoFar es₂) dbs₂ := ⟨hleaves'.length.trans hleaves.length,
      hleaves'.self, fun j k' h => (hleaves'.other j k' h).trans (hleaves.other j k' h)⟩
    rcases hcases with ⟨rfl, hfirst⟩ | ⟨rfl, hfirst⟩
    · refine ⟨dbs₂, es₂, hone.append hrest, hboth, ?_, ?_⟩
      · simp only [List.length_append, List.length_cons, List.length_nil] at hlen ⊢
        omega
      · rw [show es ++ e :: todo = es ++ [e] ++ todo by simp, hacc]
        constructor
        · rintro h (_ | ⟨g, pre⟩) f post hsplit
          · obtain ⟨rfl, -⟩ := List.cons.inj hsplit
            rwa [List.append_nil]
          · obtain ⟨rfl, htail⟩ := List.cons.inj hsplit
            have hthis := h pre f post htail
            rwa [List.append_assoc] at hthis
        · intro h pre f post hsplit
          rw [List.append_assoc]
          exact h (e :: pre) f post (by rw [hsplit, List.cons_append])
    · -- an entry is missing, so the stream stays too short
      refine ⟨dbs₂, es₂, hone.append hrest, hboth, ?_, iff_of_false (fun heq => ?_) fun h => ?_⟩
      · simp only [List.length_cons]
        omega
      · rw [heq] at hlen
        simp only [List.length_append, List.length_cons] at hlen
        omega
      · have hthis := h [] e todo rfl
        rw [List.append_nil] at hthis
        exact hfirst hthis

/-- Ids that are each after the one before ascend. -/
theorem pairwise_of_accepted {es : List StreamEntry}
    (h : ∀ pre e post, es = pre ++ e :: post → Accepted pre e) :
    es.Pairwise fun a b => idAfter b.id a.id = true := by
  induction es using List.reverseRecOn with
  | nil => exact List.Pairwise.nil
  | append_singleton es e ih =>
    have hpair := ih fun pre f post hsplit => h pre f (post ++ [e]) (by rw [hsplit]; simp)
    refine List.pairwise_append.mpr ⟨hpair, List.pairwise_singleton _ _, fun a ha b hb => ?_⟩
    obtain rfl := List.mem_singleton.mp hb
    have hacc := (h es b [] rfl).1
    rcases List.eq_nil_or_concat es with rfl | ⟨init, last, rfl⟩
    · exact absurd ha List.not_mem_nil
    · rw [List.concat_eq_append] at ha hpair hacc
      have hlast := hacc last (by rw [List.getLast?_concat]; rfl)
      rcases List.mem_append.mp ha with hinit | hmem
      · have hbefore := (List.pairwise_append.mp hpair).2.2 a hinit last List.mem_cons_self
        rw [idAfter_iff] at hbefore hlast ⊢
        exact hbefore.trans hlast
      · rwa [List.mem_singleton.mp hmem]

/-- Every entry is accepted after those before it, exactly when their ids ascend. -/
theorem accepted_iff_repeatable {es : List StreamEntry} (ms seq : UInt64) :
    (es ≠ [] ∧ ∀ pre e post, es = pre ++ e :: post → Accepted pre e) ↔
      (StorageValue.stream es ms seq).Repeatable H := by
  refine and_congr_right fun _ => ⟨fun h => ⟨pairwise_of_accepted h, fun e he => ?_⟩, ?_⟩
  · obtain ⟨pre, post, hsplit⟩ := List.append_of_mem he
    exact (h pre e post hsplit).2
  · rintro ⟨hpair, hall⟩ pre e post rfl
    refine ⟨fun last hlast => ?_, hall e (by simp)⟩
    exact (List.pairwise_append.mp hpair).2.2 last (List.mem_of_getLast? hlast) e
      List.mem_cons_self

theorem replaysValue_stream (es : List StreamEntry) (ms seq : UInt64) :
    ReplaysValue H k (.stream es ms seq) := by
  intro dbs i hi hnone
  have hstart : dbs.find i k = streamSoFar [] := hnone
  obtain ⟨dbs', es', hbuilds, hleaves, -, hall⟩ := builds_entriesOf (H := H) es hi hstart
  rw [List.nil_append] at hall
  have hvalue : ∀ e, streamSoFar es' = some e → ∃ last, es'.getLast? = some last ∧
      e = { value := .stream es' last.idMs last.idSeq } := by
    intro e he
    obtain ⟨last, hlast, rfl⟩ := Option.map_eq_some_iff.mp he
    exact ⟨last, hlast, rfl⟩
  refine ⟨dbs', _, hbuilds, hleaves, fun hv => ?_, fun e he hsame => ?_, fun e he => ?_,
    fun e he => ?_⟩
  · obtain ⟨hne, hacc⟩ := (accepted_iff_repeatable (H := H) ms seq).mpr hv
    obtain rfl := hall.mpr hacc
    have hsofar : streamSoFar es' = some
        { value := .stream es' (es'.getLast hne).idMs (es'.getLast hne).idSeq } := by
      rw [streamSoFar, List.getLast?_eq_some_getLast hne]
      rfl
    exact ⟨_, hsofar, rfl, fun _ => trivial⟩
  · obtain ⟨last, hlast, rfl⟩ := hvalue e he
    obtain rfl : es = es' := hsame
    have hne : es ≠ [] := by
      rintro rfl
      cases hlast
    exact (accepted_iff_repeatable ms seq).mp ⟨hne, hall.mp rfl⟩
  · obtain ⟨last, -, rfl⟩ := hvalue e he
    rfl
  · obtain ⟨last, hlast, rfl⟩ := hvalue e he
    intro last' hlast'
    obtain rfl := Option.some.inj (hlast.symm.trans hlast')
    rfl

/-! ### Nested hashes -/

theorem lookup_nhsetStep_of_notMem {l : List (Bytes × Bytes × Bytes)} {f : Bytes}
    (hf : f ∉ l.map Prod.fst) (m : HashMap Bytes (HashMap Bytes Bytes)) :
    (l.foldl nhsetStep m).lookup f = m.lookup f := by
  induction l generalizing m with
  | nil => rfl
  | cons t l ih =>
    rw [List.map_cons, List.mem_cons, not_or] at hf
    rw [List.foldl_cons, ih hf.2, nhsetStep, AList.lookup_insert_ne hf.1]

theorem replaysValue_nestedHash (nh : HashMap Bytes (HashMap Bytes Bytes)) :
    ReplaysValue H k (.nestedHash nh) := by
  have hcmds : commandsForValue H k (.nestedHash nh)
      = (triples nh.pairs).map fun t => [asBytes "NHSET", k, t.1, t.2.1, t.2.2] := by
    rw [commandsForValue, triples, List.map_flatMap]
    simp only [List.map_map]
    rfl
  have hempty : nh.pairs ≠ [] → (∀ p ∈ nh.pairs, p.2.pairs ≠ []) → triples nh.pairs ≠ [] := by
    intro hne hinner
    obtain ⟨p, l, hl⟩ := List.exists_cons_of_ne_nil hne
    have hp := hinner p (hl ▸ List.mem_cons_self)
    rw [hl, triples, List.flatMap_cons]
    exact List.append_ne_nil_of_left_ne_nil (by simpa using hp) _
  by_cases hnil : triples nh.pairs = []
  · refine replaysValue_nil (by rw [hcmds, hnil]; rfl) fun h => hempty h.1 h.2 hnil
  intro dbs i hi hnone
  have hold : (dbs.find i k).getD { value := Kind.nestedHash.wrap ∅ }
      = { value := .nestedHash ∅ } := by
    rw [hnone]
    rfl
  obtain ⟨dbs', hbuilds, hwrote⟩ := builds_nested (H := H) hi hold hnil
  rw [hcmds]
  refine ⟨dbs', _, hbuilds, hwrote.leaves, fun hv => ⟨_, rfl, .nestedHash ?_, fun _ => trivial⟩,
    fun e he hsame => ?_, fun e he => ?_, fun e he => ?_⟩
  · exact sameNested_triples hv.2
  · rw [← Option.some.inj he] at hsame
    have hsame : SameNested nh ((triples nh.pairs).foldl nhsetStep ∅) := by
      cases hsame with
      | nestedHash h => exact h
    refine ⟨fun h => hnil (by rw [h]; rfl), fun p hp hinner => ?_⟩
    have hnot : p.1 ∉ (triples nh.pairs).map Prod.fst := by
      intro hmem
      obtain ⟨t, ht, hfield⟩ := List.mem_map.mp hmem
      obtain ⟨q, hq, hsub⟩ := List.mem_flatMap.mp ht
      obtain ⟨sub, hsubmem, rfl⟩ := List.mem_map.mp hsub
      have hsamefield : nh.lookup p.1 = some q.2 := hfield ▸ HashMap.mem_pairs.mp hq
      rw [HashMap.mem_pairs.mp hp] at hsamefield
      rw [← Option.some.inj hsamefield, hinner] at hsubmem
      cases hsubmem
    have hrel := hsame p.1
    rw [HashMap.mem_pairs.mp hp, lookup_nhsetStep_of_notMem hnot, AList.lookup_empty] at hrel
    cases hrel
  · rw [← Option.some.inj he]
  · rw [← Option.some.inj he]
    trivial

/-! ### All values -/

/-- **What the commands for a value build**, whatever the value is. -/
theorem replaysValue (H : Host) (k : Bytes) (v : StorageValue) : ReplaysValue H k v := by
  cases v with
  | string v =>
    refine replaysValue_of_rebuilds (rebuilds_string v) trivial (fun v' h => ?_) fun _ => trivial
    cases h
    trivial
  | list l =>
    by_cases hne : l = []
    · exact replaysValue_nil (by rw [commandsForValue, if_pos hne]) fun h => h hne
    · refine replaysValue_of_rebuilds (rebuilds_list hne) hne (fun v' h => ?_) fun _ => trivial
      cases h
      trivial
  | set s =>
    by_cases hne : s.keys = []
    · exact replaysValue_nil (by rw [commandsForValue, if_pos hne]) fun h => h hne
    · refine replaysValue_of_rebuilds (rebuilds_set hne) hne (fun v' h => ?_) fun _ => trivial
      cases h
      trivial
  | hash h =>
    by_cases hne : h.pairs = []
    · exact replaysValue_nil (by rw [commandsForValue, if_pos hne]) fun h => h hne
    · refine replaysValue_of_rebuilds (rebuilds_hash hne) hne (fun v' h => ?_) fun _ => trivial
      cases h
      trivial
  | zset members scores => exact replaysValue_zset members scores
  | stream es ms seq => exact replaysValue_stream es ms seq
  | nestedHash nh => exact replaysValue_nestedHash nh

/-! ### Entries -/

/-- What is at a key after the commands for an entry. -/
structure EntryReplayed (H : Host) (e : Entry) (o : Option Entry) : Prop where
  repeats : e.value.Repeatable H →
    ∃ e', o = some e' ∧ e.value.SameContents e'.value ∧
      (e.value.Sortable → e.value.rebuilt.SameIndex e'.value)
  repeatable : ∀ e', o = some e' → e.value.SameContents e'.value → e.value.Repeatable H
  expireAt : ∀ e', o = some e' → e'.expireAt = e.expireAt
  lastId : ∀ e', o = some e' → e'.value.LastIdKept

/-- The expiry of what is at a key, if there is anything. -/
theorem builds_pexpireat (hi : i < dbs.length) (k : Bytes) (at_ : UInt64) : ∃ dbs',
    Builds H (fresh dbs i) [[asBytes "PEXPIREAT", k, asBytes (toString at_.toNat)]]
      (fresh dbs' i) ∧
    Leaves dbs i k ((dbs.find i k).map fun e => { e with expireAt := some at_ }) dbs' := by
  have hpexpireat : findCommand "PEXPIREAT" = some ⟨"PEXPIREAT", 3, .write Cmd.pexpireat⟩ := rfl
  have hone : ∀ b dbs', Keyspace.changeExpire i k (some at_) ⟨dbs, []⟩ = (.ok b, ⟨dbs', []⟩) →
      Builds H (fresh dbs i) [[asBytes "PEXPIREAT", k, asBytes (toString at_.toNat)]]
        (fresh dbs' i) := by
    intro b dbs' hrun
    refine builds_write hpexpireat (refuses_of_length rfl (by simp)) fun env _ =>
      ⟨flag b, [], ?_⟩
    simp only [Cmd.pexpireat, Cmd.expireWith, arg_cons_succ, arg_cons_zero, lift_ok_bind,
      argU64_toString, Option.getD_some, id_eq, Keyspace.setExpire]
    exact Proc.bind_ok hrun
  cases he : dbs.find i k with
  | none => exact ⟨dbs, hone _ _ (Keyspace.changeExpire_missing hi he _ []), leaves_self he⟩
  | some e =>
    exact ⟨_, hone _ _ (Keyspace.changeExpire_run hi he (some at_) []), (wrote_put hi _).leaves⟩

/-- **What the commands for an entry build.** -/
theorem replays_entry (H : Host) (p : Bytes × Entry) : Replays H (EntryReplayed H) p := by
  intro dbs i hi hnone
  obtain ⟨dbs', o, hbuilds, hleaves, hvalue⟩ := replaysValue H p.1 p.2.value dbs i hi hnone
  rw [commandsForEntry]
  cases hexp : p.2.expireAt with
  | none =>
    simp only [List.append_nil]
    exact ⟨dbs', o, hbuilds, hleaves, hvalue.repeats, hvalue.repeatable,
      fun e' he' => (hvalue.lasting e' he').trans hexp.symm, hvalue.lastId⟩
  | some at_ =>
    obtain ⟨dbs'', hexpire, hleaves'⟩ :=
      builds_pexpireat (H := H) (hleaves.length ▸ hi : i < dbs'.length) p.1 at_
    rw [hleaves.self] at hleaves'
    have hboth : Leaves dbs i p.1 (o.map fun e => { e with expireAt := some at_ }) dbs'' :=
      ⟨hleaves'.length.trans hleaves.length, hleaves'.self,
        fun j k' h => (hleaves'.other j k' h).trans (hleaves.other j k' h)⟩
    refine ⟨dbs'', _, hbuilds.append hexpire, hboth, fun hv => ?_, fun e' he' hsame => ?_,
      fun e' he' => ?_, fun e' he' => ?_⟩
    · obtain ⟨e, rfl, hsame, hindex⟩ := hvalue.repeats hv
      exact ⟨_, rfl, hsame, hindex⟩
    · obtain ⟨e, rfl, rfl⟩ := Option.map_eq_some_iff.mp he'
      exact hvalue.repeatable e rfl hsame
    · obtain ⟨e, rfl, rfl⟩ := Option.map_eq_some_iff.mp he'
      exact hexp.symm
    · obtain ⟨e, rfl, rfl⟩ := Option.map_eq_some_iff.mp he'
      exact hvalue.lastId e rfl

/-! ### Comparing datasets -/

/-- The same contents, score index and expiry. The last ids of streams may differ. -/
structure Entry.Alike (e e' : Entry) : Prop where
  contents : e.value.SameContents e'.value
  index : e.value.SameIndex e'.value
  expireAt : e.expireAt = e'.expireAt

/-- What a client can tell of two datasets: the live keys with their types, contents, score indexes
and expiries, and which explicit ids `XADD` takes. -/
structure SameDataset (dbs dbs' : Databases) : Prop where
  live : ∀ now i k, Option.Rel Entry.Alike (dbs.liveEntry now i k) (dbs'.liveEntry now i k)
  ids : ∀ now i k id fields,
    (Keyspace.xadd now i k (formatId id) fields none ⟨dbs, []⟩).1 = .ok (formatId id) ↔
      (Keyspace.xadd now i k (formatId id) fields none ⟨dbs', []⟩).1 = .ok (formatId id)

/-- What loading a snapshot into a fresh store gives. -/
def reloaded (now : UInt64) (dbs : Databases) : Databases :=
  match saveRdb now dbs dbs.length with
  | .ok file => (loadRdb (Store.new dbs.length).databases file).1
  | .error _ => (Store.new dbs.length).databases

/-- What replaying a rewritten log on a fresh store gives. -/
def replayed (H : Host) (clock : ℕ → Moment) (now : UInt64) (dbs : Databases) : Databases :=
  (replayAof H clock (writeDataset H now dbs)
    { store := Store.new dbs.length, ctx := {} }).2.store.databases

/-- The datasets that both forms have room for. -/
structure Storable (H : Host) (now : UInt64) (dbs : Databases) : Prop where
  atMost256 : dbs.length ≤ 256
  key_ne_nil : ∀ d ∈ dbs, ∀ p ∈ Databases.live now d, p.1 ≠ []
  fits : FitsLive now dbs
  bytes : (writeDataset H now dbs).length < 2 ^ 63

/-- Commands build every live value. -/
def KeptByBoth (H : Host) (now : UInt64) (dbs : Databases) : Prop :=
  ∀ d ∈ dbs, ∀ p ∈ Databases.live now d, p.2.value.Repeatable H ∧ p.2.value.LastIdKept

/-- The scores of every live sorted set can be sorted. -/
def SortableLive (now : UInt64) (dbs : Databases) : Prop :=
  ∀ d ∈ dbs, ∀ p ∈ Databases.live now d, p.2.value.Sortable

variable {now : UInt64} {clock : ℕ → Moment}

/-- **The snapshot** holds every value as it is. -/
theorem reloaded_spec (h : Storable H now dbs) : (reloaded now dbs).length = dbs.length ∧
    (∀ i k e, dbs.liveEntry now i k = some e → ∃ e', (reloaded now dbs).find i k = some e' ∧
      e'.value = e.value.rebuilt ∧ e'.expireAt = e.expireAt) ∧
    ∀ i k, dbs.liveEntry now i k = none → (reloaded now dbs).find i k = none := by
  have hnew : (Store.new dbs.length).databases.length = dbs.length := List.length_replicate
  obtain ⟨file, loaded, result, hsave, hload, hlen, -, hfind⟩ :=
    loadRdb_onto h.fits (numbered_of_length_le h.atMost256) (Store.new dbs.length).databases
  have hreloaded : reloaded now dbs = loaded := by
    rw [reloaded, hsave]
    exact congrArg Prod.fst hload
  rw [hreloaded]
  refine ⟨hlen.trans hnew, fun i k e he => ?_, fun i k hnone => ?_⟩
  · have hik := hfind i k
    rw [hnew, if_pos (Databases.lt_of_liveEntry he), payload_of_key_ne h.key_ne_nil, he] at hik
    obtain ⟨version, hver⟩ := hik
    exact ⟨_, hver, rfl, rfl⟩
  · have hik := hfind i k
    rw [payload_of_key_ne h.key_ne_nil, hnone, ite_self] at hik
    exact Eq.trans hik (Databases.find_new _ i k)

/-- **The log** holds what its commands build. -/
theorem replayed_spec (h : Storable H now dbs) (clock : ℕ → Moment) :
    (replayed H clock now dbs).length = dbs.length ∧
    (∀ i k e, dbs.liveEntry now i k = some e →
      EntryReplayed H e ((replayed H clock now dbs).find i k)) ∧
    ∀ i k, dbs.liveEntry now i k = none → (replayed H clock now dbs).find i k = none := by
  have hmax : dbs.length ≤ usizeMax := h.atMost256.trans (by decide)
  obtain ⟨w, hreplay, hlen, hsome, hnone⟩ :=
    replayAof_dataset (fun d _ p _ => replays_entry H p) hmax h.bytes clock
  rw [replayed, hreplay]
  exact ⟨hlen, hsome, hnone⟩

/-! ### Explicit ids -/

/-- What `XADD` adds its entry to. -/
def streamAt (dbs : Databases) (i : ℕ) (k : Bytes) : Option StreamData :=
  Kind.stream.unwrap ((dbs.find i k).getD { value := Kind.stream.wrap ([], 0, 0) }).value

/-- **The explicit ids that `XADD` takes.** -/
theorem xadd_ok_iff (now : UInt64) (dbs : Databases) (i : ℕ) (k : Bytes) (id : StreamId)
    (fields : List (Bytes × Bytes)) :
    (Keyspace.xadd now i k (formatId id) fields none ⟨dbs, []⟩).1 = .ok (formatId id) ↔
      i < dbs.length ∧ idAfter id (0, 0) = true ∧
        (∀ last, dbs.streamLastId? now i k = some last → idAfter id last = true) ∧
        (streamAt dbs i k).isSome = true := by
  cases hid : idAfter id (0, 0) with
  | false =>
    rw [ContainerWrite.xadd_eq_error (generateStreamId_zero now dbs i k hid)]
    simp
  | true =>
    have hgen := generateStreamId_formatId now dbs i k hid
    by_cases hafter : ∀ last, dbs.streamLastId? now i k = some last → idAfter id last = true
    · rw [ContainerWrite.xadd_eq_upsert hgen hafter]
      rcases Keyspace.upsertAs_cases .stream i k ([], 0, 0)
          (ContainerWrite.addEntry id fields none) ⟨dbs, []⟩ with
        ⟨e, hrun, hnone⟩ | ⟨a, hi, ha, hrun⟩
      · rw [Proc.bind_error hrun]
        refine iff_of_false (fun h => by cases h) ?_
        rintro ⟨hi, -, -, hsome⟩
        rw [streamAt, (hnone hi).2] at hsome
        cases hsome
      · rw [Proc.bind_ok hrun]
        exact iff_of_true rfl ⟨hi, rfl, hafter, by rw [streamAt, ha]; rfl⟩
    · obtain ⟨last, hlast⟩ := not_forall.mp hafter
      obtain ⟨hsome, hnot⟩ := Classical.not_imp.mp hlast
      rw [ContainerWrite.xadd_eq_tooSmall hgen hsome (Bool.eq_false_of_not_eq_true hnot)]
      refine iff_of_false (fun h => by cases h) fun h => hnot (h.2.2.1 last hsome)

/-- Above the last id of a live stream, every explicit id is taken. -/
theorem xadd_ok_iff_of_live {e : Entry} (he : dbs.liveEntry now i k = some e)
    {es : List StreamEntry} {ms seq : UInt64} (hv : e.value = .stream es ms seq) {id : StreamId}
    (hid : idRank (0, 0) < idRank id) (fields : List (Bytes × Bytes)) :
    (Keyspace.xadd now i k (formatId id) fields none ⟨dbs, []⟩).1 = .ok (formatId id) ↔
      idRank (ms, seq) < idRank id := by
  have hi := Databases.lt_of_liveEntry he
  have hlast : dbs.streamLastId? now i k = some (ms, seq) := by
    rw [streamLastId?_eq hi, he, Option.bind_some, hv]
    rfl
  have hat : (streamAt dbs i k).isSome = true := by
    rw [streamAt, (Option.filter_eq_some_iff.mp he).1, Option.getD_some, hv]
    rfl
  rw [← idAfter_iff] at hid
  rw [xadd_ok_iff, hlast, hat, ← idAfter_iff]
  simp [hi, hid]

/-! ### Both forms -/

theorem rel_same_euclid {a b c : Option (HashMap Bytes Bytes)} (h : Option.Rel HashMap.Same a b)
    (h' : Option.Rel HashMap.Same a c) : Option.Rel HashMap.Same b c := by
  cases h with
  | none =>
    cases h'
    exact Option.Rel.none
  | some h => cases h' with
    | some h' => exact Option.Rel.some fun k => (h k).symm.trans (h' k)

theorem rel_same_symm {a b : Option (HashMap Bytes Bytes)} (h : Option.Rel HashMap.Same a b) :
    Option.Rel HashMap.Same b a := by
  cases h with
  | none => exact Option.Rel.none
  | some h => exact Option.Rel.some fun k => (h k).symm

namespace StorageValue

variable {v v' w : StorageValue}

/-- The same value has the same contents as another one. -/
theorem Same.sameContents (h : v.Same v') (h' : v.SameContents w) : v'.SameContents w := by
  cases h with
  | string v => exact h'
  | list l => exact h'
  | set h => cases h' with
    | set h' => exact .set fun k => (h k).symm.trans (h' k)
  | hash h => cases h' with
    | hash h' => exact .hash fun k => (h k).symm.trans (h' k)
  | zset h sc sc' => cases h' with
    | zset h' => exact .zset (fun k => (h k).symm.trans (h' k)) _ _
  | stream es ms seq => exact h'
  | nestedHash h => cases h' with
    | nestedHash h' => exact .nestedHash fun f => rel_same_euclid (h f) (h' f)

theorem Same.symm (h : v.Same v') : v'.Same v := by
  cases h with
  | string v => exact .string v
  | list l => exact .list l
  | set h => exact .set fun k => (h k).symm
  | hash h => exact .hash fun k => (h k).symm
  | zset h sc sc' => exact .zset (fun k => (h k).symm) _ _
  | stream es ms seq => exact .stream es ms seq
  | nestedHash h => exact .nestedHash fun f => rel_same_symm (h f)

/-- Two streams with the same entries whose last ids are those of their last entries. -/
theorem unwrap_stream (h : v.SameContents w) (hv : v.LastIdKept) (hw : w.LastIdKept)
    (hrep : v.Repeatable H) : Kind.stream.unwrap v = Kind.stream.unwrap w := by
  cases v with
  | stream es ms seq => cases w with
    | stream es' ms' seq' =>
      obtain rfl : es = es' := h
      obtain ⟨last, hlast⟩ : ∃ last, es.getLast? = some last :=
        ⟨_, List.getLast?_eq_some_getLast hrep.1⟩
      obtain ⟨rfl, rfl⟩ := Prod.mk.inj ((hv last hlast).symm.trans (hw last hlast))
      rfl
    | string _ => cases h
    | list _ => cases h
    | set _ => cases h
    | hash _ => cases h
    | zset _ _ => cases h
    | nestedHash _ => cases h
  | string _ =>
    cases h
    rfl
  | list _ =>
    cases h
    rfl
  | set _ =>
    cases h
    rfl
  | hash _ =>
    cases h
    rfl
  | zset _ _ =>
    cases h
    rfl
  | nestedHash _ =>
    cases h
    rfl

theorem Same.unwrap_stream (h : v.Same w) : Kind.stream.unwrap v = Kind.stream.unwrap w := by
  cases h <;> rfl

end StorageValue

theorem rel_cases {α : Type} {R : α → α → Prop} {a b : Option α} (h : Option.Rel R a b) :
    a = none ∧ b = none ∨ ∃ x y, a = some x ∧ b = some y ∧ R x y := by
  cases h with
  | none => exact Or.inl ⟨rfl, rfl⟩
  | some h => exact Or.inr ⟨_, _, rfl, rfl, h⟩

/-- The entries are alike, and where they are streams they are the same stream. -/
def Entry.AlikeStream (e e' : Entry) : Prop :=
  e.Alike e' ∧ Kind.stream.unwrap e.value = Kind.stream.unwrap e'.value

/-- Entries that are alike are live at the same times. -/
theorem alikeStream_liveEntry {dbs dbs' : Databases} {i : ℕ} {k : Bytes}
    (h : Option.Rel Entry.AlikeStream (dbs.find i k) (dbs'.find i k)) (t : UInt64) :
    Option.Rel Entry.AlikeStream (dbs.liveEntry t i k) (dbs'.liveEntry t i k) := by
  rw [Databases.liveEntry, Databases.liveEntry]
  rcases rel_cases h with ⟨h₁, h₂⟩ | ⟨e, e', h₁, h₂, halike⟩
  · rw [h₁, h₂]
    exact Option.Rel.none
  · have hexp : e.expired t = e'.expired t := by
      rw [Entry.expired, Entry.expired, halike.1.expireAt]
    rw [h₁, h₂, Option.filter_some, Option.filter_some, hexp]
    cases e'.expired t with
    | true => exact Option.Rel.none
    | false => exact Option.Rel.some halike

theorem alikeStream_streamAt {dbs dbs' : Databases} {i : ℕ} {k : Bytes}
    (h : Option.Rel Entry.AlikeStream (dbs.find i k) (dbs'.find i k)) :
    streamAt dbs i k = streamAt dbs' i k := by
  rw [streamAt, streamAt]
  rcases rel_cases h with ⟨h₁, h₂⟩ | ⟨e, e', h₁, h₂, halike⟩
  · rw [h₁, h₂]
  · rw [h₁, h₂]
    exact halike.2

/-- **What both forms keep** is alike at every key. -/
theorem KeptByBoth.alikeStream (hkept : KeptByBoth H now dbs) (hsortable : SortableLive now dbs)
    (h : Storable H now dbs) (clock : ℕ → Moment) (i : ℕ) (k : Bytes) :
    Option.Rel Entry.AlikeStream ((reloaded now dbs).find i k)
      ((replayed H clock now dbs).find i k) := by
  obtain ⟨-, hsome, hnone⟩ := reloaded_spec h
  obtain ⟨-, hsome', hnone'⟩ := replayed_spec h clock
  cases he : dbs.liveEntry now i k with
  | none =>
    rw [hnone i k he, hnone' i k he]
    exact Option.Rel.none
  | some e =>
    obtain ⟨d, hd, hp⟩ := Databases.liveEntry_eq_some.mp he
    obtain ⟨hrep, hlast⟩ := hkept d (List.mem_of_getElem? hd) (k, e) hp
    obtain ⟨e₁, hfind₁, hvalue, hexpire⟩ := hsome i k e he
    have hsame : e.value.Same e₁.value := hvalue ▸ e.value.same_rebuilt
    have hreplayed := hsome' i k e he
    obtain ⟨e₂, hfind₂, hcontents, hindex⟩ := hreplayed.repeats hrep
    rw [hfind₁, hfind₂]
    refine Option.Rel.some ⟨⟨hsame.sameContents hcontents, ?_,
      hexpire.trans (hreplayed.expireAt e₂ hfind₂).symm⟩, ?_⟩
    · rw [hvalue]
      exact hindex (hsortable d (List.mem_of_getElem? hd) (k, e) hp)
    · rw [← hsame.unwrap_stream]
      exact StorageValue.unwrap_stream hcontents hlast (hreplayed.lastId e₂ hfind₂) hrep

/-- What both forms restore is the same. -/
theorem KeptByBoth.sameDataset (hkept : KeptByBoth H now dbs) (hsortable : SortableLive now dbs)
    (h : Storable H now dbs) :
    SameDataset (reloaded now dbs) (replayed H clock now dbs) := by
  have hfind := hkept.alikeStream hsortable h clock
  constructor
  · intro t i k
    rcases rel_cases (alikeStream_liveEntry (hfind i k) t) with ⟨h₁, h₂⟩ | ⟨e, e', h₁, h₂, halike⟩
    · rw [h₁, h₂]
      exact Option.Rel.none
    · rw [h₁, h₂]
      exact Option.Rel.some halike.1
  · intro t i k id fields
    have hlen : (reloaded now dbs).length = dbs.length := (reloaded_spec h).1
    have hlen' : (replayed H clock now dbs).length = dbs.length := (replayed_spec h clock).1
    rw [xadd_ok_iff, xadd_ok_iff, alikeStream_streamAt (hfind i k), hlen, hlen']
    refine and_congr_right fun hi => ?_
    rw [streamLastId?_eq (hlen ▸ hi), streamLastId?_eq (hlen' ▸ hi)]
    rcases rel_cases (alikeStream_liveEntry (hfind i k) t) with ⟨h₁, h₂⟩ | ⟨e, e', h₁, h₂, halike⟩
    · rw [h₁, h₂]
    · rw [h₁, h₂, Option.bind_some, Option.bind_some, halike.2]

/-- Streams of which the same explicit ids are taken have the same last id. -/
theorem SameDataset.lastId_eq {dbs dbs' : Databases} (h : SameDataset dbs dbs') {e e' : Entry}
    (he : dbs.liveEntry now i k = some e) (he' : dbs'.liveEntry now i k = some e')
    {es es' : List StreamEntry} {ms seq ms' seq' : UInt64} (hv : e.value = .stream es ms seq)
    (hv' : e'.value = .stream es' ms' seq') : ((ms, seq) : StreamId) = (ms', seq') := by
  have hiff : ∀ id : StreamId, idRank (0, 0) < idRank id →
      (idRank (ms, seq) < idRank id ↔ idRank (ms', seq') < idRank id) := by
    intro id hid
    rw [← xadd_ok_iff_of_live he hv hid [], ← xadd_ok_iff_of_live he' hv' hid []]
    exact h.ids now i k id []
  rcases lt_trichotomy (idRank (ms, seq)) (idRank (ms', seq')) with hlt | heq | hgt
  · exact absurd ((hiff (ms', seq') ((Nat.zero_le _).trans_lt hlt)).mp hlt) (lt_irrefl _)
  · exact idRank_injective heq
  · exact absurd ((hiff (ms, seq) ((Nat.zero_le _).trans_lt hgt)).mpr hgt) (lt_irrefl _)

/-- What differs in the log shows. -/
theorem SameDataset.keptByBoth (hsame : SameDataset (reloaded now dbs) (replayed H clock now dbs))
    (h : Storable H now dbs) : KeptByBoth H now dbs := by
  obtain ⟨-, hsome, -⟩ := reloaded_spec h
  obtain ⟨-, hsome', -⟩ := replayed_spec h clock
  rintro d hd ⟨k, e⟩ hp
  obtain ⟨i, hi⟩ := List.getElem?_of_mem hd
  have he := Databases.liveEntry_eq_some.mpr ⟨d, hi, hp⟩
  obtain ⟨e₁, hfind₁, hrebuilt, hexpire⟩ := hsome i k e he
  have hsame₁ : e.value.Same e₁.value := hrebuilt ▸ e.value.same_rebuilt
  have hreplayed := hsome' i k e he
  have hlive₁ : (reloaded now dbs).liveEntry now i k = some e₁ := by
    have hexp : e₁.expired now = e.expired now := by
      rw [Entry.expired, Entry.expired, hexpire]
    have hnot := (Option.filter_eq_some_iff.mp he).2
    rw [Databases.liveEntry, hfind₁, Option.filter_some, hexp, if_pos hnot]
  rcases rel_cases (hsame.live now i k) with ⟨hnone, -⟩ | ⟨e₁', e₂, h₁, hlive₂, halike⟩
  · rw [hlive₁] at hnone
    cases hnone
  obtain rfl := Option.some.inj (hlive₁.symm.trans h₁)
  have hfind₂ := (Option.filter_eq_some_iff.mp hlive₂).1
  have hcontents := hsame₁.symm.sameContents halike.contents
  refine ⟨hreplayed.repeatable e₂ hfind₂ hcontents, ?_⟩
  show e.value.LastIdKept
  have hlastId := hreplayed.lastId e₂ hfind₂
  cases hv : e.value with
  | stream es ms seq =>
    have hvalue := hsame₁
    rw [hv] at hvalue hcontents
    cases hv₂ : e₂.value with
    | stream es' ms' seq' =>
      rw [hv₂] at hcontents hlastId
      obtain rfl : es = es' := hcontents
      have hv₁ : e₁.value = .stream es ms seq := by
        cases hv₁ : e₁.value with
        | stream _ _ _ =>
          rw [hv₁] at hvalue
          cases hvalue
          rfl
        | _ =>
          rw [hv₁] at hvalue
          cases hvalue
      rw [StorageValue.LastIdKept, hsame.lastId_eq hlive₁ hlive₂ hv₁ hv₂]
      exact hlastId
    | _ =>
      rw [hv₂] at hcontents
      cases hcontents
  | string _ => trivial
  | list _ => trivial
  | set _ => trivial
  | hash _ => trivial
  | zset _ _ => trivial
  | nestedHash _ => trivial

/-- **Both forms restore the same dataset exactly when no container is empty and the last id of
every stream is that of its last entry**, as long as the scores can be sorted. The ids of a stream
have to ascend from above `0-0`, each with a field, and the scores have to be printed so that they
are read back. Where a NaN makes the comparison of the scores no order, this is still necessary. -/
theorem forms_agree_iff (h : Storable H now dbs) (clock : ℕ → Moment) :
    (SortableLive now dbs →
      (SameDataset (reloaded now dbs) (replayed H clock now dbs) ↔ KeptByBoth H now dbs)) ∧
    (SameDataset (reloaded now dbs) (replayed H clock now dbs) → KeptByBoth H now dbs) :=
  ⟨fun hsortable => ⟨fun hsame => hsame.keptByBoth h, fun hkept => hkept.sameDataset hsortable h⟩,
    fun hsame => hsame.keptByBoth h⟩

instance (H : Host) : DecidablePred (StorageValue.Repeatable H)
  | .string _ => inferInstanceAs (Decidable True)
  | .list _ | .set _ | .hash _ => inferInstanceAs (Decidable (_ ≠ _))
  | .zset _ _ | .stream _ _ _ | .nestedHash _ => inferInstanceAs (Decidable (_ ∧ _))

instance : DecidablePred StorageValue.Sortable
  | .zset _ _ => inferInstanceAs (Decidable (_ ∨ _))
  | .string _ | .list _ | .set _ | .hash _ | .stream _ _ _ | .nestedHash _ =>
    inferInstanceAs (Decidable True)

instance : DecidablePred StorageValue.LastIdKept
  | .stream es ms seq => inferInstanceAs (Decidable (∀ last ∈ es.getLast?, last.id = (ms, seq)))
  | .string _ | .list _ | .set _ | .hash _ | .zset _ _ | .nestedHash _ =>
    inferInstanceAs (Decidable True)

/-- A store with one database after these commands. -/
def afterCommands (cmds : List (List String)) : Databases :=
  (runCommands Host.plain (fun _ => ⟨7, 0, 0, 1⟩) 0 (cmds.map (List.map asBytes))
    { store := Store.new 1, ctx := {} }).2.store.databases

/-- A list, a stream and a sorted set whose members do not come by score. -/
def pushedDataset : Databases :=
  afterCommands [["RPUSH", "l", "a"], ["XADD", "s", "5-0", "f", "v"],
    ["ZADD", "z", "2", "b", "1", "a", "2", "c"]]

theorem forms_agree_iff_pushed :
    SameDataset (reloaded 7 pushedDataset)
      (replayed Host.plain (fun _ => ⟨9, 0, 0, 1⟩) 7 pushedDataset) := by
  have hstorable : Storable Host.plain 7 pushedDataset :=
    ⟨by decide +kernel, by decide +kernel, by unfold FitsLive; decide +kernel, by decide +kernel⟩
  have hsortable : SortableLive 7 pushedDataset := by
    unfold SortableLive
    decide +kernel
  refine ((forms_agree_iff hstorable _).1 hsortable).mpr ?_
  unfold KeptByBoth
  decide +kernel

/-- **The two forms differ** after a list has been emptied by a pop, and after the newest entry of a
stream has been deleted. -/
theorem forms_differ :
    ¬SameDataset (reloaded 7 (afterCommands [["RPUSH", "l", "a"], ["LPOP", "l"]]))
      (replayed Host.plain (fun _ => ⟨9, 0, 0, 1⟩) 7
        (afterCommands [["RPUSH", "l", "a"], ["LPOP", "l"]])) ∧
    ¬SameDataset
      (reloaded 7 (afterCommands [["XADD", "s", "5-0", "f", "v"], ["XADD", "s", "6-0", "f", "v"],
        ["XDEL", "s", "6-0"]]))
      (replayed Host.plain (fun _ => ⟨9, 0, 0, 1⟩) 7
        (afterCommands [["XADD", "s", "5-0", "f", "v"], ["XADD", "s", "6-0", "f", "v"],
          ["XDEL", "s", "6-0"]])) := by
  constructor
  · intro h
    have hkept := h.keptByBoth
      ⟨by decide +kernel, by decide +kernel, by unfold FitsLive; decide +kernel, by decide +kernel⟩
    unfold KeptByBoth at hkept
    exact absurd hkept (by decide +kernel)
  · intro h
    have hkept := h.keptByBoth
      ⟨by decide +kernel, by decide +kernel, by unfold FitsLive; decide +kernel, by decide +kernel⟩
    unfold KeptByBoth at hkept
    exact absurd hkept (by decide +kernel)

end VeloDB
