import VeloDB.Cmd.Pending

/-!
# Reading several streams for a group

`XREADGROUP` goes from stream to stream and lets the consumer join the group of each, moves its
cursor and records what has been delivered, before it looks at the next one. When one of the streams
cannot be read, the command replies with an error, and what it has done so far stays. A stream in
front of that one goes unharmed only if there was nothing to do.

## Main results

* `readStreams_of_quiet`, `readStreams_moved` — the groups after the streams in front
* `xreadgroup_allOrNothing_iff` — when an error leaves all groups as they were
-/

namespace VeloDB

open Rust Proc

/-! ### What is asked for -/

/-- What an `XREADGROUP` asks for. -/
structure GroupRead where
  group : String
  consumer : String
  count : Option ℕ
  noack : Bool
  /-- The streams, each with the id behind which it is read. -/
  streams : List (Bytes × Bytes)

namespace Cmd

variable (env : Env)

/-- What the arguments of an `XREADGROUP` ask for; `none` when they do not parse. -/
def groupRead : List Bytes → Option GroupRead
  | keyword :: group :: consumer :: rest =>
    if rest.length < 3 ∨ upper env keyword ≠ "GROUP" then none
    else match xreadgroupOptions env rest (none, false) with
      | .ok (o, streams) =>
        let half := streams.length / 2
        if half = 0 then none
        else some {
          group := fromUtf8Lossy group, consumer := fromUtf8Lossy consumer
          count := o.1, noack := o.2, streams := (streams.take half).zip (streams.drop half) }
      | .error _ => none
  | _ => none

theorem xreadgroupOptions_error (args : List Bytes) (o : Option ℕ × Bool) {f : Failure}
    (h : xreadgroupOptions env args o = .error f) : f = .error .syntaxError := by
  fun_induction xreadgroupOptions env args o with
  | case1 => cases h
  | case2 => cases h
  | case3 => cases h
  | case4 => exact (Except.error.inj h).symm
  | case5 _ _ _ _ _ ih => exact ih h
  | case6 _ _ _ _ _ _ ih => exact ih h
  | case7 _ _ _ _ _ _ _ ih => exact ih h
  | case8 => cases h
  | case9 => exact (Except.error.inj h).symm

variable (args : List Bytes) (dbs : Databases) (s : Side)

/-- **What does not parse does nothing**, and what does goes through the streams. -/
theorem xreadgroup_cases :
    groupRead env args = none ∧
      xreadgroup env dbs args s = (.error (.error .syntaxError), s) ∨
    ∃ r, groupRead env args = some r ∧ xreadgroup env dbs args s
      = (xreadgroupStreams env dbs s.ctx.dbIndex r.group r.consumer (r.count, r.noack) r.streams
          >>= fun replies =>
            pure (if replies.isEmpty then .nil else .array (some replies))) s := by
  by_cases hshort : args.length < 3
  · have hnone : groupRead env args = none := by
      match args, hshort with
      | [], _ | [_], _ | [_, _], _ => rfl
    have hargs : args.length < 6 ∨ args[0]?.map (upper env) ≠ some "GROUP" := Or.inl (by omega)
    refine Or.inl ⟨hnone, ?_⟩
    rw [xreadgroup, Proc.get_bind]
    dsimp only
    rw [if_pos hargs]
    rfl
  obtain ⟨keyword, group, consumer, rest, rfl⟩ :
      ∃ keyword group consumer rest, args = keyword :: group :: consumer :: rest := by
    match args, hshort with
    | keyword :: group :: consumer :: rest, _ => exact ⟨keyword, group, consumer, rest, rfl⟩
    | [], h | [_], h | [_, _], h => exact absurd (by simp) h
  have hiff : ((keyword :: group :: consumer :: rest).length < 6 ∨
      (keyword :: group :: consumer :: rest)[0]?.map (upper env) ≠ some "GROUP") ↔
        (rest.length < 3 ∨ upper env keyword ≠ "GROUP") := by
    refine or_congr ?_ (by simp)
    simp only [List.length_cons]
    omega
  rw [xreadgroup, Proc.get_bind, groupRead]
  dsimp only
  by_cases hargs : rest.length < 3 ∨ upper env keyword ≠ "GROUP"
  · rw [if_pos (hiff.mpr hargs), if_pos hargs]
    exact Or.inl ⟨rfl, rfl⟩
  rw [if_neg (mt hiff.mp hargs), if_neg hargs]
  show _ ∧ (lift (xreadgroupOptions env rest (none, false)) >>= _) s = _ ∨
    ∃ r, _ ∧ (lift (xreadgroupOptions env rest (none, false)) >>= _) s = _
  cases hopts : xreadgroupOptions env rest (none, false) with
  | error f =>
    rw [xreadgroupOptions_error env rest _ hopts]
    exact Or.inl ⟨rfl, rfl⟩
  | ok p =>
    rw [lift_ok_bind]
    dsimp only
    by_cases hhalf : p.2.length / 2 = 0
    · rw [if_pos hhalf, if_pos hhalf]
      exact Or.inl ⟨rfl, rfl⟩
    · rw [if_neg hhalf, if_neg hhalf]
      exact Or.inr ⟨_, rfl, rfl⟩

end Cmd

/-! ### One stream -/

section Reads

open Tables

variable (r : GroupRead) (now : UInt64) (dbs : Databases) (i : ℕ)

namespace GroupRead

/-- Read one of the streams. -/
def read (p : Bytes × Bytes) : TableM (List StreamEntry) :=
  Tables.xreadgroup now dbs i p.1 r.group r.consumer
    (if p.2 = asBytes ">" then .new else .history (Cmd.parseId p.2)) r.count r.noack

/-- What is at the key, if anything, is a stream. -/
def Fits (k : Bytes) : Prop :=
  i < dbs.length ∧ ∀ e, dbs.liveEntry now i k = some e → e.value.typeName = "stream"

/-- The key fits, and there is such a group. -/
def CanRead (t : Tables) (k : Bytes) : Prop := Fits now dbs i k ∧ (t.group? i k r.group).isSome

/-- The group after the read. -/
def leave (all : List StreamEntry) (id : Bytes) (g : ConsumerGroup) : ConsumerGroup :=
  if id = asBytes ">" then deliver now r.consumer r.noack (newPage g r.count all) g
  else withConsumer g r.consumer

end GroupRead

variable {now dbs i} {k : Bytes}

theorem getType_eq (hi : i < dbs.length) (now : UInt64) (k : Bytes) : ofResult (dbs.getType now i k)
    = .ok ((dbs.liveEntry now i k).map fun e => e.value.typeName) := by
  rw [Databases.getType, Databases.entry_eq hi]
  rfl

/-- The type check, of a key that fits. -/
theorem check_of_fits (h : GroupRead.Fits now dbs i k) :
    ∃ type all, ofResult (dbs.getType now i k) = .ok type ∧
      ¬(type ≠ some "stream" ∧ type.isSome) ∧ dbs.streamEntries now i k = .ok all := by
  obtain ⟨hi, hstream⟩ := h
  have htype := getType_eq hi now k
  rcases streamType_cases now dbs i k with ⟨e, herror⟩ | ⟨type, hok, hwrong | ⟨hright, all, hall⟩⟩
  · rw [htype] at herror
    cases herror
  · rw [htype] at hok
    obtain rfl := Except.ok.inj hok
    obtain ⟨hne, hsome⟩ := hwrong
    rw [Option.isSome_map] at hsome
    obtain ⟨e, he⟩ := Option.isSome_iff_exists.mp hsome
    rw [he, Option.map_some, hstream e he] at hne
    exact absurd rfl hne
  · exact ⟨type, all, hok, hright, hall⟩

/-- The type check, of a key that does not. -/
theorem check_of_not_fits (h : ¬GroupRead.Fits now dbs i k) :
    (∃ e, ofResult (dbs.getType now i k) = .error (.error e)) ∨
      ∃ type, ofResult (dbs.getType now i k) = .ok type ∧ type ≠ some "stream" ∧ type.isSome := by
  rcases streamType_cases now dbs i k with herror | ⟨type, hok, hwrong | ⟨hright, all, hall⟩⟩
  · exact Or.inl herror
  · exact Or.inr ⟨type, hok, hwrong⟩
  · refine absurd ?_ h
    have hi : i < dbs.length := by
      by_contra hi
      rw [Databases.streamEntries, Databases.readAs, Databases.entry, Databases.db,
        List.getElem?_eq_none (Nat.le_of_not_lt hi)] at hall
      cases hall
    refine ⟨hi, fun e he => ?_⟩
    rw [getType_eq hi now k, he] at hok
    obtain rfl := Except.ok.inj hok
    by_contra hne
    exact hright ⟨fun heq => hne (Option.some.inj heq), rfl⟩

variable {r} {t : Tables} {p : Bytes × Bytes}

/-- **A stream that cannot be read** changes nothing. -/
theorem read_of_not (h : ¬r.CanRead now dbs i t p.1) :
    ∃ e, r.read now dbs i p t = (.error (.error e), t) := by
  rw [GroupRead.read]
  generalize (if p.2 = asBytes ">" then ReadGroupStart.new
    else .history (Cmd.parseId p.2)) = start
  by_cases hfits : GroupRead.Fits now dbs i p.1
  · obtain ⟨type, all, htype, hright, -⟩ := check_of_fits hfits
    have hg : t.group? i p.1 r.group = none := by
      cases hg : t.group? i p.1 r.group with
      | none => rfl
      | some g => exact absurd ⟨hfits, by rw [hg]; rfl⟩ h
    refine ⟨noGroup, ?_⟩
    rw [xreadgroup, htype]
    show Proc.andThen _ _ _ = _
    rw [Proc.andThen, Proc.ofExcept_run]
    dsimp only
    rw [if_neg hright]
    exact Proc.bind_error (updateGroup_of_none hg _ _)
  · rcases check_of_not_fits hfits with ⟨e, herror⟩ | ⟨type, htype, hwrong⟩
    · refine ⟨e, ?_⟩
      rw [xreadgroup, herror]
      rfl
    · refine ⟨.wrongType, ?_⟩
      rw [xreadgroup, htype]
      show Proc.andThen _ _ _ = _
      rw [Proc.andThen, Proc.ofExcept_run]
      dsimp only
      rw [if_pos hwrong]
      rfl

/-- **A stream that can be read.** -/
theorem read_of_can (h : r.CanRead now dbs i t p.1) :
    ∃ g all page, t.group? i p.1 r.group = some g ∧ dbs.streamEntries now i p.1 = .ok all ∧
      r.read now dbs i p t = (.ok page, t.setGroup i p.1 r.group (r.leave now all p.2 g)) := by
  obtain ⟨hfits, hsome⟩ := h
  obtain ⟨type, all, htype, hright, hall⟩ := check_of_fits hfits
  obtain ⟨g, hg⟩ := Option.isSome_iff_exists.mp hsome
  have hjoin : joinGroup i p.1 r.group r.consumer t = (.ok (withConsumer g r.consumer),
      t.setGroup i p.1 r.group (withConsumer g r.consumer)) := updateGroup_of_some hg _ _
  by_cases hid : p.2 = asBytes ">"
  · refine ⟨g, all, newPage g r.count all, hg, hall, ?_⟩
    rw [GroupRead.read, GroupRead.leave, if_pos hid, if_pos hid, xreadgroup_new_eq now dbs i p.1
      r.group r.consumer r.count r.noack t htype hright, Proc.bind_ok hjoin]
    have hpage : dbs.streamEntriesAfter now i p.1 (cursor (withConsumer g r.consumer)) r.count
        = .ok (newPage g r.count all) := by
      rw [Databases.streamEntriesAfter, hall]
      rfl
    rw [hpage]
    exact finishRead_of_some now i p.1 r.group r.consumer r.noack t (newPage g r.count all) g
  · let ids := Databases.limitTo r.count (((withConsumer g r.consumer).pending.filter fun q =>
      q.2.consumer = r.consumer ∧ idAfter q.1 (Cmd.parseId p.2)).map Prod.fst)
    refine ⟨g, all, all.filter fun e => e.id ∈ ids, hg, hall, ?_⟩
    rw [GroupRead.read, GroupRead.leave, if_neg hid, if_neg hid, xreadgroup, htype]
    show Proc.andThen _ _ _ = _
    rw [Proc.andThen, Proc.ofExcept_run]
    dsimp only
    rw [if_neg hright]
    refine (Proc.bind_ok hjoin).trans ?_
    rw [hall]
    rfl

end Reads

/-! ### Groups before and after -/

/-- The same cursor, the same pending entries, and the same consumers. -/
structure SameGroup (g g' : ConsumerGroup) : Prop where
  cursor : Tables.cursor g' = Tables.cursor g
  pending : g'.pending = g.pending
  consumers : ∀ c, g'.consumers.lookup c = g.consumers.lookup c

/-- The cursor has not gone back, and no consumer has left. -/
structure Ahead (g g' : ConsumerGroup) : Prop where
  cursor : idRank (Tables.cursor g) ≤ idRank (Tables.cursor g')
  consumers : ∀ c, (g.consumers.lookup c).isSome → (g'.consumers.lookup c).isSome

/-- The cursor has moved, or a consumer has joined. -/
def Moved (g g' : ConsumerGroup) : Prop :=
  idRank (Tables.cursor g) < idRank (Tables.cursor g') ∨
    ∃ c, g.consumers.lookup c = none ∧ (g'.consumers.lookup c).isSome

/-- A relation between groups, at every name. -/
def AtGroups (R : ConsumerGroup → ConsumerGroup → Prop) (t t' : Tables) : Prop :=
  ∀ i k group, Option.Rel R (t.group? i k group) (t'.group? i k group)

/-- A group is not as it was. -/
def SomeMoved (t t' : Tables) : Prop :=
  ∃ i k group g g', t.group? i k group = some g ∧ t'.group? i k group = some g' ∧ Moved g g'

namespace AtGroups

variable {R : ConsumerGroup → ConsumerGroup → Prop} {t t' t'' : Tables} {i : ℕ} {k : Bytes}
  {group : String} {g g' : ConsumerGroup}

theorem refl (hR : ∀ g, R g g) (t : Tables) : AtGroups R t t := by
  intro i k group
  cases t.group? i k group with
  | none => exact .none
  | some g => exact .some (hR g)

theorem trans (hR : ∀ {a b c}, R a b → R b c → R a c) (h : AtGroups R t t')
    (h' : AtGroups R t' t'') : AtGroups R t t'' := by
  intro i k group
  have h := h i k group
  have h' := h' i k group
  generalize t.group? i k group = a at h
  generalize t'.group? i k group = b at h h'
  generalize t''.group? i k group = c at h'
  cases h with
  | none =>
    cases h'
    exact .none
  | some h =>
    cases h' with
    | some h' => exact .some (hR h h')

theorem lookup (h : AtGroups R t t') (hg : t.group? i k group = some g) :
    ∃ g', t'.group? i k group = some g' ∧ R g g' := by
  have h := h i k group
  rw [hg] at h
  generalize t'.group? i k group = b at h
  cases h with
  | some h => exact ⟨_, rfl, h⟩

theorem isSome (h : AtGroups R t t') (i : ℕ) (k : Bytes) (group : String) :
    (t'.group? i k group).isSome = (t.group? i k group).isSome := by
  have h := h i k group
  generalize t.group? i k group = a at h
  generalize t'.group? i k group = b at h
  cases h <;> rfl

/-- One group is set. -/
theorem setGroup (hR : ∀ g, R g g) (hg : t.group? i k group = some g) (h : R g g') :
    AtGroups R t (t.setGroup i k group g') := by
  intro j k' group'
  by_cases hkey : (j, k', group') = (i, k, group)
  · obtain ⟨rfl, rfl, rfl⟩ := by simpa only [Prod.mk.injEq] using hkey
    rw [Tables.group?_setGroup_self, hg]
    exact .some h
  · rw [Tables.group?_setGroup_of_ne hkey]
    exact AtGroups.refl hR t j k' group'

end AtGroups

theorem SameGroup.refl (g : ConsumerGroup) : SameGroup g g := ⟨rfl, rfl, fun _ => rfl⟩

theorem SameGroup.trans {a b c : ConsumerGroup} (h : SameGroup a b) (h' : SameGroup b c) :
    SameGroup a c :=
  ⟨h'.cursor.trans h.cursor, h'.pending.trans h.pending,
    fun x => (h'.consumers x).trans (h.consumers x)⟩

theorem Ahead.refl (g : ConsumerGroup) : Ahead g g := ⟨le_rfl, fun _ => id⟩

theorem Ahead.trans {a b c : ConsumerGroup} (h : Ahead a b) (h' : Ahead b c) : Ahead a c :=
  ⟨h.cursor.trans h'.cursor, fun x => h'.consumers x ∘ h.consumers x⟩

/-- What has moved stays moved. -/
theorem Moved.ahead {a b c : ConsumerGroup} (h : Moved a b) (h' : Ahead b c) : Moved a c := by
  rcases h with h | ⟨x, hnone, hsome⟩
  · exact Or.inl (h.trans_le h'.cursor)
  · exact Or.inr ⟨x, hnone, h'.consumers x hsome⟩

/-- What moves from where it is has moved from where it was the same. -/
theorem SameGroup.moved {a b c : ConsumerGroup} (h : SameGroup a b) (h' : Moved b c) :
    Moved a c := by
  rw [Moved, h.cursor] at h'
  exact h'.imp_right fun ⟨x, hnone, hsome⟩ => ⟨x, (h.consumers x).symm.trans hnone, hsome⟩

theorem Moved.not_same {a b : ConsumerGroup} (h : Moved a b) : ¬SameGroup a b := by
  intro hsame
  rcases h with h | ⟨x, hnone, hsome⟩
  · rw [hsame.cursor] at h
    exact lt_irrefl _ h
  · rw [hsame.consumers, hnone] at hsome
    cases hsome

theorem SomeMoved.not_same {t t' : Tables} (h : SomeMoved t t') : ¬AtGroups SameGroup t t' := by
  obtain ⟨i, k, group, g, g', hg, hg', hmoved⟩ := h
  intro hsame
  obtain ⟨g'', hg'', h⟩ := hsame.lookup hg
  obtain rfl := Option.some.inj (hg'.symm.trans hg'')
  exact hmoved.not_same h

theorem SomeMoved.ahead {t t' t'' : Tables} (h : SomeMoved t t') (h' : AtGroups Ahead t' t'') :
    SomeMoved t t'' := by
  obtain ⟨i, k, group, g, g', hg, hg', hmoved⟩ := h
  obtain ⟨g'', hg'', hahead⟩ := h'.lookup hg'
  exact ⟨i, k, group, g, g'', hg, hg'', hmoved.ahead hahead⟩

theorem SomeMoved.of_same {t t' t'' : Tables} (h : AtGroups SameGroup t t')
    (h' : SomeMoved t' t'') : SomeMoved t t'' := by
  obtain ⟨i, k, group, g', g'', hg', hg'', hmoved⟩ := h'
  have hsome : (t.group? i k group).isSome := by
    rw [← h.isSome, hg']
    rfl
  obtain ⟨g, hg⟩ := Option.isSome_iff_exists.mp hsome
  obtain ⟨b, hb, hsame⟩ := h.lookup hg
  obtain rfl := Option.some.inj (hg'.symm.trans hb)
  exact ⟨i, k, group, g, g'', hg, hg'', hsame.moved hmoved⟩

/-! ### The streams in front -/

namespace GroupRead

variable (r : GroupRead) (now : UInt64) (dbs : Databases) (i : ℕ)

/-- There is nothing to do at a stream: the consumer is in the group, and if new entries are asked
for, there are none, or their number is to be 0. -/
def Quiet (t : Tables) (p : Bytes × Bytes) : Prop :=
  ∀ g all, t.group? i p.1 r.group = some g → dbs.streamEntries now i p.1 = .ok all →
    (g.consumers.lookup r.consumer).isSome ∧
      (p.2 = asBytes ">" → r.count = some 0 ∨
        ∀ e ∈ all, idRank e.id ≤ idRank (Tables.cursor g))

/-- The tables after the streams have been read. -/
def readAll (t : Tables) (ps : List (Bytes × Bytes)) : Tables :=
  ps.foldl (fun t p => (r.read now dbs i p t).2) t

end GroupRead

section Front

open Tables

variable {r : GroupRead} {now : UInt64} {dbs : Databases} {i : ℕ} {t t' : Tables}
  {p : Bytes × Bytes} {g : ConsumerGroup} {all : List StreamEntry}

theorem newPage_eq_nil_iff : newPage g r.count all = [] ↔
    r.count = some 0 ∨ ∀ e ∈ all, idRank e.id ≤ idRank (cursor g) := by
  have hfilter : (all.filter fun e => idAfter e.id (cursor g)) = [] ↔
      ∀ e ∈ all, idRank e.id ≤ idRank (cursor g) := by
    rw [List.filter_eq_nil_iff]
    exact forall₂_congr fun e _ => by rw [idAfter_iff, not_lt]
  rw [newPage]
  cases r.count with
  | none => exact hfilter.trans ⟨Or.inr, fun h => h.resolve_left nofun⟩
  | some n =>
    rw [Databases.limitTo, List.take_eq_nil_iff, hfilter, Option.some.injEq]

theorem lookup_insert_of_isSome {m : HashSet String} {c : String} (h : (m.lookup c).isSome)
    (x : String) : (m.insert c ()).lookup x = m.lookup x := by
  by_cases hx : x = c
  · subst hx
    rw [AList.lookup_insert]
    obtain ⟨u, hu⟩ := Option.isSome_iff_exists.mp h
    rw [hu]
  · exact AList.lookup_insert_ne hx

theorem ahead_withConsumer (g : ConsumerGroup) (consumer : String) :
    Ahead g (withConsumer g consumer) :=
  ⟨le_rfl, fun _ h => isSome_lookup_insert h consumer⟩

/-- A page moves the cursor forward. -/
theorem cursor_lt_deliver (hpage : newPage g r.count all ≠ []) :
    idRank (cursor g)
      < idRank (cursor (deliver now r.consumer r.noack (newPage g r.count all) g)) := by
  have hlast := List.getLast?_eq_some_getLast hpage
  have hmem : (newPage g r.count all).getLast hpage
      ∈ all.filter fun e => idAfter e.id (cursor g) :=
    (prefix_limitTo r.count _).subset (List.getLast_mem hpage)
  rw [(deliver_fields now r.consumer r.noack _ g).2, hlast]
  exact (idAfter_iff _ _).mp (List.mem_filter.mp hmem).2

theorem ahead_leave (id : Bytes) : Ahead g (r.leave now all id g) := by
  rw [GroupRead.leave]
  split
  · by_cases hpage : newPage g r.count all = []
    · rw [hpage]
      exact ahead_withConsumer g r.consumer
    · refine ⟨(cursor_lt_deliver hpage).le, fun c h => ?_⟩
      rw [(deliver_fields now r.consumer r.noack _ g).1]
      exact isSome_lookup_insert h r.consumer
  · exact ahead_withConsumer g r.consumer

/-- **Nothing to do.** -/
theorem sameGroup_leave (hconsumer : (g.consumers.lookup r.consumer).isSome) {id : Bytes}
    (hid : id = asBytes ">" → newPage g r.count all = []) : SameGroup g (r.leave now all id g) := by
  have hsame : SameGroup g (withConsumer g r.consumer) :=
    ⟨rfl, rfl, lookup_insert_of_isSome hconsumer⟩
  rw [GroupRead.leave]
  split
  · next h =>
    rw [hid h]
    exact hsame
  · exact hsame

/-- **Something to do.** -/
theorem moved_leave {id : Bytes} (h : ¬((g.consumers.lookup r.consumer).isSome ∧
    (id = asBytes ">" → newPage g r.count all = []))) : Moved g (r.leave now all id g) := by
  by_cases hpage : id = asBytes ">" ∧ newPage g r.count all ≠ []
  · rw [GroupRead.leave, if_pos hpage.1]
    exact Or.inl (cursor_lt_deliver hpage.2)
  · have hid : id = asBytes ">" → newPage g r.count all = [] := fun h =>
      not_not.mp (not_and.mp hpage h)
    have hnone : g.consumers.lookup r.consumer = none :=
      Option.not_isSome_iff_eq_none.mp fun hsome => h ⟨hsome, hid⟩
    refine Or.inr ⟨r.consumer, hnone, ?_⟩
    rw [GroupRead.leave]
    split
    · rw [(deliver_fields now r.consumer r.noack _ g).1, AList.lookup_insert]
      rfl
    · rw [withConsumer, AList.lookup_insert]
      rfl

theorem quiet_iff (hg : t.group? i p.1 r.group = some g)
    (hall : dbs.streamEntries now i p.1 = .ok all) : r.Quiet now dbs i t p ↔
      (g.consumers.lookup r.consumer).isSome ∧
        (p.2 = asBytes ">" → newPage g r.count all = []) := by
  rw [newPage_eq_nil_iff]
  constructor
  · exact fun h => h g all hg hall
  · intro h g' all' hg' hall'
    obtain rfl := Option.some.inj (hg.symm.trans hg')
    obtain rfl := Except.ok.inj (hall.symm.trans hall')
    exact h

theorem GroupRead.CanRead.groups {R : ConsumerGroup → ConsumerGroup → Prop} {k : Bytes}
    (h : r.CanRead now dbs i t k) (hgroups : AtGroups R t t') : r.CanRead now dbs i t' k :=
  ⟨h.1, by rw [hgroups.isSome]; exact h.2⟩

/-- A stream is quiet or not whatever has been done that leaves the groups as they were. -/
theorem quiet_congr (hcan : r.CanRead now dbs i t p.1) (h : AtGroups SameGroup t t') :
    r.Quiet now dbs i t p ↔ r.Quiet now dbs i t' p := by
  obtain ⟨g, all, _, hg, hall, -⟩ := read_of_can hcan
  obtain ⟨g', hg', hsame⟩ := h.lookup hg
  rw [quiet_iff hg hall, quiet_iff hg' hall, hsame.consumers, newPage_eq_nil_iff,
    newPage_eq_nil_iff, hsame.cursor]

theorem ahead_read (h : r.CanRead now dbs i t p.1) :
    AtGroups Ahead t (r.read now dbs i p t).2 := by
  obtain ⟨g, all, page, hg, -, hread⟩ := read_of_can h
  rw [hread]
  exact .setGroup Ahead.refl hg (ahead_leave p.2)

theorem same_read (h : r.CanRead now dbs i t p.1) (hquiet : r.Quiet now dbs i t p) :
    AtGroups SameGroup t (r.read now dbs i p t).2 := by
  obtain ⟨g, all, page, hg, hall, hread⟩ := read_of_can h
  obtain ⟨hconsumer, hid⟩ := (quiet_iff hg hall).mp hquiet
  rw [hread]
  exact .setGroup SameGroup.refl hg (sameGroup_leave hconsumer hid)

theorem moved_read (h : r.CanRead now dbs i t p.1) (hnot : ¬r.Quiet now dbs i t p) :
    SomeMoved t (r.read now dbs i p t).2 := by
  obtain ⟨g, all, page, hg, hall, hread⟩ := read_of_can h
  rw [quiet_iff hg hall] at hnot
  rw [hread]
  exact ⟨i, p.1, r.group, g, _, hg, group?_setGroup_self, moved_leave hnot⟩

variable {ps : List (Bytes × Bytes)}

theorem ahead_readAll (hcan : ∀ p ∈ ps, r.CanRead now dbs i t p.1) :
    AtGroups Ahead t (r.readAll now dbs i t ps) := by
  induction ps generalizing t with
  | nil => exact .refl Ahead.refl t
  | cons p ps ih =>
    have hread := ahead_read (hcan p List.mem_cons_self)
    exact hread.trans Ahead.trans
      (ih fun q hq => (hcan q (List.mem_cons_of_mem _ hq)).groups hread)

/-- **Streams with nothing to do** leave the groups as they were. -/
theorem same_readAll (hcan : ∀ p ∈ ps, r.CanRead now dbs i t p.1)
    (hquiet : ∀ p ∈ ps, r.Quiet now dbs i t p) :
    AtGroups SameGroup t (r.readAll now dbs i t ps) := by
  induction ps generalizing t with
  | nil => exact .refl SameGroup.refl t
  | cons p ps ih =>
    have hread := same_read (hcan p List.mem_cons_self) (hquiet p List.mem_cons_self)
    refine hread.trans SameGroup.trans (ih (fun q hq => ?_) fun q hq => ?_)
    · exact (hcan q (List.mem_cons_of_mem _ hq)).groups hread
    · exact (quiet_congr (hcan q (List.mem_cons_of_mem _ hq)) hread).mp
        (hquiet q (List.mem_cons_of_mem _ hq))

/-- **A stream with something to do** does not. -/
theorem moved_readAll (hcan : ∀ p ∈ ps, r.CanRead now dbs i t p.1)
    (hnot : ¬∀ p ∈ ps, r.Quiet now dbs i t p) : SomeMoved t (r.readAll now dbs i t ps) := by
  induction ps generalizing t with
  | nil => exact absurd (List.forall_mem_nil _) hnot
  | cons p ps ih =>
    have hhead := hcan p List.mem_cons_self
    have hrest : ∀ {t'}, AtGroups Ahead t t' → ∀ q ∈ ps, r.CanRead now dbs i t' q.1 :=
      fun h q hq => (hcan q (List.mem_cons_of_mem _ hq)).groups h
    by_cases hquiet : r.Quiet now dbs i t p
    · have hsame := same_read hhead hquiet
      refine .of_same hsame (ih (hrest (ahead_read hhead)) fun hall => hnot ?_)
      exact List.forall_mem_cons.mpr ⟨hquiet, fun q hq =>
        (quiet_congr (hcan q (List.mem_cons_of_mem _ hq)) hsame).mpr (hall q hq)⟩
    · exact (moved_read hhead hquiet).ahead (ahead_readAll (hrest (ahead_read hhead)))

end Front

/-! ### The command -/

section Command

variable {r : GroupRead} {env : Env} {dbs : Databases} {i : ℕ} {s : Side}
  {ps : List (Bytes × Bytes)}

theorem streams_cons (p : Bytes × Bytes) (ps : List (Bytes × Bytes)) :
    Cmd.xreadgroupStreams env dbs i r.group r.consumer (r.count, r.noack) (p :: ps)
      = (onTables (r.read env.now dbs i p) >>= fun entries =>
          Cmd.xreadgroupStreams env dbs i r.group r.consumer (r.count, r.noack) ps
            >>= fun replies => pure (if entries ≠ [] ∨ p.2 ≠ asBytes ">"
              then .array (some [.bulk p.1, Cmd.serializeEntries entries]) :: replies
              else replies)) := by
  rfl

/-- All streams can be read. -/
theorem streams_of_can (hcan : ∀ p ∈ ps, r.CanRead env.now dbs i s.tables p.1) :
    ∃ replies s', Cmd.xreadgroupStreams env dbs i r.group r.consumer (r.count, r.noack) ps s
      = (.ok replies, s') := by
  induction ps generalizing s with
  | nil => exact ⟨[], s, rfl⟩
  | cons p ps ih =>
    have hhead := hcan p List.mem_cons_self
    obtain ⟨g, all, page, hg, hall, hread⟩ := read_of_can hhead
    have hrun : onTables (r.read env.now dbs i p) s
        = (.ok page, { s with tables := (r.read env.now dbs i p s.tables).2 }) := by
      rw [onTables, hread]
    let s₁ : Side := { s with tables := (r.read env.now dbs i p s.tables).2 }
    obtain ⟨replies, s', hrest⟩ := ih (s := s₁) fun q hq =>
      (hcan q (List.mem_cons_of_mem _ hq)).groups (ahead_read hhead)
    rw [streams_cons, Proc.bind_ok hrun, Proc.bind_ok hrest]
    exact ⟨_, s', rfl⟩

/-- **The first stream that cannot be read** ends the command; what has been done stays. -/
theorem streams_of_not {p : Bytes × Bytes} (post : List (Bytes × Bytes))
    (hcan : ∀ q ∈ ps, r.CanRead env.now dbs i s.tables q.1)
    (hnot : ¬r.CanRead env.now dbs i s.tables p.1) :
    ∃ e, Cmd.xreadgroupStreams env dbs i r.group r.consumer (r.count, r.noack) (ps ++ p :: post) s
      = (.error (.error e), { s with tables := r.readAll env.now dbs i s.tables ps }) := by
  induction ps generalizing s with
  | nil =>
    obtain ⟨e, hread⟩ := read_of_not hnot
    have hrun : onTables (r.read env.now dbs i p) s = (.error (.error e), s) := by
      rw [onTables, hread]
    exact ⟨e, by rw [List.nil_append, streams_cons]; exact Proc.bind_error hrun⟩
  | cons q ps ih =>
    have hhead := hcan q List.mem_cons_self
    have hahead := ahead_read hhead
    obtain ⟨g, all, page, hg, hall, hread⟩ := read_of_can hhead
    have hrun : onTables (r.read env.now dbs i q) s
        = (.ok page, { s with tables := (r.read env.now dbs i q s.tables).2 }) := by
      rw [onTables, hread]
    obtain ⟨e, hrest⟩ := ih (s := { s with tables := (r.read env.now dbs i q s.tables).2 })
      (fun q' hq => (hcan q' (List.mem_cons_of_mem _ hq)).groups hahead) fun hcan' => hnot
        ⟨hcan'.1, by rw [← hahead.isSome]; exact hcan'.2⟩
    refine ⟨e, ?_⟩
    rw [List.cons_append, streams_cons, Proc.bind_ok hrun, Proc.bind_error hrest]
    rfl

/-- A list all of whose elements have a property, or a first one that has not. -/
theorem forall_or_first {α : Type} (P : α → Prop) (l : List α) :
    (∀ a ∈ l, P a) ∨ ∃ pre a post, l = pre ++ a :: post ∧ (∀ b ∈ pre, P b) ∧ ¬P a := by
  induction l with
  | nil => exact Or.inl (List.forall_mem_nil P)
  | cons a l ih =>
    by_cases ha : P a
    · rcases ih with hall | ⟨pre, b, post, rfl, hpre, hb⟩
      · exact Or.inl (List.forall_mem_cons.mpr ⟨ha, hall⟩)
      · exact Or.inr ⟨a :: pre, b, post, rfl, List.forall_mem_cons.mpr ⟨ha, hpre⟩, hb⟩
    · exact Or.inr ⟨[], a, l, rfl, List.forall_mem_nil P, ha⟩

/-- When `XREADGROUP` replies with an error, every group is as it was. -/
def AllOrNothing (env : Env) (args : List Bytes) (w : Whole) : Prop :=
  ∀ reply, (dispatch env "XREADGROUP" args w).1 = .ok reply → reply.isError = true →
    AtGroups SameGroup w.store.tables (dispatch env "XREADGROUP" args w).2.store.tables

/-- There is nothing to do at the streams in front of the first one that cannot be read. -/
def QuietInFront (env : Env) (args : List Bytes) (w : Whole) : Prop :=
  ∀ r, Cmd.groupRead env args = some r → ∀ pre p post, r.streams = pre ++ p :: post →
    (∀ q ∈ pre, r.CanRead env.now w.store.databases w.ctx.dbIndex w.store.tables q.1) →
    ¬r.CanRead env.now w.store.databases w.ctx.dbIndex w.store.tables p.1 →
    ∀ q ∈ pre, r.Quiet env.now w.store.databases w.ctx.dbIndex w.store.tables q

/-- The command has no gate in front of it. -/
theorem dispatch_xreadgroup (env : Env) (args : List Bytes) (w : Whole) :
    dispatch env "XREADGROUP" args w = catchError (Handler.run (dispatchDepth env env.nesting) env
      args (.side Cmd.xreadgroup)) w := by
  have hc : (⟨"XREADGROUP", -7, .side Cmd.xreadgroup⟩ : CommandDef) ∈ commands := by
    simp [commands, Cmd.streamCommands]
  have hmem : w.store.tables.deniesMemory "XREADGROUP" = false :=
    w.store.tables.deniesMemory_of_allowed (by decide)
  exact dispatch_eq hc env hmem rfl

/-- **`XREADGROUP` is all or nothing** exactly where it has nothing to do in front of the first
stream that it cannot read. -/
theorem xreadgroup_allOrNothing_iff (env : Env) (args : List Bytes) (w : Whole) :
    AllOrNothing env args w ↔ QuietInFront env args w := by
  have hdispatch := dispatch_xreadgroup env args w
  rw [catchError, Handler.run] at hdispatch
  dsimp only at hdispatch
  rw [AllOrNothing, QuietInFront]
  rcases Cmd.xreadgroup_cases env args w.store.databases
    ⟨w.store.tables, w.ctx⟩ with ⟨hnone, hrun⟩ | ⟨r, hr, hrun⟩
  · -- the arguments do not parse
    rw [hrun] at hdispatch
    refine iff_of_true (fun reply _ _ => ?_) fun r hr => ?_
    · rw [hdispatch]
      exact .refl SameGroup.refl _
    · rw [hnone] at hr
      cases hr
  dsimp only at hrun
  rcases forall_or_first (fun p : Bytes × Bytes => r.CanRead env.now w.store.databases
    w.ctx.dbIndex w.store.tables p.1) r.streams with hall | ⟨pre, p, post, hstreams, hpre, hp⟩
  · -- every stream can be read, and the reply is no error
    obtain ⟨replies, s', hstreams⟩ := streams_of_can (s := ⟨w.store.tables, w.ctx⟩) hall
    rw [hrun, Proc.bind_ok hstreams] at hdispatch
    refine iff_of_true (fun reply hreply herror => ?_) fun r' hr' pre p post hsplit _ hnot => ?_
    · rw [hdispatch] at hreply
      obtain rfl := Except.ok.inj hreply
      by_cases hempty : replies.isEmpty = true
      · rw [if_pos hempty] at herror
        cases herror
      · rw [if_neg hempty] at herror
        cases herror
    · obtain rfl := Option.some.inj (hr.symm.trans hr')
      exact absurd (hall p (by rw [hsplit]; simp)) hnot
  · -- one of them cannot, and the groups are as the streams in front of it leave them
    have hfails : ∀ {pre p post}, r.streams = pre ++ p :: post →
        (∀ q ∈ pre, r.CanRead env.now w.store.databases w.ctx.dbIndex w.store.tables q.1) →
        ¬r.CanRead env.now w.store.databases w.ctx.dbIndex w.store.tables p.1 →
        (∃ msg, (dispatch env "XREADGROUP" args w).1 = .ok (RespValue.error msg)) ∧
          (dispatch env "XREADGROUP" args w).2.store.tables
            = r.readAll env.now w.store.databases w.ctx.dbIndex w.store.tables pre := by
      intro pre p post hsplit hpre hp
      obtain ⟨e, hfail⟩ := streams_of_not (s := ⟨w.store.tables, w.ctx⟩) post hpre hp
      rw [hrun, hsplit, Proc.bind_error hfail] at hdispatch
      rw [hdispatch]
      exact ⟨⟨_, rfl⟩, rfl⟩
    constructor
    · intro h r' hr' pre p post hsplit hpre hp
      obtain rfl := Option.some.inj (hr.symm.trans hr')
      obtain ⟨⟨msg, hmsg⟩, htables⟩ := hfails hsplit hpre hp
      by_contra hnot
      refine (moved_readAll hpre hnot).not_same ?_
      rw [← htables]
      exact h _ hmsg rfl
    · intro h reply _ _
      rw [(hfails hstreams hpre hp).2]
      exact same_readAll hpre (h r hr pre p post hstreams hpre hp)

/-- Two streams, of which only the first one has a group, and nothing has been delivered yet. -/
def twoStreams : Store :=
  [StreamEvent.plainCommand 7 ["XADD", "k", "5-0", "f", "v"],
    StreamEvent.plainCommand 7 ["XADD", "j", "5-0", "f", "v"],
    StreamEvent.plainCommand 7 ["XGROUP", "CREATE", "k", "g", "0"]].foldl
      (StreamEvent.run Host.plain) (Store.new 1)

/-- Both streams are read, without a record of what is delivered. -/
def readTwo : List Bytes :=
  ["GROUP", "g", "c", "NOACK", "STREAMS", "k", "j", ">", ">"].map asBytes

/-- **An entry is lost**: the cursor of the first group is behind it when the second stream turns
out to have no group. -/
theorem xreadgroup_loses : ¬∀ (env : Env) (args : List Bytes) (w : Whole),
    AllOrNothing env args w := by
  intro hall
  let env := Moment.on ⟨8, 0, 0, 1⟩ Host.plain
  have herror : (dispatch env "XREADGROUP" readTwo ⟨twoStreams, {}⟩).1.toOption.map
      RespValue.isError = some true := by decide +kernel
  have hbefore : (twoStreams.tables.group? 0 (asBytes "k") "g").map Tables.cursor
      = some (0, 0) := by decide +kernel
  have hafter : ((dispatch env "XREADGROUP" readTwo ⟨twoStreams, {}⟩).2.store.tables.group? 0
      (asBytes "k") "g").map Tables.cursor = some (5, 0) := by decide +kernel
  obtain ⟨reply, hreply, herror⟩ : ∃ reply,
      (dispatch env "XREADGROUP" readTwo ⟨twoStreams, {}⟩).1 = .ok reply ∧
        reply.isError = true := by
    generalize (dispatch env "XREADGROUP" readTwo ⟨twoStreams, {}⟩).1 = d at herror
    cases d with
    | error e => cases herror
    | ok reply => exact ⟨reply, rfl, Option.some.inj herror⟩
  have hsame := hall env readTwo ⟨twoStreams, {}⟩ reply hreply herror
  obtain ⟨g, hg, hcursor⟩ := Option.map_eq_some_iff.mp hbefore
  obtain ⟨g', hg', hsame⟩ := hsame.lookup hg
  rw [hg', Option.map_some, hsame.cursor, hcursor] at hafter
  exact absurd (Option.some.inj hafter) (by decide)

end Command

end VeloDB
