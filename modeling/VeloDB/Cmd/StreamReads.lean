import VeloDB.Cmd.Arity
import VeloDB.Cmd.StreamIds

/-!
# The words of `XREAD` and `XTRIM`

`XREAD` takes options, the word `STREAMS`, as many keys as ids. The loop over the options goes on
only while a word has more than five bytes, and `COUNT` and `BLOCK` have five, so with an option it
stops at once, and everything, options and all, is halved into keys and ids.

`XTRIM` takes four words behind its name. The table lets it have three.

## Main results

* `readsRight_iff` — when the reply is what has been asked for
* `dispatch_xtrim` — no `XTRIM` gets through
-/

namespace VeloDB

open Rust

/-! ### Reading requests -/

namespace Databases

variable {now : UInt64} {dbs : Databases} {i : ℕ} {k : Bytes}

/-- Nothing live is at the key, or a stream. -/
def Readable (now : UInt64) (dbs : Databases) (i : ℕ) (k : Bytes) : Prop :=
  ∀ e, dbs.liveEntry now i k = some e → ∃ s, Kind.stream.unwrap e.value = some s

/-- The entries of the stream at a key. -/
def liveEntries (now : UInt64) (dbs : Databases) (i : ℕ) (k : Bytes) : List StreamEntry :=
  (((dbs.liveEntry now i k).bind fun e => Kind.stream.unwrap e.value).map Prod.fst).getD []

/-- What keys with ids ask for: of each stream the entries behind the id, at most `count`; streams
without any are left out. -/
def entriesBehind (now : UInt64) (dbs : Databases) (i : ℕ) (count : Option ℕ)
    (requests : List (Bytes × StreamId)) : List (Bytes × List StreamEntry) :=
  (requests.map fun r => (r.1, limitTo count ((dbs.liveEntries now i r.1).filter fun e =>
    idAfter e.id r.2))).filter fun p => p.2 ≠ []

theorem streamEntries_of_readable (hi : i < dbs.length) (h : dbs.Readable now i k) :
    dbs.streamEntries now i k = .ok (dbs.liveEntries now i k) := by
  rw [streamEntries, liveEntries]
  cases he : dbs.liveEntry now i k with
  | none => exact readAs_none hi he [] Prod.fst
  | some e =>
    obtain ⟨s, hs⟩ := h e he
    rw [readAs_some he hs, Option.bind_some, hs]
    rfl

theorem streamEntries_of_not_readable (h : ¬dbs.Readable now i k) :
    dbs.streamEntries now i k = .error .wrongType := by
  rw [Readable, not_forall] at h
  obtain ⟨e, he⟩ := h
  rw [Classical.not_imp, not_exists] at he
  refine readAs_wrong he.1 ?_ [] Prod.fst
  cases hs : Kind.stream.unwrap e.value with
  | none => rfl
  | some s => exact absurd hs (he.2 s)

theorem entriesBehind_cons {count : Option ℕ} (r : Bytes × StreamId)
    (rs : List (Bytes × StreamId)) : dbs.entriesBehind now i count (r :: rs)
      = if limitTo count ((dbs.liveEntries now i r.1).filter fun e => idAfter e.id r.2) = [] then
          dbs.entriesBehind now i count rs
        else (r.1, limitTo count ((dbs.liveEntries now i r.1).filter fun e =>
          idAfter e.id r.2)) :: dbs.entriesBehind now i count rs := by
  rw [entriesBehind, List.map_cons, List.filter_cons]
  by_cases hnil : limitTo count ((dbs.liveEntries now i r.1).filter fun e => idAfter e.id r.2) = []
  · rw [if_pos hnil, if_neg (by simpa using hnil), entriesBehind]
  · rw [if_neg hnil, if_pos (by simpa using hnil), entriesBehind]

/-- **`Store::xread`** of readable keys. -/
theorem xread_of_readable (hi : i < dbs.length) (count : Option ℕ) {ks : List Bytes}
    (hks : ∀ k ∈ ks, dbs.Readable now i k) {ids : List StreamId} (hlen : ks.length ≤ ids.length) :
    dbs.xread now i count ks ids = .ok (dbs.entriesBehind now i count (ks.zip ids)) := by
  induction ks generalizing ids with
  | nil => rfl
  | cons k ks ih =>
    cases ids with
    | nil => exact absurd hlen (Nat.not_succ_le_zero _)
    | cons id ids =>
      obtain ⟨hk, hks'⟩ := List.forall_mem_cons.mp hks
      have hrest := ih hks' (Nat.le_of_succ_le_succ hlen)
      rw [xread, streamEntriesAfter, streamEntries_of_readable hi hk, List.headD_cons,
        List.tail_cons, hrest]
      exact congrArg Except.ok (entriesBehind_cons (k, id) (ks.zip ids)).symm

theorem xread_of_not_readable (count : Option ℕ) {ks : List Bytes} (hk : k ∈ ks)
    (h : ¬dbs.Readable now i k) (ids : List StreamId) :
    ∃ e, dbs.xread now i count ks ids = .error e := by
  induction ks generalizing ids with
  | nil => exact absurd hk List.not_mem_nil
  | cons k' ks ih =>
    rw [xread, streamEntriesAfter]
    cases hread : dbs.streamEntries now i k' with
    | error e => exact ⟨e, rfl⟩
    | ok all =>
      rcases List.mem_cons.mp hk with rfl | hmem
      · cases hread.symm.trans (streamEntries_of_not_readable h)
      · obtain ⟨e, he⟩ := ih hmem ids.tail
        exact ⟨e, by rw [he]; rfl⟩

end Databases

/-! ### The words of the command -/

/-- The options that are given, with their numbers. -/
inductive ReadOptionWords
  | none
  | count (n : Bytes)
  | block (t : Bytes)
  | countBlock (n t : Bytes)
  | blockCount (t n : Bytes)
  deriving DecidableEq

namespace ReadOptionWords

/-- The options as they are written. -/
def words : ReadOptionWords → List Bytes
  | none => []
  | count n => [asBytes "COUNT", n]
  | block t => [asBytes "BLOCK", t]
  | countBlock n t => [asBytes "COUNT", n, asBytes "BLOCK", t]
  | blockCount t n => [asBytes "BLOCK", t, asBytes "COUNT", n]

/-- How many entries are asked for of each stream. -/
def limit : ReadOptionWords → Option ℕ
  | count n | countBlock n _ | blockCount _ n => argUsize n
  | none | block _ => Option.none

/-- The client is ready to wait. -/
def Blocks : ReadOptionWords → Prop
  | block _ | countBlock _ _ | blockCount _ _ => True
  | none | count _ => False

end ReadOptionWords

/-- All words of an `XREAD`. -/
def readWords (o : ReadOptionWords) (keys ids : List Bytes) : List Bytes :=
  o.words ++ asBytes "STREAMS" :: (keys ++ ids)

/-- The first half of some words as keys, with the second half as their ids. -/
def halved (words : List Bytes) : List (Bytes × StreamId) :=
  (words.take (words.length / 2)).zip ((words.drop (words.length / 2)).map Cmd.parseId)

/-- The reply that shows the entries. -/
def listing (l : List (Bytes × List StreamEntry)) : RespValue :=
  if l = [] then .nil
  else .array (some (l.map fun p => .array (some [.bulk p.1, Cmd.serializeEntries p.2])))

theorem listing_shape (l : List (Bytes × List StreamEntry)) :
    listing l = .nil ∨ ∃ items, listing l = .array items := by
  rw [listing]
  by_cases hl : l = []
  · exact Or.inl (if_pos hl)
  · exact Or.inr ⟨_, if_neg hl⟩

namespace Cmd

theorem pairs_injective : ∀ {l l' : List (Bytes × Bytes)},
    l.flatMap (fun p => [RespValue.bulk p.1, .bulk p.2])
      = l'.flatMap (fun p => [RespValue.bulk p.1, .bulk p.2]) → l = l'
  | [], [], _ => rfl
  | [], _ :: _, h => by cases h
  | _ :: _, [], h => by cases h
  | p :: l, q :: l', h => by
    rw [List.flatMap_cons, List.flatMap_cons] at h
    obtain ⟨hkey, htail⟩ := List.cons.inj h
    obtain ⟨hvalue, hrest⟩ := List.cons.inj htail
    rw [Prod.ext (Option.some.inj (RespValue.bulkString.inj hkey))
      (Option.some.inj (RespValue.bulkString.inj hvalue)), pairs_injective hrest]

theorem serializeEntry_injective : Function.Injective serializeEntry := by
  rintro ⟨ms, seq, fields⟩ ⟨ms', seq', fields'⟩ h
  obtain ⟨hid, htail⟩ := List.cons.inj (Option.some.inj (RespValue.array.inj h))
  obtain ⟨hfields, -⟩ := List.cons.inj htail
  obtain ⟨rfl, rfl⟩ := Prod.mk.inj (formatId_injective
    (Option.some.inj (RespValue.bulkString.inj hid)))
  exact congrArg (StreamEntry.mk ms seq)
    (pairs_injective (Option.some.inj (RespValue.array.inj hfields)))

theorem serializeEntries_injective : Function.Injective serializeEntries := fun _ _ h =>
  serializeEntry_injective.list_map (Option.some.inj (RespValue.array.inj h))

end Cmd

/-- Different answers look different. -/
theorem listing_injective : Function.Injective listing := by
  have hitem : Function.Injective fun p : Bytes × List StreamEntry =>
      RespValue.array (some [.bulk p.1, Cmd.serializeEntries p.2]) := by
    rintro ⟨k, l⟩ ⟨k', l'⟩ h
    obtain ⟨hkey, htail⟩ := List.cons.inj (Option.some.inj (RespValue.array.inj h))
    obtain ⟨hentries, -⟩ := List.cons.inj htail
    exact Prod.ext (Option.some.inj (RespValue.bulkString.inj hkey))
      (Cmd.serializeEntries_injective hentries)
  intro l l' h
  rw [listing, listing] at h
  by_cases hl : l = []
  · by_cases hl' : l' = []
    · rw [hl, hl']
    · rw [if_pos hl, if_neg hl'] at h
      cases h
  · by_cases hl' : l' = []
    · rw [if_neg hl, if_pos hl'] at h
      cases h
    · rw [if_neg hl, if_neg hl'] at h
      exact hitem.list_map (Option.some.inj (RespValue.array.inj h))

/-! ### What the command does -/

section Xread

variable {env : Env} {dbs : Databases} {i : ℕ}

theorem upper_streams (env : Env) : upper env (asBytes "STREAMS") = "STREAMS" := by
  rw [upper, fromUtf8Lossy_asBytes, env.host.toUppercase_of_upper (by decide)]

/-- Without options the loop stops behind `STREAMS`. -/
theorem xreadOptions_streams {l : List Bytes} (hl : l ≠ []) :
    Cmd.xreadOptions env (asBytes "STREAMS" :: l) {} = ({}, l) := by
  obtain ⟨v, rest, rfl⟩ := List.exists_cons_of_ne_nil hl
  rw [Cmd.xreadOptions, upper_streams, if_neg (by decide), if_neg (by decide), if_neg (by decide),
    if_pos rfl]

/-- A short word in front stops the loop. -/
theorem xreadOptions_short {f : Bytes} (hf : f.length ≤ 5) (l : List Bytes) :
    Cmd.xreadOptions env (f :: l) {} = ({}, f :: l) := by
  cases l with
  | nil => rw [Cmd.xreadOptions, if_pos hf]
  | cons v rest => rw [Cmd.xreadOptions, if_pos hf]

/-- The words that are halved. -/
theorem xreadOptions_words (o : ReadOptionWords) {keys : List Bytes} (hkeys : keys ≠ [])
    (ids : List Bytes) : Cmd.xreadOptions env (readWords o keys ids) {}
      = ({}, if o = .none then keys ++ ids else readWords o keys ids) := by
  have hcount : (asBytes "COUNT").length ≤ 5 := by decide
  have hblock : (asBytes "BLOCK").length ≤ 5 := by decide
  cases o with
  | none => exact xreadOptions_streams (List.append_ne_nil_of_left_ne_nil hkeys ids)
  | count n => exact xreadOptions_short hcount _
  | block t => exact xreadOptions_short hblock _
  | countBlock n t => exact xreadOptions_short hcount _
  | blockCount t n => exact xreadOptions_short hblock _

/-- **The handler**, on the words it halves. -/
theorem xread_of_options {words l : List Bytes} (hwords : Cmd.xreadOptions env words {} = ({}, l))
    (hl : l ≠ []) (hi : i < dbs.length) :
    ((∀ k ∈ l.take (l.length / 2), dbs.Readable env.now i k) ∧
      Cmd.xread env dbs i words = .ok (listing (dbs.entriesBehind env.now i none (halved l)))) ∨
    ((∃ k ∈ l.take (l.length / 2), ¬dbs.Readable env.now i k) ∧
      ∃ e, Cmd.xread env dbs i words = .error (.error e)) := by
  rw [Cmd.xread, hwords]
  dsimp only
  rw [if_neg hl]
  have hhalf : l.length / 2 ≤ ((l.drop (l.length / 2)).map Cmd.parseId).length := by
    rw [List.length_map, List.length_drop]
    omega
  by_cases hall : ∀ k ∈ l.take (l.length / 2), dbs.Readable env.now i k
  · refine Or.inl ⟨hall, ?_⟩
    rw [Databases.xread_of_readable hi none hall (by rw [List.length_take]; omega)]
    rw [listing, halved]
    dsimp only [ofResult, bind, Except.bind]
    by_cases hnil : Databases.entriesBehind env.now dbs i none ((l.take (l.length / 2)).zip
        ((l.drop (l.length / 2)).map Cmd.parseId)) = []
    · rw [if_pos hnil, if_pos hnil, if_neg (by simp)]
      rfl
    · rw [if_neg hnil, if_neg hnil]
      rfl
  · refine Or.inr ?_
    obtain ⟨k, hk, hnot⟩ : ∃ k ∈ l.take (l.length / 2), ¬dbs.Readable env.now i k := by
      by_contra hnone
      exact hall fun k hk => by_contra fun hnot => hnone ⟨k, hk, hnot⟩
    obtain ⟨e, he⟩ := Databases.xread_of_not_readable none hk hnot
      ((l.drop (l.length / 2)).map Cmd.parseId)
    exact ⟨⟨k, hk, hnot⟩, e, by rw [he]; rfl⟩

end Xread

/-! ### When the reply is right -/

/-- What has been asked for. -/
def asked (env : Env) (o : ReadOptionWords) (keys ids : List Bytes) (w : Whole) :
    List (Bytes × List StreamEntry) :=
  w.store.databases.entriesBehind env.now w.ctx.dbIndex o.limit (keys.zip (ids.map Cmd.parseId))

/-- The reply shows what has been asked for, or there is nothing and the client goes on to wait. -/
def ReadsRight (env : Env) (o : ReadOptionWords) (keys ids : List Bytes) (w : Whole) : Prop :=
  (dispatch env "XREAD" (readWords o keys ids) w).1 = .ok (listing (asked env o keys ids w)) ∨
    (asked env o keys ids w = [] ∧ o.Blocks ∧
      (dispatch env "XREAD" (readWords o keys ids) w).1 = .ok (.simpleString "__BLOCK__"))

theorem dispatch_xread (env : Env) (args : List Bytes) (w : Whole) :
    (dispatch env "XREAD" args w).1 = (catchError (Handler.run (dispatchDepth env env.nesting) env
      args (.read Cmd.xread)) w).1 := by
  have hc : (⟨"XREAD", -4, .read Cmd.xread⟩ : CommandDef) ∈ commands := by
    simp [commands, Cmd.streamCommands]
  have hmem : w.store.tables.deniesMemory "XREAD" = false :=
    w.store.tables.deniesMemory_of_allowed (by decide)
  exact congrArg Prod.fst (dispatch_eq hc env hmem rfl)

/-- **`XREAD` and its options.** Without options the reply is right. With options it is so exactly
where the first half of all words, with the second half as ids, can be read and shows the same. -/
theorem readsRight_iff {env : Env} {w : Whole} {keys ids : List Bytes} (o : ReadOptionWords)
    (hi : w.ctx.dbIndex < w.store.databases.length) (hkeys : keys ≠ [])
    (hlen : keys.length = ids.length)
    (hstreams : ∀ k ∈ keys, w.store.databases.Readable env.now w.ctx.dbIndex k) :
    ReadsRight env o keys ids w ↔ o = .none ∨
      (∀ k ∈ (readWords o keys ids).take ((readWords o keys ids).length / 2),
        w.store.databases.Readable env.now w.ctx.dbIndex k) ∧
      w.store.databases.entriesBehind env.now w.ctx.dbIndex none (halved (readWords o keys ids))
        = asked env o keys ids w := by
  have hne : keys ++ ids ≠ [] := List.append_ne_nil_of_left_ne_nil hkeys ids
  have hopts : Cmd.xreadOptions env (readWords o keys ids) {}
      = ({}, if o = .none then keys ++ ids else readWords o keys ids) :=
    xreadOptions_words o hkeys ids
  have hwords : readWords o keys ids ≠ [] :=
    List.append_ne_nil_of_right_ne_nil _ (List.cons_ne_nil _ _)
  rw [ReadsRight, dispatch_xread, catchError_fst, Handler.run]
  dsimp only
  by_cases ho : o = .none
  · -- the words behind `STREAMS` are halved as they are meant
    rw [if_pos ho] at hopts
    have hhalf : (keys ++ ids).length / 2 = keys.length := by
      rw [List.length_append, ← hlen]
      omega
    have hmeant : halved (keys ++ ids) = keys.zip (ids.map Cmd.parseId) := by
      rw [halved, hhalf, List.take_left, List.drop_left]
    refine iff_of_true (Or.inl ?_) (Or.inl ho)
    rcases xread_of_options hopts hne hi with ⟨-, hrun⟩ | ⟨⟨k, hk, hnot⟩, -⟩
    · rw [hrun, hmeant, asked, ho]
      rfl
    · rw [hhalf, List.take_left] at hk
      exact absurd (hstreams k hk) hnot
  · rw [if_neg ho] at hopts
    rw [or_iff_right ho]
    rcases xread_of_options hopts hwords hi with ⟨hall, hrun⟩ | ⟨⟨k, hk, hnot⟩, e, hrun⟩
    · rw [hrun, and_iff_right hall]
      constructor
      · rintro (h | ⟨-, -, h⟩)
        · exact listing_injective (Except.ok.inj h)
        · -- a listing is never the word for waiting
          rcases listing_shape (w.store.databases.entriesBehind env.now w.ctx.dbIndex none
            (halved (readWords o keys ids))) with hl | ⟨items, hl⟩
          · cases hl.symm.trans (Except.ok.inj h)
          · cases hl.symm.trans (Except.ok.inj h)
      · exact fun h => Or.inl (congrArg (fun l => Except.ok (listing l)) h)
    · rw [hrun]
      refine iff_of_false ?_ fun h => hnot (h.1 k hk)
      rintro (h | ⟨-, -, h⟩)
      · rcases listing_shape (asked env o keys ids w) with hl | ⟨items, hl⟩
        · cases (Except.ok.inj h).trans hl
        · cases (Except.ok.inj h).trans hl
      · cases h

/-- A stream with the entry 5-0. -/
def fiveEntry : Entry := { value := .stream [⟨5, 0, [([102], [118])]⟩] 5 0 }

/-- The key `s` holds it, and there is nothing else. -/
def oneStream : Whole :=
  ⟨{ Store.new 1 with databases := (Store.new 1).databases.put 0 [115] fiveEntry }, {}⟩

theorem oneStream_readable (now : UInt64) :
    ∀ k ∈ [([115] : Bytes)], oneStream.store.databases.Readable now oneStream.ctx.dbIndex k := by
  intro k hk e he
  obtain rfl := List.mem_singleton.mp hk
  obtain rfl : fiveEntry = e := Option.some.inj he
  exact ⟨_, rfl⟩

/-- `XREAD STREAMS s 0`. -/
theorem readsRight_plain :
    ReadsRight (Moment.on ⟨8, 0, 0, 1⟩ Host.plain) .none [[115]] [[48]] oneStream :=
  (readsRight_iff .none (Nat.zero_lt_one : 0 < 1) (List.cons_ne_nil _ _) (Eq.refl 1)
    (oneStream_readable _)).mpr (Or.inl rfl)

/-- `XREAD COUNT 1 STREAMS s 0` reads `COUNT` and `1`, and replies with nil. -/
theorem not_readsRight_count : ¬ReadsRight (Moment.on ⟨8, 0, 0, 1⟩ Host.plain)
    (.count [49]) [[115]] [[48]] oneStream := by
  have hreply : (dispatch (Moment.on ⟨8, 0, 0, 1⟩ Host.plain) "XREAD"
      (readWords (.count [49]) [[115]] [[48]]) oneStream).1 = .ok .nil := rfl
  have hasked : asked (Moment.on ⟨8, 0, 0, 1⟩ Host.plain) (.count [49]) [[115]] [[48]] oneStream
      = [([115], [⟨5, 0, [([102], [118])]⟩])] := rfl
  rintro (h | ⟨h, -, -⟩)
  · have hnil : listing (asked (Moment.on ⟨8, 0, 0, 1⟩ Host.plain) (.count [49]) [[115]] [[48]]
        oneStream) = listing [] := Except.ok.inj (h.symm.trans hreply)
    cases hasked.symm.trans (listing_injective hnil)
  · cases hasked.symm.trans h

/-! ### Trimming -/

theorem xtrimDef_mem : (⟨"XTRIM", 4, .write Cmd.xtrim⟩ : CommandDef) ∈ commands := by
  simp [commands, Cmd.streamCommands]

/-- With less than four arguments the handler goes no further than their number. -/
theorem xtrim_short {env : Env} {i : ℕ} {args : List Bytes} (h : args.length < 4) (ks : Keyspace) :
    Cmd.xtrim env i args ks = (.error (.error .syntaxError), ks) := by
  rw [Cmd.xtrim, if_pos (Or.inl h)]
  rfl

/-- **No `XTRIM` gets through.** Three arguments are too few for the handler, and any other number
is refused in front of it. -/
theorem dispatch_xtrim (env : Env) {args : List Bytes} (hlen : args.length + 1 < 2 ^ 31)
    (w : Whole) : ∃ msg, dispatch env "XTRIM" args w = (.ok (.error msg), w) := by
  have hmem : w.store.tables.deniesMemory "XTRIM" = false :=
    w.store.tables.deniesMemory_of_allowed (by decide)
  have hentry := congrFun (dispatch_eq_entry xtrimDef_mem env args) w
  by_cases hthree : args.length = 3
  · have hargs : CommandDef.refuses ⟨"XTRIM", 4, .write Cmd.xtrim⟩ args = false :=
      refuses_of_length (by rw [hthree]; rfl) hlen
    have hrun : Handler.run (dispatchDepth env env.nesting) env args (.write Cmd.xtrim) w
        = (.error (.error .syntaxError), w) := by
      rw [Handler.run]
      dsimp only
      rw [xtrim_short (by omega)]
      rfl
    have hcatch : catchError (Handler.run (dispatchDepth env env.nesting) env args
        (.write Cmd.xtrim)) w = (.ok (.error VeloDBError.syntaxError.display), w) := by
      rw [catchError, hrun]
    have hentered := hentry.trans (dispatchEntry_run hmem hargs)
    exact ⟨_, hentered.trans hcatch⟩
  · have hargs : CommandDef.refuses ⟨"XTRIM", 4, .write Cmd.xtrim⟩ args = true := by
      have hmod : ((args.length : ℤ) + 1).bmod (2 ^ 32) = args.length + 1 := by
        apply Int.bmod_eq_of_le <;> omega
      rw [refuses_iff, hmod]
      exact ⟨by decide, fun h => hthree (by dsimp only at h; omega)⟩
    exact ⟨_, hentry.trans (dispatchEntry_refused hmem hargs)⟩

/-- `XTRIM k MAXLEN ~ n` leaves the newest `n` entries of a stream and its last id, and replies with
how many are gone. -/
def Trims (env : Env) (k n : Bytes) (l : List StreamEntry) (last : StreamId) (w : Whole) : Prop :=
  ∃ w' e, dispatch env "XTRIM" [k, asBytes "MAXLEN", [126], n] w
      = (.ok (.count (l.length - (argUsize n).getD 0)), w') ∧
    w'.store.databases.liveEntry env.now w.ctx.dbIndex k = some e ∧
    Kind.stream.unwrap e.value = some (l.drop (l.length - (argUsize n).getD 0), last)

/-- **`XTRIM` never trims.** -/
theorem not_trims (env : Env) (k n : Bytes) (l : List StreamEntry) (last : StreamId) (w : Whole) :
    ¬Trims env k n l last w := by
  rintro ⟨w', e, hreply, -, -⟩
  have hlen : [k, asBytes "MAXLEN", [126], n].length + 1 < 2 ^ 31 := (by decide : 5 < 2 ^ 31)
  obtain ⟨msg, herror⟩ := dispatch_xtrim env hlen w
  cases congrArg Prod.fst (herror.symm.trans hreply)

/-- `XTRIM s MAXLEN ~ 0`, where `s` holds the entry 5-0. -/
theorem not_trims_one : ¬Trims (Moment.on ⟨8, 0, 0, 1⟩ Host.plain) [115] [48]
    [⟨5, 0, [([102], [118])]⟩] (5, 0) oneStream := by
  rintro ⟨w', e, hreply, -, -⟩
  have herror : (dispatch (Moment.on ⟨8, 0, 0, 1⟩ Host.plain) "XTRIM"
      [[115], asBytes "MAXLEN", [126], [48]] oneStream).1
      = .ok (.error "ERR wrong number of arguments for 'xtrim' command") := rfl
  cases herror.symm.trans (congrArg Prod.fst hreply)

end VeloDB
