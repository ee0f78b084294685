import VeloDB.Cmd.Scan
import VeloDB.Cmd.Table
import VeloDB.Store.GlobMatch

/-!
# Which keys are there

Several commands tell whether a key is there. `EXISTS`, `TYPE` and `SCAN` ask for an entry that has
not expired, and `DBSIZE` counts these. `KEYS *` asks for them too, but its matcher takes a star at
the beginning of a key for the star of the pattern. `DEL` counts an entry that has expired as well.
`TTL` and `PTTL` answer `-1` for a key that is not there, as for one without an expiry.

## Main results

* `exists_iff`, `type_iff`, `pttl_iff`, `keys_iff`, `del_iff`, `dbsize_eq`, `completeScan_iff` —
  what each command tells
* `agree_iff` — when they tell the same
-/

namespace VeloDB

open Rust

/-! ### The pattern of one star -/

/-- A key that begins with a star and goes on. -/
def StarLed (k : Bytes) : Prop := ∃ r, r ≠ [] ∧ k = 42 :: r

theorem simpleMatch_lossy_star (k : Bytes) :
    simpleMatch (fromUtf8Lossy k) "*" = true ↔ ¬StarLed k := by
  rw [simpleMatch_star, not_iff_not]
  constructor
  · rintro ⟨t, hne, ht⟩
    obtain ⟨r, rfl, rfl⟩ := (asBytes_fromUtf8Lossy_cons (by decide)).mp ht
    refine ⟨r, ?_, rfl⟩
    rintro rfl
    exact hne rfl
  · rintro ⟨r, hne, rfl⟩
    refine ⟨_, fun hnil => hne ?_, (asBytes_fromUtf8Lossy_cons (by decide)).mpr ⟨r, rfl, rfl⟩⟩
    have hempty : fromUtf8Lossy r = "" := asBytes_injective (hnil.trans rfl)
    have hchars := congrArg String.toList hempty
    rw [fromUtf8Lossy, String.toList_ofList] at hchars
    exact lossyChars_eq_nil hchars

/-! ### The replies -/

section Replies

variable (env : Env) (w : Whole) (k : Bytes)

/-- The entry that a key has in the selected database and that has not expired. -/
def liveHere : Option Entry := w.store.databases.liveEntry env.now w.ctx.dbIndex k

/-- `EXISTS` replies `1`. -/
def Exists : Prop := (dispatch env "EXISTS" [k] w).1 = .ok (.integer 1)

variable {env w k}

/-- What the client is told of the result of a handler. -/
def caught : Except Failure RespValue → Except Failure RespValue
  | .error (.error e) => .ok (.error e.display)
  | r => r

/-- The reply to a command that no memory is needed for. -/
theorem reply_eq {c : CommandDef} (hc : c ∈ commands) {args : List Bytes}
    (hmem : isDenyOomCommand c.name = false) (hargs : c.refuses args = false) :
    (dispatch env c.name args w).1
      = caught (c.handler.run (dispatchDepth env env.nesting) env args w).1 := by
  have hgate : w.store.tables.deniesMemory c.name = false :=
    w.store.tables.deniesMemory_of_allowed hmem
  rw [dispatch_eq hc env hgate hargs, catchError_fst]
  rfl

theorem entry_out {dbs : Databases} {i : ℕ} (hi : dbs.length ≤ i) (now : UInt64) (k : Bytes) :
    dbs.entry now i k = .error (.internal ("db " ++ toString i ++ " out of range")) := by
  rw [Databases.entry, Databases.db_out hi]
  rfl

theorem liveHere_out (hi : w.store.databases.length ≤ w.ctx.dbIndex) : liveHere env w k = none :=
  Databases.liveEntry_eq_none_of_le hi k

/-- `EXISTS` asks for a live entry. -/
theorem exists_iff : Exists env w k ↔ (liveHere env w k).isSome = true := by
  have hc : (⟨"EXISTS", -2, .read Cmd.existsCmd⟩ : CommandDef) ∈ commands := by
    simp [commands, Cmd.genericCommands]
  have hreply : (dispatch env "EXISTS" [k] w).1
      = caught (Cmd.existsCmd env w.store.databases w.ctx.dbIndex [k]) :=
    reply_eq hc (by decide) (by simp [CommandDef.refuses])
  rw [Exists, hreply]
  rcases Nat.lt_or_ge w.ctx.dbIndex w.store.databases.length with hlt | hge
  · have hrun : Cmd.existsCmd env w.store.databases w.ctx.dbIndex [k]
        = .ok (.count ([(liveHere env w k).isSome].filter id).length) := by
      rw [Cmd.existsCmd, List.mapM_cons, List.mapM_nil, Databases.existsKey,
        Databases.entry_eq hlt]
      rfl
    rw [hrun]
    cases (liveHere env w k).isSome with
    | true => exact iff_of_true rfl rfl
    | false =>
      refine iff_of_false (fun h => ?_) Bool.false_ne_true
      exact absurd (RespValue.integer.inj (Except.ok.inj h)) (by decide)
  · rw [liveHere_out hge, Cmd.existsCmd, List.mapM_cons, Databases.existsKey, entry_out hge]
    refine iff_of_false (fun h => ?_) Bool.false_ne_true
    cases Except.ok.inj h

/-- In a database that is there, `TYPE` does so too. -/
theorem type_iff (hdb : w.ctx.dbIndex < w.store.databases.length) :
    (dispatch env "TYPE" [k] w).1 ≠ .ok (.simpleString "none") ↔
      (liveHere env w k).isSome = true := by
  have hc : (⟨"TYPE", 2, .read Cmd.typeCmd⟩ : CommandDef) ∈ commands := by
    simp [commands, Cmd.genericCommands]
  have hreply : (dispatch env "TYPE" [k] w).1
      = caught (Cmd.typeCmd env w.store.databases w.ctx.dbIndex [k]) :=
    reply_eq hc (by decide) (by simp [CommandDef.refuses])
  have htype : w.store.databases.getType env.now w.ctx.dbIndex k
      = .ok ((liveHere env w k).map fun e => e.value.typeName) := by
    rw [Databases.getType, Databases.entry_eq hdb]
    rfl
  have hrun : Cmd.typeCmd env w.store.databases w.ctx.dbIndex [k]
      = .ok (.simpleString (((liveHere env w k).map fun e => e.value.typeName).getD "none")) := by
    show (ofResult (w.store.databases.getType env.now w.ctx.dbIndex k) >>= fun t =>
      pure (RespValue.simpleString (t.getD "none"))) = _
    rw [htype]
    rfl
  have hname : ∀ v : StorageValue, v.typeName ≠ "none" := by
    intro v
    cases v <;> simp [StorageValue.typeName]
  rw [hreply, hrun]
  cases liveHere env w k with
  | none => exact iff_of_false (fun h => h rfl) Bool.false_ne_true
  | some e =>
    exact iff_of_true (fun h => hname e.value (RespValue.simpleString.inj (Except.ok.inj h))) rfl

/-- `TTL` and `PTTL` answer `-1` for a key without an expiry, and for one that is not there. -/
theorem ttlWith_none (hdb : w.ctx.dbIndex < w.store.databases.length) (scale : UInt64 → UInt64)
    (h : (liveHere env w k).bind Entry.expireAt = none) :
    Cmd.ttlWith scale env w.store.databases w.ctx.dbIndex [k] = .ok (.integer (-1)) := by
  have hexpire : w.store.databases.getExpire env.now w.ctx.dbIndex k = .ok none := by
    rw [Databases.getExpire, Databases.entry_eq hdb, ← h]
    rfl
  rw [Cmd.ttlWith]
  show (ofResult (w.store.databases.getExpire env.now w.ctx.dbIndex k) >>= _) = _
  rw [hexpire]
  rfl

/-- For the others, what is left: an entry that has not expired expires later. -/
theorem ttlWith_some (hdb : w.ctx.dbIndex < w.store.databases.length) (scale : UInt64 → UInt64)
    {at_ : UInt64} (h : (liveHere env w k).bind Entry.expireAt = some at_) :
    Cmd.ttlWith scale env w.store.databases w.ctx.dbIndex [k]
      = .ok (.integer (scale (at_ - env.now)).toInt64) := by
  have hexpire : w.store.databases.getExpire env.now w.ctx.dbIndex k = .ok (some at_) := by
    rw [Databases.getExpire, Databases.entry_eq hdb, ← h]
    rfl
  have hlater : env.now < at_ := by
    obtain ⟨e, he, hat⟩ := Option.bind_eq_some_iff.mp h
    have hexp := (Option.filter_eq_some_iff.mp he).2
    simpa [Entry.expired, hat] using hexp
  rw [Cmd.ttlWith]
  show (ofResult (w.store.databases.getExpire env.now w.ctx.dbIndex k) >>= _) = _
  rw [hexpire]
  show (if env.now < at_ then _ else _) = _
  rw [if_pos hlater]
  rfl

theorem toInt64_eq_neg_two {n : UInt64} : n.toInt64 = -2 ↔ n = 0xFFFFFFFFFFFFFFFE := by
  have hneg : (-2 : Int64) = (0xFFFFFFFFFFFFFFFE : UInt64).toInt64 := by decide
  rw [hneg]
  exact ⟨fun h => congrArg Int64.toUInt64 h, fun h => h ▸ rfl⟩

/-- **`TTL` never answers `-2`.** -/
theorem ttl_ne : (dispatch env "TTL" [k] w).1 ≠ .ok (.integer (-2)) := by
  have hc : (⟨"TTL", 2, .read Cmd.ttl⟩ : CommandDef) ∈ commands := by
    simp [commands, Cmd.genericCommands]
  have hreply : (dispatch env "TTL" [k] w).1
      = caught (Cmd.ttlWith (fun ms => ms / 1000) env w.store.databases w.ctx.dbIndex [k]) :=
    reply_eq hc (by decide) (by simp [CommandDef.refuses])
  rw [hreply]
  rcases Nat.lt_or_ge w.ctx.dbIndex w.store.databases.length with hdb | hge
  case inr =>
    have hexpire : w.store.databases.getExpire env.now w.ctx.dbIndex k
        = .error (.internal ("db " ++ toString w.ctx.dbIndex ++ " out of range")) := by
      rw [Databases.getExpire, entry_out hge]
      rfl
    rw [Cmd.ttlWith, arg_cons_zero]
    show caught (ofResult (w.store.databases.getExpire env.now w.ctx.dbIndex k) >>= _) ≠ _
    rw [hexpire]
    exact fun h => by cases Except.ok.inj h
  cases hexpire : (liveHere env w k).bind Entry.expireAt with
  | none =>
    rw [ttlWith_none hdb _ hexpire]
    exact fun h => absurd (RespValue.integer.inj (Except.ok.inj h)) (by decide)
  | some at_ =>
    rw [ttlWith_some hdb _ hexpire]
    intro h
    have hlarge : ((at_ - env.now) / 1000).toNat = (0xFFFFFFFFFFFFFFFE : UInt64).toNat :=
      congrArg UInt64.toNat (toInt64_eq_neg_two.mp (RespValue.integer.inj (Except.ok.inj h)))
    have hlt := (at_ - env.now).toNat_lt
    have h1000 : (1000 : UInt64).toNat = 1000 := rfl
    have hmax : (0xFFFFFFFFFFFFFFFE : UInt64).toNat = 0xFFFFFFFFFFFFFFFE := rfl
    rw [UInt64.toNat_div, h1000, hmax] at hlarge
    omega

/-- `PTTL` answers `-2` when that is what is left, as a signed number. -/
theorem pttl_iff (hdb : w.ctx.dbIndex < w.store.databases.length) :
    (dispatch env "PTTL" [k] w).1 ≠ .ok (.integer (-2)) ↔
      ∀ at_, (liveHere env w k).bind Entry.expireAt = some at_ →
        at_ - env.now ≠ 0xFFFFFFFFFFFFFFFE := by
  have hc : (⟨"PTTL", 2, .read Cmd.pttl⟩ : CommandDef) ∈ commands := by
    simp [commands, Cmd.genericCommands]
  have hreply : (dispatch env "PTTL" [k] w).1
      = caught (Cmd.ttlWith id env w.store.databases w.ctx.dbIndex [k]) :=
    reply_eq hc (by decide) (by simp [CommandDef.refuses])
  rw [hreply]
  cases hexpire : (liveHere env w k).bind Entry.expireAt with
  | none =>
    rw [ttlWith_none hdb _ hexpire]
    refine iff_of_true (fun h => ?_) (fun at_ h => by cases h)
    exact absurd (RespValue.integer.inj (Except.ok.inj h)) (by decide)
  | some at_ =>
    rw [ttlWith_some hdb _ hexpire]
    constructor
    · rintro h at' hat' hleft
      obtain rfl := Option.some.inj hat'
      exact h (congrArg (fun i => Except.ok (RespValue.integer i)) (toInt64_eq_neg_two.mpr hleft))
    · intro h heq
      exact h at_ rfl (toInt64_eq_neg_two.mp (RespValue.integer.inj (Except.ok.inj heq)))

theorem mem_live_iff (hdb : w.ctx.dbIndex < w.store.databases.length) :
    k ∈ (Databases.live env.now w.store.databases[w.ctx.dbIndex]).map Prod.fst ↔
      (liveHere env w k).isSome = true := by
  rw [List.mem_map]
  constructor
  · rintro ⟨⟨k, e⟩, hlive, rfl⟩
    have he : liveHere env w k = some e := Databases.liveEntry_eq_some.mpr
      ⟨_, List.getElem?_eq_getElem hdb, hlive⟩
    rw [he]
    rfl
  · intro hsome
    obtain ⟨e, he⟩ := Option.isSome_iff_exists.mp hsome
    obtain ⟨d, hd, hmem⟩ := Databases.liveEntry_eq_some.mp he
    obtain rfl := Option.some.inj ((List.getElem?_eq_getElem hdb).symm.trans hd)
    exact ⟨(k, e), hmem, rfl⟩

/-- `KEYS *` shows a live key unless it begins with a star and goes on. -/
theorem keys_iff (hdb : w.ctx.dbIndex < w.store.databases.length) :
    (∃ keys, (dispatch env "KEYS" [asBytes "*"] w).1 = .ok (bulks keys) ∧ k ∈ keys) ↔
      (liveHere env w k).isSome = true ∧ ¬StarLed k := by
  have hc : (⟨"KEYS", 2, .read Cmd.keysCmd⟩ : CommandDef) ∈ commands := by
    simp [commands, Cmd.genericCommands]
  let shown : List Bytes := ((Databases.live env.now w.store.databases[w.ctx.dbIndex]).filter
    fun p => simpleMatch (fromUtf8Lossy p.1) "*").map Prod.fst
  have hreply : (dispatch env "KEYS" [asBytes "*"] w).1 = .ok (bulks shown) := by
    have h : (dispatch env "KEYS" [asBytes "*"] w).1
        = caught (Cmd.keysCmd env w.store.databases w.ctx.dbIndex [asBytes "*"]) :=
      reply_eq hc (by decide) (by simp [CommandDef.refuses])
    have hkeys : w.store.databases.keys env.now w.ctx.dbIndex "*" = .ok shown := by
      rw [Databases.keys, Databases.db_eq hdb]
      rfl
    rw [h]
    show caught (ofResult (w.store.databases.keys env.now w.ctx.dbIndex
      (fromUtf8Lossy (asBytes "*"))) >>= fun keys => pure (bulks keys)) = _
    rw [fromUtf8Lossy_asBytes, hkeys]
    rfl
  have hshown : k ∈ shown ↔ (liveHere env w k).isSome = true ∧ ¬StarLed k := by
    rw [List.mem_map, ← simpleMatch_lossy_star, ← mem_live_iff hdb, List.mem_map]
    constructor
    · rintro ⟨⟨k, e⟩, hp, rfl⟩
      obtain ⟨hlive, hmatch⟩ := List.mem_filter.mp hp
      exact ⟨⟨(k, e), hlive, rfl⟩, hmatch⟩
    · rintro ⟨⟨⟨k, e⟩, hlive, rfl⟩, hmatch⟩
      exact ⟨(k, e), List.mem_filter.mpr ⟨hlive, hmatch⟩, rfl⟩
  have hinj : ∀ {l l' : List Bytes}, bulks l = bulks l' → l = l' := by
    intro l l' h
    have hmap := Option.some.inj (RespValue.array.inj h)
    exact (List.map_injective_iff.mpr fun a b hab => Option.some.inj
      (RespValue.bulkString.inj hab)) hmap
  rw [hreply, ← hshown]
  constructor
  · rintro ⟨keys, heq, hmem⟩
    rwa [hinj (Except.ok.inj heq)]
  · exact fun h => ⟨shown, rfl, h⟩

/-- `DEL` counts an entry, expired or not. -/
theorem del_iff (hdb : w.ctx.dbIndex < w.store.databases.length) :
    (dispatch env "DEL" [k] w).1 = .ok (.integer 1) ↔
      (w.store.databases.find w.ctx.dbIndex k).isSome = true := by
  have hc : (⟨"DEL", -2, .write Cmd.del⟩ : CommandDef) ∈ commands := by
    simp [commands, Cmd.genericCommands]
  have hreply : (dispatch env "DEL" [k] w).1
      = caught (Cmd.del env w.ctx.dbIndex [k] { databases := w.store.databases }).1 :=
    reply_eq hc (by decide) (by simp [CommandDef.refuses])
  have hrun : (Cmd.del env w.ctx.dbIndex [k] { databases := w.store.databases }).1
      = .ok (.count (if (w.store.databases.find w.ctx.dbIndex k).isSome then 1 else 0)) := by
    have hdel : Keyspace.del w.ctx.dbIndex k { databases := w.store.databases }
        = (.ok (w.store.databases.find w.ctx.dbIndex k).isSome,
          { databases := w.store.databases.remove w.ctx.dbIndex k }) := by
      rw [Keyspace.del, Proc.bind_ok (Keyspace.read_db hdb []), ← Keyspace.lookup_eq_find hdb]
      rfl
    rw [Cmd.del, Proc.foldEach, Proc.bind_assoc, Proc.bind_assoc, Proc.bind_ok hdel]
    rfl
  rw [hreply, hrun]
  cases (w.store.databases.find w.ctx.dbIndex k).isSome with
  | true => exact iff_of_true rfl rfl
  | false =>
    refine iff_of_false (fun h => ?_) Bool.false_ne_true
    exact absurd (RespValue.integer.inj (Except.ok.inj h)) (by decide)

/-- `DBSIZE` counts the live keys. -/
theorem dbsize_eq (hdb : w.ctx.dbIndex < w.store.databases.length) :
    (dispatch env "DBSIZE" [] w).1
      = .ok (.count (Databases.live env.now w.store.databases[w.ctx.dbIndex]).length) := by
  have hc : (⟨"DBSIZE", 1, .write Cmd.dbsizeCmd⟩ : CommandDef) ∈ commands := by
    simp [commands, Cmd.genericCommands]
  have hreply : (dispatch env "DBSIZE" [] w).1
      = caught (Cmd.dbsizeCmd env w.ctx.dbIndex [] { databases := w.store.databases }).1 :=
    reply_eq hc (by decide) (by simp [CommandDef.refuses])
  obtain ⟨s', hrun, -⟩ := Keyspace.dbsize_run (s := { databases := w.store.databases }) hdb env.now
  rw [hreply, Cmd.dbsizeCmd, Proc.bind_ok hrun]
  rfl

/-! ### A complete scan -/

/-- A client presents `0` first and then each number that it is given, with options of its own none
of which is a pattern, until it is given `0`. -/
inductive CompleteScan (env : Env) : ℕ → Whole → List Bytes → Prop
  | last {n count : ℕ} {w w' : Whole} {options keys : List Bytes}
    (hoptions : Cmd.parseScanOpts env options (none, 10) = .ok (none, count))
    (h : dispatch env "SCAN" (asBytes (toString n) :: options) w
      = (.ok (Cmd.scanReply 0 (keys.map .bulk)), w')) : CompleteScan env n w keys
  | next {n n' count : ℕ} {w w' : Whole} {options keys rest : List Bytes}
    (hoptions : Cmd.parseScanOpts env options (none, 10) = .ok (none, count))
    (h : dispatch env "SCAN" (asBytes (toString n) :: options) w
      = (.ok (Cmd.scanReply n' (keys.map .bulk)), w')) (hmore : n' ≠ 0)
    (hrest : CompleteScan env n' w' rest) : CompleteScan env n w (keys ++ rest)

theorem scanReply_injective {n n' : ℕ} {keys keys' : List Bytes}
    (h : Cmd.scanReply n (keys.map .bulk) = Cmd.scanReply n' (keys'.map .bulk)) :
    n = n' ∧ keys = keys' := by
  obtain ⟨hn, hrest⟩ := List.cons.inj (Option.some.inj (RespValue.array.inj h))
  have hmap := Option.some.inj (RespValue.array.inj (List.cons.inj hrest).1)
  refine ⟨toString_nat_injective (asBytes_injective
    (Option.some.inj (RespValue.bulkString.inj hn))), ?_⟩
  exact (List.map_injective_iff.mpr fun a b hab => Option.some.inj
    (RespValue.bulkString.inj hab)) hmap

theorem parseCursor_toString (n : ℕ) : Cmd.parseCursor (asBytes (toString n))
    = if n < 2 ^ 64 then .ok (.ofNat n)
      else .error (.error (.internal "ERR invalid cursor")) := by
  have hle : n ≤ 2 ^ 64 - 1 ↔ n < 2 ^ 64 := by omega
  rw [Cmd.parseCursor, argU64, fromUtf8Lossy_asBytes, parseU64, parseUnsigned_toString_eq]
  simp only [hle]
  split_ifs <;> rfl

/-- `SCAN` with the number that it was given. -/
theorem scanCmd_run (dbs : Databases) (n : ℕ) {count : ℕ} {options : List Bytes}
    (hoptions : Cmd.parseScanOpts env options (none, 10) = .ok (none, count)) (s : Side) :
    Cmd.scanCmd env dbs (asBytes (toString n) :: options) s
      = if n < 2 ^ 64 then
          (onTables (Tables.scanKeys env.now dbs s.ctx.dbIndex (.ofNat n) none count)
            >>= fun r => pure (Cmd.scanReply r.1 (r.2.map .bulk))) s
        else (.error (.error (.internal "ERR invalid cursor")), s) := by
  have hcursor := parseCursor_toString n
  have hopts : argsFrom (asBytes (toString n) :: options) 1 = .ok options := by
    simp [argsFrom]
  rw [Cmd.scanCmd, arg_cons_zero, lift_ok_bind, hcursor]
  split_ifs
  · rw [lift_ok_bind, hopts, lift_ok_bind, hoptions]
    rfl
  · rfl

theorem onTables_bind {m : TableM (ℕ × List Bytes)} {f : ℕ × List Bytes → SideM RespValue}
    {s : Side} {r : ℕ × List Bytes} {t' : Tables} (hm : m s.tables = (.ok r, t')) :
    (onTables m >>= f) s = f r { s with tables := t' } :=
  Proc.bind_ok (by rw [onTables, hm])

/-- What `SCAN` does. -/
theorem dispatch_scan (options : List Bytes) (n : ℕ) {r : Except Failure RespValue} {s : Side}
    (hrun : Cmd.scanCmd env w.store.databases (asBytes (toString n) :: options)
      { tables := w.store.tables, ctx := w.ctx } = (r, s)) :
    dispatch env "SCAN" (asBytes (toString n) :: options) w
      = (caught r, { store := { w.store with tables := s.tables }, ctx := s.ctx }) := by
  have hc : (⟨"SCAN", -2, .side Cmd.scanCmd⟩ : CommandDef) ∈ commands := by
    simp [commands, Cmd.genericCommands]
  have hgate : w.store.tables.deniesMemory "SCAN" = false :=
    w.store.tables.deniesMemory_of_allowed (by decide)
  have hargs : (⟨"SCAN", -2, .side Cmd.scanCmd⟩ : CommandDef).refuses
      (asBytes (toString n) :: options) = false := by
    simp [CommandDef.refuses]
  have hhandler : (Handler.side Cmd.scanCmd).run (dispatchDepth env env.nesting) env
      (asBytes (toString n) :: options) w
        = (r, { store := { w.store with tables := s.tables }, ctx := s.ctx }) := by
    simp only [Handler.run, hrun]
  rw [dispatch_eq hc env hgate hargs]
  refine Prod.ext ?_ ?_
  · rw [catchError_fst, hhandler]
    rfl
  · rw [catchError_snd, hhandler]

/-- What an answer to `SCAN` says of the table of cursors. -/
theorem scan_reply {n n' count : ℕ} {w' : Whole} {options keys : List Bytes}
    (hoptions : Cmd.parseScanOpts env options (none, 10) = .ok (none, count))
    (h : dispatch env "SCAN" (asBytes (toString n) :: options) w
      = (.ok (Cmd.scanReply n' (keys.map .bulk)), w')) :
    n < 2 ^ 64 ∧ w'.ctx = w.ctx ∧ w'.store.databases = w.store.databases ∧
      Tables.scanKeys env.now w.store.databases w.ctx.dbIndex (.ofNat n) none count w.store.tables
        = (.ok (n', keys), w'.store.tables) := by
  have hrun := scanCmd_run w.store.databases n hoptions { tables := w.store.tables, ctx := w.ctx }
  by_cases hn : n < 2 ^ 64
  case neg =>
    rw [if_neg hn] at hrun
    rw [dispatch_scan options n hrun] at h
    cases Except.ok.inj (Prod.mk.inj h).1
  case pos =>
    rw [if_pos hn] at hrun
    rcases hkeys : Tables.scanKeys env.now w.store.databases w.ctx.dbIndex (.ofNat n) none count
      w.store.tables with ⟨r, t'⟩
    cases r with
    | error e =>
      have htables : onTables (Tables.scanKeys env.now w.store.databases w.ctx.dbIndex (.ofNat n)
          none count) { tables := w.store.tables, ctx := w.ctx }
            = (.error e, { tables := t', ctx := w.ctx }) := by
        rw [onTables, hkeys]
      rw [Proc.bind_error htables] at hrun
      rw [dispatch_scan options n hrun] at h
      cases e <;> cases (Prod.mk.inj h).1
    | ok r =>
      rw [onTables_bind hkeys, Proc.pure_run] at hrun
      rw [dispatch_scan options n hrun] at h
      obtain ⟨hreply, rfl⟩ := Prod.mk.inj h
      obtain ⟨rfl, rfl⟩ := scanReply_injective (Except.ok.inj hreply)
      exact ⟨hn, rfl, rfl, rfl⟩

theorem CompleteScan.small {n : ℕ} {keys : List Bytes} (h : CompleteScan env n w keys) :
    n < 2 ^ 64 := by
  cases h with
  | last hoptions h => exact (scan_reply hoptions h).1
  | next hoptions h => exact (scan_reply hoptions h).1

/-- The pages of such a client are a scan of the table of cursors. -/
theorem CompleteScan.scan {n : ℕ} {keys : List Bytes} (h : CompleteScan env n w keys)
    (hn : n = 0 ∨ n ∈ w.store.tables.scanCursors) (hnext : 0 < w.store.tables.nextScanCursor) :
    ∃ requests pages, Scan w.ctx.dbIndex none (.ofNat n) w.store.tables requests pages ∧
      pages.flatten = keys ∧
      ∀ q ∈ requests, q.now = env.now ∧ q.databases = w.store.databases := by
  have hcursor : ∀ {n : ℕ} {t : Tables}, n < 2 ^ 64 → (n = 0 ∨ n ∈ t.scanCursors) →
      UInt64.ofNat n = 0 ∨ (UInt64.ofNat n).toNat ∈ t.scanCursors := by
    rintro n t hlt (rfl | hmem)
    · exact Or.inl rfl
    · exact Or.inr (by rwa [UInt64.toNat_ofNat_of_lt' hlt])
  induction h with
  | @last n count w w' options keys hoptions h =>
    obtain ⟨hlt, -, -, hkeys⟩ := scan_reply hoptions h
    refine ⟨[⟨env.now, w.store.databases, count⟩], [keys], .last (hcursor hlt hn) hkeys,
      List.flatten_singleton, fun q hq => ?_⟩
    rw [List.mem_singleton.mp hq]
    exact ⟨rfl, rfl⟩
  | @next n n' count w w' options keys rest hoptions h hmore hrest ih =>
    obtain ⟨hlt, hctx, hdbs, hkeys⟩ := scan_reply hoptions h
    obtain ⟨after, hafter⟩ := scanStart_of_mem (hcursor hlt hn)
    rcases isPage_scanKeys hafter hnext hkeys with ⟨hzero, -⟩ | ⟨-, hlarger, last, hlast, -⟩
    · exact absurd hzero hmore
    · have hlt' : n' < 2 ^ 64 := hrest.small
      have hmem : n' ∈ w'.store.tables.scanCursors :=
        AList.lookup_isSome.mp (Option.isSome_of_eq_some hlast)
      obtain ⟨requests, pages, hscan, hflat, hall⟩ :=
        ih (Or.inr hmem) ((Nat.zero_le _).trans_lt hlarger)
      rw [hctx] at hscan
      refine ⟨⟨env.now, w.store.databases, count⟩ :: requests, keys :: pages,
        .next (hcursor hlt hn) ?_ (fun hzero => hmore ?_) .refl hscan, ?_, fun q hq => ?_⟩
      · rwa [UInt64.toNat_ofNat_of_lt' hlt']
      · rw [← UInt64.toNat_ofNat_of_lt' hlt', hzero]
        rfl
      · rw [List.flatten_cons, hflat]
      · rcases List.mem_cons.mp hq with rfl | hq
        · exact ⟨rfl, rfl⟩
        · exact hdbs ▸ hall q hq

/-- **A complete scan shows the live keys.** -/
theorem completeScan_iff {keys : List Bytes}
    (ht : Relation.ReflTransGen TableStep {} w.store.tables) (h : CompleteScan env 0 w keys) :
    k ∈ keys ↔ (liveHere env w k).isSome = true := by
  obtain ⟨requests, pages, hscan, rfl, hall⟩ := h.scan (Or.inl rfl) (follows_of_steps ht).next
  have hvisible : ∀ q ∈ requests, (Visible q.now q.databases w.ctx.dbIndex none k ↔
      (liveHere env w k).isSome = true) := by
    intro q hq
    obtain ⟨hnow, hdbs⟩ := hall q hq
    rw [Visible, hnow, hdbs]
    exact and_iff_left rfl
  constructor
  · intro hk
    obtain ⟨q, hq, hshown⟩ := hscan.shown hk
    exact (hvisible q hq).mp hshown
  · intro hlive
    have hone := (scan_exactly_once ht hscan).1 k fun q hq => (hvisible q hq).mpr hlive
    exact List.one_le_count_iff.mp hone.ge

/-- One page that is large enough is a complete scan. -/
theorem completeScan_of_count (hdb : w.ctx.dbIndex < w.store.databases.length) {count : ℕ}
    {options : List Bytes} (hoptions : Cmd.parseScanOpts env options (none, 10) = .ok (none, count))
    (hsize : (keysAfter w.store.databases[w.ctx.dbIndex] none).length ≤ count) :
    ∃ keys, CompleteScan env 0 w keys := by
  have hone : ¬max count 1 < (keysAfter w.store.databases[w.ctx.dbIndex] none).length :=
    not_lt.mpr (hsize.trans (le_max_left _ _))
  have hkeys : Tables.scanKeys env.now w.store.databases w.ctx.dbIndex (.ofNat 0) none count
      w.store.tables = _ :=
    scanKeys_run (List.getElem?_eq_getElem hdb) (if_pos rfl) rfl
  rw [if_neg hone] at hkeys
  have hrun := scanCmd_run w.store.databases 0 hoptions { tables := w.store.tables, ctx := w.ctx }
  rw [if_pos (Nat.two_pow_pos 64), onTables_bind hkeys] at hrun
  exact ⟨_, .last hoptions (dispatch_scan options 0 hrun)⟩

/-- There is a complete scan. -/
theorem exists_completeScan (hdb : w.ctx.dbIndex < w.store.databases.length)
    (hsize : (keysAfter w.store.databases[w.ctx.dbIndex] none).length ≤ usizeMax) :
    ∃ keys, CompleteScan env 0 w keys := by
  have hupper : upper env (asBytes "COUNT") = "COUNT" := by
    rw [upper, fromUtf8Lossy_asBytes, env.host.toUppercase_of_upper (by decide)]
  have hcount : argUsize (asBytes (toString usizeMax)) = some usizeMax := by
    rw [argUsize, fromUtf8Lossy_asBytes, parseUnsigned_toString le_rfl]
  have hoptions : Cmd.parseScanOpts env [asBytes "COUNT", asBytes (toString usizeMax)] (none, 10)
      = .ok (none, usizeMax) := by
    rw [Cmd.parseScanOpts, hupper, if_neg (by decide), if_pos rfl, hcount]
    rfl
  exact completeScan_of_count hdb hoptions hsize

/-! ### Agreement -/

variable (env w k) in
/-- The other six commands tell what `EXISTS` tells of a key, and `DBSIZE` counts these keys. -/
structure Agree : Prop where
  type : Exists env w k ↔ (dispatch env "TYPE" [k] w).1 ≠ .ok (.simpleString "none")
  ttl : Exists env w k ↔ (dispatch env "TTL" [k] w).1 ≠ .ok (.integer (-2))
  pttl : Exists env w k ↔ (dispatch env "PTTL" [k] w).1 ≠ .ok (.integer (-2))
  keys : Exists env w k ↔
    ∃ keys, (dispatch env "KEYS" [asBytes "*"] w).1 = .ok (bulks keys) ∧ k ∈ keys
  scan : ∀ keys, CompleteScan env 0 w keys → (Exists env w k ↔ k ∈ keys)
  del : Exists env w k ↔ (dispatch env "DEL" [k] w).1 = .ok (.integer 1)
  dbsize : ∃ keys : List Bytes, keys.Nodup ∧ (∀ k', k' ∈ keys ↔ Exists env w k') ∧
    (dispatch env "DBSIZE" [] w).1 = .ok (.count keys.length)

/-- **They agree on the keys that are there**, but for those that `KEYS *` passes over and those
with so much time left that `PTTL` counts below zero. They never agree on a key that is not
there. -/
theorem agree_iff (ht : Relation.ReflTransGen TableStep {} w.store.tables) :
    Agree env w k ↔ ∃ e, liveHere env w k = some e ∧ ¬StarLed k ∧
      ∀ at_, e.expireAt = some at_ → at_ - env.now ≠ 0xFFFFFFFFFFFFFFFE := by
  constructor
  · intro h
    obtain ⟨e, he⟩ := Option.isSome_iff_exists.mp (exists_iff.mp (h.ttl.mpr ttl_ne))
    have hdb : w.ctx.dbIndex < w.store.databases.length := by
      by_contra hge
      rw [liveHere_out (not_lt.mp hge)] at he
      cases he
    have hexists : Exists env w k := exists_iff.mpr (he ▸ rfl)
    refine ⟨e, he, ((keys_iff hdb).mp (h.keys.mp hexists)).2, fun at_ hat => ?_⟩
    refine (pttl_iff hdb).mp (h.pttl.mp hexists) at_ ?_
    rw [he]
    exact hat
  · rintro ⟨e, he, hstar, hleft⟩
    have hdb : w.ctx.dbIndex < w.store.databases.length := by
      by_contra hge
      rw [liveHere_out (not_lt.mp hge)] at he
      cases he
    have hlive : (liveHere env w k).isSome = true := he ▸ rfl
    have hexists : Exists env w k := exists_iff.mpr hlive
    constructor
    case type => exact iff_of_true hexists ((type_iff hdb).mpr hlive)
    case ttl => exact iff_of_true hexists ttl_ne
    case pttl =>
      refine iff_of_true hexists ((pttl_iff hdb).mpr fun at_ hat => hleft at_ ?_)
      rw [he] at hat
      exact hat
    case keys => exact iff_of_true hexists ((keys_iff hdb).mpr ⟨hlive, hstar⟩)
    case scan => exact fun keys hscan => exists_iff.trans (completeScan_iff ht hscan).symm
    case del =>
      refine iff_of_true hexists ((del_iff hdb).mpr ?_)
      exact Option.isSome_of_eq_some (Option.filter_eq_some_iff.mp he).1
    case dbsize =>
      refine ⟨_, Databases.nodup_live env.now w.store.databases[w.ctx.dbIndex],
        fun k' => (mem_live_iff hdb).trans exists_iff.symm, ?_⟩
      rw [dbsize_eq hdb, List.length_map]

end Replies

/-- On a key without an expiry they agree. -/
theorem agree_plain :
    let entry : Entry := { value := .string [118] }
    let w : Whole := { store := { databases := [(∅ : Db).insert [107] entry] }, ctx := {} }
    Agree (Moment.on ⟨0, 0, 0, 1⟩ Host.plain) w [107] := by
  intro entry w
  refine (agree_iff .refl).mpr ⟨entry, ?_, ?_, ?_⟩
  · rfl
  · rintro ⟨r, -, h⟩
    exact absurd (List.cons.inj h).1 (by decide)
  · exact fun at_ h => by cases h

/-- **A key that is not there**: `EXISTS` answers `0`, and `TTL` answers `-1`. -/
theorem disagree_absent :
    let env := Moment.on ⟨0, 0, 0, 1⟩ Host.plain
    let w : Whole := { store := Store.new 1, ctx := {} }
    (dispatch env "EXISTS" [[107]] w).1 = .ok (.integer 0) ∧
      (dispatch env "TTL" [[107]] w).1 = .ok (.integer (-1)) ∧ ¬Agree env w [107] := by
  intro env w
  have hexists : (dispatch env "EXISTS" [[107]] w).1 = .ok (.integer 0) := rfl
  have httl : (dispatch env "TTL" [[107]] w).1 = .ok (.integer (-1)) := rfl
  refine ⟨hexists, httl, fun h => ?_⟩
  have hone : (dispatch env "EXISTS" [[107]] w).1 = .ok (.integer 1) := h.ttl.mpr (by
    rw [httl]
    exact fun heq => absurd (RespValue.integer.inj (Except.ok.inj heq)) (by decide))
  rw [hexists] at hone
  exact absurd (RespValue.integer.inj (Except.ok.inj hone)) (by decide)

end VeloDB
