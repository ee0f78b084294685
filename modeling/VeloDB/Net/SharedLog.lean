import VeloDB.Net.Writes

/-!
# One log for many connections

Every connection has a database of its own selected, but all of them append to one file and push to
one stream, and neither says whose command it holds. Replaying a log starts in database 0 and
follows the `SELECT`s as they come, from whichever connection. A rewrite replaces the file by
commands that select the databases one after the other, and leaves the last one of them selected.

## Main results

* `inPlace_datasetHistory` — a rewritten log
* `log_determines_database` — every log along which the database of each write is the one that was
  selected last
-/

namespace VeloDB

open Rust

/-! ### Histories -/

/-- The commands of a log, each with the database in which it was executed. -/
abbrev History := List (List Bytes × ℕ)

/-- The commands of a history. -/
def History.commands (h : History) : List (List Bytes) := h.map Prod.fst

/-- A command that selects a database. -/
def IsSelect (H : Host) (c : List Bytes) : Prop :=
  H.toUppercase (fromUtf8Lossy (c.headD [])) = "SELECT"

/-- Every command but a `SELECT` was executed in the database that the commands before it select,
where `i` is selected at the beginning. -/
def InPlace (H : Host) : ℕ → History → Prop
  | _, [] => True
  | i, (c, d) :: h => (IsSelect H c ∨ i = d) ∧ InPlace H (selectedAfter H [c] i) h

variable {H : Host}

theorem inPlace_append {i : ℕ} {h h' : History} :
    InPlace H i (h ++ h') ↔ InPlace H i h ∧ InPlace H (selectedAfter H h.commands i) h' := by
  induction h generalizing i with
  | nil => exact ⟨fun hh => ⟨trivial, hh⟩, fun hh => hh.2⟩
  | cons p h ih =>
    obtain ⟨c, d⟩ := p
    have hselected : selectedAfter H (History.commands ((c, d) :: h)) i
        = selectedAfter H (History.commands h) (selectedAfter H [c] i) :=
      selectedAfter_append H [c] (History.commands h) i
    rw [List.cons_append, InPlace, InPlace, ih, and_assoc, hselected]

/-- The database that is selected when a command comes. -/
theorem InPlace.selected {i d : ℕ} {before after : History} {c : List Bytes}
    (h : InPlace H i (before ++ (c, d) :: after)) (hc : ¬IsSelect H c) :
    selectedAfter H before.commands i = d :=
  (inPlace_append.mp h).2.1.resolve_left hc

theorem selectedAfter_of_not_isSelect {c : List Bytes} (hc : ¬IsSelect H c) (i : ℕ) :
    selectedAfter H [c] i = i := by
  rw [selectedAfter, List.foldl_cons, List.foldl_nil, selectedBy]
  exact if_neg fun h => hc h.1

/-- Commands that do not select a database stay in the one they are in. -/
theorem inPlace_const {i : ℕ} {cmds : List (List Bytes)} (hcmds : ∀ c ∈ cmds, ¬IsSelect H c) :
    InPlace H i (cmds.map fun c => (c, i)) ∧ selectedAfter H cmds i = i := by
  induction cmds with
  | nil => exact ⟨trivial, rfl⟩
  | cons c cmds ih =>
    obtain ⟨hplace, hselected⟩ := ih fun c hc => hcmds c (List.mem_cons_of_mem _ hc)
    have hstay := selectedAfter_of_not_isSelect (hcmds c List.mem_cons_self) i
    constructor
    · rw [List.map_cons, InPlace, hstay]
      exact ⟨Or.inr rfl, hplace⟩
    · rw [← List.singleton_append, selectedAfter_append, hstay, hselected]

/-! ### A rewritten log -/

/-- The history of a rewritten log. -/
def datasetHistory (H : Host) (now : UInt64) (dbs : Databases) : History :=
  (List.range dbs.length).flatMap fun i => (commandsForDb H now dbs i).map fun c => (c, i)

theorem commands_datasetHistory (now : UInt64) (dbs : Databases) :
    (datasetHistory H now dbs).commands = datasetCommands H now dbs := by
  rw [History.commands, datasetHistory, List.map_flatMap, datasetCommands]
  refine List.flatMap_congr fun i _ => ?_
  rw [List.map_map]
  exact List.map_id _

/-- The names of the commands that build a value. -/
def buildingNames : List String :=
  ["SET", "RPUSH", "SADD", "HSET", "ZADD", "XADD", "NHSET", "PEXPIREAT"]

theorem head_commandsForEntry {p : Bytes × Entry} {c : List Bytes}
    (hc : c ∈ commandsForEntry H p) : ∃ name ∈ buildingNames, ∃ args, c = asBytes name :: args := by
  obtain ⟨key, value, expireAt, version⟩ := p
  rw [commandsForEntry, List.mem_append] at hc
  rcases hc with hc | hc
  · cases value with
    | string v =>
      exact ⟨"SET", by simp [buildingNames], _, List.mem_singleton.mp hc⟩
    | list l =>
      rw [commandsForValue] at hc
      split_ifs at hc
      · cases hc
      · exact ⟨"RPUSH", by simp [buildingNames], _, List.mem_singleton.mp hc⟩
    | set s =>
      rw [commandsForValue] at hc
      split_ifs at hc
      · cases hc
      · exact ⟨"SADD", by simp [buildingNames], _, List.mem_singleton.mp hc⟩
    | hash m =>
      rw [commandsForValue] at hc
      split_ifs at hc
      · cases hc
      · exact ⟨"HSET", by simp [buildingNames], _, List.mem_singleton.mp hc⟩
    | zset members scores =>
      rw [commandsForValue] at hc
      split_ifs at hc
      · cases hc
      · exact ⟨"ZADD", by simp [buildingNames], _, List.mem_singleton.mp hc⟩
    | stream entries ms seq =>
      obtain ⟨e, -, rfl⟩ := List.mem_map.mp hc
      exact ⟨"XADD", by simp [buildingNames], _, rfl⟩
    | nestedHash nh =>
      obtain ⟨q, -, hc⟩ := List.mem_flatMap.mp hc
      obtain ⟨r, -, rfl⟩ := List.mem_map.mp hc
      exact ⟨"NHSET", by simp [buildingNames], _, rfl⟩
  · cases expireAt with
    | none => cases hc
    | some at_ => exact ⟨"PEXPIREAT", by simp [buildingNames], _, List.mem_singleton.mp hc⟩

theorem toUppercase_building {name : String} (h : name ∈ buildingNames) :
    H.toUppercase (fromUtf8Lossy (asBytes name)) = name := by
  have hall : ∀ name ∈ buildingNames,
      name.toList.all (fun x => decide (x.toNat < 0x80) && x.toUpper == x) = true := by
    decide +kernel
  rw [fromUtf8Lossy_asBytes, H.toUppercase_of_upper (hall name h)]

theorem logged_commandsForEntry {p : Bytes × Entry} {c : List Bytes}
    (hc : c ∈ commandsForEntry H p) : Logged H c ∧ ¬IsSelect H c := by
  obtain ⟨name, hname, args, rfl⟩ := head_commandsForEntry hc
  have hall : ∀ name ∈ buildingNames, isWriteCommand name = true ∧ name ≠ "SELECT" := by decide
  have hupper : H.toUppercase (fromUtf8Lossy (asBytes name)) = name := toUppercase_building hname
  refine ⟨?_, ?_⟩
  · show isWriteCommand (H.toUppercase (fromUtf8Lossy (asBytes name))) = true
    rw [hupper]
    exact (hall name hname).1
  · show H.toUppercase (fromUtf8Lossy (asBytes name)) ≠ "SELECT"
    rw [hupper]
    exact (hall name hname).2

theorem isSelect_selectCommand (n : ℕ) : IsSelect H (selectCommand n) :=
  upper_name selectDef_mem (Moment.on ⟨0, 0, 0, 0⟩ H)

theorem selectedAfter_selectCommand {n : ℕ} (hn : n ≤ usizeMax) (i : ℕ) :
    selectedAfter H [selectCommand n] i = n := by
  have hselects : H.toUppercase (fromUtf8Lossy ((selectCommand n).headD [])) = "SELECT" :=
    isSelect_selectCommand n
  have hargs : selectDef.refuses (selectCommand n).tail = false := by
    exact refuses_of_length rfl (by norm_num [selectCommand])
  have hparse : (argUsize ((selectCommand n).tail.headD [])).getD 0 = n := by
    show (argUsize (asBytes (toString n))).getD 0 = n
    rw [argUsize, fromUtf8Lossy_asBytes, parseUnsigned_toString hn]
    rfl
  rw [selectedAfter, List.foldl_cons, List.foldl_nil, selectedBy, if_pos ⟨hselects, hargs⟩, hparse]

/-- What is written for one database. -/
theorem inPlace_commandsForDb {now : UInt64} {dbs : Databases} {n : ℕ} (hn : n ≤ usizeMax) {i : ℕ}
    (hi : 1 < dbs.length ∨ i = n) :
    InPlace H i ((commandsForDb H now dbs n).map fun c => (c, n)) := by
  rw [commandsForDb]
  split
  · trivial
  · next entries _ =>
    have hother : ∀ c ∈ entries.flatMap (commandsForEntry H), ¬IsSelect H c := by
      intro c hc
      obtain ⟨p, -, hc⟩ := List.mem_flatMap.mp hc
      exact (logged_commandsForEntry hc).2
    split_ifs with hnil hmany
    · trivial
    · have hrest := inPlace_const (i := n) hother
      have hselected : selectedAfter H [[asBytes "SELECT", asBytes (toString n)]] i = n :=
        selectedAfter_selectCommand hn i
      rw [List.singleton_append, List.map_cons, InPlace, hselected]
      exact ⟨Or.inl (isSelect_selectCommand n), hrest.1⟩
    · obtain rfl := hi.resolve_left hmany
      exact (inPlace_const hother).1

/-- **A rewritten log.** -/
theorem inPlace_datasetHistory (now : UInt64) {dbs : Databases} (hdbs : dbs.length ≤ usizeMax) :
    InPlace H 0 (datasetHistory H now dbs) := by
  rw [datasetHistory]
  by_cases hmany : 1 < dbs.length
  · have hall : ∀ (l : List ℕ) (i : ℕ), (∀ n ∈ l, n ≤ usizeMax) →
        InPlace H i (l.flatMap fun n => (commandsForDb H now dbs n).map fun c => (c, n)) := by
      intro l
      induction l with
      | nil => exact fun _ _ => trivial
      | cons n l ih =>
        intro i hl
        rw [List.flatMap_cons, inPlace_append]
        exact ⟨inPlace_commandsForDb (hl n List.mem_cons_self) (Or.inl hmany),
          ih _ fun n hn => hl n (List.mem_cons_of_mem _ hn)⟩
    exact hall _ 0 fun n hn => (List.mem_range.mp hn).le.trans hdbs
  · -- there is only database 0
    rcases Nat.lt_or_eq_of_le (Nat.le_of_not_lt hmany) with hnone | hone
    · rw [Nat.lt_one_iff.mp hnone]
      trivial
    · rw [hone, List.range_one, List.flatMap_singleton]
      exact inPlace_commandsForDb (Nat.zero_le _) (Or.inr rfl)

theorem logged_datasetCommands {now : UInt64} {dbs : Databases} {c : List Bytes}
    (hc : c ∈ datasetCommands H now dbs) : Logged H c := by
  obtain ⟨n, -, hc⟩ := List.mem_flatMap.mp hc
  rw [commandsForDb] at hc
  split at hc
  · cases hc
  · split_ifs at hc with hnil hmany
    · cases hc
    · rcases List.mem_append.mp hc with hc | hc
      · rw [List.mem_singleton.mp hc]
        exact logged_selectCommand H n
      · obtain ⟨p, -, hc⟩ := List.mem_flatMap.mp hc
        exact (logged_commandsForEntry hc).1
    · obtain ⟨p, -, hc⟩ := List.mem_flatMap.mp hc
      exact (logged_commandsForEntry hc).1

/-! ### The server -/

/-- What all connections share, the contexts of the connections, and, beside the file and the
stream, what they hold. -/
structure Server where
  store : Store
  ctx : ℕ → ClientContext
  aof : Bytes := []
  stream : Bytes := []
  logged : History := []
  pushed : History := []

namespace Server

/-- A history with a command that has been sent to it, if it has. -/
def record (h : History) (bytes : Bytes) (cmd : List Bytes) (db : ℕ) : History :=
  if bytes = [] then h else h ++ [(cmd, db)]

/-- One command of a connection, from the interception to the log. -/
def command (L : Listener) (env : Env) (s : Server) (j : ℕ) (name : Bytes) (args : List Bytes) :
    Server :=
  let r := serve L env name args { store := s.store, ctx := s.ctx j }
  let ctx := Function.update s.ctx j r.2.ctx
  match r.1 with
  | .error _ => { s with store := r.2.store, ctx }
  | .ok served => {
      store := r.2.store
      ctx
      aof := s.aof ++ served.logged
      stream := s.stream ++ served.pushed
      logged := record s.logged served.logged (name :: args) (s.ctx j).dbIndex
      pushed := record s.pushed served.pushed (name :: args) (s.ctx j).dbIndex }

/-- The end of `AofWriter::rewrite`. The databases are those that `write_dataset` has read, one
after the other and while other commands ran. -/
def rewrite (H : Host) (now : UInt64) (dbs : Databases) (s : Server) : Server :=
  { s with aof := writeDataset H now dbs, logged := datasetHistory H now dbs }

/-- The command is a write that is executed at once. -/
def Writes (ctx : ClientContext) (name : String) : Prop :=
  isWriteCommand name = true ∧ name ≠ "SELECT" ∧ ctx.authenticated = true ∧ ctx.multiMode = false

/-- A log has the database of a connection selected. -/
def Follows (H : Host) (h : History) (ctx : ClientContext) : Prop :=
  selectedAfter H h.commands 0 = ctx.dbIndex

/-- The states of a server, where a connection that writes finds its database selected in every log
that it writes to. What is not logged may happen at any time. -/
inductive Reached (H : Host) : Server → Prop
  | start (n : ℕ) (ctx : ℕ → ClientContext) : Reached H { store := Store.new n, ctx }
  | other {s : Server} (h : Reached H s) (store : Store) (ctx : ℕ → ClientContext) :
    Reached H { s with store, ctx }
  | command {s : Server} (h : Reached H s) (L : Listener) (m : Moment) (j : ℕ) (name : Bytes)
    (args : List Bytes) (hlog : Writes (s.ctx j) (H.toUppercase (fromUtf8Lossy name)) →
      (L.aofWriter = true → Follows H s.logged (s.ctx j)) ∧
      (L.replBacklog = true → Follows H s.pushed (s.ctx j))) :
    Reached H (s.command L (m.on H) j name args)
  | rewrite {s : Server} (h : Reached H s) (now : UInt64) {dbs : Databases}
    (hdbs : dbs.length ≤ usizeMax) : Reached H (s.rewrite H now dbs)

/-! ### What a connection sends -/

theorem not_exempt_of_isWriteCommand {name : String} (h : isWriteCommand name = true) :
    isAuthExempt name = false ∧ isTransactionCommand name = false := by
  have hall : ∀ name ∈ ["SET", "SETRANGE", "MSET", "INCR", "INCRBY", "DECR", "DECRBY", "APPEND",
      "GETSET", "LPUSH", "RPUSH", "LPOP", "RPOP", "LSET", "LTRIM", "LREM", "SADD", "SREM", "SPOP",
      "HSET", "HDEL", "HINCRBY", "ZADD", "ZREM", "XADD", "XDEL", "XTRIM", "NHSET", "NHDEL", "DEL",
      "RENAME", "RENAMENX", "EXPIRE", "EXPIREAT", "PEXPIRE", "PEXPIREAT", "PERSIST", "FLUSHDB",
      "FLUSHALL", "SELECT"], isAuthExempt name = false ∧ isTransactionCommand name = false := by
    decide +kernel
  exact hall name (of_decide_eq_true h)

/-- What was sent is nothing, or the command, which is then a write that was executed at once. -/
structure Sent (ctx : ClientContext) (name : String) (cmd : List Bytes) (sends : Bool)
    (bytes : Bytes) : Prop where
  cases : bytes = [] ∨ bytes = encodeCommandForAof cmd ∧ sends = true ∧ isWriteCommand name = true ∧
    ctx.authenticated = true ∧ ctx.multiMode = false

theorem sent_nil (ctx : ClientContext) (name : String) (cmd : List Bytes) (sends : Bool) :
    Sent ctx name cmd sends [] := ⟨Or.inl rfl⟩

theorem serve_sends {L : Listener} {env : Env} {name : Bytes} {args : List Bytes} {w w' : Whole}
    {served : Served} (h : serve L env name args w = (.ok served, w')) :
    Sent w.ctx (upper env name) (name :: args) L.aofWriter served.logged ∧
      Sent w.ctx (upper env name) (name :: args) L.replBacklog served.pushed := by
  have hnone := fun sends => sent_nil w.ctx (upper env name) (name :: args) sends
  rw [serve] at h
  split_ifs at h with hpsync hauth hhello hnoauth hqueue
  · obtain rfl := Except.ok.inj (Prod.mk.inj h).1
    exact ⟨hnone _, hnone _⟩
  · obtain rfl := Except.ok.inj (Prod.mk.inj h).1
    exact ⟨hnone _, hnone _⟩
  · obtain rfl := Except.ok.inj (Prod.mk.inj h).1
    exact ⟨hnone _, hnone _⟩
  · obtain rfl := Except.ok.inj (Prod.mk.inj h).1
    exact ⟨hnone _, hnone _⟩
  · obtain rfl := Except.ok.inj (Prod.mk.inj h).1
    exact ⟨hnone _, hnone _⟩
  · have hentry : served.logged = (logEntry L env name args).logged ∧
        served.pushed = (logEntry L env name args).pushed :=
      (serveDirect_ok h).imp_right And.left
    have hsent : ∀ sends, Sent w.ctx (upper env name) (name :: args) sends
        (if (sends && isWriteCommand (upper env name)) = true
          then encodeCommandForAof (name :: args) else []) := by
      intro sends
      split_ifs with hboth
      · rw [Bool.and_eq_true] at hboth
        obtain ⟨hexempt, htransaction⟩ := not_exempt_of_isWriteCommand hboth.2
        refine ⟨Or.inr ⟨rfl, hboth.1, hboth.2, ?_, ?_⟩⟩
        · simpa [hexempt] using hnoauth
        · simpa [htransaction] using hqueue
      · exact hnone sends
    rw [hentry.1, hentry.2]
    exact ⟨hsent L.aofWriter, hsent L.replBacklog⟩

/-! ### The invariant -/

/-- The bytes are those of the history, and its commands are in place. -/
structure Keeps (H : Host) (bytes : Bytes) (h : History) : Prop where
  bytes : bytes = encodeCommands h.commands
  logged : ∀ c ∈ h.commands, Logged H c
  inPlace : InPlace H 0 h

theorem keeps_nil (H : Host) : Keeps H [] [] :=
  ⟨rfl, fun _ hc => absurd hc List.not_mem_nil, trivial⟩

/-- One more command. -/
theorem Keeps.record {H : Host} {data : Bytes} {h : History} (hk : Keeps H data h)
    {ctx : ClientContext} {name : Bytes} {args : List Bytes} {sends : Bool} {sent : Bytes}
    (hsent : Sent ctx (H.toUppercase (fromUtf8Lossy name)) (name :: args) sends sent)
    (hfollows : Writes ctx (H.toUppercase (fromUtf8Lossy name)) → sends = true →
      Follows H h ctx) :
    Keeps H (data ++ sent) (record h sent (name :: args) ctx.dbIndex) := by
  rcases hsent.cases with rfl | ⟨rfl, hsends, hwrite, hauth, hmulti⟩
  · rw [List.append_nil, Server.record, if_pos rfl]
    exact hk
  · have hcommands : History.commands (h ++ [(name :: args, ctx.dbIndex)])
        = h.commands ++ [name :: args] := List.map_append
    rw [Server.record, if_neg (encodeCommandForAof_ne_nil _)]
    refine ⟨?_, ?_, ?_⟩
    · rw [hcommands, encodeCommands_append, hk.bytes]
      simp [encodeCommands]
    · rw [hcommands]
      intro c hc
      rcases List.mem_append.mp hc with hc | hc
      · exact hk.logged c hc
      · rw [List.mem_singleton.mp hc]
        exact hwrite
    · rw [inPlace_append]
      refine ⟨hk.inPlace, ?_, trivial⟩
      by_cases hselect : H.toUppercase (fromUtf8Lossy name) = "SELECT"
      · exact Or.inl hselect
      · exact Or.inr (hfollows ⟨hwrite, hselect, hauth, hmulti⟩ hsends)

/-- **Both logs, in every state that is reached.** -/
theorem Reached.keeps {H : Host} {s : Server} (h : Reached H s) :
    Keeps H s.aof s.logged ∧ Keeps H s.stream s.pushed := by
  induction h with
  | start n ctx => exact ⟨keeps_nil H, keeps_nil H⟩
  | other _ store ctx ih => exact ih
  | @command s _ L m j name args hlog ih =>
    rw [Server.command]
    rcases hr : serve L (m.on H) name args { store := s.store, ctx := s.ctx j } with ⟨e | served, w'⟩
    · exact ih
    · obtain ⟨hlogged, hpushed⟩ := serve_sends hr
      exact ⟨ih.1.record hlogged fun hw => (hlog hw).1, ih.2.record hpushed fun hw => (hlog hw).2⟩
  | @rewrite s _ now dbs hdbs ih =>
    refine ⟨⟨?_, ?_, inPlace_datasetHistory now hdbs⟩, ih.2⟩
    · rw [Server.rewrite, commands_datasetHistory]
      rfl
    · rw [Server.rewrite, commands_datasetHistory]
      exact fun c hc => logged_datasetCommands hc

end Server

/-- Replaying a log from a fresh context runs its commands, and each of them but the `SELECT`s in
the database in which it was executed. -/
structure ReplaysInPlace (H : Host) (data : Bytes) (h : History) : Prop where
  run : ∀ clock, replayAof H clock data = runCommands H clock 0 h.commands
  place : ∀ before c d after, h = before ++ (c, d) :: after → ¬IsSelect H c → ∀ clock store,
    Returns H clock 0 (History.commands before) { store, ctx := {} } →
      (runCommands H clock 0 (History.commands before) { store, ctx := {} }).2.ctx.dbIndex = d

theorem Server.Keeps.replays {data : Bytes} {h : History} (hk : Server.Keeps H data h)
    (hlen : data.length < 2 ^ 63) : ReplaysInPlace H data h where
  run := fun clock => by
    have hne : ∀ c ∈ h.commands, c ≠ [] := by
      rintro c hc rfl
      exact hk.logged [] hc
    rw [hk.bytes] at hlen ⊢
    exact replay_encoded hne hlen
  place := by
    intro before c d after heq hselect clock store hret
    have hcommands : ∀ c ∈ History.commands before, Logged H c := by
      intro c' hc
      refine hk.logged c' ?_
      rw [heq, History.commands, List.map_append]
      exact List.mem_append_left _ hc
    have hplace := hk.inPlace
    rw [heq] at hplace
    rw [ctx_runCommands hcommands hret]
    exact hplace.selected hselect

/-- **The log determines the database**, as long as a connection that writes finds its database
selected in the log; and so does the stream. -/
theorem log_determines_database {s : Server} (h : Server.Reached H s) (haof : s.aof.length < 2 ^ 63)
    (hstream : s.stream.length < 2 ^ 63) :
    ReplaysInPlace H s.aof s.logged ∧ ReplaysInPlace H s.stream s.pushed :=
  ⟨h.keeps.1.replays haof, h.keeps.2.replays hstream⟩

/-- A server with two databases and a log. -/
def Server.fresh : Server := { store := Store.new 2, ctx := fun _ => {} }

/-- A command of a connection to `Server.fresh`. -/
def Server.run (s : Server) (j : ℕ) (cmd : List Bytes) : Server :=
  s.command (Listener.plain none true) (Moment.on ⟨0, 0, 0, 0⟩ Host.plain) j (cmd.headD []) cmd.tail

theorem Server.Reached.run {s : Server} (h : Reached Host.plain s) (j : ℕ) (cmd : List Bytes)
    (hlog : ¬IsSelect Host.plain cmd →
      Follows Host.plain s.logged (s.ctx j) ∧ Follows Host.plain s.pushed (s.ctx j)) :
    Reached Host.plain (s.run j cmd) :=
  .command h _ _ _ _ _ fun hw => ⟨fun _ => (hlog hw.2.1).1, fun _ => (hlog hw.2.1).2⟩

/-- One connection selects database 1 and writes. -/
theorem log_determines_database_one :
    let s := (Server.fresh.run 0 (selectCommand 1)).run 0 (setCommand [97] [98])
    ReplaysInPlace Host.plain s.aof s.logged ∧ ReplaysInPlace Host.plain s.stream s.pushed := by
  intro s
  have hfirst : Server.Reached Host.plain (Server.fresh.run 0 (selectCommand 1)) :=
    (Server.Reached.start 2 _).run 0 _ fun h => absurd (isSelect_selectCommand 1) h
  have hreached : Server.Reached Host.plain s := by
    refine hfirst.run 0 _ fun _ => ?_
    rw [Server.Follows, Server.Follows]
    decide +kernel
  exact log_determines_database hreached (by decide +kernel) (by decide +kernel)

/-- One connection selects database 1, another one writes in its database 0: the replay writes in
database 1. -/
theorem log_mixes_databases :
    let s := (Server.fresh.run 1 (selectCommand 1)).run 0 (setCommand [97] [98])
    let replayed := (replayAof Host.plain (fun _ => ⟨0, 0, 0, 0⟩) s.aof ⟨Store.new 2, {}⟩).2.store
    (s.store.databases.find 0 [97]).isSome = true ∧
      (s.store.databases.find 1 [97]).isSome = false ∧
      (replayed.databases.find 0 [97]).isSome = false ∧
      (replayed.databases.find 1 [97]).isSome = true ∧
      ¬ReplaysInPlace Host.plain s.aof s.logged ∧ ¬ReplaysInPlace Host.plain s.stream s.pushed := by
  intro s replayed
  let before : History := [(selectCommand 1, 0)]
  have hreturns : Returns Host.plain (fun _ => ⟨0, 0, 0, 0⟩) 0 before.commands
      ⟨Store.new 2, {}⟩ := by
    rw [Returns]
    decide +kernel
  have hplace : (runCommands Host.plain (fun _ => ⟨0, 0, 0, 0⟩) 0 before.commands
      ⟨Store.new 2, {}⟩).2.ctx.dbIndex = 1 := by
    decide +kernel
  have hnot : ∀ data, ¬ReplaysInPlace Host.plain data (before ++ [(setCommand [97] [98], 0)]) := by
    intro data h
    have hselect : ¬IsSelect Host.plain (setCommand [97] [98]) := by
      rw [IsSelect]
      decide +kernel
    have hzero := h.place before _ 0 [] rfl hselect _ _ hreturns
    rw [hplace] at hzero
    cases hzero
  have hlogged : s.logged = before ++ [(setCommand [97] [98], 0)] := by decide +kernel
  have hpushed : s.pushed = before ++ [(setCommand [97] [98], 0)] := by decide +kernel
  rw [hlogged, hpushed]
  exact ⟨by decide +kernel, by decide +kernel, by decide +kernel, by decide +kernel,
    hnot _, hnot _⟩

end VeloDB
