import VeloDB.Cmd.Streams

/-!
# The commands that are not about values

Server information, publish and subscribe, transactions (without `EXEC`, which runs other commands),
stored scripts and the cluster commands, whose cluster is always a single node that owns every slot.
-/

namespace VeloDB

open Rust

/-! ### Publish and subscribe -/

namespace PubSubRegistry

/-- The receiver of a mailbox is dropped. -/
def dropMailbox (rx : Option ℕ) (r : PubSubRegistry) : PubSubRegistry :=
  match rx with
  | some id => { r with mailboxes := r.mailboxes.erase id }
  | none => r

/-- `unbounded_channel`. -/
def openMailbox (r : PubSubRegistry) : ℕ × PubSubRegistry :=
  (r.nextMailbox, { r with
    mailboxes := r.mailboxes.insert r.nextMailbox []
    nextMailbox := r.nextMailbox + 1 })

/-- `tx.send`: it fails when the receiver is gone. -/
def send (r : PubSubRegistry) (id : ℕ) (msg : Bytes × Bytes) : Option PubSubRegistry :=
  (r.mailboxes.lookup id).map fun queue =>
    { r with mailboxes := r.mailboxes.insert id (queue ++ [msg]) }

/-- `subscribe_channel`. -/
def subscribeChannel (r : PubSubRegistry) (channel : Bytes) (tx : ℕ) : PubSubRegistry :=
  { r with channels := r.channels.insert channel ((r.channels.lookup channel).getD [] ++ [tx]) }

/-- `subscribe_pattern`. -/
def subscribePattern (r : PubSubRegistry) (pattern : String) (tx : ℕ) : PubSubRegistry :=
  { r with patterns := r.patterns.insert pattern ((r.patterns.lookup pattern).getD [] ++ [tx]) }

/-- `publish_channel`: send to every subscriber and forget those that are gone. -/
def publishChannel (r : PubSubRegistry) (channel message : Bytes) : ℕ × PubSubRegistry :=
  match r.channels.lookup channel with
  | some senders =>
    let alive := senders.filter fun tx => (r.mailboxes.lookup tx).isSome
    let r' := senders.foldl (fun r tx => (r.send tx (channel, message)).getD r) r
    (alive.length, if alive.length < senders.length
      then { r' with channels := r'.channels.insert channel alive } else r')
  | none => (0, r)

/-- `publish_patterns`: subscribers that are gone count, too. -/
def publishPatterns (r : PubSubRegistry) (channel message : Bytes) : ℕ × PubSubRegistry :=
  let senders := (r.patterns.pairs.filter fun p => simpleMatch (fromUtf8Lossy channel) p.1).flatMap
    Prod.snd
  (senders.length, senders.foldl (fun r tx => (r.send tx (channel, message)).getD r) r)

/-- `publish_all`. -/
def publishAll (r : PubSubRegistry) (channel message : Bytes) : ℕ × PubSubRegistry :=
  let c := r.publishChannel channel message
  let p := c.2.publishPatterns channel message
  (c.1 + p.1, p.2)

end PubSubRegistry

namespace Cmd

/-- Change the registry of subscribers. -/
def modifyPubSub (f : PubSubRegistry → PubSubRegistry) : SideM Unit :=
  Proc.modify fun s => { s with
    tables := { s.tables with pubsubRegistry := f s.tables.pubsubRegistry } }

/-- Change the context. -/
def modifyCtx (f : ClientContext → ClientContext) : SideM Unit :=
  Proc.modify fun s => { s with ctx := f s.ctx }

/-- `ctx.pubsub_rx = rx`: the receiver that was there is dropped. -/
def setReceiver (rx : Option ℕ) : SideM Unit := do
  let s ← Proc.get
  modifyPubSub (PubSubRegistry.dropMailbox s.ctx.pubsubRx)
  modifyCtx fun c => { c with pubsubRx := rx }

/-- A new receiver, registered with `register`. -/
def newReceiver (register : PubSubRegistry → ℕ → PubSubRegistry) : SideM Unit := do
  let s ← Proc.get
  let r := s.tables.pubsubRegistry.openMailbox
  modifyPubSub fun _ => register r.2 r.1
  setReceiver (some r.1)

/-- One line of a subscription reply. -/
def subLine (kind : String) (name : Bytes) (n : ℕ) : List RespValue :=
  [.bulk (asBytes kind), .bulk name, .count n]

/-- `subscribe`. -/
def subscribe (_ : Env) (_ : Databases) (args : List Bytes) : SideM RespValue := do
  if args = [] then pure .ok
  else
    let result ← Proc.foldEach args [] fun acc ch => do
      modifyCtx fun c => { c with subscribedChannels := c.subscribedChannels ++ [ch] }
      newReceiver fun r tx => r.subscribeChannel ch tx
      let s ← Proc.get
      pure (acc ++ subLine "subscribe" ch s.ctx.subscribedChannels.length)
    modifyCtx fun c => { c with subMode := true }
    pure (.array (some result))

/-- Leave subscribe mode when nothing is subscribed any more. -/
def leaveSubMode : SideM Unit := do
  let s ← Proc.get
  if s.ctx.subscribedChannels = [] ∧ s.ctx.subscribedPatterns = [] then
    modifyCtx fun c => { c with subMode := false }
    setReceiver none

/-- `unsubscribe`. -/
def unsubscribe (_ : Env) (_ : Databases) (args : List Bytes) : SideM RespValue := do
  let result ← if args = [] then do
      modifyCtx fun c => { c with subscribedChannels := [] }
      setReceiver none
      pure (subLine "unsubscribe" [] 0)
    else Proc.foldEach args [] fun acc ch => do
      modifyCtx fun c => { c with subscribedChannels := c.subscribedChannels.filter (· ≠ ch) }
      let s ← Proc.get
      pure (acc ++ subLine "unsubscribe" ch s.ctx.subscribedChannels.length)
  leaveSubMode
  pure (.array (some result))

/-- `psubscribe`. -/
def psubscribe (_ : Env) (_ : Databases) (args : List Bytes) : SideM RespValue := do
  if args = [] then pure .ok
  else
    let result ← Proc.foldEach args [] fun acc p => do
      modifyCtx fun c => { c with
        subscribedPatterns := c.subscribedPatterns ++ [fromUtf8Lossy p] }
      newReceiver fun r tx => r.subscribePattern (fromUtf8Lossy p) tx
      let s ← Proc.get
      pure (acc ++ subLine "psubscribe" p s.ctx.subscribedPatterns.length)
    modifyCtx fun c => { c with subMode := true }
    pure (.array (some result))

/-- `punsubscribe`. -/
def punsubscribe (_ : Env) (_ : Databases) (args : List Bytes) : SideM RespValue := do
  if args = [] then
    modifyCtx fun c => { c with subscribedPatterns := [] }
    setReceiver none
  else
    modifyCtx fun c => { c with
      subscribedPatterns := c.subscribedPatterns.filter (· ∉ args.map fromUtf8Lossy) }
  leaveSubMode
  pure (.array (some (subLine "punsubscribe" [] 0)))

/-- `publish`. -/
def publish (_ : Env) (_ : Databases) (args : List Bytes) : SideM RespValue := do
  let channel ← lift (arg args 0)
  let message ← lift (arg args 1)
  let s ← Proc.get
  let r := s.tables.pubsubRegistry.publishAll channel message
  modifyPubSub fun _ => r.2
  pure (.count r.1)

/-- `pubsub::COMMANDS`. -/
def pubsubCommands : List CommandDef := [
  ⟨"SUBSCRIBE", -2, .side subscribe⟩,
  ⟨"UNSUBSCRIBE", -1, .side unsubscribe⟩,
  ⟨"PSUBSCRIBE", -2, .side psubscribe⟩,
  ⟨"PUNSUBSCRIBE", -1, .side punsubscribe⟩,
  ⟨"PUBLISH", 3, .side publish⟩]

/-! ### Transactions -/

/-- `multi`. -/
def multi (_ : Env) (_ : Databases) (_ : List Bytes) : SideM RespValue := do
  modifyCtx fun c => { c with multiMode := true, multiQueue := [] }
  pure .ok

/-- `discard`. -/
def discard (_ : Env) (_ : Databases) (_ : List Bytes) : SideM RespValue := do
  modifyCtx fun c => { c with
    multiMode := false, multiQueue := [], watchedKeys := [], watchedVersions := [] }
  pure .ok

/-- The version `watch` and `exec` see; a database that is not there has none. -/
def versionOf (now : UInt64) (dbs : Databases) (i : ℕ) (key : Bytes) : Option ℕ :=
  match dbs.getVersion now i key with
  | .ok v => some v
  | .error _ => none

/-- `watch`. -/
def watch (env : Env) (dbs : Databases) (args : List Bytes) : SideM RespValue := do
  modifyCtx fun c => if c.multiMode then c else { c with
    watchedKeys := c.watchedKeys ++ args
    watchedVersions := c.watchedVersions ++
      args.map fun key => (versionOf env.now dbs c.dbIndex key).getD 0 }
  pure .ok

/-- `unwatch`. -/
def unwatch (_ : Env) (_ : Databases) (_ : List Bytes) : SideM RespValue := do
  modifyCtx fun c => { c with watchedKeys := [], watchedVersions := [] }
  pure .ok

/-- `transaction::COMMANDS`. -/
def transactionCommands : List CommandDef := [
  ⟨"MULTI", 1, .side multi⟩,
  ⟨"EXEC", 1, .exec⟩,
  ⟨"DISCARD", 1, .side discard⟩,
  ⟨"WATCH", -2, .side watch⟩,
  ⟨"UNWATCH", 1, .side unwatch⟩]

/-! ### Server -/

/-- `ping`. -/
def ping (_ : Env) (_ : Databases) (_ : ℕ) : List Bytes → Reply
  | [] => pure .pong
  | a :: _ => pure (.bulk a)

/-- `echo`. -/
def echo (_ : Env) (_ : Databases) (_ : ℕ) (args : List Bytes) : Reply := do
  pure (.bulk (← arg args 0))

/-- `command`. -/
def command (_ : Env) (_ : Databases) (_ : ℕ) (_ : List Bytes) : Reply := pure .ok

/-- `select`. Any number is accepted, and what is not a number selects database 0. -/
def select (_ : Env) (_ : Databases) (args : List Bytes) : SideM RespValue := do
  let n := (argUsize (← lift (arg args 0))).getD 0
  modifyCtx fun c => { c with dbIndex := n }
  pure .ok

/-- The loop of `info` over the databases. -/
def infoLines (env : Env) : List ℕ → KeyM String
  | [] => pure ""
  | i :: rest => do
    let keys ← Keyspace.dbsize env.now i
    let expires ← Keyspace.read fun dbs => dbs.expiresCount env.now i
    let lines ← infoLines env rest
    pure ((if 0 < keys then
      "db" ++ toString i ++ ":keys=" ++ toString keys ++ ",expires=" ++ toString expires ++ "\r\n"
      else "") ++ lines)

/-- `info`. -/
def info (env : Env) (_ : ℕ) (_ : List Bytes) : KeyM RespValue := do
  let n ← Keyspace.read fun dbs => .ok dbs.length
  let lines ← infoLines env (List.range n)
  pure (.bulk (asBytes ("# Server\r\nvelodb_version:0.3.0\r\nuptime_in_seconds:" ++
    toString env.uptime ++ "\r\nos:Windows\r\n\r\n# Keyspace\r\n" ++ lines)))

/-- Texts as an array of bulk strings. -/
def texts (l : List String) : RespValue := bulks (l.map asBytes)

/-- `config_cmd`. -/
def configCmd (env : Env) (_ : Databases) (_ : ℕ) : List Bytes → Reply
  | [] => pure .ok
  | sub :: _ =>
    let sub := upper env sub
    if sub = "GET" then pure (texts ["port", "6379", "databases", "16"])
    else if sub = "SET" ∨ sub = "REWRITE" then pure .ok
    else .error (.error .syntaxError)

/-- `acl_cmd`. -/
def aclCmd (env : Env) (_ : Databases) (_ : ℕ) : List Bytes → Reply
  | [] => .error (.error .syntaxError)
  | sub :: rest =>
    let sub := upper env sub
    if sub = "WHOAMI" then pure (.bulk (asBytes "default"))
    else if sub = "LIST" then
      pure (texts ["user default on nopass sanitize-payload ~* &* +@all"])
    else if sub = "USERS" then pure (texts ["default"])
    else if sub = "CAT" then
      pure (texts ["keyspace", "read", "write", "admin", "pubsub", "scripting", "connection",
        "transaction", "fast", "slow"])
    else if sub = "GETUSER" then
      if rest.head? = some (asBytes "default") then
        let bulk := fun s => RespValue.bulk (asBytes s)
        pure (.array (some [bulk "flags", texts ["on", "nopass"], bulk "passwords", .array (some []),
          bulk "commands", bulk "+@all", bulk "keys", bulk "~*", bulk "channels", bulk "&*"]))
      else pure .nil
    else .error (.error .syntaxError)

/-- `server::COMMANDS`. -/
def serverCommands : List CommandDef := [
  ⟨"PING", -1, .read ping⟩,
  ⟨"ECHO", 2, .read echo⟩,
  ⟨"COMMAND", -1, .read command⟩,
  ⟨"SELECT", 2, .side select⟩,
  ⟨"INFO", -1, .write info⟩,
  ⟨"CONFIG", -2, .read configCmd⟩,
  ⟨"ACL", -2, .read aclCmd⟩]

/-! ### Scripts -/

/-- Somebody reads an entry in the shard of the digest. -/
def lockedShard (H : Host) (scripts : ScriptMap) (sha : String) : Bool :=
  scripts.readers.any fun r => H.scriptShard r == H.scriptShard sha

/-- What `lua_scripts.clear()` has thrown out when it comes to the first shard that is locked: it
goes from one shard to the next. -/
def clearUnlocked (H : Host) (scripts : ScriptMap) : ScriptMap := { scripts with
  entries := (scripts.entries.keys.filter fun sha =>
    scripts.readers.all fun r => H.scriptShard sha < H.scriptShard r).foldl
      (fun entries sha => entries.erase sha) scripts.entries }

/-- Change the scripts. -/
def modifyScripts (f : ScriptMap → ScriptMap) : SideM Unit :=
  Proc.modify fun s => { s with tables := { s.tables with luaScripts := f s.tables.luaScripts } }

/-- `script_cmd`. Whoever writes waits until the shard is not locked any more. The readers are the
`EVALSHA`s that the command is called from, so that they wait for it in turn. -/
def scriptCmd (env : Env) (_ : Databases) (args : List Bytes) : SideM RespValue := do
  let s ← Proc.get
  match args with
  | [] => Proc.fail (.error (.wrongNumberOfArgs "SCRIPT"))
  | sub :: rest =>
    let sub := upper env sub
    if sub = "LOAD" then
      match rest with
      | [] => Proc.fail (.error (.wrongNumberOfArgs "SCRIPT LOAD"))
      | script :: _ =>
        let script := fromUtf8Lossy script
        let sha := env.host.sha1Hex script
        if lockedShard env.host s.tables.luaScripts sha then Proc.fail .hang
        else
          modifyScripts fun scripts => { scripts with entries := scripts.entries.insert sha script }
          pure (.bulk (asBytes sha))
    else if sub = "EXISTS" then
      pure (.array (some (rest.map fun a =>
        flag (s.tables.luaScripts.entries.lookup (fromUtf8Lossy a)).isSome)))
    else if sub = "FLUSH" then
      if s.tables.luaScripts.readers = [] then
        modifyScripts fun scripts => { scripts with entries := ∅ }
        pure .ok
      else
        modifyScripts (clearUnlocked env.host)
        Proc.fail .hang
    else Proc.fail (.error .syntaxError)

/-- `lua::COMMANDS`. -/
def luaCommands : List CommandDef := [
  ⟨"EVAL", -3, .eval⟩,
  ⟨"EVALSHA", -3, .evalsha⟩,
  ⟨"SCRIPT", -2, .side scriptCmd⟩]

/-! ### Cluster -/

/-- `SLOT_COUNT`. -/
def slotCount : ℕ := 16384

/-- `extract_hashtag`. -/
def extractHashtag (key : Bytes) : Bytes :=
  if 123 ∈ key then
    let inner := (key.dropWhile (· != 123)).drop 1
    if 125 ∈ inner then
      let tag := inner.takeWhile (· != 125)
      if tag = [] then key else tag
    else key
  else key

/-- `slot_for_key`. -/
def slotForKey (H : Host) (key : Bytes) : ℕ := (H.crc16 (extractHashtag key)).toNat % slotCount

/-- `cluster_cmd`. The node owns every slot from 0 to `SLOT_COUNT - 1`. -/
def clusterCmd (env : Env) (_ : Databases) (_ : ℕ) : List Bytes → Reply
  | [] => .error (.error (.wrongNumberOfArgs "CLUSTER"))
  | sub :: rest =>
    let sub := upper env sub
    if sub = "SLOTS" then
      pure (.array (some [.array (some [.count 0, .count (slotCount - 1),
        .array (some [.bulk (asBytes "127.0.0.1"), .count 16379])])]))
    else if sub = "NODES" then
      pure (.bulk (asBytes ("node-unknown 127.0.0.1:6379@16379 master - 0 0 0 connected 0-" ++
        toString (slotCount - 1) ++ "\n")))
    else if sub = "INFO" then
      pure (.bulk (asBytes ("cluster_state:ok\r\ncluster_slots_assigned:16384\r\n" ++
        "cluster_slots_ok:16384\r\ncluster_known_nodes:1\r\ncluster_size:1\r\n" ++
        "cluster_current_epoch:0\r\n")))
    else if sub = "MYID" then pure (.bulk (asBytes "node-unknown"))
    else if sub = "KEYSLOT" then
      match rest with
      | [] => .error (.error (.wrongNumberOfArgs "CLUSTER KEYSLOT"))
      | key :: _ => pure (.count (slotForKey env.host key))
    else if sub ∈ ["MEET", "RESET", "FORGET", "REPLICATE", "SETSLOT", "SAVECONFIG"] then pure .ok
    else if sub = "GETKEYSINSLOT" then pure (.array (some []))
    else if sub = "COUNTKEYSINSLOT" then pure (.integer 0)
    else .error (.error (.unknownCommand (env.host.toUppercase ("CLUSTER " ++ sub))))

/-- `cluster::COMMANDS`. -/
def clusterCommands : List CommandDef := [⟨"CLUSTER", -2, .read clusterCmd⟩]

end Cmd

end VeloDB
