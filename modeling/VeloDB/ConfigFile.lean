import VeloDB.Config
import VeloDB.Net.Connection
import VeloDB.Persist.AofRewrite
import VeloDB.Replication.Replica

/-!
# The configuration file

The file is read line by line into a record that starts with the defaults. What it means can be said
without the order of the loop: for each name, take the values that the file gives it, and of those
that can be read the last one; `save` takes all of them. A number that cannot be read is an error,
wherever it stands and whatever comes after it, except for `repl-backlog-size`, which then stays as
it was.

The other way round, not every configuration has a file. No line sets the number of threads or
anything of the cluster; an empty password is no password; and a text is cut out of a line and out
of its quotation marks, so that it has no newline and neither starts nor ends with a quotation mark.
Everything else can be written.

## Main results

* `parseRedisConfig_eq_some_iff` — what a file means
* `exists_file_iff` — the configurations that a file gives
-/

namespace VeloDB

open Rust

/-! ### Reading -/

/-- `str::lines`. A carriage return belongs to a newline behind it, and otherwise to the line. -/
def lines (s : String) : List String :=
  let ls := split '\n' s
  ls.dropLast.map (fun l => (stripSuffix "\r" l).getD l) ++ ls.getLast?.toList.filter (· ≠ "")

/-- `str::trim_matches` of a character. -/
def trimMatches (c : Char) (s : String) : String :=
  String.ofList ((s.toList.dropWhile (· == c)).rdropWhile (· == c))

/-- `ServerConfig`. -/
structure ServerConfig where
  port : UInt16
  bindAddress : String
  timeout : UInt64
  tcpKeepalive : UInt64
  databases : ℕ
  maxmemory : UInt64
  maxmemoryPolicy : String
  loglevel : String
  dbfilename : String
  dir : String
  appendonly : Bool
  appendfsync : String
  save : List (UInt64 × UInt64)
  replicaof : Option String
  masterauth : Option String
  replBacklogSize : ℕ
  cthreads : ℕ
  clusterEnabled : Bool
  clusterPort : UInt16
  clusterNodeTimeout : UInt64
  clusterConfigFile : String
  requirepass : Option String
  tlsPort : UInt16
  tlsCertFile : Option String
  tlsKeyFile : Option String
  deriving DecidableEq

/-- `ServerConfig::default`, on a machine with some number of processors. -/
def ServerConfig.default (cpus : ℕ) : ServerConfig where
  port := 6379
  bindAddress := "127.0.0.1"
  timeout := 0
  tcpKeepalive := 300
  databases := 16
  maxmemory := 0
  maxmemoryPolicy := "noeviction"
  loglevel := "notice"
  dbfilename := "dump.rdb"
  dir := "./"
  appendonly := false
  appendfsync := "everysec"
  save := []
  replicaof := none
  masterauth := none
  replBacklogSize := 1048576
  cthreads := cpus
  clusterEnabled := false
  clusterPort := 16379
  clusterNodeTimeout := 15000
  clusterConfigFile := "nodes.conf"
  requirepass := none
  tlsPort := 0
  tlsCertFile := none
  tlsKeyFile := none

/-- `parse::<u16>`. -/
def parseU16 (s : String) : Option UInt16 := (parseUnsigned (2 ^ 16 - 1) s).map UInt16.ofNat

/-- `parse::<usize>`. -/
def parseUsize : String → Option ℕ := parseUnsigned usizeMax

/-- The value of a `save` line. -/
def parseSave (value : String) : Option (UInt64 × UInt64) :=
  match splitOnce ' ' value with
  | (secs, some changes) => do pure (← parseU64 secs, ← parseU64 changes)
  | (_, none) => none

section Parse

variable (H : Host)

/-- What a line sets: a name in lower case and a value without quotation marks around it. -/
def setting (line : String) : Option (String × String) :=
  let line := trim line
  if line = "" ∨ line.toList.head? = some '#' then none
  else
    match splitOnce ' ' line with
    | (key, some value) => some (H.toLowercase key, trimMatches '"' (trim value))
    | (_, none) => none

/-- The `match` of `parse_redis_config`. -/
def ServerConfig.set (config : ServerConfig) (key value : String) : Option ServerConfig :=
  match key with
  | "port" => (parseU16 value).map fun n => { config with port := n }
  | "bind" => some { config with bindAddress := value }
  | "timeout" => (parseU64 value).map fun n => { config with timeout := n }
  | "tcp-keepalive" => (parseU64 value).map fun n => { config with tcpKeepalive := n }
  | "databases" => (parseUsize value).map fun n => { config with databases := n }
  | "maxmemory" => (parseMemorySize H value).map fun n => { config with maxmemory := n }
  | "maxmemory-policy" => some { config with maxmemoryPolicy := value }
  | "loglevel" => some { config with loglevel := value }
  | "dbfilename" => some { config with dbfilename := value }
  | "dir" => some { config with dir := value }
  | "appendonly" => some { config with
      appendonly := eqIgnoreAsciiCase (asBytes value) (asBytes "yes") }
  | "appendfsync" => some { config with appendfsync := value }
  | "save" => some { config with save := config.save ++ (parseSave value).toList }
  | "replicaof" => some { config with replicaof := some value }
  | "masterauth" => some { config with masterauth := some value }
  | "repl-backlog-size" => some { config with
      replBacklogSize := (parseUsize value).getD config.replBacklogSize }
  | "requirepass" => some { config with
      requirepass := if value = "" then none else some value }
  | "tls-port" => (parseU16 value).map fun n => { config with tlsPort := n }
  | "tls-cert-file" => some { config with tlsCertFile := some value }
  | "tls-key-file" => some { config with tlsKeyFile := some value }
  | _ => some config

/-- `parse_redis_config`. A number that cannot be read is an error. -/
def parseRedisConfig (cpus : ℕ) (content : String) : Option ServerConfig :=
  (lines content).foldlM (fun config line =>
    match setting H line with
    | some (key, value) => config.set H key value
    | none => some config) (ServerConfig.default cpus)

/-- `load`, where a file is there or not. -/
def load (cpus : ℕ) (file : Option String) : Option ServerConfig :=
  match file with
  | some content => parseRedisConfig H cpus content
  | none => some (ServerConfig.default cpus)

/-! ### What a file means -/

/-- What the lines of a file set. -/
def settings (content : String) : List (String × String) := (lines content).filterMap (setting H)

end Parse

/-- The values of a name. -/
def valuesOf (name : String) (ss : List (String × String)) : List String :=
  (ss.filter fun s => s.1 = name).map Prod.snd

/-- The last value of a name that can be read. -/
def latest {α : Type} (parse : String → Option α) (name : String) (d : α)
    (ss : List (String × String)) : α :=
  ((valuesOf name ss).filterMap parse).getLast?.getD d

/-- **The configuration that settings describe.** Every field depends on the values of one name. -/
def configured (H : Host) (cpus : ℕ) (ss : List (String × String)) : ServerConfig where
  port := latest parseU16 "port" 6379 ss
  bindAddress := latest some "bind" "127.0.0.1" ss
  timeout := latest parseU64 "timeout" 0 ss
  tcpKeepalive := latest parseU64 "tcp-keepalive" 300 ss
  databases := latest parseUsize "databases" 16 ss
  maxmemory := latest (parseMemorySize H) "maxmemory" 0 ss
  maxmemoryPolicy := latest some "maxmemory-policy" "noeviction" ss
  loglevel := latest some "loglevel" "notice" ss
  dbfilename := latest some "dbfilename" "dump.rdb" ss
  dir := latest some "dir" "./" ss
  appendonly := latest (fun v => some (eqIgnoreAsciiCase (asBytes v) (asBytes "yes"))) "appendonly"
    false ss
  appendfsync := latest some "appendfsync" "everysec" ss
  save := (valuesOf "save" ss).filterMap parseSave
  replicaof := latest (fun v => some (some v)) "replicaof" none ss
  masterauth := latest (fun v => some (some v)) "masterauth" none ss
  replBacklogSize := latest parseUsize "repl-backlog-size" 1048576 ss
  cthreads := cpus
  clusterEnabled := false
  clusterPort := 16379
  clusterNodeTimeout := 15000
  clusterConfigFile := "nodes.conf"
  requirepass := latest (fun v => some (if v = "" then none else some v)) "requirepass" none ss
  tlsPort := latest parseU16 "tls-port" 0 ss
  tlsCertFile := latest (fun v => some (some v)) "tls-cert-file" none ss
  tlsKeyFile := latest (fun v => some (some v)) "tls-key-file" none ss

/-- The value of a name that must be a number is one that can be read. -/
def numberRead (H : Host) (key value : String) : Bool :=
  if key ∈ ["port", "tls-port"] then (parseU16 value).isSome
  else if key ∈ ["timeout", "tcp-keepalive"] then (parseU64 value).isSome
  else if key = "databases" then (parseUsize value).isSome
  else if key = "maxmemory" then (parseMemorySize H value).isSome
  else true

section Meaning

variable {α : Type} {H : Host} {parse : String → Option α} {name key value : String} {d : α}
  {ss : List (String × String)} {cpus : ℕ}

theorem valuesOf_concat : valuesOf name (ss ++ [(key, value)])
    = valuesOf name ss ++ if key = name then [value] else [] := by
  rw [valuesOf, valuesOf, List.filter_append, List.map_append]
  split <;> simp [*]

theorem latest_concat : latest parse name d (ss ++ [(key, value)])
    = if key = name then (parse value).getD (latest parse name d ss)
      else latest parse name d ss := by
  rw [latest, valuesOf_concat, List.filterMap_append]
  split
  · cases hv : parse value with
    | none => simp [hv, latest]
    | some a => simp [hv]
  · simp [latest]

/-- **One setting.** It is an error, or it changes what the settings before it describe. -/
theorem set_configured : (configured H cpus ss).set H key value
    = if numberRead H key value = true then some (configured H cpus (ss ++ [(key, value)]))
      else none := by
  unfold ServerConfig.set
  split
  case h_1 | h_18 =>
    cases hn : parseU16 value <;>
      simp [numberRead, configured, latest_concat, valuesOf_concat, hn]
  case h_3 | h_4 =>
    cases hn : parseU64 value <;>
      simp [numberRead, configured, latest_concat, valuesOf_concat, hn]
  case h_5 =>
    cases hn : parseUsize value <;>
      simp [numberRead, configured, latest_concat, valuesOf_concat, hn]
  case h_6 =>
    cases hn : parseMemorySize H value <;>
      simp [numberRead, configured, latest_concat, valuesOf_concat, hn]
  case h_13 =>
    cases hn : parseSave value <;>
      simp [numberRead, configured, latest_concat, valuesOf_concat, hn]
  case h_21 => simp_all [numberRead, configured, latest_concat, valuesOf_concat]
  all_goals simp [numberRead, configured, latest_concat, valuesOf_concat]

/-- **All settings**, one after the other. -/
theorem foldlM_set (ss : List (String × String)) :
    ss.foldlM (fun config s => config.set H s.1 s.2) (ServerConfig.default cpus)
      = if ∀ s ∈ ss, numberRead H s.1 s.2 = true then some (configured H cpus ss) else none := by
  induction ss using List.reverseRecOn with
  | nil => rfl
  | append_singleton ss s ih =>
    rw [List.foldlM_append, ih]
    by_cases hss : ∀ s ∈ ss, numberRead H s.1 s.2 = true
    · rw [if_pos hss]
      show (configured H cpus ss).set H s.1 s.2 >>= pure = _
      rw [bind_pure, set_configured]
      refine if_congr ?_ rfl rfl
      rw [List.forall_mem_append, List.forall_mem_singleton]
      exact (and_iff_right hss).symm
    · rw [if_neg hss, if_neg fun h => hss (List.forall_mem_append.mp h).1]
      rfl

/-- The lines that set nothing are passed over. -/
theorem parseRedisConfig_eq_foldlM (H : Host) (cpus : ℕ) (content : String) :
    parseRedisConfig H cpus content = (settings H content).foldlM
      (fun config s => config.set H s.1 s.2) (ServerConfig.default cpus) := by
  rw [parseRedisConfig, settings, List.foldlM_filterMap]
  refine congrArg (fun f => List.foldlM f _ _) ?_
  funext config line
  cases setting H line <;> rfl

end Meaning

/-- **What a file means.** It is read if and only if its numbers can be, wherever they stand, and
then every field is the last value of its name that can be read, or the default. -/
theorem parseRedisConfig_eq_some_iff (H : Host) (cpus : ℕ) (content : String) (c : ServerConfig) :
    parseRedisConfig H cpus content = some c ↔
      (∀ s ∈ settings H content, numberRead H s.1 s.2 = true) ∧
        c = configured H cpus (settings H content) := by
  rw [parseRedisConfig_eq_foldlM, foldlM_set]
  split
  · next h => exact ⟨fun hc => ⟨h, (Option.some.inj hc).symm⟩, fun hc => congrArg some hc.2.symm⟩
  · next h => exact ⟨fun hc => absurd hc.symm (Option.some_ne_none c), fun hc => absurd hc.1 h⟩

/-! ### What a line can hold -/

/-- A text that a line can give: without a newline, and without a quotation mark at either end. -/
structure Quotable (s : String) : Prop where
  newline : '\n' ∉ s.toList
  first : s.toList.head? ≠ some '"'
  last : s.toList.getLast? ≠ some '"'

section Ends

variable {α : Type} {p : α → Bool} {l : List α}

/-- Nothing is cut off where the ends are to stay. -/
theorem dropEnds_eq_self (hfirst : ∀ a ∈ l.head?, p a = false)
    (hlast : ∀ a ∈ l.getLast?, p a = false) : (l.dropWhile p).rdropWhile p = l := by
  have hstart : l.dropWhile p = l := by
    cases l with
    | nil => rfl
    | cons a l => rw [List.dropWhile_cons_of_neg (by simp [hfirst a rfl])]
  rw [hstart, List.rdropWhile_eq_self_iff]
  intro hne
  simp [hlast _ (List.getLast?_eq_some_getLast hne)]

/-- What is left ends in what is to stay. -/
theorem head?_dropEnds {a : α} (h : ((l.dropWhile p).rdropWhile p).head? = some a) :
    p a = false := by
  have hhead : (l.dropWhile p).head? = some a := by
    obtain ⟨t, ht⟩ := List.rdropWhile_prefix p (l.dropWhile p)
    rw [← ht, List.head?_append, h, Option.some_or]
  have hnot := List.head?_dropWhile_not p l
  rw [hhead] at hnot
  simpa using hnot

theorem getLast?_dropEnds {a : α} (h : ((l.dropWhile p).rdropWhile p).getLast? = some a) :
    p a = false := by
  have hne : (l.dropWhile p).rdropWhile p ≠ [] := by
    intro hnil
    rw [hnil] at h
    cases h
  have hnot := List.rdropWhile_last_not p (l.dropWhile p) hne
  rw [List.getLast?_eq_some_getLast hne] at h
  rw [← Option.some.inj h]
  simpa using hnot

theorem mem_of_mem_dropEnds {a : α} (h : a ∈ (l.dropWhile p).rdropWhile p) : a ∈ l :=
  (List.dropWhile_suffix p).subset ((List.rdropWhile_prefix p _).subset h)

end Ends

theorem notMem_of_mem_splitOn {a : Char} (l : List Char) : ∀ m ∈ l.splitOn a, a ∉ m := by
  induction l with
  | nil => simp
  | cons b l ih =>
    rw [List.splitOn_cons_eq_if_modifyHead]
    obtain ⟨m, ms, hms⟩ := List.exists_cons_of_ne_nil (List.splitOn_ne_nil a l)
    rw [hms] at ih ⊢
    split
    · simpa using ih
    · next hb =>
      have hne : a ≠ b := fun h => hb (by simp [h])
      simpa [hne] using ih

theorem newline_notMem_lines {content line : String} (h : line ∈ lines content) :
    '\n' ∉ line.toList := by
  have hsplit : ∀ l ∈ split '\n' content, '\n' ∉ l.toList := by
    intro l hl
    obtain ⟨m, hm, rfl⟩ := List.mem_map.mp hl
    rw [String.toList_ofList]
    exact notMem_of_mem_splitOn _ m hm
  rw [lines] at h
  rcases List.mem_append.mp h with h | h
  · obtain ⟨l, hl, rfl⟩ := List.mem_map.mp h
    have hnot := hsplit l (List.dropLast_subset _ hl)
    cases hcr : stripSuffix "\r" l with
    | none => exact hnot
    | some t =>
      rw [stripSuffix_eq_some_iff.mp hcr, String.toList_append] at hnot
      exact fun hmem => hnot (List.mem_append_left _ hmem)
  · exact hsplit line (List.mem_of_getLast? (Option.mem_toList.mp (List.mem_filter.mp h).1))

theorem mem_splitOnce {c : Char} {s key value : String} (h : splitOnce c s = (key, some value)) :
    ∀ a ∈ value.toList, a ∈ s.toList := by
  rw [splitOnce] at h
  obtain ⟨-, h⟩ := Prod.mk.inj h
  split at h
  · obtain rfl := Option.some.inj h
    rw [String.toList_ofList]
    exact fun a ha => List.mem_of_mem_drop ha
  · cases h

/-- **What a line gives can be quoted.** -/
theorem quotable_of_setting {H : Host} {content : String} {s : String × String}
    (h : s ∈ settings H content) : Quotable s.2 := by
  obtain ⟨line, hline, hs⟩ := List.mem_filterMap.mp h
  rw [setting] at hs
  split at hs
  · cases hs
  · split at hs
    · next key value hsplit =>
      obtain rfl := Option.some.inj hs
      constructor
      · intro hmem
        rw [trimMatches, String.toList_ofList] at hmem
        have hvalue := mem_of_mem_dropEnds hmem
        rw [trim, String.toList_ofList] at hvalue
        have htrim := mem_splitOnce hsplit _ (mem_of_mem_dropEnds hvalue)
        rw [trim, String.toList_ofList] at htrim
        exact newline_notMem_lines hline (mem_of_mem_dropEnds htrim)
      · intro hfirst
        rw [trimMatches, String.toList_ofList] at hfirst
        have hquote := head?_dropEnds hfirst
        simp at hquote
      · intro hlast
        rw [trimMatches, String.toList_ofList] at hlast
        have hquote := getLast?_dropEnds hlast
        simp at hquote
    · cases hs

/-- A line with a value in quotation marks. -/
def quoted (s : String × String) : String := s.1 ++ (" " ++ ("\"" ++ s.2 ++ "\""))

/-- A name that a line can start with: in lower case, without whitespace, and not a comment. -/
def IsName (key : String) : Prop :=
  key ≠ "" ∧ ∀ c ∈ key.toList, c.toNat < 0x80 ∧ c.toLower = c ∧ isWhitespace c = false ∧ c ≠ '#'

theorem toLowercase_eq_self (H : Host) {s : String}
    (h : ∀ c ∈ s.toList, c.toNat < 0x80 ∧ c.toLower = c) : H.toLowercase s = s := by
  have hascii : s.toList.all (fun c => c.toNat < 0x80) = true :=
    List.all_eq_true.mpr fun c hc => decide_eq_true (h c hc).1
  rw [Host.toLowercase, if_pos hascii, List.map_congr_left (g := id) fun c hc => (h c hc).2,
    List.map_id, String.ofList_toList]

theorem trimMatches_quoted {s : String} (h : Quotable s) :
    trimMatches '"' ("\"" ++ s ++ "\"") = s := by
  have hlist : ("\"" ++ s ++ "\"").toList = '"' :: (s.toList ++ ['"']) := by simp
  have hright : (s.toList ++ ['"']).rdropWhile (· == '"') = s.toList := by
    rw [List.rdropWhile_concat_pos _ _ _ (by simp), List.rdropWhile_eq_self_iff]
    intro hne hlast
    exact h.last (by rw [List.getLast?_eq_some_getLast hne, beq_iff_eq.mp hlast])
  rw [trimMatches, hlist, List.dropWhile_cons_of_pos (by simp)]
  cases hs : s.toList with
  | nil =>
    rw [← String.ofList_toList (s := s), hs]
    rfl
  | cons c cs =>
    have hc : c ≠ '"' := fun hc => h.first (by rw [hs, hc]; rfl)
    rw [← hs, hs, List.cons_append, List.dropWhile_cons_of_neg (by simpa using hc),
      ← List.cons_append, ← hs, hright, String.ofList_toList]

/-- **A quoted line sets its value.** -/
theorem setting_quoted (H : Host) {s : String × String} (hkey : IsName s.1) (hv : Quotable s.2) :
    setting H (quoted s) = some s := by
  obtain ⟨key, value⟩ := s
  obtain ⟨hne, hchars⟩ := hkey
  have hlist : (quoted (key, value)).toList
      = (key.toList ++ ' ' :: '"' :: value.toList) ++ ['"'] := by simp [quoted]
  have hquote : ∀ l : List Char, ∀ a ∈ (l ++ ['"']).getLast?, isWhitespace a = false := by
    intro l a ha
    rw [List.getLast?_concat] at ha
    obtain rfl := Option.some.inj ha
    decide
  obtain ⟨c, cs, hcs⟩ := List.exists_cons_of_ne_nil fun h => hne (String.toList_eq_nil_iff.mp h)
  have hc := hchars c (hcs ▸ List.mem_cons_self)
  have hhead : (quoted (key, value)).toList.head? = some c := by rw [hlist, hcs]; rfl
  have htrim : trim (quoted (key, value)) = quoted (key, value) := by
    rw [trim, dropEnds_eq_self, String.ofList_toList]
    · intro a ha
      obtain rfl := Option.some.inj (hhead.symm.trans ha)
      exact hc.2.2.1
    · rw [hlist]
      exact hquote _
  have hinner : trim ("\"" ++ value ++ "\"") = "\"" ++ value ++ "\"" := by
    rw [trim, dropEnds_eq_self, String.ofList_toList]
    · intro a ha
      obtain rfl : '"' = a := by simpa using ha
      decide
    · rw [String.toList_append]
      exact hquote _
  have hspace : ' ' ∉ key.toList := fun h => absurd (hchars ' ' h).2.2.1 (by decide)
  have hsplit : splitOnce ' ' (quoted (key, value)) = (key, some ("\"" ++ value ++ "\"")) :=
    splitOnce_append hspace _
  rw [setting, htrim, hsplit, if_neg]
  · dsimp only
    rw [hinner, trimMatches_quoted hv,
      toLowercase_eq_self H fun c hc => ⟨(hchars c hc).1, (hchars c hc).2.1⟩]
  · rintro (hempty | hcomment)
    · rw [hempty] at hhead
      cases hhead
    · rw [hhead] at hcomment
      exact hc.2.2.2 (Option.some.inj hcomment)

/-- **Lines put together are taken apart again.** -/
theorem lines_intercalate {ls : List String} (hne : ls ≠ [])
    (h : ∀ l ∈ ls, '\n' ∉ l.toList ∧ l ≠ "" ∧ l.toList.getLast? ≠ some '\r') :
    lines (String.ofList (['\n'].intercalate (ls.map String.toList))) = ls := by
  have hsplit : split '\n' (String.ofList (['\n'].intercalate (ls.map String.toList))) = ls := by
    rw [split, String.toList_ofList, List.splitOn_intercalate _ _ (by simpa using hne)]
    · simp
    · intro m hm
      obtain ⟨l, hl, rfl⟩ := List.mem_map.mp hm
      exact (h l hl).1
  have hstrip : ∀ l ∈ ls, (stripSuffix "\r" l).getD l = l := by
    intro l hl
    rw [stripSuffix_eq_none fun t ht => (h l hl).2.2 (by rw [ht]; simp), Option.getD_none]
  rw [lines, hsplit, List.map_congr_left (g := id) fun l hl => hstrip l (List.dropLast_subset _ hl),
    List.map_id, List.getLast?_eq_some_getLast hne, Option.toList_some, List.filter_cons_of_pos
      (by simpa using (h _ (List.getLast_mem hne)).2.1), List.filter_nil]
  exact List.dropLast_append_getLast hne

/-! ### The configurations that have a file -/

namespace ServerConfig

variable (c : ServerConfig)

/-- The texts of a configuration that a file can set. -/
def texts : List String :=
  [c.bindAddress, c.maxmemoryPolicy, c.loglevel, c.dbfilename, c.dir, c.appendfsync] ++
    c.replicaof.toList ++ c.masterauth.toList ++ c.requirepass.toList ++ c.tlsCertFile.toList ++
    c.tlsKeyFile.toList

/-- What a file can say: any texts that a line can hold, but no empty password, any numbers, and
nothing about threads and the cluster. -/
structure Expressible (cpus : ℕ) : Prop where
  texts : ∀ s ∈ c.texts, Quotable s
  requirepass : c.requirepass ≠ some ""
  databases : c.databases ≤ usizeMax
  replBacklogSize : c.replBacklogSize ≤ usizeMax
  cthreads : c.cthreads = cpus
  clusterEnabled : c.clusterEnabled = false
  clusterPort : c.clusterPort = 16379
  clusterNodeTimeout : c.clusterNodeTimeout = 15000
  clusterConfigFile : c.clusterConfigFile = "nodes.conf"

/-- The values that a file gives to each name. -/
def values : List (String × List String) :=
  [("port", [toString c.port.toNat]), ("bind", [c.bindAddress]),
    ("timeout", [toString c.timeout.toNat]), ("tcp-keepalive", [toString c.tcpKeepalive.toNat]),
    ("databases", [toString c.databases]), ("maxmemory", [toString c.maxmemory.toNat]),
    ("maxmemory-policy", [c.maxmemoryPolicy]), ("loglevel", [c.loglevel]),
    ("dbfilename", [c.dbfilename]), ("dir", [c.dir]),
    ("appendonly", [if c.appendonly then "yes" else "no"]), ("appendfsync", [c.appendfsync]),
    ("save", c.save.map fun p => toString p.1.toNat ++ (" " ++ toString p.2.toNat)),
    ("replicaof", c.replicaof.toList), ("masterauth", c.masterauth.toList),
    ("repl-backlog-size", [toString c.replBacklogSize]), ("requirepass", c.requirepass.toList),
    ("tls-port", [toString c.tlsPort.toNat]), ("tls-cert-file", c.tlsCertFile.toList),
    ("tls-key-file", c.tlsKeyFile.toList)]

/-- The settings of the file. -/
def entries : List (String × String) := c.values.flatMap fun p => p.2.map (p.1, ·)

/-- A file for the configuration. -/
def file : String := String.ofList (['\n'].intercalate (c.entries.map fun s => (quoted s).toList))

end ServerConfig

/-- The values of a name, where the values of each name stand together. -/
theorem valuesOf_flatMap (name : String) (vs : List (String × List String)) :
    valuesOf name (vs.flatMap fun p => p.2.map (p.1, ·))
      = (vs.filter fun p => p.1 = name).flatMap Prod.snd := by
  induction vs with
  | nil => rfl
  | cons p vs ih =>
    have hhead : valuesOf name (p.2.map (p.1, ·)) = if p.1 = name then p.2 else [] := by
      rw [valuesOf, List.filter_map, List.map_map]
      split <;> simp [*, Function.comp_def]
    have happend : valuesOf name (p.2.map (p.1, ·) ++ vs.flatMap fun p => p.2.map (p.1, ·))
        = valuesOf name (p.2.map (p.1, ·))
          ++ valuesOf name (vs.flatMap fun p => p.2.map (p.1, ·)) := by
      rw [valuesOf, List.filter_append, List.map_append]
      rfl
    rw [List.flatMap_cons, happend, hhead, ih]
    split <;> simp [*]

section Numbers

theorem parseU16_toString (n : UInt16) : parseU16 (toString n.toNat) = some n := by
  rw [parseU16, parseUnsigned_toString (Nat.le_sub_one_of_lt n.toNat_lt), Option.map_some,
    UInt16.ofNat_toNat]

theorem parseUsize_toString {n : ℕ} (h : n ≤ usizeMax) : parseUsize (toString n) = some n :=
  parseUnsigned_toString h

theorem toLower_of_isDigit {c : Char} (h : c.isDigit = true) : c.toLower = c := by
  simp only [Char.isDigit, Bool.and_eq_true, decide_eq_true_eq] at h
  have hle : c.val.toNat ≤ 57 := by simpa using UInt32.le_iff_toNat_le.mp h.2
  have hsmall : ¬(c.val ≥ 'A'.val ∧ c.val ≤ 'Z'.val) := by
    rintro ⟨hge, -⟩
    have hlarge : 65 ≤ c.val.toNat := UInt32.le_iff_toNat_le.mp hge
    omega
  exact dif_neg hsmall

theorem parseMemorySize_toString (H : Host) (n : UInt64) :
    parseMemorySize H (toString n.toNat) = some n := by
  have hdigit : ∀ c ∈ (toString n.toNat).toList, c.isDigit = true := by
    intro c hc
    rw [toList_toString_nat] at hc
    exact isDigit_of_mem_toDigits hc
  have htrim : trim (toString n.toNat) = toString n.toNat :=
    trim_eq_self fun c hc => isWhitespace_of_isDigit (hdigit c hc)
  have hlower : H.toLowercase (toString n.toNat) = toString n.toNat := by
    exact toLowercase_eq_self H fun c hc =>
      ⟨toNat_lt_of_isDigit (hdigit c hc), toLower_of_isDigit (hdigit c hc)⟩
  have hwritten : Written H (toString n.toNat) n.toNat 1 :=
    ⟨toString n.toNat, "", by rw [htrim, hlower, String.append_empty], by simp [memoryUnits],
      n.toNat, by rw [htrim]; exact parseUnsigned_toString le_rfl⟩
  rw [parseMemorySize_of_written hwritten n.toNat_lt, UInt64.ofNat_toNat]
  simp

theorem parseSave_toString (p : UInt64 × UInt64) :
    parseSave (toString p.1.toNat ++ (" " ++ toString p.2.toNat)) = some p := by
  have hspace : ' ' ∉ (toString p.1.toNat).toList := fun h =>
    absurd (isWhitespace_of_mem_toString h) (by decide)
  have hsplit : splitOnce ' ' (toString p.1.toNat ++ (" " ++ toString p.2.toNat))
      = (toString p.1.toNat, some (toString p.2.toNat)) := splitOnce_append hspace _
  rw [parseSave, hsplit]
  dsimp only
  rw [parseU64_toString, parseU64_toString]
  rfl

end Numbers

namespace ServerConfig

variable {c : ServerConfig} {H : Host} {cpus : ℕ}

theorem valuesOf_entries (name : String) :
    valuesOf name c.entries = (c.values.filter fun p => p.1 = name).flatMap Prod.snd :=
  valuesOf_flatMap name c.values

theorem latest_option (o : Option String) :
    ((o.toList.filterMap fun v => some (some v)).getLast?).getD none = o := by
  cases o <;> rfl

/-- **What the file describes** is the configuration. -/
theorem configured_entries (hc : c.Expressible cpus) : configured H cpus c.entries = c := by
  have hpass : ((c.requirepass.toList.filterMap fun v =>
      some (if v = "" then none else some v)).getLast?).getD none = c.requirepass := by
    cases hp : c.requirepass with
    | none => rfl
    | some p =>
      have hne : p ≠ "" := fun h => hc.requirepass (by rw [hp, h])
      simp [hne]
  have hsave : (c.save.map fun p => toString p.1.toNat ++ (" " ++ toString p.2.toNat)).filterMap
      parseSave = c.save := by
    rw [List.filterMap_map]
    exact (List.filterMap_congr fun p _ => parseSave_toString p).trans List.filterMap_some
  have hyes : eqIgnoreAsciiCase (asBytes (if c.appendonly then "yes" else "no")) (asBytes "yes")
      = c.appendonly := by
    cases c.appendonly <;> decide
  obtain ⟨-, -, hdatabases, hbacklog, hthreads, hcluster, hport, htimeout, hfile⟩ := hc
  simp only [configured, latest, valuesOf_entries, values, List.filter_cons, List.filter_nil,
    String.reduceEq, decide_true, decide_false, if_true, Bool.false_eq_true, if_false,
    List.flatMap_cons, List.flatMap_nil, List.append_nil, List.filterMap_cons, List.filterMap_nil,
    parseU16_toString, parseU64_toString, parseUsize_toString hdatabases,
    parseUsize_toString hbacklog, parseMemorySize_toString, List.getLast?_singleton,
    Option.getD_some, latest_option, hpass, hsave, hyes]
  rw [← hthreads, ← hcluster, ← hport, ← htimeout, ← hfile]

theorem mem_entries {s : String × String} (hs : s ∈ c.entries) : ∃ vs, (s.1, vs) ∈ c.values ∧
    s.2 ∈ vs := by
  obtain ⟨p, hp, hs⟩ := List.mem_flatMap.mp hs
  obtain ⟨v, hv, rfl⟩ := List.mem_map.mp hs
  exact ⟨p.2, hp, hv⟩

/-- The names are names. -/
theorem isName_of_mem_entries {s : String × String} (hs : s ∈ c.entries) : IsName s.1 := by
  have hnames : ∀ key ∈ ["port", "bind", "timeout", "tcp-keepalive", "databases", "maxmemory",
      "maxmemory-policy", "loglevel", "dbfilename", "dir", "appendonly", "appendfsync", "save",
      "replicaof", "masterauth", "repl-backlog-size", "requirepass", "tls-port", "tls-cert-file",
      "tls-key-file"], IsName key := by
    simp [IsName, isWhitespace]
  obtain ⟨vs, hvs, -⟩ := mem_entries hs
  exact hnames s.1 (List.mem_map_of_mem (f := Prod.fst) hvs)

/-- A number can be quoted, and so can two. -/
theorem quotable_of_forall {s : String} (h : ∀ a ∈ s.toList, a.isDigit = true ∨ a = ' ') :
    Quotable s := by
  have hquote : '"' ∉ s.toList := fun hmem => by rcases h _ hmem with h | h <;> cases h
  constructor
  · intro hmem
    rcases h _ hmem with h | h <;> cases h
  · exact fun hfirst => hquote (List.mem_of_head? hfirst)
  · exact fun hlast => hquote (List.mem_of_getLast? hlast)

theorem isDigit_of_mem_toString {n : ℕ} {a : Char} (h : a ∈ (toString n).toList) :
    a.isDigit = true := by
  rw [toList_toString_nat] at h
  exact isDigit_of_mem_toDigits h

theorem quotable_toString (n : ℕ) : Quotable (toString n) :=
  quotable_of_forall fun _ ha => Or.inl (isDigit_of_mem_toString ha)

/-- The values can be quoted. -/
theorem quotable_of_mem_entries (hc : c.Expressible cpus) {s : String × String}
    (hs : s ∈ c.entries) : Quotable s.2 := by
  have hbool : Quotable (if c.appendonly then "yes" else "no") := by
    cases c.appendonly <;> exact ⟨by decide, by decide, by decide⟩
  have hsave : ∀ p : UInt64 × UInt64,
      Quotable (toString p.1.toNat ++ (" " ++ toString p.2.toNat)) := by
    refine fun p => quotable_of_forall fun a ha => ?_
    rw [String.toList_append, String.toList_append, List.mem_append, List.mem_append] at ha
    rcases ha with ha | ha | ha
    · exact Or.inl (isDigit_of_mem_toString ha)
    · exact Or.inr (List.mem_singleton.mp ha)
    · exact Or.inl (isDigit_of_mem_toString ha)
  have htexts := hc.texts
  simp only [texts, List.forall_mem_append, List.forall_mem_cons] at htexts
  have hvalues : ∀ p ∈ c.values, ∀ v ∈ p.2, Quotable v := by
    simp only [values, List.forall_mem_cons, List.forall_mem_map, List.not_mem_nil, false_imp_iff,
      implies_true, and_true, quotable_toString, true_and, hbool, hsave]
    simpa only [List.not_mem_nil, false_imp_iff, implies_true, true_and, and_assoc] using htexts
  obtain ⟨vs, hvs, hs⟩ := mem_entries hs
  exact hvalues _ hvs _ hs

/-- The numbers can be read. -/
theorem numberRead_of_mem_entries (hc : c.Expressible cpus) {s : String × String}
    (hs : s ∈ c.entries) : numberRead H s.1 s.2 = true := by
  have hvalues : ∀ p ∈ c.values, ∀ v ∈ p.2, numberRead H p.1 v = true := by
    simp only [values, List.forall_mem_cons, List.forall_mem_map]
    simp only [numberRead, List.mem_cons, List.not_mem_nil, String.reduceEq, or_false,
      or_true, if_true, if_false, parseU16_toString, parseU64_toString,
      parseUsize_toString hc.databases, parseMemorySize_toString, Option.isSome_some,
      false_imp_iff, implies_true, and_true]
  obtain ⟨vs, hvs, hs⟩ := mem_entries hs
  exact hvalues _ hvs _ hs

/-- The file sets what it is to set. -/
theorem settings_file (hc : c.Expressible cpus) : settings H c.file = c.entries := by
  have hlines : lines c.file = c.entries.map quoted := by
    rw [file, ← Function.comp_def, ← List.map_map]
    refine lines_intercalate (by simp [entries, values]) fun l hl => ?_
    obtain ⟨s, hs, rfl⟩ := List.mem_map.mp hl
    have hkey := isName_of_mem_entries hs
    have hlist : (quoted s).toList = (s.1.toList ++ ' ' :: '"' :: s.2.toList) ++ ['"'] := by
      simp [quoted]
    refine ⟨fun hmem => ?_, fun hempty => ?_, ?_⟩
    · have hvalue := (quotable_of_mem_entries hc hs).newline
      have hname : '\n' ∉ s.1.toList := fun h => absurd (hkey.2 _ h).2.2.1 (by decide)
      simp [hlist, hname, hvalue] at hmem
    · rw [hempty] at hlist
      simp at hlist
    · rw [hlist, List.getLast?_concat]
      decide
  rw [settings, hlines, List.filterMap_map]
  refine (List.filterMap_congr fun s hs => ?_).trans List.filterMap_some
  exact setting_quoted H (isName_of_mem_entries hs) (quotable_of_mem_entries hc hs)

end ServerConfig

section Expressible

variable {H : Host} {cpus : ℕ} {ss : List (String × String)}

/-- What holds of the default and of every value that is read holds of the last one. -/
theorem latest_elim {α : Type} {parse : String → Option α} {name : String} {d : α} {Q : α → Prop}
    (hd : Q d) (hread : ∀ s ∈ ss, ∀ a, parse s.2 = some a → Q a) : Q (latest parse name d ss) := by
  rw [latest]
  cases hlast : ((valuesOf name ss).filterMap parse).getLast? with
  | none => exact hd
  | some a =>
    obtain ⟨v, hv, ha⟩ := List.mem_filterMap.mp (List.mem_of_getLast? hlast)
    obtain ⟨s, hs, rfl⟩ := List.mem_map.mp hv
    exact hread s (List.mem_of_mem_filter hs) a ha

/-- **What is read can be said.** -/
theorem expressible_configured (h : ∀ s ∈ ss, Quotable s.2) :
    (configured H cpus ss).Expressible cpus := by
  have htext : ∀ name d, Quotable d → Quotable (latest some name d ss) := fun name d hd =>
    latest_elim (Q := Quotable) hd fun s hs a ha => Option.some.inj ha ▸ h s hs
  have hoption : ∀ name, ∀ s ∈ (latest (fun v => some (some v)) name none ss).toList,
      Quotable s := by
    refine fun name => latest_elim (Q := fun (o : Option String) => ∀ s ∈ o.toList, Quotable s)
      (fun s hs => absurd hs List.not_mem_nil) fun s hs a ha t ht => ?_
    obtain rfl := Option.some.inj ha
    exact List.mem_singleton.mp ht ▸ h s hs
  have hpass : ∀ s ∈ (configured H cpus ss).requirepass.toList, Quotable s ∧ s ≠ "" := by
    refine latest_elim (Q := fun (o : Option String) => ∀ s ∈ o.toList, Quotable s ∧ s ≠ "")
      (fun s hs => absurd hs List.not_mem_nil) fun s hs a ha t ht => ?_
    obtain rfl := Option.some.inj ha
    split at ht
    · cases ht
    · next hne => exact List.mem_singleton.mp ht ▸ ⟨h s hs, hne⟩
  have husize : ∀ name d, d ≤ usizeMax → latest parseUsize name d ss ≤ usizeMax := fun name d hd =>
    latest_elim (Q := (· ≤ usizeMax)) hd fun s _ a ha => parseUnsigned_le ha
  exact {
    texts := by
      simp only [ServerConfig.texts, List.forall_mem_append, List.forall_mem_cons]
      exact ⟨⟨⟨⟨⟨⟨htext _ _ ⟨by decide, by decide, by decide⟩,
        htext _ _ ⟨by decide, by decide, by decide⟩, htext _ _ ⟨by decide, by decide, by decide⟩,
        htext _ _ ⟨by decide, by decide, by decide⟩, htext _ _ ⟨by decide, by decide, by decide⟩,
        htext _ _ ⟨by decide, by decide, by decide⟩, fun s hs => absurd hs List.not_mem_nil⟩,
        hoption _⟩, hoption _⟩, fun s hs => (hpass s hs).1⟩, hoption _⟩, hoption _⟩
    requirepass := fun hempty => (hpass "" (by rw [hempty]; exact List.mem_singleton_self _)).2 rfl
    databases := husize _ _ (by decide)
    replBacklogSize := husize _ _ (by decide)
    cthreads := rfl
    clusterEnabled := rfl
    clusterPort := rfl
    clusterNodeTimeout := rfl
    clusterConfigFile := rfl }

end Expressible

/-- **The file that is written** is read back. -/
theorem load_file (H : Host) {cpus : ℕ} {c : ServerConfig} (hc : c.Expressible cpus) :
    load H cpus (some c.file) = some c := by
  refine (parseRedisConfig_eq_some_iff H cpus c.file c).mpr ?_
  rw [ServerConfig.settings_file hc]
  exact ⟨fun s hs => ServerConfig.numberRead_of_mem_entries hc hs,
    (ServerConfig.configured_entries hc).symm⟩

/-- **The configurations that have a file.** The file that is written for one of them is one. -/
theorem exists_file_iff (H : Host) (cpus : ℕ) (c : ServerConfig) :
    ((∃ file, load H cpus file = some c) ↔ c.Expressible cpus) ∧
      (load H cpus (some c.file) = some c ↔ c.Expressible cpus) := by
  have hexpressible : ∀ file, load H cpus file = some c → c.Expressible cpus := by
    intro file hfile
    cases file with
    | none =>
      obtain rfl := Option.some.inj hfile
      have hnone : ∀ s ∈ ([] : List (String × String)), Quotable s.2 :=
        fun s hs => absurd hs List.not_mem_nil
      exact expressible_configured (H := H) hnone
    | some content =>
      obtain ⟨-, rfl⟩ := (parseRedisConfig_eq_some_iff H cpus content c).mp hfile
      exact expressible_configured fun s hs => quotable_of_setting hs
  exact ⟨⟨fun ⟨file, hfile⟩ => hexpressible file hfile, fun hc => ⟨_, load_file H hc⟩⟩,
    hexpressible _, load_file H⟩

end VeloDB
