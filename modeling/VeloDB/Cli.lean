import VeloDB.Persist.Aof
import VeloDB.Net.Connection

/-!
# The command line client

`velodb-cli` reads a line, cuts it into words and sends them as one command. A quotation mark opens
or closes a quotation, in the middle of a word too, and stands for nothing itself; there is no
escape. So a word with a quotation mark in it cannot be typed, and neither can the empty word, for
`""` adds nothing to the words. Every other command can be, and the server reads it as it was meant.

## Main results

* `splitWords_eq_iff` — the lists of words that some text is cut into
* `sent_iff` — the commands that a line at the prompt sends
-/

namespace VeloDB.Cli

open Rust

/-! ### Cutting a line into words -/

/-- The local variables of `split_words`. -/
structure Splitter where
  words : List String
  current : String
  inQuotes : Bool

namespace Splitter

/-- `if !current.is_empty() { words.push(std::mem::take(&mut current)); }`. -/
def flush (s : Splitter) : Splitter :=
  if s.current = "" then s else { s with words := s.words ++ [s.current], current := "" }

/-- The body of the loop. -/
def next (s : Splitter) (ch : Char) : Splitter :=
  if ch = '"' then { s with inQuotes := !s.inQuotes }
  else if (ch = ' ' ∨ ch = '\t') ∧ s.inQuotes = false then s.flush
  else { s with current := s.current.push ch }

end Splitter

/-- `split_words`. -/
def splitWords (input : String) : List String :=
  (input.toList.foldl Splitter.next ⟨[], "", false⟩).flush.words

/-- `encode_command`, which is also what `execute_command` sends for a command given with `-c`. -/
def encodeCommand (cmd : String) : Bytes :=
  let args := splitWords cmd
  42 :: asBytes (toString args.length) ++ crlfBytes ++
    args.flatMap fun arg =>
      36 :: asBytes (toString (asBytes arg).length) ++ crlfBytes ++ asBytes arg ++ crlfBytes

/-- What `interactive_loop` does with a line. -/
inductive LineAction where
  | skip
  | quit
  | send (cmd : String)

/-- `interactive_loop`, from the line that was read to the command that is sent. -/
def interactiveLine (line : String) : LineAction :=
  let cmd := trim line
  if cmd = "" then .skip
  else if eqIgnoreAsciiCase (asBytes cmd) (asBytes "exit") ∨
      eqIgnoreAsciiCase (asBytes cmd) (asBytes "quit") then .quit
  else .send cmd

/-- **The client writes commands as the log does.** -/
theorem encodeCommand_eq (cmd : String) :
    encodeCommand cmd = encodeCommandForAof ((splitWords cmd).map asBytes) := by
  simp [encodeCommand, encodeCommandForAof, encodeArgs, bulkFrame, List.flatMap_map]

example : splitWords "set \"a b\"c\t\"\" d" = ["set", "a bc", "d"] := by decide

/-! ### What a word can be -/

/-- A word that can be typed: not empty, and without a quotation mark. -/
def Typeable (w : String) : Prop := w ≠ "" ∧ '"' ∉ w.toList

namespace Splitter

variable {s : Splitter} {P : Char → Prop}

/-- Every word, and the one that is being read, consists of characters with `P`. -/
structure Reads (P : Char → Prop) (s : Splitter) : Prop where
  words : ∀ w ∈ s.words, w ≠ "" ∧ ∀ c ∈ w.toList, P c
  current : ∀ c ∈ s.current.toList, P c

theorem Reads.flush (h : s.Reads P) : s.flush.Reads P := by
  rw [Splitter.flush]
  split_ifs with hempty
  · exact h
  · refine ⟨fun w hw => ?_, by simp⟩
    obtain hw | rfl := List.mem_append.mp hw |>.imp_right List.mem_singleton.mp
    · exact h.words w hw
    · exact ⟨hempty, h.current⟩

theorem Reads.next (h : s.Reads P) {ch : Char} (hch : ch ≠ '"' → P ch) : (s.next ch).Reads P := by
  rw [Splitter.next]
  split_ifs with hquote hspace
  · exact ⟨h.words, h.current⟩
  · exact h.flush
  · refine ⟨h.words, fun c hc => ?_⟩
    rw [String.toList_push, List.mem_append, List.mem_singleton] at hc
    obtain hc | rfl := hc
    · exact h.current c hc
    · exact hch hquote

theorem Reads.foldl {l : List Char} (hl : ∀ c ∈ l, c ≠ '"' → P c) (h : s.Reads P) :
    (l.foldl Splitter.next s).Reads P := by
  induction l generalizing s with
  | nil => exact h
  | cons c l ih =>
    exact ih (fun d hd => hl d (List.mem_cons_of_mem _ hd)) (h.next (hl c List.mem_cons_self))

end Splitter

/-- **A word has its characters from the input, and no quotation mark.** -/
theorem mem_splitWords {input w : String} (hw : w ∈ splitWords input) :
    Typeable w ∧ ∀ c ∈ w.toList, c ∈ input.toList := by
  have hreads : Splitter.Reads (fun c => c ≠ '"' ∧ c ∈ input.toList) ⟨[], "", false⟩ :=
    ⟨by simp, by simp⟩
  obtain ⟨hne, hchars⟩ :=
    ((hreads.foldl fun c hc hquote => ⟨hquote, hc⟩).flush).words w hw
  exact ⟨⟨hne, fun hquote => (hchars _ hquote).1 rfl⟩, fun c hc => (hchars c hc).2⟩

/-! ### How to type a command -/

/-- The words in quotation marks, a blank in front of each. -/
def quoted (ws : List String) : List Char :=
  ws.flatMap fun w => ' ' :: '"' :: w.toList ++ ['"']

/-- A line that is cut into `ws`. -/
def typed (ws : List String) : String := String.ofList ('"' :: '"' :: quoted ws)

namespace Splitter

/-- Inside of a quotation everything up to the next mark is taken as it is. -/
theorem foldl_inQuotes {l : List Char} (hl : '"' ∉ l) (words : List String) (current : String) :
    l.foldl next ⟨words, current, true⟩ = ⟨words, current ++ String.ofList l, true⟩ := by
  induction l generalizing current with
  | nil => simp
  | cons c l ih =>
    rw [List.mem_cons, not_or] at hl
    have hnext : next ⟨words, current, true⟩ c = ⟨words, current.push c, true⟩ := by
      rw [next, if_neg (Ne.symm hl.1), if_neg (by simp)]
    have happend : current.push c ++ String.ofList l = current ++ String.ofList (c :: l) := by
      rw [← String.toList_inj]
      simp
    rw [List.foldl_cons, hnext, ih hl.2, happend]

@[simp] theorem flush_inQuotes (s : Splitter) : s.flush.inQuotes = s.inQuotes := by
  unfold flush
  split_ifs <;> rfl

theorem flush_current (s : Splitter) : s.flush.current = "" := by
  unfold flush
  split_ifs with h
  · exact h
  · rfl

/-- A quoted word behind a blank ends the word before it and is the current one then. -/
theorem foldl_quoted_word {s : Splitter} (hs : s.inQuotes = false) {w : String}
    (hw : '"' ∉ w.toList) :
    (' ' :: '"' :: w.toList ++ ['"']).foldl next s = ⟨s.flush.words, w, false⟩ := by
  have hblank : next s ' ' = s.flush := by
    rw [next, if_neg (by decide), if_pos ⟨.inl rfl, hs⟩]
  have hopen : next s.flush '"' = ⟨s.flush.words, "", true⟩ := by
    rw [next, if_pos rfl, flush_inQuotes, hs, flush_current]
    rfl
  have hclose : next ⟨s.flush.words, "" ++ String.ofList w.toList, true⟩ '"'
      = ⟨s.flush.words, w, false⟩ := by
    rw [next, if_pos rfl, String.ofList_toList, String.empty_append]
    rfl
  rw [List.cons_append, List.cons_append, List.foldl_cons, hblank, List.foldl_cons, hopen,
    List.foldl_append, foldl_inQuotes hw]
  exact hclose

theorem foldl_quoted {ws : List String} (hws : ∀ w ∈ ws, Typeable w) {s : Splitter}
    (hs : s.inQuotes = false) :
    ((quoted ws).foldl next s).flush.words = s.flush.words ++ ws := by
  induction ws generalizing s with
  | nil => rw [List.append_nil]; rfl
  | cons w ws ih =>
    obtain ⟨hne, hquote⟩ := hws w List.mem_cons_self
    have hsplit : quoted (w :: ws) = (' ' :: '"' :: w.toList ++ ['"']) ++ quoted ws := rfl
    have hflush : (flush ⟨s.flush.words, w, false⟩).words = s.flush.words ++ [w] := by
      rw [flush, if_neg hne]
    rw [hsplit, List.foldl_append, foldl_quoted_word hs hquote,
      ih (fun v hv => hws v (List.mem_cons_of_mem _ hv)) rfl, hflush, List.append_assoc]
    rfl

end Splitter

theorem splitWords_typed {ws : List String} (hws : ∀ w ∈ ws, Typeable w) :
    splitWords (typed ws) = ws := by
  rw [splitWords, typed, String.toList_ofList]
  exact Splitter.foldl_quoted hws rfl

/-- **The lists of words that some text is cut into.** -/
theorem splitWords_eq_iff {ws : List String} :
    (∃ input, splitWords input = ws) ↔ ∀ w ∈ ws, Typeable w := by
  constructor
  · rintro ⟨input, rfl⟩ w hw
    exact (mem_splitWords hw).1
  · exact fun hws => ⟨typed ws, splitWords_typed hws⟩

/-! ### At the prompt -/

theorem toList_trim_subset {s : String} {c : Char} (h : c ∈ (trim s).toList) : c ∈ s.toList := by
  rw [trim, String.toList_ofList] at h
  exact (List.dropWhile_suffix _).subset ((List.rdropWhile_prefix _ _).subset h)

/-- The end of the line is not a part of the command. -/
theorem trim_newline (s : String) : trim (s ++ "\n") = trim s := by
  have hnewline : isWhitespace '\n' = true := by decide
  have hlist : (s ++ "\n").toList = s.toList ++ ['\n'] := by simp
  rw [trim, trim, hlist, List.dropWhile_append]
  split_ifs with hall
  · rw [List.isEmpty_iff.mp hall, List.dropWhile_cons_of_pos hnewline]
    rfl
  · rw [List.rdropWhile_concat_pos _ _ _ hnewline]

theorem trim_typed (ws : List String) : trim (typed ws) = typed ws := by
  have hmark : isWhitespace '"' = false := by decide
  have hend : ∃ l, '"' :: '"' :: quoted ws = l ++ ['"'] := by
    obtain rfl | ⟨ws, w, rfl⟩ := ws.eq_nil_or_concat
    · exact ⟨['"'], rfl⟩
    · exact ⟨'"' :: '"' :: (quoted ws ++ ' ' :: '"' :: w.toList), by simp [quoted]⟩
  obtain ⟨l, hl⟩ := hend
  rw [typed, trim, String.toList_ofList, List.dropWhile_cons_of_neg (by simp [hmark]), hl,
    List.rdropWhile_concat_neg _ _ _ (by simp [hmark])]

theorem interactiveLine_typed (ws : List String) :
    interactiveLine (typed ws ++ "\n") = .send (typed ws) := by
  have hne : typed ws ≠ "" := by
    rw [typed, ← String.toList_inj.ne, String.toList_ofList]
    simp
  have hword : ∀ w ∈ ["exit", "quit"],
      eqIgnoreAsciiCase (asBytes (typed ws)) (asBytes w) = false := by
    intro w hw
    rw [typed, asBytes, String.toList_ofList, List.flatMap_cons]
    rcases List.mem_pair.mp hw with rfl | rfl <;>
      simp [eqIgnoreAsciiCase, asBytes, String.utf8EncodeChar]
  rw [interactiveLine, trim_newline, trim_typed, if_neg hne,
    if_neg (by simp [hword "exit" (by simp), hword "quit" (by simp)])]

/-- **The commands that can be typed.** Some line at the prompt sends a command that the server
reads as `ws`, if and only if it fits into a buffer, none of the words is empty, and none has a
quotation mark or the end of a line in it. -/
theorem sent_iff (ws : List String) :
    (∃ line cmd, '\n' ∉ line.toList ∧ interactiveLine (line ++ "\n") = .send cmd ∧
      (encodeCommand cmd).length < 2 ^ 63 ∧
      ∀ r, parseCommand (encodeCommand cmd ++ r) = .ok (r, ws.map asBytes)) ↔
    (encodeCommandForAof (ws.map asBytes)).length < 2 ^ 63 ∧
      ∀ w ∈ ws, Typeable w ∧ '\n' ∉ w.toList := by
  constructor
  · rintro ⟨line, cmd, hline, hsend, hsize, hparse⟩
    have hcmd : cmd = trim line := by
      rw [interactiveLine, trim_newline] at hsend
      split_ifs at hsend
      exact (LineAction.send.inj hsend).symm
    have hread := hparse []
    rw [encodeCommand_eq] at hsize hread
    rw [parseCommand_encodeCommand hsize] at hread
    have hwords : splitWords cmd = ws :=
      asBytes_injective.list_map (Prod.mk.inj (Except.ok.inj hread)).2
    subst hwords
    refine ⟨hsize, fun w hw => ⟨(mem_splitWords hw).1, fun hnewline => hline ?_⟩⟩
    exact toList_trim_subset (hcmd ▸ (mem_splitWords hw).2 _ hnewline)
  · rintro ⟨hsize, hws⟩
    have hwords := splitWords_typed fun w hw => (hws w hw).1
    have hencode : encodeCommand (typed ws) = encodeCommandForAof (ws.map asBytes) := by
      rw [encodeCommand_eq, hwords]
    refine ⟨typed ws, typed ws, ?_, interactiveLine_typed ws, hencode ▸ hsize, fun r => ?_⟩
    · rw [typed, String.toList_ofList]
      simp only [quoted, List.mem_cons, List.mem_flatMap, List.mem_append, not_or, not_exists]
      refine ⟨by decide, by decide, fun w hw => ?_⟩
      obtain ⟨hmem, hw⟩ := hw
      simp [(hws w hmem).2] at hw
    · rw [hencode, parseCommand_encodeCommand hsize]

end VeloDB.Cli
