import VeloDB.Lib.FileSystem
import VeloDB.Persist.Aof

/-!
# Replacing the append-only file

`AofWriter::rewrite` writes a temporary file, removes the log, gives the temporary file its name and
opens it. A crash can come after any step, and any of them can fail; an error of `remove_file` is
ignored. A crash is one of the process: what has been written stays, whether synced or not.

## Main results

* `Tied.rewritten` — a rewrite that is not interrupted
* `rewrite_intact_iff` — the steps after which a rewrite may be interrupted
-/

namespace VeloDB

open Rust

/-- The names of the files: the log, and the log with the extension `aof.rewrite`. -/
inductive AofPath
  | aof
  | tmp
  deriving DecidableEq

/-- The files, the one that the `AofWriter` has open, and the temporary one that a rewrite has
open. -/
structure AofFiles where
  fs : FileSystem AofPath
  file : ℕ
  tmp : ℕ

/-- The steps of `AofWriter::rewrite`. -/
inductive RewriteStep
  | create
  | write (byte : UInt8)
  | flush
  | syncAll
  | removeFile
  | rename
  | reopen
  deriving DecidableEq

namespace AofFiles

/-- One step. -/
def step (w : AofFiles) : RewriteStep → AofFiles
  | .create => { w with fs := (w.fs.create .tmp).1, tmp := (w.fs.create .tmp).2 }
  | .write byte => { w with fs := w.fs.append w.tmp [byte] }
  | .flush | .syncAll => w
  | .removeFile => { w with fs := w.fs.remove .aof }
  | .rename => { w with fs := w.fs.rename .tmp .aof }
  | .reopen => { w with fs := (w.fs.openAppend .aof).1, file := (w.fs.openAppend .aof).2 }

/-- `AofWriter::append`. -/
def append (w : AofFiles) (data : Bytes) : AofFiles := { w with fs := w.fs.append w.file data }

/-- What is in the file at the path of the log. -/
def log (w : AofFiles) : Option Bytes := w.fs.read .aof

/-- The writer has opened the file at the path of the log. -/
structure Tied (w : AofFiles) : Prop where
  aof : w.fs.file .aof = some w.file
  tmp : w.fs.file .tmp ≠ some w.file

end AofFiles

/-- The steps up to the closing of the temporary file. -/
def prepareSteps (data : Bytes) : List RewriteStep :=
  .create :: (data.map .write ++ [.flush, .syncAll])

/-- The steps that replace the log. When `remove_file` fails they go on without it. -/
def swapSteps (removes : Bool) : List RewriteStep :=
  if removes then [.removeFile, .rename, .reopen] else [.rename, .reopen]

/-- `AofWriter::rewrite`, for the bytes that `write_dataset` writes. -/
def rewriteSteps (removes : Bool) (data : Bytes) : List RewriteStep :=
  prepareSteps data ++ swapSteps removes

namespace AofFiles

/-- What a rewrite must have left when it is interrupted: one of the two logs at the path, and after
an error a writer whose appends get there. -/
structure Intact (old : AofFiles) (data : Bytes) (failed : Bool) (w : AofFiles) : Prop where
  complete : w.log = old.log ∨ w.log = some data
  reached : failed = true → ∃ c, w.log = some c ∧ ∀ d, (w.append d).log = some (c ++ d)

/-! ### Up to the swap -/

/-- The temporary file holds these bytes, and the log is as before. -/
structure Writing (old : AofFiles) (data : Bytes) (w : AofFiles) : Prop where
  file : w.file = old.file
  aof : w.fs.file .aof = some w.file
  contents : w.fs.contents w.file = old.fs.contents old.file
  tmp : w.fs.file .tmp = some w.tmp
  tmp_ne : w.file ≠ w.tmp
  written : w.fs.contents w.tmp = data

variable {old w : AofFiles} {data : Bytes}

theorem Tied.log (h : w.Tied) : w.log = some (w.fs.contents w.file) := FileSystem.read_eq h.aof

theorem Tied.reached (h : w.Tied) : ∃ c, w.log = some c ∧ ∀ d, (w.append d).log = some (c ++ d) :=
  ⟨_, h.log, (FileSystem.read_append_iff h.log w.file).mpr h.aof⟩

theorem Writing.tied (h : Writing old data w) : w.Tied :=
  ⟨h.aof, fun heq => h.tmp_ne (Option.some.inj (heq.symm.trans h.tmp))⟩

theorem Writing.log (h : Writing old data w) (hold : old.Tied) : w.log = old.log := by
  rw [h.tied.log, h.contents, hold.log]

theorem Tied.create (h : w.Tied) : Writing w [] (w.step .create) := by
  obtain ⟨hother, htmp, hempty, hkeeps⟩ := FileSystem.create_spec w.fs .tmp
  obtain ⟨hne, hcontents⟩ := hkeeps .aof w.file h.aof h.tmp
  exact ⟨rfl, (hother .aof (by decide)).trans h.aof, hcontents, htmp, hne, hempty⟩

theorem Writing.write (h : Writing old data w) (byte : UInt8) :
    Writing old (data ++ [byte]) (w.step (.write byte)) where
  file := h.file
  aof := h.aof
  contents := (FileSystem.contents_append_of_ne h.tmp_ne).trans h.contents
  tmp := h.tmp
  tmp_ne := h.tmp_ne
  written := (FileSystem.contents_append_self ..).trans (congrArg (· ++ [byte]) h.written)

theorem Writing.writes (h : Writing old data w) (bytes : Bytes) :
    Writing old (data ++ bytes) ((bytes.map RewriteStep.write).foldl step w) := by
  induction bytes generalizing data w with
  | nil => rwa [List.append_nil]
  | cons byte bytes ih =>
    have hnext := ih (h.write byte)
    rwa [List.append_assoc] at hnext

/-- Some of the steps that follow the creation of the temporary file. -/
theorem Writing.foldl (h : Writing old data w) {steps : List RewriteStep}
    (hsteps : ∀ s ∈ steps, (∃ byte, s = .write byte) ∨ s = .flush ∨ s = .syncAll) :
    ∃ data', Writing old data' (steps.foldl step w) := by
  induction steps generalizing data w with
  | nil => exact ⟨data, h⟩
  | cons s steps ih =>
    have htail := fun t ht => hsteps t (List.mem_cons_of_mem s ht)
    rcases hsteps s List.mem_cons_self with ⟨byte, rfl⟩ | rfl | rfl
    · exact ih (h.write byte) htail
    · exact ih h htail
    · exact ih h htail

/-- Everything is ready for the swap. -/
theorem Tied.prepared (h : w.Tied) (data : Bytes) :
    Writing w data ((prepareSteps data).foldl step w) := by
  have hwritten := h.create.writes data
  rw [prepareSteps, List.foldl_cons, List.foldl_append]
  exact hwritten

/-- The log is as before as long as the swap has not begun. -/
theorem Tied.preparing (h : w.Tied) (data : Bytes) (n : ℕ) :
    ((prepareSteps data).take n).foldl step w = w ∨
      ∃ data', Writing w data' (((prepareSteps data).take n).foldl step w) := by
  cases n with
  | zero => exact Or.inl rfl
  | succ n =>
    right
    refine h.create.foldl fun s hs => ?_
    have hmem := List.mem_of_mem_take hs
    rcases List.mem_append.mp hmem with hbyte | hend
    · obtain ⟨byte, -, rfl⟩ := List.mem_map.mp hbyte
      exact Or.inl ⟨byte, rfl⟩
    · simpa using Or.inr hend

/-! ### The swap -/

/-- The log is the new one, but the writer has the old file open. -/
structure Swapped (data : Bytes) (w : AofFiles) : Prop where
  log : w.log = some data
  aof : w.fs.file .aof ≠ some w.file
  tmp : w.fs.file .tmp = none

theorem log_removeFile (w : AofFiles) : (w.step .removeFile).log = none := by
  rw [AofFiles.log, FileSystem.read]
  exact congrArg (Option.map _) (FileSystem.file_remove_self w.fs .aof)

theorem Writing.rename (h : Writing old data w) : Swapped data (w.step .rename) := by
  have haof : (w.fs.rename .tmp .aof).file .aof = some w.tmp :=
    (FileSystem.file_rename_new (by decide)).trans h.tmp
  refine ⟨(FileSystem.read_eq haof).trans (congrArg some h.written), fun heq => h.tmp_ne ?_,
    FileSystem.file_remove_self _ _⟩
  exact (Option.some.inj (haof.symm.trans heq)).symm

/-- Removing the log first makes no difference to what the renaming leads to. -/
theorem Writing.remove_rename (h : Writing old data w) :
    Swapped data ((w.step .removeFile).step .rename) := by
  have htmp : (w.fs.remove .aof).file .tmp = some w.tmp :=
    (FileSystem.file_remove_of_ne (by decide)).trans h.tmp
  have haof : ((w.fs.remove .aof).rename .tmp .aof).file .aof = some w.tmp :=
    (FileSystem.file_rename_new (by decide)).trans htmp
  refine ⟨(FileSystem.read_eq haof).trans (congrArg some h.written), fun heq => h.tmp_ne ?_,
    FileSystem.file_remove_self _ _⟩
  exact (Option.some.inj (haof.symm.trans heq)).symm

/-- A crash does no harm here, an error does. -/
theorem Swapped.intact_iff (h : Swapped data w) (old : AofFiles) (failed : Bool) :
    Intact old data failed w ↔ failed = false := by
  constructor
  · intro hintact
    by_contra hfailed
    obtain ⟨c, hc, hd⟩ := hintact.reached (Bool.eq_true_of_not_eq_false hfailed)
    exact h.aof ((FileSystem.read_append_iff hc w.file).mp hd)
  · rintro rfl
    exact ⟨Or.inr h.log, fun hfailed => absurd hfailed (by decide)⟩

theorem Swapped.reopen (h : Swapped data w) :
    (w.step .reopen).Tied ∧ (w.step .reopen).log = some data := by
  obtain ⟨n, hn, -⟩ := Option.map_eq_some_iff.mp h.log
  have hstep : w.step .reopen = { w with file := n } := by
    rw [step, FileSystem.openAppend_of_file hn]
  rw [hstep]
  refine ⟨⟨hn, fun htmp => ?_⟩, h.log⟩
  cases h.tmp.symm.trans htmp

/-- A writer that has opened the new log is safe again. -/
theorem Swapped.intact (h : Swapped data w) (old : AofFiles) (failed : Bool) :
    Intact old data failed (w.step .reopen) :=
  ⟨Or.inr h.reopen.2, fun _ => h.reopen.1.reached⟩

/-- **A rewrite that is not interrupted.** -/
theorem Tied.rewritten (h : w.Tied) (removes : Bool) (data : Bytes) :
    ((rewriteSteps removes data).foldl step w).Tied ∧
      ((rewriteSteps removes data).foldl step w).log = some data := by
  have hwriting := h.prepared data
  rw [rewriteSteps, List.foldl_append]
  cases removes with
  | false => exact hwriting.rename.reopen
  | true => exact hwriting.remove_rename.reopen

/-- `AofWriter::open`. -/
def opened (fs : FileSystem AofPath) : AofFiles where
  fs := (fs.openAppend .aof).1
  file := (fs.openAppend .aof).2
  tmp := 0

/-- A writer is tied to its file, unless both names stand for the same one. -/
theorem tied_opened {fs : FileSystem AofPath} (h : fs.file .aof = none ∨
    fs.file .tmp ≠ fs.file .aof) : (opened fs).Tied := by
  cases haof : fs.file .aof with
  | some n =>
    have hopen : opened fs = ⟨fs, n, 0⟩ := by
      rw [opened, FileSystem.openAppend_of_file haof]
    rw [hopen]
    refine ⟨haof, fun htmp => ?_⟩
    rcases h with hnone | hne
    · cases hnone.symm.trans haof
    · exact hne (htmp.trans haof.symm)
  | none =>
    have hopen : opened fs = ⟨fs.add .aof, fs.next, 0⟩ := by
      rw [opened, FileSystem.openAppend, haof]
    rw [hopen]
    refine ⟨FileSystem.file_add_self fs .aof, fun htmp => ?_⟩
    have hold : fs.file .tmp = some fs.next :=
      (FileSystem.file_add_of_ne (by decide)).symm.trans htmp
    exact (Nat.lt_irrefl _) (fs.file_lt .tmp fs.next hold)

theorem Tied.append (h : w.Tied) (data : Bytes) : (w.append data).Tied := ⟨h.aof, h.tmp⟩

end AofFiles

/-- These are not all steps up to the next safe point: the log has been removed and not replaced, or
an error has kept the writer from opening the new one. -/
def MayStop (failed : Bool) (steps : List RewriteStep) : Prop :=
  (.removeFile ∈ steps → .rename ∈ steps) ∧ (failed = true → .rename ∈ steps → .reopen ∈ steps)

open AofFiles

variable {old w : AofFiles} {data : Bytes}

/-- **The swap**, interrupted after some of its steps. -/
theorem AofFiles.Writing.swap_intact_iff (h : Writing old data w) (hold : old.Tied)
    (removes failed : Bool) (m : ℕ) :
    Intact old data failed (((swapSteps removes).take m).foldl step w) ↔
      MayStop failed ((swapSteps removes).take m) := by
  have hnone : Intact old data failed w ↔ MayStop failed [] :=
    iff_of_true ⟨Or.inl (h.log hold), fun _ => h.tied.reached⟩ (by simp [MayStop])
  cases removes with
  | false =>
    match m with
    | 0 => exact hnone
    | 1 => exact (h.rename.intact_iff old failed).trans (by simp [MayStop, swapSteps])
    | m + 2 =>
      have hall : (swapSteps false).take (m + 2) = [.rename, .reopen] := by
        simp [swapSteps]
      rw [hall]
      exact iff_of_true (h.rename.intact old failed) (by simp [MayStop])
  | true =>
    match m with
    | 0 => exact hnone
    | 1 =>
      refine iff_of_false (fun hintact => ?_) (by simp [MayStop, swapSteps])
      have hlog : (w.step .removeFile).log = none := log_removeFile w
      rcases hintact.complete with hsame | hnew
      · rw [hold.log] at hsame
        cases hlog.symm.trans hsame
      · cases hlog.symm.trans hnew
    | 2 => exact (h.remove_rename.intact_iff old failed).trans (by simp [MayStop, swapSteps])
    | m + 3 =>
      have hall : (swapSteps true).take (m + 3) = [.removeFile, .rename, .reopen] := by
        simp [swapSteps]
      rw [hall]
      exact iff_of_true (h.remove_rename.intact old failed) (by simp [MayStop])

theorem mem_prepareSteps {s : RewriteStep} (h : s ∈ prepareSteps data) :
    s ≠ .removeFile ∧ s ≠ .rename ∧ s ≠ .reopen := by
  refine ⟨?_, ?_, ?_⟩ <;> rintro rfl <;> simp [prepareSteps] at h

theorem mayStop_prepare {failed : Bool} {steps : List RewriteStep} (n : ℕ) :
    MayStop failed ((prepareSteps data).take n ++ steps) ↔ MayStop failed steps := by
  have hmem : ∀ s : RewriteStep, (s = .removeFile ∨ s = .rename ∨ s = .reopen) →
      (s ∈ (prepareSteps data).take n ++ steps ↔ s ∈ steps) := by
    intro s hs
    rw [List.mem_append, or_iff_right]
    intro hprep
    obtain ⟨h1, h2, h3⟩ := mem_prepareSteps (List.mem_of_mem_take hprep)
    rcases hs with rfl | rfl | rfl
    · exact h1 rfl
    · exact h2 rfl
    · exact h3 rfl
  rw [MayStop, hmem _ (by simp), hmem _ (by simp), hmem _ (by simp), MayStop]

/-- **A rewrite may be interrupted after exactly these steps**, by a crash or by an error of the
next one: not between the removal of the log and the renaming, and not by an error of the
reopening. -/
theorem rewrite_intact_iff (hw : w.Tied) (H : Host) (now : UInt64) (dbs : Databases)
    (removes failed : Bool) (n : ℕ) :
    Intact w (writeDataset H now dbs) failed
        (((rewriteSteps removes (writeDataset H now dbs)).take n).foldl step w) ↔
      MayStop failed ((rewriteSteps removes (writeDataset H now dbs)).take n) := by
  generalize writeDataset H now dbs = data
  rw [rewriteSteps, List.take_append, mayStop_prepare, List.foldl_append]
  by_cases hn : n ≤ (prepareSteps data).length
  · -- the swap has not begun
    rw [Nat.sub_eq_zero_of_le hn]
    refine iff_of_true ?_ (by simp [MayStop])
    rcases hw.preparing data n with heq | ⟨data', hwriting⟩
    · rw [heq]
      exact ⟨Or.inl rfl, fun _ => hw.reached⟩
    · exact ⟨Or.inl (hwriting.log hw), fun _ => hwriting.tied.reached⟩
  · rw [List.take_of_length_le (Nat.le_of_not_le hn)]
    exact (hw.prepared data).swap_intact_iff hw removes failed _

/-- No files. -/
def noFiles : FileSystem AofPath where
  file _ := none
  contents _ := []
  next := 0
  file_lt _ _ h := absurd h (Option.some_ne_none _).symm

/-- A log with one command. -/
def oneCommandLog : AofFiles :=
  (AofFiles.opened noFiles).append (encodeCommandForAof [asBytes "SET", asBytes "k", asBytes "1"])

/-- A database in which the value has been overwritten since. -/
def overwritten : Databases :=
  (Store.new 1).databases.put 0 (asBytes "k") { value := .string (asBytes "2") }

/-- The new log. -/
def newLog : Bytes := writeDataset Host.plain 7 overwritten

theorem rewrite_intact_iff_written :
    Intact oneCommandLog newLog true
      (((rewriteSteps true newLog).take (prepareSteps newLog).length).foldl step
        oneCommandLog) := by
  have htied : oneCommandLog.Tied := (tied_opened (Or.inl rfl)).append _
  refine (rewrite_intact_iff htied Host.plain 7 overwritten true true _).mpr ?_
  unfold MayStop
  decide +kernel

/-- **A rewrite loses the log** when the process crashes after the removal, and every later command
when the reopening fails. -/
theorem rewrite_not_intact :
    ¬Intact oneCommandLog newLog false
      (((rewriteSteps true newLog).take ((prepareSteps newLog).length + 1)).foldl step
        oneCommandLog) ∧
    ¬Intact oneCommandLog newLog true
      (((rewriteSteps true newLog).take ((prepareSteps newLog).length + 2)).foldl step
        oneCommandLog) := by
  constructor
  · intro h
    exact absurd h.complete (by decide +kernel)
  · intro h
    obtain ⟨c, hc, hreached⟩ := h.reached rfl
    have hlog : c = newLog := by
      refine Option.some.inj (hc.symm.trans ?_)
      decide +kernel
    rw [hlog] at hreached
    exact absurd (hreached [0]) (by decide +kernel)

end VeloDB
