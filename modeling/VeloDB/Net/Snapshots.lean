import VeloDB.Lib.Replacement
import VeloDB.Lib.Text
import VeloDB.Net.Startup

/-!
# Snapshots in the background

`bgsave` writes a temporary file and renames it. The server saves at its start, every minute and at
its end, and does not wait for one save to end before it begins another, so several may be on their
way. Each takes a name with a number from `unique_temp_id`, which counts up as long as the process
lives; a later process, which may have the same id, begins at 0 again and may come across what an
earlier one has left behind.

Whatever is interrupted where, the path of the snapshot has the one that was completed last, as a
whole, and the next start loads it.

## Main results

* `bgsave_replaces` — what is at the path of the snapshot
-/

namespace VeloDB

open Rust

/-! ### Names -/

/-- `temp_path` of `bgsave`. -/
def tempPath (dir : String) (pid : ℕ) (id : UInt64) : String :=
  dir ++ "/temp-" ++ toString pid ++ "-" ++ toString id.toNat ++ ".rdb"

/-- `final_path` of `bgsave`. -/
def finalPath (dir filename : String) : String := dir ++ "/" ++ filename

theorem tempPath_injective (dir : String) (pid : ℕ) : Function.Injective (tempPath dir pid) := by
  intro id id' h
  have hlist := congrArg String.toList h
  simp only [tempPath, String.toList_append] at hlist
  have hid := List.append_cancel_left (List.append_cancel_right hlist)
  exact UInt64.toNat_inj.mp (toString_nat_injective (String.toList_injective hid))

/-! ### Saves -/

/-- `unique_temp_id`: the number, and the counter afterwards. -/
def uniqueTempId (counter : UInt64) : UInt64 × UInt64 := (counter, counter + 1)

/-- The files, the saves that are on their way, and the process. -/
structure Saver (T : Type) where
  files : Replacing T String Snapshot
  pid : ℕ
  counter : UInt64 := 0

/-- What can happen. -/
inductive SaverEvent (T : Type)
  /-- A save begins, with what `save_rdb` has put into its buffer. -/
  | bgsave (t : T) (snap : Snapshot)
  /-- `fs::write` makes the file, and writes it piece by piece. -/
  | create (t : T)
  | write (t : T) (n : ℕ)
  | rename (t : T)
  /-- One of these fails. -/
  | fail (t : T)
  /-- The process ends, with whatever it is doing, and another one starts. -/
  | restart (pid : ℕ)

namespace Saver

variable {T : Type} [DecidableEq T] (dir filename : String)

/-- What an event does to the files. -/
def toStep (s : Saver T) : SaverEvent T → ReplaceStep T String Snapshot
  | .bgsave t snap => .start t (tempPath dir s.pid (uniqueTempId s.counter).1) snap
  | .create t => .create t
  | .write t n => .write t n
  | .rename t => .rename t
  | .fail t => .fail t
  | .restart _ => .crash

/-- One event. -/
def next (s : Saver T) (e : SaverEvent T) : Saver T :=
  let files := s.files.step Snapshot.file (finalPath dir filename) (s.toStep dir e)
  match e with
  | .bgsave _ _ => { s with files, counter := (uniqueTempId s.counter).2 }
  | .restart pid => { files, pid }
  | _ => { s with files }

/-- The snapshots that have been completed in a run, one after the other. -/
def completed : Saver T → List (SaverEvent T) → List Snapshot :=
  Run.gathered (next dir filename) fun s e => (s.files.moved (s.toStep dir e)).toList

/-- The file at the path of the snapshot. -/
def rdb (s : Saver T) : Option Bytes := s.files.fs.read (finalPath dir filename)

/-- The saves that are on their way have numbers that have been given out. -/
def Named (s : Saver T) : Prop := ∀ t job, s.files.jobs t = some job →
  ∃ id : UInt64, id < s.counter ∧ job.name = tempPath dir s.pid id

section Runs

variable {dir filename : String} {s : Saver T}

theorem files_next (s : Saver T) (e : SaverEvent T) : (s.next dir filename e).files
    = s.files.step Snapshot.file (finalPath dir filename) (s.toStep dir e) := by
  cases e <;> rfl

omit [DecidableEq T] in
theorem Named.fresh (h : s.Named dir)
    (hname : ∀ pid id, tempPath dir pid id ≠ finalPath dir filename) (e : SaverEvent T) :
    s.files.Fresh (finalPath dir filename) (s.toStep dir e) := by
  cases e with
  | bgsave t snap =>
    refine ⟨hname _ _, fun u job hu heq => ?_⟩
    obtain ⟨id, hid, hjob⟩ := h u job hu
    have hsame : id = s.counter := tempPath_injective dir s.pid (hjob.symm.trans heq)
    exact absurd hid (hsame ▸ UInt64.lt_irrefl _)
  | _ => trivial

/-- As long as the counter does not wrap. -/
theorem Named.next (h : s.Named dir) (hfew : s.counter.toNat + 1 < 2 ^ 64) (e : SaverEvent T) :
    (s.next dir filename e).Named dir := by
  have hlt : s.counter < s.counter + 1 := by
    rw [UInt64.lt_iff_toNat_lt, UInt64.toNat_add, UInt64.toNat_one, Nat.mod_eq_of_lt hfew]
    exact Nat.lt_succ_self _
  intro t job hjob
  rw [files_next] at hjob
  cases e with
  | bgsave u snap =>
    rcases Replacing.name_step hjob with ⟨data, he⟩ | ⟨old, hold, hname⟩
    · injection he with _ hname
      exact ⟨s.counter, hlt, hname.symm⟩
    · obtain ⟨id, hid, hold⟩ := h t old hold
      exact ⟨id, UInt64.lt_trans hid hlt, hname ▸ hold⟩
  | restart pid => cases hjob
  | create u | write u n | rename u | fail u =>
    rcases Replacing.name_step hjob with ⟨data, ⟨⟩⟩ | ⟨old, hold, hname⟩
    · obtain ⟨id, hid, hold⟩ := h t old hold
      exact ⟨id, hid, hname ▸ hold⟩

/-- A run is one of replacements under free names. -/
theorem Named.steps (h : s.Named dir)
    (hname : ∀ pid id, tempPath dir pid id ≠ finalPath dir filename) {es : List (SaverEvent T)}
    (hfew : Run.Along (Saver.next dir filename) (fun s _ => s.counter.toNat + 1 < 2 ^ 64) s es) :
    ∃ steps, Run.Along (Replacing.step Snapshot.file (finalPath dir filename))
        (Replacing.Fresh (finalPath dir filename)) s.files steps ∧
      steps.foldl (Replacing.step Snapshot.file (finalPath dir filename)) s.files
        = (es.foldl (Saver.next dir filename) s).files ∧
      Replacing.allMoved Snapshot.file (finalPath dir filename) s.files steps
        = completed dir filename s es := by
  induction es generalizing s with
  | nil => exact ⟨[], trivial, rfl, rfl⟩
  | cons e es ih =>
    obtain ⟨steps, hfresh, hend, hmoved⟩ := ih (h.next hfew.1 e) hfew.2
    rw [files_next] at hfresh hend hmoved
    exact ⟨s.toStep dir e :: steps, ⟨h.fresh hname e, hfresh⟩, hend, congrArg _ hmoved⟩

end Runs

end Saver

/-- **The path of the snapshot** has the one that was completed last, as a whole, or what was there
before: whatever saves overlap, and wherever they or the process are interrupted. The next start
brings it back. -/
theorem bgsave_replaces {T : Type} [DecidableEq T] {dir filename : String}
    (hname : ∀ pid id, tempPath dir pid id ≠ finalPath dir filename) {s : Saver T}
    (hunlinked : s.files.fs.Unlinked) (hidle : ∀ t, s.files.jobs t = none)
    {es : List (SaverEvent T)}
    (hfew : Run.Along (Saver.next dir filename) (fun s _ => s.counter.toNat + 1 < 2 ^ 64) s es) :
    (es.foldl (Saver.next dir filename) s).rdb dir filename
        = ((Saver.completed dir filename s es).getLast?.map Snapshot.file).or (s.rdb dir filename) ∧
      ∀ snap, (Saver.completed dir filename s es).getLast? = some snap →
        Numbered snap.now snap.databases → FitsLive snap.now snap.databases →
        ∀ (H : Host) (clock : ℕ → Moment) (appendonly : Bool) (aof : Option Bytes) (t : UInt64),
          snap.now ≤ t → BroughtBack t snap.databases
            (startup H clock snap.databases.length appendonly
              ((es.foldl (Saver.next dir filename) s).rdb dir filename) aof).databases := by
  have hsafe : Replacing.Safe Snapshot.file (finalPath dir filename) (s.rdb dir filename) s.files :=
    .idle hunlinked hidle
  have hnamed : s.Named dir := fun t job h => by cases (hidle t).symm.trans h
  obtain ⟨steps, hfresh, hend, hmoved⟩ := hnamed.steps hname hfew
  have hread := hsafe.read_target hfresh
  rw [hend, hmoved] at hread
  refine ⟨hread, fun snap hlast hnumbered hfits H clock appendonly aof t ht => ?_⟩
  have hrdb : (es.foldl (Saver.next dir filename) s).rdb dir filename = some snap.file := by
    rw [Saver.rdb, hread, hlast]
    rfl
  rw [hrdb]
  exact broughtBack_loadRdb snap hnumbered hfits ht

/-- One database with one key. -/
def singleKey : Databases := (Store.new 1).databases.put 0 [107] { value := .string [49] }

def Snapshot.small : Snapshot where
  now := 7
  databases := singleKey
  file := (saveRdb 7 singleKey 1).toOption.getD []
  saved := by decide +kernel

/-- A process that has no files. -/
def idleSaver : Saver Bool where
  files := ⟨⟨fun _ => none, fun _ => [], 0, by rintro _ _ ⟨⟩⟩, fun _ => none⟩
  pid := 1

/-- Two saves overlap, and the process ends in the middle of the second one. -/
def interruptedSaves : List (SaverEvent Bool) :=
  [.bgsave false .small, .bgsave true .small, .create true, .create false, .write true 3,
    .write false 100, .rename false, .write true 5, .restart 1, .bgsave true .small, .create true]

theorem bgsave_replaces_interrupted :
    (interruptedSaves.foldl (Saver.next "." "dump.rdb") idleSaver).rdb "." "dump.rdb"
      = some Snapshot.small.file := by
  have hname : ∀ pid id, tempPath "." pid id ≠ finalPath "." "dump.rdb" := by
    intro pid id h
    have hlist := congrArg String.toList h
    simp [tempPath, finalPath] at hlist
  have hunlinked : idleSaver.files.fs.Unlinked := by rintro _ _ _ ⟨⟩
  have hfew : Run.Along (Saver.next "." "dump.rdb") (fun s _ => s.counter.toNat + 1 < 2 ^ 64)
      idleSaver interruptedSaves := by decide +kernel
  have hlast : ((Saver.completed "." "dump.rdb" idleSaver interruptedSaves).getLast?.map
      Snapshot.file) = some Snapshot.small.file := by decide +kernel
  rw [(bgsave_replaces hname hunlinked (fun _ => rfl) hfew).1, hlast]
  rfl

end VeloDB
