import VeloDB.Lib.FileSystem
import VeloDB.Lib.Run

/-!
# Replacing a file by renaming

To replace the file at a path, a program writes a new file under another name and renames it. Many
may do so at once, each under a name of its own, and any of them may stop anywhere. What is found at
the path is then always complete: it is what has been moved there last, or what was there before
anything was.

## Main results

* `Replacing.read_target` — what is at the path after a run
-/

/-- One replacement under way. -/
structure Job (P D : Type) where
  /-- The name of the new file. -/
  name : P
  data : D
  /-- The new file, when it has been made, and what is still to be written. -/
  opened : Option (ℕ × List UInt8) := none

/-- The files, and the replacements under way. -/
structure Replacing (T P D : Type) where
  fs : FileSystem P
  jobs : T → Option (Job P D)

/-- What can happen. -/
inductive ReplaceStep (T P D : Type)
  | start (t : T) (name : P) (data : D)
  | create (t : T)
  /-- The next bytes are written. -/
  | write (t : T) (n : ℕ)
  | rename (t : T)
  /-- One replacement is given up. -/
  | fail (t : T)
  /-- All of them are. -/
  | crash

namespace Replacing

variable {T P D : Type} [DecidableEq T] [DecidableEq P] {enc : D → List UInt8} {target : P}

/-- One step, when `enc` gives the bytes of the data. Steps that are not due do nothing. -/
def step (enc : D → List UInt8) (target : P) (s : Replacing T P D) :
    ReplaceStep T P D → Replacing T P D
  | .start t name data =>
    match s.jobs t with
    | none => { s with jobs := Function.update s.jobs t (some ⟨name, data, none⟩) }
    | some _ => s
  | .create t =>
    match s.jobs t with
    | some ⟨name, data, none⟩ =>
      ⟨(s.fs.create name).1,
        Function.update s.jobs t (some ⟨name, data, some ((s.fs.create name).2, enc data)⟩)⟩
    | _ => s
  | .write t n =>
    match s.jobs t with
    | some ⟨name, data, some (file, rest)⟩ =>
      ⟨s.fs.append file (rest.take n),
        Function.update s.jobs t (some ⟨name, data, some (file, rest.drop n)⟩)⟩
    | _ => s
  | .rename t =>
    match s.jobs t with
    | some ⟨name, _, some (_, [])⟩ =>
      ⟨s.fs.rename name target, Function.update s.jobs t none⟩
    | _ => s
  | .fail t => { s with jobs := Function.update s.jobs t none }
  | .crash => { s with jobs := fun _ => none }

/-- What a step moves to the path. -/
def moved (s : Replacing T P D) : ReplaceStep T P D → Option D
  | .rename t =>
    match s.jobs t with
    | some ⟨_, data, some (_, [])⟩ => some data
    | _ => none
  | _ => none

/-- A replacement starts under a name that is free: it is not the path itself, and nobody else is
using it. -/
def Fresh (target : P) (s : Replacing T P D) : ReplaceStep T P D → Prop
  | .start _ name _ => name ≠ target ∧ ∀ u job, s.jobs u = some job → job.name ≠ name
  | _ => True

/-- What holds all the time, when `content` is what should be at the path. -/
structure Safe (enc : D → List UInt8) (target : P) (content : Option (List UInt8))
    (s : Replacing T P D) : Prop where
  unlinked : s.fs.Unlinked
  name_ne : ∀ t job, s.jobs t = some job → job.name ≠ target
  distinct : ∀ t u job job', t ≠ u → s.jobs t = some job → s.jobs u = some job' →
    job.name ≠ job'.name
  /-- What has been written and what is still to be written make up the data. -/
  written : ∀ t job file rest, s.jobs t = some job → job.opened = some (file, rest) →
    s.fs.file job.name = some file ∧ s.fs.contents file ++ rest = enc job.data
  content : s.fs.read target = content

omit [DecidableEq P] in
/-- A job is the one that has been changed, or another. -/
theorem jobs_update {jobs : T → Option (Job P D)} {t u : T} {o : Option (Job P D)} {job : Job P D}
    (h : Function.update jobs t o u = some job) :
    (u = t ∧ o = some job) ∨ (u ≠ t ∧ jobs u = some job) := by
  by_cases hut : u = t
  · subst hut
    rw [Function.update_self] at h
    exact Or.inl ⟨rfl, h⟩
  · rw [Function.update_of_ne hut] at h
    exact Or.inr ⟨hut, h⟩

namespace Safe

variable {content content' : Option (List UInt8)} {s : Replacing T P D} {t : T}

omit [DecidableEq P] in
/-- A job is changed, or is over, and the others do not notice. -/
theorem update (h : Safe enc target content s) {fs : FileSystem P} {o : Option (Job P D)}
    (hunlinked : fs.Unlinked) (hname : ∀ job ∈ o, job.name ≠ target)
    (hdistinct : ∀ job ∈ o, ∀ u job', u ≠ t → s.jobs u = some job' → job'.name ≠ job.name)
    (hwritten : ∀ job ∈ o, ∀ file rest, job.opened = some (file, rest) →
      fs.file job.name = some file ∧ fs.contents file ++ rest = enc job.data)
    (hothers : ∀ u job' file, u ≠ t → s.jobs u = some job' → s.fs.file job'.name = some file →
      fs.file job'.name = some file ∧ fs.contents file = s.fs.contents file)
    (hcontent : fs.read target = content') :
    Safe enc target content' ⟨fs, Function.update s.jobs t o⟩ where
  unlinked := hunlinked
  name_ne u job' hu := by
    rcases jobs_update hu with ⟨-, ho⟩ | ⟨-, hu⟩
    · exact hname job' ho
    · exact h.name_ne u job' hu
  distinct u v job₁ job₂ huv hu hv := by
    rcases jobs_update hu with ⟨rfl, ho⟩ | ⟨hut, hu⟩
    · rcases jobs_update hv with ⟨rfl, -⟩ | ⟨hvt, hv⟩
      · exact absurd rfl huv
      · exact (hdistinct job₁ ho v job₂ hvt hv).symm
    · rcases jobs_update hv with ⟨-, ho⟩ | ⟨-, hv⟩
      · exact hdistinct job₂ ho u job₁ hut hu
      · exact h.distinct u v job₁ job₂ huv hu hv
  written u job' file rest hu hopened := by
    rcases jobs_update hu with ⟨-, ho⟩ | ⟨hut, hu⟩
    · exact hwritten job' ho file rest hopened
    · obtain ⟨hfile, hdata⟩ := h.written u job' file rest hu hopened
      obtain ⟨hfile', hsame⟩ := hothers u job' file hut hu hfile
      exact ⟨hfile', hsame ▸ hdata⟩
  content := hcontent

theorem create (h : Safe enc target content s) {name : P} {data : D}
    (ht : s.jobs t = some ⟨name, data, none⟩) :
    Safe enc target content ⟨(s.fs.create name).1,
      Function.update s.jobs t (some ⟨name, data, some ((s.fs.create name).2, enc data)⟩)⟩ := by
  obtain ⟨hother, hnew, hempty, hkeeps⟩ := FileSystem.create_spec s.fs name
  -- a file with another name is not the one that is made
  have hsame : ∀ q m, q ≠ name → s.fs.file q = some m →
      (s.fs.create name).1.file q = some m ∧
        (s.fs.create name).1.contents m = s.fs.contents m := by
    intro q m hq hm
    have hne : s.fs.file name ≠ some m := fun hname => hq (h.unlinked q name m hm hname)
    exact ⟨(hother q hq).trans hm, (hkeeps q m hm hne).2⟩
  have hdistinct : ∀ u job', u ≠ t → s.jobs u = some job' → job'.name ≠ name :=
    fun u job' hut hu => h.distinct u t job' _ hut hu ht
  have hname : name ≠ target := h.name_ne t _ ht
  refine h.update (h.unlinked.create name) (by rintro _ ⟨⟩; exact hname)
    (by rintro _ ⟨⟩; exact hdistinct) ?_
    (fun u job' file hut hu hfile => hsame job'.name file (hdistinct u job' hut hu) hfile) ?_
  · rintro _ ⟨⟩ file rest ⟨⟩
    exact ⟨hnew, by rw [hempty, List.nil_append]⟩
  · rw [← h.content, FileSystem.read, FileSystem.read, hother target hname.symm]
    cases hm : s.fs.file target with
    | none => rfl
    | some m => exact congrArg some (hsame target m hname.symm hm).2

omit [DecidableEq P] in
theorem write (h : Safe enc target content s) {name : P} {data : D}
    {rest : List UInt8} {file : ℕ}
    (ht : s.jobs t = some ⟨name, data, some (file, rest)⟩) (n : ℕ) :
    Safe enc target content ⟨s.fs.append file (rest.take n),
      Function.update s.jobs t (some ⟨name, data, some (file, rest.drop n)⟩)⟩ := by
  obtain ⟨hfile, hdata⟩ := h.written t _ file rest ht rfl
  have hsame : ∀ q m, q ≠ name → s.fs.file q = some m →
      (s.fs.append file (rest.take n)).contents m = s.fs.contents m := by
    intro q m hq hm
    refine FileSystem.contents_append_of_ne ?_
    rintro rfl
    exact hq (h.unlinked q name m hm hfile)
  have hdistinct : ∀ u job', u ≠ t → s.jobs u = some job' → job'.name ≠ name :=
    fun u job' hut hu => h.distinct u t job' _ hut hu ht
  have hname : name ≠ target := h.name_ne t _ ht
  refine h.update (h.unlinked.append _ _) (by rintro _ ⟨⟩; exact hname)
    (by rintro _ ⟨⟩; exact hdistinct) ?_
    (fun u job' m hut hu hm => ⟨hm, hsame job'.name m (hdistinct u job' hut hu) hm⟩) ?_
  · rintro _ ⟨⟩ _ _ ⟨⟩
    refine ⟨hfile, ?_⟩
    rw [FileSystem.contents_append_self, List.append_assoc, List.take_append_drop]
    exact hdata
  · rw [← h.content, FileSystem.read, FileSystem.read, FileSystem.file_append]
    cases hm : s.fs.file target with
    | none => rfl
    | some m => exact congrArg some (hsame target m hname.symm hm)

theorem rename (h : Safe enc target content s) {name : P} {data : D} {file : ℕ}
    (ht : s.jobs t = some ⟨name, data, some (file, [])⟩) :
    Safe enc target (some (enc data)) ⟨s.fs.rename name target, Function.update s.jobs t none⟩ := by
  obtain ⟨hfile, hdata⟩ := h.written t _ file [] ht rfl
  have hname : name ≠ target := h.name_ne t _ ht
  refine h.update (h.unlinked.rename hname.symm) nofun nofun nofun
    (fun u job' m hut hu hm => ⟨?_, rfl⟩) ?_
  · rw [FileSystem.file_rename_of_ne (h.distinct u t job' _ hut hu ht) (h.name_ne u job' hu), hm]
  · have htarget : (s.fs.rename name target).file target = some file :=
      (FileSystem.file_rename_new hname.symm).trans hfile
    rw [List.append_nil] at hdata
    exact (FileSystem.read_eq htarget).trans (congrArg some hdata)

omit [DecidableEq T] [DecidableEq P] in
/-- Nothing is under way. -/
theorem idle (hunlinked : s.fs.Unlinked) (hidle : ∀ t, s.jobs t = none) :
    Safe enc target (s.fs.read target) s := by
  have hnone : ∀ t job, s.jobs t ≠ some job := fun t job h => by cases (hidle t).symm.trans h
  exact ⟨hunlinked, fun t job h => absurd h (hnone t job),
    fun t _ job _ _ h => absurd h (hnone t job), fun t job _ _ h => absurd h (hnone t job), rfl⟩

/-- **One step.** -/
theorem step (h : Safe enc target content s) {e : ReplaceStep T P D} (he : s.Fresh target e) :
    Safe enc target (((s.moved e).map enc).or content) (s.step enc target e) := by
  cases e with
  | start t name data =>
    rw [Replacing.step]
    cases ht : s.jobs t with
    | some job => exact h
    | none =>
      exact h.update h.unlinked (by rintro _ ⟨⟩; exact he.1)
        (by rintro _ ⟨⟩ u job' - hu; exact he.2 u job' hu) (by rintro _ ⟨⟩ _ _ ⟨⟩)
        (fun _ _ _ _ _ hfile => ⟨hfile, rfl⟩) h.content
  | create t =>
    rw [Replacing.step]
    rcases ht : s.jobs t with _ | ⟨name, data, _ | _⟩
    · exact h
    · exact h.create ht
    · exact h
  | write t n =>
    rw [Replacing.step]
    rcases ht : s.jobs t with _ | ⟨name, data, _ | ⟨file, rest⟩⟩
    · exact h
    · exact h
    · exact h.write ht n
  | rename t =>
    rw [Replacing.step, moved]
    rcases ht : s.jobs t with _ | ⟨name, data, _ | ⟨file, _ | ⟨b, rest⟩⟩⟩
    · exact h
    · exact h
    · exact h.rename ht
    · exact h
  | fail t =>
    exact h.update h.unlinked nofun nofun nofun (fun _ _ _ _ _ hfile => ⟨hfile, rfl⟩) h.content
  | crash =>
    exact ⟨h.unlinked, fun _ _ hu => absurd hu (Option.some_ne_none _).symm,
      fun _ _ _ _ _ hu => absurd hu (Option.some_ne_none _).symm,
      fun _ _ _ _ hu => absurd hu (Option.some_ne_none _).symm, h.content⟩

end Safe

/-- A job keeps its name. -/
theorem name_step {s : Replacing T P D} {e : ReplaceStep T P D} {t : T} {job : Job P D}
    (h : (s.step enc target e).jobs t = some job) :
    (∃ data, e = .start t job.name data) ∨ ∃ old, s.jobs t = some old ∧ old.name = job.name := by
  have hsame : s.jobs t = some job → ∃ old, s.jobs t = some old ∧ old.name = job.name :=
    fun h => ⟨job, h, rfl⟩
  cases e with
  | start u name data =>
    rw [step] at h
    cases hu : s.jobs u with
    | some old =>
      rw [hu] at h
      exact Or.inr (hsame h)
    | none =>
      rw [hu] at h
      rcases jobs_update h with ⟨rfl, ⟨⟩⟩ | ⟨-, h⟩
      · exact Or.inl ⟨data, rfl⟩
      · exact Or.inr (hsame h)
  | create u =>
    rw [step] at h
    rcases hu : s.jobs u with _ | ⟨name, data, _ | _⟩
    · exact Or.inr (hsame (by rwa [hu] at h))
    · rw [hu] at h
      rcases jobs_update h with ⟨rfl, ⟨⟩⟩ | ⟨-, h⟩
      · exact Or.inr ⟨_, hu, rfl⟩
      · exact Or.inr (hsame h)
    · exact Or.inr (hsame (by rwa [hu] at h))
  | write u n =>
    rw [step] at h
    rcases hu : s.jobs u with _ | ⟨name, data, _ | ⟨file, rest⟩⟩
    · exact Or.inr (hsame (by rwa [hu] at h))
    · exact Or.inr (hsame (by rwa [hu] at h))
    · rw [hu] at h
      rcases jobs_update h with ⟨rfl, ⟨⟩⟩ | ⟨-, h⟩
      · exact Or.inr ⟨_, hu, rfl⟩
      · exact Or.inr (hsame h)
  | rename u =>
    rw [step] at h
    rcases hu : s.jobs u with _ | ⟨name, data, _ | ⟨file, _ | ⟨b, rest⟩⟩⟩
    · exact Or.inr (hsame (by rwa [hu] at h))
    · exact Or.inr (hsame (by rwa [hu] at h))
    · rw [hu] at h
      rcases jobs_update h with ⟨-, ⟨⟩⟩ | ⟨-, h⟩
      exact Or.inr (hsame h)
    · exact Or.inr (hsame (by rwa [hu] at h))
  | fail u =>
    rcases jobs_update h with ⟨-, ⟨⟩⟩ | ⟨-, h⟩
    exact Or.inr (hsame h)
  | crash => cases h

/-- What has been moved to the path in a run, one after the other. -/
def allMoved (enc : D → List UInt8) (target : P) :
    Replacing T P D → List (ReplaceStep T P D) → List D :=
  Run.gathered (step enc target) fun s e => (s.moved e).toList

/-- **What is at the path** has been moved there last, or has always been there. -/
theorem Safe.read_target {content : Option (List UInt8)} {s : Replacing T P D}
    (h : Safe enc target content s) {es : List (ReplaceStep T P D)}
    (hes : Run.Along (Replacing.step enc target) (Fresh target) s es) :
    (es.foldl (Replacing.step enc target) s).fs.read target
      = ((allMoved enc target s es).getLast?.map enc).or content := by
  induction es generalizing s content with
  | nil => exact h.content
  | cons e es ih =>
    have hrest := ih (h.step hes.1) hes.2
    have hall : allMoved enc target s (e :: es)
        = (s.moved e).toList ++ allMoved enc target (s.step enc target e) es := rfl
    rw [List.foldl_cons, hrest, hall, List.getLast?_append]
    cases (allMoved enc target (s.step enc target e) es).getLast? with
    | some data => rfl
    | none => cases s.moved e <;> rfl

end Replacing
