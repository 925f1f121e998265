import Reckon.Proofs.Places
import Reckon.Session.Run

/-!
# Disks that may refuse

A real disk can refuse any step of an order, also one that `FileSystem.perform` gets done: a
directory, the file, or some of its bytes. `FileSystem.MayPerform` allows for that, and has
`perform` as one case; `FileSystem.MayRun` says the same of a job, and `Session.MayRun` of a whole
session, where each order may be refused anew.

What is said of every such run is said in particular of the run on a disk that does what it can
(`Session.mayRun_run`).
-/

namespace Reckon

/-! ## Orders and jobs

A refusal can come at three points of an order. The directories are made from the top downwards, so
at the first point only those above the refused one have been made. -/

namespace FileSystem

variable {fs fs' : FileSystem}

/-- What can become of an order. If a step is refused that `perform` would get done, what was done
before it stays. -/
inductive MayPerform (fs : FileSystem) (order : WriteOrder) :
    FileSystem → Except WriteFailure Unit → Prop
  | performed : MayPerform fs order (fs.perform order).1 (fs.perform order).2
  /-- The directories above this one are there or were made. -/
  | directoryRefused (cause : SystemError) (level : Nat)
      (hlevel : level < order.directories.length) :
      MayPerform fs order (fs.makeMissing (order.directories.drop (level + 1))).1
        (.error (.directory cause))
  | fileRefused (cause : SystemError) (mid : FileSystem)
      (hmade : fs.makeMissing order.directories = (mid, .ok ())) :
      MayPerform fs order mid (.error (.create cause))
  /-- The old content is gone, and of the new one there is some part, if any. -/
  | brokenOff (cause : SystemError) (mid : FileSystem) (loc : Location) (left : Bytes)
      (hmade : fs.makeMissing order.directories = (mid, .ok ()))
      (hplace : mid.filePlace order.path = .ok loc)
      (hfile : ∀ d, mid.nodeAt? loc ≠ some (.device d)) :
      MayPerform fs order (mid.place loc (.file left)) (.error (.write cause))

/-- What can become of a job. -/
inductive MayRun {α : Type} (fs : FileSystem) : Job α → FileSystem → α → Prop
  | done (result : α) : MayRun fs (.done result) fs result
  | write {order : WriteOrder} {resume : Except WriteFailure Unit → α} {fs' : FileSystem}
      {answer : Except WriteFailure Unit} (h : MayPerform fs order fs' answer) :
      MayRun fs (.write order resume) fs' (resume answer)

/-- The disk may do all that it can. -/
theorem mayRun_run {α : Type} (fs : FileSystem) (job : Job α) :
    MayRun fs job (fs.run job).1 (fs.run job).2 := by
  cases job with
  | done result => exact .done result
  | write order resume => exact .write .performed

/-- What is made of the result afterwards does not matter to the disk. -/
theorem MayRun.map {α β : Type} {job : Job α} {result : α} (h : MayRun fs job fs' result)
    (f : α → β) : MayRun fs (job.map f) fs' (f result) := by
  cases h with
  | done => exact .done (f result)
  | write h => exact .write h

/-- The results on any disk are among those that the job may return. -/
theorem MayRun.mayReturn {α : Type} {job : Job α} {result : α} (h : MayRun fs job fs' result) :
    job.MayReturn result := by
  cases h with
  | done => exact .done result
  | @write order resume fs' answer h => exact .write order resume answer

/-- The result of a job on a disk that takes no file: an order fails where its file is created. -/
def refused {α : Type} (cause : SystemError) : Job α → α
  | .done result => result
  | .write _ resume => resume (.error (.create cause))

/-- No file need be taken, if no directory is to be made first. -/
theorem mayRun_refused {α : Type} (fs : FileSystem) (cause : SystemError) {job : Job α}
    (h : ∀ order resume, job = .write order resume → order.directory? = none) :
    MayRun fs job fs (refused cause job) := by
  cases job with
  | done result => exact .done result
  | write order resume =>
    have hdirectories : order.directories = [] := by
      rw [WriteOrder.directories, h order resume rfl]
    exact .write (.fileRefused cause fs (by rw [hdirectories]; rfl))

end FileSystem

/-! ## Sessions

The refusals of different orders have nothing to do with each other: a session that goes on after a
failed save may well succeed with the next. -/

namespace Session

/-- What can become of a session that goes on until it has stopped. Each line is answered on the
files that the lines before it left, and what is not read is left for later. -/
inductive MayRunLines : Session → FileSystem → List Text → Progress → Prop
  | stopped {s : Session} (fs : FileSystem) (lines : List Text) (h : s.stopped = true) :
      MayRunLines s fs lines ⟨fs, s, [], lines⟩
  | endOfInput {s : Session} (fs : FileSystem) (h : s.stopped = false) :
      MayRunLines s fs [] ⟨fs, s.endOfInput, s.preface ++ [.asked s.question.prompt none], []⟩
  | answered {s : Session} {fs fs' : FileSystem} {line : Text} {rest : List Text} {t : Turn}
      {p : Progress} (h : s.stopped = false)
      (hturn : fs.MayRun (s.answer fs.workingPath? line) fs' t)
      (hrest : MayRunLines t.session fs' rest p) :
      MayRunLines s fs (line :: rest)
        (p.after (s.preface ++ .asked s.question.prompt (some line) :: t.events))

/-- What can become of a whole session. -/
def MayRun (s : Session) (fs : FileSystem) (lines : List Text) (p : Progress) : Prop :=
  ∃ q, s.MayRunLines fs lines q
    ∧ p = { q with events := q.events ++ [.logged ⟨.info, "session finished".toList⟩] }

/-- Up to where it stops, the session on a disk that does what it can is one that may be. -/
theorem mayRunLines_runLines (s : Session) (fs : FileSystem) (lines : List Text) :
    s.MayRunLines fs lines (s.runLines fs lines) := by
  -- on the lines, along the recursion of `runLines`, with every order performed
  induction lines generalizing s fs with
  | nil =>
    rw [runLines]
    split
    · next h => exact .stopped fs [] h
    · next h => exact .endOfInput fs (eq_false_of_ne_true h)
  | cons line rest ih =>
    rw [runLines]
    split
    · next h => exact .stopped fs (line :: rest) h
    · next h =>
      exact .answered (eq_false_of_ne_true h) (fs.mayRun_run (s.answer fs.workingPath? line))
        (ih (s.turn fs line).2.session (s.turn fs line).1)

/-- Nothing need be refused. -/
theorem mayRun_run (s : Session) (fs : FileSystem) (lines : List Text) :
    s.MayRun fs lines (s.run fs lines) :=
  ⟨s.runLines fs lines, s.mayRunLines_runLines fs lines, rfl⟩

end Session

end Reckon
