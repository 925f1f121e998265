import Reckon.Files.FileSystem

/-!
# Jobs

A `Job` is a result that may need one file written before it is known. It holds the order to write
and says what follows from each answer, so that the decisions of the program are made in plain
functions and can be run on a `FileSystem` value as well as on a disk.
-/

namespace Reckon

/-- Write `content` to the file `path`, creating or replacing it; before that, make `directory?` and
what is missing above it. -/
structure WriteOrder where
  path : Path
  directory? : Option Path
  content : Bytes

/-- The step at which an order failed. -/
inductive WriteFailure
  | directory (cause : SystemError)
  | create (cause : SystemError)
  | write (cause : SystemError)
  deriving DecidableEq

inductive Job (α : Type)
  | done (result : α)
  | write (order : WriteOrder) (resume : Except WriteFailure Unit → α)

namespace Job

variable {α β : Type}

def map (f : α → β) : Job α → Job β
  | done result => done (f result)
  | write order resume => write order fun answer => f (resume answer)

/-- The results that a job can come to, whatever becomes of its order. -/
inductive MayReturn : Job α → α → Prop
  | done (result : α) : MayReturn (done result) result
  | write (order : WriteOrder) (resume : Except WriteFailure Unit → α)
      (answer : Except WriteFailure Unit) : MayReturn (write order resume) (resume answer)

theorem mayReturn_done_iff {a b : α} : (done a).MayReturn b ↔ b = a := by
  constructor
  · rintro ⟨⟩
    rfl
  · rintro rfl
    exact .done b

theorem mayReturn_map_iff {f : α → β} {job : Job α} {b : β} :
    (job.map f).MayReturn b ↔ ∃ a, job.MayReturn a ∧ b = f a := by
  constructor
  · intro h
    cases job with
    | done result =>
      cases h
      exact ⟨result, .done result, rfl⟩
    | write order resume =>
      obtain _ | ⟨_, _, answer⟩ := h
      exact ⟨resume answer, .write order resume answer, rfl⟩
  · rintro ⟨a, ⟨⟩ | ⟨order, resume, answer⟩, rfl⟩
    · exact .done (f a)
    · exact .write order (fun answer => f (resume answer)) answer

end Job

namespace FileSystem

/-- Writes to a file, which loses its old content first. A device that is full takes no byte, but
has nothing against an empty content. -/
def writeFile (fs : FileSystem) (p : Path) (content : Bytes) :
    FileSystem × Except WriteFailure Unit :=
  match fs.filePlace p with
  | .error cause => (fs, .error (.create cause))
  | .ok loc =>
    match fs.nodeAt? loc with
    | some (.device .full) =>
      (fs, if content = [] then .ok () else .error (.write .noSpace))
    | some (.device .null) => (fs, .ok ())
    | _ => (fs.place loc (.file content), .ok ())

/-- Carries out an order. -/
def perform (fs : FileSystem) (order : WriteOrder) : FileSystem × Except WriteFailure Unit :=
  match order.directory? with
  | none => fs.writeFile order.path order.content
  | some directory =>
    match fs.makeDirectories directory with
    | (fs, .error cause) => (fs, .error (.directory cause))
    | (fs, .ok ()) => fs.writeFile order.path order.content

/-- The result of a job, and the file system after it. -/
def run {α : Type} (fs : FileSystem) : Job α → FileSystem × α
  | .done result => (fs, result)
  | .write order resume =>
    match fs.perform order with
    | (fs, answer) => (fs, resume answer)

@[simp] theorem run_done {α : Type} (fs : FileSystem) (a : α) : fs.run (.done a) = (fs, a) := rfl

theorem run_write {α : Type} (fs : FileSystem) (order : WriteOrder)
    (resume : Except WriteFailure Unit → α) :
    fs.run (.write order resume) = ((fs.perform order).1, resume (fs.perform order).2) := rfl

theorem mayReturn_run {α : Type} (fs : FileSystem) (job : Job α) :
    job.MayReturn (fs.run job).2 := by
  cases job with
  | done result => exact .done result
  | write order resume => exact .write order resume _

theorem run_map {α β : Type} (fs : FileSystem) (f : α → β) (job : Job α) :
    fs.run (job.map f) = ((fs.run job).1, f (fs.run job).2) := by
  cases job <;> rfl

end FileSystem

end Reckon
