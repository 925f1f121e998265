import Reckon.Files.Job
import Reckon.History.FileFormat
import Reckon.Log
import Reckon.Text.Quoted

/-!
# The history

The entries of all calculations, in the order in which they were made, and the path of the file
that keeps them. Opening reads the file as far as it can be read; recording puts the entry in
memory first and then writes the whole file, so that an entry is kept even when writing fails and
is written with the next one that succeeds.
-/

namespace Reckon

/-- Why the history file was not written. -/
inductive SaveError
  | notOpened (path : Path)
  | system (cause : SystemError)
  deriving DecidableEq

def SaveError.message : SaveError → Text
  | notOpened path => "cannot open ".toList ++ path
  | system cause => cause.message

structure History where
  path : Path
  entries : List Entry
  deriving DecidableEq

namespace History

/-- The bytes that count of a reading. Where a fault broke it off, the line in which that happened
is lost as a whole. -/
def bytesOf : ReadResult → Bytes
  | .unopened _ => []
  | .content bytes => bytes
  | .broken before _ => HistoryFile.wholeLines before

/-- The history in the file at `path`, which gave `result` when it was read. -/
def opened (path : Path) (result : ReadResult) : History :=
  ⟨path, HistoryFile.entries (bytesOf result)⟩

def malformedWarning (line : Text) : LogRecord :=
  ⟨.warn, "discarding malformed history line ".toList ++ Text.quoted line⟩

/-- What is noted about a file that could not be read, or not to its end. -/
def readRecords (path : Path) : ReadResult → List LogRecord
  | .unopened .noSuchFile => [⟨.debug, "no history at ".toList ++ path⟩]
  | .unopened cause => [⟨.error, "failed to load history: ".toList ++ cause.message⟩]
  | .content _ => []
  | .broken before cause =>
    [⟨.error, "stopped reading ".toList ++ path ++ " after ".toList
      ++ Numeral.write (HistoryFile.entries (HistoryFile.wholeLines before)).length
      ++ " entries: ".toList
      ++ cause.message⟩]

/-- What is noted while a history is opened. -/
def openLog (path : Path) (result : ReadResult) : List LogRecord :=
  (HistoryFile.malformed (bytesOf result)).map malformedWarning
    ++ readRecords path result
    ++ [⟨.info, "loaded ".toList ++ Numeral.write (opened path result).entries.length
        ++ " history entries from ".toList ++ path⟩]

/-- What comes of recording an entry. -/
structure Recorded where
  history : History
  outcome : Except SaveError Unit
  log : List LogRecord

/-- The order to write the whole history. -/
def saveOrder (h : History) : WriteOrder :=
  ⟨h.path, none, HistoryFile.content h.entries⟩

/-- What follows from the answer to `saveOrder`. -/
def saved (h : History) (answer : Except WriteFailure Unit) : Recorded :=
  let failed (e : SaveError) : Recorded :=
    ⟨h, .error e, [⟨.error, "failed to save history: ".toList ++ e.message⟩]⟩
  match answer with
  | .ok () =>
    ⟨h, .ok (), [⟨.debug, "wrote ".toList ++ Numeral.write h.entries.length
      ++ " entries to ".toList ++ h.path⟩]⟩
  | .error (.write cause) => failed (.system cause)
  | .error _ => failed (.notOpened h.path)

/-- Appends an entry and writes the file. -/
def record (h : History) (e : Entry) : Job Recorded :=
  let grown : History := { h with entries := h.entries ++ [e] }
  .write grown.saveOrder grown.saved

@[simp] theorem history_saved (h : History) (answer : Except WriteFailure Unit) :
    (h.saved answer).history = h := by
  rcases answer with ⟨_ | _ | _⟩ | _ <;> rfl

/-- Recording appends the entry, whatever becomes of the file. -/
theorem history_of_mayReturn_record {h : History} {e : Entry} {recorded : Recorded}
    (hrecorded : (h.record e).MayReturn recorded) :
    recorded.history = { h with entries := h.entries ++ [e] } := by
  obtain _ | ⟨_, _, answer⟩ := hrecorded
  exact history_saved _ answer

theorem history_run_record (h : History) (e : Entry) (fs : FileSystem) :
    (fs.run (h.record e)).2.history = { h with entries := h.entries ++ [e] } :=
  history_of_mayReturn_record (fs.mayReturn_run _)

end History

/-- The history at `path`, and what is noted while it is opened. -/
def FileSystem.openHistory (fs : FileSystem) (path : Path) : History × List LogRecord :=
  (History.opened path (fs.read path), History.openLog path (fs.read path))

end Reckon
