import Reckon.Calculation
import Reckon.Export
import Reckon.Session.Choice
import Reckon.Session.EntryNumbers
import Reckon.Settings

/-!
# Sessions

A session answers lines. At any time it waits for the answer to one `Question`; `Session.answer`
takes a line, and the question that is then open tells what the next line is for. Whatever is
shown, asked and noted is an `Event`, in order. Lines end with the input, not with the session, so
a question can stay without an answer; that stops the session.
-/

namespace Reckon

/-- What the next line is for. -/
inductive Question
  | choice
  | expression
  | destination
  | entryNumbers
  | selectedDestination (numbers : List Int)
  deriving DecidableEq

def Question.prompt : Question → Text
  | choice => "Choose an option: ".toList
  | expression => "Enter an expression: ".toList
  | destination =>
    "Enter a path or file name (leave empty to see where the history file is): ".toList
  | entryNumbers => "Enter entry numbers separated by commas (e.g. 1,3,4): ".toList
  | selectedDestination _ =>
    "Enter a path or file name to save to (must not be empty): ".toList

/-- What happens in a session. The answer is missing when the input has ended. -/
inductive Event
  | shown (message : Text)
  | asked (prompt : Text) (answer? : Option Text)
  | logged (record : LogRecord)
  deriving DecidableEq

structure Session where
  strict : Bool
  exporter : Exporter
  history : History
  stopped : Bool
  question : Question

/-- A session after a line, and what happened. -/
structure Turn where
  session : Session
  events : List Event

namespace Session

/-- A session on a history, with the menu open. -/
def start (settings : Settings) (h : History) : Session :=
  ⟨settings.strict, ⟨settings.exportFileName⟩, h, false, .choice⟩

/-- Back at the menu. -/
def atMenu (s : Session) : Session :=
  { s with question := .choice }

def asking (s : Session) (q : Question) : Session :=
  { s with question := q }

/-- The numbered entries between two rulers, or the remark that there are none. -/
def historyView (h : History) : List Text :=
  if h.entries = [] then ["History is empty.".toList]
  else
    "\n--- Calculation history ---".toList
      :: (h.entries.zipIdx 1).map (fun (e, number) => Numeral.write number ++ ['.', ' '] ++ e.text)
      ++ ["---------------------------".toList]

def shownAll (messages : List Text) : List Event :=
  messages.map .shown

def loggedAll (records : List LogRecord) : List Event :=
  records.map .logged

/-- Carries out a choice, or asks for what it needs. -/
def choose (s : Session) (line : Text) : Turn :=
  match Choice.ofLine? line with
  | some .calculate => ⟨s.asking .expression, []⟩
  | some .viewHistory => ⟨s.atMenu, shownAll (historyView s.history)⟩
  | some .exportAll => ⟨s.asking .destination, []⟩
  | some .exportSelected =>
    ⟨if s.history.entries = [] then s.atMenu else s.asking .entryNumbers,
      shownAll (historyView s.history)⟩
  | some .quit => ⟨{ s.atMenu with stopped := true }, [.shown "Goodbye.".toList]⟩
  | none => ⟨s.atMenu, [.shown "Invalid choice. Please try again.".toList]⟩

/-- The session after an entry was recorded, and the message if it could not be saved. -/
def afterRecording (s : Session) (r : History.Recorded) : Turn :=
  ⟨{ s.atMenu with history := r.history },
    loggedAll r.log ++ match r.outcome with
      | .ok () => []
      | .error e => [.shown ("Failed to save history: ".toList ++ e.message)]⟩

/-- Works out an expression; a value is shown and recorded. -/
def calculate (s : Session) (line : Text) : Job Turn :=
  let notes := loggedAll (evaluateLog s.strict line)
  match evaluate s.strict line with
  | .error e =>
    .done ⟨s.atMenu, notes ++ [.logged ⟨.debug, faultReport e.message e.causes⟩,
      .shown ("error in expression: ".toList ++ e.message)]⟩
  | .ok x =>
    (s.history.record ⟨line, x.resultText⟩).map fun recorded =>
      let turn := s.afterRecording recorded
      ⟨turn.session, notes ++ .shown ("Result: ".toList ++ x.resultText) :: turn.events⟩

/-- Reads the entry numbers and asks where to write the entries. -/
def chooseEntries (s : Session) (line : Text) : Turn :=
  match readEntryNumbers line with
  | .ok numbers => ⟨s.asking (.selectedDestination numbers), []⟩
  | .error e =>
    ⟨s.atMenu, [.logged ⟨.debug, faultReport e.message e.causes⟩,
      .shown "Error: invalid entry numbers.".toList]⟩

/-- Shows what came of an export. -/
def afterExport (s : Session) (e : Exported) : Turn :=
  ⟨s.atMenu, loggedAll e.log ++ [.shown (match e.outcome with
    | .ok outcome => outcome.message
    | .error cause => "Error saving file: ".toList ++ cause.message)]⟩

/-- Takes a line as the answer to the open question. -/
def answer (s : Session) (workingPath? : Option Path) (line : Text) : Job Turn :=
  match s.question with
  | .choice => .done (s.choose line)
  | .expression => s.calculate line
  | .destination => (s.exporter.exportAll workingPath? s.history line).map s.afterExport
  | .entryNumbers => .done (s.chooseEntries line)
  | .selectedDestination numbers =>
    (s.exporter.exportSelected workingPath? s.history line numbers).map s.afterExport

/-- The input has ended while a question was open. -/
def endOfInput (s : Session) : Session :=
  { s.atMenu with stopped := true }

end Session

end Reckon
