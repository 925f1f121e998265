import Reckon.Session.Piped

/-!
# The command line

Holds one session with standard input and output, on the files of the machine. All decisions are
made in `Session.answer`; here lines are fetched, orders to write are carried out, and what is
shown is printed. At a terminal the prompts are printed too and a line is taken without its end.
-/

namespace Reckon.CommandLine

/-- The cause that the system gives for a failed operation. -/
def causeOf : IO.Error → SystemError
  | .noFileOrDirectory _ _ _ => .noSuchFile
  | .alreadyExists _ number text
  | .permissionDenied _ number text
  | .resourceExhausted _ number text
  | .inappropriateType _ number text
  | .invalidArgument _ number text
  | .noSuchThing _ number text
  | .interrupted _ number text
  | .otherError number text
  | .resourceBusy number text
  | .resourceVanished number text
  | .unsupportedOperation number text
  | .hardwareFault number text
  | .unsatisfiedConstraints number text
  | .illegalOperation number text
  | .protocolError number text
  | .timeExpired number text => .other number.toNat text.toList
  | .unexpectedEof => .other 0 "unexpected end of file".toList
  | .userError text => .other 0 text.toList

/-- The result of an action, or the cause of its failure. -/
def attempt {α : Type} (action : IO α) : IO (Except SystemError α) := do
  try
    return .ok (← action)
  catch e =>
    return .error (causeOf e)

/-- Reads on behind the bytes that are there already, up to the end or a fault. -/
partial def readOn (handle : IO.FS.Handle) (before : ByteArray) : IO ReadResult := do
  match ← attempt (handle.read 8192) with
  | .error cause => return .broken before.toList cause
  | .ok piece =>
    if piece.isEmpty then return .content before.toList
    else readOn handle (before ++ piece)

def readFile (path : Path) : IO ReadResult := do
  match ← attempt (IO.FS.Handle.mk (String.ofList path) .read) with
  | .error cause => return .unopened cause
  | .ok handle => readOn handle .empty

def writeFile (path : Path) (content : Bytes) : IO (Except WriteFailure Unit) := do
  match ← attempt (IO.FS.Handle.mk (String.ofList path) .write) with
  | .error cause => return .error (.create cause)
  | .ok handle =>
    match ← attempt (do handle.write ⟨content.toArray⟩; handle.flush) with
    | .error cause => return .error (.write cause)
    | .ok () => return .ok ()

def perform (order : WriteOrder) : IO (Except WriteFailure Unit) := do
  match order.directory? with
  | none => writeFile order.path order.content
  | some directory =>
    match ← attempt (IO.FS.createDirAll (String.ofList directory)) with
    | .error cause => return .error (.directory cause)
    | .ok () => writeFile order.path order.content

def runJob {α : Type} : Job α → IO α
  | .done result => return result
  | .write order resume => return resume (← perform order)

def workingPath? : IO (Option Path) := do
  match ← attempt IO.currentDir with
  | .ok path => return some path.toString.toList
  | .error _ => return none

/-- Messages go to the output, records of faults to the error stream. -/
def emit (output : IO.FS.Stream) : Event → IO Unit
  | .logged record => do
    if LogLevel.admits .error record.level then
      IO.eprintln (String.ofList (record.level.name ++ ' ' :: record.message))
  | event => output.putStr (String.ofList (Piped.shownText event))

/-- The bytes up to and with the next line feed; nothing at the end of the input. -/
partial def readRawLine (input : IO.FS.Stream) (before : Bytes) : IO Bytes := do
  match (← input.read 1).toList with
  | [] => return before.reverse
  | b :: _ =>
    if b = HistoryFile.lineFeed then return (b :: before).reverse
    else readRawLine input (b :: before)

/-- The line without the line feed and the carriage return at its end. -/
def withoutLineEnd (line : Text) : Text :=
  let dropLast (c : Char) (t : Text) : Text := if t.getLast? = some c then t.dropLast else t
  dropLast '\r' (dropLast '\n' line)

/-- The next line of the input, if there is one and it is text. -/
def readLine? (input : IO.FS.Stream) (atTerminal : Bool) : IO (Option Text) := do
  match ← readRawLine input [] with
  | [] => return none
  | raw =>
    return (Utf8.decode? raw).map fun line => if atTerminal then withoutLineEnd line else line

partial def converse (input output : IO.FS.Stream) (atTerminal : Bool) (s : Session) : IO Unit := do
  if s.stopped then return
  s.preface.forM (emit output)
  if atTerminal then output.putStr (String.ofList s.question.prompt)
  output.flush
  match ← readLine? input atTerminal with
  | none => return
  | some line =>
    let turn ← runJob (s.answer (← workingPath?) line)
    turn.events.forM (emit output)
    converse input output atTerminal turn.session

end Reckon.CommandLine

open Reckon in
def main : IO Unit := do
  let input ← IO.getStdin
  let output ← IO.getStdout
  let settings : Settings := {}
  let result ← CommandLine.readFile settings.historyFile
  let s := Session.start settings (.opened settings.historyFile result)
  (Session.loggedAll (History.openLog settings.historyFile result)).forM (CommandLine.emit output)
  CommandLine.converse input output (← input.isTty) s
  output.flush
