import Reckon.Session.Run

/-!
# A session on piped input

The input is bytes, and what is shown goes to the output, one message per line. Prompts are not
written. A line is taken with its line feed, and with the carriage return before it, as part of the
answer; a line that is no UTF-8 ends the input.
-/

namespace Reckon.Piped

/-- The stretches of bytes that end in a line feed, and what follows the last one if there is
something. -/
def rawLines : Bytes → List Bytes
  | [] => []
  | b :: rest =>
    if b = HistoryFile.lineFeed then [b] :: rawLines rest
    else consFirst b (rawLines rest)

/-- The texts of the lines up to the first that has none. -/
def textLines : List Bytes → List Text
  | [] => []
  | raw :: rest =>
    match Utf8.decode? raw with
    | some t => t :: textLines rest
    | none => []

/-- The lines of an input. -/
def lines (input : Bytes) : List Text :=
  textLines (rawLines input)

/-- What is written for an event. -/
def shownText : Event → Text
  | .shown message => message ++ ['\n']
  | _ => []

def output (events : List Event) : Text :=
  events.flatMap shownText

/-- A whole session with the usual settings. -/
def run (fs : FileSystem) (input : Bytes) : Progress :=
  let (s, log) := fs.startSession {}
  (s.run fs (lines input)).after (Session.loggedAll log)

end Reckon.Piped
