import Reckon.History.Entry
import Reckon.Text.Utf8

/-!
# The format of the history file

The file holds one entry per line. It is written in full each time; it is read leniently: each
line on its own, bytes that are no UTF-8 replaced, a carriage return at the end of a line dropped,
and a line that is no entry left out.
-/

namespace Reckon.HistoryFile

def lineFeed : UInt8 := 10

/-- The lines of a file. What follows the last line feed is a line only if there is something. -/
def lines (bytes : Bytes) : List Bytes :=
  let pieces := splitOn lineFeed bytes
  if pieces.getLast? = some [] then pieces.dropLast else pieces

/-- The bytes up to and with the last line feed. -/
def wholeLines (bytes : Bytes) : Bytes :=
  (bytes.reverse.dropWhile (· ≠ lineFeed)).reverse

/-- The text of a line, without the carriage return of a line that ends in both. -/
def lineText (line : Bytes) : Text :=
  let t := Utf8.decodeReplacing line
  if t.getLast? = some '\r' then t.dropLast else t

/-- The texts of the lines. -/
def lineTexts (bytes : Bytes) : List Text :=
  (lines bytes).map lineText

/-- The entries of a file, in the order of its lines. -/
def entries (bytes : Bytes) : List Entry :=
  (lineTexts bytes).filterMap Entry.ofLine?

/-- The texts of the lines that are no entries. -/
def malformed (bytes : Bytes) : List Text :=
  (lineTexts bytes).filter fun t => (Entry.ofLine? t).isNone

/-- The file that holds these entries. -/
def content (entries : List Entry) : Bytes :=
  Utf8.encode (entries.flatMap fun e => e.line ++ ['\n'])

end Reckon.HistoryFile
