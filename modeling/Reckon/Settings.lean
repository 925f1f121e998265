import Reckon.Files.Path

/-!
# Settings

What can be chosen about a session before it begins, with the usual choice as the default.
-/

namespace Reckon

structure Settings where
  /-- The file of the history, seen from the working directory. -/
  historyFile : Path := "calculator_history.log".toList
  /-- The file name for an export into a directory. -/
  exportFileName : Text := "log.log".toList
  /-- Whether unknown characters in an expression are a fault instead of being skipped. -/
  strict : Bool := false

end Reckon
