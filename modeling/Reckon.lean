import Reckon.Binary64
import Reckon.Binary64.Arithmetic
import Reckon.Binary64.Nearest
import Reckon.Binary64.Shortest
import Reckon.Binary64.Writing
import Reckon.Calculation
import Reckon.Decimal
import Reckon.Decimal.Numeral
import Reckon.Evaluation
import Reckon.Export
import Reckon.Files.FileSystem
import Reckon.Files.Job
import Reckon.Files.Path
import Reckon.History
import Reckon.Log
import Reckon.Main
import Reckon.Operator
import Reckon.Session
import Reckon.Session.Piped
import Reckon.Session.Run
import Reckon.Settings
import Reckon.Text.Quoted
import Reckon.Text.Split
import Reckon.Text.Utf8
import Reckon.Token
import Reckon.Token.Normal
import Reckon.Token.Piece
import Reckon.Token.Scan
import Reckon.Proofs.Accounting
import Reckon.Proofs.Grammar
import Reckon.Proofs.Infix
import Reckon.Proofs.Parentheses
import Reckon.Proofs.HistoryFormat
import Reckon.Proofs.Recording
import Reckon.Proofs.Moments
import Reckon.Proofs.Places
import Reckon.Proofs.Restart
import Reckon.Proofs.Saving
import Reckon.Proofs.StrictSessions
import Reckon.Proofs.Transcript
import Reckon.Proofs.Alongside
import Reckon.Proofs.OneLineNames
import Reckon.Proofs.PipedFiles
import Reckon.Proofs.Reopening
import Reckon.Proofs.Ancestors
import Reckon.Proofs.Refusals
import Reckon.Proofs.Exporting
import Reckon.Proofs.HistoryUnderExport
import Reckon.Proofs.Rejection
import Reckon.Proofs.Leftovers
import Reckon.Proofs.Postfix
import Reckon.Proofs.Dialogue
import Reckon.Proofs.NumberedExport
import Reckon.Proofs.Nesting
import Reckon.Proofs.HistoryLines
import Reckon.Proofs.Spelling
import Reckon.Proofs.NormalForm
import Reckon.Proofs.Segments
import Reckon.Proofs.Strictness
import Reckon.Proofs.Rounding
import Reckon.Proofs.ReadingBack
import Reckon.Proofs.ChosenEntries
import Reckon.Proofs.ResultText
import Reckon.Proofs.AbsolutePaths
import Reckon.Proofs.ExportingAgain
import Reckon.Proofs.NumberLists
import Reckon.Proofs.PendingLevels
