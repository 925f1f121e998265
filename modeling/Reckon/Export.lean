import Reckon.History

/-!
# Exports

The whole history, or chosen entries of it, written to a file for people to read. The destination is
free text: `Exporter.destination` makes a path of it by four rules in a fixed order.
-/

namespace Reckon

/-- The file name that stands for a destination which is a directory. -/
structure Exporter where
  fileName : Text
  deriving DecidableEq

/-- What an export comes to. A blank destination for the whole history writes nothing and tells
where the history itself is. -/
inductive ExportOutcome
  | written (path : Path) (count : Nat)
  | historyLocation (path : Path)
  | nothingSelected
  deriving DecidableEq

inductive ExportError
  | missingDestination
  | directoryNotMade (path : Path)
  | fileNotCreated (path : Path)
  | system (cause : SystemError)
  deriving DecidableEq

def ExportOutcome.message : ExportOutcome → Text
  | written path _ => "History saved to file: ".toList ++ path
  | historyLocation path => "The persistent history file is stored here: ".toList ++ path
  | nothingSelected => "No valid entries were selected for export.".toList

def ExportError.message : ExportError → Text
  | missingDestination => "a file name or path is required for saving".toList
  | directoryNotMade path => "cannot create directory ".toList ++ path
  | fileNotCreated path => "cannot create ".toList ++ path
  | system cause => cause.message

structure Exported where
  outcome : Except ExportError ExportOutcome
  log : List LogRecord

/-! ## Numbers of entries -/

/-- A number of one of the entries, counted from one. -/
@[ext] structure ValidNumber (entries : List Entry) where
  number : Int
  positive : 1 ≤ number
  atMost : number ≤ entries.length

namespace ValidNumber

variable {entries : List Entry}

/-- A number that was asked for, if it is one of an entry. -/
def ofInt? (entries : List Entry) (k : Int) : Option (ValidNumber entries) :=
  if h : 1 ≤ k ∧ k ≤ entries.length then some ⟨k, h.1, h.2⟩ else none

theorem position_lt (k : ValidNumber entries) : k.number.toNat - 1 < entries.length := by
  obtain ⟨number, positive, atMost⟩ := k
  show number.toNat - 1 < entries.length
  omega

/-- The entry with the number, which is one of the list. -/
def entry (k : ValidNumber entries) : Entry :=
  entries.get ⟨k.number.toNat - 1, k.position_lt⟩

theorem ofInt?_of_range {k : Int} (h : 1 ≤ k ∧ k ≤ entries.length) :
    ofInt? entries k = some ⟨k, h.1, h.2⟩ :=
  dif_pos h

theorem ofInt?_eq_none_iff {k : Int} :
    ofInt? entries k = none ↔ ¬(1 ≤ k ∧ k ≤ entries.length) := by
  unfold ofInt?
  split
  · next h => exact ⟨nofun, fun hnot => absurd h hnot⟩
  · next h => exact ⟨fun _ => h, fun _ => rfl⟩

end ValidNumber

/-! ## Writing entries -/

namespace Exporter

/-- The endings of file names; letters of either case count. -/
def fileEndings : List Text :=
  [['.', 't', 'x', 't'], ['.', 'l', 'o', 'g'], ['.', 'm', 'd']]

def hasFileEnding (t : Text) : Bool :=
  fileEndings.any fun ending => ending.isSuffixOf (t.map Char.toLower)

/-- The file that a destination means. An absolute path means itself, a final slash or backslash a
directory, a known ending a file, and anything else a directory. -/
def destination (x : Exporter) (input : Text) : Path :=
  if Path.isAbsolute input then input
  else if input.getLast? = some '/' ∨ input.getLast? = some '\x5c' then
    Path.join input x.fileName
  else if hasFileEnding input then input
  else Path.join input x.fileName

/-- The file with the readable form of the entries, one per line. -/
def content (entries : List Entry) : Bytes :=
  Utf8.encode (entries.flatMap fun e => e.text ++ ['\n'])

/-- The order to write entries to a path, with the directory that holds it. -/
def order (path : Path) (entries : List Entry) : WriteOrder :=
  ⟨path, (Path.parent? path).filter fun directory => !directory.isEmpty, content entries⟩

/-- What follows from the answer to an order for `count` entries. -/
def finished (workingPath? : Option Path) (path : Path) (count : Nat) :
    Except WriteFailure Unit → Exported
  | .ok () =>
    let path := Path.absoluteFrom workingPath? path
    ⟨.ok (.written path count), [⟨.info, "exported ".toList ++ Numeral.write count
      ++ " entries to ".toList ++ path⟩]⟩
  | .error (.directory _) => ⟨.error (.directoryNotMade ((Path.parent? path).getD [])), []⟩
  | .error (.create _) => ⟨.error (.fileNotCreated path), []⟩
  | .error (.write cause) => ⟨.error (.system cause), []⟩

def write (x : Exporter) (workingPath? : Option Path) (input : Text) (entries : List Entry) :
    Job Exported :=
  let path := x.destination input
  .write (order path entries) (finished workingPath? path entries.length)

/-- Exports the whole history. -/
def exportAll (x : Exporter) (workingPath? : Option Path) (h : History) (input : Text) :
    Job Exported :=
  if input.isAllBlank then
    .done ⟨.ok (.historyLocation (Path.absoluteFrom workingPath? h.path)), []⟩
  else x.write workingPath? input h.entries

/-- The numbers that are numbers of entries, in the order in which they were given; the others are
passed over. -/
def validNumbers (entries : List Entry) (numbers : List Int) : List (ValidNumber entries) :=
  numbers.filterMap (ValidNumber.ofInt? entries)

/-- The entries with the given numbers, in the order of the numbers. -/
def selected (entries : List Entry) (numbers : List Int) : List Entry :=
  (validNumbers entries numbers).map ValidNumber.entry

theorem selected_eq_nil_iff {entries : List Entry} {numbers : List Int} :
    selected entries numbers = [] ↔ ∀ k ∈ numbers, ¬(1 ≤ k ∧ k ≤ entries.length) := by
  simp only [selected, validNumbers, List.map_eq_nil_iff, List.filterMap_eq_nil_iff,
    ValidNumber.ofInt?_eq_none_iff]

/-- Exports the entries with the given numbers. -/
def exportSelected (x : Exporter) (workingPath? : Option Path) (h : History) (input : Text)
    (numbers : List Int) : Job Exported :=
  if input.isAllBlank then .done ⟨.error .missingDestination, []⟩
  else
    let chosen := selected h.entries numbers
    let note : LogRecord := ⟨.debug, "selected ".toList ++ Numeral.write chosen.length
      ++ " of ".toList ++ Numeral.write numbers.length ++ " requested entries".toList⟩
    if chosen = [] then .done ⟨.ok .nothingSelected, [note]⟩
    else (x.write workingPath? input chosen).map fun e => { e with log := note :: e.log }

end Exporter

end Reckon
