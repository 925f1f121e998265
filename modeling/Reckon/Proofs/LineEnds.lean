import Reckon.Proofs.HistoryFormat
import Reckon.Session.Piped

/-!
# Lines with their ends

On piped input an answer keeps the end of its line. Blanks at the end of a text change neither the
choice that it makes nor its value as an expression nor the entry numbers in it, and not whether it
is blank. The lines that are taken from an input are whole ones (`Piped.lines_input`).
-/

namespace Reckon

/-! ## Blanks at the end of a text

Every answer but a destination is trimmed, divided into trimmed parts or freed of its blanks before
it is used, so the blanks behind it are lost. -/

namespace Text

theorem withoutBlanks_append_blank {t tail : Text} (h : tail.isAllBlank = true) :
    withoutBlanks (t ++ tail) = withoutBlanks t := by
  have htail : withoutBlanks tail = [] := by
    rw [withoutBlanks, List.filter_eq_nil_iff]
    intro c hc
    rw [List.all_eq_true.1 h c hc]
    decide
  rw [withoutBlanks_append, htail, List.append_nil]

theorem trim_append_blank {t tail : Text} (h : tail.isAllBlank = true) :
    trim (t ++ tail) = trim t := by
  have hblank : ∀ c ∈ tail, isBlank c = true := List.all_eq_true.1 h
  have hend : ∀ u : Text, trimEnd (u ++ tail) = trimEnd u := by
    intro u
    have hreverse : ∀ c ∈ tail.reverse, isBlank c = true := fun c hc =>
      hblank c (List.mem_reverse.1 hc)
    rw [trimEnd, trimStart, List.reverse_append, List.dropWhile_append_of_pos hreverse]
    rfl
  rw [trim, trimStart, List.dropWhile_append]
  split
  · next hempty =>
    -- all of the text is blank
    have htail : tail.dropWhile isBlank = [] := List.dropWhile_eq_nil_iff.2 hblank
    rw [htail, trim, trimStart, List.isEmpty_iff.1 hempty]
  · exact hend _

theorem isAllBlank_append_blank {t tail : Text} (h : tail.isAllBlank = true) :
    (t ++ tail).isAllBlank = t.isAllBlank := by
  rw [isAllBlank, List.all_append, ← isAllBlank, ← isAllBlank, h, Bool.and_true]

end Text

theorem Choice.ofLine?_append_blank {t tail : Text} (h : tail.isAllBlank = true) :
    ofLine? (t ++ tail) = ofLine? t := by
  rw [ofLine?, ofLine?, Text.trim_append_blank h]

/-- Of each part only the trimmed text counts. -/
theorem EntryNumbers.readParts_congr {parts others : List Text}
    (h : parts.map Text.trim = others.map Text.trim) : readParts parts = readParts others := by
  induction parts generalizing others with
  | nil => rw [List.map_eq_nil_iff.1 (h.symm.trans List.map_nil)]
  | cons part rest ih =>
    cases others with
    | nil => cases h
    | cons other more =>
      obtain ⟨hpart, hrest⟩ := List.cons.inj h
      rw [readParts, readParts, hpart, ih hrest]

theorem readEntryNumbers_append_blank {t tail : Text} (h : tail.isAllBlank = true) :
    readEntryNumbers (t ++ tail) = readEntryNumbers t := by
  -- the blanks fall to the last part, which is trimmed
  have hcomma : ',' ∉ tail := by
    intro hmem
    have hblank := List.all_eq_true.1 h ',' hmem
    revert hblank
    decide
  obtain ⟨parts, last, hparts, happend⟩ := exists_splitOn_append ',' t
  rw [readEntryNumbers, readEntryNumbers, hparts, happend (splitOn_of_not_mem hcomma)]
  apply EntryNumbers.readParts_congr
  rw [List.map_append, List.map_append, List.map_singleton, List.map_singleton,
    Text.trim_append_blank h]

/-- An expression has the same value with blanks behind it. -/
theorem evaluate_append_blank (strict : Bool) {t tail : Text} (h : tail.isAllBlank = true) :
    evaluate strict (t ++ tail) = evaluate strict t := by
  have hnormal : normalize (t ++ tail) = normalize t :=
    normalize_congr (Text.withoutBlanks_append_blank h)
  rw [evaluate, evaluate, tokenize, tokenize, hnormal]

/-! ## Lines of the input

An input is made up of lines with their ends. Only the line feed cuts it, so a line that ends in
`\r\n` is handed on with both characters. -/

/-- An encoded text can be decoded as a whole. -/
theorem Utf8.decode?_encode (t : Text) : decode? (encode t) = some t := by
  rw [decode?, decode_encode]
  induction t with
  | nil => rfl
  | cons c rest ih => simp_all

/-- What stands between two lines of the input. -/
inductive LineEnd
  | lineFeed
  | carriageReturnLineFeed

def LineEnd.text : LineEnd → Text
  | lineFeed => ['\n']
  | carriageReturnLineFeed => ['\r', '\n']

theorem LineEnd.isAllBlank_text (ending : LineEnd) : ending.text.isAllBlank = true := by
  cases ending <;> decide

/-- A line of the input and how it ends. -/
structure EndedLine where
  text : Text
  ending : LineEnd
  oneLine : '\n' ∉ text

namespace EndedLine

/-- The line with its end. -/
def whole (line : EndedLine) : Text :=
  line.text ++ line.ending.text

/-- The bytes of an input of whole lines. -/
def input (lines : List EndedLine) : Bytes :=
  Utf8.encode (lines.flatMap whole)

/-- A whole line has its only line feed at the end. -/
theorem exists_whole (line : EndedLine) : ∃ front, '\n' ∉ front ∧ line.whole = front ++ ['\n'] := by
  obtain ⟨text, ending, hline⟩ := line
  cases ending with
  | lineFeed => exact ⟨text, hline, rfl⟩
  | carriageReturnLineFeed =>
    refine ⟨text ++ ['\r'], ?_, by simp [whole, LineEnd.text]⟩
    simp only [List.mem_append, List.mem_singleton, not_or]
    exact ⟨hline, by decide⟩

end EndedLine

namespace Piped

/-- The first line of an input reaches to its first line feed, which belongs to it. -/
theorem rawLines_append_cons {front : Bytes} (h : HistoryFile.lineFeed ∉ front) (rest : Bytes) :
    rawLines (front ++ HistoryFile.lineFeed :: rest)
      = (front ++ [HistoryFile.lineFeed]) :: rawLines rest := by
  induction front with
  | nil => rw [List.nil_append, rawLines, if_pos rfl]; rfl
  | cons b more ih =>
    have hb : b ≠ HistoryFile.lineFeed := fun e => h (e ▸ List.mem_cons_self)
    rw [List.cons_append, rawLines, if_neg hb, ih fun hm => h (List.mem_cons_of_mem b hm),
      consFirst, List.cons_append]

/-- The lines that are taken from an input have their ends. -/
theorem lines_input (ls : List EndedLine) :
    lines (EndedLine.input ls) = ls.map EndedLine.whole := by
  rw [lines]
  -- on the lines: the first is cut off at its line feed and decoded alone
  induction ls with
  | nil => rfl
  | cons line rest ih =>
    obtain ⟨front, hfront, hwhole⟩ := line.exists_whole
    have hencode : Utf8.encode line.whole = Utf8.encode front ++ [HistoryFile.lineFeed] := by
      rw [hwhole, Utf8.encode_append]
      rfl
    have hinput : EndedLine.input (line :: rest)
        = Utf8.encode front ++ HistoryFile.lineFeed :: EndedLine.input rest := by
      rw [EndedLine.input, List.flatMap_cons, Utf8.encode_append, hencode, List.append_assoc]
      rfl
    rw [hinput, rawLines_append_cons (HistoryFile.lineFeed_not_mem_encode hfront), ← hencode,
      textLines, Utf8.decode?_encode]
    dsimp only
    rw [ih, List.map_cons]

end Piped

end Reckon
