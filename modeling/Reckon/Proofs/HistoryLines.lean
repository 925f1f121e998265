import Reckon.Proofs.Reopening

/-!
# A history file line by line

Reading a file never looks across a line feed. So a file that is put together at a line feed is read
part by part (`HistoryFile.lineTexts_append`), whatever the bytes on both sides are, and each of its
lines is accounted for: it gives an entry or a warning.

What is written line by line need not come back: `HistoryFile.entries_content_eq_self_iff` says for
which entries it does. Lines cannot make up for each other, because whatever is read from a file is
on one line and is read back from its own line.
-/

namespace Reckon

namespace HistoryFile

/-! ## Lines

Cutting at line feeds leaves a last piece behind the last of them, which counts as a line only if
there is something in it. With that piece put back (`splitOn_eq_lines`), putting files together is
putting their pieces together. -/

/-- No line is begun at the end of the file. -/
def Ended (bytes : Bytes) : Prop :=
  bytes = [] ∨ bytes.getLast? = some lineFeed

instance (bytes : Bytes) : Decidable (Ended bytes) :=
  inferInstanceAs (Decidable (_ ∨ _))

/-- The piece that `lines` leaves out is empty. -/
theorem splitOn_eq_lines (bytes : Bytes) :
    splitOn lineFeed bytes = lines bytes ++ if Ended bytes then [[]] else [] := by
  have hlast : (splitOn lineFeed bytes).getLast? = some [] ↔ Ended bytes :=
    getLast?_splitOn_eq_nil_iff lineFeed bytes
  by_cases h : Ended bytes
  · rw [lines, if_pos (hlast.2 h), if_pos h]
    exact (List.dropLast_append_getLast? [] (hlast.2 h)).symm
  · rw [lines, if_neg (mt hlast.1 h), if_neg h, List.append_nil]

/-- The lines before a line feed are whole, and those behind it are not touched. Where no line was
begun, the line feed makes an empty one. -/
theorem lines_append (a b : Bytes) :
    lines (a ++ lineFeed :: b) = lines a ++ (if Ended a then [[]] else []) ++ lines b := by
  rw [lines_append_lineFeed, splitOn_eq_lines]

/-- Each line feed ends a line, and what stands behind the last is one more. -/
def lineCount (bytes : Bytes) : Nat :=
  bytes.count lineFeed + if Ended bytes then 0 else 1

theorem length_lines (bytes : Bytes) : (lines bytes).length = lineCount bytes := by
  have hlength := congrArg List.length (splitOn_eq_lines bytes)
  rw [length_splitOn, List.length_append] at hlength
  unfold lineCount
  split at hlength <;> simp_all

/-! ## Entries and malformed lines

Each line is read on its own, so what holds of the lines carries over to what is made of them. An
empty line, which arises where two line feeds meet, gives a warning and no entry. -/

/-- The texts of the lines on both sides of a line feed stand side by side. -/
theorem lineTexts_append (a b : Bytes) :
    lineTexts (a ++ lineFeed :: b)
      = lineTexts a ++ (if Ended a then [[]] else []) ++ lineTexts b := by
  have hempty : lineText [] = [] := rfl
  rw [lineTexts, lines_append, List.map_append, List.map_append]
  split <;> simp [lineTexts, hempty]

/-- An empty line is no entry. -/
theorem entries_append (a b : Bytes) : entries (a ++ lineFeed :: b) = entries a ++ entries b := by
  have hempty : Entry.ofLine? [] = none := rfl
  rw [entries, lineTexts_append, List.filterMap_append, List.filterMap_append]
  split <;> simp [entries, hempty]

theorem malformed_append (a b : Bytes) :
    malformed (a ++ lineFeed :: b)
      = malformed a ++ (if Ended a then [[]] else []) ++ malformed b := by
  have hempty : Entry.ofLine? [] = none := rfl
  rw [malformed, lineTexts_append, List.filter_append, List.filter_append]
  split <;> simp [malformed, hempty]

/-- Each line is an entry or malformed, and not both. -/
theorem length_entries_add_length_malformed (bytes : Bytes) :
    (entries bytes).length + (malformed bytes).length = lineCount bytes := by
  have hsplit : ∀ texts : List Text, (texts.filterMap Entry.ofLine?).length
      + (texts.filter fun t => (Entry.ofLine? t).isNone).length = texts.length := by
    intro texts
    induction texts with
    | nil => rfl
    | cons t rest ih => cases ht : Entry.ofLine? t <;> simp [ht] <;> omega
  rw [entries, malformed, hsplit, lineTexts, List.length_map, length_lines]

/-! ## Readings that break off

A fault takes the line with it in which it happens. What is left ends in a line feed, so it is read
as a part of its own (`entries_append`), and whatever stands behind it only adds to its entries. -/

/-- What is left of a reading is nothing, or it goes up to a line feed. -/
theorem wholeLines_cases (bytes : Bytes) :
    wholeLines bytes = []
      ∨ ∃ front tail, wholeLines bytes = front ++ [lineFeed]
        ∧ bytes = front ++ lineFeed :: tail := by
  have hbytes : bytes = (bytes.reverse.dropWhile (· ≠ lineFeed)).reverse
      ++ (bytes.reverse.takeWhile (· ≠ lineFeed)).reverse := by
    rw [← List.reverse_append, List.takeWhile_append_dropWhile, List.reverse_reverse]
  cases hwhole : bytes.reverse.dropWhile (· ≠ lineFeed) with
  | nil =>
    left
    rw [wholeLines, hwhole]
    rfl
  | cons b rest =>
    -- from behind, the first byte that is kept is a line feed
    have hb : b = lineFeed := by
      have hstop := List.head?_dropWhile_not (fun b : UInt8 => b ≠ lineFeed) bytes.reverse
      rw [hwhole] at hstop
      simpa using hstop
    right
    refine ⟨rest.reverse, (bytes.reverse.takeWhile (· ≠ lineFeed)).reverse, ?_, ?_⟩
    · rw [wholeLines, hwhole, List.reverse_cons, hb]
    · rw [hwhole, List.reverse_cons, hb, List.append_assoc] at hbytes
      exact hbytes

/-- The entries of the whole lines come first, whatever stands behind them. -/
theorem entries_wholeLines_prefix (before behind : Bytes) :
    entries (wholeLines before) <+: entries (before ++ behind) := by
  -- a line feed ends the whole lines, if there are any, and entries are read line by line
  rcases wholeLines_cases before with hnone | ⟨front, tail, hwhole, hbefore⟩
  · rw [hnone]
    exact List.nil_prefix
  · have hfront : entries (wholeLines before) = entries front := by
      rw [hwhole, entries_append]
      exact List.append_nil _
    have hall : entries (before ++ behind) = entries front ++ entries (tail ++ behind) := by
      rw [hbefore, List.append_assoc, List.cons_append, entries_append]
    rw [hfront, hall]
    exact List.prefix_append _ _

/-! ## Entries that come back

A history comes back as a whole only if each of its entries does: the entries of any file are on one
line each and read back from it (`lineFeed_not_mem_of_mem_entries`, `readBack_of_mem_entries`), so a
history that came back has only such entries, and for these the file can be read entry by entry. -/

/-- If all entries come back, each has the form of one that was read from a file, so it is on a line
of its own and is lost or changed alone. -/
theorem entries_content_eq_self_iff (es : List Entry) :
    entries (content es) = es ↔ ∀ e ∈ es, e.Lasting := by
  constructor
  · -- the history was read from a file, its own, which says what its entries look like
    intro hself
    have hone : ∀ e ∈ es, '\n' ∉ e.line := fun e he =>
      lineFeed_not_mem_of_mem_entries (hself.symm ▸ he)
    have hback : ∀ e ∈ es, e.ReadBack := fun e he => readBack_of_mem_entries (hself.symm ▸ he)
    rw [entries_content_of_readBack hone hback,
      Entry.filterMap_rewritten?_eq_self_iff fun e he => (hback e he).resultFilled] at hself
    intro e he
    have hline := hone e he
    simp only [Entry.line, List.mem_append, not_or] at hline
    exact ⟨hback e he, hline.1.1, hline.2, hself e he⟩
  · intro hlasting
    have hone : ∀ e ∈ es, '\n' ∉ e.line := fun e he => (hlasting e he).lineFeed_not_mem_line
    have hback : ∀ e ∈ es, e.ReadBack := fun e he => (hlasting e he).toReadBack
    rw [entries_content_of_readBack hone hback,
      Entry.filterMap_rewritten?_eq_self_iff fun e he => (hback e he).resultFilled]
    exact fun e he => (hlasting e he).resultEnd

end HistoryFile

/-! ## Opening a file -/

namespace History

/-- The warnings among what is noted while a file is opened. -/
def warnings (path : Path) (result : ReadResult) : List LogRecord :=
  (openLog path result).filter fun r => r.level = .warn

/-- There is one for each malformed line, in the order of the lines. -/
theorem warnings_eq (path : Path) (result : ReadResult) :
    warnings path result = (HistoryFile.malformed (bytesOf result)).map malformedWarning := by
  have hlines : ∀ texts : List Text, (texts.map malformedWarning).filter
      (fun r => r.level = .warn) = texts.map malformedWarning := by
    intro texts
    exact List.filter_eq_self.2 fun r hr => by
      obtain ⟨t, -, rfl⟩ := List.mem_map.1 hr
      rfl
  -- what is noted of the file itself is no warning
  have hread : (readRecords path result).filter (fun r => r.level = .warn) = [] := by
    rcases result with cause | bytes | ⟨before, cause⟩
    · cases cause <;> rfl
    · rfl
    · rfl
  simp [warnings, openLog, List.filter_append, hlines, hread]

end History

/-- A reading that broke off gives the beginning of the history that the whole file holds. -/
theorem History.entries_opened_of_broken (path : Path) (before behind : Bytes)
    (cause : SystemError) :
    (opened path (.broken before cause)).entries
      <+: (opened path (.content (before ++ behind))).entries :=
  HistoryFile.entries_wholeLines_prefix before behind

open HistoryFile (lineFeed lineCount Ended) in
/-- No line of a file has a bearing on another, and none is lost without a warning. -/
theorem history_loaded_line_by_line (path : Path) (a b : Bytes) :
    let loaded := fun bytes => (History.opened path (.content bytes)).entries
    let warnings := fun bytes => History.warnings path (.content bytes)
    loaded (a ++ lineFeed :: b) = loaded a ++ loaded b
      ∧ warnings (a ++ lineFeed :: b)
        = warnings a ++ (if Ended a then [History.malformedWarning []] else []) ++ warnings b
      ∧ ∀ bytes, (loaded bytes).length + (warnings bytes).length = lineCount bytes := by
  intro loaded warnings
  refine ⟨HistoryFile.entries_append a b, ?_, fun bytes => ?_⟩
  · simp only [warnings, History.warnings_eq, History.bytesOf, HistoryFile.malformed_append,
      List.map_append]
    split <;> rfl
  · simp only [warnings, History.warnings_eq, List.length_map]
    exact HistoryFile.length_entries_add_length_malformed bytes

/-- The entries that come back from their own lines, and the histories that come back from the file
that is written for them. -/
theorem entries_saved_come_back_iff :
    (∀ e : Entry, Entry.ofLine? e.line = some e ↔ e.ReadBack)
      ∧ ∀ h : History, (History.opened h.path (.content h.saveOrder.content)).entries = h.entries
        ↔ ∀ e ∈ h.entries, e.Lasting :=
  ⟨Entry.ofLine?_line_iff, fun h => HistoryFile.entries_content_eq_self_iff h.entries⟩

end Reckon
