import Mathlib.Data.List.Forall2
import Reckon.Proofs.Places
import Reckon.Proofs.Rejection

/-!
# Entries exported by their numbers

The history is shown with a number in front of each entry, and a typed list of these numbers chooses
the entries to export. Showing counts the entries from one (`History.numbered`), choosing takes one
off a number to get a position (`ValidNumber.entry`), and between the two the numbers are text
(`EntryNumbers.Typed`). `number_shown_is_number_exported` says that they agree.
-/

namespace Reckon

/-! ## Typed numbers

A typed number is digits between blanks. The blanks are trimmed, a comma is neither a blank nor a
digit, and reading the digits meets no limit that the number itself keeps within. -/

namespace Numeral

/-- The number that digits stand for behind those that gave `value`. -/
def readAfter (value : Nat) (digits : Text) : Nat :=
  digits.foldl (fun value c => value * 10 + digitValue c) value

/-- More digits never make a number smaller. -/
theorem le_readAfter (value : Nat) (digits : Text) : value ≤ readAfter value digits := by
  induction digits generalizing value with
  | nil => exact Nat.le_refl value
  | cons c rest ih =>
    have hrest : value * 10 + digitValue c ≤ readAfter value (c :: rest) := ih _
    omega

end Numeral

namespace Text

/-- Where there is no blank, there is nothing to trim at the front. -/
theorem trimStart_of_not_isBlank {t : Text} (h : ∀ c ∈ t, isBlank c = false) : trimStart t = t := by
  cases t with
  | nil => rfl
  | cons c rest => exact List.dropWhile_cons_of_neg (ne_true_of_eq_false (h c List.mem_cons_self))

theorem trim_of_not_isBlank {t : Text} (h : ∀ c ∈ t, isBlank c = false) : trim t = t := by
  have hreverse : trimStart t.reverse = t.reverse :=
    trimStart_of_not_isBlank fun c hc => h c (List.mem_reverse.1 hc)
  rw [trim, trimStart_of_not_isBlank h, trimEnd, hreverse, List.reverse_reverse]

theorem trim_blank_append {head t : Text} (h : head.isAllBlank = true) :
    trim (head ++ t) = trim t := by
  rw [trim, trimStart, List.dropWhile_append_of_pos (List.all_eq_true.1 h)]
  rfl

end Text

namespace EntryNumbers

/-- A text that spells a number in decimal, with any blanks before and behind. -/
inductive Typed : Text → Nat → Prop
  | blanks {before numeral behind : Text} (hbefore : before.isAllBlank = true)
      (hne : numeral ≠ []) (hdigits : numeral.all isDigit = true)
      (hbehind : behind.isAllBlank = true) :
      Typed (before ++ numeral ++ behind) (Numeral.read numeral)

/-- Digits within the limit are read as their number. -/
theorem readDigits_of_digits {limit value : Nat} {above : IntegerFault} {digits : Text}
    (hdigits : digits.all isDigit = true) (hlimit : Numeral.readAfter value digits ≤ limit) :
    readDigits limit above digits value = .ok (Numeral.readAfter value digits) := by
  induction digits generalizing value with
  | nil => rfl
  | cons c rest ih =>
    rw [List.all_cons, Bool.and_eq_true] at hdigits
    obtain ⟨hc, hrest⟩ := hdigits
    -- the number grows with every digit, so it is within the limit all the way
    have hwithin : ¬limit < value * 10 + Numeral.digitValue c :=
      Nat.not_lt.2 (Nat.le_trans (Numeral.le_readAfter _ rest) hlimit)
    rw [readDigits, hc, Bool.not_true, if_neg Bool.false_ne_true]
    dsimp only
    rw [if_neg hwithin]
    exact ih hrest hlimit

theorem readInteger_of_digits {numeral : Text} (hne : numeral ≠ [])
    (hdigits : numeral.all isDigit = true) (hlimit : Numeral.read numeral ≤ largest) :
    readInteger numeral = .ok (Numeral.read numeral : Int) := by
  unfold readInteger
  split
  · exact absurd rfl hne
  · exact absurd (List.all_eq_true.1 hdigits '-' List.mem_cons_self) (by decide)
  · exact absurd (List.all_eq_true.1 hdigits '+' List.mem_cons_self) (by decide)
  · rw [readMagnitude, if_neg hne, readDigits_of_digits hdigits hlimit]
    rfl

namespace Typed

variable {part : Text} {parts : List Text} {k : Nat} {ks : List Nat}

/-- A typed number that is not too large is read as such. -/
theorem readInteger_trim (h : Typed part k) (hlimit : k ≤ largest) :
    readInteger part.trim = .ok (k : Int) := by
  cases h with
  | blanks hbefore hne hdigits hbehind =>
    rw [Text.trim_append_blank hbehind, Text.trim_blank_append hbefore,
      Text.trim_of_not_isBlank fun c hc => not_isBlank_of_isDigit (List.all_eq_true.1 hdigits c hc)]
    exact readInteger_of_digits hne hdigits hlimit

/-- A comma is neither a blank nor a digit. -/
theorem comma_not_mem (h : Typed part k) : ',' ∉ part := by
  cases h with
  | blanks hbefore hne hdigits hbehind =>
    simp only [List.mem_append, not_or]
    refine ⟨⟨fun hmem => ?_, fun hmem => ?_⟩, fun hmem => ?_⟩
    · exact absurd (List.all_eq_true.1 hbefore ',' hmem) (by decide)
    · exact absurd (List.all_eq_true.1 hdigits ',' hmem) (by decide)
    · exact absurd (List.all_eq_true.1 hbehind ',' hmem) (by decide)

/-- A list of them is read number by number. -/
theorem readParts_eq (h : List.Forall₂ Typed parts ks) (hlimit : ∀ k ∈ ks, k ≤ largest) :
    readParts parts = .ok (ks.map Int.ofNat) := by
  induction h with
  | nil => rfl
  | cons hpart _ ih =>
    rw [List.forall_mem_cons] at hlimit
    rw [readParts, hpart.readInteger_trim hlimit.1]
    dsimp only
    rw [ih hlimit.2]
    rfl

end Typed

end EntryNumbers

/-- A typed list of numbers is read as these numbers. -/
theorem readEntryNumbers_of_typed {parts : List Text} {ks : List Nat}
    (h : List.Forall₂ EntryNumbers.Typed parts ks) (hne : ks ≠ [])
    (hlimit : ∀ k ∈ ks, k ≤ EntryNumbers.largest) :
    readEntryNumbers (joinWith [','] parts) = .ok (ks.map Int.ofNat) := by
  have hparts : parts ≠ [] := fun e => hne (List.forall₂_nil_left_iff.1 (e ▸ h))
  have hcomma : ∀ part ∈ parts, ',' ∉ part := by
    intro part hpart
    obtain ⟨i, hi, rfl⟩ := List.getElem_of_mem hpart
    exact (h.get hi (h.length_eq ▸ hi)).comma_not_mem
  rw [readEntryNumbers, splitOn_joinWith hparts hcomma]
  exact EntryNumbers.Typed.readParts_eq h hlimit

/-! ## Numbered entries

The numbers that are shown count from one, those of the list from zero. `mem_numbered_iff` is the
only place where the two meet; the rest speaks of numbers and the texts under them. -/

namespace History

/-- The texts of the entries with their numbers. -/
def numbered (h : History) : List (Nat × Text) :=
  (h.entries.zipIdx 1).map fun (e, number) => (number, e.text)

/-- The entries are numbered from one on, without a gap. -/
theorem numbers_numbered (h : History) :
    h.numbered.map Prod.fst = List.range' 1 h.entries.length := by
  rw [numbered, List.map_map, ← List.zipIdx_map_snd 1 h.entries]
  rfl

/-- The number of an entry is the one that chooses it. -/
theorem mem_numbered_iff {h : History} {k : Nat} {t : Text} :
    (k, t) ∈ h.numbered ↔ ∃ n : ValidNumber h.entries, n.number = k ∧ n.entry.text = t := by
  simp only [numbered, List.mem_map, Prod.exists, Prod.mk.injEq,
    List.mk_mem_zipIdx_iff_le_and_getElem?_sub]
  constructor
  · rintro ⟨e, number, ⟨hone, hat⟩, rfl, rfl⟩
    obtain ⟨hlt, rfl⟩ := List.getElem?_eq_some_iff.1 hat
    exact ⟨⟨number, by omega, by omega⟩, rfl, rfl⟩
  · -- the number of an entry is one more than its position
    rintro ⟨n, hnumber, rfl⟩
    have hposition : k - 1 = n.number.toNat - 1 := by omega
    have hpositive := n.positive
    refine ⟨n.entry, k, ⟨by omega, ?_⟩, rfl, rfl⟩
    rw [hposition]
    exact List.getElem?_eq_getElem n.position_lt

/-- Numbers have one text each. -/
theorem texts_unique (h : History) {ks : List Nat} {texts others : List Text}
    (htexts : List.Forall₂ (fun k text => (k, text) ∈ h.numbered) ks texts)
    (hothers : List.Forall₂ (fun k text => (k, text) ∈ h.numbered) ks others) :
    texts = others := by
  refine List.right_unique_forall₂' (fun k text other htext hother => ?_) htexts hothers
  obtain ⟨n, hn, rfl⟩ := mem_numbered_iff.1 htext
  obtain ⟨n', hn', rfl⟩ := mem_numbered_iff.1 hother
  rw [ValidNumber.ext (hn.trans hn'.symm)]

/-- What is chosen by the numbers is shown under them, one entry for each. -/
theorem forall₂_selected {h : History} {ks : List Nat}
    (hks : ∀ k ∈ ks, 1 ≤ k ∧ k ≤ h.entries.length) :
    List.Forall₂ (fun k t => (k, t) ∈ h.numbered) ks
      ((Exporter.selected h.entries (ks.map Int.ofNat)).map Entry.text) := by
  induction ks with
  | nil => exact .nil
  | cons k rest ih =>
    rw [List.forall_mem_cons] at hks
    obtain ⟨hk, hrest⟩ := hks
    -- in range, the guard lets the number through
    have hrange : (1 : Int) ≤ Int.ofNat k ∧ Int.ofNat k ≤ h.entries.length :=
      ⟨Int.ofNat_le.2 hk.1, Int.ofNat_le.2 hk.2⟩
    rw [List.map_cons, Exporter.selected, Exporter.validNumbers,
      List.filterMap_cons_some (ValidNumber.ofInt?_of_range hrange), List.map_cons, List.map_cons]
    exact .cons (mem_numbered_iff.2 ⟨_, rfl, rfl⟩) (ih hrest)

end History

/-- The lines in which the entries are shown, between two rulers. -/
def Session.numberedView (h : History) : List Text :=
  "\n--- Calculation history ---".toList
    :: h.numbered.map (fun (number, text) => Numeral.write number ++ ". ".toList ++ text)
    ++ ["---------------------------".toList]

/-- A history that is not empty is shown with its numbers. -/
theorem Session.historyView_eq {h : History} (hentries : h.entries ≠ []) :
    historyView h = numberedView h := by
  rw [historyView, if_neg hentries, numberedView, History.numbered, List.map_map]
  rfl

/-! ## What is written

The command asks for the numbers and then for the destination, and each answer goes on to the next
question, so the two turns can be followed one after the other. -/

/-- The order of an export writes one readable line for each entry. -/
theorem Exporter.order_eq (path : Path) (entries : List Entry) :
    order path entries = ⟨path, (Path.parent? path).filter (!·.isEmpty),
      Utf8.encode ((entries.map Entry.text).flatMap (· ++ ['\n']))⟩ := by
  rw [order, content, List.flatMap_map]

/-- With a destination and something to export, the order is carried out. -/
theorem Exporter.run_exportSelected {x : Exporter} {workingPath? : Option Path} {h : History}
    {input : Text} {numbers : List Int} (hinput : input.isAllBlank = false)
    (hchosen : selected h.entries numbers ≠ []) (fs : FileSystem) :
    (fs.run (x.exportSelected workingPath? h input numbers)).1
      = (fs.perform (order (x.destination input) (selected h.entries numbers))).1 := by
  rw [exportSelected, hinput, if_neg Bool.false_ne_true]
  dsimp only
  rw [if_neg hchosen, FileSystem.run_map]
  rfl

namespace Session

variable {s : Session} {choice typed destination : Text} {numbers : List Int}

/-- The history is shown, and then the numbers lead on to the destination. -/
theorem command_of_numbers (hchoice : Choice.ofLine? choice = some .exportSelected)
    (hentries : s.history.entries ≠ []) (hnumbers : readEntryNumbers typed = .ok numbers)
    (fs : FileSystem) (lines : List Text) :
    s.command fs choice (typed :: lines)
      = ((s.asking (.selectedDestination numbers)).untilMenu fs lines).after
          (shownAll (numberedView s.history)
            ++ [.asked Question.entryNumbers.prompt (some typed)]) := by
  rw [command_exportSelected hchoice hentries, historyView_eq hentries, chooseEntries, hnumbers]

/-- The destination is the last line that is read. -/
theorem untilMenu_selectedDestination (s : Session) (numbers : List Int) (fs : FileSystem)
    (destination : Text) (rest : List Text) :
    let e := fs.run (s.exporter.exportSelected fs.workingPath? s.history destination numbers)
    (s.asking (.selectedDestination numbers)).untilMenu fs (destination :: rest)
      = ⟨e.1, s.atMenu,
          .asked (Question.selectedDestination numbers).prompt (some destination)
            :: (s.afterExport e.2).events, rest⟩ := by
  intro e
  have hturn : (s.asking (.selectedDestination numbers)).turn fs destination
      = (e.1, ⟨s.atMenu, .asked (Question.selectedDestination numbers).prompt (some destination)
          :: (s.afterExport e.2).events⟩) := by
    rw [turn, answer]
    dsimp only [asking]
    rw [FileSystem.run_map]
    rfl
  have hquestion : (s.asking (.selectedDestination numbers)).question ≠ .choice :=
    fun h => Question.noConfusion h
  -- the turn leads back to the menu, so the rest of the lines is not read
  rw [untilMenu_cons hquestion, hturn, untilMenu_of_choice rfl]
  show Progress.mk _ _ (_ ++ []) _ = _
  rw [List.append_nil]

end Session

open Session in
/-- The history is shown with the numbers from one on, before anything is written. When entries are
then chosen by their numbers, in any order and any of them several times, what is written are the
texts that were shown under these numbers, each in a line of its own; a file that was written is
read as these lines. -/
theorem number_shown_is_number_exported {s : Session} {choice destination : Text}
    {parts : List Text} {ks : List Nat} (fs : FileSystem) (rest : List Text)
    (hchoice : Choice.ofLine? choice = some .exportSelected)
    (hcount : s.history.entries.length ≤ EntryNumbers.largest) (hks : ks ≠ [])
    (hrange : ∀ k ∈ ks, 1 ≤ k ∧ k ≤ s.history.entries.length)
    (htyped : List.Forall₂ EntryNumbers.Typed parts ks)
    (hdestination : destination.isAllBlank = false) :
    let typed := joinWith [','] parts
    let shown := shownAll (numberedView s.history)
      ++ [.asked Question.entryNumbers.prompt (some typed)]
    let prompt := (Question.selectedDestination (ks.map Int.ofNat)).prompt
    let before := s.command fs choice [typed]
    let p := s.command fs choice (typed :: destination :: rest)
    let path := s.exporter.destination destination
    s.history.numbered.map Prod.fst = List.range' 1 s.history.entries.length
      ∧ (before.fs = fs ∧ before.events = shown ++ [.asked prompt none])
      ∧ (p.unread = rest ∧ shown ++ [.asked prompt (some destination)] <+: p.events)
      ∧ ∃ texts, List.Forall₂ (fun k text => (k, text) ∈ s.history.numbered) ks texts
        ∧ let order : WriteOrder := ⟨path, (Path.parent? path).filter (!·.isEmpty),
            Utf8.encode (texts.flatMap (· ++ ['\n']))⟩
          p.fs = (fs.perform order).1
            ∧ ((fs.perform order).2 = .ok () →
              fs.nodeAt? (fs.placeOf path) ≠ some (.device .null) →
              p.fs.read path = .content order.content) := by
  intro typed shown prompt before p path
  have hentries : s.history.entries ≠ [] := by
    obtain ⟨k, hk⟩ := List.exists_mem_of_ne_nil ks hks
    have hkrange := hrange k hk
    exact List.ne_nil_of_length_pos (by omega)
  have hnumbers : readEntryNumbers typed = .ok (ks.map Int.ofNat) :=
    readEntryNumbers_of_typed htyped hks fun k hk => Nat.le_trans (hrange k hk).2 hcount
  have hcommand := command_of_numbers hchoice hentries hnumbers fs
  have htexts := History.forall₂_selected hrange
  have hchosen : Exporter.selected s.history.entries (ks.map Int.ofNat) ≠ [] := by
    intro hnone
    rw [hnone] at htexts
    exact hks (List.forall₂_nil_right_iff.1 htexts)
  have hp : p = _ := (hcommand (destination :: rest)).trans
    (congrArg (Progress.after · _) (untilMenu_selectedDestination s _ fs destination rest))
  have hbefore : before = _ := hcommand []
  have hfs : p.fs = _ := (congrArg Progress.fs hp).trans
    (Exporter.run_exportSelected hdestination hchosen fs)
  rw [Exporter.order_eq] at hfs
  -- the numbers shown, the state at the last prompt, what the whole command says, and the file
  refine ⟨s.history.numbers_numbered, ?_, ?_, _, htexts, hfs, ?_⟩
  · rw [hbefore]
    exact ⟨rfl, rfl⟩
  · rw [hp]
    exact ⟨rfl, (s.afterExport _).events, List.append_assoc _ _ _⟩
  · intro hok hkept
    rw [hfs]
    refine FileSystem.read_of_performed hok (Utf8.encode_ne_nil ?_) hkept
    simpa using List.exists_mem_of_ne_nil _ hchosen

/-- The second entry, the first one and the second one again. -/
theorem number_shown_is_number_exported_out_of_order :
    let s : Session := .start {}
      ⟨"h.log".toList, [⟨"1+1".toList, ['2']⟩, ⟨"2*3".toList, ['6']⟩]⟩
    let fs : FileSystem := ⟨[(["w".toList], .directory)], ["w".toList], false⟩
    let p := s.command fs " 4".toList [" 2 ,01,2".toList, "out.txt".toList]
    (s.history.numbered = [(1, "1+1 -> 2".toList), (2, "2*3 -> 6".toList)]
        ∧ Session.shownAll (Session.numberedView s.history) <+: p.events)
      ∧ p.fs.read "out.txt".toList
        = .content (Utf8.encode "2*3 -> 6\n1+1 -> 2\n2*3 -> 6\n".toList) := by
  intro s fs p
  have htyped : List.Forall₂ EntryNumbers.Typed [" 2 ".toList, "01".toList, ['2']] [2, 1, 2] :=
    .cons (@EntryNumbers.Typed.blanks [' '] ['2'] [' '] rfl nofun rfl rfl)
      (.cons (@EntryNumbers.Typed.blanks [] ['0', '1'] [] rfl nofun rfl rfl)
        (.cons (@EntryNumbers.Typed.blanks [] ['2'] [] rfl nofun rfl rfl) .nil))
  have hchoice : Choice.ofLine? " 4".toList = some .exportSelected := rfl
  have hdestination : Text.isAllBlank "out.txt".toList = false := rfl
  obtain ⟨-, -, ⟨-, hshown⟩, texts, htexts, -, hread⟩ :=
    number_shown_is_number_exported (s := s) fs [] hchoice (by decide) (List.cons_ne_nil _ _)
      (by decide) htyped hdestination
  have hchosen : List.Forall₂ (fun k text => (k, text) ∈ s.history.numbered) [2, 1, 2]
      ["2*3 -> 6".toList, "1+1 -> 2".toList, "2*3 -> 6".toList] := by decide
  -- each number is shown with one text, which settles what was exported
  obtain rfl := s.history.texts_unique htexts hchosen
  refine ⟨⟨rfl, ?_⟩, ?_⟩
  · exact (List.prefix_append _ _).trans ((List.prefix_append _ _).trans hshown)
  · exact hread (by decide +kernel) (by decide +kernel)

end Reckon
