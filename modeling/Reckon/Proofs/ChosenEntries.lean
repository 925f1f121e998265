import Reckon.Proofs.Exporting
import Reckon.Proofs.NumberedExport

/-!
# Exports of chosen entries

Any integers may be asked for; those that are no number of an entry are passed over. What is left
are numbers that carry their range with them (`ValidNumber`), so that looking up their entries needs
no check and cannot fail. Here it is said which numbers are left (`numbers_validNumbers`), and
`chosen_entries_exported` says what an export of their entries comes to.
-/

namespace Reckon

namespace Exporter

variable {x : Exporter} {workingPath? : Option Path} {h : History} {input : Text}
  {numbers others : List Int} {entries : List Entry}

/-! ## Which entries are chosen

What is chosen is a list made from the numbers in range, one after the other. So it respects that
numbers are put together, and numbers out of range leave no trace in it. -/

/-- The numbers that are left are those in range, in the order in which they were asked for. -/
theorem numbers_validNumbers (entries : List Entry) (numbers : List Int) :
    (validNumbers entries numbers).map ValidNumber.number
      = numbers.filter fun k : Int => 1 ≤ k ∧ k ≤ entries.length := by
  rw [validNumbers, List.map_filterMap, ← List.filterMap_eq_filter]
  congr 1
  funext k
  rw [ValidNumber.ofInt?, Option.guard]
  split <;> simp_all

/-- The file is to hold one line for each number in range. -/
theorem order_selected (path : Path) (entries : List Entry) (numbers : List Int) :
    order path (selected entries numbers) = ⟨path, (Path.parent? path).filter (!·.isEmpty),
      Utf8.encode ((validNumbers entries numbers).flatMap fun k =>
        k.entry.expression ++ " -> ".toList ++ k.entry.result ++ ['\n'])⟩ := by
  rw [order, content, selected, List.flatMap_map]
  rfl

/-- The entries of a list of numbers come one after the other. -/
theorem selected_append (entries : List Entry) (numbers others : List Int) :
    selected entries (numbers ++ others) = selected entries numbers ++ selected entries others := by
  rw [selected, validNumbers, List.filterMap_append, List.map_append]
  rfl

/-- Only the numbers in range count. -/
theorem selected_congr
    (heq : (numbers.filter fun k : Int => 1 ≤ k ∧ k ≤ entries.length)
      = others.filter fun k : Int => 1 ≤ k ∧ k ≤ entries.length) :
    selected entries numbers = selected entries others := by
  rw [← numbers_validNumbers, ← numbers_validNumbers] at heq
  have hinjective : Function.Injective (ValidNumber.number : ValidNumber entries → Int) :=
    fun _ _ => ValidNumber.ext
  rw [selected, selected, hinjective.list_map heq]

/-- The numbers from one on choose the entries from the first one on. -/
theorem selected_range' {n : Nat} (hn : n ≤ entries.length) :
    selected entries ((List.range' 1 n).map Int.ofNat) = entries.take n := by
  -- on how many numbers there are: the last one is `n + 1`, that of the entry at position `n`
  induction n with
  | zero => rfl
  | succ n ih =>
    have hrange : 1 ≤ Int.ofNat (1 + n) ∧ Int.ofNat (1 + n) ≤ entries.length :=
      ⟨Int.ofNat_le.2 (Nat.le_add_right 1 n), Int.ofNat_le.2 (Nat.add_comm 1 n ▸ hn)⟩
    have hentry : (ValidNumber.mk (Int.ofNat (1 + n)) hrange.1 hrange.2).entry = entries[n] := by
      have hposition : (Int.ofNat (1 + n)).toNat - 1 = n := Nat.add_sub_cancel_left 1 n
      simp only [ValidNumber.entry, hposition, List.get_eq_getElem]
    have hlast : selected entries [Int.ofNat (1 + n)] = [entries[n]] := by
      rw [selected, validNumbers, List.filterMap_cons_some (ValidNumber.ofInt?_of_range hrange),
        List.map_cons, hentry]
      rfl
    rw [List.range'_1_concat, List.map_append, List.map_singleton, selected_append,
      ih (Nat.le_of_succ_le hn), hlast, List.take_add_one, List.getElem?_eq_getElem hn]
    rfl

/-- An export of chosen entries, but for what is logged. -/
theorem map_outcome_exportSelected :
    (x.exportSelected workingPath? h input numbers).map Exported.outcome
      = if input.isAllBlank then .done (.error .missingDestination)
        else if selected h.entries numbers = [] then .done (.ok .nothingSelected)
        else (x.write workingPath? input (selected h.entries numbers)).map Exported.outcome := by
  rw [exportSelected]
  split
  · rfl
  · dsimp only
    split <;> rfl

end Exporter

/-- What becomes of an export of chosen entries, for any list of numbers. Without a destination
nothing is written, and without a number of an entry neither. Otherwise the file is to hold one line
for each number in range, in the order of the numbers, and it does once it is written; the outcome
then tells how many there are. Numbers out of range may stand anywhere: what is to be written and
what follows from the answer depend on the others only. All numbers in their order give what the
whole history gives. -/
theorem chosen_entries_exported (x : Exporter) (h : History) (input : Text) :
    (∀ (numbers : List Int) (fs fs' : FileSystem) (exported : Exported),
      fs.MayRun (x.exportSelected fs.workingPath? h input numbers) fs' exported →
      let chosen := Exporter.validNumbers h.entries numbers
      let path := x.destination input
      let order : WriteOrder := ⟨path, (Path.parent? path).filter (!·.isEmpty),
        Utf8.encode (chosen.flatMap fun k =>
          k.entry.expression ++ " -> ".toList ++ k.entry.result ++ ['\n'])⟩
      chosen.map ValidNumber.number
          = (numbers.filter fun k : Int => 1 ≤ k ∧ k ≤ h.entries.length)
        ∧ (input.isAllBlank = true → exported.outcome = .error .missingDestination ∧ fs' = fs)
        ∧ (input.isAllBlank = false → chosen = [] →
          exported.outcome = .ok .nothingSelected ∧ fs' = fs)
        ∧ (input.isAllBlank = false → chosen ≠ [] →
          ∃ answer, fs.MayPerform order fs' answer
            ∧ (answer = .ok () →
              exported.outcome
                  = .ok (.written (Path.absoluteFrom fs.workingPath? path) chosen.length)
                ∧ ((∃ d, fs'.nodeAt? (fs.placeOf path) = some (.device d))
                  ∨ fs'.nodeAt? (fs.placeOf path) = some (.file order.content)))
            ∧ ∀ failure, answer = .error failure → ∃ fault, exported.outcome = .error fault))
    ∧ (∀ (workingPath? : Option Path) (numbers others : List Int),
      ((numbers.filter fun k : Int => 1 ≤ k ∧ k ≤ h.entries.length)
        = others.filter fun k : Int => 1 ≤ k ∧ k ≤ h.entries.length) →
      (x.exportSelected workingPath? h input numbers).map Exported.outcome
        = (x.exportSelected workingPath? h input others).map Exported.outcome)
    ∧ (input.isAllBlank = false → h.entries ≠ [] → ∀ workingPath? : Option Path,
      (x.exportSelected workingPath? h input
          ((List.range' 1 h.entries.length).map Int.ofNat)).map Exported.outcome
        = (x.exportAll workingPath? h input).map Exported.outcome) := by
  refine ⟨fun numbers fs fs' exported hrun => ?_, fun workingPath? numbers others heq => ?_,
    fun hinput hentries workingPath? => ?_⟩
  · -- the outcome is read off the job, of which `map_outcome_exportSelected` leaves three forms
    intro chosen path order
    have horder : Exporter.order path (Exporter.selected h.entries numbers) = order :=
      Exporter.order_selected path h.entries numbers
    have hnone : Exporter.selected h.entries numbers = [] ↔ chosen = [] := List.map_eq_nil_iff
    have hrequest :
        fs.MayRun (x.carryOut fs.workingPath? h (.selected input numbers)) fs' exported := hrun
    have houtcome := hrun.map Exported.outcome
    rw [Exporter.map_outcome_exportSelected] at houtcome
    refine ⟨Exporter.numbers_validNumbers h.entries numbers, fun hblank => ?_,
      fun hinput hempty => ?_, fun hinput hsome => ?_⟩
    · rw [if_pos hblank] at houtcome
      generalize exported.outcome = outcome at houtcome
      cases houtcome
      exact ⟨rfl, rfl⟩
    · rw [hinput, if_neg Bool.false_ne_true, if_pos (hnone.2 hempty)] at houtcome
      generalize exported.outcome = outcome at houtcome
      cases houtcome
      exact ⟨rfl, rfl⟩
    · rw [hinput, if_neg Bool.false_ne_true, if_neg (mt hnone.1 hsome)] at houtcome
      generalize hresult : exported.outcome = outcome at houtcome ⊢
      obtain _ | hperform := houtcome
      rw [horder] at hperform
      refine ⟨_, hperform, ?_, ?_⟩
      · rintro rfl
        have hwritten : exported.outcome
            = .ok (.written (Path.absoluteFrom fs.workingPath? path) chosen.length) := by
          rw [hresult, Exporter.selected, List.length_map]
          rfl
        rw [← horder, ← hresult]
        exact ⟨hwritten, Exporter.nodeAt?_of_written hrequest hwritten⟩
      · rintro failure rfl
        rcases failure with _ | _ | _
        all_goals exact ⟨_, rfl⟩
  · rw [Exporter.map_outcome_exportSelected, Exporter.map_outcome_exportSelected,
      Exporter.selected_congr heq]
  · rw [Exporter.map_outcome_exportSelected, Exporter.selected_range' (Nat.le_refl _),
      List.take_length, Exporter.exportAll, hinput]
    simp only [Bool.false_eq_true, if_false, hentries]

/-- The second entry, the first one and the second one again, between numbers of no entry; numbers
of no entry alone; and no destination. -/
theorem chosen_entries_exported_past_the_ends :
    let x : Exporter := ⟨"h.txt".toList⟩
    let h : History := ⟨"h.log".toList, [⟨"1+1".toList, ['2']⟩, ⟨"2*3".toList, ['6']⟩]⟩
    let fs : FileSystem := ⟨[(["w".toList], .directory)], ["w".toList], false⟩
    let exported (destination : Text) (numbers : List Int) :=
      fs.run (x.exportSelected fs.workingPath? h destination numbers)
    ((exported "out.txt".toList [3, -2147483648, 2, 0, 1, 2]).2.outcome
          = .ok (.written "/w/out.txt".toList 3)
        ∧ (exported "out.txt".toList [3, -2147483648, 2, 0, 1, 2]).1.nodeAt?
            ["w".toList, "out.txt".toList]
          = some (.file (Utf8.encode "2*3 -> 6\n1+1 -> 2\n2*3 -> 6\n".toList)))
      ∧ (exported "out.txt".toList [0, 3]).2.outcome = .ok .nothingSelected
      ∧ (exported " ".toList [1]).2.outcome = .error .missingDestination := by
  intro x h fs exported
  have hsome := (chosen_entries_exported x h "out.txt".toList).1
    [3, -2147483648, 2, 0, 1, 2] fs _ _ (fs.mayRun_run _)
  have hnone := (chosen_entries_exported x h "out.txt".toList).1 [0, 3] fs _ _ (fs.mayRun_run _)
  have hblank := (chosen_entries_exported x h " ".toList).1 [1] fs _ _ (fs.mayRun_run _)
  have hfile : (exported "out.txt".toList [3, -2147483648, 2, 0, 1, 2]).1.nodeAt?
      ["w".toList, "out.txt".toList]
        = some (.file (Utf8.encode "2*3 -> 6\n1+1 -> 2\n2*3 -> 6\n".toList)) := by
    decide +kernel
  obtain ⟨answer, -, hok, hfailed⟩ := hsome.2.2.2 rfl (List.cons_ne_nil _ _)
  refine ⟨⟨?_, hfile⟩, (hnone.2.2.1 rfl rfl).1, (hblank.2.1 rfl).1⟩
  -- the first export succeeds when it is run, so the answer was no refusal
  cases answer with
  | ok _ => exact (hok rfl).1
  | error failure =>
    obtain ⟨fault, hfault⟩ := hfailed failure rfl
    have hdone :
        (exported "out.txt".toList [3, -2147483648, 2, 0, 1, 2]).2.outcome.toBool = true := by
      decide +kernel
    rw [show _ = Except.error fault from hfault] at hdone
    cases hdone

end Reckon
