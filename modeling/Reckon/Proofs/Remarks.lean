import Reckon.Session.Run

/-!
# What an answer says

Besides the result of a calculation an answer shows remarks and notes records. `Event.Remark` lists
them all, but for the farewell of a session that is quit, so that what holds of every event of an
answer is one case analysis (`Session.reply_of_mem_answer`). Nothing is asked in an answer.

All this is said of every turn that an answer may come to (`Job.MayReturn`), since what a disk makes
of an order decides which remarks are made, but never adds one of another kind.
-/

namespace Reckon

/-- The farewell. -/
def Event.goodbye : Event :=
  .shown "Goodbye.".toList

/-- The line that is read, if there is one. -/
def Event.line? : Event → Option Text
  | asked _ answer? => answer?
  | shown _ | logged _ => none

/-- The line chooses to quit. -/
def Session.Quits (s : Session) (line : Text) : Prop :=
  s.question = .choice ∧ Choice.ofLine? line = some .quit

/-- What an answer says besides a result and the farewell. -/
inductive Event.Remark : Event → Prop
  | logged (record : LogRecord) : Remark (.logged record)
  | noHistory : Remark (.shown "History is empty.".toList)
  | historyBegins : Remark (.shown "\n--- Calculation history ---".toList)
  | entry (number : Nat) (e : Entry) :
      Remark (.shown (Numeral.write number ++ ['.', ' '] ++ e.text))
  | historyEnds : Remark (.shown "---------------------------".toList)
  | invalidChoice : Remark (.shown "Invalid choice. Please try again.".toList)
  | invalidNumbers : Remark (.shown "Error: invalid entry numbers.".toList)
  | expressionFault (e : CalculationError) :
      Remark (.shown ("error in expression: ".toList ++ e.message))
  | notSaved (e : SaveError) : Remark (.shown ("Failed to save history: ".toList ++ e.message))
  | exported (outcome : ExportOutcome) : Remark (.shown outcome.message)
  | notExported (e : ExportError) : Remark (.shown ("Error saving file: ".toList ++ e.message))

theorem Event.Remark.line?_eq_none {e : Event} (h : e.Remark) : e.line? = none := by
  cases h <;> rfl

namespace Session

open Event (Remark)

variable {s : Session} {e : Event} {line : Text}

theorem remark_of_mem_loggedAll {records : List LogRecord} (he : e ∈ loggedAll records) :
    e.Remark := by
  obtain ⟨record, -, rfl⟩ := List.mem_map.1 he
  exact .logged record

theorem remark_of_mem_historyView {h : History} (he : e ∈ shownAll (historyView h)) :
    e.Remark := by
  obtain ⟨message, hmessage, rfl⟩ := List.mem_map.1 he
  unfold historyView at hmessage
  split at hmessage
  · rw [List.mem_singleton.1 hmessage]
    exact .noHistory
  · simp only [List.cons_append, List.mem_cons, List.mem_append, List.mem_map, List.not_mem_nil,
      or_false] at hmessage
    -- the first line, the entries between, and the last line
    rcases hmessage with rfl | ⟨⟨entry, number⟩, -, rfl⟩ | rfl
    · exact .historyBegins
    · exact .entry number entry
    · exact .historyEnds

/-- Only the choice to quit is answered by something else than a remark. -/
theorem remark_or_goodbye_of_mem_choose (he : e ∈ (s.choose line).events) :
    e.Remark ∨ Choice.ofLine? line = some .quit ∧ e = .goodbye := by
  unfold choose at he
  split at he
  · cases he
  · exact .inl (remark_of_mem_historyView he)
  · cases he
  · exact .inl (remark_of_mem_historyView he)
  · next hquit => exact .inr ⟨hquit, List.mem_singleton.1 he⟩
  · rw [List.mem_singleton.1 he]
    exact .inl .invalidChoice

/-- The answer to entry numbers says nothing, or that they are none. -/
theorem remark_of_mem_chooseEntries (he : e ∈ (s.chooseEntries line).events) : e.Remark := by
  unfold chooseEntries at he
  split at he
  · cases he
  · rcases List.mem_cons.1 he with rfl | he
    · exact .logged _
    · rw [List.mem_singleton.1 he]
      exact .invalidNumbers

/-- What became of an export is a remark, either way. -/
theorem remark_of_mem_afterExport {exported : Exported}
    (he : e ∈ (s.afterExport exported).events) : e.Remark := by
  rcases List.mem_append.1 he with he | he
  · exact remark_of_mem_loggedAll he
  · rw [List.mem_singleton.1 he]
    cases exported.outcome with
    | error cause => exact .notExported cause
    | ok outcome => exact .exported outcome

/-- Of a save only a failure is shown. -/
theorem remark_of_mem_afterRecording {recorded : History.Recorded}
    (he : e ∈ (s.afterRecording recorded).events) : e.Remark := by
  rcases List.mem_append.1 he with he | he
  · exact remark_of_mem_loggedAll he
  · split at he
    · cases he
    · rw [List.mem_singleton.1 he]
      exact .notSaved _

/-- An expression without a value is answered by its fault. -/
theorem remark_of_mem_calculate_of_error {cause : CalculationError} {t : Turn}
    (h : evaluate s.strict line = .error cause) (ht : (s.calculate line).MayReturn t)
    (he : e ∈ t.events) : e.Remark := by
  rw [calculate, h] at ht
  rw [Job.mayReturn_done_iff.1 ht] at he
  rcases List.mem_append.1 he with he | he
  · exact remark_of_mem_loggedAll he
  · rcases List.mem_cons.1 he with rfl | he
    · exact .logged _
    · rw [List.mem_singleton.1 he]
      exact .expressionFault cause

/-- A value is shown between the records of its evaluation and those of its saving. -/
theorem events_calculate_of_ok {x : Binary64} {t : Turn} (h : evaluate s.strict line = .ok x)
    (ht : (s.calculate line).MayReturn t) :
    ∃ recorded, t.events
      = loggedAll (evaluateLog s.strict line) ++ .shown ("Result: ".toList ++ x.resultText)
        :: (s.afterRecording recorded).events := by
  rw [calculate, h] at ht
  obtain ⟨recorded, -, rfl⟩ := Job.mayReturn_map_iff.1 ht
  exact ⟨recorded, rfl⟩

variable {workingPath? : Option Path} {t : Turn}

/-- Apart from calculations, answers consist of remarks, but for the farewell. -/
theorem remark_or_goodbye_of_mem_answer (hq : s.question ≠ .expression)
    (ht : (s.answer workingPath? line).MayReturn t) (he : e ∈ t.events) :
    e.Remark ∨ s.Quits line ∧ e = .goodbye := by
  -- by the question; only the choice can be to quit
  unfold answer at ht
  split at ht
  · next hchoice =>
    rw [Job.mayReturn_done_iff.1 ht] at he
    rcases remark_or_goodbye_of_mem_choose he with hremark | ⟨hquit, hgoodbye⟩
    · exact .inl hremark
    · exact .inr ⟨⟨hchoice, hquit⟩, hgoodbye⟩
  · next hexpression => exact absurd hexpression hq
  · obtain ⟨exported, -, rfl⟩ := Job.mayReturn_map_iff.1 ht
    exact .inl (remark_of_mem_afterExport he)
  · rw [Job.mayReturn_done_iff.1 ht] at he
    exact .inl (remark_of_mem_chooseEntries he)
  · obtain ⟨exported, -, rfl⟩ := Job.mayReturn_map_iff.1 ht
    exact .inl (remark_of_mem_afterExport he)

/-- What an answer says. -/
inductive Reply (s : Session) (line : Text) (e : Event) : Prop
  | remark (h : e.Remark)
  | result (result : Text) (h : e = .shown ("Result: ".toList ++ result))
  | goodbye (hquits : s.Quits line) (h : e = .goodbye)

/-- All events of an answer are of these three kinds. -/
theorem reply_of_mem_answer (ht : (s.answer workingPath? line).MayReturn t)
    (he : e ∈ t.events) : s.Reply line e := by
  by_cases hq : s.question = .expression
  · rw [answer, hq] at ht
    -- the result stands between the records of the evaluation and those of the save
    cases hvalue : evaluate s.strict line with
    | error cause => exact .remark (remark_of_mem_calculate_of_error hvalue ht he)
    | ok x =>
      obtain ⟨recorded, hevents⟩ := events_calculate_of_ok hvalue ht
      rw [hevents] at he
      rcases List.mem_append.1 he with he | he
      · exact .remark (remark_of_mem_loggedAll he)
      · rcases List.mem_cons.1 he with rfl | he
        · exact .result _ rfl
        · exact .remark (remark_of_mem_afterRecording he)
  · rcases remark_or_goodbye_of_mem_answer hq ht he with hremark | ⟨hquits, hgoodbye⟩
    · exact .remark hremark
    · exact .goodbye hquits hgoodbye

/-- Nothing is asked in an answer, so nothing is read. -/
theorem filterMap_line?_answer (ht : (s.answer workingPath? line).MayReturn t) :
    t.events.filterMap Event.line? = [] := by
  refine List.filterMap_eq_nil_iff.2 fun e he => ?_
  cases reply_of_mem_answer ht he with
  | remark h => exact h.line?_eq_none
  | result result h => rw [h]; rfl
  | goodbye hquits h => rw [h]; rfl

end Session

end Reckon
