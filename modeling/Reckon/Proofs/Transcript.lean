import Mathlib.Data.List.Infix
import Reckon.Proofs.Moments
import Reckon.Proofs.Refusals
import Reckon.Proofs.Remarks

/-!
# What the transcript of a session says about its history

The events of a session tell which lines were read as expressions and which results were shown. Of
all that a session does, only a calculation leaves such traces together with an entry
(`Session.transcript_answer`), so the history that a session ends with can be read off its
transcript: the loaded entries, and one more for each line that was read as an expression and has a
value.

What the disk does to an order changes neither the traces nor the entry, only a remark. So this is
proved of every turn that an answer may come to, and holds of a session on a disk that refuses
whatever it likes (`Session.MayRun`).
-/

namespace Reckon

namespace Event

/-- The line that was read as an expression. -/
def expression? : Event → Option Text
  | asked prompt (some line) => if prompt = Question.expression.prompt then some line else none
  | _ => none

/-- Stands in front of every result that is shown. -/
def resultLabel : Text := "Result: ".toList

/-- The text of a result that was shown. -/
def result? : Event → Option Text
  | shown message => resultLabel.isPrefixOf? message
  | _ => none

/-- An event that is neither. -/
structure Aside (e : Event) : Prop where
  noExpression : e.expression? = none
  noResult : e.result? = none

theorem aside_logged (record : LogRecord) : (logged record).Aside :=
  ⟨rfl, rfl⟩

/-- A message that begins with another character than the label is no result. -/
theorem aside_shown {message : Text} (h : message.head? ≠ some 'R') : (shown message).Aside := by
  refine ⟨rfl, ?_⟩
  rw [result?, Option.eq_none_iff_forall_ne_some]
  intro text htext
  have hmessage : resultLabel ++ text = message := List.isPrefixOf?_eq_some_iff_append_eq.1 htext
  rw [← hmessage] at h
  exact h rfl

/-- A message that begins with the label shows the text behind it as a result. -/
theorem result?_shown_label (text : Text) : (shown (resultLabel ++ text)).result? = some text :=
  List.isPrefixOf?_eq_some_iff_append_eq.2 rfl

theorem filterMap_expression?_eq_nil {events : List Event} (h : ∀ e ∈ events, e.Aside) :
    events.filterMap expression? = [] :=
  List.filterMap_eq_nil_iff.2 fun e he => (h e he).noExpression

theorem filterMap_result?_eq_nil {events : List Event} (h : ∀ e ∈ events, e.Aside) :
    events.filterMap result? = [] :=
  List.filterMap_eq_nil_iff.2 fun e he => (h e he).noResult

end Event

/-- The entry that an expression leads to if it has a value. -/
def calculated? (strict : Bool) (line : Text) : Option Entry :=
  match evaluate strict line with
  | .ok x => some ⟨line, x.resultText⟩
  | .error _ => none

/-! ## Remarks are no results -/

/-- No remark begins like a result. -/
theorem Event.Remark.aside {e : Event} (h : e.Remark) : e.Aside := by
  -- the first characters differ, or in an entry the number stands in front
  cases h with
  | logged record => exact aside_logged record
  | noHistory => exact aside_shown (by decide)
  | historyBegins => exact aside_shown (by decide)
  | historyEnds => exact aside_shown (by decide)
  | entry number e =>
    rw [List.append_assoc]
    exact aside_shown (Numeral.head?_write_append_ne (by decide) number _)
  | invalidChoice => exact aside_shown (by decide)
  | invalidNumbers => exact aside_shown (by decide)
  | expressionFault cause => exact aside_shown (by decide : some 'e' ≠ some 'R')
  | notSaved cause => exact aside_shown (by decide : some 'F' ≠ some 'R')
  | notExported cause => exact aside_shown (by decide : some 'E' ≠ some 'R')
  | exported outcome =>
    apply aside_shown
    cases outcome with
    | written path count => exact (by decide : some 'H' ≠ some 'R')
    | historyLocation path => exact (by decide : some 'T' ≠ some 'R')
    | nothingSelected => exact (by decide : some 'N' ≠ some 'R')

/-! ## The traces of a calculation

Two things in the events tell of an entry, the line that was read and the result that was shown, and
`TellOf` says that they tell of the same. It is put together along the run: events that are asides
tell of nothing, and an answered expression tells of its entry. -/

namespace Event

/-- The entries that the events tell of: one for each line read as an expression with a value. -/
def calculations (strict : Bool) (events : List Event) : List Entry :=
  (events.filterMap expression?).filterMap (calculated? strict)

theorem calculations_append (strict : Bool) (first second : List Event) :
    calculations strict (first ++ second)
      = calculations strict first ++ calculations strict second := by
  rw [calculations, List.filterMap_append, List.filterMap_append]
  rfl

theorem calculations_eq_nil (strict : Bool) {events : List Event} (h : ∀ e ∈ events, e.Aside) :
    calculations strict events = [] := by
  rw [calculations, filterMap_expression?_eq_nil h, List.filterMap_nil]

/-- The events tell of exactly these entries, by the expressions read and by the results shown. -/
structure TellOf (strict : Bool) (events : List Event) (es : List Entry) : Prop where
  read : calculations strict events = es
  shown : events.filterMap result? = es.map Entry.result

theorem TellOf.append {strict : Bool} {first second : List Event} {es fs : List Entry}
    (h₁ : TellOf strict first es) (h₂ : TellOf strict second fs) :
    TellOf strict (first ++ second) (es ++ fs) where
  read := by rw [calculations_append, h₁.read, h₂.read]
  shown := by rw [List.filterMap_append, h₁.shown, h₂.shown, List.map_append]

/-- Asides tell of no entry. -/
theorem tellOf_nil_of_aside (strict : Bool) {events : List Event} (h : ∀ e ∈ events, e.Aside) :
    TellOf strict events [] :=
  ⟨calculations_eq_nil strict h, filterMap_result?_eq_nil h⟩

end Event

namespace Session

open Event

theorem aside_of_mem_preface {s : Session} {e : Event} (he : e ∈ s.preface) : e.Aside := by
  unfold preface at he
  split at he
  · rw [List.mem_singleton.1 he]
    exact aside_shown (by decide)
  · cases he

/-- An expression is asked for by a prompt of its own. -/
theorem prompt_ne_of_ne_expression {q : Question} (h : q ≠ .expression) :
    q.prompt ≠ Question.expression.prompt := by
  cases q with
  | expression => exact absurd rfl h
  | choice => decide
  | destination => decide
  | entryNumbers => decide
  | selectedDestination numbers =>
    show (Question.selectedDestination []).prompt ≠ _
    decide

/-- No other question reads an expression. -/
theorem aside_asked {q : Question} (h : q ≠ .expression) (answer? : Option Text) :
    (asked q.prompt answer?).Aside := by
  refine ⟨?_, rfl⟩
  cases answer? with
  | none => rfl
  | some line => rw [expression?, if_neg (prompt_ne_of_ne_expression h)]

/-- A line read as an expression tells of its entry if nothing else is read and the result of the
entry is what is shown. -/
theorem tellOf_read {strict : Bool} {line : Text} {behind : List Event}
    (hread : behind.filterMap expression? = [])
    (hshown : behind.filterMap result? = (calculated? strict line).toList.map Entry.result) :
    TellOf strict (asked Question.expression.prompt (some line) :: behind)
      (calculated? strict line).toList := by
  have hasked : (asked Question.expression.prompt (some line)).expression? = some line := by
    rw [expression?, if_pos rfl]
  have hresult : (asked Question.expression.prompt (some line)).result? = none := rfl
  constructor
  · rw [calculations, List.filterMap_cons_some hasked, hread]
    cases hentry : calculated? strict line with
    | none => rw [List.filterMap_cons_none hentry]; rfl
    | some e => rw [List.filterMap_cons_some hentry]; rfl
  · rw [List.filterMap_cons_none hresult, hshown]

variable {s : Session} {workingPath? : Option Path} {line : Text} {t : Turn}

/-- Whatever a calculation comes to, its events tell of the entry, if it has a value. -/
theorem tellOf_calculate (ht : (s.calculate line).MayReturn t) :
    TellOf s.strict (asked Question.expression.prompt (some line) :: t.events)
      (calculated? s.strict line).toList := by
  cases hvalue : evaluate s.strict line with
  | error cause =>
    have haside : ∀ e ∈ t.events, e.Aside := fun e he =>
      (remark_of_mem_calculate_of_error hvalue ht he).aside
    have hnone : calculated? s.strict line = none := by rw [calculated?, hvalue]
    exact tellOf_read (filterMap_expression?_eq_nil haside)
      (by rw [filterMap_result?_eq_nil haside, hnone]; rfl)
  | ok x =>
    obtain ⟨recorded, hevents⟩ := events_calculate_of_ok hvalue ht
    have hsome : calculated? s.strict line = some ⟨line, x.resultText⟩ := by
      rw [calculated?, hvalue]
    have hresult : (shown (resultLabel ++ x.resultText)).expression? = none := rfl
    -- the notes before the result and the remarks behind it are asides
    apply tellOf_read
    · rw [hevents, List.filterMap_append,
        filterMap_expression?_eq_nil fun e he => (remark_of_mem_loggedAll he).aside,
        List.nil_append]
      exact (List.filterMap_cons_none hresult).trans
        (filterMap_expression?_eq_nil fun e he => (remark_of_mem_afterRecording he).aside)
    · rw [hevents, List.filterMap_append,
        filterMap_result?_eq_nil fun e he => (remark_of_mem_loggedAll he).aside,
        List.nil_append, hsome]
      exact (List.filterMap_cons_some (result?_shown_label x.resultText)).trans
        (congrArg _ (filterMap_result?_eq_nil fun e he => (remark_of_mem_afterRecording he).aside))

/-- That entry is added to the history. -/
theorem history_calculate (ht : (s.calculate line).MayReturn t) :
    t.session.history.entries
      = s.history.entries ++ (calculated? s.strict line).toList := by
  rw [calculated?]
  cases hvalue : evaluate s.strict line with
  | error cause =>
    rw [(calculate_of_error hvalue).2 t ht]
    exact (List.append_nil _).symm
  | ok x =>
    rw [(calculate_of_ok hvalue).2 t ht]
    rfl

/-- Whatever an answer comes to, its events tell of the entries that it adds to the history. -/
theorem transcript_answer (ht : (s.answer workingPath? line).MayReturn t) :
    ∃ es, TellOf s.strict (asked s.question.prompt (some line) :: t.events) es
      ∧ t.session.history.entries = s.history.entries ++ es := by
  -- only an expression adds to the history, and only its answer tells of a result
  by_cases hq : s.question = .expression
  · rw [answer, hq] at ht
    rw [hq]
    exact ⟨_, tellOf_calculate ht, history_calculate ht⟩
  · refine ⟨[], tellOf_nil_of_aside _ fun e he => ?_, ?_⟩
    · rcases List.mem_cons.1 he with rfl | he
      · exact aside_asked hq _
      · rcases remark_or_goodbye_of_mem_answer hq ht he with hremark | ⟨-, rfl⟩
        · exact hremark.aside
        · exact aside_shown (by decide)
    · rw [history_answer_of_ne hq ht, List.append_nil]

/-- Whatever becomes of a session, its events tell of the entries that it adds to the history. -/
theorem transcript_mayRunLines {fs : FileSystem} {lines : List Text} {p : Progress}
    (h : s.MayRunLines fs lines p) :
    ∃ es, TellOf s.strict p.events es
      ∧ p.session.history.entries = s.history.entries ++ es := by
  -- on the run; the mode must be carried along, as it decides what a line is worth
  induction h with
  | stopped fs lines _ =>
    exact ⟨[], tellOf_nil_of_aside _ fun e he => absurd he List.not_mem_nil,
      (List.append_nil _).symm⟩
  | @endOfInput s fs _ =>
    refine ⟨[], tellOf_nil_of_aside _ fun e he => ?_, (List.append_nil _).symm⟩
    rcases List.mem_append.1 he with he | he
    · exact aside_of_mem_preface he
    · -- the question left open is asked, but nothing is read
      rw [List.mem_singleton.1 he]
      exact ⟨rfl, rfl⟩
  | @answered s fs fs' line rest t p _ hturn _ ih =>
    have hstrict : t.session.strict = s.strict := congrArg Prod.fst (setup_answer hturn.mayReturn)
    have hpreface : TellOf s.strict s.preface [] :=
      tellOf_nil_of_aside _ fun e he => aside_of_mem_preface he
    obtain ⟨es, htell, hentries⟩ := transcript_answer hturn.mayReturn
    obtain ⟨later, hlater, hlast⟩ := ih
    rw [hstrict] at hlater
    refine ⟨es ++ later, (hpreface.append htell).append hlater, ?_⟩
    rw [← List.append_assoc, ← hentries]
    exact hlast

theorem filterMap_line?_preface (s : Session) : s.preface.filterMap line? = [] := by
  unfold preface
  split <;> rfl

/-- The lines that are read and those that are left are all the lines, in their order. -/
theorem read_append_unread {fs : FileSystem} {lines : List Text} {p : Progress}
    (h : s.MayRunLines fs lines p) : p.events.filterMap line? ++ p.unread = lines := by
  induction h with
  | stopped fs lines _ => rfl
  | @endOfInput s fs _ =>
    rw [List.filterMap_append, s.filterMap_line?_preface]
    rfl
  | @answered s fs fs' line rest t p _ hturn _ ih =>
    have hasked : (asked s.question.prompt (some line)).line? = some line := rfl
    -- the answered line is read once, and the answer reads nothing
    have hread : (asked s.question.prompt (some line) :: t.events).filterMap line? = [line] := by
      rw [List.filterMap_cons_some hasked, filterMap_line?_answer hturn.mayReturn]
    rw [Progress.after, List.filterMap_append, List.filterMap_append, s.filterMap_line?_preface,
      hread, List.append_assoc, ih]
    rfl

end Session

/-- Whatever the disk refuses in the course of a session, and also if it refuses nothing: the
history that the session ends with is the loaded one with an entry at its end for each line that was
read as an expression and has a value, in the order of reading; the results that were shown are
those of these entries, in the same order; and the lines that were read are the first of all lines,
each of them once and in order, up to where the session stopped. -/
theorem history_of_transcript (fs : FileSystem) (settings : Settings) (lines : List Text) :
    let s := (fs.startSession settings).1
    s.MayRun fs lines (s.run fs lines)
      ∧ ∀ p, s.MayRun fs lines p →
        let read := p.events.filterMap Event.expression?
        let calculated := read.filterMap (calculated? settings.strict)
        p.session.history.entries
            = (fs.openHistory settings.historyFile).1.entries ++ calculated
          ∧ p.events.filterMap Event.result? = calculated.map Entry.result
          ∧ p.events.filterMap Event.line? ++ p.unread = lines := by
  intro s
  refine ⟨s.mayRun_run fs lines, ?_⟩
  rintro p ⟨q, hrun, rfl⟩ read calculated
  have hlast : ∀ e ∈ [Event.logged ⟨.info, "session finished".toList⟩], e.Aside := by
    intro e he
    rw [List.mem_singleton.1 he]
    exact Event.aside_logged _
  -- the last record is added when the lines are through, and tells nothing
  obtain ⟨es, htell, hentries⟩ := Session.transcript_mayRunLines hrun
  have hall := htell.append (Event.tellOf_nil_of_aside settings.strict hlast)
  rw [List.append_nil] at hall
  have hcalculated : calculated = es := hall.read
  have hlines := Session.read_append_unread hrun
  rw [hcalculated]
  refine ⟨hentries, hall.shown, ?_⟩
  rw [List.filterMap_append]
  show (_ ++ []) ++ q.unread = lines
  rw [List.append_nil]
  exact hlines

/-- On a disk that takes no file nothing is saved, but the transcript tells of the same entry. -/
theorem history_of_transcript_without_saving :
    let fs : FileSystem := ⟨[(["w".toList], .directory)], ["w".toList], false⟩
    let s := (fs.startSession {}).1
    ∃ p, s.MayRun fs [['1'], "1+2".toList, ['5'], ['1']] p
      ∧ p.fs = fs
      ∧ .shown "Failed to save history: cannot open calculator_history.log".toList ∈ p.events
      ∧ p.session.history.entries = [⟨"1+2".toList, ['3']⟩]
      ∧ p.events.filterMap Event.result? = [['3']]
      ∧ p.unread = [['1']] := by
  intro fs s
  let asking := (s.choose ['1']).session
  let cause : SystemError := .other 13 "Permission denied".toList
  -- saving makes no directory, so the one order of the session may be refused as it is
  have hsaving : ∀ order resume,
      asking.calculate "1+2".toList = .write order resume → order.directory? = none := by
    intro order resume hjob
    rw [Session.calculate] at hjob
    cases hvalue : evaluate asking.strict "1+2".toList with
    | error fault =>
      rw [hvalue] at hjob
      cases hjob
    | ok x =>
      rw [hvalue] at hjob
      cases hjob
      rfl
  have hrun : s.MayRunLines fs [['1'], "1+2".toList, ['5'], ['1']] _ :=
    .answered rfl (.done _) (.answered rfl (fs.mayRun_refused cause hsaving)
      (.answered rfl (.done _) (.stopped fs [['1']] rfl)))
  obtain ⟨hentries, hresults, -⟩ := (history_of_transcript fs {} _).2 _ ⟨_, hrun, rfl⟩
  refine ⟨_, ⟨_, hrun, rfl⟩, rfl, ?_, ?_, ?_, rfl⟩
  · decide +kernel
  · rw [hentries]
    decide +kernel
  · rw [hresults]
    decide +kernel

end Reckon
