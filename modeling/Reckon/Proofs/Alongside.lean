import Mathlib.Data.List.Forall2
import Reckon.Proofs.LineEnds
import Reckon.Proofs.Moments

/-!
# Sessions alongside

Two sessions on the same lines, one of which gets the lines with their ends, go the same way
(`Session.forall₂_moments_alongside`): they ask the same questions, record entries and make orders
at the same moments. This is so on any two file systems, since no answer depends on what became of
an order. What the ends change is text that is written, an expression or a destination.
-/

namespace Reckon

/-! ## What depends on the number of entries only

The two histories are as long as each other but hold different texts. So it matters that whether an
export makes an order depends on the answer and on how many entries there are, not on which. -/

namespace Exporter

/-- Which numbers select something depends on the number of entries. -/
theorem selected_eq_nil_congr {es es' : List Entry} (h : es'.length = es.length)
    (numbers : List Int) : selected es' numbers = [] ↔ selected es numbers = [] := by
  rw [selected_eq_nil_iff, selected_eq_nil_iff, h]

/-- All entries are exported to any destination that is not blank, even if there are none. -/
theorem isSome_order?_exportAll (x : Exporter) (workingPath? : Option Path) (h : History)
    (input : Text) : (x.exportAll workingPath? h input).order?.isSome = !input.isAllBlank := by
  unfold exportAll
  split
  · next hblank => rw [hblank]; rfl
  · next hblank => rw [eq_false_of_ne_true hblank]; rfl

/-- Some entries are exported to such a destination if any are selected. -/
theorem isSome_order?_exportSelected (x : Exporter) (workingPath? : Option Path) (h : History)
    (input : Text) (numbers : List Int) :
    (x.exportSelected workingPath? h input numbers).order?.isSome
      = (!input.isAllBlank && decide (selected h.entries numbers ≠ [])) := by
  unfold exportSelected
  dsimp only
  split
  · next hblank => rw [hblank]; rfl
  · next hblank =>
    rw [eq_false_of_ne_true hblank]
    split
    · next hchosen => rw [hchosen]; rfl
    · next hchosen => rw [Job.order?_map, decide_eq_true hchosen]; rfl

end Exporter

/-! ## Two sessions alongside

`Session.Alongside` is the invariant of the two runs. Each answer is shown to keep it, from which
one step of the runs (`turn`) follows by the question that is open. -/

/-- Two sessions that ask the same and have as many entries each. Neither the texts of the entries
nor the files need to be the same. -/
structure Session.Alongside (s s' : Session) : Prop where
  setup : s'.setup = s.setup
  stopped : s'.stopped = s.stopped
  question : s'.question = s.question
  count : s'.history.entries.length = s.history.entries.length

namespace Session.Alongside

variable {s s' : Session} {line line' tail : Text}

theorem asking (h : s.Alongside s') (q : Question) : (s.asking q).Alongside (s'.asking q) :=
  ⟨h.setup, h.stopped, rfl, h.count⟩

theorem strict (h : s.Alongside s') : s'.strict = s.strict :=
  congrArg Prod.fst h.setup

theorem entries_eq_nil_iff (h : s.Alongside s') :
    s'.history.entries = [] ↔ s.history.entries = [] := by
  rw [← List.length_eq_zero_iff, h.count, List.length_eq_zero_iff]

/-- A choice looks only at whether there are entries. -/
theorem choose (h : s.Alongside s') (hline : Choice.ofLine? line' = Choice.ofLine? line) :
    (s.choose line).session.Alongside (s'.choose line').session := by
  rw [Session.choose, Session.choose, hline]
  cases Choice.ofLine? line with
  | none => exact h.asking .choice
  | some choice =>
    cases choice with
    | calculate => exact h.asking .expression
    | viewHistory => exact h.asking .choice
    | exportAll => exact h.asking .destination
    | exportSelected =>
      -- the histories are as long as each other, so both are empty or none is
      dsimp only
      rw [if_congr h.entries_eq_nil_iff rfl rfl]
      split
      · exact h.asking .choice
      · exact h.asking .entryNumbers
    | quit => exact ⟨h.setup, rfl, rfl, h.count⟩

/-- Both calculations succeed or none does, whatever becomes of the saves. -/
theorem calculate (h : s.Alongside s') (hvalue : evaluate s.strict line' = evaluate s.strict line)
    (fs fs' : FileSystem) :
    (fs.run (s.calculate line)).2.session.Alongside
      (fs'.run (s'.calculate line')).2.session := by
  have ht := fs.mayReturn_run (s.calculate line)
  have ht' := fs'.mayReturn_run (s'.calculate line')
  have hsetup := (setup_calculate ht').trans (h.setup.trans (setup_calculate ht).symm)
  -- an entry is recorded even if the save fails, so the histories grow together
  rw [← h.strict] at hvalue
  cases hx : evaluate s.strict line with
  | error e =>
    have hx' : evaluate s'.strict line' = .error e := by rw [hvalue, h.strict, hx]
    refine ⟨hsetup, ?_, ?_, ?_⟩
    · rw [Session.calculate, Session.calculate, hx, hx']
      exact h.stopped
    · rw [Session.calculate, Session.calculate, hx, hx']
      rfl
    · rw [(calculate_of_error hx).2 _ ht, (calculate_of_error hx').2 _ ht']
      exact h.count
  | ok x =>
    have hx' : evaluate s'.strict line' = .ok x := by rw [hvalue, h.strict, hx]
    refine ⟨hsetup, ?_, ?_, ?_⟩
    · rw [Session.calculate, Session.calculate, hx, hx']
      exact h.stopped
    · rw [Session.calculate, Session.calculate, hx, hx']
      rfl
    · rw [(calculate_of_ok hx).2 _ ht, (calculate_of_ok hx').2 _ ht', History.grown,
        History.grown, List.length_append, List.length_append, h.count]
      rfl

/-- Both answers are entry numbers or none is. -/
theorem chooseEntries (h : s.Alongside s')
    (hline : readEntryNumbers line' = readEntryNumbers line) :
    (s.chooseEntries line).session.Alongside (s'.chooseEntries line').session := by
  rw [Session.chooseEntries, Session.chooseEntries, hline]
  cases readEntryNumbers line with
  | ok numbers => exact h.asking (.selectedDestination numbers)
  | error e => exact h.asking .choice

/-- They stay so when one answers a line and the other one the same line with blanks at its end. -/
theorem turn (h : s.Alongside s') (htail : tail.isAllBlank = true) (fs fs' : FileSystem)
    (line : Text) :
    (s.turn fs line).2.session.Alongside (s'.turn fs' (line ++ tail)).2.session := by
  rw [session_turn, session_turn, answer, answer, h.question]
  cases s.question with
  | choice => exact h.choose (Choice.ofLine?_append_blank htail)
  | expression => exact h.calculate (evaluate_append_blank s.strict htail) fs fs'
  -- an export leaves its session at the menu, with the history as it was
  | destination =>
    rw [FileSystem.run_map, FileSystem.run_map]
    exact h.asking .choice
  | entryNumbers => exact h.chooseEntries (readEntryNumbers_append_blank htail)
  | selectedDestination numbers =>
    rw [FileSystem.run_map, FileSystem.run_map]
    exact h.asking .choice

end Session.Alongside

/-- What holds of all in one list carries over to a related one. -/
theorem forall_mem_of_forall₂ {α β : Type} {R : α → β → Prop} {p : α → Prop} {q : β → Prop}
    {l : List α} {l' : List β} (h : List.Forall₂ R l l') (hpq : ∀ a b, R a b → p a → q b)
    (hp : ∀ a ∈ l, p a) : ∀ b ∈ l', q b := by
  induction h with
  | nil => exact fun _ hb => absurd hb List.not_mem_nil
  | cons hab _ ih =>
    intro b hb
    rcases List.mem_cons.1 hb with rfl | hb
    · exact hpq _ _ hab (hp _ List.mem_cons_self)
    · exact ih (fun a ha => hp a (List.mem_cons_of_mem _ ha)) b hb

/-- The same moment of two sessions alongside: the second one answers the line with its end. -/
structure Moment.Alongside (m m' : Moment) : Prop where
  session : m.session.Alongside m'.session
  line : ∃ ending : LineEnd, m'.line = m.line ++ ending.text

/-- The entry that the second session has in place of that of the first one. -/
def Entry.Ended (e e' : Entry) : Prop :=
  ∃ ending : LineEnd, e' = ⟨e.expression ++ ending.text, e.result⟩

namespace Moment.Alongside

variable {m m' : Moment}

theorem evaluate_eq (h : m.Alongside m') :
    evaluate m'.session.strict m'.line = evaluate m.session.strict m.line := by
  obtain ⟨ending, hline⟩ := h.line
  rw [h.session.strict, hline, evaluate_append_blank _ ending.isAllBlank_text]

theorem isAllBlank_line (h : m.Alongside m') : m'.line.isAllBlank = m.line.isAllBlank := by
  obtain ⟨ending, hline⟩ := h.line
  rw [hline, Text.isAllBlank_append_blank ending.isAllBlank_text]

/-- Both record an entry or none does, and the entries differ by the end of the line. -/
theorem recorded? (h : m.Alongside m') : Option.Rel Entry.Ended m.recorded? m'.recorded? := by
  obtain ⟨ending, hline⟩ := h.line
  rw [Moment.recorded?, Moment.recorded?, h.session.question, h.evaluate_eq, hline]
  cases m.session.question with
  | expression =>
    cases evaluate m.session.strict m.line with
    | ok x => exact .some ⟨ending, rfl⟩
    | error e => exact .none
  | _ => exact .none

/-- Both make an order or none does. -/
theorem isSome_order? (h : m.Alongside m') : m'.order?.isSome = m.order?.isSome := by
  rw [Moment.order?, Moment.order?, Session.answer, Session.answer, h.session.question]
  -- only expressions and destinations are answered with an order, if they are accepted
  cases m.session.question with
  | choice => rfl
  | expression =>
    have hvalue := h.evaluate_eq
    cases hx : evaluate m.session.strict m.line with
    | error e =>
      dsimp only
      rw [(Session.calculate_of_error hx).1, (Session.calculate_of_error (hvalue.trans hx)).1]
    | ok x =>
      dsimp only
      rw [(Session.calculate_of_ok hx).1, (Session.calculate_of_ok (hvalue.trans hx)).1]
      rfl
  | destination =>
    dsimp only
    rw [Job.order?_map, Job.order?_map, Exporter.isSome_order?_exportAll,
      Exporter.isSome_order?_exportAll, h.isAllBlank_line]
  | entryNumbers => rfl
  | selectedDestination numbers =>
    dsimp only
    rw [Job.order?_map, Job.order?_map, Exporter.isSome_order?_exportSelected,
      Exporter.isSome_order?_exportSelected, h.isAllBlank_line,
      decide_eq_decide.2 (not_congr (Exporter.selected_eq_nil_congr h.session.count numbers))]

theorem recorded?_eq_none_iff (h : m.Alongside m') : m'.recorded? = none ↔ m.recorded? = none := by
  have hrel := h.recorded?
  generalize m.recorded? = e? at hrel ⊢
  generalize m'.recorded? = e?' at hrel ⊢
  cases hrel with
  | some _ => exact iff_of_false nofun nofun
  | none => exact Iff.rfl

theorem order?_eq_none_iff (h : m.Alongside m') : m'.order? = none ↔ m.order? = none := by
  rw [← Option.not_isSome_iff_eq_none, ← Option.not_isSome_iff_eq_none, h.isSome_order?]

end Moment.Alongside

namespace Session

/-- A session on whole lines goes the same way as one on their texts. -/
theorem forall₂_moments_alongside {s s' : Session} (h : s.Alongside s') (fs fs' : FileSystem)
    (ls : List EndedLine) :
    List.Forall₂ Moment.Alongside (s.moments fs (ls.map EndedLine.text))
      (s'.moments fs' (ls.map EndedLine.whole)) := by
  -- on the lines; the file systems drift apart, so the statement is about any two
  induction ls generalizing s s' fs fs' with
  | nil => exact .nil
  | cons line rest ih =>
    rw [List.map_cons, List.map_cons, moments, moments, h.stopped]
    split
    · exact .nil
    · have hblank := line.ending.isAllBlank_text
      exact .cons ⟨h, line.ending, rfl⟩ (ih (h.turn hblank fs fs' line.text) _ _)

end Session

end Reckon
