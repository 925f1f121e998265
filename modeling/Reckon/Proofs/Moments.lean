import Reckon.Session.Run

/-!
# The moments of a session

A `Moment` is a session with its file system right before a line is answered. What the answer does
to the history and to the files is told by two things: the entry that it records, if any
(`Moment.recorded?`), and the order that it carries out, if any (`Moment.order?`). A session on
lines goes from moment to moment, and `Session.runLines_invariant` is the induction over them.
-/

namespace Reckon

/-! ## The order of a job -/

namespace Job

variable {α β : Type}

/-- The order that a job needs carried out. -/
def order? : Job α → Option WriteOrder
  | done _ => none
  | write order _ => some order

@[simp] theorem order?_map (f : α → β) (job : Job α) : (job.map f).order? = job.order? := by
  cases job <;> rfl

end Job

theorem FileSystem.run_of_order?_eq_none {α : Type} {fs : FileSystem} {job : Job α}
    (h : job.order? = none) : (fs.run job).1 = fs := by
  cases job with
  | done a => rfl
  | write order resume => cases h

theorem FileSystem.run_of_order?_eq_some {α : Type} {fs : FileSystem} {job : Job α}
    {order : WriteOrder} (h : job.order? = some order) : (fs.run job).1 = (fs.perform order).1 := by
  cases job with
  | done a => cases h
  | write order' resume => rw [FileSystem.run_write, Option.some.inj h]

/-! ## Moments

The file system and the history change in the answer to a line and at no other time. Three kinds of
answer are told apart (`Effect`), and what an invariant has to survive is stated once for each. -/

/-- A session right before a line is answered. -/
structure Moment where
  session : Session
  fs : FileSystem
  line : Text

namespace Moment

/-- The file system and the turn after the answer. -/
def next (m : Moment) : FileSystem × Turn :=
  m.session.turn m.fs m.line

/-- The order that the answer needs carried out. -/
def order? (m : Moment) : Option WriteOrder :=
  (m.session.answer m.fs.workingPath? m.line).order?

/-- The entry that the answer records. There is one only where an expression was asked for and has a
value. -/
def recorded? (m : Moment) : Option Entry :=
  match m.session.question, evaluate m.session.strict m.line with
  | .expression, .ok x => some ⟨m.line, x.resultText⟩
  | _, _ => none

/-- Whether the history could be saved; where nothing is recorded there is nothing to save. -/
def saves (m : Moment) : Bool :=
  match m.recorded? with
  | some e => (m.fs.run (m.session.history.record e)).2.outcome.isOk
  | none => true

/-- The path of the file that an export writes. -/
def exported? (m : Moment) : Option Path :=
  if m.session.question = .expression then none
  else (m.order?.filter fun order => (m.fs.perform order).2.isOk).map WriteOrder.path

end Moment

/-- The history with one entry more. -/
def History.grown (h : History) (e : Entry) : History :=
  { h with entries := h.entries ++ [e] }

/-- A history is saved exactly when its order succeeds. -/
theorem History.isOk_outcome_record (h : History) (e : Entry) (fs : FileSystem) :
    (fs.run (h.record e)).2.outcome.isOk = (fs.perform (h.grown e).saveOrder).2.isOk := by
  rw [record, FileSystem.run_write]
  rw [grown]
  rcases (fs.perform _).2 with ⟨_ | _ | _⟩ | _ <;> rfl

namespace Session

variable {s : Session} {workingPath? : Option Path} {line : Text} {t : Turn}

@[simp] theorem history_choose (s : Session) (line : Text) :
    (s.choose line).session.history = s.history := by
  unfold choose
  split
  · rfl
  · rfl
  · rfl
  · dsimp only; split <;> rfl
  · rfl
  · rfl

@[simp] theorem history_chooseEntries (s : Session) (line : Text) :
    (s.chooseEntries line).session.history = s.history := by
  unfold chooseEntries
  split <;> rfl

theorem session_turn (s : Session) (fs : FileSystem) (line : Text) :
    (s.turn fs line).2.session = (fs.run (s.answer fs.workingPath? line)).2.session := rfl

/-- Only the answer to the question for an expression changes the history. -/
theorem history_answer_of_ne (h : s.question ≠ .expression)
    (ht : (s.answer workingPath? line).MayReturn t) : t.session.history = s.history := by
  unfold answer at ht
  -- one case for each question
  split at ht
  · rw [Job.mayReturn_done_iff.1 ht]
    exact history_choose s line
  · next hq => exact absurd hq h
  · obtain ⟨exported, -, rfl⟩ := Job.mayReturn_map_iff.1 ht
    rfl
  · rw [Job.mayReturn_done_iff.1 ht]
    exact history_chooseEntries s line
  · obtain ⟨exported, -, rfl⟩ := Job.mayReturn_map_iff.1 ht
    rfl

theorem history_turn_of_ne (h : s.question ≠ .expression) (fs : FileSystem) (line : Text) :
    (s.turn fs line).2.session.history = s.history := by
  rw [session_turn]
  exact history_answer_of_ne h (fs.mayReturn_run _)

/-- What is settled when a session begins: how texts are read, where exports go that name a
directory, and the file of the history. -/
def setup (s : Session) : Bool × Exporter × Path :=
  (s.strict, s.exporter, s.history.path)

/-- No choice changes what was settled. -/
theorem setup_choose (s : Session) (line : Text) : (s.choose line).session.setup = s.setup := by
  unfold choose
  split
  · rfl
  · rfl
  · rfl
  · dsimp only; split <;> rfl
  · rfl
  · rfl

/-- Nor does a calculation: the history that is returned has the path of the one before. -/
theorem setup_calculate (ht : (s.calculate line).MayReturn t) : t.session.setup = s.setup := by
  unfold calculate at ht
  dsimp only at ht
  split at ht
  · rw [Job.mayReturn_done_iff.1 ht]
    rfl
  · obtain ⟨recorded, hrecorded, rfl⟩ := Job.mayReturn_map_iff.1 ht
    have hhistory := History.history_of_mayReturn_record hrecorded
    rw [setup, afterRecording, hhistory]
    rfl

/-- After a calculation the menu comes again, whatever became of the save. -/
theorem atMenu_calculate (ht : (s.calculate line).MayReturn t) :
    t.session.question = .choice ∧ t.session.stopped = s.stopped := by
  unfold calculate at ht
  dsimp only at ht
  split at ht
  · rw [Job.mayReturn_done_iff.1 ht]
    exact ⟨rfl, rfl⟩
  · obtain ⟨recorded, -, rfl⟩ := Job.mayReturn_map_iff.1 ht
    exact ⟨rfl, rfl⟩

/-- No answer changes what was settled. -/
theorem setup_answer (ht : (s.answer workingPath? line).MayReturn t) :
    t.session.setup = s.setup := by
  -- by the question; an export returns with the session that was asked
  unfold answer at ht
  split at ht
  · rw [Job.mayReturn_done_iff.1 ht]
    exact setup_choose s line
  · exact setup_calculate ht
  · obtain ⟨exported, -, rfl⟩ := Job.mayReturn_map_iff.1 ht
    rfl
  · rw [Job.mayReturn_done_iff.1 ht, chooseEntries]
    split <;> rfl
  · obtain ⟨exported, -, rfl⟩ := Job.mayReturn_map_iff.1 ht
    rfl

theorem setup_turn (s : Session) (fs : FileSystem) (line : Text) :
    (s.turn fs line).2.session.setup = s.setup := by
  rw [session_turn]
  exact setup_answer (fs.mayReturn_run _)

/-- A value is recorded, and the order is the one to save the history with it. -/
theorem calculate_of_ok {x : Binary64} (h : evaluate s.strict line = .ok x) :
    (s.calculate line).order? = some (s.history.grown ⟨line, x.resultText⟩).saveOrder
      ∧ ∀ t, (s.calculate line).MayReturn t →
        t.session.history = s.history.grown ⟨line, x.resultText⟩ := by
  have hjob : s.calculate line = (s.history.record ⟨line, x.resultText⟩).map fun recorded =>
      ⟨(s.afterRecording recorded).session, loggedAll (evaluateLog s.strict line)
        ++ .shown ("Result: ".toList ++ x.resultText) :: (s.afterRecording recorded).events⟩ := by
    unfold calculate
    rw [h]
  refine ⟨by rw [hjob, Job.order?_map]; rfl, fun t ht => ?_⟩
  rw [hjob] at ht
  obtain ⟨recorded, hrecorded, rfl⟩ := Job.mayReturn_map_iff.1 ht
  exact History.history_of_mayReturn_record hrecorded

/-- A fault orders nothing, and nothing is recorded. -/
theorem calculate_of_error {e : CalculationError} (h : evaluate s.strict line = .error e) :
    (s.calculate line).order? = none
      ∧ ∀ t, (s.calculate line).MayReturn t → t.session.history = s.history := by
  unfold calculate
  rw [h]
  refine ⟨rfl, fun t ht => ?_⟩
  rw [Job.mayReturn_done_iff.1 ht]
  rfl

end Session

namespace Moment

theorem session_next (m : Moment) :
    m.next.2.session = (m.fs.run (m.session.answer m.fs.workingPath? m.line)).2.session := rfl

/-- What an answer does to the history and to the files. -/
inductive Effect (m : Moment) : Prop
  /-- An entry is recorded, and the order is the one to save it. -/
  | recorded (e : Entry) (hentry : m.recorded? = some e)
      (hfs : m.next.1 = (m.fs.perform (m.session.history.grown e).saveOrder).1)
      (hhistory : m.next.2.session.history = m.session.history.grown e)
  /-- The history stays, and an order of another kind is carried out. -/
  | exporting (order : WriteOrder) (hquestion : m.session.question ≠ .expression)
      (horder : m.order? = some order) (hentry : m.recorded? = none)
      (hfs : m.next.1 = (m.fs.perform order).1)
      (hhistory : m.next.2.session.history = m.session.history)
  | quiet (hentry : m.recorded? = none) (hfs : m.next.1 = m.fs)
      (hhistory : m.next.2.session.history = m.session.history)

theorem fs_next_of_order?_eq_none {m : Moment} (h : m.order? = none) : m.next.1 = m.fs :=
  FileSystem.run_of_order?_eq_none h

theorem fs_next_of_order?_eq_some {m : Moment} {order : WriteOrder} (h : m.order? = some order) :
    m.next.1 = (m.fs.perform order).1 :=
  FileSystem.run_of_order?_eq_some h

/-- One of the three is the case. -/
theorem effect (m : Moment) : m.Effect := by
  have hnext : m.next.1 = (m.fs.run (m.session.answer m.fs.workingPath? m.line)).1 := rfl
  have hsession := m.session_next
  by_cases hq : m.session.question = .expression
  · -- the expression has a value or a fault; a fault records nothing
    have hanswer : m.session.answer m.fs.workingPath? m.line = m.session.calculate m.line := by
      rw [Session.answer, hq]
    rw [hanswer] at hnext hsession
    cases hvalue : evaluate m.session.strict m.line with
    | ok x =>
      obtain ⟨horder, hhistory⟩ := Session.calculate_of_ok hvalue
      refine .recorded ⟨m.line, x.resultText⟩ (by rw [recorded?, hq, hvalue]) ?_ ?_
      · rw [hnext, FileSystem.run_of_order?_eq_some horder]
      · rw [hsession, hhistory _ (m.fs.mayReturn_run _)]
    | error e =>
      obtain ⟨horder, hhistory⟩ := Session.calculate_of_error hvalue
      refine .quiet (by rw [recorded?, hq, hvalue]) ?_ ?_
      · rw [hnext, FileSystem.run_of_order?_eq_none horder]
      · rw [hsession, hhistory _ (m.fs.mayReturn_run _)]
  · -- any other order comes from an export
    have hhistory : m.next.2.session.history = m.session.history :=
      Session.history_turn_of_ne hq m.fs m.line
    have hentry : m.recorded? = none := by
      unfold recorded?
      split
      · next hexpr _ => exact absurd hexpr hq
      · rfl
    cases horder : m.order? with
    | none =>
      exact .quiet hentry (by rw [hnext, FileSystem.run_of_order?_eq_none horder]) hhistory
    | some order =>
      refine .exporting order hq horder hentry ?_ hhistory
      rw [hnext, FileSystem.run_of_order?_eq_some horder]

/-- An entry that is recorded comes from the line, which has a value. -/
theorem value_of_recorded? {m : Moment} {e : Entry} (h : m.recorded? = some e) :
    ∃ x : Binary64, evaluate m.session.strict m.line = .ok x ∧ e = ⟨m.line, x.resultText⟩ := by
  unfold recorded? at h
  split at h
  · next x _ hvalue => exact ⟨x, hvalue, (Option.some.inj h).symm⟩
  · cases h

/-- An order is one to save the history with a recorded entry, or one to export entries. -/
theorem order?_cases {m : Moment} {order : WriteOrder} (h : m.order? = some order) :
    (∃ e, m.recorded? = some e ∧ order = (m.session.history.grown e).saveOrder)
      ∨ m.session.question ≠ .expression
        ∧ ∃ entries, order = Exporter.order (m.session.exporter.destination m.line) entries := by
  rw [order?, Session.answer] at h
  cases hq : m.session.question with
  | choice =>
    rw [hq] at h
    cases h
  | entryNumbers =>
    rw [hq] at h
    cases h
  | expression =>
    rw [hq] at h
    cases hvalue : evaluate m.session.strict m.line with
    | ok x =>
      refine .inl ⟨⟨m.line, x.resultText⟩, by rw [recorded?, hq, hvalue], ?_⟩
      rw [(Session.calculate_of_ok hvalue).1] at h
      exact (Option.some.inj h).symm
    | error e =>
      rw [(Session.calculate_of_error hvalue).1] at h
      cases h
  -- an export makes no order for a blank destination or for no entries
  | destination =>
    rw [hq] at h
    dsimp only at h
    rw [Job.order?_map, Exporter.exportAll] at h
    split at h
    · cases h
    · exact .inr ⟨nofun, _, (Option.some.inj h).symm⟩
  | selectedDestination numbers =>
    rw [hq] at h
    dsimp only at h
    rw [Job.order?_map, Exporter.exportSelected] at h
    split at h
    · cases h
    · dsimp only at h
      split at h
      · cases h
      · rw [Job.order?_map] at h
        exact .inr ⟨nofun, _, (Option.some.inj h).symm⟩

/-- A recorded entry is saved. -/
theorem order?_of_recorded? {m : Moment} {e : Entry} (h : m.recorded? = some e) :
    m.order? = some (m.session.history.grown e).saveOrder := by
  unfold recorded? at h
  split at h
  · next x hq hvalue =>
    rw [order?, Session.answer, hq]
    exact (Session.calculate_of_ok hvalue).1.trans (by rw [Option.some.inj h])
  · cases h

theorem filterMap_recorded?_cons (m : Moment) (ms : List Moment) :
    (m :: ms).filterMap recorded? = m.recorded?.toList ++ ms.filterMap recorded? := by
  rw [List.filterMap_cons]
  cases m.recorded? <;> rfl

/-- Where the save succeeds, the order to save succeeds. -/
theorem perform_saveOrder_of_saves {m : Moment} {e : Entry} (hentry : m.recorded? = some e)
    (h : m.saves = true) :
    (m.fs.perform (m.session.history.grown e).saveOrder).2 = .ok () := by
  rw [saves, hentry] at h
  dsimp only at h
  rw [History.isOk_outcome_record] at h
  cases hanswer : (m.fs.perform (m.session.history.grown e).saveOrder).2 with
  | error cause =>
    rw [hanswer] at h
    cases h
  | ok _ => rfl

/-- An order that is not one to save is an export. -/
theorem exported?_of_perform {m : Moment} {order : WriteOrder}
    (hquestion : m.session.question ≠ .expression) (horder : m.order? = some order)
    (hok : (m.fs.perform order).2 = .ok ()) : m.exported? = some order.path := by
  rw [exported?, if_neg hquestion, horder, Option.filter_some, hok]
  rfl

end Moment

/-! ## Runs

The moments of a run are collected by a recursion that follows `runLines`. An invariant of sessions
is proved for one moment and carried along them by `runLines_invariant`. -/

namespace Session

/-- The moments of a session on lines, up to its end. -/
def moments (s : Session) (fs : FileSystem) : List Text → List Moment
  | [] => []
  | line :: rest =>
    if s.stopped then []
    else ⟨s, fs, line⟩ :: (s.turn fs line).2.session.moments (s.turn fs line).1 rest

/-- Each moment answers one of the lines. -/
theorem line_mem_of_mem_moments {s : Session} {fs : FileSystem} {lines : List Text} {m : Moment}
    (h : m ∈ s.moments fs lines) : m.line ∈ lines := by
  induction lines generalizing s fs with
  | nil => cases h
  | cons line rest ih =>
    rw [moments] at h
    split at h
    · cases h
    · rcases List.mem_cons.1 h with rfl | h
      · exact List.mem_cons_self
      · exact List.mem_cons_of_mem line (ih h)

/-- What was settled at the beginning is so at every moment. -/
theorem setup_of_mem_moments {s : Session} {fs : FileSystem} {lines : List Text} {m : Moment}
    (h : m ∈ s.moments fs lines) : m.session.setup = s.setup := by
  induction lines generalizing s fs with
  | nil => cases h
  | cons line rest ih =>
    rw [moments] at h
    split at h
    · cases h
    · rcases List.mem_cons.1 h with rfl | h
      · rfl
      · rw [ih h, setup_turn]

/-- What holds of a session, its file system and the entries recorded so far, and is kept by every
answer and by the end of the input, holds after all lines. -/
theorem runLines_invariant {P : Session → FileSystem → List Entry → Prop} {Q : Moment → Prop}
    (hstep : ∀ (m : Moment) (es : List Entry), Q m → P m.session m.fs es →
      P m.next.2.session m.next.1 (es ++ m.recorded?.toList))
    (hend : ∀ (s : Session) (fs : FileSystem) (es : List Entry), P s fs es → P s.endOfInput fs es)
    {s : Session} {fs : FileSystem} {lines : List Text} {es : List Entry}
    (hmoments : ∀ m ∈ s.moments fs lines, Q m) (h : P s fs es) :
    P (s.runLines fs lines).session (s.runLines fs lines).fs
      (es ++ (s.moments fs lines).filterMap Moment.recorded?) := by
  -- on the lines; the entry of the first moment goes to those recorded so far
  induction lines generalizing s fs es with
  | nil =>
    rw [moments, List.filterMap_nil, List.append_nil, runLines]
    split
    · exact h
    · exact hend s fs es h
  | cons line rest ih =>
    rw [moments] at hmoments ⊢
    rw [runLines]
    split
    · rw [List.filterMap_nil, List.append_nil]
      exact h
    · next hgoing =>
      rw [if_neg hgoing] at hmoments
      have hfirst := hstep ⟨s, fs, line⟩ es (hmoments _ List.mem_cons_self) h
      have hrest := ih (fun m hm => hmoments m (List.mem_cons_of_mem _ hm)) hfirst
      rw [List.append_assoc] at hrest
      rw [Moment.filterMap_recorded?_cons]
      exact hrest

/-- The same for what holds of the file system alone. -/
theorem runLines_invariant_fs {R : FileSystem → Prop} {s : Session} {fs : FileSystem}
    {lines : List Text} (hstep : ∀ m ∈ s.moments fs lines, R m.fs → R m.next.1) (h : R fs) :
    R (s.runLines fs lines).fs := by
  induction lines generalizing s fs with
  | nil =>
    rw [runLines]
    split <;> exact h
  | cons line rest ih =>
    rw [moments] at hstep
    rw [runLines]
    split
    · exact h
    · next hgoing =>
      rw [if_neg hgoing] at hstep
      have hfirst : R (s.turn fs line).1 := hstep ⟨s, fs, line⟩ List.mem_cons_self h
      exact ih (fun m hm => hstep m (List.mem_cons_of_mem _ hm)) hfirst

/-- The history after some lines is the one before them with the recorded entries at its end,
whatever becomes of the files. -/
theorem history_runLines (s : Session) (fs : FileSystem) (lines : List Text) :
    (s.runLines fs lines).session.history
      = { s.history with
          entries := s.history.entries ++ (s.moments fs lines).filterMap Moment.recorded? } := by
  have hbase : s.history = { s.history with entries := s.history.entries ++ [] } := by
    rw [List.append_nil]
  refine runLines_invariant (P := fun s' _ es => s'.history
    = { s.history with entries := s.history.entries ++ es }) (Q := fun _ => True)
    ?_ (fun _ _ _ h => h) (fun _ _ => trivial) hbase
  intro m es _ h
  -- the history grows by the recorded entry, and by nothing where there is none
  rcases m.effect with ⟨e, hentry, -, hhistory⟩ | ⟨-, -, -, hentry, -, hhistory⟩ |
    ⟨hentry, -, hhistory⟩
  · rw [hhistory, History.grown, h, hentry, Option.toList_some, List.append_assoc]
  · rw [hhistory, h, hentry, Option.toList_none, List.append_nil]
  · rw [hhistory, h, hentry, Option.toList_none, List.append_nil]

end Session

end Reckon
