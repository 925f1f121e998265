import Reckon.Proofs.Alongside
import Reckon.Proofs.Remarks

/-!
# Commands that come to nothing

A command that makes no order leaves the files and the history as they were
(`Session.command_of_quiet`). No order is made for input that is rejected (`Session.Rejects`), nor
by a command that is cut off by the end of the input: an answer that makes an order is the last one
of its command (`Moment.question_next_of_order?`), so nothing more is asked that could stay open.
-/

namespace Reckon

/-! ## What is read

A command was cut off if its events hold a question without an answer. Only the end of a command can
hold one, since whatever an answer says reads nothing. -/

namespace Event

/-- The prompt and the answer of an event in which something is read. -/
def reading? : Event → Option (Text × Option Text)
  | asked prompt answer? => some (prompt, answer?)
  | shown _ => none
  | logged _ => none

/-- The input ended while a question was open. -/
def CutOff (events : List Event) : Prop :=
  ∃ prompt, asked prompt none ∈ events

/-- Where nothing is read, no question is left open. -/
theorem not_cutOff_of_reading? {events : List Event} (h : ∀ e ∈ events, e.reading? = none) :
    ¬CutOff events := by
  rintro ⟨prompt, hmem⟩
  cases h _ hmem

theorem not_cutOff_nil : ¬CutOff [] :=
  not_cutOff_of_reading? fun _ he => absurd he List.not_mem_nil

/-- What comes before a cut is not cut off. -/
theorem cutOff_append_iff {first second : List Event} (h : ¬CutOff first) :
    CutOff (first ++ second) ↔ CutOff second := by
  constructor
  · rintro ⟨prompt, hmem⟩
    rcases List.mem_append.1 hmem with hmem | hmem
    · exact absurd ⟨prompt, hmem⟩ h
    · exact ⟨prompt, hmem⟩
  · rintro ⟨prompt, hmem⟩
    exact ⟨prompt, List.mem_append_right first hmem⟩

end Event

/-- A remark reads nothing. -/
theorem Event.Remark.reading? {e : Event} (h : e.Remark) : e.reading? = none := by
  cases h <;> rfl

/-- Nothing is read while a choice is answered. -/
theorem Session.reading?_of_mem_choose {s : Session} {line : Text} {e : Event}
    (he : e ∈ (s.choose line).events) : e.reading? = none := by
  rcases remark_or_goodbye_of_mem_choose he with hremark | ⟨-, rfl⟩
  · exact hremark.reading?
  · rfl

theorem Session.not_cutOff_choose (s : Session) (line : Text) :
    ¬Event.CutOff (s.choose line).events :=
  Event.not_cutOff_of_reading? fun _ he => reading?_of_mem_choose he

namespace Moment

open Event

/-- The question of a moment has its answer, and the answer asks nothing. -/
theorem not_cutOff_next (m : Moment) : ¬CutOff m.next.2.events := by
  rintro ⟨prompt, hmem⟩
  have hevents : m.next.2.events = asked m.session.question.prompt (some m.line)
      :: (m.fs.run (m.session.answer m.fs.workingPath? m.line)).2.events := rfl
  rw [hevents] at hmem
  rcases List.mem_cons.1 hmem with heq | hmem
  · cases heq
  · -- no reply is a question
    cases Session.reply_of_mem_answer (m.fs.mayReturn_run _) hmem with
    | remark h => cases h
    | result result h => cases h
    | goodbye hquits h => cases h

/-! ## Answers within a command

A command asks one question or, when entries are chosen, two; and only its last answer can make an
order. So after an order there is nothing more to ask. -/

/-- Only a choice and the entry numbers can be followed by another question. -/
theorem question_next {m : Moment} (hchoice : m.session.question ≠ .choice)
    (hnumbers : m.session.question ≠ .entryNumbers) :
    m.next.2.session.question = .choice := by
  rw [session_next]
  have ht := m.fs.mayReturn_run (m.session.answer m.fs.workingPath? m.line)
  generalize (m.fs.run _).2 = t at ht
  unfold Session.answer at ht
  split at ht
  · next hq => exact absurd hq hchoice
  · exact (Session.atMenu_calculate ht).1
  · obtain ⟨exported, -, rfl⟩ := Job.mayReturn_map_iff.1 ht
    rfl
  · next hq => exact absurd hq hnumbers
  · obtain ⟨exported, -, rfl⟩ := Job.mayReturn_map_iff.1 ht
    rfl

/-- Entry numbers make no order. -/
theorem order?_of_entryNumbers {m : Moment} (h : m.session.question = .entryNumbers) :
    m.order? = none := by
  rw [order?, Session.answer, h]
  rfl

/-- After an order the menu comes again. -/
theorem question_next_of_order? {m : Moment} {order : WriteOrder} (h : m.order? = some order) :
    m.next.2.session.question = .choice := by
  refine question_next (fun hq => ?_) (fun hq => ?_)
  · rw [order?, Session.answer, hq] at h
    cases h
  · rw [order?_of_entryNumbers hq] at h
    cases h

/-- Without an order an answer leads on to another question, and that is all. -/
theorem next_of_quiet {m : Moment} (hchoice : m.session.question ≠ .choice)
    (h : m.order? = none) :
    m.next.1 = m.fs ∧ ∃ q, m.next.2.session = m.session.asking q := by
  refine ⟨fs_next_of_order?_eq_none h, ?_⟩
  rw [session_next, Session.answer]
  -- an expression makes an order exactly if it has a value
  cases hq : m.session.question with
  | choice => exact absurd hq hchoice
  | expression =>
    rw [order?, Session.answer, hq] at h
    cases hvalue : evaluate m.session.strict m.line with
    | ok x =>
      dsimp only at h
      rw [(Session.calculate_of_ok hvalue).1] at h
      cases h
    | error e =>
      refine ⟨.choice, ?_⟩
      dsimp only
      rw [Session.calculate, hvalue]
      rfl
  | destination =>
    dsimp only
    rw [FileSystem.run_map]
    exact ⟨.choice, rfl⟩
  | entryNumbers =>
    dsimp only
    rw [FileSystem.run_done, Session.chooseEntries]
    split
    · exact ⟨_, rfl⟩
    · exact ⟨.choice, rfl⟩
  | selectedDestination numbers =>
    dsimp only
    rw [FileSystem.run_map]
    exact ⟨.choice, rfl⟩

end Moment

/-! ## Commands without orders

The induction over a command keeps `Progress.Unchanged`. Its two ends are told apart by the events:
the menu is reached unless the input was cut off, and nothing else of the session can differ. -/

open Event in
/-- The files and the session are as they were, the history among them. The session is at the menu
again, and has stopped if the input has ended. -/
structure Progress.Unchanged (p : Progress) (s : Session) (fs : FileSystem) : Prop where
  files : p.fs = fs
  finished : ¬CutOff p.events → p.session = s.atMenu
  cutOff : CutOff p.events → p.session = s.endOfInput

theorem Progress.Unchanged.history {p : Progress} {s : Session} {fs : FileSystem}
    (h : p.Unchanged s fs) : p.session.history = s.history := by
  by_cases hcut : Event.CutOff p.events
  · rw [h.cutOff hcut]
    rfl
  · rw [h.finished hcut]
    rfl

/-- The menu and the end of the input are the same behind any question. -/
theorem Progress.Unchanged.of_asking {p : Progress} {s : Session} {fs : FileSystem} {q : Question}
    (h : p.Unchanged (s.asking q) fs) : p.Unchanged s fs :=
  ⟨h.files, h.finished, h.cutOff⟩

/-- What is said before, if it leaves no question open, does not matter. -/
theorem Progress.Unchanged.after {p : Progress} {s : Session} {fs : FileSystem}
    (h : p.Unchanged s fs) {earlier : List Event} (hearlier : ¬Event.CutOff earlier) :
    (p.after earlier).Unchanged s fs where
  files := h.files
  finished hcut := h.finished (mt (Event.cutOff_append_iff hearlier).2 hcut)
  cutOff hcut := h.cutOff ((Event.cutOff_append_iff hearlier).1 hcut)

namespace Session

open Event

variable {s : Session} {fs : FileSystem}

theorem atMenu_eq_self (h : s.question = .choice) : s.atMenu = s := by
  rw [atMenu, ← h]

/-- The moments at which a command has its questions answered. -/
def momentsUntilMenu (s : Session) (fs : FileSystem) : List Text → List Moment
  | [] => []
  | line :: rest =>
    if s.question = .choice then []
    else ⟨s, fs, line⟩ :: (s.turn fs line).2.session.momentsUntilMenu (s.turn fs line).1 rest

/-- No order is made before the menu is reached. -/
def Quiet (s : Session) (fs : FileSystem) (lines : List Text) : Prop :=
  ∀ m ∈ s.momentsUntilMenu fs lines, m.order? = none

theorem momentsUntilMenu_of_choice (h : s.question = .choice) (fs : FileSystem)
    (lines : List Text) : s.momentsUntilMenu fs lines = [] := by
  cases lines with
  | nil => rfl
  | cons line rest => rw [momentsUntilMenu, if_pos h]

theorem quiet_nil (s : Session) (fs : FileSystem) : s.Quiet fs [] :=
  fun _ hm => absurd hm List.not_mem_nil

theorem quiet_of_choice (h : s.question = .choice) (fs : FileSystem) (lines : List Text) :
    s.Quiet fs lines := by
  rw [Quiet, momentsUntilMenu_of_choice h]
  exact fun m hm => absurd hm List.not_mem_nil

/-- A command is quiet if its first answer makes no order and the rest of it is quiet. -/
theorem quiet_cons_iff (h : s.question ≠ .choice) (fs : FileSystem) (line : Text)
    (rest : List Text) :
    s.Quiet fs (line :: rest) ↔ (Moment.mk s fs line).order? = none
      ∧ (s.turn fs line).2.session.Quiet (s.turn fs line).1 rest := by
  rw [Quiet, momentsUntilMenu, if_neg h, List.forall_mem_cons, Quiet]

theorem untilMenu_of_choice (h : s.question = .choice) (fs : FileSystem) (lines : List Text) :
    s.untilMenu fs lines = ⟨fs, s, [], lines⟩ := by
  cases lines with
  | nil => rw [untilMenu, if_pos h]
  | cons line rest => rw [untilMenu, if_pos h]

theorem untilMenu_cons (h : s.question ≠ .choice) (fs : FileSystem) (line : Text)
    (rest : List Text) :
    s.untilMenu fs (line :: rest)
      = ((s.turn fs line).2.session.untilMenu (s.turn fs line).1 rest).after
          (s.turn fs line).2.events := by
  rw [untilMenu, if_neg h]

/-- At the menu nothing is left to do. -/
theorem unchanged_of_choice (h : s.question = .choice) (lines : List Text) :
    (⟨fs, s, [], lines⟩ : Progress).Unchanged s fs where
  files := rfl
  finished _ := (atMenu_eq_self h).symm
  cutOff hcut := absurd hcut not_cutOff_nil

/-- While no order is made, only the question changes. -/
theorem untilMenu_of_quiet {lines : List Text} (h : s.Quiet fs lines) :
    (s.untilMenu fs lines).Unchanged s fs := by
  induction lines generalizing s with
  | nil =>
    rw [untilMenu]
    split
    · next hq => exact unchanged_of_choice hq []
    · exact ⟨rfl, fun hcut => absurd ⟨s.question.prompt, List.mem_cons_self⟩ hcut, fun _ => rfl⟩
  | cons line rest ih =>
    by_cases hq : s.question = .choice
    · rw [untilMenu_of_choice hq]
      exact unchanged_of_choice hq _
    · obtain ⟨horder, hrest⟩ := (quiet_cons_iff hq fs line rest).1 h
      rw [untilMenu_cons hq]
      -- no order, so the turn changed neither files nor session, and the rest is quiet again
      let m : Moment := ⟨s, fs, line⟩
      obtain ⟨hfs, q, hsession⟩ := Moment.next_of_quiet (m := m) hq horder
      rw [show (s.turn fs line).1 = fs from hfs,
        show (s.turn fs line).2.session = s.asking q from hsession] at hrest ⊢
      exact (ih hrest).of_asking.after m.not_cutOff_next

/-- An order is made at the end of a command, so one that was cut off made none. -/
theorem quiet_of_cutOff {lines : List Text} (h : CutOff (s.untilMenu fs lines).events) :
    s.Quiet fs lines := by
  induction lines generalizing s fs with
  | nil => exact quiet_nil s fs
  | cons line rest ih =>
    by_cases hq : s.question = .choice
    · exact quiet_of_choice hq fs _
    · rw [untilMenu_cons hq] at h
      let m : Moment := ⟨s, fs, line⟩
      have hrest := (cutOff_append_iff m.not_cutOff_next).1 h
      refine (quiet_cons_iff hq fs line rest).2 ⟨?_, ih hrest⟩
      -- behind an order comes the menu, where nothing can be cut off any more
      cases horder : m.order? with
      | none => rfl
      | some order =>
        have hmenu : (s.turn fs line).2.session.question = .choice :=
          Moment.question_next_of_order? horder
        rw [untilMenu_of_choice hmenu] at hrest
        exact absurd hrest not_cutOff_nil

/-- A command that makes no order changes nothing, unless it is the one to quit. -/
theorem command_of_quiet {choice : Text} {lines : List Text}
    (hquit : Choice.ofLine? choice ≠ some .quit)
    (h : (s.choose choice).session.Quiet fs lines) :
    (s.command fs choice lines).Unchanged s fs := by
  -- any other choice changes nothing but the question
  have hchoose : ∃ q, (s.choose choice).session = s.asking q := by
    unfold choose
    split
    · exact ⟨_, rfl⟩
    · exact ⟨.choice, rfl⟩
    · exact ⟨_, rfl⟩
    · dsimp only
      split
      · exact ⟨.choice, rfl⟩
      · exact ⟨_, rfl⟩
    · next hchoice => exact absurd hchoice hquit
    · exact ⟨.choice, rfl⟩
  obtain ⟨q, hq⟩ := hchoose
  have hunchanged := untilMenu_of_quiet h
  rw [command]
  rw [hq] at hunchanged ⊢
  exact hunchanged.of_asking.after (s.not_cutOff_choose choice)

end Session

/-! ## Rejected input

Each kind of rejection is a reason for an answer to make no order. Where it concerns the last line
of a command, `quiet_of_last` is enough; entry numbers come before another question, so a command
that chooses entries is quiet if what follows its numbers is (`quiet_entryNumbers`). -/

/-- What a command comes to nothing for. -/
inductive Session.Rejects (s : Session) : Text → List Text → Prop
  | unrecognized {choice : Text} {lines : List Text} (hchoice : Choice.ofLine? choice = none) :
      s.Rejects choice lines
  | noValue {choice line : Text} {rest : List Text} {e : CalculationError}
      (hchoice : Choice.ofLine? choice = some .calculate)
      (hfault : evaluate s.strict line = .error e) : s.Rejects choice (line :: rest)
  | blankDestination {choice line : Text} {rest : List Text}
      (hchoice : Choice.ofLine? choice = some .exportAll) (hblank : line.isAllBlank = true) :
      s.Rejects choice (line :: rest)
  | emptyHistory {choice : Text} {lines : List Text}
      (hchoice : Choice.ofLine? choice = some .exportSelected) (hempty : s.history.entries = []) :
      s.Rejects choice lines
  | badNumbers {choice line : Text} {rest : List Text} {e : EntryNumberError}
      (hchoice : Choice.ofLine? choice = some .exportSelected)
      (hbad : readEntryNumbers line = .error e) : s.Rejects choice (line :: rest)
  | noneInRange {choice line : Text} {rest : List Text} {numbers : List Int}
      (hchoice : Choice.ofLine? choice = some .exportSelected)
      (hnumbers : readEntryNumbers line = .ok numbers)
      (hrange : ∀ n ∈ numbers, ¬(1 ≤ n ∧ n ≤ s.history.entries.length)) :
      s.Rejects choice (line :: rest)
  | blankSelected {choice line destination : Text} {rest : List Text} {numbers : List Int}
      (hchoice : Choice.ofLine? choice = some .exportSelected)
      (hnumbers : readEntryNumbers line = .ok numbers)
      (hblank : destination.isAllBlank = true) : s.Rejects choice (line :: destination :: rest)

namespace Session

open Event

variable {s : Session} {fs : FileSystem} {choice line : Text} {lines rest : List Text}

/-- A question that is the last of its command. -/
theorem quiet_of_last (hchoice : s.question ≠ .choice) (hnumbers : s.question ≠ .entryNumbers)
    (horder : (Moment.mk s fs line).order? = none) : s.Quiet fs (line :: rest) := by
  have hmenu : (s.turn fs line).2.session.question = .choice :=
    Moment.question_next (m := ⟨s, fs, line⟩) hchoice hnumbers
  exact (quiet_cons_iff hchoice fs line rest).2 ⟨horder, quiet_of_choice hmenu _ rest⟩

/-- An expression without a value saves nothing. -/
theorem quiet_calculate {e : CalculationError} (hfault : evaluate s.strict line = .error e) :
    (s.asking .expression).Quiet fs (line :: rest) := by
  refine quiet_of_last nofun nofun ?_
  rw [Moment.order?, answer]
  exact (calculate_of_error hfault).1

/-- Nothing is exported to a blank destination. -/
theorem quiet_exportAll (hblank : line.isAllBlank = true) :
    (s.asking .destination).Quiet fs (line :: rest) := by
  refine quiet_of_last nofun nofun ?_
  have hnone := Exporter.isSome_order?_exportAll s.exporter fs.workingPath? s.history line
  rw [hblank, Bool.not_true, Option.isSome_eq_false_iff, Option.isNone_iff_eq_none] at hnone
  rw [Moment.order?, answer]
  exact (Job.order?_map _ _).trans hnone

theorem quiet_exportSelected {numbers : List Int}
    (h : ∀ destination ∈ lines.head?, destination.isAllBlank = true
      ∨ Exporter.selected s.history.entries numbers = []) :
    (s.asking (.selectedDestination numbers)).Quiet fs lines := by
  cases lines with
  | nil => exact quiet_nil _ fs
  | cons destination rest =>
    refine quiet_of_last nofun nofun ?_
    -- an order takes a destination that is no blank, and an entry
    have hnone := Exporter.isSome_order?_exportSelected s.exporter fs.workingPath? s.history
      destination numbers
    have hfalse : (!destination.isAllBlank
        && decide (Exporter.selected s.history.entries numbers ≠ [])) = false := by
      rcases h destination rfl with hblank | hchosen
      · rw [hblank]
        rfl
      · rw [hchosen]
        exact Bool.and_false _
    rw [hfalse, Option.isSome_eq_false_iff, Option.isNone_iff_eq_none] at hnone
    rw [Moment.order?, answer]
    exact (Job.order?_map _ _).trans hnone

/-- Entry numbers lead on to the destination, if they can be read and there are entries. -/
theorem quiet_entryNumbers (hchoice : Choice.ofLine? choice = some .exportSelected)
    (h : ∀ numbers, readEntryNumbers line = .ok numbers →
      (s.asking (.selectedDestination numbers)).Quiet fs rest) :
    (s.choose choice).session.Quiet fs (line :: rest) := by
  rw [choose, hchoice]
  dsimp only
  split
  · exact quiet_of_choice rfl fs _
  · have hquestion : (s.asking .entryNumbers).question ≠ .choice := fun h => Question.noConfusion h
    -- the numbers themselves make no order, whether they can be read or not
    refine (quiet_cons_iff hquestion fs line rest).2 ⟨Moment.order?_of_entryNumbers rfl, ?_⟩
    rw [session_turn, answer]
    dsimp only [asking]
    rw [FileSystem.run_done, chooseEntries]
    split
    · next numbers hread => exact h numbers hread
    · exact quiet_of_choice rfl _ rest

/-- A command that is rejected makes no order. -/
theorem quiet_of_rejects (h : s.Rejects choice lines) :
    (s.choose choice).session.Quiet fs lines := by
  -- by the reason of the rejection, each at the question where it is found
  cases h with
  | unrecognized hchoice =>
    rw [choose, hchoice]
    exact quiet_of_choice rfl fs _
  | noValue hchoice hfault =>
    rw [choose, hchoice]
    exact quiet_calculate hfault
  | blankDestination hchoice hblank =>
    rw [choose, hchoice]
    exact quiet_exportAll hblank
  | emptyHistory hchoice hempty =>
    rw [choose, hchoice]
    dsimp only
    rw [if_pos hempty]
    exact quiet_of_choice rfl fs _
  | badNumbers hchoice hbad =>
    refine quiet_entryNumbers hchoice fun numbers hread => ?_
    rw [hbad] at hread
    cases hread
  | noneInRange hchoice hnumbers hrange =>
    refine quiet_entryNumbers hchoice fun numbers hread => ?_
    rw [hnumbers] at hread
    cases hread
    exact quiet_exportSelected fun _ _ => .inr (Exporter.selected_eq_nil_iff.2 hrange)
  | blankSelected hchoice hnumbers hblank =>
    refine quiet_entryNumbers hchoice fun numbers _ => quiet_exportSelected fun destination hd => ?_
    cases hd
    exact .inl hblank

/-- The choice to quit is never rejected. -/
theorem ne_quit_of_rejects (h : s.Rejects choice lines) : Choice.ofLine? choice ≠ some .quit := by
  cases h with
  | unrecognized hchoice => rw [hchoice]; nofun
  | noValue hchoice => rw [hchoice]; nofun
  | blankDestination hchoice => rw [hchoice]; nofun
  | emptyHistory hchoice => rw [hchoice]; nofun
  | badNumbers hchoice => rw [hchoice]; nofun
  | noneInRange hchoice => rw [hchoice]; nofun
  | blankSelected hchoice => rw [hchoice]; nofun

/-- Nor can it be cut off, because it asks nothing. -/
theorem ne_quit_of_cutOff (h : CutOff (s.command fs choice lines).events) :
    Choice.ofLine? choice ≠ some .quit := by
  intro hquit
  have hmenu : (s.choose choice).session.question = .choice := by
    rw [choose, hquit]
    rfl
  have hrest := (cutOff_append_iff (s.not_cutOff_choose choice)).1 h
  rw [untilMenu_of_choice hmenu] at hrest
  exact not_cutOff_nil hrest

/-- How numbers are answered does not depend on what was asked before. -/
theorem chooseEntries_asking (s : Session) (q : Question) (line : Text) :
    (s.asking q).chooseEntries line = s.chooseEntries line := by
  unfold chooseEntries
  split <;> rfl

/-- Where there are entries to choose from, they are shown, and then their numbers are read. -/
theorem command_exportSelected (hchoice : Choice.ofLine? choice = some .exportSelected)
    (hentries : s.history.entries ≠ []) (fs : FileSystem) (line : Text) (rest : List Text) :
    s.command fs choice (line :: rest)
      = ((s.chooseEntries line).session.untilMenu fs rest).after
          (shownAll (historyView s.history) ++ .asked Question.entryNumbers.prompt (some line)
            :: (s.chooseEntries line).events) := by
  have hchoose : s.choose choice
      = ⟨s.asking .entryNumbers, shownAll (historyView s.history)⟩ := by
    rw [choose, hchoice]
    dsimp only
    rw [if_neg hentries]
  have hturn : (s.asking .entryNumbers).turn fs line
      = (fs, ⟨(s.chooseEntries line).session,
          .asked Question.entryNumbers.prompt (some line) :: (s.chooseEntries line).events⟩) := by
    rw [turn, answer, ← chooseEntries_asking s .entryNumbers line]
    rfl
  have hquestion : (s.asking .entryNumbers).question ≠ .choice := fun h => Question.noConfusion h
  rw [command, hchoose, untilMenu_cons hquestion, hturn, Progress.after, Progress.after,
    Progress.after, List.append_assoc]

/-- Entry numbers that cannot be read are all that is read. -/
theorem command_of_badNumbers {e : EntryNumberError}
    (hchoice : Choice.ofLine? choice = some .exportSelected) (hentries : s.history.entries ≠ [])
    (hbad : readEntryNumbers line = .error e) :
    (s.command fs choice (line :: rest)).unread = rest
      ∧ (s.command fs choice (line :: rest)).events.filterMap reading?
        = [(Question.entryNumbers.prompt, some line)] := by
  have hnumbers : s.chooseEntries line
      = ⟨s.atMenu, [.logged ⟨.debug, faultReport e.message e.causes⟩,
          .shown "Error: invalid entry numbers.".toList]⟩ := by
    rw [chooseEntries, hbad]
  have hview : (shownAll (historyView s.history)).filterMap reading? = [] := by
    rw [shownAll, List.filterMap_map]
    exact List.filterMap_none _
  rw [command_exportSelected hchoice hentries, hnumbers, untilMenu_of_choice rfl]
  refine ⟨rfl, ?_⟩
  -- what is shown is no reading, so the question for the numbers is the only one
  show ((shownAll (historyView s.history) ++ [_, _, _]) ++ []).filterMap reading? = _
  rw [List.append_nil, List.filterMap_append, hview]
  rfl

end Session

open Event in
/-- A command that is rejected, or cut off by the end of the input, leaves the files, the history
and the state as they were; only the end of the input stops the session. Entry numbers that cannot
be read are the only line that is read, and no destination is asked for. -/
theorem rejected_commands_change_nothing (s : Session) (fs : FileSystem) (choice : Text)
    (lines : List Text) :
    let p := s.command fs choice lines
    (s.Rejects choice lines ∨ CutOff p.events →
        p.Unchanged s fs ∧ p.session.history = s.history)
      ∧ (Choice.ofLine? choice = some .exportSelected → s.history.entries ≠ [] →
        ∀ line rest e, lines = line :: rest → readEntryNumbers line = .error e →
          p.unread = rest
            ∧ p.events.filterMap reading? = [(Question.entryNumbers.prompt, some line)]) := by
  intro p
  constructor
  · intro h
    have hunchanged : p.Unchanged s fs := by
      -- in both cases no order is made before the menu comes back, which is all that counts
      rcases h with hrejected | hcut
      · exact Session.command_of_quiet (Session.ne_quit_of_rejects hrejected)
          (Session.quiet_of_rejects hrejected)
      · have hrest := (cutOff_append_iff (s.not_cutOff_choose choice)).1 hcut
        exact Session.command_of_quiet (Session.ne_quit_of_cutOff hcut)
          (Session.quiet_of_cutOff hrest)
    exact ⟨hunchanged, hunchanged.history⟩
  · rintro hchoice hentries line rest e rfl hbad
    exact Session.command_of_badNumbers hchoice hentries hbad

/-- A list with a bad number leaves the line behind it unread, and the input can end right behind a
choice. -/
theorem commands_rejected_for_bad_numbers_and_no_input :
    let s : Session := .start {} ⟨"h.log".toList, [⟨"1+1".toList, ['2']⟩]⟩
    let fs : FileSystem := ⟨[(["w".toList], .directory)], ["w".toList], false⟩
    let rejected := s.command fs ['4'] ["1,x".toList, "out.txt".toList]
    let cut := s.command fs ['1'] []
    (rejected.Unchanged s fs ∧ rejected.unread = ["out.txt".toList])
      ∧ cut.fs = fs ∧ cut.session = s.endOfInput := by
  intro s fs rejected cut
  have hrejected := rejected_commands_change_nothing s fs ['4'] ["1,x".toList, "out.txt".toList]
  have hcut := rejected_commands_change_nothing s fs ['1'] []
  have hbad : readEntryNumbers "1,x".toList = .error ⟨['x'], .invalidDigit⟩ := by decide +kernel
  have hended : Event.CutOff cut.events := ⟨Question.expression.prompt, by decide +kernel⟩
  refine ⟨⟨(hrejected.1 (.inl (.badNumbers rfl hbad))).1, ?_⟩, ?_⟩
  · exact (hrejected.2 rfl (by decide) _ _ _ rfl hbad).1
  · have hunchanged := (hcut.1 (.inr hended)).1
    exact ⟨hunchanged.files, hunchanged.cutOff hended⟩

end Reckon
