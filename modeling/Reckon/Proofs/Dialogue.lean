import Reckon.Proofs.Moments
import Reckon.Proofs.Remarks

/-!
# The course of a session

What is seen of a session, its log left aside, is a `Dialogue`: question after question is asked and
answered, with the menu in front of each question for a choice, until a line chooses to quit or the
lines end. The messages between two questions are never mistaken for the menu or the farewell, so
the rules of such a dialogue (`Protocol`) can be read off its events alone, wherever in a command
the lines happen to end.
-/

namespace Reckon

namespace Event

/-- Whether it is seen at the console; what is logged is not. -/
def isSeen : Event → Bool
  | logged _ => false
  | shown _ | asked _ _ => true

/-- What a person at the console sees of a session. -/
def seen (events : List Event) : List Event :=
  events.filter isSeen

@[simp] theorem seen_append (first second : List Event) :
    seen (first ++ second) = seen first ++ seen second :=
  List.filter_append first second

/-- A message that is neither the menu nor the farewell. -/
inductive Chatter : Event → Prop
  | shown {message : Text} (hmenu : message ≠ menu) (hgoodbye : shown message ≠ goodbye) :
      Chatter (shown message)

/-- The menu begins with a line feed, the farewell with its letter. -/
theorem chatter_shown {message : Text} (h : message.head? ∉ [some '\n', some 'G']) :
    (shown message).Chatter := by
  constructor
  · rintro rfl
    exact h (by decide)
  · intro hgoodbye
    cases hgoodbye
    exact h (by decide)

/-- The remarks a session makes between its questions are chatter: none of them starts the way the
menu or the farewell does. -/
theorem Remark.chatter {e : Event} (h : e.Remark) (hseen : e.isSeen = true) : e.Chatter := by
  cases h with
  | logged record => cases hseen
  | noHistory => exact chatter_shown (by decide)
  -- the heading of a listing starts with a line feed, as the menu does: it differs further on
  | historyBegins => exact ⟨by decide, by decide⟩
  | historyEnds => exact chatter_shown (by decide)
  -- a listed entry starts with its number, so with a digit
  | entry number e =>
    refine chatter_shown fun hhead => ?_
    rw [List.append_assoc, List.mem_cons, List.mem_singleton] at hhead
    rcases hhead with hhead | hhead
    · exact Numeral.head?_write_append_ne (by decide) number _ hhead
    · exact Numeral.head?_write_append_ne (by decide) number _ hhead
  | invalidChoice => exact chatter_shown (by decide)
  | invalidNumbers => exact chatter_shown (by decide)
  -- from here on a message ends in a text from outside, but its first letter is known
  | expressionFault cause => exact chatter_shown (by decide : some 'e' ∉ [some '\n', some 'G'])
  | notSaved cause => exact chatter_shown (by decide : some 'F' ∉ [some '\n', some 'G'])
  | notExported cause => exact chatter_shown (by decide : some 'E' ∉ [some '\n', some 'G'])
  | exported outcome =>
    apply chatter_shown
    cases outcome with
    | written path count => exact (by decide : some 'H' ∉ [some '\n', some 'G'])
    | historyLocation path => exact (by decide : some 'T' ∉ [some '\n', some 'G'])
    | nothingSelected => exact (by decide : some 'N' ∉ [some '\n', some 'G'])

end Event

open Event

/-! ## Dialogues

A turn of a session either quits or says some chatter and leaves another question open. Put together
along the lines this is a `Dialogue`, from which everything below is derived: neither the file
system nor the commands appear again after this section. -/

/-- What is shown before a question. -/
def Question.preface (q : Question) : List Event :=
  if q = .choice then [.shown menu] else []

/-- What is seen from an open question on while `lines` are answered, and the lines that are left
unread. -/
inductive Dialogue : Question → List Text → List Event → List Text → Prop
  | cutOff (q : Question) : Dialogue q [] (q.preface ++ [.asked q.prompt none]) []
  | quit {line : Text} (hquit : Choice.ofLine? line = some .quit) (unread : List Text) :
      Dialogue .choice (line :: unread)
        [.shown menu, .asked Question.choice.prompt (some line), goodbye] unread
  | answered {q next : Question} {line : Text} {lines unread : List Text} {said events : List Event}
      (hgoes : q = .choice → Choice.ofLine? line ≠ some .quit) (hsaid : ∀ e ∈ said, e.Chatter)
      (hrest : Dialogue next lines events unread) :
      Dialogue q (line :: lines) (q.preface ++ .asked q.prompt (some line) :: (said ++ events))
        unread

namespace Session

variable {s : Session} {fs : FileSystem} {line : Text}

theorem stopped_choose (h : Choice.ofLine? line ≠ some .quit) :
    (s.choose line).session.stopped = s.stopped := by
  unfold choose
  split
  · rfl
  · rfl
  · rfl
  · dsimp only
    split <;> rfl
  · next hquit => exact absurd hquit h
  · rfl

/-- Only the choice to quit stops a session that has a line to answer. -/
theorem stopped_answer {workingPath? : Option Path} {t : Turn} (hgoes : ¬s.Quits line)
    (ht : (s.answer workingPath? line).MayReturn t) : t.session.stopped = s.stopped := by
  -- by the question; the answers other than to the menu all ask on, whatever the disk says to them
  unfold answer at ht
  split at ht
  · next hchoice =>
    rw [Job.mayReturn_done_iff.1 ht]
    exact stopped_choose fun hquit => hgoes ⟨hchoice, hquit⟩
  · exact (atMenu_calculate ht).2
  · obtain ⟨exported, -, rfl⟩ := Job.mayReturn_map_iff.1 ht
    rfl
  · rw [Job.mayReturn_done_iff.1 ht, chooseEntries]
    split <;> rfl
  · obtain ⟨exported, -, rfl⟩ := Job.mayReturn_map_iff.1 ht
    rfl

theorem stopped_turn (hgoes : ¬s.Quits line) (fs : FileSystem) :
    (s.turn fs line).2.session.stopped = s.stopped := by
  rw [session_turn]
  exact stopped_answer hgoes (fs.mayReturn_run _)

/-- The choice to quit is answered by the farewell alone, and nothing else changes. -/
theorem turn_of_quits (hquits : s.Quits line) (fs : FileSystem) :
    s.turn fs line = (fs, ⟨{ s.atMenu with stopped := true },
      [.asked Question.choice.prompt (some line), goodbye]⟩) := by
  obtain ⟨hq, hquit⟩ := hquits
  rw [turn, answer, hq]
  dsimp only
  rw [FileSystem.run_done, choose, hquit]
  rfl

/-- What is said to a line that does not quit is chatter. -/
theorem seen_turn (hgoes : ¬s.Quits line) (fs : FileSystem) :
    ∃ said, (∀ e ∈ said, e.Chatter)
      ∧ seen (s.turn fs line).2.events = .asked s.question.prompt (some line) :: said := by
  refine ⟨seen (fs.run (s.answer fs.workingPath? line)).2.events, fun e he => ?_, rfl⟩
  obtain ⟨hmem, hseen⟩ := List.mem_filter.1 he
  cases reply_of_mem_answer (fs.mayReturn_run _) hmem with
  | remark h => exact h.chatter hseen
  | result result h =>
    rw [h]
    exact chatter_shown (by decide : some 'R' ∉ [some '\n', some 'G'])
  | goodbye hquits h => exact absurd hquits hgoes

theorem runLines_of_stopped (h : s.stopped = true) (fs : FileSystem) (lines : List Text) :
    s.runLines fs lines = ⟨fs, s, [], lines⟩ := by
  cases lines with
  | nil => rw [runLines, if_pos h]
  | cons line rest => rw [runLines, if_pos h]

theorem seen_preface (s : Session) : seen s.preface = s.question.preface := by
  unfold preface Question.preface
  split <;> rfl

/-- A session that has not stopped yet takes its course and then has stopped. -/
theorem dialogue_runLines (h : s.stopped = false) (fs : FileSystem) (lines : List Text) :
    (s.runLines fs lines).session.stopped = true
      ∧ Dialogue s.question lines (seen (s.runLines fs lines).events)
        (s.runLines fs lines).unread := by
  -- on the lines, for every session that has not stopped: a turn is one step of the dialogue, and
  -- the session it leaves takes the rest
  induction lines generalizing s fs with
  | nil =>
    rw [runLines, if_neg (by simp [h])]
    refine ⟨rfl, ?_⟩
    rw [seen_append, seen_preface]
    exact .cutOff s.question
  | cons line rest ih =>
    have hrun : s.runLines fs (line :: rest)
        = ((s.turn fs line).2.session.runLines (s.turn fs line).1 rest).after
          (s.preface ++ (s.turn fs line).2.events) := by
      rw [runLines, if_neg (by simp [h])]
    rw [hrun]
    by_cases hquits : s.Quits line
    · -- it has stopped, so the rest of the lines is left unread
      rw [turn_of_quits hquits, runLines_of_stopped rfl, preface, hquits.1]
      exact ⟨rfl, .quit hquits.2 rest⟩
    · -- it goes on, and its next question takes up the rest of the lines
      obtain ⟨hstopped, hrest⟩ := ih ((stopped_turn hquits fs).trans h) (s.turn fs line).1
      obtain ⟨said, hsaid, hseen⟩ := seen_turn hquits fs
      refine ⟨hstopped, ?_⟩
      rw [Progress.after, seen_append, seen_append, seen_preface, hseen, List.append_assoc,
        List.cons_append]
      exact .answered (fun hq hquit => hquits ⟨hq, hquit⟩) hsaid hrest

end Session

/-! ## The menu

`Announced` compares neighbouring events, so it is built up from the last event to the first:
chatter and the questions other than the choice may be put in front at will, the choice only with
its menu. -/

/-- Each question for a choice, and nothing else, has the menu right before it. -/
structure Announced (events : List Event) : Prop where
  first : ∀ answer?, events[0]? ≠ some (.asked Question.choice.prompt answer?)
  next : ∀ i, events[i]? = some (.shown menu)
    ↔ ∃ answer?, events[i + 1]? = some (.asked Question.choice.prompt answer?)

/-- The choice is told from the other questions by its prompt. -/
theorem Question.prompt_eq_choice_iff {q : Question} :
    q.prompt = Question.choice.prompt ↔ q = .choice := by
  refine ⟨fun h => ?_, fun h => congrArg Question.prompt h⟩
  cases q with
  | choice => rfl
  | expression => exact absurd h (by decide)
  | destination => exact absurd h (by decide)
  | entryNumbers => exact absurd h (by decide)
  | selectedDestination numbers =>
    have hnone : (selectedDestination []).prompt = Question.choice.prompt := h
    exact absurd hnone (by decide)

namespace Announced

theorem nil : Announced [] :=
  ⟨nofun, fun _ => ⟨nofun, nofun⟩⟩

/-- An event that is neither the menu nor a question for a choice can be put in front. -/
theorem cons {events : List Event} (h : Announced events) {e : Event} (hmenu : e ≠ .shown menu)
    (hchoice : ∀ answer?, e ≠ .asked Question.choice.prompt answer?) : Announced (e :: events) where
  first answer? hfirst := hchoice answer? (Option.some.inj hfirst)
  next i := by
    cases i with
    -- the event in front is not the menu, and no question for a choice comes second: it would have
    -- been the first one before
    | zero =>
      constructor
      · intro hhead
        exact absurd (Option.some.inj hhead) hmenu
      · rintro ⟨answer?, hnext⟩
        exact absurd hnext (h.first answer?)
    | succ i => exact h.next i

/-- A question for a choice can be put in front with its menu. -/
theorem menu_cons {events : List Event} (h : Announced events) (answer? : Option Text) :
    Announced (.shown menu :: .asked Question.choice.prompt answer? :: events) where
  first _ := nofun
  next i := by
    match i with
    | 0 => exact ⟨fun _ => ⟨answer?, rfl⟩, fun _ => rfl⟩
    -- the question itself is not the menu, so what comes after it must not be such a question
    | 1 =>
      constructor
      · nofun
      · rintro ⟨answer?, hnext⟩
        exact absurd hnext (h.first answer?)
    | i + 2 => exact h.next i

theorem question {events : List Event} (h : Announced events) (q : Question)
    (answer? : Option Text) : Announced (q.preface ++ .asked q.prompt answer? :: events) := by
  unfold Question.preface
  split
  · next hq =>
    rw [hq]
    exact h.menu_cons answer?
  · next hq =>
    refine h.cons nofun fun answer? hasked => hq ?_
    exact Question.prompt_eq_choice_iff.1 (Event.asked.inj hasked).1

/-- Chatter is neither the menu nor a question. -/
theorem chatter {said events : List Event} (h : Announced events) (hsaid : ∀ e ∈ said, e.Chatter) :
    Announced (said ++ events) := by
  induction said with
  | nil => exact h
  | cons e rest ih =>
    have hrest := ih fun e he => hsaid e (List.mem_cons_of_mem _ he)
    cases hsaid e List.mem_cons_self with
    | shown hmenu hgoodbye =>
      exact hrest.cons (fun heq => hmenu (Event.shown.inj heq)) nofun

end Announced

namespace Dialogue

variable {q : Question} {lines unread : List Text} {events : List Event}

/-- A dialogue shows the menu in front of every choice, and nowhere else. -/
theorem announced (h : Dialogue q lines events unread) : Announced events := by
  induction h with
  | cutOff q => exact Announced.nil.question q none
  | quit hquit unread =>
    have hgoodbye : Announced [goodbye] := Announced.nil.cons (by decide) nofun
    exact hgoodbye.menu_cons _
  | answered hgoes hsaid hrest ih => exact (ih.chatter hsaid).question _ _

end Dialogue

/-! ## The end

Everything before the last question is `Passing`. An event that is not can therefore be found only
at the very end, and there are just two ways the end can look. -/

/-- An event that is followed by others: neither the farewell, nor an end of the input, nor a choice
to quit. -/
inductive Event.Passing : Event → Prop
  | shown {message : Text} (h : shown message ≠ goodbye) : Passing (shown message)
  | asked {prompt line : Text}
      (h : prompt = Question.choice.prompt → Choice.ofLine? line ≠ some .quit) :
      Passing (asked prompt (some line))

/-- The two ways in which a session ends. -/
inductive Ending (lines : List Text) (events : List Event) (unread : List Text) : Prop
  | quit (front : List Event) (line : Text) (hfront : ∀ e ∈ front, e.Passing)
      (hquit : Choice.ofLine? line = some .quit)
      (hevents : events = front ++ [.asked Question.choice.prompt (some line), goodbye])
      (hlines : lines = front.filterMap line? ++ line :: unread)
  | cutOff (front : List Event) (prompt : Text) (hfront : ∀ e ∈ front, e.Passing)
      (hevents : events = front ++ [.asked prompt none])
      (hlines : lines = front.filterMap line?) (hunread : unread = [])

namespace Ending

variable {lines unread : List Text} {events : List Event}

/-- What is said and read before does not matter. -/
theorem after (h : Ending lines events unread) {earlier : List Event}
    (hearlier : ∀ e ∈ earlier, e.Passing) :
    Ending (earlier.filterMap line? ++ lines) (earlier ++ events) unread := by
  have hboth : ∀ {front : List Event}, (∀ e ∈ front, e.Passing) →
      ∀ e ∈ earlier ++ front, e.Passing := fun hfront e he =>
    (List.mem_append.1 he).elim (hearlier e) (hfront e)
  -- what comes before is put in front of `front`, in either ending
  cases h with
  | quit front line hfront hquit hevents hlines =>
    refine .quit (earlier ++ front) line (hboth hfront) hquit ?_ ?_
    · rw [hevents, List.append_assoc]
    · rw [hlines, List.filterMap_append, List.append_assoc]
  | cutOff front prompt hfront hevents hlines hunread =>
    refine .cutOff (earlier ++ front) prompt (hboth hfront) ?_ ?_ hunread
    · rw [hevents, List.append_assoc]
    · rw [hlines, List.filterMap_append]

end Ending

theorem Question.passing_of_mem_preface {q : Question} {e : Event} (he : e ∈ q.preface) :
    e.Passing := by
  unfold preface at he
  split at he
  · rw [List.mem_singleton.1 he]
    exact .shown (by decide)
  · cases he

theorem Question.filterMap_line?_preface (q : Question) : q.preface.filterMap line? = [] := by
  unfold preface
  split <;> rfl

/-- A dialogue ends with the choice to quit and the farewell, or with the question at which the
lines ran out. -/
theorem Dialogue.ending {q : Question} {lines unread : List Text} {events : List Event}
    (h : Dialogue q lines events unread) : Ending lines events unread := by
  induction h with
  | cutOff q =>
    exact .cutOff q.preface q.prompt (fun _ => Question.passing_of_mem_preface) rfl
      q.filterMap_line?_preface.symm rfl
  | @quit line hquit unread =>
    refine .quit [.shown menu] line (fun e he => ?_) hquit rfl rfl
    rw [List.mem_singleton.1 he]
    exact .shown (by decide)
  | @answered q next line lines unread said events hgoes hsaid hrest ih =>
    -- one question, its line and the chatter after it stand in front of the ending of the rest, and
    -- exactly that line is read in them
    have hpassing : ∀ e ∈ q.preface ++ .asked q.prompt (some line) :: said, e.Passing := by
      intro e he
      rcases List.mem_append.1 he with he | he
      · exact Question.passing_of_mem_preface he
      · rcases List.mem_cons.1 he with rfl | he
        · exact .asked fun hprompt => hgoes (Question.prompt_eq_choice_iff.1 hprompt)
        · cases hsaid e he with
          | shown hmenu hgoodbye => exact .shown hgoodbye
    have hread : (q.preface ++ .asked q.prompt (some line) :: said).filterMap line? = [line] := by
      have hsilent : said.filterMap line? = [] := by
        refine List.filterMap_eq_nil_iff.2 fun e he => ?_
        cases hsaid e he with
        | shown => rfl
      have hasked : line? (.asked q.prompt (some line)) = some line := rfl
      rw [List.filterMap_append, q.filterMap_line?_preface, List.nil_append,
        List.filterMap_cons_some hasked, hsilent]
    have hafter := ih.after hpassing
    rw [hread, List.append_assoc, List.cons_append] at hafter
    exact hafter

/-! ## The rules -/

/-- The rules of a session in which `lines` are typed, for what is seen of it and the lines that are
left unread. -/
structure Protocol (lines : List Text) (events : List Event) (unread : List Text) : Prop where
  /-- No line is lost, repeated or put elsewhere. -/
  read : events.filterMap line? ++ unread = lines
  announced : Announced events
  /-- The input ends at most once, and nothing comes after that. -/
  endOfInput : ∀ i prompt, events[i]? = some (.asked prompt none) → i + 1 = events.length
  farewell : ∀ i, events[i]? = some goodbye → i + 1 = events.length
  farewell_iff : goodbye ∈ events
    ↔ ∃ line, line.trim = ['5'] ∧ .asked Question.choice.prompt (some line) ∈ events
  /-- Behind the choice to quit there is only the farewell, and no line is read. -/
  quit : ∀ line : Text, line.trim = ['5'] → .asked Question.choice.prompt (some line) ∈ events →
    ∃ front, events = front ++ [.asked Question.choice.prompt (some line), goodbye]
      ∧ lines = front.filterMap line? ++ line :: unread
  /-- Without that choice it is the input that ends the session, and all lines are read. -/
  cutOff : (∀ line : Text, line.trim = ['5'] →
      .asked Question.choice.prompt (some line) ∉ events) →
    (∃ front prompt, events = front ++ [.asked prompt none]) ∧ unread = []

theorem Choice.ofLine?_eq_quit_iff {line : Text} :
    ofLine? line = some .quit ↔ line.trim = ['5'] := by
  unfold ofLine?
  constructor
  · intro h
    split at h
    all_goals first | assumption | cases h
  · intro h
    rw [h]
    rfl

namespace Event

theorem not_passing_goodbye : ¬goodbye.Passing := by
  intro h
  cases h with
  | shown h => exact h rfl

theorem not_passing_endOfInput (prompt : Text) : ¬(asked prompt none).Passing :=
  nofun

theorem not_passing_quit {line : Text} (hquit : Choice.ofLine? line = some .quit) :
    ¬(asked Question.choice.prompt (some line)).Passing := by
  intro h
  cases h with
  | asked h => exact h rfl hquit

variable {front tail : List Event} {e : Event}

theorem mem_of_not_passing (hfront : ∀ e ∈ front, e.Passing) (he : ¬e.Passing) :
    e ∈ front ++ tail ↔ e ∈ tail := by
  rw [List.mem_append]
  exact or_iff_right fun hmem => he (hfront e hmem)

theorem exists_getElem?_of_not_passing (hfront : ∀ e ∈ front, e.Passing) (he : ¬e.Passing)
    {i : Nat} (hi : (front ++ tail)[i]? = some e) :
    ∃ j, i = front.length + j ∧ tail[j]? = some e := by
  by_cases hlt : i < front.length
  · rw [List.getElem?_append_left hlt] at hi
    exact absurd (hfront e (List.mem_of_getElem? hi)) he
  · have hle : front.length ≤ i := Nat.not_lt.1 hlt
    rw [List.getElem?_append_right hle] at hi
    exact ⟨i - front.length, by omega, hi⟩

end Event

namespace Ending

variable {lines unread : List Text} {events : List Event}

/-- The lines that were read, followed by those that were not, are the lines. -/
theorem read (h : Ending lines events unread) : events.filterMap line? ++ unread = lines := by
  cases h with
  | quit front line hfront hquit hevents hlines =>
    rw [hevents, hlines, List.filterMap_append, List.append_assoc]
    rfl
  | cutOff front prompt hfront hevents hlines hunread =>
    rw [hevents, hlines, hunread, List.filterMap_append, List.append_nil]
    exact List.append_nil _

/-- Nothing follows the farewell or the end of the input. -/
theorem last (h : Ending lines events unread) {i : Nat} {e : Event} (hi : events[i]? = some e)
    (he : e = goodbye ∨ ∃ prompt, e = .asked prompt none) : i + 1 = events.length := by
  have hnot : ¬e.Passing := by
    rcases he with rfl | ⟨prompt, rfl⟩
    · exact not_passing_goodbye
    · exact not_passing_endOfInput prompt
  cases h with
  | quit front line hfront hquit hevents hlines =>
    rw [hevents] at hi ⊢
    obtain ⟨j, rfl, hj⟩ := exists_getElem?_of_not_passing hfront hnot hi
    match j, hj with
    -- the first event behind is the question that was answered
    | 0, hj =>
      cases Option.some.inj hj
      rcases he with heq | ⟨_, heq⟩ <;> cases heq
    | 1, _ => rw [List.length_append]; rfl
  | cutOff front prompt hfront hevents hlines hunread =>
    rw [hevents] at hi ⊢
    obtain ⟨j, rfl, hj⟩ := exists_getElem?_of_not_passing hfront hnot hi
    match j, hj with
    | 0, _ => rw [List.length_append]; rfl

/-- There is one choice to quit at most, and behind it only the farewell. -/
theorem quit_of_mem (h : Ending lines events unread) {line : Text}
    (hquit : Choice.ofLine? line = some .quit)
    (hmem : .asked Question.choice.prompt (some line) ∈ events) :
    ∃ front, events = front ++ [.asked Question.choice.prompt (some line), goodbye]
      ∧ lines = front.filterMap line? ++ line :: unread := by
  have hnot := not_passing_quit hquit
  -- in a session that was cut off nobody chose to quit
  cases h with
  | quit front line' hfront hquit' hevents hlines =>
    rw [hevents, mem_of_not_passing hfront hnot] at hmem
    rcases List.mem_cons.1 hmem with heq | hmem
    · cases (Event.asked.inj heq).2
      exact ⟨front, hevents, hlines⟩
    · cases List.mem_singleton.1 hmem
  | cutOff front prompt hfront hevents hlines hunread =>
    rw [hevents, mem_of_not_passing hfront hnot] at hmem
    cases List.mem_singleton.1 hmem

theorem goodbye_mem_iff (h : Ending lines events unread) :
    goodbye ∈ events ↔ ∃ line, Choice.ofLine? line = some .quit
      ∧ .asked Question.choice.prompt (some line) ∈ events := by
  constructor
  · intro hmem
    cases h with
    | quit front line hfront hquit hevents hlines => exact ⟨line, hquit, by simp [hevents]⟩
    | cutOff front prompt hfront hevents hlines hunread =>
      rw [hevents, mem_of_not_passing hfront not_passing_goodbye] at hmem
      cases List.mem_singleton.1 hmem
  · rintro ⟨line, hquit, hmem⟩
    obtain ⟨front, hevents, -⟩ := h.quit_of_mem hquit hmem
    simp [hevents]

/-- Without a farewell it is the input that ends. -/
theorem cutOff_of_not_mem (h : Ending lines events unread) (hgoes : goodbye ∉ events) :
    (∃ front prompt, events = front ++ [.asked prompt none]) ∧ unread = [] := by
  cases h with
  | quit front line hfront hquit hevents hlines => exact absurd (by simp [hevents]) hgoes
  | cutOff front prompt hfront hevents hlines hunread => exact ⟨⟨front, prompt, hevents⟩, hunread⟩

/-- A session that ends in one of these ways keeps the rules, if its questions are announced. -/
theorem protocol (h : Ending lines events unread) (hannounced : Announced events) :
    Protocol lines events unread where
  read := h.read
  announced := hannounced
  endOfInput _ prompt hi := h.last hi (.inr ⟨prompt, rfl⟩)
  farewell _ hi := h.last hi (.inl rfl)
  farewell_iff := by
    simp only [← Choice.ofLine?_eq_quit_iff]
    exact h.goodbye_mem_iff
  quit _ htrim hmem := h.quit_of_mem (Choice.ofLine?_eq_quit_iff.2 htrim) hmem
  cutOff hnone := by
    refine h.cutOff_of_not_mem fun hmem => ?_
    obtain ⟨line, hquit, hasked⟩ := h.goodbye_mem_iff.1 hmem
    exact hnone line (Choice.ofLine?_eq_quit_iff.1 hquit) hasked

end Ending

/-- A session on any lines comes to its end, and keeps the rules on the way. -/
theorem session_follows_protocol (fs : FileSystem) (settings : Settings) (lines : List Text) :
    let p := (fs.startSession settings).1.run fs lines
    p.session.stopped = true ∧ Protocol lines (seen p.events) p.unread := by
  intro p
  have hstart : (fs.startSession settings).1.stopped = false := rfl
  obtain ⟨hstopped, hdialogue⟩ := Session.dialogue_runLines hstart fs lines
  -- the last record is no part of what is seen
  have hseen : seen p.events
      = seen ((fs.startSession settings).1.runLines fs lines).events := by
    show seen (_ ++ [Event.logged _]) = _
    rw [seen_append]
    exact List.append_nil _
  refine ⟨hstopped, ?_⟩
  rw [hseen]
  exact hdialogue.ending.protocol hdialogue.announced

/-- The lines can end in the middle of a command. -/
example :
    let fs : FileSystem := ⟨[(["w".toList], .directory)], ["w".toList], false⟩
    seen ((fs.startSession {}).1.run fs [['1']]).events = [.shown menu,
      .asked Question.choice.prompt (some ['1']), .asked Question.expression.prompt none] := by
  decide +kernel

end Reckon
