import Reckon.Session

/-!
# Running a session

A session on a list of lines and a file system. `Session.run` goes from menu to menu until the
user quits or the lines end; `Session.command` carries out a single choice. Each reads a line at
most once and leaves the others for later.

The lines can end under each of the five questions: for a choice, for an expression, for the
destination of the whole history, for entry numbers, and for the destination of chosen entries. All
five ends are alike. The question is asked, no answer comes, and the session stops without a word
(`Session.endOfInput`); nothing else is read, and no entry and no file is touched. So one branch of
each loop stands for all of them.
-/

namespace Reckon

/-- A session after some lines: the file system, what happened, and the lines that are left. -/
structure Progress where
  fs : FileSystem
  session : Session
  events : List Event
  unread : List Text

/-- The same progress, with events that came before it. -/
def Progress.after (p : Progress) (earlier : List Event) : Progress :=
  { p with events := earlier ++ p.events }

namespace Session

/-- One line, asked for and answered. -/
def turn (s : Session) (fs : FileSystem) (line : Text) : FileSystem × Turn :=
  match fs.run (s.answer fs.workingPath? line) with
  | (fs, t) => (fs, ⟨t.session, .asked s.question.prompt (some line) :: t.events⟩)

/-- What is shown before the open question is asked. -/
def preface (s : Session) : List Event :=
  if s.question = .choice then [.shown menu] else []

/-- Runs until the session has stopped; the end of the lines stops it, whichever of the five
questions is open. -/
def runLines (s : Session) (fs : FileSystem) : List Text → Progress
  | [] =>
    if s.stopped then ⟨fs, s, [], []⟩
    else ⟨fs, s.endOfInput, s.preface ++ [.asked s.question.prompt none], []⟩
  | line :: rest =>
    if s.stopped then ⟨fs, s, [], line :: rest⟩
    else match s.turn fs line with
      | (fs, t) => (t.session.runLines fs rest).after (s.preface ++ t.events)

/-- Runs a whole session. -/
def run (s : Session) (fs : FileSystem) (lines : List Text) : Progress :=
  let p := s.runLines fs lines
  { p with events := p.events ++ [.logged ⟨.info, "session finished".toList⟩] }

/-- Answers questions until the menu is reached again. If the lines end before, the open question is
one of the four that a choice leads to: for an expression, for the destination of the whole history,
for entry numbers, or for the destination of chosen entries. -/
def untilMenu (s : Session) (fs : FileSystem) : List Text → Progress
  | [] =>
    if s.question = .choice then ⟨fs, s, [], []⟩
    else ⟨fs, s.endOfInput, [.asked s.question.prompt none], []⟩
  | line :: rest =>
    if s.question = .choice then ⟨fs, s, [], line :: rest⟩
    else match s.turn fs line with
      | (fs, t) => (t.session.untilMenu fs rest).after t.events

/-- Carries out the choice that `choice` makes, with `lines` for what it asks. A session that has
stopped does so too and stays stopped. -/
def command (s : Session) (fs : FileSystem) (choice : Text) (lines : List Text) : Progress :=
  let t := s.choose choice
  (t.session.untilMenu fs lines).after t.events

end Session

/-- A session that begins: the history is opened as the settings say. -/
def FileSystem.startSession (fs : FileSystem) (settings : Settings) : Session × List LogRecord :=
  match fs.openHistory settings.historyFile with
  | (h, log) => (.start settings h, log)

end Reckon
