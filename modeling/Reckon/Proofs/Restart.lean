import Reckon.Proofs.Moments
import Reckon.Proofs.Places
import Reckon.Proofs.Recording

/-!
# A history over several sessions

Sessions one after another use the same history file. As long as every save succeeds and no export
is written over it, the file holds the lines of all entries recorded so far. `FileSystem.Keeps` is
the invariant; it speaks of lines and not of entries, because a session writes back what it has
read, and an entry that was read differs from the recorded one where the expression ends in
semicolons, while its line does not.

* `Session.inStep_next`: an answer keeps the session in step with its file.
* `FileSystem.keeps_afterAll`: so do all sessions together.
* `FileSystem.entries_openHistory_afterAll`: what the next session loads.
-/

namespace Reckon

/-- The lines for one session and the settings it begins with. -/
structure Script where
  settings : Settings
  lines : List Text

namespace FileSystem

/-! ## Sessions one after another -/

/-- The session that a script begins. -/
def sessionOf (fs : FileSystem) (script : Script) : Session :=
  (fs.startSession script.settings).1

/-- The file system after the session of a script. -/
def after (fs : FileSystem) (script : Script) : FileSystem :=
  ((fs.sessionOf script).run fs script.lines).fs

/-- The file system after the sessions of all scripts. -/
def afterAll (fs : FileSystem) : List Script → FileSystem
  | [] => fs
  | script :: rest => (fs.after script).afterAll rest

/-- The moments of all sessions, in order. -/
def moments (fs : FileSystem) : List Script → List Moment
  | [] => []
  | script :: rest =>
    (fs.sessionOf script).moments fs script.lines ++ (fs.after script).moments rest

/-- The entries that all sessions record, in order. -/
def recorded (fs : FileSystem) (scripts : List Script) : List Entry :=
  (fs.moments scripts).filterMap Moment.recorded?

/-- Sessions that share the history file at `path`: no line holds a line feed, every save succeeds,
and no export goes to the place of the history. -/
structure Undisturbed (fs : FileSystem) (path : Path) (scripts : List Script) : Prop where
  shared : ∀ script ∈ scripts, script.settings.historyFile = path
  oneLine : ∀ script ∈ scripts, ∀ line ∈ script.lines, '\n' ∉ line
  saves : ∀ m ∈ fs.moments scripts, m.saves = true
  apart : ∀ m ∈ fs.moments scripts, ∀ p ∈ m.exported?, m.fs.placeOf p ≠ m.fs.placeOf path

/-! ## What the file holds

The three things that can happen to the place of the history are shown to fit with `Keeps`: it is
read when a session begins, it is saved, and something else is written elsewhere. -/

/-- The file at `path` holds the lines of these entries. Before the first one is written there is no
file; an export may have made a directory at its place. -/
inductive Keeps (fs : FileSystem) (path : Path) : List Entry → Prop
  | nothing (h : fs.nodeAt? (fs.placeOf path) = none
      ∨ fs.nodeAt? (fs.placeOf path) = some .directory) : Keeps fs path []
  | file (es : List Entry) (hlocate : fs.locate path = .ok (.present (fs.placeOf path)))
      (hnode : fs.nodeAt? (fs.placeOf path) = some (.file (HistoryFile.content es))) :
      Keeps fs path es

variable {fs : FileSystem} {path : Path} {es : List Entry}

/-- What is read is what was written; where nothing was written, nothing is read. -/
theorem Keeps.bytesOf_read (h : fs.Keeps path es) :
    History.bytesOf (fs.read path) = HistoryFile.content es := by
  cases h with
  | file _ hlocate hnode => rw [read_of_locate hlocate hnode, History.bytesOf]
  | nothing hnode =>
    -- the path leads nowhere, or to a directory, which cannot be read
    have hempty : HistoryFile.content [] = [] := rfl
    rw [hempty]
    cases hlocate : fs.locate path with
    | error cause => rw [read, hlocate]; rfl
    | ok spot =>
      have hplace := location_of_locate hlocate
      cases spot with
      | removed loc => rw [read, hlocate]; rfl
      | present loc =>
        rw [← hplace, Spot.location] at hnode
        rw [read, hlocate]
        dsimp only
        rcases hnode with hnode | hnode
        · rw [hnode]
          rfl
        · rw [hnode]
          rfl

/-- Only the lines of the entries count. -/
theorem Keeps.congr {gs : List Entry} (h : fs.Keeps path es)
    (hlines : es.map Entry.line = gs.map Entry.line) : fs.Keeps path gs := by
  cases h with
  | nothing h₀ =>
    rw [List.map_eq_nil_iff.1 (hlines.symm.trans List.map_nil)]
    exact .nothing h₀
  | file _ hlocate hnode =>
    rw [HistoryFile.content_congr hlines] at hnode
    exact .file gs hlocate hnode

/-- An order that does not write at the place of the history leaves what is kept there. -/
theorem Keeps.perform (h : fs.Keeps path es) {order : WriteOrder}
    (hapart : (fs.perform order).2 = .ok () → fs.placeOf order.path ≠ fs.placeOf path) :
    (fs.perform order).1.Keeps path es := by
  have hgrows := fs.grows_perform order
  have hnode := nodeAt?_perform_of_ne hapart
  rw [← hgrows.placeOf path] at hnode
  cases h with
  | nothing h₀ =>
    rw [← hgrows.placeOf path] at h₀
    rcases hnode with hsame | ⟨-, hdir⟩
    · exact .nothing (by rwa [hsame])
    · exact .nothing (.inr hdir)
  | file _ hlocate hfile =>
    -- the path still leads to the file, and its content is another order's business
    rw [← hgrows.placeOf path] at hlocate hfile
    rcases hnode with hsame | ⟨hnone, -⟩
    · exact .file es (hgrows.locate hlocate) (hsame.trans hfile)
    · rw [hnone] at hfile
      cases hfile

/-- A history that is saved is kept. No device stands at the place, so success means that the bytes
were written. -/
theorem Keeps.save (h : fs.Keeps path es) {history : History} (hpath : history.path = path)
    (hok : (fs.perform history.saveOrder).2 = .ok ()) :
    (fs.perform history.saveOrder).1.Keeps path history.entries := by
  have hperform : fs.perform history.saveOrder
      = fs.writeFile path (HistoryFile.content history.entries) := by rw [← hpath]; rfl
  rw [hperform] at hok ⊢
  -- the write failed, went to a device, or put a file there
  rcases fs.writeFile_cases path (HistoryFile.content history.entries) with
    ⟨cause, hw⟩ | ⟨loc, d, hplace, hdevice, -⟩ | ⟨loc, hplace, -, hw⟩
  · rw [hw] at hok
    cases hok
  · rw [filePlace_eq_placeOf hplace] at hdevice
    cases h with
    | nothing h₀ => rcases h₀ with h₀ | h₀ <;> (rw [h₀] at hdevice; cases hdevice)
    | file _ _ hfile => rw [hfile] at hdevice; cases hdevice
  · have hloc := filePlace_eq_placeOf hplace
    have hgrows := Grows.place_filePlace hplace (HistoryFile.content history.entries)
    rw [hw]
    refine .file _ ?_ ?_
    · rw [hgrows.placeOf, locate_place hplace, hloc]
    · rw [hgrows.placeOf, ← hloc, nodeAt?_place fs _ (filePlace_ne_root hplace)]

end FileSystem

/-! ## A session in step with its file

Within a session the invariant is `InStep`. A moment records an entry and saves it, exports to
another place, or does nothing with the files. -/

namespace Session

/-- The file of the session and its memory agree on the lines of the recorded entries. -/
structure InStep (path : Path) (s : Session) (fs : FileSystem) (es : List Entry) : Prop where
  shared : s.history.path = path
  lines : s.history.entries.map Entry.line = es.map Entry.line
  file : fs.Keeps path es

/-- One moment keeps a session in step, if its save succeeds and its export stays away. -/
theorem inStep_next {path : Path} {m : Moment} {es : List Entry} (hsaves : m.saves = true)
    (hapart : ∀ p ∈ m.exported?, m.fs.placeOf p ≠ m.fs.placeOf path)
    (h : InStep path m.session m.fs es) :
    InStep path m.next.2.session m.next.1 (es ++ m.recorded?.toList) := by
  rcases m.effect with ⟨e, hentry, hfs, hhistory⟩ |
    ⟨order, hquestion, horder, hentry, hfs, hhistory⟩ | ⟨hentry, hfs, hhistory⟩
  · -- an entry is recorded: memory and file both get its line
    have hlines : (m.session.history.grown e).entries.map Entry.line
        = (es ++ [e]).map Entry.line := by
      rw [History.grown, List.map_append, List.map_append, h.lines]
    have hok := Moment.perform_saveOrder_of_saves hentry hsaves
    have hkeeps : (m.fs.perform (m.session.history.grown e).saveOrder).1.Keeps path
        (m.session.history.grown e).entries := h.file.save h.shared hok
    rw [hentry, Option.toList_some]
    refine ⟨by rw [hhistory]; exact h.shared, by rw [hhistory, hlines], ?_⟩
    rw [hfs]
    exact hkeeps.congr hlines
  · -- something is exported, but elsewhere
    have hover : (m.fs.perform order).2 = .ok () → m.fs.placeOf order.path ≠ m.fs.placeOf path :=
      fun hok => hapart order.path (Moment.exported?_of_perform hquestion horder hok)
    rw [hentry, Option.toList_none, List.append_nil]
    refine ⟨by rw [hhistory]; exact h.shared, by rw [hhistory]; exact h.lines, ?_⟩
    rw [hfs]
    exact h.file.perform hover
  · rw [hentry, Option.toList_none, List.append_nil]
    refine ⟨by rw [hhistory]; exact h.shared, by rw [hhistory]; exact h.lines, ?_⟩
    rw [hfs]
    exact h.file

end Session

namespace FileSystem

variable {fs : FileSystem} {path : Path} {es : List Entry}

/-- A history that was kept is opened as its entries are reread. -/
theorem Keeps.entries_openHistory (h : fs.Keeps path es) (hcalc : ∀ e ∈ es, e.Calculated)
    (hclear : ∀ e ∈ es, ¬Entry.delimiter <:+: e.expression) :
    (fs.openHistory path).1.entries = es.map Entry.reread := by
  rw [openHistory, History.opened, h.bytesOf_read]
  exact HistoryFile.entries_content_of_calculated hcalc hclear

/-- A moment of several sessions is one of some session among them. -/
theorem exists_script_of_mem_moments {scripts : List Script} {m : Moment}
    (h : m ∈ fs.moments scripts) :
    ∃ script ∈ scripts, m.line ∈ script.lines ∧ m.session.strict = script.settings.strict := by
  induction scripts generalizing fs with
  | nil => cases h
  | cons script rest ih =>
    rcases List.mem_append.1 h with h | h
    · have hsetup := Session.setup_of_mem_moments h
      exact ⟨script, List.mem_cons_self, Session.line_mem_of_mem_moments h,
        congrArg Prod.fst hsetup⟩
    · obtain ⟨later, hlater, hm⟩ := ih h
      exact ⟨later, List.mem_cons_of_mem script hlater, hm⟩

/-- Entries that are recorded from lines without line feeds are those of calculations. -/
theorem calculated_of_mem_recorded {scripts : List Script}
    (hone : ∀ script ∈ scripts, ∀ line ∈ script.lines, '\n' ∉ line) {e : Entry}
    (he : e ∈ fs.recorded scripts) : e.Calculated := by
  obtain ⟨m, hm, hentry⟩ := List.mem_filterMap.1 he
  obtain ⟨script, hscript, hline, -⟩ := exists_script_of_mem_moments hm
  obtain ⟨x, -, rfl⟩ := Moment.value_of_recorded? hentry
  exact ⟨hone script hscript m.line hline, x, rfl⟩

/-- A session adds the entries that it records to what is kept. -/
theorem Keeps.after {script : Script} (h : fs.Keeps path es) (hcalc : ∀ e ∈ es, e.Calculated)
    (hclear : ∀ e ∈ es, ¬Entry.delimiter <:+: e.expression)
    (hrun : fs.Undisturbed path [script]) :
    (fs.after script).Keeps path (es ++ fs.recorded [script]) := by
  have hpath : script.settings.historyFile = path := hrun.shared script List.mem_cons_self
  have hmoments : fs.moments [script] = (fs.sessionOf script).moments fs script.lines := by
    rw [moments, moments, List.append_nil]
  have hstart : (fs.sessionOf script).InStep path fs es := by
    refine ⟨hpath, ?_, h⟩
    -- the entries in memory are the reread ones, which have the same lines
    have hentries : (fs.sessionOf script).history.entries = es.map Entry.reread := by
      rw [← h.entries_openHistory hcalc hclear, ← hpath]
      rfl
    rw [hentries, List.map_map]
    exact List.map_congr_left fun e _ => e.line_reread
  have hend := Session.runLines_invariant (P := Session.InStep path)
    (Q := fun m => m.saves = true ∧ ∀ p ∈ m.exported?, m.fs.placeOf p ≠ m.fs.placeOf path)
    (fun m es hm h => Session.inStep_next hm.1 hm.2 h) (fun _ _ _ h => ⟨h.shared, h.lines, h.file⟩)
    (fun m hm => ⟨hrun.saves m (hmoments ▸ hm), hrun.apart m (hmoments ▸ hm)⟩) hstart
  -- `run` adds a remark at the end and changes no file
  rw [recorded, hmoments]
  exact hend.file

/-- The first of several sessions is undisturbed. -/
theorem Undisturbed.head {script : Script} {rest : List Script}
    (h : fs.Undisturbed path (script :: rest)) : fs.Undisturbed path [script] where
  shared s hs := h.shared s (by rw [List.mem_singleton.1 hs]; exact List.mem_cons_self)
  oneLine s hs := h.oneLine s (by rw [List.mem_singleton.1 hs]; exact List.mem_cons_self)
  saves m hm := h.saves m (by
    rw [moments, moments, List.append_nil] at hm
    exact List.mem_append_left _ hm)
  apart m hm := h.apart m (by
    rw [moments, moments, List.append_nil] at hm
    exact List.mem_append_left _ hm)

/-- So are the others, on the files that the first one leaves. -/
theorem Undisturbed.tail {script : Script} {rest : List Script}
    (h : fs.Undisturbed path (script :: rest)) : (fs.after script).Undisturbed path rest where
  shared s hs := h.shared s (List.mem_cons_of_mem _ hs)
  oneLine s hs := h.oneLine s (List.mem_cons_of_mem _ hs)
  saves m hm := h.saves m (List.mem_append_right _ hm)
  apart m hm := h.apart m (List.mem_append_right _ hm)

/-- What several sessions record is what the first one records and then the others. -/
theorem recorded_cons (fs : FileSystem) (script : Script) (rest : List Script) :
    fs.recorded (script :: rest) = fs.recorded [script] ++ (fs.after script).recorded rest := by
  rw [recorded, recorded, recorded, moments, moments, moments, List.append_nil,
    List.filterMap_append]

/-- Sessions that are not disturbed keep all of their entries, behind those kept before. -/
theorem keeps_afterAll {scripts : List Script} (h : fs.Keeps path es)
    (hcalc : ∀ e ∈ es, e.Calculated) (hrun : fs.Undisturbed path scripts)
    (hclear : ∀ e ∈ es ++ fs.recorded scripts, ¬Entry.delimiter <:+: e.expression) :
    (fs.afterAll scripts).Keeps path (es ++ fs.recorded scripts) := by
  -- on the sessions; what the first one leaves is kept for the others
  induction scripts generalizing fs es with
  | nil =>
    have hnone : fs.recorded [] = [] := rfl
    rw [hnone, List.append_nil, afterAll]
    exact h
  | cons script rest ih =>
    rw [recorded_cons, ← List.append_assoc] at hclear ⊢
    have hclear' : ∀ e ∈ es, ¬Entry.delimiter <:+: e.expression := fun e he =>
      hclear e (List.mem_append_left _ (List.mem_append_left _ he))
    have hfirst := h.after hcalc hclear' hrun.head
    have hcalc' : ∀ e ∈ es ++ fs.recorded [script], e.Calculated := by
      intro e he
      rcases List.mem_append.1 he with he | he
      · exact hcalc e he
      · exact calculated_of_mem_recorded hrun.head.oneLine he
    exact ih hfirst hcalc' hrun.tail hclear

/-- What is opened after sessions that are not disturbed, on a file that was not there before. -/
theorem entries_openHistory_afterAll {scripts : List Script}
    (habsent : fs.nodeAt? (fs.placeOf path) = none) (hrun : fs.Undisturbed path scripts)
    (hclear : ∀ e ∈ fs.recorded scripts, ¬Entry.delimiter <:+: e.expression) :
    ((fs.afterAll scripts).openHistory path).1.entries
      = (fs.recorded scripts).map Entry.reread := by
  have hkeeps : (fs.afterAll scripts).Keeps path ([] ++ fs.recorded scripts) :=
    keeps_afterAll (.nothing (.inl habsent)) (fun _ he => absurd he List.not_mem_nil) hrun
      (by rwa [List.nil_append])
  rw [List.nil_append] at hkeeps
  exact hkeeps.entries_openHistory (fun _ he => calculated_of_mem_recorded hrun.oneLine he) hclear

end FileSystem

/-- What a session loads after others. It has the recorded entries in their order, each with the
semicolons at the end of its expression moved to the front of its result; so the entries are the
recorded ones exactly if no expression ends in a semicolon. -/
theorem history_reread_after_sessions {fs : FileSystem} {settings : Settings}
    {earlier : List Script} (habsent : fs.nodeAt? (fs.placeOf settings.historyFile) = none)
    (hrun : fs.Undisturbed settings.historyFile earlier)
    (hclear : ∀ e ∈ fs.recorded earlier, ¬Entry.delimiter <:+: e.expression) :
    ((fs.afterAll earlier).startSession settings).1.history.entries
        = (fs.recorded earlier).map Entry.reread
      ∧ (((fs.afterAll earlier).startSession settings).1.history.entries = fs.recorded earlier
        ↔ ∀ e ∈ fs.recorded earlier, e.expression.getLast? ≠ some ';') := by
  have hloaded : ((fs.afterAll earlier).startSession settings).1.history.entries
      = (fs.recorded earlier).map Entry.reread :=
    FileSystem.entries_openHistory_afterAll habsent hrun hclear
  refine ⟨hloaded, ?_⟩
  rw [hloaded]
  exact Entry.map_reread_eq_self_iff (fs.recorded earlier)

/-- A working directory with nothing in it. -/
def FileSystem.bare : FileSystem :=
  ⟨[(["w".toList], .directory)], ["w".toList], false⟩

/-- Works out an expression, shows the history and exports it. -/
def Script.ofExpression (expression : Text) : Script :=
  ⟨{}, [['1'], expression, ['2'], ['3'], "out.txt".toList, ['5']]⟩

/-- Two sessions that are both remembered by a third one. -/
theorem history_reread_after_two_sessions :
    (FileSystem.bare.afterAll [.ofExpression "1+2".toList, .ofExpression "7;+8".toList]
        |>.startSession {}).1.history.entries
      = [⟨"1+2".toList, ['3']⟩, ⟨"7;+8".toList, "15".toList⟩] := by
  have hrun : FileSystem.bare.Undisturbed ({} : Settings).historyFile
      [.ofExpression "1+2".toList, .ofExpression "7;+8".toList] :=
    ⟨by decide, by decide, by decide +kernel, by decide +kernel⟩
  have habsent : FileSystem.bare.nodeAt? (FileSystem.bare.placeOf ({} : Settings).historyFile)
      = none := by decide +kernel
  have hloaded := history_reread_after_sessions habsent hrun (by decide +kernel)
  rw [hloaded.2.2 (by decide +kernel)]
  decide +kernel

/-- An expression that ends in a semicolon does not come back, although it holds no delimiter and
nothing went wrong in its session. -/
theorem trailing_semicolon_lost_on_reload :
    FileSystem.bare.nodeAt? (FileSystem.bare.placeOf ({} : Settings).historyFile) = none
      ∧ FileSystem.bare.Undisturbed ({} : Settings).historyFile [.ofExpression "1;".toList]
      ∧ FileSystem.bare.recorded [.ofExpression "1;".toList] = [⟨"1;".toList, ['1']⟩]
      ∧ ¬Entry.delimiter <:+: "1;".toList
      ∧ (FileSystem.bare.afterAll [.ofExpression "1;".toList] |>.startSession {}).1.history.entries
        = [⟨['1'], ";1".toList⟩] := by
  refine ⟨by decide +kernel, ⟨by decide, by decide, by decide +kernel, by decide +kernel⟩,
    by decide +kernel, by decide, by decide +kernel⟩

end Reckon
