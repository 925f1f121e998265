import Mathlib.Data.List.Basic
import Reckon.History
import Reckon.Proofs.HistoryFormat
import Reckon.Proofs.Places

/-!
# A history and its file over time

A history lives in memory beside a file that others can change at any time and that may refuse to
be written. In memory nothing is ever lost (`Store.history_afterAll`); the file holds all of it
again after every save that succeeds, whatever had become of it before
(`Store.read_of_saved`).
-/

namespace Reckon

/-- The outcome of a job that gets this answer to its order. -/
def Job.resumed {α : Type} (job : Job α) (answer : Except WriteFailure Unit) : α :=
  match job with
  | .done result => result
  | .write _ resume => resume answer

theorem History.perform_saveOrder (fs : FileSystem) (h : History) :
    fs.perform h.saveOrder = fs.writeFile h.path (HistoryFile.content h.entries) :=
  rfl

/-- A history in memory, and the files as they are. -/
structure Store where
  fs : FileSystem
  history : History

/-- What can happen to them. -/
inductive Happening
  /-- An entry is recorded, and the files take its lines or refuse them. -/
  | recorded (e : Entry)
  /-- An entry is recorded, but the save breaks off and leaves `files` behind. -/
  | brokenOff (e : Entry) (failure : WriteFailure) (files : FileSystem)
  /-- Something else changes the files. -/
  | outside (files : FileSystem)

/-- The entry that is handed over to be recorded. -/
def Happening.entry? : Happening → Option Entry
  | recorded e => some e
  | brokenOff e _ _ => some e
  | outside _ => none

namespace Store

/-- A history that is opened at `path`. -/
def opened (fs : FileSystem) (path : Path) : Store :=
  ⟨fs, (fs.openHistory path).1⟩

/-- What becomes of the history and the files; a save that breaks off is answered by its failure. -/
def after (s : Store) : Happening → Store
  | .recorded e => ⟨(s.fs.run (s.history.record e)).1, (s.fs.run (s.history.record e)).2.history⟩
  | .brokenOff e failure files => ⟨files, ((s.history.record e).resumed (.error failure)).history⟩
  | .outside files => ⟨files, s.history⟩

/-- What recording an entry reports. -/
def report? (s : Store) : Happening → Option (Except SaveError Unit)
  | .recorded e => some (s.fs.run (s.history.record e)).2.outcome
  | .brokenOff e failure _ => some ((s.history.record e).resumed (.error failure)).outcome
  | .outside _ => none

/-- What becomes of them in the end. -/
def afterAll (s : Store) : List Happening → Store
  | [] => s
  | happening :: rest => (s.after happening).afterAll rest

/-! ## In memory

The entry is appended before the file is written, so a failure of the write comes too late to change
the history. -/

/-- Only recording changes the history, and it appends the entry, whatever it reports. -/
theorem history_after (s : Store) (happening : Happening) :
    (s.after happening).history
      = { s.history with entries := s.history.entries ++ happening.entry?.toList } := by
  cases happening with
  | recorded e => exact History.history_run_record s.history e s.fs
  | brokenOff e failure files =>
    show (History.saved _ (.error failure)).history = _
    rw [History.history_saved]
    rfl
  | outside files =>
    show s.history = { s.history with entries := s.history.entries ++ [] }
    rw [List.append_nil]

/-- In the end the history holds what it held and everything that was recorded since. -/
theorem history_afterAll (s : Store) (happenings : List Happening) :
    (s.afterAll happenings).history
      = { s.history with
          entries := s.history.entries ++ happenings.filterMap Happening.entry? } := by
  induction happenings generalizing s with
  | nil => rw [afterAll, List.filterMap_nil, List.append_nil]
  | cons happening rest ih =>
    have hcons : (happening :: rest).filterMap Happening.entry?
        = happening.entry?.toList ++ rest.filterMap Happening.entry? := by
      rw [List.filterMap_eq_flatMap_toList, List.flatMap_cons, List.filterMap_eq_flatMap_toList]
    rw [afterAll, ih, history_after, hcons, ← List.append_assoc]

/-! ## On disk

The file is rewritten as a whole by every save, so its earlier content does not matter: what is
reported about the last save decides what it holds. -/

/-- Success is reported only if the order succeeded. -/
theorem outcome_saved_eq_ok {h : History} {answer : Except WriteFailure Unit}
    (hok : (h.saved answer).outcome = .ok ()) : answer = .ok () := by
  rcases answer with ⟨_ | _ | _⟩ | _
  · cases hok
  · cases hok
  · cases hok
  · rfl

/-- A save that succeeds puts the whole history into the file. -/
theorem read_of_saved {s : Store} {happening : Happening}
    (hok : s.report? happening = some (.ok ()))
    (hkept : s.fs.nodeAt? (s.fs.placeOf s.history.path) ≠ some (.device .null)) :
    (s.after happening).fs.read s.history.path
      = .content (HistoryFile.content (s.after happening).history.entries) := by
  cases happening with
  | outside files => cases hok
  | brokenOff e failure files =>
    -- a save that breaks off is not reported as a success
    have hanswer : Except.error failure = .ok () := outcome_saved_eq_ok (Option.some.inj hok)
    cases hanswer
  | recorded e =>
    let grown : History := { s.history with entries := s.history.entries ++ [e] }
    have hanswer : (s.fs.perform grown.saveOrder).2 = .ok () :=
      outcome_saved_eq_ok (Option.some.inj hok)
    have hentries : (s.after (.recorded e)).history.entries = grown.entries := by
      rw [history_after]
      rfl
    rw [hentries]
    exact FileSystem.read_of_performed hanswer
      (HistoryFile.content_concat_ne_nil s.history.entries e) hkept

/-- A file that could not be opened was not written. -/
theorem fs_after_of_notOpened {s : Store} {e : Entry} {path : Path}
    (hfault : s.report? (.recorded e) = some (.error (.notOpened path))) :
    (s.after (.recorded e)).fs = s.fs := by
  let grown : History := { s.history with entries := s.history.entries ++ [e] }
  have hfault' : (grown.saved (s.fs.perform grown.saveOrder).2).outcome
      = .error (.notOpened path) := Option.some.inj hfault
  show (s.fs.perform grown.saveOrder).1 = s.fs
  rw [History.perform_saveOrder] at hfault' ⊢
  -- only a write that fails to find its place reports this, and it changes nothing
  rcases s.fs.writeFile_cases grown.path (HistoryFile.content grown.entries) with
    ⟨cause, h⟩ | ⟨loc, d, -, -, h⟩ | ⟨loc, -, -, h⟩
  · rw [h]
  · exact h
  · rw [h] at hfault'
    cases hfault'

end Store

/-- Whatever happens, the history is what was loaded and every entry that was to be recorded, in
order; and each time a save is reported to have succeeded, the file holds a line for each of them
and nothing else. A file that could not be created leaves everything as it was. -/
theorem history_and_file_in_step (fs : FileSystem) (path : Path) (happenings : List Happening) :
    let s := (Store.opened fs path).afterAll happenings
    s.history.entries = (fs.openHistory path).1.entries ++ happenings.filterMap Happening.entry?
      ∧ (∀ happening, s.report? happening = some (.ok ()) →
          s.fs.nodeAt? (s.fs.placeOf path) ≠ some (.device .null) →
          (s.after happening).fs.read path = .content (Utf8.encode
            ((s.after happening).history.entries.flatMap fun e =>
              e.expression ++ ";;;".toList ++ e.result ++ ['\n'])))
      ∧ ∀ e, s.report? (.recorded e) = some (.error (.notOpened path)) →
          (s.after (.recorded e)).fs = s.fs := by
  intro s
  have hhistory : s.history = _ := Store.history_afterAll (Store.opened fs path) happenings
  have hpath : s.history.path = path := by
    rw [hhistory]
    rfl
  refine ⟨by rw [hhistory]; rfl, ?_, fun e hfault => Store.fs_after_of_notOpened hfault⟩
  intro happening hok hkept
  rw [← hpath] at hkept ⊢
  exact Store.read_of_saved hok hkept

/-- A working directory with one thing in it. -/
def FileSystem.holding (node : Node) : FileSystem :=
  ⟨[(["w".toList], .directory), (["w".toList, "h.log".toList], node)], ["w".toList], false⟩

/-- A file with one entry; the save of a second one breaks off and leaves half a line. -/
def Store.broken : Store :=
  (Store.opened (.holding (.file (Utf8.encode "1+1;;;2\n".toList))) "h.log".toList).after
    (.brokenOff ⟨"2*2".toList, ['4']⟩ (.write .noSpace) (.holding (.file [49, 43])))

/-- The next save puts everything right, and one that meets a directory changes nothing. -/
theorem history_and_file_in_step_after_faults :
    (Store.broken.after (.recorded ⟨['3'], ['3']⟩)).fs.read "h.log".toList
        = .content (Utf8.encode "1+1;;;2\n2*2;;;4\n3;;;3\n".toList)
      ∧ ((Store.broken.after (.outside (.holding .directory))).after
          (.recorded ⟨['3'], ['3']⟩)).fs = .holding .directory := by
  have hbroken := history_and_file_in_step (.holding (.file (Utf8.encode "1+1;;;2\n".toList)))
    "h.log".toList [.brokenOff ⟨"2*2".toList, ['4']⟩ (.write .noSpace) (.holding (.file [49, 43]))]
  have hblocked := history_and_file_in_step (.holding (.file (Utf8.encode "1+1;;;2\n".toList)))
    "h.log".toList [.brokenOff ⟨"2*2".toList, ['4']⟩ (.write .noSpace) (.holding (.file [49, 43])),
      .outside (.holding .directory)]
  constructor
  · have hsaved := hbroken.2.1 (.recorded ⟨['3'], ['3']⟩) rfl (by decide +kernel)
    exact hsaved.trans (congrArg ReadResult.content (by decide +kernel))
  · exact hblocked.2.2 ⟨['3'], ['3']⟩ rfl

end Reckon
