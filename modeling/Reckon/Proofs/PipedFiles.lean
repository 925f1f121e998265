import Reckon.Proofs.Alongside
import Reckon.Proofs.OneLineNames
import Reckon.Proofs.Restart
import Reckon.Proofs.Saving

/-!
# The files of a piped session

A session on piped input is held against one that is given the same lines without their ends. The
two write at the same moments, but not the same: a destination with its end leads to another place,
and a recorded expression with its end is longer in the history file. So where nothing hinders the
writing, they leave the same files only if they write nothing at all.
-/

namespace Reckon

/-! ## Destinations with their ends

A destination that keeps its line feed does not end like a file, so the default name is put behind
it, unless it is absolute. Either way the path has a component that ends in the line feed, and does
not go up again behind it. -/

/-- The path that the usual settings make of a destination with its end: a line feed ends the last
component of the destination. -/
theorem Exporter.destination_append_lineFeed (front : Text) :
    ∃ tail more, destination ⟨({} : Settings).exportFileName⟩ (front ++ ['\n']) = front ++ tail
      ∧ splitOn '/' tail = ['\n'] :: more ∧ ['.', '.'] ∉ more := by
  have hlast : (front ++ ['\n']).getLast? = some '\n' := List.getLast?_concat
  have hending : hasFileEnding (front ++ ['\n']) = false := by
    have hlower : ((front ++ ['\n']).map Char.toLower).reverse
        = '\n' :: (front.map Char.toLower).reverse := by
      rw [List.map_append, List.reverse_append]
      rfl
    simp only [hasFileEnding, fileEndings, List.any_cons, List.isSuffixOf, hlower]
    rfl
  unfold destination
  split
  · exact ⟨['\n'], [], rfl, by decide, by decide⟩
  · -- it ends neither in a slash nor like a file, so it is taken for a directory
    have hslash : ¬((front ++ ['\n']).getLast? = some '/'
        ∨ (front ++ ['\n']).getLast? = some '\x5c') := by
      rw [hlast]
      decide
    -- the name of the usual settings is relative, and the destination does not end in a slash: the
    -- join puts one between them
    have hjoin : Path.join (front ++ ['\n']) ({} : Settings).exportFileName
        = front ++ "\n/log.log".toList := by
      have hrelative : Path.isAbsolute ({} : Settings).exportFileName = false := by decide
      have hplain : ¬(front ++ ['\n'] = [] ∨ (front ++ ['\n']).getLast? = some '/') := by
        rw [hlast]
        simp
      rw [Path.join, hrelative, if_neg Bool.false_ne_true, if_neg hplain, List.append_assoc]
      rfl
    rw [if_neg hslash, hending, if_neg Bool.false_ne_true, hjoin]
    exact ⟨"\n/log.log".toList, ["log.log".toList], rfl, by decide, by decide⟩

namespace FileSystem

/-- A name stays in the place of a path as long as the path does not go up again. -/
theorem mem_foldl_locationAfter {name : Text} {names : List Text} {loc : Location}
    (hname : name ∈ loc) (hdown : ['.', '.'] ∉ names) : name ∈ names.foldl locationAfter loc := by
  induction names generalizing loc with
  | nil => exact hname
  | cons next rest ih =>
    rw [List.mem_cons, not_or] at hdown
    refine ih ?_ hdown.2
    unfold locationAfter
    -- a step stays or goes down, as `..` is excluded
    split
    · exact hname
    · rw [if_neg (Ne.symm hdown.1)]
      exact List.mem_append_left [next] hname

/-- A destination with its end leads to a place with a line feed in it, which no name of one line
leads to. -/
theorem not_oneLinePlace_destination (fs : FileSystem) (front : Text) :
    ¬OneLinePlace
      (fs.placeOf (Exporter.destination ⟨({} : Settings).exportFileName⟩ (front ++ ['\n']))) := by
  obtain ⟨tail, more, hpath, htail, hmore⟩ := Exporter.destination_append_lineFeed front
  obtain ⟨pieces, last, -, happend⟩ := exists_splitOn_append '/' front
  rw [hpath, placeOf, Path.names, happend htail, List.filter_append, List.foldl_append]
  -- the component with the line feed is neither empty nor a dot name, so it is entered
  have hend : '\n' ∈ last ++ ['\n'] := List.mem_append_right last List.mem_cons_self
  have hother : ∀ name : Text, '\n' ∉ name → last ++ ['\n'] ≠ name := fun name hname h =>
    hname (h ▸ hend)
  have hcounts : (!(last ++ ['\n']).isEmpty) = true := by
    cases last <;> rfl
  rw [List.filter_cons, if_pos hcounts, List.foldl_cons]
  intro h
  refine h (last ++ ['\n']) (mem_foldl_locationAfter ?_ ?_) hend
  · rw [locationAfter, if_neg (hother ['.'] (by decide)), if_neg (hother ['.', '.'] (by decide))]
    exact List.mem_append_right _ List.mem_cons_self
  · exact fun hmem => hmore (List.mem_filter.1 hmem).1

end FileSystem

/-! ## What a session leaves

If all its orders succeed, the files a session leaves can be told from its moments: no order, no
change; only orders to save, and the history file holds the history with what was recorded. The
second is an induction along the moments with the invariant `Written`. -/

namespace Moment

/-- Whether the order of the moment succeeds; where there is none, nothing can fail. -/
def succeeds (m : Moment) : Bool :=
  m.order?.all fun order => (m.fs.perform order).2.isOk

/-- An order of a moment that succeeds is performed without a failure. -/
theorem perform_of_succeeds {m : Moment} {order : WriteOrder} (h : m.succeeds = true)
    (horder : m.order? = some order) : (m.fs.perform order).2 = .ok () := by
  rw [succeeds, horder, Option.all_some] at h
  cases hanswer : (m.fs.perform order).2 with
  | error failure =>
    rw [hanswer] at h
    cases h
  | ok _ => rfl

/-- What a moment does to the files takes nothing away. -/
theorem grows_next (m : Moment) : FileSystem.Grows m.fs m.next.1 := by
  cases horder : m.order? with
  | none =>
    rw [fs_next_of_order?_eq_none horder]
    exact .refl m.fs
  | some order =>
    rw [fs_next_of_order?_eq_some horder]
    exact m.fs.grows_perform order

end Moment

namespace Session

theorem grows_runLines (s : Session) (fs : FileSystem) (lines : List Text) :
    FileSystem.Grows fs (s.runLines fs lines).fs :=
  runLines_invariant_fs (fun m _ h => h.trans m.grows_next) (.refl fs)

/-- What stands after one of its moments stands at the end of the session. -/
theorem grows_of_mem_moments {s : Session} {fs : FileSystem} {lines : List Text} {m : Moment}
    (hm : m ∈ s.moments fs lines) : FileSystem.Grows m.next.1 (s.runLines fs lines).fs := by
  induction lines generalizing s fs with
  | nil => cases hm
  | cons line rest ih =>
    rw [moments] at hm
    rw [runLines]
    split at hm
    · cases hm
    · next hgoing =>
      rw [if_neg hgoing]
      rcases List.mem_cons.1 hm with rfl | hm
      · exact grows_runLines _ _ rest
      · exact ih hm

/-- A session that makes no order leaves the files as they are. -/
theorem fs_runLines_of_no_order {s : Session} {fs : FileSystem} {lines : List Text}
    (h : ∀ m ∈ s.moments fs lines, m.order? = none) : (s.runLines fs lines).fs = fs :=
  runLines_invariant_fs (R := (· = fs))
    (fun m hm hfs => (Moment.fs_next_of_order?_eq_none (h m hm)).trans hfs) rfl

/-- The file of the history is as it was before the session until an entry is recorded, and then it
holds the history. -/
structure Written (before : FileSystem) (path : Path) (s : Session) (fs : FileSystem)
    (es : List Entry) : Prop where
  shared : s.history.path = path
  grows : FileSystem.Grows before fs
  node : es = [] ∧ fs.nodeAt? (before.placeOf path) = before.nodeAt? (before.placeOf path)
    ∨ es ≠ [] ∧ fs.nodeAt? (before.placeOf path)
      = some (.file (HistoryFile.content s.history.entries))

/-- A moment without an export keeps the invariant, if its order succeeds. -/
theorem written_next {before : FileSystem} {path : Path} {m : Moment} {es : List Entry}
    (hkept : before.nodeAt? (before.placeOf path) ≠ some (.device .null))
    (hsucceeds : m.succeeds = true) (hsaves : m.recorded? = none → m.order? = none)
    (h : Written before path m.session m.fs es) :
    Written before path m.next.2.session m.next.1 (es ++ m.recorded?.toList) := by
  rcases m.effect with ⟨e, hentry, hfs, hhistory⟩ | ⟨order, -, horder, hentry, -, -⟩ |
    ⟨hentry, hfs, hhistory⟩
  · -- what stands at the place is no null device, neither at first nor after a save
    have hok := Moment.perform_of_succeeds hsucceeds (Moment.order?_of_recorded? hentry)
    have hnull : m.fs.nodeAt? (m.fs.placeOf m.session.history.path) ≠ some (.device .null) := by
      rw [h.shared, h.grows.placeOf]
      rcases h.node with ⟨-, hnode⟩ | ⟨-, hnode⟩
      · rwa [hnode]
      · rw [hnode]
        nofun
    rw [History.perform_saveOrder] at hok hfs
    obtain ⟨loc, hplace, hwrite⟩ := FileSystem.writeFile_of_ok hok
      (HistoryFile.content_concat_ne_nil m.session.history.entries e) hnull
    have hloc : loc = before.placeOf path := by
      rw [FileSystem.filePlace_eq_placeOf hplace, ← h.shared, ← h.grows.placeOf]
      rfl
    refine ⟨by rw [hhistory]; exact h.shared, h.grows.trans m.grows_next, .inr ⟨?_, ?_⟩⟩
    · rw [hentry]
      exact List.concat_ne_nil e es
    · have hroot := FileSystem.filePlace_ne_root hplace
      rw [hfs, hwrite, ← hloc, FileSystem.nodeAt?_place m.fs _ hroot, hhistory]
  · -- an order without a record is an export, of which there are none here
    rw [hsaves hentry] at horder
    cases horder
  · -- nothing is ordered
    rw [hentry, Option.toList_none, List.append_nil]
    refine ⟨by rw [hhistory]; exact h.shared, by rw [hfs]; exact h.grows, ?_⟩
    rw [hfs, hhistory]
    exact h.node

/-- A session that only saves, and does so at least once, leaves a file with its history. -/
theorem nodeAt?_runLines_of_saves {s : Session} {fs : FileSystem} {lines : List Text}
    (hkept : fs.nodeAt? (fs.placeOf s.history.path) ≠ some (.device .null))
    (hsucceeds : ∀ m ∈ s.moments fs lines, m.succeeds = true)
    (hsaves : ∀ m ∈ s.moments fs lines, m.recorded? = none → m.order? = none)
    (hsome : (s.moments fs lines).filterMap Moment.recorded? ≠ []) :
    (s.runLines fs lines).fs.nodeAt? (fs.placeOf s.history.path)
      = some (.file (HistoryFile.content
        (s.history.entries ++ (s.moments fs lines).filterMap Moment.recorded?))) := by
  have hstart : Written fs s.history.path s fs [] := ⟨rfl, .refl fs, .inl ⟨rfl, rfl⟩⟩
  have hend := runLines_invariant (P := Written fs s.history.path)
    (Q := fun m => m.succeeds = true ∧ (m.recorded? = none → m.order? = none))
    (fun _ _ hm h => written_next hkept hm.1 hm.2 h)
    (fun _ _ _ h => ⟨h.shared, h.grows, h.node⟩)
    (fun m hm => ⟨hsucceeds m hm, hsaves m hm⟩) hstart
  rcases hend.node with ⟨hnone, -⟩ | ⟨-, hnode⟩
  · exact absurd hnone hsome
  · rw [hnode, history_runLines]

end Session

/-! ## Contents with ends -/

namespace HistoryFile

/-- The bytes of the file determine its text. -/
theorem content_injective {es es' : List Entry} (h : content es = content es') :
    (es.flatMap fun e => e.line ++ ['\n']) = es'.flatMap fun e => e.line ++ ['\n'] := by
  have hdecode := congrArg Utf8.decode? h
  rw [content, content, Utf8.decode?_encode, Utf8.decode?_encode] at hdecode
  exact Option.some.inj hdecode

/-- Every end makes the file longer. -/
theorem length_flatMap_of_ended {es es' : List Entry} (h : List.Forall₂ Entry.Ended es es') :
    (es.flatMap fun e => e.line ++ ['\n']).length + es.length
      ≤ (es'.flatMap fun e => e.line ++ ['\n']).length := by
  induction h with
  | nil => exact Nat.le_refl _
  | @cons e e' rest rest' hended _ ih =>
    obtain ⟨ending, rfl⟩ := hended
    have hending : 1 ≤ ending.text.length := by cases ending <;> decide
    simp only [List.flatMap_cons, List.length_append, List.length_cons, Entry.line] at ih ⊢
    omega

/-- A history with the ends in its expressions is not written as the one without them. -/
theorem content_ne_of_ended {kept es es' : List Entry} (h : List.Forall₂ Entry.Ended es es')
    (hne : es ≠ []) : content (kept ++ es') ≠ content (kept ++ es) := by
  intro heq
  have htexts := congrArg List.length (content_injective heq)
  have hlonger := length_flatMap_of_ended h
  have hpos : 0 < es.length := List.length_pos_of_ne_nil hne
  rw [List.flatMap_append, List.flatMap_append, List.length_append, List.length_append] at htexts
  omega

end HistoryFile

/-! ## Piped and typed sessions -/

namespace Script

/-- The session that is given the lines without their ends. -/
def typed (ls : List EndedLine) : Script :=
  ⟨{}, ls.map EndedLine.text⟩

/-- The session that is given the whole lines. -/
def piped (ls : List EndedLine) : Script :=
  ⟨{}, ls.map EndedLine.whole⟩

end Script

/-- What is left after piped input is what a session leaves that is given the whole lines. -/
theorem Piped.fs_run_input (fs : FileSystem) (ls : List EndedLine) :
    (Piped.run fs (EndedLine.input ls)).fs = fs.after (.piped ls) := by
  show ((fs.startSession {}).1.run fs (Piped.lines (EndedLine.input ls))).fs = _
  rw [Piped.lines_input]
  rfl

namespace FileSystem

variable {fs : FileSystem} {ls : List EndedLine}

theorem moments_singleton (fs : FileSystem) (script : Script) :
    fs.moments [script] = (fs.sessionOf script).moments fs script.lines := by
  rw [moments, moments, List.append_nil]

/-- The two sessions go through the same moments, up to the ends of their lines. -/
theorem forall₂_moments_alongside (fs : FileSystem) (ls : List EndedLine) :
    List.Forall₂ Moment.Alongside (fs.moments [.typed ls]) (fs.moments [.piped ls]) := by
  rw [moments_singleton, moments_singleton]
  exact Session.forall₂_moments_alongside ⟨rfl, rfl, rfl, rfl⟩ fs fs ls

/-- Nothing hinders the piped session or the typed one: both can write whatever they have to, the
history is kept in a file, and no name is in use that could be mistaken for one with an end. -/
structure Unhindered (fs : FileSystem) (ls : List EndedLine) : Prop where
  oneLineNames : fs.OneLineNames
  kept : fs.nodeAt? (fs.placeOf ({} : Settings).historyFile) ≠ some (.device .null)
  typed : ∀ m ∈ fs.moments [.typed ls], m.succeeds = true
  piped : ∀ m ∈ fs.moments [.piped ls], m.succeeds = true

/-- The typed session gives no name more than one line. -/
theorem oneLineNames_after_typed (h : fs.OneLineNames) (ls : List EndedLine) :
    (fs.after (.typed ls)).OneLineNames := by
  have hhistory : Text.OneLine ({} : Settings).historyFile := by decide
  have hname : Text.OneLine ({} : Settings).exportFileName := by decide
  refine Session.oneLineNames_runLines h (fun line hline => ?_) hhistory hname
  obtain ⟨l, -, rfl⟩ := List.mem_map.1 hline
  exact l.oneLine

/-- An export of the piped session puts something at a place that the typed one cannot reach. -/
theorem after_ne_of_export (h : fs.Unhindered ls) {m : Moment} {order : WriteOrder}
    (hm : m ∈ fs.moments [.piped ls]) (horder : m.order? = some order)
    (hentry : m.recorded? = none) :
    ∃ loc, (fs.after (.piped ls)).nodeAt? loc ≠ (fs.after (.typed ls)).nodeAt? loc := by
  have hok := Moment.perform_of_succeeds (h.piped m hm) horder
  have hthere := isSome_nodeAt?_perform hok
  rw [moments_singleton] at hm
  have hgrows : Grows m.next.1 (fs.after (.piped ls)) := Session.grows_of_mem_moments hm
  rw [← Moment.fs_next_of_order?_eq_some horder] at hthere
  refine ⟨m.fs.placeOf order.path, fun heq => ?_⟩
  -- what the export put there stays, so the typed session would have to put something there too
  have htyped : ((fs.after (.typed ls)).nodeAt? (m.fs.placeOf order.path)).isSome = true := by
    rw [← heq]
    exact hgrows.present _ hthere
  have hplace := (oneLineNames_after_typed h.oneLineNames ls).of_nodeAt? htyped
  -- the destination is a whole line
  obtain ⟨l, -, hline⟩ := List.mem_map.1 (Session.line_mem_of_mem_moments hm)
  obtain ⟨front, -, hwhole⟩ := l.exists_whole
  have hexporter : m.session.exporter = ⟨({} : Settings).exportFileName⟩ :=
    congrArg (·.2.1) (Session.setup_of_mem_moments hm)
  -- an order without a record is an export to that destination
  rcases Moment.order?_cases horder with ⟨e, he, -⟩ | ⟨-, entries, rfl⟩
  · rw [hentry] at he
    cases he
  · rw [Exporter.order, hexporter, ← hline, hwhole] at hplace
    exact m.fs.not_oneLinePlace_destination front hplace

/-- Where both sessions do nothing with the files but save their histories, they save different
ones. -/
theorem after_ne_of_saves (h : fs.Unhindered ls)
    (hpiped : ∀ m ∈ fs.moments [.piped ls], m.recorded? = none → m.order? = none)
    (htyped : ∀ m ∈ fs.moments [.typed ls], m.recorded? = none → m.order? = none)
    (hsome : fs.recorded [.typed ls] ≠ []) :
    ∃ loc, (fs.after (.piped ls)).nodeAt? loc ≠ (fs.after (.typed ls)).nodeAt? loc := by
  have hended : List.Forall₂ Entry.Ended (fs.recorded [.typed ls]) (fs.recorded [.piped ls]) :=
    List.rel_filterMap (fun _ _ hm => hm.recorded?) (forall₂_moments_alongside fs ls)
  -- the one session records as often as the other
  have hsome' : fs.recorded [.piped ls] ≠ [] := by
    intro hnone
    rw [hnone, List.forall₂_nil_right_iff] at hended
    exact hsome hended
  rw [recorded, moments_singleton] at hsome hsome'
  have htypedNode := Session.nodeAt?_runLines_of_saves h.kept (moments_singleton fs _ ▸ h.typed)
    (moments_singleton fs _ ▸ htyped) hsome
  have hpipedNode := Session.nodeAt?_runLines_of_saves h.kept (moments_singleton fs _ ▸ h.piped)
    (moments_singleton fs _ ▸ hpiped) hsome'
  rw [recorded, recorded, moments_singleton, moments_singleton] at hended
  -- the contents differ in length
  refine ⟨fs.placeOf ({} : Settings).historyFile, fun heq => ?_⟩
  have hcontents := hpipedNode.symm.trans (heq.trans htypedNode)
  exact HistoryFile.content_ne_of_ended hended hsome (Node.file.inj (Option.some.inj hcontents))

/-- If nothing hinders the writing, a single order is enough for a difference. -/
theorem after_ne_of_order (h : fs.Unhindered ls) {m : Moment} (hm : m ∈ fs.moments [.typed ls])
    (horder : m.order? ≠ none) :
    ∃ loc, (fs.after (.piped ls)).nodeAt? loc ≠ (fs.after (.typed ls)).nodeAt? loc := by
  have halong := forall₂_moments_alongside fs ls
  -- either the piped session exports somewhere, or both only save
  by_cases hexport : ∃ m' ∈ fs.moments [.piped ls], m'.recorded? = none ∧ m'.order? ≠ none
  · obtain ⟨m', hm', hentry, horder'⟩ := hexport
    obtain ⟨order, horder'⟩ := Option.ne_none_iff_exists'.1 horder'
    exact after_ne_of_export h hm' horder' hentry
  · have hpiped : ∀ m' ∈ fs.moments [.piped ls], m'.recorded? = none → m'.order? = none := by
      intro m' hm' hentry
      by_contra horder'
      exact hexport ⟨m', hm', hentry, horder'⟩
    have htyped : ∀ m ∈ fs.moments [.typed ls], m.recorded? = none → m.order? = none :=
      forall_mem_of_forall₂ halong.flip (fun _ _ hm hnone hentry =>
        hm.order?_eq_none_iff.1 (hnone (hm.recorded?_eq_none_iff.2 hentry))) hpiped
    -- the order is then one to save, so something is recorded
    refine after_ne_of_saves h hpiped htyped fun hnone => horder (htyped m hm ?_)
    exact List.filterMap_eq_nil_iff.1 hnone m hm

/-- Without an order neither session touches the files, which can be read off the typed one. -/
theorem after_eq_of_no_order (hnone : ∀ m ∈ fs.moments [.typed ls], m.order? = none) :
    fs.after (.piped ls) = fs.after (.typed ls) := by
  have hnone' : ∀ m' ∈ fs.moments [.piped ls], m'.order? = none :=
    forall_mem_of_forall₂ (forall₂_moments_alongside fs ls)
      (fun _ _ hm h => hm.order?_eq_none_iff.2 h) hnone
  rw [moments_singleton] at hnone hnone'
  have htyped : fs.after (.typed ls) = fs := Session.fs_runLines_of_no_order hnone
  have hpiped : fs.after (.piped ls) = fs := Session.fs_runLines_of_no_order hnone'
  rw [hpiped, htyped]

end FileSystem

/-- Piped input leaves the files that its lines leave when they come without their ends, if no order
is made. If nothing hinders the writing, it leaves them only then: an entry is saved with the end of
its line in it, and a destination with its end is another place. -/
theorem piped_files_eq_iff_no_order (fs : FileSystem) (ls : List EndedLine) :
    ((∀ m ∈ fs.moments [.typed ls], m.order? = none) →
        (Piped.run fs (EndedLine.input ls)).fs = fs.after (.typed ls))
      ∧ (fs.Unhindered ls →
        ((∀ loc, (Piped.run fs (EndedLine.input ls)).fs.nodeAt? loc
            = (fs.after (.typed ls)).nodeAt? loc)
          ↔ ∀ m ∈ fs.moments [.typed ls], m.order? = none)) := by
  rw [Piped.fs_run_input]
  refine ⟨FileSystem.after_eq_of_no_order, fun h => ⟨fun hsame m hm => ?_, fun hnone loc => ?_⟩⟩
  · by_contra horder
    obtain ⟨loc, hne⟩ := FileSystem.after_ne_of_order h hm horder
    exact hne (hsame loc)
  · rw [FileSystem.after_eq_of_no_order hnone]

/-- A calculation, on lines that end in both ways. -/
def EndedLine.ofExpression (expression : Text) (h : '\n' ∉ expression) : List EndedLine :=
  [⟨['1'], .lineFeed, by decide⟩, ⟨expression, .carriageReturnLineFeed, h⟩,
    ⟨['5'], .lineFeed, by decide⟩]

/-- A sum leaves other files when it is piped; an expression without a value leaves the same. -/
theorem piped_files_eq_iff_no_order_at_sum :
    (¬∀ loc, (Piped.run .bare (Utf8.encode "1\n1+2\r\n5\n".toList)).fs.nodeAt? loc
        = (FileSystem.bare.after ⟨{}, [['1'], "1+2".toList, ['5']]⟩).nodeAt? loc)
      ∧ (Piped.run .bare (Utf8.encode "1\n1+\r\n5\n".toList)).fs
        = FileSystem.bare.after ⟨{}, [['1'], "1+".toList, ['5']]⟩ := by
  let sum := EndedLine.ofExpression "1+2".toList (by decide)
  let fault := EndedLine.ofExpression "1+".toList (by decide)
  have hsum := piped_files_eq_iff_no_order .bare sum
  have hfault := piped_files_eq_iff_no_order .bare fault
  -- nothing hinders the order, so the two sides can be compared by the iff
  have hfree : FileSystem.bare.Unhindered sum :=
    ⟨by decide, by decide +kernel, by decide +kernel, by decide +kernel⟩
  refine ⟨fun hsame => ?_, hfault.1 (by decide +kernel)⟩
  have hnone := (hsum.2 hfree).1 hsame
  revert hnone
  decide +kernel

/-- One calculation on piped input: the line of its entry is broken in two. -/
theorem piped_sum_recorded_with_its_end :
    (Piped.run .bare (Utf8.encode "1\n1+2\n5\n".toList)).fs.nodeAt?
        ["w".toList, "calculator_history.log".toList]
        = some (.file (Utf8.encode "1+2\n;;;3\n".toList))
      ∧ (FileSystem.bare.after ⟨{}, [['1'], "1+2".toList, ['5']]⟩).nodeAt?
        ["w".toList, "calculator_history.log".toList]
        = some (.file (Utf8.encode "1+2;;;3\n".toList)) := by
  decide +kernel

end Reckon
