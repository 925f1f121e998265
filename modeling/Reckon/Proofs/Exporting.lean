import Reckon.Proofs.Ancestors
import Reckon.Proofs.Refusals

/-!
# What an export can change

Whatever a disk refuses (`FileSystem.MayPerform`), an order makes directories above its path and
changes one file (`FileSystem.ChangedFor`), and no file at all unless it gets as far as writing.

`exporting_changes_only_destination` says so of an export in a session.
-/

namespace Reckon

namespace FileSystem

variable {fs fs' : FileSystem}

/-! ## What an order changes

All outcomes of an order, the refused ones too, have the same two parts: some of its directories are
made, and then the file is left in one of four ways (`Leaves`). `ChangedFor` is shown to hold after
the first part and to be kept by the second. -/

/-- An order that failed before the writing began. -/
inductive BeforeWriting : Except WriteFailure Unit → Prop
  | directory (cause : SystemError) : BeforeWriting (.error (.directory cause))
  | create (cause : SystemError) : BeforeWriting (.error (.create cause))

/-- What an order leaves behind once its directories are made, as far as they are. -/
inductive Leaves (mid : FileSystem) (order : WriteOrder) :
    FileSystem → Except WriteFailure Unit → Prop
  | refused {answer : Except WriteFailure Unit} (hanswer : BeforeWriting answer) :
      Leaves mid order mid answer
  | device {answer : Except WriteFailure Unit} (loc : Location) (d : Device)
      (hplace : mid.filePlace order.path = .ok loc) (hnode : mid.nodeAt? loc = some (.device d)) :
      Leaves mid order mid answer
  | written (loc : Location) (hplace : mid.filePlace order.path = .ok loc)
      (hfile : ∀ d, mid.nodeAt? loc ≠ some (.device d)) :
      Leaves mid order (mid.place loc (.file order.content)) (.ok ())
  | brokenOff (loc : Location) (left : Bytes) (cause : SystemError)
      (hplace : mid.filePlace order.path = .ok loc)
      (hfile : ∀ d, mid.nodeAt? loc ≠ some (.device d)) :
      Leaves mid order (mid.place loc (.file left)) (.error (.write cause))

/-- Without a refusal the file is left in one of these ways. -/
theorem leaves_writeFile (mid : FileSystem) (order : WriteOrder) :
    Leaves mid order (mid.writeFile order.path order.content).1
      (mid.writeFile order.path order.content).2 := by
  rcases mid.writeFile_cases order.path order.content with
    ⟨cause, hw⟩ | ⟨loc, d, hplace, hnode, hw⟩ | ⟨loc, hplace, hfile, hw⟩
  · rw [hw]
    exact .refused (.create cause)
  · rw [hw]
    exact .device loc d hplace hnode
  · rw [hw]
    exact .written loc hplace hfile

/-- Whatever becomes of an order, directories are made first. -/
theorem MayPerform.leaves {order : WriteOrder} {answer : Except WriteFailure Unit}
    (h : MayPerform fs order fs' answer) :
    ∃ mid, DirectoriesMade fs mid order.directories ∧ Leaves mid order fs' answer := by
  have hmade := directoriesMade_makeMissing fs order.directories
  cases h with
  | performed =>
    rw [perform_eq]
    split
    · next mid cause hmid =>
      rw [hmid] at hmade
      exact ⟨mid, hmade, .refused (.directory cause)⟩
    · next mid hmid =>
      rw [hmid] at hmade
      exact ⟨mid, hmade, leaves_writeFile mid order⟩
  -- those above the refused one are among those of the order
  | directoryRefused cause level hlevel =>
    have hupper := directoriesMade_makeMissing fs (order.directories.drop (level + 1))
    exact ⟨_, hupper.mono fun _ hq => List.mem_of_mem_drop hq, .refused (.directory cause)⟩
  | fileRefused cause mid hmid =>
    rw [hmid] at hmade
    exact ⟨_, hmade, .refused (.create cause)⟩
  | brokenOff cause mid loc left hmid hplace hfile =>
    rw [hmid] at hmade
    exact ⟨mid, hmade, .brokenOff loc left cause hplace hfile⟩

/-- Nothing but what writing a file to `p` needs was changed. Everything that was there is still
there; what is new is the file, or a directory above it. -/
structure ChangedFor (fs fs' : FileSystem) (p : Path) : Prop where
  workingDirectory : fs'.workingDirectory = fs.workingDirectory
  workingRemoved : fs'.workingRemoved = fs.workingRemoved
  elsewhere : ∀ loc node, loc ≠ fs.placeOf p → fs.nodeAt? loc = some node →
    fs'.nodeAt? loc = some node
  destination : ∀ node, fs.nodeAt? (fs.placeOf p) = some node →
    fs'.nodeAt? (fs.placeOf p) = some node
      ∨ ∃ old new, node = .file old ∧ fs'.nodeAt? (fs.placeOf p) = some (.file new)
  added : ∀ loc node, fs.nodeAt? loc = none → fs'.nodeAt? loc = some node →
    node = .directory ∧ (∃ q, q.Above p ∧ loc = fs.placeOf q)
      ∨ (∃ content, node = .file content) ∧ loc = fs.placeOf p

/-- The same files with the same contents; there may be other directories. -/
def SameFiles (fs fs' : FileSystem) : Prop :=
  ∀ loc content, fs'.nodeAt? loc = some (.file content) ↔ fs.nodeAt? loc = some (.file content)

/-- Directories come where no file is. -/
theorem DirectoriesAdded.sameFiles (h : DirectoriesAdded fs fs') : SameFiles fs fs' := by
  intro loc content
  rcases h.node loc with heq | ⟨hnone, hdir⟩
  · rw [heq]
  · rw [hnone, hdir]
    exact ⟨nofun, nofun⟩

theorem ChangedFor.refl (fs : FileSystem) (p : Path) : ChangedFor fs fs p where
  workingDirectory := rfl
  workingRemoved := rfl
  elsewhere _ _ _ h := h
  destination _ h := .inl h
  added loc node hnone hsome := by
    rw [hnone] at hsome
    cases hsome

/-- Such a change takes nothing away. -/
theorem ChangedFor.grows {p : Path} (h : ChangedFor fs fs' p) : Grows fs fs' where
  workingDirectory := h.workingDirectory
  workingRemoved := h.workingRemoved
  directory loc hdir := by
    by_cases hloc : loc = fs.placeOf p
    · -- the destination may change, but only from one file into another
      rw [hloc] at hdir ⊢
      rcases h.destination _ hdir with hkept | ⟨old, new, hfile, -⟩
      · exact hkept
      · cases hfile
    · exact h.elsewhere loc _ hloc hdir
  present loc hthere := by
    obtain ⟨node, hnode⟩ := Option.isSome_iff_exists.1 hthere
    by_cases hloc : loc = fs.placeOf p
    · rw [hloc] at hnode ⊢
      rcases h.destination _ hnode with hkept | ⟨old, new, -, hnew⟩
      · rw [hkept]; rfl
      · rw [hnew]; rfl
    · rw [h.elsewhere loc _ hloc hnode]
      rfl

/-- At any other place the files are the same. -/
theorem ChangedFor.file_iff {p : Path} (h : ChangedFor fs fs' p) {loc : Location}
    (hne : loc ≠ fs.placeOf p) (content : Bytes) :
    fs'.nodeAt? loc = some (.file content) ↔ fs.nodeAt? loc = some (.file content) := by
  refine ⟨fun hfile => ?_, h.elsewhere loc _ hne⟩
  cases hnode : fs.nodeAt? loc with
  | some node => rw [← h.elsewhere loc node hne hnode, hfile]
  | none =>
    rcases h.added loc _ hnode hfile with ⟨hdir, -⟩ | ⟨-, hloc⟩
    · cases hdir
    · exact absurd hloc hne

/-- Where the path does not go back, all that is new lies on the way to its place. -/
theorem ChangedFor.prefix_of_added {p : Path} (h : ChangedFor fs fs' p)
    (hdots : ['.', '.'] ∉ p.names) {loc : Location} (hnone : fs.nodeAt? loc = none)
    (hsome : (fs'.nodeAt? loc).isSome = true) : loc <+: fs.placeOf p := by
  obtain ⟨node, hnode⟩ := Option.isSome_iff_exists.1 hsome
  rcases h.added loc node hnone hnode with ⟨-, q, hq, rfl⟩ | ⟨-, rfl⟩
  · exact placeOf_prefix_of_above hq hdots
  · exact List.prefix_refl _

/-- Making directories above a path is such a change. -/
theorem DirectoriesMade.changedFor {paths : List Path} {p : Path}
    (h : DirectoriesMade fs fs' paths) (habove : ∀ q ∈ paths, q.Above p) :
    ChangedFor fs fs' p where
  workingDirectory := h.workingDirectory
  workingRemoved := h.workingRemoved
  -- nothing is made where something is, so whatever was there before is still there
  elsewhere loc node _ hnode := by
    rcases h.node loc with heq | ⟨hnone, -⟩
    · rw [heq, hnode]
    · rw [hnone] at hnode
      cases hnode
  destination node hnode := by
    rcases h.node (fs.placeOf p) with heq | ⟨hnone, -⟩
    · exact .inl (heq.trans hnode)
    · rw [hnone] at hnode
      cases hnode
  -- and what is new is one of the directories asked for, all of which are above `p`
  added loc node hnone hnode := by
    obtain ⟨q, hq, hloc⟩ := h.listed loc hnone (by rw [hnode]; rfl)
    rcases h.node loc with heq | ⟨-, hdir⟩
    · rw [heq, hnone] at hnode
      cases hnode
    · rw [hdir] at hnode
      exact .inl ⟨(Option.some.inj hnode).symm, q, habove q hq, hloc⟩

/-- Then the file is written, which is at the place of the path. -/
theorem ChangedFor.place {mid : FileSystem} {p : Path} (h : ChangedFor fs mid p) {loc : Location}
    (hplace : mid.filePlace p = .ok loc) (hfile : ∀ d, mid.nodeAt? loc ≠ some (.device d))
    (content : Bytes) : ChangedFor fs (mid.place loc (.file content)) p := by
  have hloc : loc = fs.placeOf p := by
    rw [filePlace_eq_placeOf hplace, h.grows.placeOf]
  have hroot := filePlace_ne_root hplace
  subst hloc
  refine ⟨h.workingDirectory, h.workingRemoved, ?_, ?_, ?_⟩
  · intro other node hne hnode
    rw [nodeAt?_place_of_ne mid _ hne]
    exact h.elsewhere other node hne hnode
  · -- neither a directory nor a device stood there, and what stood there was not changed before
    intro node hnode
    right
    rw [nodeAt?_place mid _ hroot]
    obtain ⟨-, -, hdir⟩ := filePlace_of_eq_ok hplace
    rcases h.destination node hnode with hmid | ⟨old, -, rfl, -⟩
    · cases node with
      | file old => exact ⟨old, content, rfl, rfl⟩
      | directory => exact absurd hmid hdir
      | device d => exact absurd hmid (hfile d)
    · exact ⟨old, content, rfl, rfl⟩
  · intro other node hnone hnode
    by_cases hother : other = fs.placeOf p
    · rw [hother, nodeAt?_place mid _ hroot] at hnode
      exact .inr ⟨⟨content, (Option.some.inj hnode).symm⟩, hother⟩
    · rw [nodeAt?_place_of_ne mid _ hother] at hnode
      exact h.added other node hnone hnode

/-- Whatever becomes of an order, it changes what its file needs, and no file if it fails before
the writing. -/
theorem MayPerform.changedFor {order : WriteOrder} {answer : Except WriteFailure Unit}
    (h : MayPerform fs order fs' answer) (habove : ∀ q ∈ order.directories, q.Above order.path) :
    ChangedFor fs fs' order.path ∧ (BeforeWriting answer → SameFiles fs fs') := by
  obtain ⟨mid, hmid, hleaves⟩ := h.leaves
  have hdirectories := hmid.changedFor habove
  cases hleaves with
  | refused hanswer => exact ⟨hdirectories, fun _ => hmid.sameFiles⟩
  | device loc d hplace hnode => exact ⟨hdirectories, fun _ => hmid.sameFiles⟩
  | written loc hplace hfile => exact ⟨hdirectories.place hplace hfile _, nofun⟩
  | brokenOff loc left cause hplace hfile => exact ⟨hdirectories.place hplace hfile _, nofun⟩

end FileSystem

/-! ## Exports

An export is one order at most, to the destination that its answer stands for. Which outcome is
reported tells how far the order came, so what is known of orders can be said of outcomes. -/

namespace Exporter

/-- Nothing is exported that is not in the history. -/
theorem selected_subset (entries : List Entry) (numbers : List Int) :
    selected entries numbers ⊆ entries := by
  intro e he
  obtain ⟨k, -, rfl⟩ := List.mem_map.1 he
  exact List.get_mem entries _

end Exporter

/-- What an export is asked for. -/
inductive ExportRequest
  | all (destination : Text)
  | selected (destination : Text) (numbers : List Int)

namespace ExportRequest

/-- The answer to the question for a destination. -/
def destination : ExportRequest → Text
  | all destination => destination
  | selected destination _ => destination

/-- The question that is open when the destination is given. -/
def question : ExportRequest → Question
  | all _ => .destination
  | selected _ numbers => .selectedDestination numbers

/-- The entries that are asked for. -/
def chosen (h : History) : ExportRequest → List Entry
  | all _ => h.entries
  | selected _ numbers => Exporter.selected h.entries numbers

theorem chosen_subset (request : ExportRequest) (h : History) : request.chosen h ⊆ h.entries := by
  cases request with
  | all _ => exact List.Subset.refl _
  | selected _ numbers => exact Exporter.selected_subset h.entries numbers

end ExportRequest

/-- The outcomes for which no file was to be written or none could be. -/
inductive Unwritten : Except ExportError ExportOutcome → Prop
  | directoryNotMade (path : Path) : Unwritten (.error (.directoryNotMade path))
  | fileNotCreated (path : Path) : Unwritten (.error (.fileNotCreated path))
  | missingDestination : Unwritten (.error .missingDestination)
  | historyLocation (path : Path) : Unwritten (.ok (.historyLocation path))
  | nothingSelected : Unwritten (.ok .nothingSelected)

namespace Exporter

variable {x : Exporter} {workingPath? : Option Path} {h : History} {request : ExportRequest}
  {fs fs' : FileSystem} {exported : Exported}

/-- The job for a request. -/
def carryOut (x : Exporter) (workingPath? : Option Path) (h : History) :
    ExportRequest → Job Exported
  | .all destination => x.exportAll workingPath? h destination
  | .selected destination numbers => x.exportSelected workingPath? h destination numbers

/-- The directories that are made for an export are the one that holds the file and those above. -/
theorem exists_parent?_of_mem_directories {path q : Path} {entries : List Entry}
    (hq : q ∈ (order path entries).directories) :
    ∃ directory, Path.parent? path = some directory ∧ q ∈ Path.upward directory := by
  unfold WriteOrder.directories at hq
  split at hq
  · cases hq
  · next directory hdirectory => exact ⟨directory, (Option.filter_eq_some_iff.1 hdirectory).1, hq⟩

/-- They are all above the file. -/
theorem above_of_mem_directories {path q : Path} {entries : List Entry}
    (hq : q ∈ (order path entries).directories) : q.Above path := by
  obtain ⟨directory, hparent, hupward⟩ := exists_parent?_of_mem_directories hq
  exact Path.above_of_mem_upward hparent hupward

/-- An export writes nothing, or the entries that are asked for to its destination. -/
theorem export_cases (hrun : fs.MayRun (x.carryOut workingPath? h request) fs' exported) :
    fs' = fs ∧ Unwritten exported.outcome
      ∨ ∃ answer,
        fs.MayPerform (order (x.destination request.destination) (request.chosen h)) fs' answer
        ∧ exported.outcome = (finished workingPath? (x.destination request.destination)
            (request.chosen h).length answer).outcome := by
  -- each rejection comes before the order, so the order is the last thing that is left
  cases request with
  | all destination =>
    rw [carryOut, exportAll] at hrun
    split at hrun
    · cases hrun
      exact .inl ⟨rfl, .historyLocation _⟩
    · obtain _ | hperform := hrun
      exact .inr ⟨_, hperform, rfl⟩
  | selected destination numbers =>
    rw [carryOut, exportSelected] at hrun
    split at hrun
    · cases hrun
      exact .inl ⟨rfl, .missingDestination⟩
    · dsimp only at hrun
      split at hrun
      · cases hrun
        exact .inl ⟨rfl, .nothingSelected⟩
      · obtain _ | hperform := hrun
        exact .inr ⟨_, hperform, rfl⟩

/-- The outcome tells how far the order got. -/
theorem beforeWriting_of_unwritten {path : Path} {count : Nat}
    {answer : Except WriteFailure Unit}
    (hunwritten : Unwritten (finished workingPath? path count answer).outcome) :
    FileSystem.BeforeWriting answer := by
  rcases answer with ⟨cause | cause | _⟩ | _
  · exact .directory cause
  · exact .create cause
  · cases hunwritten
  · cases hunwritten

/-- An export changes what its file needs, and no file if none was to be written. -/
theorem changedFor (hrun : fs.MayRun (x.carryOut workingPath? h request) fs' exported) :
    fs.ChangedFor fs' (x.destination request.destination)
      ∧ (Unwritten exported.outcome → fs.SameFiles fs') := by
  rcases export_cases hrun with ⟨rfl, -⟩ | ⟨answer, hperform, houtcome⟩
  · exact ⟨.refl _ _, fun _ _ _ => Iff.rfl⟩
  · obtain ⟨hchanged, hsame⟩ := hperform.changedFor fun q => above_of_mem_directories
    refine ⟨hchanged, fun hunwritten => ?_⟩
    rw [houtcome] at hunwritten
    exact hsame (beforeWriting_of_unwritten hunwritten)

/-- Once it is written, a device took the bytes, or the file at the destination holds them. -/
theorem nodeAt?_of_written (hrun : fs.MayRun (x.carryOut workingPath? h request) fs' exported)
    {path : Path} {count : Nat} (hwritten : exported.outcome = .ok (.written path count)) :
    (∃ d, fs'.nodeAt? (fs.placeOf (x.destination request.destination)) = some (.device d))
      ∨ fs'.nodeAt? (fs.placeOf (x.destination request.destination))
        = some (.file (content (request.chosen h))) := by
  rcases export_cases hrun with ⟨-, hunwritten⟩ | ⟨answer, hperform, houtcome⟩
  · rw [hwritten] at hunwritten
    cases hunwritten
  · -- a refusal of any kind is reported as something other than written
    have hanswer : answer = .ok () := by
      rw [hwritten] at houtcome
      rcases answer with ⟨_ | _ | _⟩ | _
      · cases houtcome
      · cases houtcome
      · cases houtcome
      · rfl
    subst hanswer
    -- directories may be made first, but they do not move the place of the file
    obtain ⟨mid, hmid, hleaves⟩ := hperform.leaves
    rw [← hmid.grows.placeOf]
    cases hleaves with
    | refused hanswer => cases hanswer
    | device loc d hplace hnode => exact .inl ⟨d, FileSystem.filePlace_eq_placeOf hplace ▸ hnode⟩
    | written loc hplace hfile =>
      have hloc : loc = mid.placeOf (x.destination request.destination) :=
        FileSystem.filePlace_eq_placeOf hplace
      rw [← hloc]
      exact .inr (FileSystem.nodeAt?_place mid _ (FileSystem.filePlace_ne_root hplace))

end Exporter

/-- Whatever becomes of an export, the entries in memory stay, nothing is deleted, and no file but
the one at its destination is changed. What is new is that file, or a directory above it that was
missing; where the path does not go back, it is on the way to the destination. Once it is written,
the file holds the entries that were asked for, and no file is created or changed unless the writing
began. -/
theorem exporting_changes_only_destination {s : Session} {request : ExportRequest}
    {fs fs' : FileSystem} {exported : Exported}
    (h : fs.MayRun (s.exporter.carryOut fs.workingPath? s.history request) fs' exported) :
    let destination := s.exporter.destination request.destination
    fs.MayRun ((s.asking request.question).answer fs.workingPath? request.destination) fs'
        (s.afterExport exported)
      ∧ (s.afterExport exported).session.history = s.history
      ∧ fs.ChangedFor fs' destination
      ∧ (['.', '.'] ∉ destination.names → ∀ loc, fs.nodeAt? loc = none →
        (fs'.nodeAt? loc).isSome = true → loc <+: fs.placeOf destination)
      ∧ (∀ path count, exported.outcome = .ok (.written path count) →
        (∃ d, fs'.nodeAt? (fs.placeOf destination) = some (.device d))
          ∨ fs'.nodeAt? (fs.placeOf destination)
            = some (.file (Exporter.content (request.chosen s.history))))
      ∧ (Unwritten exported.outcome → fs.SameFiles fs') := by
  intro destination
  obtain ⟨hchanged, hsame⟩ := Exporter.changedFor h
  refine ⟨?_, rfl, hchanged, fun hdots _ => hchanged.prefix_of_added hdots,
    fun _ _ => Exporter.nodeAt?_of_written h, hsame⟩
  cases request with
  | all destination => exact h.map (s.asking _).afterExport
  | selected destination numbers => exact h.map (s.asking _).afterExport

/-- A working directory with two files. -/
def FileSystem.twoFiles : FileSystem :=
  ⟨[(["w".toList], .directory), (["w".toList, "a.txt".toList], .file [49]),
    (["w".toList, "b.txt".toList], .file [50])], ["w".toList], false⟩

/-- One file is replaced, although its path goes through a directory that has to be made and out of
it again; a path below the other file leaves both as they were. -/
theorem exporting_beside_and_below_files :
    let fs := FileSystem.twoFiles
    let s : Session := .start {} ⟨"h.log".toList, [⟨"1+1".toList, ['2']⟩]⟩
    let exported (destination : Text) :=
      fs.run (s.exporter.carryOut fs.workingPath? s.history (.all destination))
    (exported "new/../b.txt".toList).1.nodeAt? ["w".toList, "new".toList] = some .directory
      ∧ (exported "new/../b.txt".toList).1.nodeAt? ["w".toList, "b.txt".toList]
        = some (.file (Utf8.encode "1+1 -> 2\n".toList))
      ∧ (exported "new/../b.txt".toList).1.nodeAt? ["w".toList, "a.txt".toList] = some (.file [49])
      ∧ fs.SameFiles (exported "a.txt/b.txt".toList).1 := by
  intro fs s exported
  have hwritten := exporting_changes_only_destination (s := s) (fs.mayRun_run
    (s.exporter.carryOut fs.workingPath? s.history (.all "new/../b.txt".toList)))
  have hrefused := exporting_changes_only_destination (s := s) (fs.mayRun_run
    (s.exporter.carryOut fs.workingPath? s.history (.all "a.txt/b.txt".toList)))
  -- the place of the first destination is that of `b.txt`, in spite of the detour
  have hbeside : ["w".toList, "a.txt".toList] ≠ fs.placeOf
      (s.exporter.destination (ExportRequest.all "new/../b.txt".toList).destination) := by
    decide +kernel
  have houtcome : (exported "a.txt/b.txt".toList).2.outcome
      = .error (.directoryNotMade "a.txt".toList) := by
    decide +kernel
  refine ⟨by decide +kernel, by decide +kernel, ?_, hrefused.2.2.2.2.2 ?_⟩
  · exact hwritten.2.2.1.elsewhere _ _ hbeside (by decide +kernel)
  · exact houtcome ▸ .directoryNotMade _

end Reckon
