import Reckon.Proofs.AbsolutePaths
import Reckon.Proofs.ChosenEntries

/-!
# Exporting to the reported path

The path that a destination stands for is a destination which stands for itself
(`Exporter.destination_destination`): it is absolute or has a known ending, and no earlier rule
takes it for anything else. The path that an export reports is absolute and leads to the file that
was written, so the same export to that path finds every directory and the same file there, and
writes what stands in it (`exporting_to_reported_path`). The reported path can be too long for the
system, although the path that was written to was not (`reported_path_too_long`).
-/

namespace Reckon

namespace Exporter

variable {x : Exporter} {t : Text} {p : Path}

/-! ## Destinations

The rules for destinations are tried in order, and the default name has a known ending. So what
comes out of any rule is caught by the first one or by the one for known endings, which change
nothing. -/

theorem hasFileEnding_append (s : Text) (h : hasFileEnding t = true) :
    hasFileEnding (s ++ t) = true := by
  obtain ⟨ending, hending, hsuffix⟩ := List.any_eq_true.1 h
  refine List.any_eq_true.2 ⟨ending, hending, ?_⟩
  rw [List.isSuffixOf_iff_suffix] at hsuffix ⊢
  rw [List.map_append]
  exact hsuffix.trans (List.suffix_append _ _)

/-- A known ending ends in a letter. -/
theorem getLast?_of_hasFileEnding (h : hasFileEnding t = true) :
    ¬(t.getLast? = some '/' ∨ t.getLast? = some '\x5c') := by
  obtain ⟨ending, hending, hsuffix⟩ := List.any_eq_true.1 h
  rw [List.isSuffixOf_iff_suffix] at hsuffix
  obtain ⟨front, hfront⟩ := hsuffix
  have hlast : ∀ c, t.getLast? = some c → (t.map Char.toLower).getLast? = some c.toLower := by
    intro c hc
    rw [List.getLast?_map, hc, Option.map_some]
  -- there are few endings, so the last characters can be looked at
  have hletters : ∀ ending ∈ fileEndings, ending ≠ []
      ∧ ending.getLast? ≠ some '/' ∧ ending.getLast? ≠ some '\x5c' := by
    decide
  obtain ⟨hne, hslash, hbackslash⟩ := hletters ending hending
  rw [← List.getLast?_append_of_ne_nil front hne, hfront] at hslash hbackslash
  rintro (h | h)
  · exact hslash (hlast _ h)
  · exact hbackslash (hlast _ h)

theorem destination_of_isAbsolute (h : p.isAbsolute = true) : x.destination p = p := by
  rw [destination, if_pos h]

/-- The path of a file with a known ending is kept as it is. -/
theorem destination_of_hasFileEnding (h : hasFileEnding p = true) : x.destination p = p := by
  by_cases habsolute : p.isAbsolute = true
  · exact destination_of_isAbsolute habsolute
  · rw [destination, if_neg habsolute, if_neg (getLast?_of_hasFileEnding h), if_pos h]

/-- A path that got the default name ends in it, or is that name where it is absolute. -/
theorem join_fileName (hname : hasFileEnding x.fileName = true) (input : Text) :
    (Path.join input x.fileName).isAbsolute = true
      ∨ hasFileEnding (Path.join input x.fileName) = true := by
  cases habsolute : Path.isAbsolute x.fileName with
  | true =>
    rw [Path.join, if_pos habsolute]
    exact .inl habsolute
  | false =>
    obtain ⟨gap, -, hjoin⟩ := Path.join_eq_append input habsolute
    rw [hjoin]
    exact .inr (hasFileEnding_append _ hname)

/-- Whatever rule a destination falls under, the path is absolute or that of a file with a known
ending. -/
theorem destination_cases (hname : hasFileEnding x.fileName = true) (input : Text) :
    (x.destination input).isAbsolute = true ∨ hasFileEnding (x.destination input) = true := by
  rw [destination]
  split
  · next habsolute => exact .inl habsolute
  · split
    · exact join_fileName hname input
    · split
      · next hending => exact .inr hending
      · exact join_fileName hname input

/-- A path that was made of a destination is not changed again. -/
theorem destination_destination (hname : hasFileEnding x.fileName = true) (input : Text) :
    x.destination (x.destination input) = x.destination input := by
  rcases destination_cases hname input with habsolute | hending
  · exact destination_of_isAbsolute habsolute
  · exact destination_of_hasFileEnding hending

end Exporter

namespace FileSystem

variable {fs : FileSystem} {p : Path} {dir loc : Location} {last : Text} {content : Bytes}
  {order : WriteOrder}

/-! ## Writing again

After an order that succeeded the directories are there and the file holds its content. The same
order again finds just that (`Holds`), and puts the same node where it stands. -/

/-- The same working directory, and the same node at every place. -/
structure SameNodes (fs fs' : FileSystem) : Prop where
  workingDirectory : fs'.workingDirectory = fs.workingDirectory
  workingRemoved : fs'.workingRemoved = fs.workingRemoved
  nodeAt? : ∀ loc, fs'.nodeAt? loc = fs.nodeAt? loc

theorem SameNodes.refl (fs : FileSystem) : SameNodes fs fs :=
  ⟨rfl, rfl, fun _ => rfl⟩

/-- To put a node where it stands changes nothing. -/
theorem sameNodes_place {node : Node} (hroot : loc ≠ []) (h : fs.nodeAt? loc = some node) :
    SameNodes fs (fs.place loc node) where
  workingDirectory := rfl
  workingRemoved := rfl
  nodeAt? other := by
    by_cases hother : other = loc
    · rw [hother, nodeAt?_place fs node hroot, h]
    · exact nodeAt?_place_of_ne fs node hother

/-- What was to be written stands at the place, or a device there takes it. -/
def Holds (fs : FileSystem) (loc : Location) (content : Bytes) : Prop :=
  fs.nodeAt? loc = some (.file content)
    ∨ ∃ d, fs.nodeAt? loc = some (.device d) ∧ (d = .full → content = [])

/-- Writing what is there already succeeds and leaves everything as it was. -/
theorem writeFile_of_holds (hplace : fs.filePlace p = .ok loc) (h : fs.Holds loc content) :
    (fs.writeFile p content).2 = .ok () ∧ SameNodes fs (fs.writeFile p content).1 := by
  rw [writeFile, hplace]
  dsimp only
  rcases h with hfile | ⟨d, hdevice, htakes⟩
  · rw [hfile]
    exact ⟨rfl, sameNodes_place (filePlace_ne_root hplace) hfile⟩
  · rw [hdevice]
    cases d with
    | full => exact ⟨if_pos (htakes rfl), .refl fs⟩
    | null => exact ⟨rfl, .refl fs⟩

/-- An order that succeeds leaves its content at the place of its path. -/
theorem holds_of_perform (hok : (fs.perform order).2 = .ok ()) :
    ∃ dir last, (fs.perform order).1.NewPlace order.path dir last
      ∧ order.path.endsInSlash = false
      ∧ (fs.perform order).1.Holds (dir ++ [last]) order.content := by
  obtain ⟨mid, -, hperform⟩ := perform_of_ok hok
  rw [hperform] at hok ⊢
  rcases mid.writeFile_cases order.path order.content with
    ⟨cause, hw⟩ | ⟨loc, d, hplace, hdevice, hw⟩ | ⟨loc, hplace, -, hw⟩
  · rw [hw] at hok
    cases hok
  · obtain ⟨⟨dir, last, hnew, rfl⟩, hslash, -⟩ := filePlace_of_eq_ok hplace
    rw [hw]
    refine ⟨dir, last, hnew, hslash, .inr ⟨d, hdevice, ?_⟩⟩
    -- a full device would have refused any byte
    rintro rfl
    rw [writeFile, hplace] at hok
    dsimp only at hok
    rw [hdevice] at hok
    by_contra hcontent
    rw [if_neg hcontent] at hok
    cases hok
  · obtain ⟨⟨dir, last, hnew, rfl⟩, hslash, -⟩ := filePlace_of_eq_ok hplace
    rw [hw]
    exact ⟨dir, last, hnew.grows (.place_filePlace hplace _), hslash,
      .inl (nodeAt?_place mid _ (filePlace_ne_root hplace))⟩

/-- An order whose content is at its place already changes nothing. -/
theorem perform_of_holds (hnew : fs.NewPlace order.path dir last)
    (habsolute : order.path.isAbsolute = true) (hslash : order.path.endsInSlash = false)
    (hpaths : ∀ q ∈ order.directories, q.Above order.path ∧ q <+: order.path)
    (h : fs.Holds (dir ++ [last]) order.content) :
    (fs.perform order).2 = .ok () ∧ SameNodes fs (fs.perform order).1 := by
  have hfile : fs.nodeAt? (dir ++ [last]) ≠ some .directory := by
    rcases h with hnode | ⟨d, hnode, -⟩ <;> rw [hnode] <;> nofun
  rw [perform_eq, hnew.makeMissing habsolute hpaths]
  exact writeFile_of_holds (hnew.filePlace_eq hslash hfile) h

end FileSystem

/-! ## Requests that write

A report of a written file comes only from a request with a destination and something to write, and
the order of such a request depends on nothing but the path and the entries. -/

namespace ExportRequest

variable {h : History} {request : ExportRequest}

/-- The same request with another destination. -/
def sentTo (destination : Text) : ExportRequest → ExportRequest
  | all _ => .all destination
  | selected _ numbers => .selected destination numbers

/-- A request for which there is a destination and something to write to it. -/
def Writes (h : History) (request : ExportRequest) : Prop :=
  request.destination.isAllBlank = false
    ∧ ∀ destination numbers, request = .selected destination numbers → request.chosen h ≠ []

@[simp] theorem destination_sentTo (destination : Text) :
    (request.sentTo destination).destination = destination := by
  cases request <;> rfl

@[simp] theorem chosen_sentTo (destination : Text) :
    (request.sentTo destination).chosen h = request.chosen h := by
  cases request <;> rfl

/-- An absolute path is no blank destination. -/
theorem Writes.sentTo {path : Path} (hwrites : request.Writes h)
    (habsolute : path.isAbsolute = true) : (request.sentTo path).Writes h := by
  refine ⟨?_, ?_⟩
  · rw [destination_sentTo]
    -- the slash in front is no blank
    cases path with
    | nil => cases habsolute
    | cons c rest =>
      have hslash : c = '/' := by simpa [Path.isAbsolute] using habsolute
      subst hslash
      rfl
  · rintro destination numbers heq
    rw [chosen_sentTo]
    cases request with
    | all _ => cases heq
    | selected before _ => exact hwrites.2 before _ rfl

end ExportRequest

namespace Exporter

variable {x : Exporter} {workingPath? : Option Path} {h : History} {request : ExportRequest}
  {fs : FileSystem} {path : Path} {count : Nat}

/-- The directories of an export stand at the front of its path. -/
theorem prefix_of_mem_directories {q : Path} {entries : List Entry}
    (hq : q ∈ (order path entries).directories) : q <+: path := by
  obtain ⟨directory, hparent, hupward⟩ := exists_parent?_of_mem_directories hq
  exact (Path.prefix_of_mem_upward hupward).trans (Path.prefix_of_parent? hparent)

/-- The job of a request that writes is one order. -/
theorem map_outcome_carryOut (hwrites : request.Writes h) :
    (x.carryOut workingPath? h request).map Exported.outcome
      = .write (order (x.destination request.destination) (request.chosen h)) fun answer =>
        (finished workingPath? (x.destination request.destination)
          (request.chosen h).length answer).outcome := by
  obtain ⟨hdestination, hchosen⟩ := hwrites
  cases request with
  | all destination =>
    have hinput : ¬ destination.isAllBlank = true := ne_true_of_eq_false hdestination
    rw [carryOut, exportAll, if_neg hinput]
    rfl
  | selected destination numbers =>
    have hinput : ¬ destination.isAllBlank = true := ne_true_of_eq_false hdestination
    have hsome : selected h.entries numbers ≠ [] := hchosen _ _ rfl
    rw [carryOut, map_outcome_exportSelected, if_neg hinput, if_neg hsome]
    rfl

/-- Such a request is carried out as its order is performed. -/
theorem run_of_writes (x : Exporter) (workingPath? : Option Path) (fs : FileSystem)
    (hwrites : request.Writes h) :
    (fs.run (x.carryOut workingPath? h request)).1
        = (fs.perform (order (x.destination request.destination) (request.chosen h))).1
      ∧ (fs.run (x.carryOut workingPath? h request)).2.outcome
        = (finished workingPath? (x.destination request.destination) (request.chosen h).length
          (fs.perform
            (order (x.destination request.destination) (request.chosen h))).2).outcome := by
  have hrun := fs.run_map Exported.outcome (x.carryOut workingPath? h request)
  rw [map_outcome_carryOut hwrites, FileSystem.run_write] at hrun
  exact ⟨(congrArg Prod.fst hrun).symm, (congrArg Prod.snd hrun).symm⟩

/-- Nothing else is reported as written. -/
theorem writes_of_written
    (hwritten : (fs.run (x.carryOut workingPath? h request)).2.outcome
      = .ok (.written path count)) : request.Writes h := by
  -- a rejected request is not reported as written, so each `split` leaves the case that goes on
  cases request with
  | all destination =>
    rw [carryOut, exportAll] at hwritten
    split at hwritten
    · cases hwritten
    · next hdestination =>
      refine ⟨eq_false_of_ne_true hdestination, fun _ _ heq => ?_⟩
      cases heq
  | selected destination numbers =>
    rw [carryOut, exportSelected] at hwritten
    split at hwritten
    · cases hwritten
    · next hdestination =>
      dsimp only at hwritten
      split at hwritten
      · cases hwritten
      · next hchosen => exact ⟨eq_false_of_ne_true hdestination, fun _ _ _ => hchosen⟩

theorem outcome_finished_ok (workingPath? : Option Path) (target : Path) (n : Nat) :
    (finished workingPath? target n (.ok ())).outcome
      = .ok (.written (Path.absoluteFrom workingPath? target) n) :=
  rfl

/-- An export is reported as written only if its order succeeded. -/
theorem of_outcome_finished {answer : Except WriteFailure Unit} {target : Path} {n : Nat}
    (h : (finished workingPath? target n answer).outcome = .ok (.written path count)) :
    answer = .ok () ∧ path = Path.absoluteFrom workingPath? target ∧ count = n := by
  rcases answer with ⟨_ | _ | _⟩ | _
  · cases h
  · cases h
  · cases h
  · cases h
    exact ⟨rfl, rfl, rfl⟩

open FileSystem in
/-- The order that was carried out for a destination changes nothing when it is carried out for the
absolute form of its path. -/
theorem perform_order_again {target : Path} {entries : List Entry}
    (hhere : fs.WorkingDirectoryThere) (hok : (fs.perform (order target entries)).2 = .ok ())
    (hshort : byteLength (Path.absoluteFrom fs.workingPath? target) < pathLimit) :
    let fs' := (fs.perform (order target entries)).1
    let again := order (Path.absoluteFrom fs.workingPath? target) entries
    fs'.placeOf again.path = fs.placeOf target ∧ fs'.Holds (fs.placeOf target) again.content
      ∧ (fs'.perform again).2 = .ok () ∧ SameNodes fs' (fs'.perform again).1 := by
  intro fs' again
  have hgrows : Grows fs fs' := grows_perform fs _
  have hpath : fs'.workingPath? = fs.workingPath? := by
    rw [workingPath?, workingPath?, hgrows.workingDirectory, hgrows.workingRemoved]
  obtain ⟨dir, last, hnew, hslash, hholds⟩ := holds_of_perform hok
  -- both paths end in the same name, behind the same directory
  have hplace : fs.placeOf target = dir ++ [last] :=
    (hgrows.placeOf target).symm.trans hnew.placeOf_eq
  have hnewAgain : fs'.NewPlace again.path dir last := by
    have habsolute := hnew.absolute (hhere.grows hgrows)
    rw [hpath] at habsolute
    exact habsolute hshort
  have habsolute : again.path.isAbsolute = true := isAbsolute_absoluteFrom hhere.kept target
  -- the absolute form ends as the path does
  have hslashAgain : again.path.endsInSlash = false := by
    have hne : target ≠ [] := (refusal?_eq_none_iff.1 hnew.accepted).2.1
    show (Path.absoluteFrom fs.workingPath? target).endsInSlash = false
    rw [workingPath?_of_kept hhere.kept, Path.absoluteFrom, Path.endsInSlash_join _ hne]
    exact hslash
  rw [hplace]
  exact ⟨hnewAgain.placeOf_eq, hholds, perform_of_holds hnewAgain habsolute hslashAgain
    (fun q hq => ⟨above_of_mem_directories hq, prefix_of_mem_directories hq⟩) hholds⟩

end Exporter

/-- What comes of a request, and the file system after it. -/
def Exporter.performed (x : Exporter) (h : History) (fs : FileSystem) (request : ExportRequest) :
    FileSystem × Exported :=
  fs.run (x.carryOut fs.workingPath? h request)

/-- Where the name of the file in a directory has a known ending, the path of every destination
stands for itself, and is absolute or has a known ending. Where the working directory is there, the
path that an export reports is absolute, leads to the file that was written, and holds what was to
be written. Exporting the same entries to that path reports it again and leaves every node as it
was, unless the path is too long for the system. -/
theorem exporting_to_reported_path (x : Exporter) :
    (Exporter.hasFileEnding x.fileName = true → ∀ input : Text,
      x.destination (x.destination input) = x.destination input
        ∧ ((x.destination input).isAbsolute = true
          ∨ Exporter.hasFileEnding (x.destination input) = true))
    ∧ ∀ (h : History) (fs : FileSystem) (request : ExportRequest) (path : Path) (count : Nat),
      fs.WorkingDirectoryThere →
      (x.performed h fs request).2.outcome = .ok (.written path count) →
      FileSystem.byteLength path < FileSystem.pathLimit →
      path.isAbsolute = true
        ∧ fs.placeOf path = fs.placeOf (x.destination request.destination)
        ∧ (x.performed h fs request).1.Holds (fs.placeOf path)
          (Exporter.content (request.chosen h))
        ∧ (x.performed h (x.performed h fs request).1 (request.sentTo path)).2.outcome
          = .ok (.written path count)
        ∧ FileSystem.SameNodes (x.performed h fs request).1
          (x.performed h (x.performed h fs request).1 (request.sentTo path)).1 := by
  refine ⟨fun hname input => ⟨Exporter.destination_destination hname input,
    Exporter.destination_cases hname input⟩, ?_⟩
  intro h fs request path count hhere hwritten hshort
  have hwrites := Exporter.writes_of_written hwritten
  obtain ⟨hfirst, houtcome⟩ := Exporter.run_of_writes x fs.workingPath? fs hwrites
  obtain ⟨hok, rfl, rfl⟩ := Exporter.of_outcome_finished (houtcome.symm.trans hwritten)
  have habsolute :=
    FileSystem.isAbsolute_absoluteFrom hhere.kept (x.destination request.destination)
  obtain ⟨hplace, hholds, hokAgain, hsame⟩ := Exporter.perform_order_again hhere hok hshort
  have hfs' : (x.performed h fs request).1 = _ := hfirst
  -- the second request writes too, and its destination stands for itself
  obtain ⟨hsecond, houtcomeAgain⟩ := Exporter.run_of_writes x
    (x.performed h fs request).1.workingPath? (x.performed h fs request).1
    (hwrites.sentTo habsolute)
  rw [ExportRequest.destination_sentTo, ExportRequest.chosen_sentTo,
    Exporter.destination_of_isAbsolute habsolute] at hsecond houtcomeAgain
  rw [← hfs'] at hplace hholds hokAgain hsame
  have hgrows : FileSystem.Grows fs (x.performed h fs request).1 := by
    rw [hfs']
    exact FileSystem.grows_perform fs _
  rw [hgrows.placeOf] at hplace
  refine ⟨habsolute, hplace, hplace ▸ hholds, houtcomeAgain.trans ?_, ?_⟩
  · rw [hokAgain, Exporter.outcome_finished_ok, Path.absoluteFrom_of_isAbsolute _ habsolute]
  · rw [← hsecond] at hsame
    exact hsame

/-- An export into a directory that has to be made, and the same export to the path it reports. -/
theorem exporting_to_reported_path_of_directory :
    let x : Exporter := ⟨"log.LOG".toList⟩
    let h : History := ⟨"h.log".toList, [⟨"1+1".toList, ['2']⟩]⟩
    let fs : FileSystem := ⟨[(["w".toList], .directory)], ["w".toList], false⟩
    let request : ExportRequest := .all "reports/new".toList
    let path := "/w/reports/new/log.LOG".toList
    x.destination (x.destination request.destination) = x.destination request.destination
      ∧ (x.performed h fs request).2.outcome = .ok (.written path 1)
      ∧ (x.performed h (x.performed h fs request).1 (request.sentTo path)).2.outcome
        = .ok (.written path 1)
      ∧ FileSystem.SameNodes (x.performed h fs request).1
        (x.performed h (x.performed h fs request).1 (request.sentTo path)).1 := by
  intro x h fs request path
  have hhere : fs.WorkingDirectoryThere := ⟨rfl, by decide, rfl⟩
  have hwritten : (x.performed h fs request).2.outcome = .ok (.written path 1) := by
    decide +kernel
  obtain ⟨hstable, hrewritten⟩ := exporting_to_reported_path x
  obtain ⟨-, -, -, hagain⟩ := hrewritten h fs request path 1 hhere hwritten (by decide +kernel)
  exact ⟨(hstable (by decide) request.destination).1, hwritten, hagain⟩

/-- A path of 4093 bytes that goes into a directory and out of it again. -/
def FileSystem.longPath : Path :=
  (List.replicate 15 (List.replicate 63 '𝄞' ++ "/../".toList)).flatten
    ++ List.replicate 62 '𝄞' ++ "x.txt".toList

/-- The path that is reported has three bytes more, and is refused. -/
theorem reported_path_too_long :
    let x : Exporter := ⟨"log.log".toList⟩
    let h : History := ⟨"history.log".toList, [⟨"1+1".toList, ['2']⟩]⟩
    let fs : FileSystem := ⟨[(["w".toList], .directory),
      (["w".toList, List.replicate 63 '𝄞'], .directory)], ["w".toList], false⟩
    let request : ExportRequest := .all FileSystem.longPath
    let path := "/w/".toList ++ FileSystem.longPath
    Exporter.hasFileEnding x.fileName = true ∧ fs.WorkingDirectoryThere
      ∧ (x.performed h fs request).2.outcome = .ok (.written path 1)
      ∧ (x.performed h (x.performed h fs request).1 (request.sentTo path)).2.outcome
        = .error (.fileNotCreated path) := by
  intro x h fs request path
  exact ⟨by decide, ⟨rfl, by decide, rfl⟩, by decide +kernel, by decide +kernel⟩

end Reckon
