import Reckon.Files.Job

/-!
# Where a path leads and what writing changes

A path can lead to one place only, which its text and the working directory decide
(`FileSystem.placeOf`); the walk along it gets there or fails. Writing never takes a node away and
never makes a file of a directory (`FileSystem.Grows`), so that a path which has led somewhere leads
there for as long as the program runs. An order changes at most the node at the place of its path
and makes directories where nothing was (`FileSystem.perform_cases`).
-/

namespace Reckon

/-- The place at which a spot is or was. -/
def Spot.location : Spot → Location
  | .present loc => loc
  | .removed loc => loc

/-- The directories that an order needs, nearest to its file first. -/
def WriteOrder.directories (order : WriteOrder) : List Path :=
  match order.directory? with
  | none => []
  | some directory => Path.upward directory

namespace FileSystem

variable {fs fs' : FileSystem}

/-! ## The place of a path

The text of a path says where it leads, if it leads anywhere: `placeOf` follows the names without
looking at any node. The walk looks at each of them and may fail, but it never ends elsewhere. -/

/-- One component further, by its text alone. -/
def locationAfter (loc : Location) (name : Text) : Location :=
  if name = ['.'] then loc else if name = ['.', '.'] then loc.dropLast else loc ++ [name]

/-- The place where relative paths begin is the working directory, also when it was removed. -/
def startLocation (fs : FileSystem) (p : Path) : Location :=
  if p.isAbsolute then [] else fs.workingDirectory

/-- The place that a path leads to, if it leads anywhere. -/
def placeOf (fs : FileSystem) (p : Path) : Location :=
  p.names.foldl locationAfter (fs.startLocation p)

/-- A walk begins where the text of the path says. -/
theorem location_startOf (fs : FileSystem) (p : Path) :
    (fs.startOf p).location = fs.startLocation p := by
  unfold startOf startLocation
  split
  · rfl
  · split <;> rfl

/-- The steps that can be taken from a place: none unless it is a directory, and then to itself,
upwards, or to something that is in it. -/
inductive Enters (fs : FileSystem) (loc : Location) : Text → Location → Prop
  | stay (hdir : fs.isDirectoryAt loc = true) : Enters fs loc ['.'] loc
  | up (hdir : fs.isDirectoryAt loc = true) : Enters fs loc ['.', '.'] loc.dropLast
  | down {name : Text} (hdir : fs.isDirectoryAt loc = true) (hdot : name ≠ ['.'])
      (hdots : name ≠ ['.', '.']) (hshort : ¬longestName < byteLength name)
      (hthere : (fs.nodeAt? (loc ++ [name])).isSome = true) : Enters fs loc name (loc ++ [name])

/-- A step from a place that is there is one of the three. -/
theorem enter_present_iff {loc : Location} {name : Text} {next : Spot} :
    fs.enter (.present loc) name = .ok next
      ↔ ∃ target, Enters fs loc name target ∧ next = .present target := by
  simp only [enter]
  constructor
  · -- the conditions of the step, one after the other; a place that is not there is not present
    intro h
    split at h
    · cases h
    · next hdir =>
      rw [Bool.not_eq_true', Bool.not_eq_false] at hdir
      split at h
      · next hdot => exact ⟨loc, hdot ▸ .stay hdir, (Except.ok.inj h).symm⟩
      · next hdot =>
        split at h
        · next hdots => exact ⟨_, hdots ▸ .up hdir, (Except.ok.inj h).symm⟩
        · next hdots =>
          split at h
          · cases h
          · next hshort =>
            split at h
            · next hthere =>
              exact ⟨_, .down hdir hdot hdots hshort hthere, (Except.ok.inj h).symm⟩
            · cases h
  · rintro ⟨target, henters, rfl⟩
    cases henters with
    | stay hdir => rw [hdir, Bool.not_true, if_neg Bool.false_ne_true, if_pos rfl]
    | up hdir =>
      rw [hdir, Bool.not_true, if_neg Bool.false_ne_true, if_neg (by decide), if_pos rfl]
    | down hdir hdot hdots hshort hthere =>
      rw [hdir, Bool.not_true, if_neg Bool.false_ne_true, if_neg hdot, if_neg hdots,
        if_neg hshort, if_pos hthere]

theorem Enters.isDirectoryAt {loc target : Location} {name : Text}
    (h : Enters fs loc name target) : fs.isDirectoryAt loc = true := by
  cases h with
  | stay hdir | up hdir | down hdir => exact hdir

/-- A step that can be taken leads where the name says. -/
theorem location_of_enter {spot next : Spot} {name : Text} (h : fs.enter spot name = .ok next) :
    next.location = locationAfter spot.location name := by
  -- from a removed directory only `.` and `..` lead anywhere
  cases spot with
  | removed loc =>
    simp only [enter] at h
    split at h
    · next hdot => rw [← Except.ok.inj h, locationAfter, if_pos hdot]
    · next hdot =>
      split at h
      · next hdots => rw [← Except.ok.inj h, locationAfter, if_neg hdot, if_pos hdots]; rfl
      · cases h
  | present loc =>
    obtain ⟨target, henters, rfl⟩ := enter_present_iff.1 h
    cases henters with
    | stay => rfl
    | up => rfl
    | down _ hdot hdots => rw [locationAfter, if_neg hdot, if_neg hdots]; rfl

theorem location_of_walk {names : List Text} {spot target : Spot}
    (h : fs.walk names spot = .ok target) :
    target.location = names.foldl locationAfter spot.location := by
  induction names generalizing spot with
  | nil => rw [← Except.ok.inj h, List.foldl_nil]
  | cons name rest ih =>
    rw [walk] at h
    cases henter : fs.enter spot name with
    | error cause => rw [henter] at h; cases h
    | ok next =>
      rw [henter] at h
      rw [List.foldl_cons, ← location_of_enter henter]
      exact ih h

/-- A walk can be taken in two parts. -/
theorem walk_append (fs : FileSystem) (names more : List Text) (spot : Spot) :
    fs.walk (names ++ more) spot = match fs.walk names spot with
      | .ok next => fs.walk more next
      | .error cause => .error cause := by
  induction names generalizing spot with
  | nil => rfl
  | cons name rest ih =>
    rw [List.cons_append, walk, walk]
    cases fs.enter spot name with
    | error cause => rfl
    | ok next => exact ih next

/-- A path that is located is located at its place. -/
theorem location_of_locate {p : Path} {spot : Spot} (h : fs.locate p = .ok spot) :
    spot.location = fs.placeOf p := by
  unfold locate at h
  split at h
  · cases h
  · split at h
    · cases h
    · next hwalk =>
      split at h
      · cases h
      · rw [← Except.ok.inj h, location_of_walk hwalk, location_startOf, placeOf]

/-- A place for a new node: a name in a directory that is there. -/
structure NewPlace (fs : FileSystem) (p : Path) (dir : Location) (last : Text) : Prop where
  accepted : refusal? p = none
  names : p.names = p.names.dropLast ++ [last]
  reached : fs.walk p.names.dropLast (fs.startOf p) = .ok (.present dir)
  isDirectory : fs.isDirectoryAt dir = true
  notDot : last ≠ ['.']
  notDots : last ≠ ['.', '.']
  short : ¬longestName < byteLength last

/-- What is found as a new place is a name in a directory that the walk reached. -/
theorem newPlace_of_eq_ok {p : Path} {occupied : SystemError} {loc : Location}
    (h : fs.newPlace p occupied = .ok loc) :
    ∃ dir last, fs.NewPlace p dir last ∧ loc = dir ++ [last] := by
  -- a check that fails ends in an error, so all of them were passed
  unfold newPlace at h
  split at h
  · cases h
  · next haccepted =>
    split at h
    · cases h
    · next last hlast =>
      obtain ⟨before, hnames⟩ := List.getLast?_eq_some_iff.1 hlast
      have hsplit : p.names = p.names.dropLast ++ [last] := by rw [hnames, List.dropLast_concat]
      split at h
      · cases h
      · split at h <;> cases h
      · next dir hwalk =>
        split at h
        · cases h
        · next hdir =>
          split at h
          · cases h
          · next hdots =>
            split at h
            · cases h
            · next hshort =>
              have hdir' : fs.isDirectoryAt dir = true := by simpa using hdir
              exact ⟨dir, last, ⟨haccepted, hsplit, hwalk, hdir', fun e => hdots (.inl e),
                fun e => hdots (.inr e), hshort⟩, (Except.ok.inj h).symm⟩

theorem NewPlace.placeOf_eq {p : Path} {dir : Location} {last : Text}
    (h : fs.NewPlace p dir last) : fs.placeOf p = dir ++ [last] := by
  have hdir : dir = p.names.dropLast.foldl locationAfter (fs.startLocation p) := by
    rw [← location_startOf]
    exact location_of_walk h.reached
  rw [placeOf, h.names, List.foldl_append, ← hdir, List.foldl_cons, List.foldl_nil, locationAfter,
    if_neg h.notDot, if_neg h.notDots]

/-- A file is written at the place of its path, which is no directory. -/
theorem filePlace_of_eq_ok {p : Path} {loc : Location} (h : fs.filePlace p = .ok loc) :
    (∃ dir last, fs.NewPlace p dir last ∧ loc = dir ++ [last]) ∧ p.endsInSlash = false
      ∧ fs.nodeAt? loc ≠ some .directory := by
  unfold filePlace at h
  split at h
  · cases h
  · next hnew =>
    split at h
    · cases h
    · next hfree =>
      simp only [Bool.or_eq_true, beq_iff_eq, not_or, Bool.not_eq_true] at hfree
      rw [← Except.ok.inj h]
      exact ⟨newPlace_of_eq_ok hnew, hfree⟩

theorem filePlace_ne_root {p : Path} {loc : Location} (h : fs.filePlace p = .ok loc) :
    loc ≠ [] := by
  obtain ⟨⟨dir, last, -, hloc⟩, -⟩ := filePlace_of_eq_ok h
  rw [hloc]
  exact List.concat_ne_nil last dir

/-- A file is written where its path leads. -/
theorem filePlace_eq_placeOf {p : Path} {loc : Location} (h : fs.filePlace p = .ok loc) :
    loc = fs.placeOf p := by
  obtain ⟨⟨dir, last, hnew, rfl⟩, -⟩ := filePlace_of_eq_ok h
  exact hnew.placeOf_eq.symm

/-! ## A file system that grows

Nothing that the program does takes a node away. Files may get other contents, but a directory
stays one, and so a walk which has succeeded goes the same way later. -/

/-- `fs'` is `fs` some writing later. -/
structure Grows (fs fs' : FileSystem) : Prop where
  workingDirectory : fs'.workingDirectory = fs.workingDirectory
  workingRemoved : fs'.workingRemoved = fs.workingRemoved
  directory : ∀ loc, fs.nodeAt? loc = some .directory → fs'.nodeAt? loc = some .directory
  present : ∀ loc, (fs.nodeAt? loc).isSome → (fs'.nodeAt? loc).isSome

namespace Grows

theorem refl (fs : FileSystem) : Grows fs fs :=
  ⟨rfl, rfl, fun _ h => h, fun _ h => h⟩

theorem trans {fs₁ fs₂ fs₃ : FileSystem} (h₁ : Grows fs₁ fs₂) (h₂ : Grows fs₂ fs₃) :
    Grows fs₁ fs₃ where
  workingDirectory := h₂.workingDirectory.trans h₁.workingDirectory
  workingRemoved := h₂.workingRemoved.trans h₁.workingRemoved
  directory loc h := h₂.directory loc (h₁.directory loc h)
  present loc h := h₂.present loc (h₁.present loc h)

/-- The place of a path depends on the working directory alone. -/
theorem placeOf (h : Grows fs fs') (p : Path) : fs'.placeOf p = fs.placeOf p := by
  rw [FileSystem.placeOf, FileSystem.placeOf, startLocation, startLocation, h.workingDirectory]

theorem startOf (h : Grows fs fs') (p : Path) : fs'.startOf p = fs.startOf p := by
  rw [FileSystem.startOf, FileSystem.startOf, h.workingDirectory, h.workingRemoved]

theorem isDirectoryAt (h : Grows fs fs') {loc : Location} (hd : fs.isDirectoryAt loc = true) :
    fs'.isDirectoryAt loc = true :=
  beq_iff_eq.2 (h.directory loc (beq_iff_eq.1 hd))

theorem isDirectorySpot (h : Grows fs fs') {spot : Spot} (hd : fs.isDirectorySpot spot = true) :
    fs'.isDirectorySpot spot = true := by
  cases spot with
  | present loc => exact h.isDirectoryAt hd
  | removed loc => rfl

/-- A step that could be taken can still be taken. -/
theorem enter (h : Grows fs fs') {spot next : Spot} {name : Text}
    (he : fs.enter spot name = .ok next) : fs'.enter spot name = .ok next := by
  cases spot with
  | removed loc => exact he
  | present loc =>
    -- what let the step pass lets it pass later
    obtain ⟨target, henters, rfl⟩ := enter_present_iff.1 he
    refine enter_present_iff.2 ⟨target, ?_, rfl⟩
    cases henters with
    | stay hdir => exact .stay (h.isDirectoryAt hdir)
    | up hdir => exact .up (h.isDirectoryAt hdir)
    | down hdir hdot hdots hshort hthere =>
      exact .down (h.isDirectoryAt hdir) hdot hdots hshort (h.present _ hthere)

theorem walk (h : Grows fs fs') {names : List Text} {spot target : Spot}
    (hw : fs.walk names spot = .ok target) : fs'.walk names spot = .ok target := by
  induction names generalizing spot with
  | nil => exact hw
  | cons name rest ih =>
    rw [FileSystem.walk] at hw ⊢
    cases henter : fs.enter spot name with
    | error cause => rw [henter] at hw; cases hw
    | ok next =>
      rw [henter] at hw
      rw [h.enter henter]
      exact ih hw

/-- A path that has led to a place still leads there. -/
theorem locate (h : Grows fs fs') {p : Path} {spot : Spot} (hl : fs.locate p = .ok spot) :
    fs'.locate p = .ok spot := by
  unfold FileSystem.locate at hl ⊢
  split at hl
  · cases hl
  · rw [h.startOf]
    split at hl
    · cases hl
    · next target hwalk =>
      rw [h.walk hwalk]
      dsimp only
      split at hl
      · cases hl
      · next hslash =>
        -- a final slash asked for a directory, and a directory is still one
        have hslash' : ¬(p.endsInSlash && !fs'.isDirectorySpot target) = true := by
          simp only [Bool.and_eq_true, Bool.not_eq_true', not_and, Bool.not_eq_false] at hslash ⊢
          exact fun hp => h.isDirectorySpot (hslash hp)
        rw [if_neg hslash', hl]

/-- A file that is put where no directory stands. -/
theorem place {loc : Location} (node : Node) (hroot : loc ≠ [])
    (hfile : fs.nodeAt? loc ≠ some .directory) : Grows fs (fs.place loc node) where
  workingDirectory := rfl
  workingRemoved := rfl
  directory other h := by
    have hne : other ≠ loc := fun e => hfile (e ▸ h)
    rw [nodeAt?_place_of_ne fs node hne, h]
  present other h := by
    -- the file itself may be new or may have been there
    by_cases he : other = loc
    · rw [he, nodeAt?_place fs node hroot]; rfl
    · rwa [nodeAt?_place_of_ne fs node he]

end Grows

/-! ## Making directories

The directories above a file are made one by one, and a fault in between leaves those that were made
before it. `makeMissing_induction` therefore carries an invariant to any outcome. -/

/-- Some places where nothing was are directories now, and nothing else is different. -/
structure DirectoriesAdded (fs fs' : FileSystem) : Prop where
  workingDirectory : fs'.workingDirectory = fs.workingDirectory
  workingRemoved : fs'.workingRemoved = fs.workingRemoved
  node : ∀ loc, fs'.nodeAt? loc = fs.nodeAt? loc
    ∨ fs.nodeAt? loc = none ∧ fs'.nodeAt? loc = some .directory

namespace DirectoriesAdded

theorem refl (fs : FileSystem) : DirectoriesAdded fs fs :=
  ⟨rfl, rfl, fun _ => .inl rfl⟩

theorem trans {fs₁ fs₂ fs₃ : FileSystem} (h₁ : DirectoriesAdded fs₁ fs₂)
    (h₂ : DirectoriesAdded fs₂ fs₃) : DirectoriesAdded fs₁ fs₃ where
  workingDirectory := h₂.workingDirectory.trans h₁.workingDirectory
  workingRemoved := h₂.workingRemoved.trans h₁.workingRemoved
  node loc := by
    -- what was empty after the first step was empty before it
    rcases h₂.node loc with h | ⟨hnone, hdir⟩
    · rw [h]
      exact h₁.node loc
    · rcases h₁.node loc with h | ⟨-, hdir₁⟩
      · exact .inr ⟨h ▸ hnone, hdir⟩
      · rw [hnone] at hdir₁
        cases hdir₁

/-- New directories are a way of growing. -/
theorem grows (h : DirectoriesAdded fs fs') : Grows fs fs' where
  workingDirectory := h.workingDirectory
  workingRemoved := h.workingRemoved
  directory loc hd := by
    rcases h.node loc with he | ⟨hnone, -⟩
    · rw [he, hd]
    · rw [hnone] at hd; cases hd
  present loc hp := by
    rcases h.node loc with he | ⟨hnone, -⟩
    · rwa [he]
    · rw [hnone] at hp; cases hp

end DirectoriesAdded

/-- A directory is made at the place of its path, where nothing was. -/
theorem makeDirectory_of_ok {p : Path} (h : fs.makeDirectory p = .ok fs') :
    fs.placeOf p ≠ [] ∧ fs.nodeAt? (fs.placeOf p) = none
      ∧ fs' = fs.place (fs.placeOf p) .directory := by
  unfold makeDirectory at h
  split at h
  · cases h
  · next hnew =>
    obtain ⟨dir, last, hplace, rfl⟩ := newPlace_of_eq_ok hnew
    rw [hplace.placeOf_eq]
    split at h
    · cases h
    · next hempty =>
      -- a new place has a name, so it is not the root
      exact ⟨List.concat_ne_nil last dir, by simpa using hempty, (Except.ok.inj h).symm⟩

theorem directoriesAdded_of_makeDirectory {p : Path} (h : fs.makeDirectory p = .ok fs') :
    DirectoriesAdded fs fs' := by
  obtain ⟨hroot, hempty, rfl⟩ := makeDirectory_of_ok h
  refine ⟨rfl, rfl, fun other => ?_⟩
  by_cases he : other = fs.placeOf p
  · rw [he]
    exact .inr ⟨hempty, nodeAt?_place fs .directory hroot⟩
  · exact .inl (nodeAt?_place_of_ne fs .directory he)

/-- What holds of a file system and is kept whenever one of the directories is made holds after all
of them were to be made, also when a fault came in between. -/
theorem makeMissing_induction {P : FileSystem → Prop} {paths : List Path}
    (hmake : ∀ p ∈ paths, ∀ fs fs' : FileSystem, P fs → fs.makeDirectory p = .ok fs' → P fs')
    (h : P fs) : P (fs.makeMissing paths).1 := by
  -- each path comes before the directories above it, so the induction makes those
  induction paths with
  | nil => exact h
  | cons p above ih =>
    have habove := ih fun q hq => hmake q (List.mem_cons_of_mem p hq)
    have hp := hmake p List.mem_cons_self
    rw [makeMissing]
    split
    · next hmade => exact hp _ _ h hmade
    · split
      · next hmissing => rw [hmissing] at habove; exact habove
      · next hmissing =>
        rw [hmissing] at habove
        split
        · next hmade => exact hp _ _ habove hmade
        · exact habove
    · exact h

/-- Whatever the outcome, nothing but directories has been added. -/
theorem directoriesAdded_makeMissing (fs : FileSystem) (paths : List Path) :
    DirectoriesAdded fs (fs.makeMissing paths).1 :=
  makeMissing_induction (P := DirectoriesAdded fs)
    (fun _ _ _ _ h hmade => h.trans (directoriesAdded_of_makeDirectory hmade)) (.refl fs)

/-! ## Orders

An order makes directories and then writes a file. Each part is known by what it leaves, so nothing
below looks into `perform` again. -/

/-- What writing a file comes to: nothing is written when there is no place for it or a device takes
the bytes, and otherwise they stand at the place. -/
theorem writeFile_cases (fs : FileSystem) (p : Path) (content : Bytes) :
    (∃ cause, fs.writeFile p content = (fs, .error (.create cause)))
    ∨ (∃ loc d, fs.filePlace p = .ok loc ∧ fs.nodeAt? loc = some (.device d)
      ∧ (fs.writeFile p content).1 = fs)
    ∨ ∃ loc, fs.filePlace p = .ok loc ∧ (∀ d, fs.nodeAt? loc ≠ some (.device d))
      ∧ fs.writeFile p content = (fs.place loc (.file content), .ok ()) := by
  unfold writeFile
  cases hplace : fs.filePlace p with
  | error cause => exact .inl ⟨cause, rfl⟩
  | ok loc =>
    refine .inr ?_
    dsimp only
    split
    · next hnode => exact .inl ⟨loc, .full, rfl, hnode, rfl⟩
    · next hnode => exact .inl ⟨loc, .null, rfl, hnode, rfl⟩
    · next hfull hnull =>
      refine .inr ⟨loc, rfl, fun d hnode => ?_, rfl⟩
      cases d with
      | full => exact hfull hnode
      | null => exact hnull hnode

/-- Where no device takes the bytes and forgets them, success means that they stand at the place. -/
theorem writeFile_of_ok {p : Path} {content : Bytes} (hok : (fs.writeFile p content).2 = .ok ())
    (hcontent : content ≠ []) (hkept : fs.nodeAt? (fs.placeOf p) ≠ some (.device .null)) :
    ∃ loc, fs.filePlace p = .ok loc
      ∧ (fs.writeFile p content).1 = fs.place loc (.file content) := by
  unfold writeFile at hok ⊢
  cases hplace : fs.filePlace p with
  | error cause =>
    rw [hplace] at hok
    cases hok
  | ok loc =>
    rw [hplace] at hok
    dsimp only at hok ⊢
    refine ⟨loc, rfl, ?_⟩
    split at hok
    · -- a full device takes no bytes
      rw [if_neg hcontent] at hok
      cases hok
    · next hnode =>
      -- the device that forgets them is ruled out
      rw [← filePlace_eq_placeOf hplace] at hkept
      exact absurd hnode hkept
    · rfl

/-- An order makes the directories that are missing, and then writes the file. -/
theorem perform_eq (fs : FileSystem) (order : WriteOrder) :
    fs.perform order = match fs.makeMissing order.directories with
      | (mid, .error cause) => (mid, .error (.directory cause))
      | (mid, .ok ()) => mid.writeFile order.path order.content := by
  unfold perform WriteOrder.directories
  cases order.directory? with
  | none => rfl
  | some directory => rfl

/-- At most one file is written. -/
theorem perform_cases (fs : FileSystem) (order : WriteOrder) :
    ∃ mid, DirectoriesAdded fs mid ∧ ((fs.perform order).1 = mid
      ∨ ∃ loc, mid.filePlace order.path = .ok loc
        ∧ fs.perform order = (mid.place loc (.file order.content), .ok ())) := by
  have hadded := directoriesAdded_makeMissing fs order.directories
  rw [perform_eq]
  -- a directory that cannot be made ends the order before anything is written
  split
  · next mid cause hmade => rw [hmade] at hadded; exact ⟨mid, hadded, .inl rfl⟩
  · next mid hmade =>
    rw [hmade] at hadded
    refine ⟨mid, hadded, ?_⟩
    rcases mid.writeFile_cases order.path order.content with
      ⟨cause, h⟩ | ⟨loc, d, -, -, h⟩ | ⟨loc, hplace, -, h⟩
    · exact .inl (congrArg Prod.fst h)
    · exact .inl h
    · exact .inr ⟨loc, hplace, h⟩

/-- An order that succeeds gets as far as the writing. -/
theorem perform_of_ok {order : WriteOrder} (hok : (fs.perform order).2 = .ok ()) :
    ∃ mid, DirectoriesAdded fs mid
      ∧ fs.perform order = mid.writeFile order.path order.content := by
  have hadded := directoriesAdded_makeMissing fs order.directories
  rw [perform_eq] at hok ⊢
  split at hok
  · cases hok
  · next mid hmade =>
    rw [hmade] at hadded
    exact ⟨mid, hadded, rfl⟩

/-- A file that is written takes the place of no directory. -/
theorem Grows.place_filePlace {p : Path} {loc : Location} (h : fs.filePlace p = .ok loc)
    (content : Bytes) : Grows fs (fs.place loc (.file content)) := by
  obtain ⟨-, -, hfile⟩ := filePlace_of_eq_ok h
  exact .place _ (filePlace_ne_root h) hfile

/-- Whatever becomes of an order, nothing is taken away. -/
theorem grows_perform (fs : FileSystem) (order : WriteOrder) : Grows fs (fs.perform order).1 := by
  obtain ⟨mid, hadded, h | ⟨loc, hplace, h⟩⟩ := fs.perform_cases order
  · rw [h]; exact hadded.grows
  · rw [h]; exact hadded.grows.trans (.place_filePlace hplace order.content)

/-- After an order that succeeds there is something at the place of its path. -/
theorem isSome_nodeAt?_perform {order : WriteOrder} (hok : (fs.perform order).2 = .ok ()) :
    ((fs.perform order).1.nodeAt? (fs.placeOf order.path)).isSome = true := by
  obtain ⟨mid, hadded, hperform⟩ := perform_of_ok hok
  rw [hperform] at hok ⊢
  rw [← hadded.grows.placeOf]
  -- the device that took the bytes is there, too
  rcases mid.writeFile_cases order.path order.content with
    ⟨cause, hw⟩ | ⟨loc, d, hplace, hdevice, hw⟩ | ⟨loc, hplace, -, hw⟩
  · rw [hw] at hok
    cases hok
  · rw [hw, ← filePlace_eq_placeOf hplace, hdevice]
    rfl
  · rw [hw, ← filePlace_eq_placeOf hplace, nodeAt?_place mid _ (filePlace_ne_root hplace)]
    rfl

/-- An order changes no other node than the one at the place of its path, except that directories
may come where nothing was. -/
theorem nodeAt?_perform_of_ne {order : WriteOrder} {loc : Location}
    (hne : (fs.perform order).2 = .ok () → fs.placeOf order.path ≠ loc) :
    (fs.perform order).1.nodeAt? loc = fs.nodeAt? loc
      ∨ fs.nodeAt? loc = none ∧ (fs.perform order).1.nodeAt? loc = some .directory := by
  obtain ⟨mid, hadded, h | ⟨other, hplace, h⟩⟩ := fs.perform_cases order
  · rw [h]
    exact hadded.node loc
  · have hother : loc ≠ other := by
      rw [filePlace_eq_placeOf hplace, hadded.grows.placeOf]
      exact (hne (congrArg Prod.snd h)).symm
    rw [h, nodeAt?_place_of_ne mid _ hother]
    exact hadded.node loc

/-- A file that was written is found by the same path. -/
theorem locate_place {p : Path} {loc : Location} (h : fs.filePlace p = .ok loc) (content : Bytes) :
    (fs.place loc (.file content)).locate p = .ok (.present loc) := by
  have hgrows := Grows.place_filePlace h content
  have hroot := filePlace_ne_root h
  obtain ⟨⟨dir, last, hnew, hloc⟩, hslash, -⟩ := filePlace_of_eq_ok h
  -- the walk to the directory goes as before, and its last step finds the new file
  have hthere : ((fs.place loc (.file content)).nodeAt? (dir ++ [last])).isSome = true := by
    rw [← hloc, nodeAt?_place fs _ hroot]; rfl
  have henter : (fs.place loc (.file content)).enter (.present dir) last = .ok (.present loc) :=
    enter_present_iff.2 ⟨dir ++ [last], .down (hgrows.isDirectoryAt hnew.isDirectory) hnew.notDot
      hnew.notDots hnew.short hthere, by rw [hloc]⟩
  have hwalk : (fs.place loc (.file content)).walk p.names (fs.startOf p) = .ok (.present loc) := by
    rw [hnew.names, walk_append, hgrows.walk hnew.reached]
    dsimp only
    rw [walk, henter]
    rfl
  rw [locate, hnew.accepted]
  dsimp only
  rw [hgrows.startOf, hwalk, hslash]
  rfl

/-- A file is read as it stands. -/
theorem read_of_locate {p : Path} {loc : Location} {content : Bytes}
    (hlocate : fs.locate p = .ok (.present loc)) (hnode : fs.nodeAt? loc = some (.file content)) :
    fs.read p = .content content := by
  rw [read, hlocate]
  dsimp only
  rw [hnode]

/-- Where no device takes the bytes and forgets them, they are read by the path they were written
to. -/
theorem read_of_performed {order : WriteOrder}
    (hok : (fs.perform order).2 = .ok ()) (hcontent : order.content ≠ [])
    (hkept : fs.nodeAt? (fs.placeOf order.path) ≠ some (.device .null)) :
    (fs.perform order).1.read order.path = .content order.content := by
  obtain ⟨mid, hadded, hperform⟩ := perform_of_ok hok
  rw [hperform] at hok ⊢
  -- the directories that were made did not put a device there
  have hstill : mid.nodeAt? (mid.placeOf order.path) ≠ some (.device .null) := by
    rw [hadded.grows.placeOf]
    rcases hadded.node (fs.placeOf order.path) with heq | ⟨-, hdir⟩
    · rw [heq]
      exact hkept
    · rw [hdir]
      nofun
  obtain ⟨loc, hplace, hw⟩ := writeFile_of_ok hok hcontent hstill
  rw [hw]
  exact read_of_locate (locate_place hplace _) (nodeAt?_place mid _ (filePlace_ne_root hplace))

end FileSystem

end Reckon
