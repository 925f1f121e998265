import Reckon.Proofs.Ancestors

/-!
# Absolute paths

The absolute form of a path leads to the place of the path itself, as long as the working directory
is there and the form is not too long for the system (`FileSystem.NewPlace.absolute`). The
directories that an order needs are spelled by fronts of its path, so where the path goes through
they are all there already, and making them changes nothing (`FileSystem.makeMissing_of_present`).
-/

namespace Reckon

namespace Path

variable {p q d here : Path}

/-! ## Joined paths

A relative path is put behind another one, with a slash where there is none. Empty components do not
count, so the slash adds none. -/

/-- Components do not reach across a slash. -/
theorem names_append_slash (s t : Text) : names (s ++ '/' :: t) = names s ++ names t := by
  rw [names, splitOn_append_separator, List.filter_append, names, names]

/-- A relative path stands behind the other one, with a slash between the two at most. -/
theorem join_eq_append (here : Path) (hp : p.isAbsolute = false) :
    ∃ gap, (gap = [] ∨ gap = ['/']) ∧ join here p = here ++ gap ++ p := by
  rw [join, hp, if_neg Bool.false_ne_true]
  split
  · exact ⟨[], .inl rfl, by rw [List.append_nil]⟩
  · exact ⟨['/'], .inr rfl, (List.append_assoc here ['/'] p).symm⟩

/-- A relative path adds its components to those of the other one. -/
theorem names_join (here : Path) (hp : p.isAbsolute = false) :
    (join here p).names = here.names ++ p.names := by
  rw [join, hp, if_neg Bool.false_ne_true]
  split
  · next hends =>
    -- nothing is in front, or a slash is there already
    rcases hends with rfl | hslash
    · rfl
    · obtain ⟨front, rfl⟩ := List.getLast?_eq_some_iff.1 hslash
      have hnone : names [] = [] := rfl
      rw [List.append_assoc, List.singleton_append, names_append_slash, names_append_slash, hnone,
        List.append_nil]
  · exact names_append_slash here p

/-- What stands behind an absolute path, or is absolute itself, is absolute. -/
theorem isAbsolute_join (p : Path) (hhere : here.isAbsolute = true) :
    (join here p).isAbsolute = true := by
  cases hp : p.isAbsolute with
  | true => rwa [join, hp, if_pos rfl]
  | false =>
    obtain ⟨gap, -, hjoin⟩ := join_eq_append here hp
    cases here with
    | nil => cases hhere
    | cons c t => rw [hjoin]; exact hhere

/-- The end of a joined path is that of the second one, unless this is empty. -/
theorem endsInSlash_join (here : Path) (hne : p ≠ []) :
    (join here p).endsInSlash = p.endsInSlash := by
  cases hp : p.isAbsolute with
  | true => rw [join, hp, if_pos rfl]
  | false =>
    obtain ⟨gap, -, hjoin⟩ := join_eq_append here hp
    rw [hjoin, endsInSlash, List.getLast?_append_of_ne_nil _ hne, endsInSlash]

theorem absoluteFrom_of_isAbsolute (workingPath? : Option Path) (hp : p.isAbsolute = true) :
    absoluteFrom workingPath? p = p := by
  cases workingPath? with
  | none => rfl
  | some here => rw [absoluteFrom, join, if_pos hp]

/-! ## Fronts of a path

Parents and the paths above them are spelled from the first components, so their texts are fronts of
the text. This bounds their length, which the system would otherwise be free to refuse. -/

/-- The first pieces are joined to a front of the whole. -/
theorem joinWith_prefix (sep : Text) (pieces more : List Text) :
    joinWith sep pieces <+: joinWith sep (pieces ++ more) := by
  induction pieces with
  | nil => exact List.nil_prefix
  | cons piece rest ih =>
    cases rest with
    | nil =>
      -- the last of the pieces is followed by a separator if there are more
      cases more with
      | nil => exact List.prefix_refl _
      | cons next others =>
        rw [List.singleton_append, joinWith, joinWith, List.append_assoc]
        exact List.prefix_append piece _
    | cons next others =>
      rw [List.cons_append] at ih ⊢
      rw [List.cons_append, joinWith, joinWith]
      exact (List.prefix_append_right_inj _).2 ih

/-- The first components spell a front of the path. -/
theorem spell_prefix {first : Text} {rest front back : List Text}
    (hsplit : splitOn '/' p = first :: rest) (hrest : rest = front ++ back)
    (hroot : first = [] → rest ≠ []) : spell first front.reverse <+: p := by
  rw [← joinWith_splitOn '/' p, hsplit, spell]
  split
  · next hempty =>
    -- the root is spelled by a slash, with which an absolute path begins
    obtain ⟨next, others, hmore⟩ := List.exists_cons_of_ne_nil (hroot hempty.1)
    rw [hmore, hempty.1, joinWith]
    exact List.prefix_append ['/'] _
  · rw [List.reverse_reverse, hrest]
    exact joinWith_prefix ['/'] (first :: front) back

/-- The paths upward of a directory are fronts of it. -/
theorem prefix_of_mem_upward (h : q ∈ d.upward) : q <+: d := by
  unfold upward at h
  split at h
  · cases h
  · next hne =>
    split at h
    · cases h
    · next first rest hsplit =>
      obtain ⟨shorter, ⟨longer, hshorter⟩, rfl⟩ := exists_of_mem_chain h
      have hrest : rest = shorter.reverse ++ longer.reverse := by
        rw [← List.reverse_append, hshorter, List.reverse_reverse]
      -- the empty component of the root stands alone only in the empty path
      have hroot : first = [] → rest ≠ [] := by
        rintro rfl rfl
        have hjoin := joinWith_splitOn '/' d
        rw [hsplit] at hjoin
        exact hne hjoin.symm
      simpa using spell_prefix hsplit hrest hroot

/-- So is the parent of a file. -/
theorem prefix_of_parent? (h : p.parent? = some d) : d <+: p := by
  unfold parent? at h
  split at h
  · cases h
  · next first rest hsplit =>
    split at h
    · split at h
      · cases h
      · rw [← Option.some.inj h]
        exact List.nil_prefix
    · next last before hbefore =>
      -- what is left out is the last component with the slashes and points around it
      obtain ⟨back, hrest, hlast, -⟩ := exists_append_of_dropWhile hbefore
      have hmore : rest ≠ [] :=
        hrest ▸ List.append_ne_nil_of_right_ne_nil _ (List.ne_nil_of_mem hlast)
      rw [← Option.some.inj h]
      simpa using spell_prefix hsplit hrest fun _ => hmore

end Path

namespace FileSystem

variable {fs : FileSystem} {p q : Path} {dir : Location} {last : Text}

/-! ## Directories on the way

A walk that has come to a directory went through directories all the way, so every front of the path
leads to one. Making any of them fails because it is there, which is what lets the order go on. -/

theorem refusal?_eq_none_iff :
    refusal? p = none ↔ '\x00' ∉ p ∧ p ≠ [] ∧ byteLength p < pathLimit := by
  unfold refusal?
  split
  · next hnull => simp [hnull]
  · next hnull =>
    split
    · next hempty => simp [hempty]
    · next hempty =>
      split
      · next hlong => simp [Nat.not_lt.2 hlong]
      · next hlong => simp [hnull, hempty, Nat.not_le.1 hlong]

/-- A front of a path is not refused if the path is not. -/
theorem refusal?_of_prefix (hp : refusal? p = none) (hfront : q <+: p) (hne : q ≠ []) :
    refusal? q = none := by
  rw [refusal?_eq_none_iff] at hp ⊢
  obtain ⟨hnull, -, hshort⟩ := hp
  refine ⟨fun hmem => hnull (hfront.subset hmem), hne, Nat.lt_of_le_of_lt ?_ hshort⟩
  obtain ⟨back, rfl⟩ := hfront
  rw [byteLength, byteLength, Utf8.encode_append, List.length_append]
  exact Nat.le_add_right _ _

/-- A walk does not leave what is there. -/
theorem exists_present_of_walk {names : List Text} {loc : Location} {target : Spot}
    (h : fs.walk names (.present loc) = .ok target) : ∃ loc', target = .present loc' := by
  induction names generalizing loc with
  | nil => exact ⟨loc, (Except.ok.inj h).symm⟩
  | cons name rest ih =>
    rw [walk] at h
    cases henter : fs.enter (.present loc) name with
    | error cause => rw [henter] at h; cases h
    | ok next =>
      obtain ⟨middle, -, rfl⟩ := enter_present_iff.1 henter
      rw [henter] at h
      exact ih h

/-- A walk that ends in a directory goes through directories. -/
theorem exists_walk_front {front back : List Text} {loc : Location}
    (h : fs.walk (front ++ back) (.present loc) = .ok (.present dir))
    (hdir : fs.isDirectoryAt dir = true) :
    ∃ middle, fs.walk front (.present loc) = .ok (.present middle)
      ∧ fs.isDirectoryAt middle = true := by
  rw [walk_append] at h
  split at h
  · next next hfront =>
    obtain ⟨middle, rfl⟩ := exists_present_of_walk hfront
    -- the walk ends in `middle`, or enters something from there
    refine ⟨middle, hfront, ?_⟩
    cases back with
    | nil =>
      cases h
      exact hdir
    | cons name rest =>
      rw [walk] at h
      split at h
      · next henter =>
        obtain ⟨target, henters, -⟩ := enter_present_iff.1 henter
        exact henters.isDirectoryAt
      · cases h
  · cases h

/-- A directory that a path leads to is there already when it is to be made. -/
theorem makeDirectory_of_walk {start loc : Location} (hq : refusal? q = none)
    (hstart : fs.startOf q = .present start)
    (hwalk : fs.walk q.names (.present start) = .ok (.present loc)) :
    fs.makeDirectory q = .error .alreadyExists := by
  rw [makeDirectory, newPlace, hq, hstart]
  dsimp only
  -- the last step of the walk finds the directory at which the new one would come
  cases hlast : q.names.getLast? with
  | none => rfl
  | some last =>
    obtain ⟨front, hnames⟩ := List.getLast?_eq_some_iff.1 hlast
    rw [hnames, walk_append] at hwalk
    rw [hnames, List.dropLast_concat]
    split at hwalk
    · next next hfront =>
      obtain ⟨middle, rfl⟩ := exists_present_of_walk hfront
      rw [hfront]
      dsimp only
      rw [walk] at hwalk
      split at hwalk
      · next henter =>
        obtain ⟨target, henters, -⟩ := enter_present_iff.1 henter
        rw [henters.isDirectoryAt, Bool.not_true, if_neg Bool.false_ne_true]
        cases henters with
        | stay => rfl
        | up => rfl
        | down _ hdot hdots hshort hthere =>
          rw [if_neg (not_or.2 ⟨hdot, hdots⟩), if_neg hshort]
          dsimp only
          rw [if_pos hthere]
      · cases hwalk
    · cases hwalk

/-- A path that leads to a directory is one of a directory. -/
theorem isDirectory_of_walk {loc : Location} (hq : refusal? q = none)
    (hwalk : fs.walk q.names (fs.startOf q) = .ok (.present loc))
    (hdir : fs.isDirectoryAt loc = true) : fs.isDirectory q = true := by
  have hspot : fs.isDirectorySpot (.present loc) = true := hdir
  rw [isDirectory, locate, hq, hwalk]
  dsimp only
  rw [hspot, Bool.not_true, Bool.and_false, if_neg Bool.false_ne_true]
  exact hspot

/-- If the nearest directory is there, no other one is looked at. -/
theorem makeMissing_of_present {paths : List Path}
    (h : ∀ q ∈ paths, fs.makeDirectory q = .error .alreadyExists ∧ fs.isDirectory q = true) :
    fs.makeMissing paths = (fs, .ok ()) := by
  cases paths with
  | nil => rfl
  | cons q above =>
    obtain ⟨hmake, hdir⟩ := h q List.mem_cons_self
    rw [makeMissing, hmake]
    dsimp only
    rw [if_pos hdir]

theorem startOf_of_isAbsolute (hp : p.isAbsolute = true) : fs.startOf p = .present [] := by
  rw [startOf, hp, if_pos rfl]

/-- The directories above a file whose place was found are all there. -/
theorem NewPlace.makeMissing {paths : List Path} (h : fs.NewPlace p dir last)
    (hp : p.isAbsolute = true) (hpaths : ∀ q ∈ paths, q.Above p ∧ q <+: p) :
    fs.makeMissing paths = (fs, .ok ()) := by
  refine makeMissing_of_present fun q hq => ?_
  obtain ⟨⟨hsame, back, hback, hnames⟩, hfront⟩ := hpaths q hq
  have hstart : fs.startOf q = .present [] := startOf_of_isAbsolute (hsame.trans hp)
  have hne : q ≠ [] := by
    rintro rfl
    rw [hp] at hsame
    cases hsame
  have hrefusal := refusal?_of_prefix h.accepted hfront hne
  -- the walk to the file goes through `q`
  have hreached := h.reached
  rw [startOf_of_isAbsolute hp, hnames, List.dropLast_append_of_ne_nil hback] at hreached
  obtain ⟨middle, hwalk, hdir⟩ := exists_walk_front hreached h.isDirectory
  exact ⟨makeDirectory_of_walk hrefusal hstart hwalk,
    isDirectory_of_walk hrefusal (hstart ▸ hwalk) hdir⟩

/-! ## Places by either path

A relative path and its absolute form share their components, up to those of the working directory.
As the walk gets to that directory, the rest of it is the same. -/

/-- What makes a new place is enough for it to be found. -/
theorem NewPlace.newPlace_eq (h : fs.NewPlace p dir last) (occupied : SystemError) :
    fs.newPlace p occupied = .ok (dir ++ [last]) := by
  have hlast : p.names.getLast? = some last := List.getLast?_eq_some_iff.2 ⟨_, h.names⟩
  rw [newPlace, h.accepted, hlast, h.reached]
  dsimp only
  rw [h.isDirectory, Bool.not_true, if_neg Bool.false_ne_true,
    if_neg (not_or.2 ⟨h.notDot, h.notDots⟩), if_neg h.short]

/-- A file can be written there unless the place is taken by a directory. -/
theorem NewPlace.filePlace_eq (h : fs.NewPlace p dir last) (hslash : p.endsInSlash = false)
    (hfile : fs.nodeAt? (dir ++ [last]) ≠ some .directory) :
    fs.filePlace p = .ok (dir ++ [last]) := by
  rw [filePlace, h.newPlace_eq]
  dsimp only
  rw [if_neg]
  simpa [hslash] using hfile

/-- A place that was found is found later. -/
theorem NewPlace.grows {fs' : FileSystem} (h : fs.NewPlace p dir last) (hgrows : Grows fs fs') :
    fs'.NewPlace p dir last where
  accepted := h.accepted
  names := h.names
  reached := by rw [hgrows.startOf]; exact hgrows.walk h.reached
  isDirectory := hgrows.isDirectoryAt h.isDirectory
  notDot := h.notDot
  notDots := h.notDots
  short := h.short

/-- The working directory is there, where its path says. -/
structure WorkingDirectoryThere (fs : FileSystem) : Prop where
  kept : fs.workingRemoved = false
  noNull : '\x00' ∉ pathOf fs.workingDirectory
  reached : fs.walk (pathOf fs.workingDirectory).names (.present [])
    = .ok (.present fs.workingDirectory)

/-- Writing does not take the working directory away. -/
theorem WorkingDirectoryThere.grows {fs' : FileSystem} (h : fs.WorkingDirectoryThere)
    (hgrows : Grows fs fs') : fs'.WorkingDirectoryThere where
  kept := hgrows.workingRemoved.trans h.kept
  noNull := by rw [hgrows.workingDirectory]; exact h.noNull
  reached := by rw [hgrows.workingDirectory]; exact hgrows.walk h.reached

theorem isAbsolute_pathOf (loc : Location) : (pathOf loc).isAbsolute = true := by
  rw [pathOf]
  split
  · rfl
  · next hne =>
    obtain ⟨name, rest, rfl⟩ := List.exists_cons_of_ne_nil hne
    rfl

theorem workingPath?_of_kept (h : fs.workingRemoved = false) :
    fs.workingPath? = some (pathOf fs.workingDirectory) := by
  rw [workingPath?, h, if_neg Bool.false_ne_true]

/-- The absolute form of a path is absolute, as long as the working directory is known. -/
theorem isAbsolute_absoluteFrom (h : fs.workingRemoved = false) (p : Path) :
    (Path.absoluteFrom fs.workingPath? p).isAbsolute = true := by
  rw [workingPath?_of_kept h]
  exact Path.isAbsolute_join p (isAbsolute_pathOf _)

/-- The absolute form of a path leads where the path leads, unless it is too long. -/
theorem NewPlace.absolute (h : fs.NewPlace p dir last) (hhere : fs.WorkingDirectoryThere)
    (hshort : byteLength (Path.absoluteFrom fs.workingPath? p) < pathLimit) :
    fs.NewPlace (Path.absoluteFrom fs.workingPath? p) dir last := by
  have habsolute := isAbsolute_absoluteFrom hhere.kept p
  rw [workingPath?_of_kept hhere.kept, Path.absoluteFrom] at hshort habsolute ⊢
  cases hp : p.isAbsolute with
  | true => rwa [Path.join, hp, if_pos rfl]
  | false =>
    obtain ⟨hnull, hne, -⟩ := refusal?_eq_none_iff.1 h.accepted
    obtain ⟨gap, hgap, hjoin⟩ := Path.join_eq_append (pathOf fs.workingDirectory) hp
    have hstart : fs.startOf p = .present fs.workingDirectory := by
      rw [startOf, hp, if_neg Bool.false_ne_true, hhere.kept, if_neg Bool.false_ne_true]
    have hnames := Path.names_join (pathOf fs.workingDirectory) hp
    have hnamesNe : p.names ≠ [] := h.names ▸ List.concat_ne_nil _ _
    refine ⟨refusal?_eq_none_iff.2 ⟨?_, ?_, hshort⟩, ?_, ?_, h.isDirectory, h.notDot, h.notDots,
      h.short⟩
    · rw [hjoin]
      have hgap' : '\x00' ∉ gap := by rcases hgap with rfl | rfl <;> decide
      simp [hhere.noNull, hgap', hnull]
    · rw [hjoin]
      exact List.append_ne_nil_of_right_ne_nil _ hne
    · -- the last component is that of the path
      rw [hnames, List.dropLast_append_of_ne_nil hnamesNe, List.append_assoc, ← h.names]
    · -- the walk goes on from the working directory
      have hreached := h.reached
      rw [hstart] at hreached
      rw [hnames, List.dropLast_append_of_ne_nil hnamesNe, startOf_of_isAbsolute habsolute,
        walk_append, hhere.reached]
      exact hreached

end FileSystem

end Reckon
