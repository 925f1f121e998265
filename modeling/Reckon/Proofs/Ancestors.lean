import Mathlib.Data.List.Infix
import Reckon.Proofs.Places

/-!
# The directories above a path

The directory that holds a file, and those above it, are read off the text of its path. Each of
them is spelled by a front part of the components (`Path.Above`), so making the missing ones puts
directories at the places of such fronts and nowhere else (`FileSystem.DirectoriesMade`). A path
with `..` in it can so have a directory made that its place does not lie in.
-/

namespace Reckon

namespace Path

variable {p q d : Path}

/-- `q` is spelled by a front part of the components of `p`, from the same start. -/
structure Above (q p : Path) : Prop where
  start : q.isAbsolute = p.isAbsolute
  names : ∃ back, back ≠ [] ∧ p.names = q.names ++ back

/-! ## Components

A path that was spelled from components is divided into them again, except that the root is written
with a slash, which has two empty ones beside it. -/

/-- A path begins at the root if its first component is empty and not its only one. -/
theorem isAbsolute_of_splitOn {first : Text} {rest : List Text}
    (h : splitOn '/' p = first :: rest) : p.isAbsolute = (first.isEmpty && !rest.isEmpty) := by
  cases p with
  | nil =>
    obtain ⟨rfl, rfl⟩ := List.cons.inj h
    rfl
  | cons c t =>
    rw [splitOn] at h
    split at h
    · next hslash =>
      -- a slash in front cuts off an empty component
      obtain ⟨rfl, hrest⟩ := List.cons.inj h
      have hmore : rest ≠ [] := hrest ▸ splitOn_ne_nil '/' t
      rw [hslash, isAbsolute, List.isEmpty_eq_false_iff.2 hmore]
      rfl
    · next hslash =>
      -- anything else goes into the first component
      obtain ⟨piece, others, ht⟩ := List.exists_cons_of_ne_nil (splitOn_ne_nil '/' t)
      rw [ht, consFirst] at h
      rw [← (List.cons.inj h).1, isAbsolute, List.head?_cons]
      simpa using hslash

theorem names_of_splitOn {parts : List Text} (h : splitOn '/' p = parts) :
    p.names = parts.filter fun name => !name.isEmpty := by
  rw [names, h]

/-- What was spelled is divided into its components. -/
theorem splitOn_spell {first : Text} {reversed : List Text} (hfirst : '/' ∉ first)
    (hreversed : ∀ name ∈ reversed, '/' ∉ name) :
    splitOn '/' (spell first reversed)
      = if first = [] ∧ reversed = [] then [[], []] else first :: reversed.reverse := by
  unfold spell
  split
  · rfl
  · refine splitOn_joinWith (List.cons_ne_nil _ _) fun name hname => ?_
    rcases List.mem_cons.1 hname with rfl | hname
    · exact hfirst
    · exact hreversed name (List.mem_reverse.1 hname)

section

variable {first : Text} {reversed : List Text} (hfirst : '/' ∉ first)
  (hreversed : ∀ name ∈ reversed, '/' ∉ name)

include hfirst hreversed

/-- It begins at the root if its first component is empty. -/
theorem isAbsolute_spell : (spell first reversed).isAbsolute = first.isEmpty := by
  have hsplit := splitOn_spell hfirst hreversed
  split at hsplit
  · next hroot => rw [isAbsolute_of_splitOn hsplit, hroot.1]; rfl
  · next hroot =>
    rw [isAbsolute_of_splitOn hsplit]
    cases first with
    | cons c t => rfl
    | nil => simpa using hroot

/-- Its names are the components that are not empty. -/
theorem names_spell :
    (spell first reversed).names
      = (first :: reversed.reverse).filter fun name => !name.isEmpty := by
  have hsplit := splitOn_spell hfirst hreversed
  rw [names_of_splitOn hsplit]
  split
  · next hroot => rw [hroot.1, hroot.2]; rfl
  · rfl

end

/-- A slash ends a component, so none is in one. -/
theorem slash_not_mem_of_splitOn {first : Text} {rest : List Text}
    (h : splitOn '/' p = first :: rest) : '/' ∉ first ∧ ∀ name ∈ rest.reverse, '/' ∉ name := by
  have hpiece : ∀ name ∈ first :: rest, '/' ∉ name := fun name hname =>
    not_mem_of_mem_splitOn (h ▸ hname)
  exact ⟨hpiece first List.mem_cons_self, fun name hname =>
    hpiece name (List.mem_cons_of_mem first (List.mem_reverse.1 hname))⟩

/-! ## Above a path

The chain of a path leaves out one component after the other from its end, and the parent leaves out
the last one that counts. Together they leave out at least that one. -/

/-- Each path of a chain is spelled from the components up to some point. -/
theorem exists_of_mem_chain {first : Text} {reversed : List Text} (h : q ∈ chain first reversed) :
    ∃ shorter, shorter <:+ reversed ∧ q = spell first shorter := by
  induction reversed with
  | nil => exact ⟨[], List.suffix_refl [], List.mem_singleton.1 h⟩
  | cons name before ih =>
    have hbefore : q ∈ chain first before →
        ∃ shorter, shorter <:+ name :: before ∧ q = spell first shorter := fun hq =>
      let ⟨shorter, hshorter, heq⟩ := ih hq
      ⟨shorter, hshorter.trans (List.suffix_cons name before), heq⟩
    -- an idle component has no path of its own in the chain
    rw [chain] at h
    split at h
    · exact hbefore h
    · rcases List.mem_cons.1 h with rfl | h
      · exact ⟨name :: before, List.suffix_refl _, rfl⟩
      · exact hbefore h

/-- The path itself is among those upward of it, so this is not yet `Above`. -/
theorem names_prefix_of_mem_upward (h : q ∈ d.upward) :
    q.isAbsolute = d.isAbsolute ∧ q.names <+: d.names := by
  unfold upward at h
  split at h
  · cases h
  · next hne =>
    split at h
    · cases h
    · next first rest hsplit =>
      obtain ⟨shorter, hshorter, rfl⟩ := exists_of_mem_chain h
      obtain ⟨hfirst, hrest⟩ := slash_not_mem_of_splitOn hsplit
      have hpieces : ∀ name ∈ shorter, '/' ∉ name := fun name hname =>
        hrest name (hshorter.subset hname)
      constructor
      · rw [isAbsolute_spell hfirst hpieces, isAbsolute_of_splitOn hsplit]
        -- only the empty path has nothing but an empty first component
        cases hfirst' : first with
        | cons c t => rfl
        | nil =>
          have hmore : rest ≠ [] := by
            rintro rfl
            rw [hfirst'] at hsplit
            have hjoin := joinWith_splitOn '/' d
            rw [hsplit] at hjoin
            exact hne hjoin.symm
          rw [List.isEmpty_eq_false_iff.2 hmore]
          rfl
      · rw [names_spell hfirst hpieces, names_of_splitOn hsplit]
        have hfront : shorter.reverse <+: rest := by
          rw [← List.reverse_reverse rest]
          exact List.reverse_prefix.2 hshorter
        exact ((List.prefix_cons_inj first).2 hfront).filter _

/-- The last component that counts and the idle ones around it stand behind what is kept. -/
theorem exists_append_of_dropWhile {rest before : List Text} {last : Text}
    (h : rest.reverse.dropWhile isIdle = last :: before) :
    ∃ back, rest = (before.dropWhile isIdle).reverse ++ back ∧ last ∈ back ∧ last ≠ [] := by
  -- read from the end: idle components, the last one that counts, idle ones again, and the rest
  let idle := rest.reverse.takeWhile isIdle
  have hreversed : idle ++ last :: (before.takeWhile isIdle ++ before.dropWhile isIdle)
      = rest.reverse := by
    rw [List.takeWhile_append_dropWhile, ← h, List.takeWhile_append_dropWhile]
  have hlast := List.head?_dropWhile_not isIdle rest.reverse
  rw [h] at hlast
  refine ⟨(before.takeWhile isIdle).reverse ++ last :: idle.reverse, ?_, by simp, ?_⟩
  · refine List.reverse_injective ?_
    rw [← hreversed]
    simp only [List.reverse_append, List.reverse_cons, List.reverse_reverse, List.append_assoc,
      List.cons_append, List.nil_append]
  · rintro rfl
    cases hlast

/-- What a path has besides its parent is its last component, and idle ones around it. -/
theorem above_of_parent? (h : p.parent? = some d) : d.Above p := by
  unfold parent? at h
  split at h
  · cases h
  · next first rest hsplit =>
    obtain ⟨hfirst, hrest⟩ := slash_not_mem_of_splitOn hsplit
    have hp := names_of_splitOn hsplit
    split at h
    · -- only one component counts, and it does not begin at the root
      split at h
      · cases h
      · next hne =>
        rw [← Option.some.inj h]
        have hempty : first.isEmpty = false := List.isEmpty_eq_false_iff.2 hne
        refine ⟨?_, p.names, ?_, rfl⟩
        · rw [isAbsolute_of_splitOn hsplit, hempty]
          rfl
        · rw [hp, List.filter_cons_of_pos (by rw [hempty]; rfl)]
          exact List.cons_ne_nil _ _
    · next last before hbefore =>
      rw [← Option.some.inj h]
      obtain ⟨back, rfl, hlast, hne⟩ := exists_append_of_dropWhile hbefore
      have hkept : ∀ name ∈ before.dropWhile isIdle, '/' ∉ name := fun name hname =>
        hrest name (by simp [hname])
      have hback : back ≠ [] := List.ne_nil_of_mem hlast
      refine ⟨?_, back.filter fun name => !name.isEmpty, ?_, ?_⟩
      · rw [isAbsolute_spell hfirst hkept, isAbsolute_of_splitOn hsplit,
          List.isEmpty_eq_false_iff.2 (List.append_ne_nil_of_right_ne_nil _ hback),
          Bool.not_false, Bool.and_true]
      · refine List.ne_nil_of_mem (List.mem_filter.2 ⟨hlast, ?_⟩)
        rw [List.isEmpty_eq_false_iff.2 hne]
        rfl
      · rw [hp, names_spell hfirst hkept, ← List.filter_append, List.cons_append]

/-- The directories that are made for a file are above it. -/
theorem above_of_mem_upward (hd : p.parent? = some d) (hq : q ∈ d.upward) : q.Above p := by
  obtain ⟨hstart, hnames⟩ := names_prefix_of_mem_upward hq
  obtain ⟨hstart', back, hback, hp⟩ := above_of_parent? hd
  obtain ⟨middle, hmiddle⟩ := hnames
  refine ⟨hstart.trans hstart', middle ++ back, List.append_ne_nil_of_right_ne_nil _ hback, ?_⟩
  rw [hp, ← hmiddle, List.append_assoc]

end Path

/-! ## Making directories -/

namespace FileSystem

variable {fs fs' : FileSystem}

/-- Names other than `..` lead further down. -/
theorem prefix_foldl_locationAfter {names : List Text} (hdots : ['.', '.'] ∉ names)
    (loc : Location) : loc <+: names.foldl locationAfter loc := by
  induction names generalizing loc with
  | nil => exact List.prefix_refl loc
  | cons name rest ih =>
    have hname : name ≠ ['.', '.'] := fun heq => hdots (heq ▸ List.mem_cons_self)
    have hrest : ['.', '.'] ∉ rest := fun hmem => hdots (List.mem_cons_of_mem name hmem)
    refine List.IsPrefix.trans ?_ (ih hrest (locationAfter loc name))
    rw [locationAfter, if_neg hname]
    -- a component that is no name stays where it is
    split
    · exact List.prefix_refl loc
    · exact List.prefix_append loc [name]

/-- A path that does not go back goes through the places above it. -/
theorem placeOf_prefix_of_above {p q : Path} (h : q.Above p) (hdots : ['.', '.'] ∉ p.names) :
    fs.placeOf q <+: fs.placeOf p := by
  obtain ⟨hstart, back, -, hnames⟩ := h
  have hback : ['.', '.'] ∉ back := fun hmem => hdots (hnames ▸ List.mem_append_right _ hmem)
  have hp : fs.placeOf p = back.foldl locationAfter (fs.placeOf q) := by
    rw [placeOf, placeOf, hnames, List.foldl_append, startLocation, startLocation, hstart]
  rw [hp]
  exact prefix_foldl_locationAfter hback _

/-- Directories were added at the places of some of the paths only. -/
structure DirectoriesMade (fs fs' : FileSystem) (paths : List Path) : Prop
    extends DirectoriesAdded fs fs' where
  listed : ∀ loc, fs.nodeAt? loc = none → (fs'.nodeAt? loc).isSome = true →
    ∃ q ∈ paths, loc = fs.placeOf q

theorem DirectoriesMade.refl (fs : FileSystem) (paths : List Path) :
    DirectoriesMade fs fs paths where
  toDirectoriesAdded := .refl fs
  listed loc hnone hsome := by
    rw [hnone] at hsome
    cases hsome

theorem DirectoriesMade.mono {paths more : List Path} (h : DirectoriesMade fs fs' paths)
    (hsub : paths ⊆ more) : DirectoriesMade fs fs' more where
  toDirectoriesAdded := h.toDirectoriesAdded
  listed loc hnone hsome :=
    let ⟨q, hq, hloc⟩ := h.listed loc hnone hsome
    ⟨q, hsub hq, hloc⟩

/-- What is made for a list of paths is at their places. -/
theorem directoriesMade_makeMissing (fs : FileSystem) (paths : List Path) :
    DirectoriesMade fs (fs.makeMissing paths).1 paths := by
  refine makeMissing_induction (P := fun fs' => DirectoriesMade fs fs' paths) ?_ (.refl fs paths)
  intro q hq mid fs' hmid hmade
  refine ⟨hmid.trans (directoriesAdded_of_makeDirectory hmade), fun loc hnone hsome => ?_⟩
  obtain ⟨-, -, rfl⟩ := makeDirectory_of_ok hmade
  -- the new directory is the one of this step, or it was there before
  by_cases hloc : loc = mid.placeOf q
  · exact ⟨q, hq, by rw [hloc, hmid.grows.placeOf]⟩
  · rw [nodeAt?_place_of_ne mid .directory hloc] at hsome
    exact hmid.listed loc hnone hsome

end FileSystem

end Reckon
