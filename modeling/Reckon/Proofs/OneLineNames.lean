import Reckon.Proofs.Moments
import Reckon.Proofs.Places

/-!
# Names on one line

A file system on which no name holds a line feed stays so as long as only orders with paths on one
line are carried out (`FileSystem.OneLineNames.perform`). The paths of a session on lines without
line feeds are on one line (`Moment.oneLine_of_order?`), so such a session puts nothing at a place
with a line feed in it (`Session.oneLineNames_runLines`).
-/

namespace Reckon

/-! ## The characters of paths

Every path that is made from another one, its parent or the directories above it, is put together
from components of the other. -/

/-- A text on one line. -/
def Text.OneLine (t : Text) : Prop :=
  '\n' ∉ t

instance (t : Text) : Decidable t.OneLine :=
  inferInstanceAs (Decidable ('\n' ∉ t))

namespace Path

variable {p : Path}

theorem oneLine_of_mem_splitOn (h : Text.OneLine p) : ∀ name ∈ splitOn '/' p, Text.OneLine name :=
  fun _ hname hmem => h (mem_of_mem_splitOn hname hmem)

theorem oneLine_of_mem_names (h : Text.OneLine p) {name : Text} (hname : name ∈ p.names) :
    Text.OneLine name :=
  oneLine_of_mem_splitOn h name (List.mem_filter.1 hname).1

/-- A path that is spelled from names on one line is on one line. -/
theorem oneLine_spell {first : Text} {reversed : List Text} (hfirst : Text.OneLine first)
    (hreversed : ∀ name ∈ reversed, Text.OneLine name) : Text.OneLine (spell first reversed) := by
  unfold spell
  -- the root is spelled by a slash alone, anything else by names and slashes
  split
  · intro hmem
    revert hmem
    decide
  · intro hmem
    rcases mem_joinWith hmem with hsep | ⟨name, hname, hmem⟩
    · revert hsep
      decide
    · rcases List.mem_cons.1 hname with rfl | hname
      · exact hfirst ‹_›
      · exact hreversed name (List.mem_reverse.1 hname) hmem

theorem oneLine_of_mem_chain {first : Text} {reversed : List Text} (hfirst : Text.OneLine first)
    (hreversed : ∀ name ∈ reversed, Text.OneLine name) {q : Path} (hq : q ∈ chain first reversed) :
    Text.OneLine q := by
  induction reversed with
  | nil =>
    rw [chain, List.mem_singleton] at hq
    rw [hq]
    exact oneLine_spell hfirst hreversed
  | cons name before ih =>
    have hbefore : ∀ name ∈ before, Text.OneLine name := fun other hother =>
      hreversed other (List.mem_cons_of_mem name hother)
    rw [chain] at hq
    split at hq
    · exact ih hbefore hq
    · rcases List.mem_cons.1 hq with rfl | hq
      · exact oneLine_spell hfirst hreversed
      · exact ih hbefore hq

/-- The directories on the way to a path have its components. -/
theorem oneLine_of_mem_upward (h : Text.OneLine p) {q : Path} (hq : q ∈ p.upward) :
    Text.OneLine q := by
  have hnames := oneLine_of_mem_splitOn h
  unfold upward at hq
  split at hq
  · cases hq
  · split at hq
    · cases hq
    · next first rest hsplit =>
      rw [hsplit] at hnames
      refine oneLine_of_mem_chain (hnames first List.mem_cons_self) (fun name hname => ?_) hq
      exact hnames name (List.mem_cons_of_mem first (List.mem_reverse.1 hname))

/-- The parent of a path has its components. -/
theorem oneLine_of_mem_parent? (h : Text.OneLine p) {q : Path} (hq : parent? p = some q) :
    Text.OneLine q := by
  have hnames := oneLine_of_mem_splitOn h
  unfold parent? at hq
  split at hq
  · cases hq
  · next first rest hsplit =>
    rw [hsplit] at hnames
    split at hq
    · split at hq
      · cases hq
      · rw [← Option.some.inj hq]
        exact List.not_mem_nil
    · next last before hbefore =>
      -- what is left of the components are some of them
      have hrest : ∀ name ∈ before.dropWhile isIdle, name ∈ rest := fun name hname =>
        List.mem_reverse.1 ((List.dropWhile_sublist isIdle).mem (hbefore ▸
          List.mem_cons_of_mem last ((List.dropWhile_sublist isIdle).mem hname)))
      rw [← Option.some.inj hq]
      exact oneLine_spell (hnames first List.mem_cons_self) fun name hname =>
        hnames name (List.mem_cons_of_mem first (hrest name hname))

end Path

/-- A destination consists of the answer and the default name. -/
theorem Exporter.oneLine_destination {x : Exporter} {input : Text} (hinput : Text.OneLine input)
    (hname : Text.OneLine x.fileName) : Text.OneLine (x.destination input) := by
  have hjoin : Text.OneLine (Path.join input x.fileName) := by
    unfold Path.join
    split
    · exact hname
    · split
      · exact fun hmem => (List.mem_append.1 hmem).elim hinput hname
      · intro hmem
        rcases List.mem_append.1 hmem with hmem | hmem
        · exact hinput hmem
        · rcases List.mem_cons.1 hmem with hslash | hmem
          · revert hslash
            decide
          · exact hname hmem
  -- the name is joined to the answer where the answer is a directory
  unfold destination
  split
  · exact hinput
  · split
    · exact hjoin
    · split
      · exact hinput
      · exact hjoin

/-! ## File systems

New names come from the last component of a path that is written or made into a directory; the rest
of the place is that of an existing directory. -/

/-- An order whose path is on one line, and the directory to be made too. -/
def WriteOrder.OneLine (order : WriteOrder) : Prop :=
  Text.OneLine order.path ∧ ∀ directory, order.directory? = some directory → Text.OneLine directory

namespace FileSystem

variable {fs fs' : FileSystem}

/-- A place all of whose names are on one line. -/
def OneLinePlace (loc : Location) : Prop :=
  ∀ name ∈ loc, Text.OneLine name

/-- No name that is in use holds a line feed. -/
def OneLineNames (fs : FileSystem) : Prop :=
  ∀ entry ∈ fs.nodes, OneLinePlace entry.1

instance (fs : FileSystem) : Decidable fs.OneLineNames :=
  inferInstanceAs (Decidable (∀ entry ∈ fs.nodes, ∀ name ∈ entry.1, Text.OneLine name))

namespace OneLineNames

/-- Where something is, all names on the way are in use. -/
theorem of_nodeAt? (h : fs.OneLineNames) {loc : Location}
    (hthere : (fs.nodeAt? loc).isSome = true) : OneLinePlace loc := by
  unfold nodeAt? at hthere
  split at hthere
  · next hroot =>
    rw [hroot]
    exact fun _ hname => absurd hname List.not_mem_nil
  · rw [Option.isSome_map, List.find?_isSome] at hthere
    obtain ⟨entry, hentry, hloc⟩ := hthere
    rw [← beq_iff_eq.1 hloc]
    exact h entry hentry

theorem place (h : fs.OneLineNames) {loc : Location} (hloc : OneLinePlace loc) (node : Node) :
    (fs.place loc node).OneLineNames := by
  intro entry hentry
  rcases List.mem_append.1 hentry with hentry | hentry
  · exact h entry (List.mem_filter.1 hentry).1
  · rw [List.mem_singleton.1 hentry]
    exact hloc

/-- A path on one line leads to no new place with a line feed in it. -/
theorem newPlace (h : fs.OneLineNames) {p : Path} (hp : Text.OneLine p) {occupied : SystemError}
    {loc : Location} (hnew : fs.newPlace p occupied = .ok loc) : OneLinePlace loc := by
  obtain ⟨dir, last, hplace, rfl⟩ := newPlace_of_eq_ok hnew
  have hdir : (fs.nodeAt? dir).isSome = true := by
    rw [beq_iff_eq.1 hplace.isDirectory]
    rfl
  have hlast : last ∈ p.names := by
    rw [hplace.names]
    exact List.mem_append_right _ List.mem_cons_self
  -- the directory is there already, and the last name is one of the path
  intro name hname
  rcases List.mem_append.1 hname with hname | hname
  · exact h.of_nodeAt? hdir name hname
  · rw [List.mem_singleton.1 hname]
    exact Path.oneLine_of_mem_names hp hlast

theorem makeDirectory (h : fs.OneLineNames) {p : Path} (hp : Text.OneLine p)
    (hmade : fs.makeDirectory p = .ok fs') : fs'.OneLineNames := by
  unfold FileSystem.makeDirectory at hmade
  split at hmade
  · cases hmade
  · next loc hnew =>
    split at hmade
    · cases hmade
    · rw [← Except.ok.inj hmade]
      exact h.place (h.newPlace hp hnew) .directory

theorem makeMissing (h : fs.OneLineNames) {paths : List Path}
    (hpaths : ∀ p ∈ paths, Text.OneLine p) : (fs.makeMissing paths).1.OneLineNames :=
  makeMissing_induction (P := OneLineNames)
    (fun p hp _ _ h hmade => h.makeDirectory (hpaths p hp) hmade) h

theorem writeFile (h : fs.OneLineNames) {p : Path} (hp : Text.OneLine p) (content : Bytes) :
    (fs.writeFile p content).1.OneLineNames := by
  rcases fs.writeFile_cases p content with ⟨cause, hw⟩ | ⟨loc, d, -, -, hw⟩ | ⟨loc, hplace, -, hw⟩
  · rw [hw]
    exact h
  · rw [hw]
    exact h
  · -- a file was replaced or made at its place; only the second can bring in a name
    obtain ⟨⟨dir, last, hnew, hloc⟩, -⟩ := filePlace_of_eq_ok hplace
    rw [hw]
    refine h.place ?_ _
    unfold filePlace at hplace
    split at hplace
    · cases hplace
    · next hfound =>
      split at hplace
      · cases hplace
      · rw [← Except.ok.inj hplace]
        exact h.newPlace hp hfound

/-- An order first makes the directories and then writes, all at paths on one line. -/
theorem perform (h : fs.OneLineNames) {order : WriteOrder} (horder : order.OneLine) :
    (fs.perform order).1.OneLineNames := by
  obtain ⟨hpath, hdirectory⟩ := horder
  have hdirectories : ∀ q ∈ order.directories, Text.OneLine q := by
    intro q hq
    unfold WriteOrder.directories at hq
    split at hq
    · cases hq
    · next directory hd => exact Path.oneLine_of_mem_upward (hdirectory directory hd) hq
  -- making the directories keeps the condition, even if it breaks off
  have hmissing := h.makeMissing hdirectories
  rw [perform_eq]
  split
  · next hmade => rw [hmade] at hmissing; exact hmissing
  · next hmade => rw [hmade] at hmissing; exact hmissing.writeFile hpath order.content

end OneLineNames

end FileSystem

/-! ## Sessions

The paths of a session are its history file, which stays the same, and the destinations, each of
which comes from one line. -/

namespace Moment

/-- The order to a line on one line has paths on one line. -/
theorem oneLine_of_order? {m : Moment} {order : WriteOrder} (horder : m.order? = some order)
    (hline : Text.OneLine m.line) (hhistory : Text.OneLine m.session.history.path)
    (hname : Text.OneLine m.session.exporter.fileName) : order.OneLine := by
  rcases order?_cases horder with ⟨e, -, rfl⟩ | ⟨-, entries, rfl⟩
  · exact ⟨hhistory, nofun⟩
  · have hpath := Exporter.oneLine_destination hline hname
    refine ⟨hpath, fun directory hd => ?_⟩
    exact Path.oneLine_of_mem_parent? hpath (Option.filter_eq_some_iff.1 hd).1

/-- One moment of a session keeps all names on one line, if its order does. -/
theorem oneLineNames_next {m : Moment} (h : m.fs.OneLineNames)
    (horder : ∀ order, m.order? = some order → order.OneLine) : m.next.1.OneLineNames := by
  cases hm : m.order? with
  | none => rwa [fs_next_of_order?_eq_none hm]
  | some order =>
    rw [fs_next_of_order?_eq_some hm]
    exact h.perform (horder order hm)

end Moment

/-- A session on lines that are on one line leaves all names on one line. -/
theorem Session.oneLineNames_runLines {s : Session} {fs : FileSystem} {lines : List Text}
    (h : fs.OneLineNames) (hlines : ∀ line ∈ lines, Text.OneLine line)
    (hhistory : Text.OneLine s.history.path) (hname : Text.OneLine s.exporter.fileName) :
    (s.runLines fs lines).fs.OneLineNames := by
  refine runLines_invariant_fs (fun m hm h => Moment.oneLineNames_next h fun order horder => ?_) h
  have hsetup := setup_of_mem_moments hm
  have hpath : m.session.history.path = s.history.path := congrArg (·.2.2) hsetup
  have hexporter : m.session.exporter = s.exporter := congrArg (·.2.1) hsetup
  refine Moment.oneLine_of_order? horder (hlines m.line (line_mem_of_mem_moments hm)) ?_ ?_
  · rwa [hpath]
  · rwa [hexporter]

end Reckon
