import Reckon.Proofs.Exporting
import Reckon.Proofs.LineReading
import Reckon.Proofs.Saving

/-!
# The history file under an export

An export knows nothing of the history file. If its destination leads to another place, or nothing
is written, the file is opened as before (`History.Held.reloaded`). If it leads to the same place,
however it is spelled, the readable lines take the place of the history's own, and none of them is
read as an entry (`HistoryFile.entries_export`): the history is gone at the next start.
-/

namespace Reckon

/-! ## Readable lines are no entries

A readable line has its arrow between two texts without the delimiter. A delimiter in it would have
to lie across the blanks around the arrow, and it has no blank. -/

section

variable {α : Type} {c : α} {l front back : List α}

/-- What begins in front of an element and does not have it ends in front of it. -/
theorem prefix_of_prefix_append_cons (h : l <+: front ++ c :: back) (hc : c ∉ l) : l <+: front := by
  rcases List.prefix_or_prefix_of_prefix h (List.prefix_append front (c :: back)) with
    hfront | ⟨tail, rfl⟩
  · exact hfront
  · cases tail with
    | nil => exact (List.append_nil front).symm ▸ List.prefix_refl front
    | cons d tail =>
      obtain ⟨rfl, -⟩ := List.cons_prefix_cons.1 ((List.prefix_append_right_inj front).1 h)
      exact absurd (List.mem_append_right front List.mem_cons_self) hc

/-- What lies across an element has that element. -/
theorem infix_of_infix_append_cons (h : l <:+: front ++ c :: back) (hc : c ∉ l) :
    l <:+: front ∨ l <:+: back := by
  induction front with
  | nil =>
    -- it begins at `c` or behind it
    rcases List.infix_cons_iff.1 h with hpre | hback
    · have hnil : l <+: [] := prefix_of_prefix_append_cons hpre hc
      exact .inl hnil.isInfix
    · exact .inr hback
  | cons d rest ih =>
    -- it begins right here and then ends before `c`, or further behind
    rcases List.infix_cons_iff.1 h with hpre | hrest
    · have hfront : l <+: d :: rest := prefix_of_prefix_append_cons hpre hc
      exact .inl hfront.isInfix
    · exact (ih hrest).imp_left fun hi => hi.trans (List.suffix_cons d rest).isInfix

end

namespace Entry

/-- A line without the delimiter has one field. -/
theorem ofLine?_of_not_infix {t : Text} (h : ¬delimiter <:+: t) : ofLine? t = none := by
  rw [ofLine?, fields, splitOnSemicolons_of_not_infix h]
  cases t <;> rfl

/-- The readable line of an entry that is read back holds no delimiter. -/
theorem not_infix_text {e : Entry} (h : e.ReadBack) : ¬delimiter <:+: e.text := by
  intro hi
  have htext : e.text = e.expression ++ ' ' :: ("->".toList ++ ' ' :: e.result) := by
    simp [text]
  rw [htext] at hi
  rcases infix_of_infix_append_cons hi (by decide) with hi | hi
  · exact h.expressionClear hi
  · rcases infix_of_infix_append_cons hi (by decide) with hi | hi
    · revert hi
      decide
    · exact h.resultClear hi

end Entry

namespace HistoryFile

/-- An export of entries that were read is read as no entries. -/
theorem entries_export {es : List Entry} {bytes : Bytes} (h : es ⊆ entries bytes) :
    entries (Exporter.content es) = [] := by
  have hone : ∀ t ∈ es.map Entry.text, '\n' ∉ t := by
    intro t ht
    obtain ⟨e, he, rfl⟩ := List.mem_map.1 ht
    have hline := lineFeed_not_mem_of_mem_entries (h he)
    simp only [Entry.line, Entry.text, List.mem_append, not_or] at hline ⊢
    exact ⟨⟨hline.1.1, by decide⟩, hline.2⟩
  have hcontent : Exporter.content es
      = Utf8.encode ((es.map Entry.text).flatMap (· ++ ['\n'])) := by
    rw [Exporter.content, List.flatMap_map]
  rw [entries, hcontent, lineTexts_encode hone, List.filterMap_eq_nil_iff]
  intro t ht
  obtain ⟨whole, hwhole, rfl⟩ := List.mem_map.1 ht
  obtain ⟨e, he, rfl⟩ := List.mem_map.1 hwhole
  have hclear := Entry.not_infix_text (readBack_of_mem_entries (h he))
  exact Entry.ofLine?_of_not_infix fun hi => hclear (hi.trans (prefix_withoutReturn _).isInfix)

end HistoryFile

/-! ## The file at a place

What is loaded depends only on the file at the place of the path. `History.Held` says that the
history in memory is the one that would be loaded now, which is what has to survive the export. -/

namespace FileSystem

variable {fs fs' : FileSystem}

/-- Bytes are read from the file at the place of the path, if any are. -/
theorem bytesOf_read (fs : FileSystem) (p : Path) :
    History.bytesOf (fs.read p) = []
      ∨ fs.nodeAt? (fs.placeOf p) = some (.file (History.bytesOf (fs.read p))) := by
  unfold read
  -- without a location, or without a file in it, nothing is read
  split
  · exact .inl rfl
  · exact .inl rfl
  · next loc hlocate =>
    have hloc : loc = fs.placeOf p := location_of_locate hlocate
    rw [← hloc]
    split
    · next hnode => exact .inr hnode
    · exact .inl rfl
    · exact .inl rfl
    · exact .inl rfl

/-- A history is empty if no file with an entry is at its place. -/
theorem entries_openHistory_eq_nil {p : Path}
    (h : ∀ bytes, fs.nodeAt? (fs.placeOf p) = some (.file bytes) →
      HistoryFile.entries bytes = []) : (fs.openHistory p).1.entries = [] := by
  show HistoryFile.entries (History.bytesOf (fs.read p)) = []
  rcases fs.bytesOf_read p with hnil | hfile
  · rw [hnil]
    rfl
  · exact h _ hfile

/-- A path under which a content was read leads to its place. -/
theorem locate_of_read {p : Path} {bytes : Bytes} (h : fs.read p = .content bytes) :
    fs.locate p = .ok (.present (fs.placeOf p)) := by
  unfold read at h
  split at h
  · cases h
  · cases h
  · next loc hlocate => rw [hlocate, ← location_of_locate hlocate]; rfl

end FileSystem

/-- The file of a history holds its entries, and is reached by the path, if there is one. -/
structure History.Held (h : History) (fs : FileSystem) : Prop where
  loaded : (fs.openHistory h.path).1.entries = h.entries
  reached : ∀ bytes, fs.nodeAt? (fs.placeOf h.path) = some (.file bytes) →
    fs.read h.path = .content bytes

/-- Where the file at its place is the same, a history is opened as before. -/
theorem History.Held.reloaded {h : History} {fs fs' : FileSystem} (held : h.Held fs)
    (hgrows : fs.Grows fs')
    (hsame : ∀ bytes, fs'.nodeAt? (fs.placeOf h.path) = some (.file bytes)
      ↔ fs.nodeAt? (fs.placeOf h.path) = some (.file bytes)) :
    (fs'.openHistory h.path).1.entries = h.entries := by
  by_cases hfile : ∃ bytes, fs.nodeAt? (fs.placeOf h.path) = some (.file bytes)
  · obtain ⟨bytes, hnode⟩ := hfile
    have hread := held.reached bytes hnode
    have hread' : fs'.read h.path = .content bytes :=
      FileSystem.read_of_locate (hgrows.locate (FileSystem.locate_of_read hread))
        ((hsame bytes).2 hnode)
    rw [← held.loaded, FileSystem.openHistory, FileSystem.openHistory, hread, hread']
  · -- without a file there is nothing to load, before as after
    have hnone : ∀ bytes, fs.nodeAt? (fs.placeOf h.path) ≠ some (.file bytes) :=
      fun bytes hnode => hfile ⟨bytes, hnode⟩
    rw [← held.loaded, FileSystem.entries_openHistory_eq_nil fun bytes hnode =>
      absurd hnode (hnone bytes)]
    refine FileSystem.entries_openHistory_eq_nil fun bytes hnode => ?_
    rw [hgrows.placeOf] at hnode
    exact absurd ((hsame bytes).1 hnode) (hnone bytes)

/-- A history that is held by its file is opened with the same entries after an export that writes
nothing or writes at another place, whatever its outcome. After one that was written at its own
place it is opened with none. -/
theorem history_reloaded_after_exporting {x : Exporter} {h : History} {fs fs' : FileSystem}
    {request : ExportRequest} {exported : Exported} (held : h.Held fs)
    (hrun : fs.MayRun (x.carryOut fs.workingPath? h request) fs' exported) :
    let reloaded := (fs'.openHistory h.path).1.entries
    let destination := fs.placeOf (x.destination request.destination)
    (Unwritten exported.outcome ∨ destination ≠ fs.placeOf h.path → reloaded = h.entries)
      ∧ (∀ path count, exported.outcome = .ok (.written path count) →
          destination = fs.placeOf h.path → reloaded = []) := by
  intro reloaded destination
  obtain ⟨hchanged, hsame⟩ := Exporter.changedFor hrun
  constructor
  · rintro (hunwritten | hother)
    · exact held.reloaded hchanged.grows fun bytes => hsame hunwritten _ bytes
    · exact held.reloaded hchanged.grows fun bytes => hchanged.file_iff hother.symm bytes
  · -- the place of the history now holds readable lines, or a device, of which nothing is read
    intro path count hwritten hplace
    have hnode := Exporter.nodeAt?_of_written hrun hwritten
    rw [show fs.placeOf (x.destination request.destination) = _ from hplace,
      ← hchanged.grows.placeOf] at hnode
    refine FileSystem.entries_openHistory_eq_nil fun bytes hfile => ?_
    rcases hnode with ⟨d, hdevice⟩ | hcontent
    · rw [hdevice] at hfile
      cases hfile
    · rw [hcontent] at hfile
      cases hfile
      have hsub := request.chosen_subset h
      rw [← held.loaded] at hsub
      exact HistoryFile.entries_export hsub

/-- A working directory with a history of one entry. -/
def FileSystem.withHistory : FileSystem :=
  .holding (.file (Utf8.encode "1+1;;;2\n".toList))

/-- The entry is there after an export to another file, and gone after one to the history file by
another spelling of its path. -/
theorem history_reloaded_beside_and_lost_at_its_place :
    let fs := FileSystem.withHistory
    let h := (fs.openHistory "h.log".toList).1
    let exported (destination : Text) := fs.run
      ((⟨"log.log".toList⟩ : Exporter).carryOut fs.workingPath? h (.selected destination [1]))
    h.entries = [⟨"1+1".toList, ['2']⟩]
      ∧ ((exported "out.txt".toList).1.openHistory h.path).1.entries = h.entries
      ∧ ((exported "../w/h.log".toList).1.openHistory h.path).1.entries = [] := by
  intro fs h exported
  have held : h.Held fs := by
    refine ⟨rfl, fun bytes hnode => ?_⟩
    have hfile : fs.nodeAt? (fs.placeOf h.path)
        = some (.file (Utf8.encode "1+1;;;2\n".toList)) := by
      decide +kernel
    rw [hfile] at hnode
    cases hnode
    rfl
  have hbeside := history_reloaded_after_exporting held (fs.mayRun_run
    ((⟨"log.log".toList⟩ : Exporter).carryOut fs.workingPath? h (.selected "out.txt".toList [1])))
  have hlost := history_reloaded_after_exporting held (fs.mayRun_run
    ((⟨"log.log".toList⟩ : Exporter).carryOut fs.workingPath? h
      (.selected "../w/h.log".toList [1])))
  -- what is left to evaluate is where the two destinations lie
  refine ⟨by decide +kernel, hbeside.1 (.inr (by decide +kernel)), ?_⟩
  exact hlost.2 "/w/../w/h.log".toList 1 (by decide +kernel) (by decide +kernel)

/-- An export to `./h.log` succeeds and leaves nothing of the history in `h.log`. -/
theorem history_lost_by_exporting :
    let fs := FileSystem.withHistory
    let h := (fs.openHistory "h.log".toList).1
    let after := fs.run ((⟨"log.log".toList⟩ : Exporter).carryOut fs.workingPath? h
      (.all "./h.log".toList))
    h.entries = [⟨"1+1".toList, ['2']⟩]
      ∧ after.2.outcome = .ok (.written "/w/./h.log".toList 1)
      ∧ (after.1.openHistory h.path).1.entries = [] := by
  decide +kernel

end Reckon
