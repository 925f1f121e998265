import Reckon.Proofs.LineReading
import Reckon.Proofs.Saving

/-!
# Opening a file that was opened before

The first save after a file was opened writes all of its lines anew. What was read from an old line
is read from the new one again, with one exception: a result can end in a carriage return, if its
line ended in two of them. The new line then ends in the one that is left, and the next reading
drops it (`Entry.rewritten?`). So a file that others wrote can lose a little each time it is saved
(`entries_reopened`).
-/

namespace Reckon

/-! ## Lines that are written anew

An entry that was read is written on a line of its own, and this line ends as its result does. So
the only thing that can go wrong is the end of the line: `withoutReturn` is applied to a text that
had one carriage return too many. -/

namespace Entry

open HistoryFile (withoutReturn prefix_withoutReturn withoutReturn_of_ne)

/-- What is read from the new line of an entry that was read: a carriage return at the end of its
result goes with the end of the line, and a result that was nothing else makes the line
malformed. -/
def rewritten? (e : Entry) : Option Entry :=
  if withoutReturn e.result = [] then none else some ⟨e.expression, withoutReturn e.result⟩

/-- The carriage return at the end of a line is the one at the end of the result. -/
theorem withoutReturn_line {e : Entry} (h : e.result ≠ []) :
    withoutReturn e.line = e.expression ++ delimiter ++ withoutReturn e.result := by
  have hlast : e.line.getLast? = e.result.getLast? := by
    rw [line, List.getLast?_append_of_ne_nil _ h]
  unfold withoutReturn
  rw [hlast]
  split
  · rw [line, List.dropLast_append_of_ne_nil h]
  · rw [line]

/-- The new line of an entry that was read is read as the rewritten entry. -/
theorem ofLine?_withoutReturn_line {e : Entry} (h : e.ReadBack) :
    ofLine? (withoutReturn e.line) = e.rewritten? := by
  rw [withoutReturn_line h.resultFilled, ofLine?_append h (prefix_withoutReturn _), rewritten?]

/-- An entry survives its new line exactly if its result does not end in a carriage return. -/
theorem rewritten?_eq_self_iff {e : Entry} (h : e.result ≠ []) :
    e.rewritten? = some e ↔ e.result.getLast? ≠ some '\r' := by
  constructor
  · intro hself hlast
    -- a result that lost its last character is another one
    have hshorter : (withoutReturn e.result).length < e.result.length := by
      rw [withoutReturn, if_pos hlast, List.length_dropLast]
      exact Nat.sub_lt (List.length_pos_iff.2 h) Nat.one_pos
    unfold rewritten? at hself
    split at hself
    · cases hself
    · have hresult : withoutReturn e.result = e.result :=
        congrArg Entry.result (Option.some.inj hself)
      exact absurd (congrArg List.length hresult) (Nat.ne_of_lt hshorter)
  · intro hlast
    rw [rewritten?, withoutReturn_of_ne hlast, if_neg h]

/-- Nothing is lost or changed exactly if nothing ends in a carriage return. -/
theorem filterMap_rewritten?_eq_self_iff {es : List Entry} (h : ∀ e ∈ es, e.result ≠ []) :
    es.filterMap rewritten? = es ↔ ∀ e ∈ es, e.result.getLast? ≠ some '\r' := by
  rw [← forall₂_congr fun e he => rewritten?_eq_self_iff (h e he)]
  constructor
  · -- as many come back as there were, so each of them does
    intro hself
    induction es with
    | nil => exact fun e he => absurd he List.not_mem_nil
    | cons first rest ih =>
      cases hfirst : first.rewritten? with
      | none =>
        rw [List.filterMap_cons_none hfirst] at hself
        have hlength := List.length_filterMap_le rewritten? rest
        rw [hself] at hlength
        exact absurd hlength (Nat.not_succ_le_self _)
      | some e =>
        rw [List.filterMap_cons_some hfirst] at hself
        obtain ⟨rfl, hrest⟩ := List.cons.inj hself
        intro e' he'
        rcases List.mem_cons.1 he' with rfl | he'
        · exact hfirst
        · exact ih (fun e he => h e (List.mem_cons_of_mem _ he)) hrest e' he'
  · intro hself
    rw [List.filterMap_congr hself, List.filterMap_some]

end Entry

namespace HistoryFile

/-- A whole file of such entries is read as the rewritten ones. -/
theorem entries_content_of_readBack {es : List Entry} (hone : ∀ e ∈ es, '\n' ∉ e.line)
    (hback : ∀ e ∈ es, e.ReadBack) : entries (content es) = es.filterMap Entry.rewritten? := by
  rw [entries, lineTexts_content_of_oneLine hone, List.filterMap_map]
  exact List.filterMap_congr fun e he => Entry.ofLine?_withoutReturn_line (hback e he)

end HistoryFile

/-! ## A file that is opened, written and opened again

The entry that is recorded in between was not read from a file, so that it lasts is a condition on
it; for the others `readBack_of_mem_entries` is enough. -/

/-- An entry that comes back from any file in which it is saved. -/
structure Entry.Lasting (e : Entry) : Prop extends e.ReadBack where
  expressionOneLine : '\n' ∉ e.expression
  resultOneLine : '\n' ∉ e.result
  resultEnd : e.result.getLast? ≠ some '\r'

theorem Entry.Lasting.lineFeed_not_mem_line {e : Entry} (h : e.Lasting) : '\n' ∉ e.line := by
  simp only [Entry.line, List.mem_append, not_or]
  exact ⟨⟨h.expressionOneLine, by decide⟩, h.resultOneLine⟩

/-- The loaded entries come back rewritten, and the recorded one as it is. -/
theorem HistoryFile.entries_content_append {bytes : Bytes} {x : Entry} (hx : x.Lasting) :
    entries (content (entries bytes ++ [x]))
      = (entries bytes).filterMap Entry.rewritten? ++ [x] := by
  -- loaded entries and a lasting one all fit into a line and are read back
  have hone : ∀ e ∈ entries bytes ++ [x], '\n' ∉ e.line := by
    intro e he
    rcases List.mem_append.1 he with he | he
    · exact lineFeed_not_mem_of_mem_entries he
    · rw [List.mem_singleton.1 he]
      exact hx.lineFeed_not_mem_line
  have hback : ∀ e ∈ entries bytes ++ [x], e.ReadBack := by
    intro e he
    rcases List.mem_append.1 he with he | he
    · exact readBack_of_mem_entries he
    · rw [List.mem_singleton.1 he]
      exact hx.toReadBack
  have hlast : x.rewritten? = some x :=
    (Entry.rewritten?_eq_self_iff hx.resultFilled).2 hx.resultEnd
  rw [entries_content_of_readBack hone hback, List.filterMap_append,
    List.filterMap_cons_some hlast, List.filterMap_nil]

/-- Whatever bytes `B` the file held: after a lasting entry was recorded and saved, the file is
opened with that entry at the end, and in front of it with what was loaded before, each result less
the carriage return at its end. So nothing changes exactly if no loaded result ends in one. -/
theorem entries_reopened {fs : FileSystem} {path : Path} {B : Bytes} {x : Entry}
    (hfile : fs.read path = .content B)
    (hkept : fs.nodeAt? (fs.placeOf path) ≠ some (.device .null)) (hx : x.Lasting)
    (hsaved : (Store.opened fs path).report? (.recorded x) = some (.ok ())) :
    let loaded := (fs.openHistory path).1.entries
    let reopened :=
      (((Store.opened fs path).after (.recorded x)).fs.openHistory path).1.entries
    loaded = HistoryFile.entries B
      ∧ reopened = loaded.filterMap Entry.rewritten? ++ [x]
      ∧ (reopened = loaded ++ [x] ↔ ∀ e ∈ loaded, e.result.getLast? ≠ some '\r') := by
  intro loaded reopened
  have hloaded : loaded = HistoryFile.entries B := by
    show HistoryFile.entries (History.bytesOf (fs.read path)) = _
    rw [hfile, History.bytesOf]
  have hentries : ((Store.opened fs path).after (.recorded x)).history.entries = loaded ++ [x] := by
    rw [Store.history_after]
    rfl
  have hread := Store.read_of_saved hsaved hkept
  have hreopened : reopened = loaded.filterMap Entry.rewritten? ++ [x] := by
    show HistoryFile.entries
      (History.bytesOf (FileSystem.read _ (Store.opened fs path).history.path)) = _
    rw [hread, History.bytesOf, hentries, hloaded]
    exact HistoryFile.entries_content_append hx
  refine ⟨hloaded, hreopened, ?_⟩
  -- the recorded entry is the same on both sides, so the loaded ones are compared
  rw [hreopened, List.append_left_inj, hloaded]
  exact Entry.filterMap_rewritten?_eq_self_iff fun e he =>
    (HistoryFile.readBack_of_mem_entries he).resultFilled

/-- A file with a line of each kind: one with a carriage return, one with two, one that is no UTF-8
and has an empty field at its end, and one that is no entry. -/
def HistoryFile.foreign : Bytes :=
  Utf8.encode "1+1;;;2\r\n2*2;;;4\r\r\n".toList ++ 255 :: Utf8.encode ";;;9;;;\ngarbage".toList

/-- The second result loses its carriage return, and all else is kept. -/
theorem entries_reopened_foreign :
    let s := Store.opened (.holding (.file HistoryFile.foreign)) "h.log".toList
    s.history.entries = [⟨"1+1".toList, ['2']⟩, ⟨"2*2".toList, "4\r".toList⟩, ⟨['\ufffd'], ['9']⟩]
      ∧ ((s.after (.recorded ⟨['3'], ['3']⟩)).fs.openHistory "h.log".toList).1.entries
        = [⟨"1+1".toList, ['2']⟩, ⟨"2*2".toList, ['4']⟩, ⟨['\ufffd'], ['9']⟩, ⟨['3'], ['3']⟩] := by
  have hlasting : Entry.Lasting ⟨['3'], ['3']⟩ :=
    ⟨⟨by decide, by decide, by decide, by decide⟩, by decide, by decide, by decide⟩
  have hfile : (FileSystem.holding (.file HistoryFile.foreign)).read "h.log".toList
      = .content HistoryFile.foreign := rfl
  have hreopened := entries_reopened hfile (by decide +kernel) hlasting (by decide +kernel)
  refine ⟨hreopened.1.trans (by decide +kernel), hreopened.2.1.trans ?_⟩
  rw [hreopened.1]
  decide +kernel

/-- One line with two carriage returns: opened, saved with another entry, and opened again, the
result of its entry is another one. -/
theorem result_changed_by_reopening :
    let s := Store.opened (.holding (.file (Utf8.encode "1+1;;;2\r\r\n".toList))) "h.log".toList
    s.report? (.recorded ⟨['3'], ['3']⟩) = some (.ok ())
      ∧ s.history.entries = [⟨"1+1".toList, "2\r".toList⟩]
      ∧ ((s.after (.recorded ⟨['3'], ['3']⟩)).fs.openHistory "h.log".toList).1.entries
        = [⟨"1+1".toList, ['2']⟩, ⟨['3'], ['3']⟩] := by
  decide +kernel

end Reckon
