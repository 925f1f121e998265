import Reckon.Binary64.Writing
import Reckon.Proofs.HistoryFormat

/-!
# What a calculation leaves in the history file

The text of a result is made of digits, a sign, a point and the letters of `NaN` and `inf`. So the
result of a recorded entry never disturbs its line, and only the expression decides how the entry
comes back.
-/

namespace Reckon

/-! ## The text of a result

All texts are built from digits and a few fixed characters, so `isResultChar` is checked once for
each way of building them, and then anything else is excluded at once. -/

/-- The characters of which results are made. -/
def isResultChar (c : Char) : Bool :=
  isDigit c || ['-', '.', 'N', 'a', 'i', 'n', 'f'].contains c

theorem all_isResultChar_of_isDigit {t : Text} (h : t.all isDigit = true) :
    t.all isResultChar = true := by
  rw [List.all_eq_true] at h ⊢
  intro c hc
  rw [isResultChar, h c hc, Bool.true_or]

theorem Decimal.all_isResultChar_write (d : Decimal) : d.write.all isResultChar = true := by
  have hpoint : isResultChar '.' = true := by decide
  unfold Decimal.write
  split
  · exact all_isResultChar_of_isDigit (Numeral.all_isDigit_write _)
  · rw [List.all_append, List.all_cons, hpoint,
      all_isResultChar_of_isDigit (Numeral.all_isDigit_write _),
      all_isResultChar_of_isDigit (Numeral.all_isDigit_writeFixed _ _)]
    rfl

namespace Binary64

theorem all_isResultChar_signed (x : Binary64) {t : Text} (h : t.all isResultChar = true) :
    (x.signed t).all isResultChar = true := by
  have hminus : isResultChar '-' = true := by decide
  unfold signed
  split
  · rw [List.all_cons, hminus, h, Bool.and_self]
  · exact h

theorem all_isResultChar_plainText (x : Binary64) : x.plainText.all isResultChar = true := by
  unfold plainText
  -- no number, an infinity, a zero, and all the others
  split
  · decide
  · split
    · exact all_isResultChar_signed x (by decide)
    · split
      · exact all_isResultChar_signed x (by decide)
      · exact all_isResultChar_signed x (Decimal.all_isResultChar_write _)

theorem all_isResultChar_resultText (x : Binary64) : x.resultText.all isResultChar = true := by
  unfold resultText
  split
  · split
    · decide
    · exact all_isResultChar_signed x (all_isResultChar_of_isDigit (Numeral.all_isDigit_write _))
  · exact all_isResultChar_plainText x

/-- No other character stands in a result. -/
theorem not_mem_resultText (x : Binary64) {c : Char} (h : isResultChar c = false) :
    c ∉ x.resultText := by
  intro hc
  have hall := List.all_eq_true.1 (all_isResultChar_resultText x) c hc
  rw [h] at hall
  exact Bool.false_ne_true hall

theorem signed_ne_nil (x : Binary64) {t : Text} (h : t ≠ []) : x.signed t ≠ [] := by
  unfold signed
  split
  · exact List.cons_ne_nil _ _
  · exact h

/-- A result is never empty. -/
theorem resultText_ne_nil (x : Binary64) : x.resultText ≠ [] := by
  have hdecimal : ∀ d : Decimal, d.write ≠ [] := by
    intro d
    unfold Decimal.write
    split
    · exact Numeral.write_ne_nil _
    · simp
  -- every case writes a numeral or a word, with a sign or without
  unfold resultText
  split
  · split
    · exact List.cons_ne_nil _ _
    · exact signed_ne_nil x (Numeral.write_ne_nil _)
  · unfold plainText
    split
    · exact List.cons_ne_nil _ _
    · split
      · exact signed_ne_nil x (List.cons_ne_nil _ _)
      · split
        · exact signed_ne_nil x (List.cons_ne_nil _ _)
        · exact signed_ne_nil x (hdecimal _)

end Binary64

/-! ## The entry of a calculation -/

/-- An entry as a calculation records it: an expression that was typed on one line, and the text of
a number. -/
structure Entry.Calculated (e : Entry) : Prop where
  oneLine : '\n' ∉ e.expression
  number : ∃ x : Binary64, e.result = x.resultText

namespace Entry.Calculated

variable {e : Entry}

theorem result_ne_nil (h : e.Calculated) : e.result ≠ [] := by
  obtain ⟨x, hx⟩ := h.number
  exact hx ▸ x.resultText_ne_nil

theorem not_mem_result (h : e.Calculated) {c : Char} (hc : isResultChar c = false) :
    c ∉ e.result := by
  obtain ⟨x, hx⟩ := h.number
  exact hx ▸ x.not_mem_resultText hc

/-- The entry is on one line: the expression was typed on one, and the result adds nothing. -/
theorem lineFeed_not_mem_line (h : e.Calculated) : '\n' ∉ e.line := by
  simp only [Entry.line, List.mem_append, not_or]
  exact ⟨⟨h.oneLine, by decide⟩, h.not_mem_result (by decide)⟩

/-- The line ends in the last character of the result. -/
theorem getLast?_line_ne (h : e.Calculated) : e.line.getLast? ≠ some '\r' := by
  rw [Entry.line, List.getLast?_append_of_ne_nil _ h.result_ne_nil]
  exact fun hlast => h.not_mem_result (by decide) (List.mem_of_getLast? hlast)

end Entry.Calculated

/-- What comes back from the file of recorded entries, none of which holds the delimiter in its
expression: all of them, in order, each as it is reread. -/
theorem HistoryFile.entries_content_of_calculated {es : List Entry}
    (hcalc : ∀ e ∈ es, e.Calculated) (hclear : ∀ e ∈ es, ¬Entry.delimiter <:+: e.expression) :
    entries (content es) = es.map Entry.reread := by
  -- neither a semicolon nor an end of line comes out of a result
  have hread : ∀ e ∈ es, Entry.ofLine? e.line = some e.reread := fun e he =>
    Entry.ofLine?_line (hclear e he) (hcalc e he).result_ne_nil
      ((hcalc e he).not_mem_result (by decide))
  rw [entries_content (fun e he => (hcalc e he).lineFeed_not_mem_line)
    (fun e he => (hcalc e he).getLast?_line_ne), List.filterMap_congr hread,
    ← Function.comp_def some, List.filterMap_eq_map]

/-- Entries come back unchanged exactly if none of their expressions ends in a semicolon. -/
theorem Entry.map_reread_eq_self_iff (es : List Entry) :
    es.map Entry.reread = es ↔ ∀ e ∈ es, e.expression.getLast? ≠ some ';' := by
  have hself : es.map Entry.reread = es ↔ es.map Entry.reread = es.map id := by rw [List.map_id]
  rw [hself, List.map_inj_left]
  exact forall₂_congr fun e _ => e.reread_eq_self_iff

end Reckon
