import Mathlib.Data.List.Infix
import Reckon.Proofs.HistoryFormat

/-!
# What can be read from any file

Reading is lenient, so a file can hold lines that no save writes. Still the entries that come out of
it are of one kind: each is on one line (`HistoryFile.lineFeed_not_mem_of_mem_entries`) and is read
again from its own line (`Entry.ofLine?_line_iff`). The first needs that no line feed comes out of
bytes that are none, the second that a line is cut from the left.
-/

namespace Reckon

/-! ## The characters of a line

A character comes out of one byte or, once `Begun`, out of several. `Begun.Long` is the invariant of
the reading: as long as it holds, what is read cannot turn out to be a line feed. -/

namespace Utf8

/-- A character of more than one byte has a value outside ASCII; these bounds on what is read of it
see to that. -/
structure Begun.Long (s : Begun) : Prop where
  continuing : 0x80 ≤ s.low
  next : 2 ≤ s.value * 64 + (s.low - 0x80)
  last : s.missing ≤ 1 → 2 ≤ s.value

/-- Every lead byte begins such a character. -/
theorem long_of_lead {b : UInt8} {s : Begun} (h : lead b = .begun s) : s.Long := by
  -- by the ranges of lead bytes; only those of two, three and four bytes begin anything
  unfold lead at h
  dsimp only at h
  split at h
  · cases h
  · split at h
    · cases h
    · next hlow =>
      split at h
      · rw [← Lead.begun.inj h]
        exact ⟨Nat.le_refl _, by dsimp only; omega, fun _ => by dsimp only; omega⟩
      · split at h
        · rw [← Lead.begun.inj h]
          exact ⟨by dsimp only; split <;> omega, by dsimp only; split <;> omega, nofun⟩
        · split at h
          · rw [← Lead.begun.inj h]
            exact ⟨by dsimp only; split <;> omega, by dsimp only; split <;> omega, nofun⟩
          · cases h

/-- Only ten is the value of a line feed; a value that is no character gives the null one. -/
theorem eq_ten_of_ofNat {n : Nat} (h : Char.ofNat n = '\n') : n = 10 := by
  by_cases hvalid : n.isValidChar
  · rw [Char.ofNat, dif_pos hvalid] at h
    exact congrArg Char.toNat h
  · rw [Char.ofNat, dif_neg hvalid] at h
    cases h

theorem eq_lineFeed_of_toNat {b : UInt8} (h : b.toNat = 10) : b = HistoryFile.lineFeed :=
  UInt8.toNat_inj.1 h

theorem ofNat_of_lead {b : UInt8} {c : Char} (h : lead b = .whole c) : Char.ofNat b.toNat = c := by
  unfold lead at h
  dsimp only at h
  split at h
  · exact Lead.whole.inj h
  · -- no other branch is a whole character
    split at h
    · cases h
    · split at h
      · cases h
      · split at h
        · cases h
        · split at h <;> cases h

/-- What one byte gives where a character may begin: a line feed only if it is one. -/
theorem start_cases (b : UInt8) :
    (some '\n' ∈ (start b).1 → b = HistoryFile.lineFeed)
      ∧ ∀ s, (start b).2 = some s → s.Long := by
  unfold start
  cases hlead : lead b with
  | whole c =>
    refine ⟨fun hmem => ?_, nofun⟩
    have hc : '\n' = c := Option.some.inj (List.mem_singleton.1 hmem)
    exact eq_lineFeed_of_toNat (eq_ten_of_ofNat ((ofNat_of_lead hlead).trans hc.symm))
  | begun s =>
    refine ⟨fun hmem => absurd hmem List.not_mem_nil, fun t ht => ?_⟩
    exact Option.some.inj ht ▸ long_of_lead hlead
  | wrong =>
    refine ⟨fun hmem => ?_, nofun⟩
    cases List.mem_singleton.1 hmem

/-- The same inside a character. -/
theorem continue?_cases {s : Begun} (hlong : s.Long) (b : UInt8) :
    (some '\n' ∈ (continue? s b).1 → b = HistoryFile.lineFeed)
      ∧ ∀ t, (continue? s b).2 = some t → t.Long := by
  obtain ⟨hcontinuing, hnext, hlast⟩ := hlong
  unfold continue?
  dsimp only
  split
  · next hbounds =>
    split
    · next hmissing =>
      refine ⟨fun hmem => ?_, nofun⟩
      -- the bounds keep the value above 127
      have hten := eq_ten_of_ofNat (Option.some.inj (List.mem_singleton.1 hmem)).symm
      have hvalue := hlast hmissing
      omega
    · refine ⟨fun hmem => absurd hmem List.not_mem_nil, fun t ht => ?_⟩
      rw [← Option.some.inj ht]
      exact ⟨Nat.le_refl _, by dsimp only; omega, fun _ => by dsimp only; omega⟩
  · -- the byte is read again as one that begins a character
    have hstart := start_cases b
    refine ⟨fun hmem => hstart.1 ?_, hstart.2⟩
    rcases List.mem_cons.1 hmem with h | h
    · cases h
    · exact h

/-- A line feed that is read from bytes is among the bytes. -/
theorem lineFeed_mem_of_mem_decodeFrom {begun : Option Begun}
    (hlong : ∀ s, begun = some s → s.Long) {bytes : Bytes}
    (h : some '\n' ∈ decodeFrom begun bytes) : HistoryFile.lineFeed ∈ bytes := by
  -- on the bytes, from the start of a character or from within one
  induction bytes generalizing begun with
  | nil =>
    cases begun with
    | none => cases h
    | some s => cases List.mem_singleton.1 h
  | cons b rest ih =>
    have hread : ∃ steps next, decodeFrom begun (b :: rest) = steps ++ decodeFrom next rest
        ∧ (some '\n' ∈ steps → b = HistoryFile.lineFeed) ∧ ∀ s, next = some s → s.Long := by
      cases begun with
      | none => exact ⟨_, _, rfl, start_cases b⟩
      | some s => exact ⟨_, _, rfl, continue?_cases (hlong s rfl) b⟩
    obtain ⟨steps, next, heq, hsteps, hnext⟩ := hread
    rw [heq] at h
    rcases List.mem_append.1 h with h | h
    · exact hsteps h ▸ List.mem_cons_self
    · exact List.mem_cons_of_mem b (ih hnext h)

/-- Nor does a replacement bring one in. -/
theorem lineFeed_not_mem_decodeReplacing {bytes : Bytes} (h : HistoryFile.lineFeed ∉ bytes) :
    '\n' ∉ decodeReplacing bytes := by
  intro hmem
  obtain ⟨step, hstep, hc⟩ := List.mem_map.1 hmem
  -- wrong bytes are replaced by a character of their own
  cases step with
  | none =>
    revert hc
    decide
  | some c =>
    have hc' : c = '\n' := hc
    subst hc'
    have hnone : ∀ s : Begun, none = some s → s.Long := nofun
    exact h (lineFeed_mem_of_mem_decodeFrom hnone hstep)

end Utf8

namespace HistoryFile

theorem lineFeed_not_mem_lineText {line : Bytes} (h : lineFeed ∉ line) : '\n' ∉ lineText line := by
  intro hmem
  have htext : '\n' ∈ Utf8.decodeReplacing line := (prefix_withoutReturn _).subset hmem
  exact Utf8.lineFeed_not_mem_decodeReplacing h htext

theorem lineFeed_not_mem_of_mem_lines {bytes line : Bytes} (h : line ∈ lines bytes) :
    lineFeed ∉ line := by
  have hpiece : line ∈ splitOn lineFeed bytes := by
    unfold lines at h
    dsimp only at h
    split at h
    · exact (List.dropLast_sublist _).mem h
    · exact h
  exact not_mem_of_mem_splitOn hpiece

end HistoryFile

/-! ## The fields of a line

A line is cut from the left at the first `;;;` that is found, which leaves its traces in the pieces:
there is no delimiter in a piece, and no semicolon in front of a cut. An entry with these properties
is put together and cut again without loss. -/

theorem infix_joinWith {α : Type} (sep : List α) {pieces : List (List α)} {piece : List α}
    (h : piece ∈ pieces) : piece <:+: joinWith sep pieces := by
  induction pieces with
  | nil => cases h
  | cons first rest ih =>
    cases rest with
    | nil => exact List.mem_singleton.1 h ▸ List.infix_refl piece
    | cons next more =>
      rw [joinWith]
      rcases List.mem_cons.1 h with rfl | h
      · exact ((List.prefix_append piece sep).trans (List.prefix_append _ _)).isInfix
      · exact (ih h).trans (List.suffix_append _ _).isInfix

theorem infix_of_mem_splitOnSemicolons {t piece : Text} (h : piece ∈ splitOnSemicolons t) :
    piece <:+: t := by
  have hinfix := infix_joinWith [';', ';', ';'] h
  rwa [joinWith_splitOnSemicolons] at hinfix

theorem prefix_of_splitOnSemicolons {t first : Text} {more : List Text}
    (h : splitOnSemicolons t = first :: more) : first <+: t := by
  have hjoin := joinWith_splitOnSemicolons t
  rw [h] at hjoin
  cases more with
  | nil => exact hjoin ▸ List.prefix_refl first
  | cons second rest =>
    rw [joinWith, List.append_assoc] at hjoin
    exact hjoin ▸ List.prefix_append first _

/-- Cutting from the left leaves no delimiter in a piece. -/
theorem not_infix_of_mem_splitOnSemicolons {t piece : Text} (h : piece ∈ splitOnSemicolons t) :
    ¬Entry.delimiter <:+: piece := by
  fun_induction splitOnSemicolons t generalizing piece with
  | case1 =>
    rw [List.mem_singleton.1 h]
    decide
  | case2 rest ih =>
    rcases List.mem_cons.1 h with rfl | h
    · decide
    · exact ih h
  | case3 c rest hhere ih =>
    obtain ⟨front, others, hrest⟩ := List.exists_cons_of_ne_nil (splitOnSemicolons_ne_nil rest)
    rw [hrest] at ih h
    rcases List.mem_cons.1 h with rfl | h
    · intro hi
      -- a delimiter at `c` would have been cut out, and there is none behind it
      rcases List.infix_cons_iff.1 hi with hpre | hi
      · obtain ⟨tail, htail⟩ :=
          hpre.trans ((List.prefix_cons_inj c).2 (prefix_of_splitOnSemicolons hrest))
        obtain ⟨hc, hmore⟩ := List.cons.inj htail
        exact hhere tail hc.symm hmore.symm
      · exact ih List.mem_cons_self hi
    · exact ih (List.mem_cons_of_mem front h)

/-- No semicolon stands right before the first cut: with one the cut would have been there
already. -/
theorem getLast?_ne_of_splitOnSemicolons {t first second : Text} {more : List Text}
    (h : splitOnSemicolons t = first :: second :: more) : first.getLast? ≠ some ';' := by
  fun_induction splitOnSemicolons t generalizing first second more with
  | case1 => cases h
  | case2 rest ih =>
    rw [← (List.cons.inj h).1, List.getLast?_nil]
    exact (Option.some_ne_none ';').symm
  | case3 c rest hhere ih =>
    obtain ⟨front, others, hrest⟩ := List.exists_cons_of_ne_nil (splitOnSemicolons_ne_nil rest)
    rw [hrest, consFirst] at h
    obtain ⟨rfl, hothers⟩ := List.cons.inj h
    cases front with
    | cons d front =>
      rw [List.getLast?_cons_cons]
      exact ih (hrest.trans (congrArg _ hothers))
    | nil =>
      -- the rest begins with a delimiter, so `c` is no semicolon
      intro hlast
      have hc : c = ';' := Option.some.inj hlast
      have hjoin := joinWith_splitOnSemicolons rest
      rw [hrest, hothers, joinWith] at hjoin
      exact hhere (';' :: joinWith [';', ';', ';'] (second :: more)) hc hjoin.symm

namespace Entry

/-- An entry whose line is read as the entry itself. -/
structure ReadBack (e : Entry) : Prop where
  expressionClear : ¬delimiter <:+: e.expression
  expressionEnd : e.expression.getLast? ≠ some ';'
  resultFilled : e.result ≠ []
  resultClear : ¬delimiter <:+: e.result

/-- Such an entry with any other end of its result; without one the line has only one field. -/
theorem ofLine?_append {e : Entry} (h : e.ReadBack) {result : Text}
    (hresult : result <+: e.result) :
    ofLine? (e.expression ++ delimiter ++ result)
      = if result = [] then none else some ⟨e.expression, result⟩ := by
  have hclear : ¬delimiter <:+: result := fun hi => h.resultClear (hi.trans hresult.isInfix)
  have hpieces : splitOnSemicolons (e.expression ++ delimiter ++ result)
      = [e.expression, result] := by
    rw [splitOnSemicolons_append_delimiter h.expressionClear h.expressionEnd,
      splitOnSemicolons_of_not_infix hclear]
  -- an empty piece at the end is dropped, so without a result the line has one field or none
  rw [ofLine?, fields, hpieces]
  cases result with
  | cons c rest => rfl
  | nil => cases e.expression <;> rfl

/-- A line that is read as an entry has exactly its two fields. -/
theorem fields_of_ofLine? {line : Text} {e : Entry} (h : ofLine? line = some e) :
    fields line = [e.expression, e.result] := by
  unfold ofLine? at h
  split at h
  · next hfields => rw [hfields, ← Option.some.inj h]
  · cases h

/-- The fields are the first two pieces of the line; those behind them are empty. -/
theorem prefix_of_ofLine? {line : Text} {e : Entry} (h : ofLine? line = some e) :
    [e.expression, e.result] <+: splitOnSemicolons line := by
  rw [← fields_of_ofLine? h]
  exact List.rdropWhile_prefix _ _

theorem infix_of_ofLine? {line : Text} {e : Entry} (h : ofLine? line = some e) :
    e.expression <:+: line ∧ e.result <:+: line := by
  have hmem := (prefix_of_ofLine? h).subset
  exact ⟨infix_of_mem_splitOnSemicolons (hmem List.mem_cons_self),
    infix_of_mem_splitOnSemicolons (hmem (List.mem_cons_of_mem _ List.mem_cons_self))⟩

/-- Whatever is read from a line is read again from its own line. -/
theorem readBack_of_ofLine? {line : Text} {e : Entry} (h : ofLine? line = some e) :
    e.ReadBack where
  expressionClear :=
    not_infix_of_mem_splitOnSemicolons ((prefix_of_ofLine? h).subset List.mem_cons_self)
  expressionEnd := by
    obtain ⟨more, hmore⟩ := prefix_of_ofLine? h
    exact getLast?_ne_of_splitOnSemicolons hmore.symm
  -- empty pieces at the end are dropped, so the last field is filled
  resultFilled := by
    have hlast := List.rdropWhile_last_not List.isEmpty (splitOnSemicolons line)
    have hdrop : List.rdropWhile List.isEmpty (splitOnSemicolons line)
        = [e.expression, e.result] := fields_of_ofLine? h
    rw [hdrop] at hlast
    simpa using hlast
  resultClear := not_infix_of_mem_splitOnSemicolons
    ((prefix_of_ofLine? h).subset (List.mem_cons_of_mem _ List.mem_cons_self))

/-- The entries that come back from their lines. -/
theorem ofLine?_line_iff (e : Entry) : ofLine? e.line = some e ↔ e.ReadBack := by
  refine ⟨readBack_of_ofLine?, fun h => ?_⟩
  rw [line, ofLine?_append h (List.prefix_refl _), if_neg h.resultFilled]

end Entry

namespace HistoryFile

/-- An entry that was read was on one line. -/
theorem lineFeed_not_mem_of_mem_entries {bytes : Bytes} {e : Entry} (h : e ∈ entries bytes) :
    '\n' ∉ e.line := by
  obtain ⟨text, htext, hentry⟩ := List.mem_filterMap.1 h
  obtain ⟨line, hline, rfl⟩ := List.mem_map.1 htext
  have hclear := lineFeed_not_mem_lineText (lineFeed_not_mem_of_mem_lines hline)
  obtain ⟨hexpression, hresult⟩ := Entry.infix_of_ofLine? hentry
  simp only [Entry.line, List.mem_append, not_or]
  exact ⟨⟨fun hmem => hclear (hexpression.subset hmem), by decide⟩,
    fun hmem => hclear (hresult.subset hmem)⟩

/-- Whatever is read from a file is read again from its own line. -/
theorem readBack_of_mem_entries {bytes : Bytes} {e : Entry} (h : e ∈ entries bytes) :
    e.ReadBack := by
  obtain ⟨text, -, hentry⟩ := List.mem_filterMap.1 h
  exact Entry.readBack_of_ofLine? hentry

end HistoryFile

end Reckon
