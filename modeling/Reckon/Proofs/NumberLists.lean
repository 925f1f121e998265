import Mathlib.Data.List.Forall2
import Reckon.Proofs.NumberedExport

/-!
# Which lists of numbers are read

A typed list is cut at its commas, and each part has to spell an integer of 32 bits: digits behind a
sign or without one, with any zeros in front and any blanks around (`EntryNumbers.Names`).

* `EntryNumbers.readInteger_eq_ok_iff`: the reader stops at the first digit that leads beyond its
  limit, and yet accepts all numerals in the range, since more digits never make a number smaller.
* `entryNumbers_read_part_by_part`: a list is read as the numbers of its parts, or its fault is the
  leftmost part that names none.
-/

namespace Reckon

namespace EntryNumbers

/-! ## Integers of 32 bits

What the reader should accept is said without reading: a numeral spells an integer, whatever its
size, and the integer is in range. -/

/-- A numeral spells an integer by its digits, of which there is one at least, and its sign, which
may be missing. -/
inductive Spells : Text → Int → Prop
  | unsigned {digits : Text} (hfilled : digits ≠ []) (hdigits : digits.all isDigit = true) :
      Spells digits (Numeral.read digits)
  | plus {digits : Text} (hfilled : digits ≠ []) (hdigits : digits.all isDigit = true) :
      Spells ('+' :: digits) (Numeral.read digits)
  | minus {digits : Text} (hfilled : digits ≠ []) (hdigits : digits.all isDigit = true) :
      Spells ('-' :: digits) (-(Numeral.read digits : Int))

/-- The integers of 32 bits. -/
def InRange (i : Int) : Prop :=
  -2147483648 ≤ i ∧ i ≤ 2147483647

instance (i : Int) : Decidable (InRange i) :=
  inferInstanceAs (Decidable (_ ∧ _))

theorem inRange_natCast_iff {n : Nat} : InRange n ↔ n ≤ largest := by
  simp only [InRange, largest]
  omega

/-- One more below zero than above. -/
theorem inRange_neg_iff {n : Nat} : InRange (-(n : Int)) ↔ n ≤ largest + 1 := by
  simp only [InRange, largest]
  omega

/-- The numeral that is written for an integer spells it. -/
theorem spells_writeInt (i : Int) : Spells (Numeral.writeInt i) i := by
  have hfilled : Numeral.write i.natAbs ≠ [] := Numeral.write_ne_nil _
  have hdigits := Numeral.all_isDigit_write i.natAbs
  unfold Numeral.writeInt
  split
  · next hneg =>
    have hminus := Spells.minus hfilled hdigits
    rwa [Numeral.read_write, Int.ofNat_natAbs_of_nonpos (Int.le_of_lt hneg), Int.neg_neg] at hminus
  · next hnot =>
    have hunsigned := Spells.unsigned hfilled hdigits
    rwa [Numeral.read_write, Int.natAbs_of_nonneg (Int.not_lt.1 hnot)] at hunsigned

/-- What a numeral consists of. -/
theorem Spells.mem {t : Text} {i : Int} (h : Spells t i) {c : Char} (hc : c ∈ t) :
    c = '+' ∨ c = '-' ∨ isDigit c = true := by
  cases h with
  | unsigned _ hdigits => exact .inr (.inr (List.all_eq_true.1 hdigits c hc))
  | plus _ hdigits =>
    rcases List.mem_cons.1 hc with rfl | hc
    · exact .inl rfl
    · exact .inr (.inr (List.all_eq_true.1 hdigits c hc))
  | minus _ hdigits =>
    rcases List.mem_cons.1 hc with rfl | hc
    · exact .inr (.inl rfl)
    · exact .inr (.inr (List.all_eq_true.1 hdigits c hc))

theorem Spells.not_isBlank {t : Text} {i : Int} (h : Spells t i) : ∀ c ∈ t, isBlank c = false := by
  intro c hc
  rcases h.mem hc with rfl | rfl | hdigit
  · decide
  · decide
  · exact not_isBlank_of_isDigit hdigit

/-- There is no comma in a numeral, so it stays in one part. -/
theorem Spells.comma_not_mem {t : Text} {i : Int} (h : Spells t i) : ',' ∉ t := fun hc =>
  absurd (h.mem hc) (by decide)

/-! ## Reading one integer

The magnitude is read digit by digit against the limit that the sign allows, and each of the three
forms of a numeral has its own. -/

section

variable {limit value n : Nat} {above : IntegerFault} {digits : Text}

/-- What is read is the number of the digits, and it does not exceed the limit. -/
theorem readAfter_of_readDigits (hvalue : value ≤ limit)
    (h : readDigits limit above digits value = .ok n) :
    digits.all isDigit = true ∧ Numeral.readAfter value digits = n ∧ n ≤ limit := by
  induction digits generalizing value with
  | nil =>
    cases h
    exact ⟨rfl, rfl, hvalue⟩
  | cons c rest ih =>
    rw [readDigits] at h
    split at h
    · cases h
    · next hc =>
      dsimp only at h
      split at h
      · cases h
      · next hwithin =>
        -- the number so far is what the rest of the digits is read behind
        obtain ⟨hrest, hread, hlimit⟩ := ih (Nat.not_lt.1 hwithin) h
        have hdigit : isDigit c = true := by simpa using hc
        exact ⟨by rw [List.all_cons, hdigit, hrest, Bool.and_self], hread, hlimit⟩

/-- Digits are read exactly if there are some and their number is within the limit. -/
theorem readMagnitude_eq_ok_iff :
    readMagnitude limit above digits = .ok n
      ↔ digits ≠ [] ∧ digits.all isDigit = true ∧ Numeral.read digits = n ∧ n ≤ limit := by
  unfold readMagnitude
  split
  · next hempty => simp [hempty]
  · next hfilled =>
    constructor
    · intro h
      exact ⟨hfilled, readAfter_of_readDigits (Nat.zero_le limit) h⟩
    · rintro ⟨-, hdigits, rfl, hlimit⟩
      exact readDigits_of_digits hdigits hlimit

/-- The same with what the sign makes of the number. -/
theorem map_readMagnitude_eq_ok_iff {f : Int → Int} {i : Int} :
    (readMagnitude limit above digits : Except IntegerFault Int).map f = .ok i
      ↔ digits ≠ [] ∧ digits.all isDigit = true ∧ Numeral.read digits ≤ limit
        ∧ f (Numeral.read digits) = i := by
  constructor
  · intro h
    cases hread : readMagnitude limit above digits with
    | error cause =>
      rw [hread] at h
      cases h
    | ok n =>
      obtain ⟨hfilled, hdigits, rfl, hlimit⟩ := readMagnitude_eq_ok_iff.1 hread
      rw [hread] at h
      exact ⟨hfilled, hdigits, hlimit, Except.ok.inj h⟩
  · rintro ⟨hfilled, hdigits, hlimit, rfl⟩
    rw [readMagnitude_eq_ok_iff.2 ⟨hfilled, hdigits, rfl, hlimit⟩]
    rfl

end

/-- The numerals of the integers of 32 bits are read, and nothing else is. -/
theorem readInteger_eq_ok_iff {t : Text} {i : Int} :
    readInteger t = .ok i ↔ Spells t i ∧ InRange i := by
  constructor
  · -- the cases of the reader: nothing at all, a minus, a plus, and digits
    intro h
    unfold readInteger at h
    split at h
    · cases h
    · obtain ⟨hfilled, hdigits, hlimit, rfl⟩ := map_readMagnitude_eq_ok_iff.1 h
      exact ⟨.minus hfilled hdigits, inRange_neg_iff.2 hlimit⟩
    · obtain ⟨hfilled, hdigits, hlimit, rfl⟩ := map_readMagnitude_eq_ok_iff.1 h
      exact ⟨.plus hfilled hdigits, inRange_natCast_iff.2 hlimit⟩
    · obtain ⟨hfilled, hdigits, hlimit, rfl⟩ := map_readMagnitude_eq_ok_iff.1 h
      exact ⟨.unsigned hfilled hdigits, inRange_natCast_iff.2 hlimit⟩
  · rintro ⟨hspells, hrange⟩
    cases hspells with
    | unsigned hfilled hdigits =>
      exact readInteger_of_digits hfilled hdigits (inRange_natCast_iff.1 hrange)
    | plus hfilled hdigits =>
      rw [readInteger]
      exact map_readMagnitude_eq_ok_iff.2
        ⟨hfilled, hdigits, inRange_natCast_iff.1 hrange, rfl⟩
    | minus hfilled hdigits =>
      rw [readInteger]
      exact map_readMagnitude_eq_ok_iff.2 ⟨hfilled, hdigits, inRange_neg_iff.1 hrange, rfl⟩

/-! ## Reading the parts

The parts are read from the left up to the first fault. Both outcomes are inductions along the
parts, in which the first part is read and the rest is a list of the same kind. -/

/-- Between its blanks, the part spells an integer of 32 bits. -/
def Names (part : Text) (i : Int) : Prop :=
  Spells part.trim i ∧ InRange i

theorem readInteger_trim_eq_ok_iff {part : Text} {i : Int} :
    readInteger part.trim = .ok i ↔ Names part i :=
  readInteger_eq_ok_iff

/-- A part with a fault names no integer. -/
theorem not_names_of_error {part : Text} {cause : IntegerFault}
    (h : readInteger part.trim = .error cause) (i : Int) : ¬Names part i := by
  intro hnames
  rw [readInteger_trim_eq_ok_iff.2 hnames] at h
  cases h

/-- A list is read if every part names an integer, and then as these integers. -/
theorem readParts_eq_ok_iff {parts : List Text} {numbers : List Int} :
    readParts parts = .ok numbers ↔ List.Forall₂ Names parts numbers := by
  induction parts generalizing numbers with
  | nil => simp [readParts, eq_comm]
  | cons part rest ih =>
    rw [readParts, List.forall₂_cons_left_iff]
    -- the first part decides alone if it is bad; if not, it is in front of the others
    cases hread : readInteger part.trim with
    | error cause => simp [not_names_of_error hread]
    | ok i =>
      simp only [← ih, ← readInteger_trim_eq_ok_iff, hread, Except.ok.injEq]
      cases readParts rest with
      | error e => simp [Except.map]
      | ok others => simp [Except.map, eq_comm]

/-- `bad` is the leftmost part that names no number. -/
def FirstBad (parts : List Text) (bad : Text) : Prop :=
  ∃ front behind, parts = front ++ bad :: behind
    ∧ (∀ part ∈ front, ∃ i, Names part i) ∧ ∀ i, ¬Names bad i

/-- A bad part has a fault of its own. -/
theorem FirstBad.exists_cause {parts : List Text} {bad : Text} (h : FirstBad parts bad) :
    ∃ cause, readInteger bad.trim = .error cause := by
  obtain ⟨-, -, -, -, hbad⟩ := h
  cases hread : readInteger bad.trim with
  | error cause => exact ⟨cause, rfl⟩
  | ok i => exact absurd (readInteger_trim_eq_ok_iff.1 hread) (hbad i)

theorem not_firstBad_nil (bad : Text) : ¬FirstBad [] bad := by
  rintro ⟨front, behind, hparts, -⟩
  simp at hparts

/-- A bad part at the front is the leftmost one. -/
theorem firstBad_cons_of_not_names {part bad : Text} {rest : List Text}
    (h : ∀ i, ¬Names part i) : FirstBad (part :: rest) bad ↔ bad = part := by
  constructor
  · rintro ⟨front, behind, hparts, hfront, -⟩
    cases front with
    | nil => exact (List.cons.inj hparts).1.symm
    | cons first others =>
      obtain ⟨rfl, -⟩ := List.cons.inj hparts
      obtain ⟨i, hi⟩ := hfront part List.mem_cons_self
      exact absurd hi (h i)
  · rintro rfl
    exact ⟨[], rest, rfl, nofun, h⟩

/-- A good part at the front is passed over. -/
theorem firstBad_cons_of_names {part bad : Text} {rest : List Text} {i : Int} (h : Names part i) :
    FirstBad (part :: rest) bad ↔ FirstBad rest bad := by
  constructor
  · rintro ⟨front, behind, hparts, hfront, hbad⟩
    -- the leftmost bad part is not the first one, since that is good
    cases front with
    | nil =>
      obtain ⟨rfl, -⟩ := List.cons.inj hparts
      exact absurd h (hbad i)
    | cons first others =>
      obtain ⟨-, rfl⟩ := List.cons.inj hparts
      exact ⟨others, behind, rfl, (List.forall_mem_cons.1 hfront).2, hbad⟩
  · rintro ⟨front, behind, rfl, hfront, hbad⟩
    exact ⟨part :: front, behind, rfl, List.forall_mem_cons.2 ⟨⟨i, h⟩, hfront⟩, hbad⟩

/-- The fault of a list is that of the leftmost bad part. -/
theorem readParts_eq_error_iff {parts : List Text} {e : EntryNumberError} :
    readParts parts = .error e
      ↔ ∃ bad, FirstBad parts bad ∧ readInteger bad.trim = .error e.cause ∧ e.part = bad.trim := by
  induction parts with
  | nil => simp [readParts, not_firstBad_nil]
  | cons part rest ih =>
    rw [readParts]
    -- the first part is the leftmost bad one, or it is passed over
    cases hread : readInteger part.trim with
    | error cause =>
      simp only [firstBad_cons_of_not_names (not_names_of_error hread), exists_eq_left, hread]
      obtain ⟨text, fault⟩ := e
      simp [eq_comm, and_comm]
    | ok i =>
      simp only [firstBad_cons_of_names (readInteger_trim_eq_ok_iff.1 hread), ← ih]
      cases readParts rest <;> simp [Except.map]

/-! ## Written lists

A list that was written with blanks is cut at its own commas only, and each part is trimmed to its
numeral. -/

/-- The numeral of an integer of 32 bits, with any blanks before and behind. -/
inductive Padded : Text → Int → Prop
  | blanks {before behind : Text} {i : Int} (hbefore : before.isAllBlank = true)
      (hrange : InRange i) (hbehind : behind.isAllBlank = true) :
      Padded (before ++ Numeral.writeInt i ++ behind) i

namespace Padded

variable {part : Text} {parts : List Text} {i : Int} {numbers : List Int}

/-- The numeral is what is left between the blanks. -/
theorem names (h : Padded part i) : Names part i := by
  cases h with
  | blanks hbefore hrange hbehind =>
    have hspells := spells_writeInt i
    refine ⟨?_, hrange⟩
    rwa [Text.trim_append_blank hbehind, Text.trim_blank_append hbefore,
      Text.trim_of_not_isBlank hspells.not_isBlank]

/-- Neither the blanks nor the numeral have a comma. -/
theorem comma_not_mem (h : Padded part i) : ',' ∉ part := by
  cases h with
  | blanks hbefore hrange hbehind =>
    simp only [List.mem_append, not_or]
    refine ⟨⟨fun hmem => ?_, (spells_writeInt i).comma_not_mem⟩, fun hmem => ?_⟩
    · exact absurd (List.all_eq_true.1 hbefore ',' hmem) (by decide)
    · exact absurd (List.all_eq_true.1 hbehind ',' hmem) (by decide)

/-- The commas between the numerals are the ones at which the list is cut. -/
theorem splitOn_joinWith (h : List.Forall₂ Padded parts numbers) (hne : numbers ≠ []) :
    splitOn ',' (joinWith [','] parts) = parts := by
  have hparts : parts ≠ [] := fun e => hne (List.forall₂_nil_left_iff.1 (e ▸ h))
  have hboth : List.Forall₂ (fun part i => ',' ∉ part ∧ Padded part i) parts numbers :=
    h.imp fun _ _ hpart => ⟨hpart.comma_not_mem, hpart⟩
  exact Reckon.splitOn_joinWith hparts ((List.forall₂_and_left parts numbers).1 hboth).1

end Padded

end EntryNumbers

open EntryNumbers in
/-- A list is read as the numbers that its parts name, in order. If there is a part that names none,
the fault carries the leftmost such part, without the blanks around it. So the numerals of integers
of 32 bits, with blanks around them and commas between them, are read as these integers. -/
theorem entryNumbers_read_part_by_part :
    (∀ line numbers, readEntryNumbers line = .ok numbers
        ↔ List.Forall₂ Names (splitOn ',' line) numbers)
      ∧ (∀ line text, (∃ cause, readEntryNumbers line = .error ⟨text, cause⟩)
        ↔ ∃ bad, FirstBad (splitOn ',' line) bad ∧ text = bad.trim)
      ∧ ∀ parts numbers, List.Forall₂ Padded parts numbers → numbers ≠ [] →
        readEntryNumbers (joinWith [','] parts) = .ok numbers := by
  refine ⟨fun _ _ => readParts_eq_ok_iff, fun line text => ?_, fun parts numbers h hne => ?_⟩
  · simp only [readEntryNumbers, readParts_eq_error_iff]
    constructor
    · rintro ⟨cause, bad, hbad, -, htext⟩
      exact ⟨bad, hbad, htext⟩
    · rintro ⟨bad, hbad, htext⟩
      obtain ⟨cause, hcause⟩ := hbad.exists_cause
      exact ⟨cause, bad, hbad, hcause, htext⟩
  · rw [readEntryNumbers, Padded.splitOn_joinWith h hne]
    exact readParts_eq_ok_iff.2 (h.imp fun _ _ hpart => hpart.names)

/-- The least and the greatest integer are read, and zero between blanks. The integer behind the
greatest one is the fault of its list, although there is a worse part behind it. -/
theorem entryNumbers_read_part_by_part_at_limits :
    (List.Forall₂ EntryNumbers.Padded
        ["-2147483648".toList, "\t0\u2003".toList, " 2147483647".toList]
        [-2147483648, 0, 2147483647]
      ∧ readEntryNumbers "-2147483648,\t0\u2003, 2147483647".toList
        = .ok [-2147483648, 0, 2147483647])
      ∧ ∃ cause, readEntryNumbers "+07, 2147483648 ,x".toList
        = .error ⟨"2147483648".toList, cause⟩ := by
  have hleast : Numeral.writeInt (-2147483648) = "-2147483648".toList := by decide +kernel
  have hzero : Numeral.writeInt 0 = ['0'] := by decide +kernel
  have hgreatest : Numeral.writeInt 2147483647 = "2147483647".toList := by decide +kernel
  have hfirst := @EntryNumbers.Padded.blanks [] [] (-2147483648) rfl (by decide) rfl
  have hsecond := @EntryNumbers.Padded.blanks ['\t'] ['\u2003'] 0 rfl (by decide) rfl
  have hthird := @EntryNumbers.Padded.blanks [' '] [] 2147483647 rfl (by decide) rfl
  rw [hleast] at hfirst
  rw [hzero] at hsecond
  rw [hgreatest] at hthird
  have hpadded : List.Forall₂ EntryNumbers.Padded
      ["-2147483648".toList, "\t0\u2003".toList, " 2147483647".toList]
      [-2147483648, 0, 2147483647] := .cons hfirst (.cons hsecond (.cons hthird .nil))
  have hgood : EntryNumbers.Names "+07".toList 7 := EntryNumbers.readInteger_trim_eq_ok_iff.1 rfl
  -- one more than the greatest, which the reader calls too large
  have hbad : ∀ i, ¬EntryNumbers.Names " 2147483648 ".toList i :=
    @EntryNumbers.not_names_of_error _ .tooLarge rfl
  refine ⟨⟨hpadded, ?_⟩, ?_⟩
  · exact entryNumbers_read_part_by_part.2.2 _ _ hpadded (List.cons_ne_nil _ _)
  · exact (entryNumbers_read_part_by_part.2.1 _ _).2 ⟨" 2147483648 ".toList,
      ⟨["+07".toList], [['x']], rfl, List.forall_mem_singleton.2 ⟨7, hgood⟩, hbad⟩, rfl⟩

end Reckon
