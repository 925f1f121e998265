import Mathlib.Algebra.Order.Field.Basic
import Mathlib.Algebra.Order.Ring.Unbundled.Rat
import Mathlib.Data.Rat.Cast.Order
import Mathlib.Tactic.Ring
import Reckon.Proofs.ReadingBack

/-!
# The text of a result

The text that is shown for a finite number is a minus sign, if the number is below zero, before one
decimal in all its digits (`Binary64.resultText_eq`). An integer is written as it is, anything else
in its shortest digits, and either decimal reads back. So a shown result can be typed again
(`result_typed_back`), and there is a point in it exactly if the number is no integer
(`result_digits`).
-/

namespace Reckon

/-! ## The numeral of a natural number

The printer divides by ten, so it is followed from the last digit. That its text is the only numeral
of the number is shown from that end too: the last digit of any numeral is that of its number, and
what stands before it is a numeral again. -/

/-- `Spells n t`: the text is made of digits, begins with a zero only if that is its one digit, and
stands for `n`. -/
structure Numeral.Spells (n : Nat) (t : Text) : Prop where
  ne_nil : t ≠ []
  digits : t.all isDigit = true
  leading : t.head? = some '0' → t = ['0']
  read_eq : Numeral.read t = n

namespace Numeral

theorem lastDigit_eq_zero_iff (n : Nat) : lastDigit n = '0' ↔ n % 10 = 0 := by
  constructor
  · intro h
    have hvalue := congrArg Char.toNat h
    rw [toNat_lastDigit] at hvalue
    exact Nat.add_left_cancel hvalue
  · intro h
    rw [lastDigit, h]

/-- Only zero is written with a zero in front. -/
theorem head?_write_zero {n : Nat} (h : (write n).head? = some '0') : n = 0 := by
  induction n using Nat.strongRecOn with
  | _ n ih =>
    rw [write] at h
    split at h
    · next hsmall =>
      have hzero := (lastDigit_eq_zero_iff n).1 (Option.some.inj h)
      omega
    · next hlarge =>
      rw [List.head?_append_of_ne_nil _ (write_ne_nil _)] at h
      have hzero := ih (n / 10) (by omega) h
      omega

theorem write_zero : write 0 = ['0'] := by
  rw [write]
  rfl

theorem spells_write (n : Nat) : Spells n (write n) where
  ne_nil := write_ne_nil n
  digits := all_isDigit_write n
  leading := fun h => by rw [head?_write_zero h, write_zero]
  read_eq := read_write n

/-- The last digit of a numeral is that of its number. -/
theorem Spells.last {n : Nat} {t : Text} {c : Char} (h : Spells n (t ++ [c])) :
    n = read t * 10 + digitValue c ∧ digitValue c < 10 ∧ lastDigit n = c := by
  have hdigits := h.digits
  have hread := h.read_eq
  rw [List.all_append, Bool.and_eq_true, List.all_cons, Bool.and_eq_true] at hdigits
  have hc : isDigit c = true := hdigits.2.1
  simp only [isDigit, Bool.and_eq_true, decide_eq_true_eq] at hc
  rw [read_concat] at hread
  refine ⟨hread.symm, ?_, Char.toNat_inj.1 ?_⟩
  · rw [digitValue]
    omega
  · rw [toNat_lastDigit, ← hread, digitValue]
    omega

/-- What stands before the last digit is a numeral too, and no zero. -/
theorem Spells.front {n : Nat} {t : Text} {c : Char} (h : Spells n (t ++ [c])) (ht : t ≠ []) :
    Spells (read t) t ∧ t.head? ≠ some '0' := by
  have hhead : t.head? ≠ some '0' := by
    intro hzero
    have hone := congrArg List.length
      (h.leading (by rw [List.head?_append_of_ne_nil _ ht, hzero]))
    rw [List.length_append] at hone
    exact ht (List.length_eq_zero_iff.1 (Nat.add_right_cancel hone))
  have hdigits := h.digits
  rw [List.all_append, Bool.and_eq_true] at hdigits
  exact ⟨⟨ht, hdigits.1, fun hzero => absurd hzero hhead, rfl⟩, hhead⟩

/-- A number has one numeral. -/
theorem spells_iff {n : Nat} {t : Text} : Spells n t ↔ t = write n := by
  refine ⟨fun h => ?_, fun h => h ▸ spells_write n⟩
  induction t using List.reverseRecOn generalizing n with
  | nil => exact absurd rfl h.ne_nil
  | append_singleton t c ih =>
    obtain ⟨hn, hsmall, hlast⟩ := h.last
    by_cases ht : t = []
    · subst ht
      have hdigit : n < 10 := by simpa [hn, read] using hsmall
      rw [write, if_pos hdigit, hlast, List.nil_append]
    · obtain ⟨hfront, hhead⟩ := h.front ht
      -- digits in front that stand for zero would be a leading zero
      have hpositive : read t ≠ 0 := by
        intro hzero
        have hwrite := ih hfront
        rw [hzero, write_zero] at hwrite
        exact hhead (by rw [hwrite, List.head?_cons])
      have hdiv : n / 10 = read t := by omega
      rw [write, if_neg (by omega), hdiv, hlast, ← ih hfront]

end Numeral

/-! ## The number that a word stands for

A finite word stands for a whole number of units, and one is `unitsPerOne` of them. So the rational
value is needed in the statements only: comparing values is comparing signed units. -/

namespace Binary64

/-- The units of a finite number, with its sign. -/
def signedUnits (x : Binary64) : Int :=
  if x.isNegative then -(x.units : Int) else x.units

/-- The number that a finite word stands for. -/
def value (x : Binary64) : Rat :=
  x.signedUnits / unitsPerOne

/-- The number with the other sign. -/
def negated (x : Binary64) : Binary64 :=
  ofMagnitude (!x.isNegative) x.magnitude

theorem cast_unitsPerOne_pos : (0 : Rat) < unitsPerOne :=
  Nat.cast_pos.2 unitsPerOne_pos

theorem value_eq_value_iff {x y : Binary64} :
    x.value = y.value ↔ x.signedUnits = y.signedUnits := by
  rw [value, value, div_left_inj' cast_unitsPerOne_pos.ne', Int.cast_inj]

theorem value_neg_iff_signedUnits {x : Binary64} : x.value < 0 ↔ x.signedUnits < 0 := by
  rw [value, div_neg_iff, and_iff_left cast_unitsPerOne_pos, Int.cast_lt_zero]
  exact or_iff_right fun h => absurd h.2 cast_unitsPerOne_pos.not_gt

/-- A value is an integer if its units are that many ones. -/
theorem value_eq_intCast_iff {x : Binary64} {n : Int} :
    x.value = n ↔ x.signedUnits = n * unitsPerOne := by
  rw [value, div_eq_iff cast_unitsPerOne_pos.ne', ← Int.cast_natCast, ← Int.cast_mul, Int.cast_inj]

theorem magnitude_lt (x : Binary64) : x.magnitude < signWeight :=
  Nat.mod_lt _ (by decide)

theorem infiniteMagnitude_lt : infiniteMagnitude < signWeight := by decide

theorem toNat_bits (x : Binary64) :
    x.bits.toNat = if x.isNegative then signWeight + x.magnitude else x.magnitude := by
  have hbits := x.bits.toNat_lt
  unfold isNegative magnitude signWeight at *
  simp only [decide_eq_true_eq]
  split <;> omega

theorem toNat_bits_ofMagnitude (negative : Bool) {m : Nat} (hm : m < signWeight) :
    (ofMagnitude negative m).bits.toNat = if negative then signWeight + m else m := by
  rw [ofMagnitude, UInt64.toNat_ofNat']
  unfold signWeight at *
  split <;> omega

theorem magnitude_ofMagnitude (negative : Bool) {m : Nat} (hm : m < signWeight) :
    (ofMagnitude negative m).magnitude = m := by
  rw [magnitude, toNat_bits_ofMagnitude negative hm]
  unfold signWeight at *
  split <;> omega

theorem isNegative_ofMagnitude (negative : Bool) {m : Nat} (hm : m < signWeight) :
    (ofMagnitude negative m).isNegative = negative := by
  rw [isNegative, toNat_bits_ofMagnitude negative hm]
  cases negative <;> simp [hm]

/-- Only the two words of zero have no units. -/
theorem unitsOfMagnitude_eq_zero_iff {m : Nat} : unitsOfMagnitude m = 0 ↔ m = 0 := by
  rw [unitsOfMagnitude]
  split
  · rfl
  · next hexponent =>
    have hlow : fractions ≤ m := Nat.le_of_not_lt fun hlt => hexponent (Nat.div_eq_of_lt hlt)
    have hleading : 0 < fractions + m % fractions := by unfold fractions; omega
    have hpositive := Nat.mul_pos hleading (powerOfTwo_pos (m / fractions - 1))
    unfold fractions at hlow
    omega

/-- A number is below zero if its word has the sign and is no zero. -/
theorem value_neg_iff {x : Binary64} :
    x.value < 0 ↔ x.isNegative = true ∧ x.isZero = false := by
  have hzero : x.isZero = false ↔ x.units ≠ 0 := by
    rw [units, Ne, unitsOfMagnitude_eq_zero_iff, isZero, beq_eq_false_iff_ne]
  rw [value_neg_iff_signedUnits, signedUnits, hzero]
  split
  · next hnegative =>
    rw [and_iff_right hnegative]
    omega
  · next hnonnegative =>
    rw [iff_false_right fun h => hnonnegative h.1]
    omega

theorem isFinite_iff {x : Binary64} : x.isFinite = true ↔ x.magnitude < infiniteMagnitude := by
  rw [isFinite, decide_eq_true_eq]

theorem isFinite_negated {x : Binary64} (h : x.isFinite = true) : x.negated.isFinite = true := by
  rwa [isFinite, negated, magnitude_ofMagnitude _ x.magnitude_lt]

/-- Changing the sign of the word changes that of the number. -/
theorem value_negated (x : Binary64) : x.negated.value = -x.value := by
  have hunits : x.negated.units = x.units := by
    rw [units, negated, magnitude_ofMagnitude _ x.magnitude_lt, units]
  have hsign : x.negated.isNegative = !x.isNegative := by
    rw [negated, isNegative_ofMagnitude _ x.magnitude_lt]
  have hsigned : x.negated.signedUnits = -x.signedUnits := by
    rw [signedUnits, signedUnits, hunits, hsign]
    cases x.isNegative <;> simp
  rw [value, value, hsigned, Int.cast_neg, neg_div]

theorem natAbs_signedUnits (x : Binary64) : x.signedUnits.natAbs = x.units := by
  rw [signedUnits]
  split <;> simp

/-- Finite numbers are equal if their words are, but for the signs of zeros. -/
theorem value_eq_value_iff_magnitude {x y : Binary64} (hx : x.isFinite = true)
    (hy : y.isFinite = true) :
    x.value = y.value ↔ x.magnitude = y.magnitude ∧ (x.value < 0 ↔ y.value < 0) := by
  have habsX := natAbs_signedUnits x
  have habsY := natAbs_signedUnits y
  constructor
  · intro h
    have hunits : x.units = y.units := by
      rw [← habsX, ← habsY, value_eq_value_iff.1 h]
    exact ⟨unitsOfMagnitude_inj (isFinite_iff.1 hx).le (isFinite_iff.1 hy).le hunits, by rw [h]⟩
  · rintro ⟨hmagnitude, hsign⟩
    rw [value_neg_iff_signedUnits, value_neg_iff_signedUnits] at hsign
    have hunits : x.units = y.units := by rw [units, units, hmagnitude]
    -- where both are zero, the signs of the words do not count
    rw [value_eq_value_iff]
    omega

/-! ## The decimal that is shown

For integers and for all other numbers the text is that of a decimal, so the cases of the printer
are gone once `resultDecimal` is chosen. What is left of them is the two zeros, which have one
text. -/

/-- What is written for an absolute value: a whole number as it is, anything else in its shortest
digits. -/
def resultDecimal (magnitude : Nat) : Decimal :=
  if unitsOfMagnitude magnitude % unitsPerOne = 0 then
    ⟨unitsOfMagnitude magnitude / unitsPerOne, 0⟩
  else shortest magnitude

theorem write_whole (n : Nat) : (Decimal.mk n 0).write = Numeral.write n := by
  rw [Decimal.write, if_pos (Int.le_refl 0)]
  exact congrArg Numeral.write (Nat.mul_one n)

/-- An integer reads back since it is a value of the format, anything else since its shortest digits
do. -/
theorem readsBack_resultDecimal {magnitude : Nat} (hfinite : magnitude < infiniteMagnitude) :
    readsBack magnitude (resultDecimal magnitude) = true := by
  rw [resultDecimal]
  split
  · next hwhole =>
    have hnumerator :
        (Decimal.mk (unitsOfMagnitude magnitude / unitsPerOne) 0).numerator * unitsPerOne
          = unitsOfMagnitude magnitude * powerOfTen 0 := by
      rw [Decimal.numerator, Nat.mul_right_comm,
        Nat.div_mul_cancel (Nat.dvd_of_mod_eq_zero hwhole)]
      rfl
    rw [readsBack, beq_iff_eq, nearestMagnitude, hnumerator]
    exact nearestToUnits_unitsOfMagnitude hfinite.le Nat.one_pos
  · exact readsBack_shortest hfinite

/-- The decimal that is shown is read as the absolute value of the number. -/
theorem tokenize_resultDecimal {magnitude : Nat} (hfinite : magnitude < infiniteMagnitude) :
    tokenize true (resultDecimal magnitude).write
      = .ok [.number (ofMagnitude false magnitude)] := by
  rw [tokenize_write, ofDecimal, beq_iff_eq.1 (readsBack_resultDecimal hfinite)]

/-- Any number but zero is shown with the sign of its word. -/
theorem resultText_of_ne_zero {x : Binary64} (hfinite : x.isFinite = true)
    (hzero : x.isZero = false) :
    x.resultText = x.signed (resultDecimal x.magnitude).write := by
  have hintegral : x.isIntegral = true ↔ unitsOfMagnitude x.magnitude % unitsPerOne = 0 := by
    rw [isIntegral, units, hfinite, Bool.true_and, beq_iff_eq]
  have hlt := isFinite_iff.1 hfinite
  -- a finite number is neither of the words that are shown by a name
  have hnan : ¬ x.isNaN = true := by
    rw [isNaN, decide_eq_true_eq]
    omega
  have hinfinite : ¬ x.isInfinite = true := by
    rw [isInfinite, beq_iff_eq]
    omega
  rw [resultText, resultDecimal]
  by_cases hwhole : unitsOfMagnitude x.magnitude % unitsPerOne = 0
  · rw [if_pos (hintegral.2 hwhole), if_neg (by simp [hzero]), if_pos hwhole, write_whole, units]
  · rw [if_neg (mt hintegral.1 hwhole), if_neg hwhole, plainText, if_neg hnan, if_neg hinfinite,
      if_neg (by simp [hzero])]

/-- Both zeros are shown alike. -/
theorem resultText_of_zero {x : Binary64} (hzero : x.isZero = true) :
    x.resultText = ['0'] ∧ (resultDecimal x.magnitude).write = ['0'] := by
  have hmagnitude : x.magnitude = 0 := beq_iff_eq.1 hzero
  have hunits : unitsOfMagnitude 0 = 0 := unitsOfMagnitude_eq_zero_iff.2 rfl
  have hintegral : x.isIntegral = true := by
    rw [isIntegral, isFinite, units, hmagnitude, hunits, Nat.zero_mod]
    decide
  constructor
  · rw [resultText, if_pos hintegral, if_pos hzero]
  · rw [hmagnitude, resultDecimal, hunits, Nat.zero_mod, if_pos rfl, Nat.zero_div, write_whole,
      Numeral.write_zero]

/-- A sign, if the number is below zero, before one decimal. -/
theorem resultText_eq {x : Binary64} (hfinite : x.isFinite = true) :
    x.resultText =
      if x.value < 0 then '-' :: (resultDecimal x.magnitude).write
      else (resultDecimal x.magnitude).write := by
  cases hzero : x.isZero with
  | true =>
    have hsign : ¬ x.value < 0 := fun hneg => by simpa [hzero] using (value_neg_iff.1 hneg).2
    rw [if_neg hsign, (resultText_of_zero hzero).1, (resultText_of_zero hzero).2]
  | false =>
    rw [resultText_of_ne_zero hfinite hzero, signed,
      if_congr (value_neg_iff.trans (and_iff_left hzero)) rfl rfl]

/-- A decimal is written without a sign. -/
theorem resultDecimal_write_ne_cons (magnitude : Nat) (t : Text) :
    (resultDecimal magnitude).write ≠ '-' :: t := by
  intro h
  have hnumeral := List.all_eq_true.1 (resultDecimal magnitude).all_isNumeral_write '-'
    (by rw [h]; exact List.mem_cons_self)
  revert hnumeral
  decide

/-- Different absolute values are shown by different decimals, since they read back. -/
theorem resultDecimal_write_inj {m n : Nat} (hm : m < infiniteMagnitude)
    (hn : n < infiniteMagnitude) (h : (resultDecimal m).write = (resultDecimal n).write) :
    m = n := by
  have hread := tokenize_resultDecimal hm
  rw [h, tokenize_resultDecimal hn] at hread
  simp only [Except.ok.injEq, List.cons.injEq, Token.number.injEq, and_true] at hread
  have hlt := infiniteMagnitude_lt
  rw [← magnitude_ofMagnitude false (hm.trans hlt), ← hread,
    magnitude_ofMagnitude false (hn.trans hlt)]

/-- A decimal with no places behind the point is read as a whole number. -/
theorem exponent_neg_of_readsBack {magnitude : Nat} {d : Decimal}
    (hfinite : magnitude < infiniteMagnitude) (h : readsBack magnitude d = true)
    (hfraction : unitsOfMagnitude magnitude % unitsPerOne ≠ 0) : d.exponent < 0 := by
  rw [readsBack, beq_iff_eq] at h
  by_contra hnonneg
  have hdenominator : d.denominator = 1 := by
    rw [Decimal.denominator, show (-d.exponent).toNat = 0 by omega]
    rfl
  rw [hdenominator] at h
  have hdvd := unitsPerOne_dvd_of_nearestMagnitude (h ▸ hfinite)
  rw [h] at hdvd
  exact hfraction (Nat.mod_eq_zero_of_dvd hdvd)

theorem point_mem_write {d : Decimal} (h : d.exponent < 0) : '.' ∈ d.write := by
  rw [Decimal.write, if_neg (Int.not_le.2 h)]
  simp

/-- An integer is a whole number of ones, with the sign of its word. -/
theorem exists_value_eq {x : Binary64} (hwhole : x.units % unitsPerOne = 0) :
    ∃ n : Int, x.value = n := by
  have hdvd : (unitsPerOne : Int) ∣ x.signedUnits := by
    rw [← Int.natAbs_dvd_natAbs, natAbs_signedUnits, Int.natAbs_natCast]
    exact Nat.dvd_of_mod_eq_zero hwhole
  exact ⟨x.signedUnits / unitsPerOne, value_eq_intCast_iff.2 (Int.ediv_mul_cancel hdvd).symm⟩

/-- An integer is shown as it is, a zero without its sign. -/
theorem resultText_of_value_eq {x : Binary64} (hfinite : x.isFinite = true) {n : Int}
    (hn : x.value = n) :
    x.resultText = if n < 0 then '-' :: Numeral.write n.natAbs else Numeral.write n.natAbs := by
  have hunits : x.units = n.natAbs * unitsPerOne := by
    rw [← natAbs_signedUnits, value_eq_intCast_iff.1 hn, Int.natAbs_mul, Int.natAbs_natCast]
  have hdecimal : resultDecimal x.magnitude = ⟨n.natAbs, 0⟩ := by
    rw [resultDecimal, ← units, hunits, if_pos (Nat.mul_mod_left _ _),
      Nat.mul_div_cancel _ unitsPerOne_pos]
  have hsign : x.value < 0 ↔ n < 0 := by rw [hn, Int.cast_lt_zero]
  rw [resultText_eq hfinite, if_congr hsign rfl rfl, hdecimal, write_whole]

/-- Anything else is shown with a point. -/
theorem point_mem_resultText {x : Binary64} (hfinite : x.isFinite = true)
    (hfraction : x.units % unitsPerOne ≠ 0) : '.' ∈ x.resultText := by
  have hmagnitude := isFinite_iff.1 hfinite
  have hexponent : (resultDecimal x.magnitude).exponent < 0 :=
    exponent_neg_of_readsBack hmagnitude (readsBack_resultDecimal hmagnitude) hfraction
  rw [resultText_eq hfinite]
  split
  · exact List.mem_cons_of_mem _ (point_mem_write hexponent)
  · exact point_mem_write hexponent

end Binary64

/-! ## What can be said of the text

Both results hold for all finite words, and infinities and the words of no number are left out: what
is shown for them is no numeral. -/

open Binary64

/-- A shown result that is not below zero is one numeral in strict mode, and is read as the word
that was shown, a zero without its sign. A result below zero is a minus sign before the text of its
negation. So two numbers have the same text exactly if they are equal. -/
theorem result_typed_back :
    (∀ x : Binary64, x.isFinite = true → 0 ≤ x.value →
      ∃ y : Binary64, tokenize true x.resultText = .ok [.number y]
        ∧ y.bits = if x.isZero then 0 else x.bits)
    ∧ (∀ x : Binary64, x.isFinite = true → x.value < 0 →
      x.resultText = '-' :: x.negated.resultText ∧ x.negated.value = -x.value)
    ∧ ∀ x y : Binary64, x.isFinite = true → y.isFinite = true →
      (x.resultText = y.resultText ↔ x.value = y.value) := by
  refine ⟨fun x hfinite hnonneg => ?_, fun x hfinite hneg => ?_, fun x y hx hy => ?_⟩
  · have hsmall := magnitude_lt x
    rw [resultText_eq hfinite, if_neg hnonneg.not_gt]
    refine ⟨_, tokenize_resultDecimal (isFinite_iff.1 hfinite), UInt64.toNat_inj.1 ?_⟩
    rw [toNat_bits_ofMagnitude false hsmall, if_neg Bool.false_ne_true]
    cases hzero : x.isZero with
    | true => simpa [isZero] using hzero
    | false =>
      have hsign : ¬ x.isNegative = true := fun hnegative =>
        hnonneg.not_gt (value_neg_iff.2 ⟨hnegative, hzero⟩)
      rw [if_neg Bool.false_ne_true, toNat_bits, if_neg hsign]
  · have hpositive : ¬ x.negated.value < 0 := by
      rw [value_negated, neg_lt_zero]
      exact hneg.not_gt
    refine ⟨?_, value_negated x⟩
    rw [resultText_eq hfinite, if_pos hneg, resultText_eq (isFinite_negated hfinite),
      if_neg hpositive, negated, magnitude_ofMagnitude _ x.magnitude_lt]
  · rw [resultText_eq hx, resultText_eq hy, value_eq_value_iff_magnitude hx hy]
    rw [isFinite_iff] at hx hy
    constructor
    · -- no decimal begins with a minus sign, so the first character tells the sign of the number
      intro htext
      by_cases hnegX : x.value < 0 <;> by_cases hnegY : y.value < 0 <;>
        simp only [hnegX, hnegY, if_true, if_false] at htext ⊢
      · exact ⟨resultDecimal_write_inj hx hy (List.cons.inj htext).2, trivial⟩
      · exact absurd htext.symm (resultDecimal_write_ne_cons _ _)
      · exact absurd htext (resultDecimal_write_ne_cons _ _)
      · exact ⟨resultDecimal_write_inj hx hy htext, trivial⟩
    · rintro ⟨hmagnitude, hsign⟩
      rw [hmagnitude, if_congr hsign rfl rfl]

/-- A tenth and its negation: the text of either is told by the general statement. -/
theorem result_typed_back_at_tenth :
    (∃ y : Binary64, tokenize true (Binary64.mk 0x3FB999999999999A).resultText = .ok [.number y]
        ∧ y.bits = 0x3FB999999999999A)
      ∧ (Binary64.mk 0xBFB999999999999A).resultText
        = '-' :: (Binary64.mk 0x3FB999999999999A).resultText := by
  have hpositive : 0 ≤ (Binary64.mk 0x3FB999999999999A).value := by
    rw [← not_lt, value_neg_iff]
    decide
  have hnegative : (Binary64.mk 0xBFB999999999999A).value < 0 := by
    rw [value_neg_iff]
    decide
  exact ⟨result_typed_back.1 _ (by decide) hpositive,
    (result_typed_back.2.1 _ (by decide) hnegative).1⟩

/-- A finite number that is an integer is shown by the numeral of that integer: all its digits, none
of them a leading zero, behind a minus sign exactly if it is below zero; both zeros are shown as one
digit. Any other finite number is shown with a point. -/
theorem result_digits (x : Binary64) (hfinite : x.isFinite = true) :
    (∀ n : Int, x.value = n →
      ∃ digits, Numeral.Spells n.natAbs digits
        ∧ x.resultText = if n < 0 then '-' :: digits else digits)
    ∧ (x.value = 0 → x.resultText = ['0'])
    ∧ ((∀ n : Int, x.value ≠ n) → '.' ∈ x.resultText) := by
  refine ⟨fun n hn => ?_, fun hzero => ?_, fun hnone => ?_⟩
  · exact ⟨_, Numeral.spells_iff.2 rfl, resultText_of_value_eq hfinite hn⟩
  · have hvalue : x.value = (0 : Int) := by rw [hzero, Int.cast_zero]
    rw [resultText_of_value_eq hfinite hvalue, if_neg (Int.lt_irrefl 0), Int.natAbs_zero,
      Numeral.write_zero]
  · refine point_mem_resultText hfinite fun hwhole => ?_
    obtain ⟨n, hn⟩ := exists_value_eq hwhole
    exact hnone n hn

/-- The number nearest to `10 ^ 23` is an integer beside it, and a half is none. -/
theorem result_digits_at_large_and_half :
    (∃ digits, Numeral.Spells 99999999999999991611392 digits
      ∧ (Binary64.mk 0x44B52D02C7E14AF6).resultText = digits)
      ∧ '.' ∈ (Binary64.mk 0x3FE0000000000000).resultText := by
  have hlarge : (Binary64.mk 0x44B52D02C7E14AF6).value = (99999999999999991611392 : Int) := by
    rw [value_eq_intCast_iff]
    decide +kernel
  have hhalf : ∀ n : Int, (Binary64.mk 0x3FE0000000000000).value ≠ n := by
    intro n hn
    rw [value_eq_intCast_iff] at hn
    -- an integer would be a whole number of ones
    have hdvd : (unitsPerOne : Int) ∣ (Binary64.mk 0x3FE0000000000000).signedUnits :=
      ⟨n, by rw [hn, Int.mul_comm]⟩
    revert hdvd
    decide +kernel
  exact ⟨(result_digits _ (by decide)).1 _ hlarge, (result_digits _ (by decide)).2.2 hhalf⟩

end Reckon
