import Mathlib.Data.List.Induction
import Reckon.Proofs.Rounding
import Reckon.Proofs.Spelling

/-!
# Decimals that are written and read

A decimal in all its digits is read as the machine number nearest to it, whatever its exponent
(`readNumber?_write`), and is a numeral of its own to the lexer (`tokenize_write`). The shortest
decimal of a finite number reads back as the same word (`readsBack_shortest`); of the search for it
nothing has to be known except that each candidate was tried.
-/

namespace Reckon

/-! ## Digits

Reading counts from the left, so digits behind others are added to them in their place. -/

theorem powerOfTen_succ (n : Nat) : powerOfTen (n + 1) = powerOfTen n * 10 := rfl

namespace Numeral

/-- The digits in front are worth one place more for each digit behind them. -/
theorem read_append (s t : Text) : read (s ++ t) = read s * powerOfTen t.length + read t := by
  induction t using List.reverseRecOn with
  | nil => rw [List.append_nil]; exact (Nat.mul_one (read s)).symm
  | append_singleton t c ih =>
    rw [← List.append_assoc, read_concat, read_concat, ih, List.length_append,
      List.length_singleton, powerOfTen_succ, Nat.add_mul, Nat.mul_assoc, Nat.add_assoc]

/-- Digits of fixed width keep the number as far as they reach. -/
theorem read_writeFixed (width n : Nat) :
    read (writeFixed width n) = n % powerOfTen width := by
  induction width generalizing n with
  | zero => exact (Nat.mod_one n).symm
  | succ width ih =>
    have hlast : n % (10 * powerOfTen width) = n % 10 + 10 * (n / 10 % powerOfTen width) :=
      Nat.mod_mul
    rw [writeFixed, read_concat, ih, digitValue_lastDigit, powerOfTen_succ,
      Nat.mul_comm (powerOfTen width), hlast, Nat.mul_comm 10, Nat.add_comm]

end Numeral

namespace Decimal

/-! ## Written and read

A decimal is written without an exponent: with zeros behind a whole number, or with a point and as
many places as the exponent asks for. The reader gets the same number back, though in the first case
not the same decimal, since the zeros are digits then. -/

/-- A whole number is read as its digits, the zeros among them. -/
theorem ofRun?_write_of_nonneg {d : Decimal} (h : 0 ≤ d.exponent) :
    ofRun? d.write = some ⟨d.numerator, 0⟩ := by
  have hdigits := Numeral.all_isDigit_write d.numerator
  rw [write, if_pos h, ofRun?_digits (Numeral.write_ne_nil _) hdigits, Numeral.read_write]

/-- With places behind the point the decimal itself is read. -/
theorem ofRun?_write_of_neg {d : Decimal} (h : d.exponent < 0) : ofRun? d.write = some d := by
  have hwhole := Numeral.all_isDigit_write (d.coefficient / d.denominator)
  have hfraction :=
    Numeral.all_isDigit_writeFixed (-d.exponent).toNat (d.coefficient % d.denominator)
  have hne := List.append_ne_nil_of_left_ne_nil
    (Numeral.write_ne_nil (d.coefficient / d.denominator))
    (Numeral.writeFixed (-d.exponent).toNat (d.coefficient % d.denominator))
  have hexponent : -((-d.exponent).toNat : Int) = d.exponent := by omega
  -- quotient and remainder by the places are put together again
  rw [write, if_neg (Int.not_le.2 h), ofRun?_point hne hwhole hfraction, Numeral.read_append,
    Numeral.read_write, Numeral.read_writeFixed, Numeral.length_writeFixed, hexponent,
    ← denominator, Nat.mod_mod, Nat.mul_comm, Nat.div_add_mod]

/-- What is written is a run of digits with a point at most. -/
theorem all_isNumeral_write (d : Decimal) : d.write.all isNumeral = true := by
  have hdigits : ∀ {t : Text}, t.all isDigit = true → t.all isNumeral = true := by
    intro t ht
    rw [List.all_eq_true] at ht ⊢
    intro c hc
    rw [isNumeral, ht c hc, Bool.true_or]
  unfold write
  split
  · exact hdigits (Numeral.all_isDigit_write _)
  · rw [List.all_append, List.all_cons, hdigits (Numeral.all_isDigit_write _),
      hdigits (Numeral.all_isDigit_writeFixed _ _)]
    rfl

end Decimal

/-- A decimal is read as the number nearest to it. -/
theorem readNumber?_write (d : Decimal) :
    readNumber? d.write = some (Binary64.ofDecimal d) := by
  rw [readNumber?]
  rcases Int.lt_or_le d.exponent 0 with hneg | hnonneg
  · rw [Decimal.ofRun?_write_of_neg hneg, Option.map_some]
  · have hnumerator : (Decimal.mk d.numerator 0).numerator = d.numerator := Nat.mul_one _
    have hdenominator : (Decimal.mk d.numerator 0).denominator = d.denominator := by
      rw [Decimal.denominator, Decimal.denominator, show (-d.exponent).toNat = 0 by omega]
      rfl
    rw [Decimal.ofRun?_write_of_nonneg hnonneg, Option.map_some, Binary64.ofDecimal,
      Binary64.ofDecimal, hnumerator, hdenominator]

/-- A run that spells a number is one token, in either mode. -/
theorem tokenize_of_readNumber? {run : Text} {x : Binary64} (strict : Bool)
    (hrun : run.all isNumeral = true) (hx : readNumber? run = some x) :
    tokenize strict run = .ok [.number x] := by
  obtain ⟨hdigit, hpoint⟩ := (isSome_readNumber?_iff hrun).1 (by rw [hx]; rfl)
  let l : Literal := ⟨run, hrun, hdigit, hpoint⟩
  have hspell : ∀ symbol, spell symbol [.number l] = run := fun symbol => List.append_nil run
  have hunfused : Unfused [.number l] := List.isChain_singleton _
  have hvalue : l.value = x := Option.some.inj (l.readNumber?_run.symm.trans hx)
  rw [tokenize, ← hspell Operator.symbol, normalize_spell hunfused, pieces_spell hunfused,
    tokensOfPieces_piece, ← hvalue]
  rfl

theorem tokenize_write (strict : Bool) (d : Decimal) :
    tokenize strict d.write = .ok [.number (Binary64.ofDecimal d)] :=
  tokenize_of_readNumber? strict d.all_isNumeral_write (readNumber?_write d)

/-! ## The shortest digits

Every candidate of the search has been read back before it is taken, so what is left to show is that
taking zeros off the end changes nothing and that all digits of the value, which are taken when no
candidate is found, read back too. -/

namespace Binary64

/-- A zero at the end of the coefficient can as well be counted by the exponent. -/
theorem readsBack_shift (magnitude coefficient : Nat) (exponent : Int) :
    readsBack magnitude ⟨coefficient, exponent + 1⟩
      = readsBack magnitude ⟨coefficient * 10, exponent⟩ := by
  unfold readsBack Decimal.numerator Decimal.denominator
  dsimp only
  -- the factor of ten goes into the denominator or into the numerator, according to the sign
  rcases Int.lt_or_le exponent 0 with hneg | hnonneg
  · have hwhole : (exponent + 1).toNat = exponent.toNat := by omega
    have hplaces : (-exponent).toNat = (-(exponent + 1)).toNat + 1 := by omega
    rw [hwhole, hplaces, powerOfTen_succ, Nat.mul_right_comm,
      nearestMagnitude_mul_mul _ _ (by decide)]
  · have hwhole : (exponent + 1).toNat = exponent.toNat + 1 := by omega
    have hplaces : (-(exponent + 1)).toNat = (-exponent).toNat := by omega
    rw [hwhole, hplaces, powerOfTen_succ, Nat.mul_assoc, Nat.mul_comm 10]

/-- Zeros at the end may all be taken off. -/
theorem readsBack_stripZeros (magnitude : Nat) (d : Decimal) :
    readsBack magnitude d.stripZeros = readsBack magnitude d := by
  fun_induction Decimal.stripZeros d with
  | case1 d h ih => rw [ih, readsBack_shift, Nat.div_mul_cancel (Nat.dvd_of_mod_eq_zero h.2)]
  | case2 d h => rfl

/-- A candidate has been tried. -/
theorem readsBack_of_candidate? {magnitude : Nat} {exponent : Int} {d : Decimal}
    (h : candidate? magnitude exponent = some d) : readsBack magnitude d = true := by
  unfold candidate? at h
  dsimp only at h
  split at h
  · next hbelow => rw [← Option.some.inj h, hbelow.1]
  · split at h
    · next habove => rw [← Option.some.inj h, habove]
    · cases h

/-- All digits of a value read back, since nothing has to be rounded. -/
theorem readsBack_allDigits {magnitude : Nat} {exponent : Int}
    (hfinite : magnitude < infiniteMagnitude) (places : Nat)
    (hplaces : unitsPerOne = powerOfTwo places) (hexponent : exponent = -(places : Int)) :
    readsBack magnitude ⟨unitsOfMagnitude magnitude * Nat.pow 5 places, exponent⟩ = true := by
  have hpowers : Nat.pow 5 places * powerOfTwo places = powerOfTen places :=
    (Nat.mul_pow 5 2 places).symm
  subst hexponent
  unfold readsBack Decimal.numerator Decimal.denominator
  dsimp only
  rw [beq_iff_eq, Int.toNat_neg_natCast, Int.neg_neg, Int.toNat_natCast, nearestMagnitude,
    show powerOfTen 0 = 1 from rfl, Nat.mul_one, hplaces, Nat.mul_assoc, hpowers]
  exact nearestToUnits_unitsOfMagnitude (Nat.le_of_lt hfinite) (Nat.pow_pos (by decide))

/-- The digits that are taken when no candidate is found. -/
theorem readsBack_exactDecimal {magnitude : Nat} (hfinite : magnitude < infiniteMagnitude) :
    readsBack magnitude (exactDecimal magnitude) = true := by
  -- the number of places is kept as a variable, so that no power of it is worked out
  obtain ⟨places, hplaces⟩ : ∃ places, places = 1074 := ⟨1074, rfl⟩
  rw [exactDecimal, ← hplaces]
  exact readsBack_allDigits hfinite places (hplaces ▸ unitsPerOne_eq) (by rw [hplaces]; rfl)

/-- Wherever the search ends, its decimal is read as the magnitude. -/
theorem readsBack_shortest {magnitude : Nat} (hfinite : magnitude < infiniteMagnitude) :
    readsBack magnitude (shortest magnitude) = true := by
  rw [shortest, readsBack_stripZeros]
  cases hfound : (List.range 17).findSome? fun k : Nat =>
      candidate? magnitude (leadingPower (unitsOfMagnitude magnitude) - (k : Int)) with
  | none => exact readsBack_exactDecimal hfinite
  | some d =>
    obtain ⟨k, -, hcandidate⟩ := List.exists_of_findSome?_eq_some hfound
    exact readsBack_of_candidate? hcandidate

end Binary64

end Reckon
