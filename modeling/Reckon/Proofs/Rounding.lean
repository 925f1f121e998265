import Reckon.Binary64.Nearest

/-!
# Rounding to the format

A magnitude is a coefficient of at most 53 bits and a shift (`Binary64.Coefficient`): its value is
the coefficient times two to the shift, in units. `nearestToUnits` gives such a magnitude, with the
carry that rounding up may bring (`coefficient_roundHalfEven`), so what can be said of its result is
said of one coefficient:

* a value of the format is rounded to its own word (`nearestToUnits_unitsOfMagnitude`),
* only the quotient counts and not how the fraction is written (`nearestToUnits_mul_mul`),
* whole numbers are rounded to whole numbers (`unitsPerOne_dvd_of_nearestMagnitude`),
* no other value of the format is nearer (`nearestToUnits_nearest`, `nearestMagnitude_nearest`).
-/

namespace Reckon

/-! ## The nearest natural number

Rounding to the format is, after a shift, rounding of a fraction to a natural number. -/

/-- Only the quotient counts. -/
theorem roundHalfEven_mul_mul (n d : Nat) {k : Nat} (hk : 0 < k) :
    roundHalfEven (n * k) (d * k) = roundHalfEven n d := by
  have htwice : 2 * (n % d * k) = 2 * (n % d) * k := (Nat.mul_assoc _ _ _).symm
  unfold roundHalfEven
  dsimp only
  rw [Nat.mul_div_mul_right _ _ hk, Nat.mul_mod_mul_right, htwice]
  simp only [Nat.mul_lt_mul_right hk]

theorem roundHalfEven_mul_self (q : Nat) {d : Nat} (hd : 0 < d) :
    roundHalfEven (q * d) d = q := by
  unfold roundHalfEven
  rw [Nat.mul_div_cancel _ hd, Nat.mul_mod_left, if_pos hd]

/-- Rounding goes to one of the two neighbours, and where both are equally near to the even one. -/
theorem roundHalfEven_cases (n d : Nat) :
    (roundHalfEven n d = n / d ∧ 2 * (n % d) ≤ d ∧ (2 * (n % d) = d → n / d % 2 = 0))
      ∨ (roundHalfEven n d = n / d + 1 ∧ d ≤ 2 * (n % d) ∧ (2 * (n % d) = d → n / d % 2 = 1)) := by
  unfold roundHalfEven
  dsimp only
  split
  · omega
  · split
    · omega
    · split <;> omega

/-- The result is next to the quotient. -/
theorem roundHalfEven_bounds (n d : Nat) :
    n / d ≤ roundHalfEven n d ∧ roundHalfEven n d ≤ n / d + 1 := by
  rcases roundHalfEven_cases n d with ⟨hdown, -⟩ | ⟨hup, -⟩ <;> omega

/-- How far two numbers are apart. -/
def distance (a b : Nat) : Nat := (a - b) + (b - a)

/-- Of `a` and `b` the first is nearer to `n`, or both are equally near and `tie` holds. -/
def Nearer (n a b : Nat) (tie : Prop) : Prop :=
  distance a n < distance b n ∨ distance a n = distance b n ∧ tie

/-- No multiple of `d` is nearer to `n` than the one that rounding gives; if one is as near, it is
the same or rounding gives the even one. -/
theorem roundHalfEven_nearest (n k : Nat) {d : Nat} (hd : 0 < d) :
    Nearer n (roundHalfEven n d * d) (k * d)
      (k = roundHalfEven n d ∨ roundHalfEven n d % 2 = 0) := by
  have hn : n / d * d + n % d = n := Nat.div_add_mod' n d
  have hr : n % d < d := Nat.mod_lt n hd
  have hnext : (n / d + 1) * d = n / d * d + d := Nat.succ_mul _ _
  -- the other multiple is one of the two neighbours of `n`, or beyond one of them
  have hk : k = n / d ∧ k * d = n / d * d ∨ k = n / d + 1 ∧ k * d = n / d * d + d
      ∨ k * d + d ≤ n / d * d ∨ n / d * d + d + d ≤ k * d := by
    rcases Nat.lt_trichotomy k (n / d) with hlt | heq | hgt
    · have hbelow := Nat.mul_le_mul_right d hlt
      rw [Nat.succ_mul] at hbelow
      exact .inr (.inr (.inl hbelow))
    · exact .inl ⟨heq, by rw [heq]⟩
    · rcases Nat.eq_or_lt_of_le hgt with heq | habove
      · exact .inr (.inl ⟨heq.symm, by rw [← heq, ← hnext]⟩)
      · have habove := Nat.mul_le_mul_right d habove
        rw [Nat.succ_mul, hnext] at habove
        exact .inr (.inr (.inr habove))
  unfold Nearer distance
  rcases roundHalfEven_cases n d with ⟨hround, hnear, htie⟩ | ⟨hround, hnear, htie⟩
  · rw [hround]
    omega
  · rw [hround, hnext]
    omega

/-- Of two numbers that are not above `n` the greater one is nearer. -/
theorem nearer_of_le {n a b : Nat} {tie : Prop} (hb : b ≤ a) (ha : a ≤ n) (htie : tie) :
    Nearer n a b tie := by
  unfold Nearer distance
  rcases Nat.eq_or_lt_of_le hb with rfl | hlt
  · exact .inr ⟨rfl, htie⟩
  · exact .inl (by omega)

/-- What is nearer than a number that is not above `n` is nearer than all that is below it. -/
theorem Nearer.of_lt {n a b between : Nat} {tie : Prop} (h : Nearer n a between tie)
    (hb : b < between) (hbetween : between ≤ n) (tie' : Prop) : Nearer n a b tie' := by
  unfold Nearer distance at *
  exact .inl (by omega)

namespace Binary64

theorem powerOfTwo_pos (n : Nat) : 0 < powerOfTwo n :=
  Nat.pow_pos (by decide)

theorem powerOfTwo_add (m n : Nat) : powerOfTwo (m + n) = powerOfTwo m * powerOfTwo n :=
  Nat.pow_add 2 m n

theorem powerOfTwo_dvd_powerOfTwo {m n : Nat} (h : m ≤ n) : powerOfTwo m ∣ powerOfTwo n :=
  Nat.pow_dvd_pow 2 h

theorem unitsPerOne_eq : unitsPerOne = powerOfTwo 1074 := rfl

theorem unitsPerOne_pos : 0 < unitsPerOne :=
  powerOfTwo_pos 1074

theorem fractions_eq : fractions = powerOfTwo 52 := by decide

theorem two_mul_fractions : 2 * fractions = powerOfTwo 53 := by decide

/-! ## Coefficients

A word of the format holds a shift and the low bits of a coefficient, so that counting words is
counting coefficients, from binade to binade. That is why a carry needs no case of its own: the
coefficient that does not fit is the lowest one of the next binade. -/

/-- A coefficient that a word can have with a shift. It has its leading bit unless the shift is the
lowest one, and may be one more than 53 bits hold. -/
structure Coefficient (q shift : Nat) : Prop where
  le : q ≤ 2 * fractions
  leading : shift = 0 ∨ fractions ≤ q

/-- The word counts the shifts, and the coefficient is added to it: so the leading bit of the
coefficient, or its carry, raises the exponent. -/
theorem Coefficient.unitsOfMagnitude_eq {q shift : Nat} (h : Coefficient q shift) :
    unitsOfMagnitude (shift * fractions + q) = q * powerOfTwo shift := by
  obtain ⟨hle, hleading⟩ := h
  unfold unitsOfMagnitude
  unfold fractions at *
  dsimp only
  -- by the word that comes out: below the first binade, in the binade, or carried into the next
  rcases Nat.lt_or_ge q 0x10000000000000 with hsmall | hlarge
  · have hshift : shift = 0 := hleading.resolve_right (Nat.not_le.2 hsmall)
    subst hshift
    rw [if_pos (by omega), Nat.zero_mul, Nat.zero_add]
    exact (Nat.mul_one q).symm
  · rcases Nat.lt_or_ge q (2 * 0x10000000000000) with hbits | hcarry
    · have hexponent : (shift * 0x10000000000000 + q) / 0x10000000000000 = shift + 1 := by omega
      have hfraction :
          0x10000000000000 + (shift * 0x10000000000000 + q) % 0x10000000000000 = q := by
        omega
      rw [hexponent, hfraction, if_neg (Nat.succ_ne_zero shift), Nat.add_sub_cancel]
    · have hexponent : (shift * 0x10000000000000 + q) / 0x10000000000000 = shift + 1 + 1 := by omega
      have hfraction : (shift * 0x10000000000000 + q) % 0x10000000000000 = 0 := by omega
      have hq : q = 0x10000000000000 * 2 := by omega
      rw [hexponent, hfraction, if_neg (Nat.succ_ne_zero _), Nat.add_sub_cancel, Nat.add_zero,
        Nat.add_comm shift 1, powerOfTwo_add, hq, Nat.mul_assoc]
      rfl

/-- Every magnitude has a coefficient of 53 bits and a shift. -/
theorem exists_coefficient (m : Nat) :
    ∃ q shift, Coefficient q shift ∧ q < 2 * fractions ∧ m = shift * fractions + q := by
  unfold fractions
  by_cases hsub : m < 0x10000000000000
  · exact ⟨m, 0, ⟨by unfold fractions; omega, .inl rfl⟩, by omega, by omega⟩
  · refine ⟨0x10000000000000 + m % 0x10000000000000, m / 0x10000000000000 - 1, ⟨?_, .inr ?_⟩,
      ?_, ?_⟩
    · unfold fractions; omega
    · unfold fractions; omega
    · omega
    · omega

/-- The shift with which a number of units is rounded. -/
def shiftFor (whole : Nat) : Nat :=
  if whole < 2 * fractions then 0 else whole.log2 - 52

theorem nearestToUnits_eq_min (n d : Nat) :
    nearestToUnits n d = min (shiftFor (n / d) * fractions
      + roundHalfEven n (d * powerOfTwo (shiftFor (n / d)))) infiniteMagnitude :=
  rfl

/-- A value of the format is rounded with its own shift. -/
theorem shiftFor_mul_powerOfTwo {q shift : Nat} (hq : q < 2 * fractions) (h : Coefficient q shift) :
    shiftFor (q * powerOfTwo shift) = shift := by
  unfold shiftFor
  rcases Nat.eq_zero_or_pos shift with rfl | hpos
  · exact if_pos (by rwa [show q * powerOfTwo 0 = q from Nat.mul_one q])
  · have hleading : powerOfTwo 52 ≤ q :=
      fractions_eq ▸ h.leading.resolve_left (Nat.ne_of_gt hpos)
    rw [two_mul_fractions] at hq ⊢
    -- the leading bit of `q` comes to stand at `52 + shift`, the logarithm of the product
    have hlow : powerOfTwo (52 + shift) ≤ q * powerOfTwo shift := by
      rw [powerOfTwo_add]
      exact Nat.mul_le_mul_right _ hleading
    have hhigh : q * powerOfTwo shift < powerOfTwo (52 + shift + 1) := by
      rw [Nat.add_right_comm, powerOfTwo_add (52 + 1)]
      exact Nat.mul_lt_mul_of_pos_right hq (powerOfTwo_pos shift)
    have hne : q * powerOfTwo shift ≠ 0 :=
      Nat.ne_of_gt (Nat.lt_of_lt_of_le (powerOfTwo_pos (52 + shift)) hlow)
    have hlog : (q * powerOfTwo shift).log2 = 52 + shift := (Nat.log2_eq_iff hne).2 ⟨hlow, hhigh⟩
    have htwice : powerOfTwo 53 ≤ q * powerOfTwo shift :=
      Nat.le_trans (Nat.le_of_dvd (powerOfTwo_pos _) (powerOfTwo_dvd_powerOfTwo (by omega))) hlow
    rw [if_neg (Nat.not_lt.2 htwice), hlog, Nat.add_sub_cancel_left]

/-- What the shift leaves of a number has at most 53 bits, and all 53 if anything is lost. -/
theorem div_shiftFor (whole : Nat) :
    whole / powerOfTwo (shiftFor whole) < 2 * fractions
      ∧ (shiftFor whole = 0 ∨ fractions ≤ whole / powerOfTwo (shiftFor whole)) := by
  unfold shiftFor
  split
  · next hsmall =>
    rw [show whole / powerOfTwo 0 = whole from Nat.div_one whole]
    exact ⟨hsmall, .inl rfl⟩
  · next hlarge =>
    have hne : whole ≠ 0 := by unfold fractions at hlarge; omega
    -- a number between two powers of two, divided by a smaller one
    obtain ⟨hlow, hhigh⟩ := (Nat.log2_eq_iff hne).1 rfl
    rw [two_mul_fractions, fractions_eq]
    rw [two_mul_fractions] at hlarge
    have hlog : 53 ≤ whole.log2 := (Nat.le_log2 hne).2 (Nat.not_lt.1 hlarge)
    have hsum : whole.log2 = 52 + (whole.log2 - 52) := by omega
    constructor
    · rw [Nat.div_lt_iff_lt_mul (powerOfTwo_pos _), ← powerOfTwo_add,
        show 53 + (whole.log2 - 52) = whole.log2 + 1 by omega]
      exact hhigh
    · refine .inr ?_
      rw [Nat.le_div_iff_mul_le (powerOfTwo_pos _), ← powerOfTwo_add, ← hsum]
      exact hlow

/-- What comes of rounding is a coefficient, with the carry if need be. -/
theorem coefficient_roundHalfEven (n d : Nat) :
    Coefficient (roundHalfEven n (d * powerOfTwo (shiftFor (n / d)))) (shiftFor (n / d)) := by
  have hbounds := roundHalfEven_bounds n (d * powerOfTwo (shiftFor (n / d)))
  obtain ⟨hbits, hleading⟩ := div_shiftFor (n / d)
  rw [← Nat.div_div_eq_div_mul] at hbounds
  exact ⟨by omega, hleading.imp_right fun h => Nat.le_trans h hbounds.1⟩

/-! ## What is rounded to what

Values of the format are kept, fractions may be extended, and whole numbers stay whole. Each of
these follows from what rounding does to the coefficient, once the shift is known. -/

/-- A value of the format is its own nearest value. -/
theorem nearestToUnits_unitsOfMagnitude {m d : Nat} (hm : m ≤ infiniteMagnitude) (hd : 0 < d) :
    nearestToUnits (unitsOfMagnitude m * d) d = m := by
  obtain ⟨q, shift, hcoefficient, hq, rfl⟩ := exists_coefficient m
  have hfraction : q * powerOfTwo shift * d = q * (d * powerOfTwo shift) := by
    rw [Nat.mul_assoc, Nat.mul_comm (powerOfTwo shift)]
  rw [hcoefficient.unitsOfMagnitude_eq, nearestToUnits_eq_min, Nat.mul_div_cancel _ hd,
    shiftFor_mul_powerOfTwo hq hcoefficient, hfraction,
    roundHalfEven_mul_self q (Nat.mul_pos hd (powerOfTwo_pos shift))]
  exact Nat.min_eq_left hm

theorem unitsOfMagnitude_inj {m m' : Nat} (hm : m ≤ infiniteMagnitude)
    (hm' : m' ≤ infiniteMagnitude) (h : unitsOfMagnitude m = unitsOfMagnitude m') : m = m' := by
  rw [← nearestToUnits_unitsOfMagnitude hm Nat.one_pos, h,
    nearestToUnits_unitsOfMagnitude hm' Nat.one_pos]

theorem nearestToUnits_mul_mul (n d : Nat) {k : Nat} (hk : 0 < k) :
    nearestToUnits (n * k) (d * k) = nearestToUnits n d := by
  rw [nearestToUnits_eq_min, nearestToUnits_eq_min, Nat.mul_div_mul_right _ _ hk,
    Nat.mul_right_comm, roundHalfEven_mul_mul _ _ hk]

theorem nearestMagnitude_mul_mul (n d : Nat) {k : Nat} (hk : 0 < k) :
    nearestMagnitude (n * k) (d * k) = nearestMagnitude n d := by
  rw [nearestMagnitude, Nat.mul_right_comm, nearestToUnits_mul_mul _ _ hk]
  rfl

/-- Whole numbers that are too large for the format lose bits in front of the point only. -/
theorem unitsPerOne_dvd_of_nearestMagnitude {n : Nat}
    (h : nearestMagnitude n 1 < infiniteMagnitude) :
    unitsPerOne ∣ unitsOfMagnitude (nearestMagnitude n 1) := by
  have hcoefficient := coefficient_roundHalfEven (n * unitsPerOne) 1
  rw [nearestMagnitude, nearestToUnits_eq_min] at h ⊢
  generalize shiftFor (n * unitsPerOne / 1) = shift at h hcoefficient ⊢
  have hmin := Nat.min_eq_left (Nat.le_of_lt (Nat.lt_of_not_le fun hle =>
    absurd h (Nat.not_lt.2 (Nat.le_of_eq (Nat.min_eq_right hle).symm))))
  rw [hmin, hcoefficient.unitsOfMagnitude_eq]
  rcases Nat.le_total 1074 shift with hwhole | hpart
  · -- each step is a whole number
    rw [unitsPerOne_eq]
    exact Nat.dvd_mul_left_of_dvd (powerOfTwo_dvd_powerOfTwo hwhole) _
  · -- the steps divide one, so nothing is rounded
    have hone : unitsPerOne = powerOfTwo (1074 - shift) * powerOfTwo shift := by
      rw [← powerOfTwo_add, Nat.sub_add_cancel hpart, unitsPerOne_eq]
    have hexact : roundHalfEven (n * unitsPerOne) (1 * powerOfTwo shift)
        = n * powerOfTwo (1074 - shift) := by
      rw [Nat.one_mul, hone, ← Nat.mul_assoc, roundHalfEven_mul_self _ (powerOfTwo_pos shift)]
    rw [hexact, Nat.mul_assoc, ← hone]
    exact Nat.dvd_mul_left _ _

/-! ## The nearest value

Another value of the format either is a multiple of the step with which a number is rounded, and
then `roundHalfEven` has found one that is at least as near. Or it lies below the binade of the
number, whose lowest value is such a multiple and nearer already. Infinity counts here as the value
that would follow on the largest one, so the argument covers the overflow as well. -/

/-- The value that would follow on the largest one. -/
theorem unitsOfMagnitude_infiniteMagnitude :
    unitsOfMagnitude infiniteMagnitude = fractions * powerOfTwo 2046 := by
  have hcoefficient : Coefficient fractions 2046 :=
    ⟨Nat.le_mul_of_pos_left _ (by decide), .inr (Nat.le_refl _)⟩
  rw [← hcoefficient.unitsOfMagnitude_eq, infiniteMagnitude]
  unfold fractions
  rfl

/-- A coefficient with a smaller shift stays below the binade of a larger one. -/
theorem mul_powerOfTwo_lt {q shift larger : Nat} (hq : q < 2 * fractions) (h : shift < larger) :
    q * powerOfTwo shift < fractions * powerOfTwo larger := by
  -- a larger shift has at least one more factor of two, and that is the one that `q` may use up
  have hshift : powerOfTwo larger = 2 * powerOfTwo shift * powerOfTwo (larger - shift - 1) := by
    have hsum : larger = 1 + shift + (larger - shift - 1) := by omega
    rw [hsum, powerOfTwo_add, powerOfTwo_add, ← hsum]
    rfl
  calc q * powerOfTwo shift
      < 2 * fractions * powerOfTwo shift := Nat.mul_lt_mul_of_pos_right hq (powerOfTwo_pos shift)
    _ = fractions * (2 * powerOfTwo shift * 1) := by
      rw [Nat.mul_one, Nat.mul_comm 2 fractions, Nat.mul_assoc]
    _ ≤ fractions * powerOfTwo larger := by
      rw [hshift]
      exact Nat.mul_le_mul_left _ (Nat.mul_le_mul_left _ (powerOfTwo_pos _))

theorem unitsOfMagnitude_le_infinite {m : Nat} (hm : m ≤ infiniteMagnitude) :
    unitsOfMagnitude m ≤ unitsOfMagnitude infiniteMagnitude := by
  obtain ⟨q, shift, hcoefficient, hq, rfl⟩ := exists_coefficient m
  rw [hcoefficient.unitsOfMagnitude_eq, unitsOfMagnitude_infiniteMagnitude]
  rcases Nat.lt_or_ge shift 2046 with hlt | hge
  · exact Nat.le_of_lt (mul_powerOfTwo_lt hq hlt)
  · -- with the largest shift only the lowest coefficient is left
    have hleading := hcoefficient.leading
    have hlast : shift = 2046 ∧ q ≤ fractions := by
      unfold infiniteMagnitude at hm
      unfold fractions at *
      omega
    rw [hlast.1]
    exact Nat.mul_le_mul_right _ hlast.2

section

variable {n d q shift : Nat}

/-- A number that is rounded beyond all values is not below infinity. -/
theorem infinite_le_of_overflow (h : Coefficient q shift)
    (hbinade : shift = 0 ∨ fractions * (d * powerOfTwo shift) ≤ n)
    (hover : infiniteMagnitude < shift * fractions + q) :
    unitsOfMagnitude infiniteMagnitude * d ≤ n := by
  have hshift : 2046 ≤ shift := by
    have hle := h.le
    unfold infiniteMagnitude fractions at hover
    unfold fractions at hle
    omega
  have hdvd : powerOfTwo 2046 ≤ powerOfTwo shift :=
    Nat.le_of_dvd (powerOfTwo_pos _) (powerOfTwo_dvd_powerOfTwo hshift)
  refine Nat.le_trans ?_ (hbinade.resolve_left (by omega))
  rw [unitsOfMagnitude_infiniteMagnitude, Nat.mul_assoc, Nat.mul_comm _ d]
  exact Nat.mul_le_mul_left _ (Nat.mul_le_mul_left _ hdvd)

/-- No value with this shift or a larger one is nearer than the multiple that was found. -/
theorem nearer_of_shift_le (h : Coefficient q shift)
    (hfits : shift * fractions + q ≤ infiniteMagnitude)
    (hnearest : ∀ k, Nearer n (q * (d * powerOfTwo shift)) (k * (d * powerOfTwo shift))
      (k = q ∨ q % 2 = 0))
    {q' shift' : Nat} (h' : Coefficient q' shift') (hgrid : shift ≤ shift')
    (hm : shift' * fractions + q' ≤ infiniteMagnitude) :
    Nearer n (q * (d * powerOfTwo shift)) (q' * powerOfTwo shift' * d)
      (shift' * fractions + q' = shift * fractions + q ∨ (shift * fractions + q) % 2 = 0) := by
  have hmultiple : q' * powerOfTwo shift'
      = q' * powerOfTwo (shift' - shift) * powerOfTwo shift := by
    rw [Nat.mul_assoc, ← powerOfTwo_add, Nat.sub_add_cancel hgrid]
  have hother := hnearest (q' * powerOfTwo (shift' - shift))
  rw [hmultiple, Nat.mul_assoc, Nat.mul_comm (powerOfTwo shift) d]
  refine hother.imp_right fun ⟨hequal, hwhich⟩ => ⟨hequal, hwhich.imp (fun hsame => ?_) ?_⟩
  · -- the same multiple is the same value, and so the same word
    refine unitsOfMagnitude_inj hm hfits ?_
    rw [h'.unitsOfMagnitude_eq, h.unitsOfMagnitude_eq, hmultiple, hsame]
  · -- the words of a binade begin with an even one
    intro heven
    unfold fractions
    omega

end

/-- No value of the format is nearer to `n / d` units than the one that rounding gives; if one is as
near, it is the same or rounding gives the even one. -/
theorem nearestToUnits_nearest (n : Nat) {d m : Nat} (hd : 0 < d) (hm : m ≤ infiniteMagnitude) :
    Nearer n (unitsOfMagnitude (nearestToUnits n d) * d) (unitsOfMagnitude m * d)
      (m = nearestToUnits n d ∨ nearestToUnits n d % 2 = 0) := by
  have hcoefficient := coefficient_roundHalfEven n d
  have hleading := (div_shiftFor (n / d)).2
  have hnearest := fun k =>
    roundHalfEven_nearest n k (Nat.mul_pos hd (powerOfTwo_pos (shiftFor (n / d))))
  have hmin := nearestToUnits_eq_min n d
  rw [Nat.div_div_eq_div_mul] at hleading
  generalize shiftFor (n / d) = shift at *
  generalize roundHalfEven n (d * powerOfTwo shift) = q at *
  have hscale : ∀ k, k * powerOfTwo shift * d = k * (d * powerOfTwo shift) := fun k => by
    rw [Nat.mul_assoc, Nat.mul_comm (powerOfTwo shift)]
  -- the lowest value of the binade is not above the number, unless the shift is the lowest
  have hbinade : shift = 0 ∨ fractions * (d * powerOfTwo shift) ≤ n :=
    hleading.imp_right fun h =>
      (Nat.le_div_iff_mul_le (Nat.mul_pos hd (powerOfTwo_pos shift))).1 h
  rcases Nat.lt_or_ge infiniteMagnitude (shift * fractions + q) with hover | hfits
  · -- infinity is not above the number, and no value is above infinity
    rw [hmin, Nat.min_eq_right (Nat.le_of_lt hover)]
    exact nearer_of_le (Nat.mul_le_mul_right d (unitsOfMagnitude_le_infinite hm))
      (infinite_le_of_overflow hcoefficient hbinade hover) (.inr (by decide))
  · rw [Nat.min_eq_left hfits] at hmin
    rw [hmin, hcoefficient.unitsOfMagnitude_eq, hscale]
    obtain ⟨q', shift', hcoefficient', hq', rfl⟩ := exists_coefficient m
    rw [hcoefficient'.unitsOfMagnitude_eq]
    rcases Nat.lt_or_ge shift' shift with hlower | hgrid
    · -- below the binade, whose lowest value is nearer
      have hbelow : q' * powerOfTwo shift' * d < fractions * (d * powerOfTwo shift) := by
        rw [← hscale]
        exact Nat.mul_lt_mul_of_pos_right (mul_powerOfTwo_lt hq' hlower) hd
      exact (hnearest fractions).of_lt hbelow (hbinade.resolve_left (by omega)) _
    · exact nearer_of_shift_le hcoefficient hfits hnearest hcoefficient' hgrid hm

/-- A decimal is rounded to the value of the format that is nearest to it. Both are taken in units
here, multiplied with the denominator of the decimal. -/
theorem nearestMagnitude_nearest (d : Decimal) {m : Nat} (hm : m ≤ infiniteMagnitude) :
    let near := nearestMagnitude d.numerator d.denominator
    Nearer (d.numerator * unitsPerOne) (unitsOfMagnitude near * d.denominator)
      (unitsOfMagnitude m * d.denominator) (m = near ∨ near % 2 = 0) :=
  nearestToUnits_nearest _ (Nat.pow_pos (by decide)) hm

end Binary64

end Reckon
