import Reckon.Text.Basic

/-!
# Decimal numerals

Natural numbers written in ASCII digits: without leading zeros (`Numeral.write`), or in exactly so
many digits (`Numeral.writeFixed`). `Numeral.read` gives the number back.
-/

namespace Reckon.Numeral

/-- The digit for the last decimal place of `n`. -/
def lastDigit (n : Nat) : Char :=
  Char.ofNat (48 + n % 10)

/-- The shortest numeral of `n`; zero has one digit. -/
def write (n : Nat) : Text :=
  if n < 10 then [lastDigit n] else write (n / 10) ++ [lastDigit n]
termination_by n

/-- The number of digits of the numeral. -/
def digitCount (n : Nat) : Nat :=
  if n < 10 then 1 else digitCount (n / 10) + 1
termination_by n

/-- The last `width` digits of `n`, with zeros in front where `n` has fewer. -/
def writeFixed : Nat → Nat → Text
  | 0, _ => []
  | width + 1, n => writeFixed width (n / 10) ++ [lastDigit n]

def digitValue (c : Char) : Nat :=
  c.toNat - 48

/-- The number that a text of digits stands for; the empty text stands for zero. -/
def read (t : Text) : Nat :=
  t.foldl (fun value c => value * 10 + digitValue c) 0

/-- The numeral of an integer, with a sign only if it is negative. -/
def writeInt (i : Int) : Text :=
  if i < 0 then '-' :: write i.natAbs else write i.natAbs

theorem toNat_lastDigit (n : Nat) : (lastDigit n).toNat = 48 + n % 10 := by
  have h : n % 10 < 10 := Nat.mod_lt _ (by decide)
  unfold lastDigit
  generalize n % 10 = k at h
  match k, h with
  | 0, _ | 1, _ | 2, _ | 3, _ | 4, _ | 5, _ | 6, _ | 7, _ | 8, _ | 9, _ => rfl

@[simp] theorem isDigit_lastDigit (n : Nat) : isDigit (lastDigit n) = true := by
  have h : n % 10 < 10 := Nat.mod_lt _ (by decide)
  simp only [isDigit, toNat_lastDigit, Bool.and_eq_true, decide_eq_true_eq]
  omega

@[simp] theorem digitValue_lastDigit (n : Nat) : digitValue (lastDigit n) = n % 10 := by
  rw [digitValue, toNat_lastDigit]
  omega

theorem read_concat (t : Text) (c : Char) : read (t ++ [c]) = read t * 10 + digitValue c := by
  simp [read]

/-- Reading a numeral gives the number that was written. -/
theorem read_write (n : Nat) : read (write n) = n := by
  -- on the number, as the digits are split off from the end
  induction n using Nat.strongRecOn with
  | _ n ih =>
    rw [write]
    split
    · next h =>
      simp only [read, List.foldl_cons, List.foldl_nil, digitValue_lastDigit]
      omega
    · next h =>
      rw [read_concat, ih (n / 10) (by omega), digitValue_lastDigit]
      omega

@[simp] theorem length_write (n : Nat) : (write n).length = digitCount n := by
  induction n using Nat.strongRecOn with
  | _ n ih =>
    rw [write, digitCount]
    split
    · rfl
    · next h => simp [ih (n / 10) (by omega)]

@[simp] theorem length_writeFixed (width n : Nat) : (writeFixed width n).length = width := by
  induction width generalizing n with
  | zero => rfl
  | succ width ih => simp [writeFixed, ih]

theorem all_isDigit_write (n : Nat) : (write n).all isDigit = true := by
  induction n using Nat.strongRecOn with
  | _ n ih =>
    rw [write]
    split
    · simp
    · next h => simp [ih (n / 10) (by omega)]

theorem write_ne_nil (n : Nat) : write n ≠ [] := by
  rw [write]
  split <;> simp

/-- What begins with a numeral begins with a digit. -/
theorem head?_write_append_ne {c : Char} (hc : isDigit c = false) (n : Nat) (t : Text) :
    (write n ++ t).head? ≠ some c := by
  intro hhead
  rw [List.head?_append, List.head?_eq_some_head (write_ne_nil n), Option.some_or] at hhead
  have hmem : c ∈ write n := Option.some.inj hhead ▸ List.head_mem (write_ne_nil n)
  have hdigit := List.all_eq_true.1 (all_isDigit_write n) c hmem
  rw [hc] at hdigit
  cases hdigit

theorem all_isDigit_writeFixed (width n : Nat) : (writeFixed width n).all isDigit = true := by
  induction width generalizing n with
  | zero => rfl
  | succ width ih => simp [writeFixed, ih]

end Reckon.Numeral
