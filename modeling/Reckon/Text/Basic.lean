/-!
# Texts

A text is the list of its characters, and a file holds a list of bytes, so that everything which
reads or writes them is a recursion on a list. This module names the blank characters and the
operations that only look at them: `Text.trim`, `Text.isAllBlank` and `Text.withoutBlanks`.
-/

namespace Reckon

abbrev Text := List Char

abbrev Bytes := List UInt8

/-- The characters that Unicode calls white space. -/
def isBlank (c : Char) : Bool :=
  let n := c.toNat
  (9 ≤ n && n ≤ 13) || n == 0x20 || n == 0x85 || n == 0xA0 || n == 0x1680
    || (0x2000 ≤ n && n ≤ 0x200A) || n == 0x2028 || n == 0x2029 || n == 0x202F
    || n == 0x205F || n == 0x3000

/-- The decimal digits of ASCII; the digits of other scripts are not read as numbers. -/
def isDigit (c : Char) : Bool :=
  48 ≤ c.toNat && c.toNat ≤ 57

theorem not_isBlank_of_isDigit {c : Char} (h : isDigit c = true) : isBlank c = false := by
  simp only [isDigit, Bool.and_eq_true, decide_eq_true_eq] at h
  simp only [isBlank, Bool.or_eq_false_iff, Bool.and_eq_false_iff, decide_eq_false_iff_not,
    beq_eq_false_iff_ne]
  omega

namespace Text

def withoutBlanks (t : Text) : Text :=
  t.filter fun c => !isBlank c

def trimStart (t : Text) : Text :=
  t.dropWhile isBlank

def trimEnd (t : Text) : Text :=
  (trimStart t.reverse).reverse

/-- Drops the blanks at both ends and keeps those between other characters. -/
def trim (t : Text) : Text :=
  trimEnd (trimStart t)

/-- Holds of a text without any character that is not blank. -/
def isAllBlank (t : Text) : Bool :=
  t.all isBlank

@[simp] theorem withoutBlanks_append (s t : Text) :
    withoutBlanks (s ++ t) = withoutBlanks s ++ withoutBlanks t := by
  simp [withoutBlanks]

theorem not_isBlank_of_mem_withoutBlanks {t : Text} {c : Char} (h : c ∈ withoutBlanks t) :
    isBlank c = false := by
  simp only [withoutBlanks, List.mem_filter, Bool.not_eq_true'] at h
  exact h.2

end Text

end Reckon
