import Reckon.Text.Printable

/-!
# Quoted texts

How a text or a single character is written in a message so that every character of it can be told
apart: in quotation marks, with short escapes for the common controls and the code point in
hexadecimal for all else that would not be seen.
-/

namespace Reckon.Text

def hexDigits (n : Nat) : Text :=
  Nat.toDigits 16 n

/-- The escape by code point: a backslash, `u`, and the number in braces. -/
def codePointEscape (c : Char) : Text :=
  '\x5c' :: 'u' :: '\x7b' :: hexDigits c.toNat ++ ['\x7d']

/-- How `c` is written between two marks `mark`. -/
def escapeChar (mark c : Char) : Text :=
  if c = '\x00' then ['\x5c', '0']
  else if c = '\t' then ['\x5c', 't']
  else if c = '\r' then ['\x5c', 'r']
  else if c = '\n' then ['\x5c', 'n']
  else if c = '\x5c' ∨ c = mark then ['\x5c', c]
  else if isShown c then [c]
  else codePointEscape c

/-- The text between double quotation marks. -/
def quoted (t : Text) : Text :=
  '\x22' :: t.flatMap (escapeChar '\x22') ++ ['\x22']

/-- The character between apostrophes. -/
def quotedChar (c : Char) : Text :=
  '\x27' :: escapeChar '\x27' c ++ ['\x27']

end Reckon.Text
