import Reckon.Token.Normal

/-!
# Lexical pieces

A normal text falls into pieces without any possibility of failure: each longest run of digits and
points is one piece, and every other character is a piece of its own. `spellPieces` puts the text
together again.
-/

namespace Reckon

inductive Piece
  | run (t : Text)
  | operator (op : Operator)
  | leftParen
  | rightParen
  | unknown (c : Char)
  deriving DecidableEq

/-- The characters that numerals consist of. -/
def isNumeral (c : Char) : Bool :=
  isDigit c || c == '.'

namespace Piece

/-- The piece of a character that belongs to no numeral. -/
def ofChar (c : Char) : Piece :=
  if c = '(' then leftParen
  else if c = ')' then rightParen
  else match Operator.ofChar? c with
    | some op => operator op
    | none => unknown c

def spelling : Piece → Text
  | run t => t
  | operator op => [op.mark]
  | leftParen => ['(']
  | rightParen => [')']
  | unknown c => [c]

theorem spelling_ofChar (c : Char) : (ofChar c).spelling = [c] := by
  unfold ofChar
  split
  · next h => rw [h]; rfl
  · split
    · next h => rw [h]; rfl
    · split
      · next op h => rw [Operator.ofChar?_eq_some_iff.1 h]; rfl
      · rfl

theorem ofChar_ne_run (c : Char) (t : Text) : ofChar c ≠ run t := by
  unfold ofChar
  split
  · nofun
  · split
    · nofun
    · split <;> nofun

theorem ofChar_mark (op : Operator) : ofChar op.mark = operator op := by
  cases op <;> rfl

end Piece

/-- Puts a numeral character in front of the pieces that follow it: it extends a run that begins
right after it. -/
def consNumeral (c : Char) : List Piece → List Piece
  | .run t :: rest => .run (c :: t) :: rest
  | rest => .run [c] :: rest

/-- The pieces of a normal text. -/
def pieces : Text → List Piece
  | [] => []
  | c :: rest => if isNumeral c then consNumeral c (pieces rest) else .ofChar c :: pieces rest

def spellPieces (ps : List Piece) : Text :=
  ps.flatMap Piece.spelling

theorem spellPieces_consNumeral (c : Char) (ps : List Piece) :
    spellPieces (consNumeral c ps) = c :: spellPieces ps := by
  unfold consNumeral
  split <;> simp [spellPieces, Piece.spelling]

/-- No character is lost or moved. -/
theorem spellPieces_pieces (t : Text) : spellPieces (pieces t) = t := by
  induction t with
  | nil => rfl
  | cons c rest ih =>
    rw [pieces]
    split
    · rw [spellPieces_consNumeral, ih]
    · -- a character of its own is spelled as itself
      have h : spellPieces (Piece.ofChar c :: pieces rest)
          = (Piece.ofChar c).spelling ++ spellPieces (pieces rest) := by
        simp [spellPieces]
      rw [h, ih, Piece.spelling_ofChar]
      rfl

end Reckon
