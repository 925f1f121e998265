import Reckon.Operator

/-!
# The normal form of a source text

Before a text is cut into tokens all blanks are dropped, so that blanks separate nothing, and the
two operators of two characters are contracted to one character each. Contraction takes pairs from
the left; of an odd run one character is left over at its end.
-/

namespace Reckon

/-- Replaces each pair of `c`, from the left, by one `mark`. -/
def contractPairs (c mark : Char) : Text → Text
  | x :: y :: rest =>
    if x = c ∧ y = c then mark :: contractPairs c mark rest
    else x :: contractPairs c mark (y :: rest)
  | short => short

/-- The text without blanks, with a mark for each pair of stars and then for each pair of
slashes. -/
def normalize (source : Text) : Text :=
  contractPairs '/' Operator.intDivMark (contractPairs '*' Operator.powerMark source.withoutBlanks)

/-- Blanks have no influence on the normal form, wherever they stand. -/
theorem normalize_congr {s t : Text} (h : s.withoutBlanks = t.withoutBlanks) :
    normalize s = normalize t := by
  rw [normalize, normalize, h]

end Reckon
