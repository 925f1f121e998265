import Mathlib.Data.List.Basic
import Reckon.Calculation

/-!
# Reading a text in parts

A character that belongs to no numeral and to no pair divides a text: what stands before it, its own
token and what stands behind it are read apart (`tokenize_append_separator`). Each of the three
passes, contraction, cutting into pieces and reading the pieces, has this property. A blank divides
nothing (`separators_divide_and_blanks_do_not`): without it the same text is read.
-/

namespace Reckon

/-! ## Contraction

The induction follows the pairs of the text in front. It ends with one character at most, and that
one cannot form a pair with the separator. -/

/-- A character outside every pair divides the contraction. -/
theorem contractPairs_append_cons {c mark u : Char} (hu : u ≠ c) (s t : Text) :
    contractPairs c mark (s ++ u :: t) = contractPairs c mark s ++ u :: contractPairs c mark t := by
  fun_induction contractPairs c mark s with
  | case1 x y rest hpair ih =>
    rw [List.cons_append, List.cons_append, contractPairs, if_pos hpair, ih, List.cons_append]
  | case2 x y rest hpair ih =>
    rw [List.cons_append, List.cons_append, contractPairs, if_neg hpair, ← List.cons_append, ih,
      List.cons_append]
  | case3 short hshort =>
    -- at most one character stands before the separator, so that no pair reaches over it
    have hsep : contractPairs c mark (u :: t) = u :: contractPairs c mark t := by
      cases t with
      | nil => rfl
      | cons y t => rw [contractPairs, if_neg fun h => hu h.1]
    match short with
    | [] => exact hsep
    | [x] =>
      rw [List.cons_append, List.nil_append, contractPairs, if_neg fun h => hu h.2, hsep]
      rfl
    | x :: y :: rest => exact absurd rfl (hshort x y rest)

/-- A blank-free separator divides the normal form. -/
theorem normalize_append_cons {u : Char} (hblank : isBlank u = false) (hstar : u ≠ '*')
    (hslash : u ≠ '/') (s t : Text) :
    normalize (s ++ u :: t) = normalize s ++ u :: normalize t := by
  have hdrop : Text.withoutBlanks (s ++ u :: t)
      = Text.withoutBlanks s ++ u :: Text.withoutBlanks t := by
    simp [Text.withoutBlanks, hblank]
  rw [normalize, hdrop, contractPairs_append_cons hstar, contractPairs_append_cons hslash]
  rfl

/-! ## Pieces

The text is cut from its end, so the text behind the separator is cut as if it stood alone, and the
separator keeps the digits before it from joining a run behind it. -/

/-- A digit in front joins the first run, which does not reach over the separator. -/
theorem consNumeral_append_ofChar (c u : Char) (ps qs : List Piece) :
    consNumeral c (ps ++ Piece.ofChar u :: qs) = consNumeral c ps ++ Piece.ofChar u :: qs := by
  cases ps with
  | nil =>
    rw [List.nil_append]
    -- the separator is no run of digits that `c` could join
    unfold consNumeral
    split
    · next t rest heq => exact absurd (List.cons.inj heq).1 (Piece.ofChar_ne_run u t)
    · rfl
  | cons p ps => cases p <;> rfl

/-- A character of no numeral divides the pieces. -/
theorem pieces_append_cons {u : Char} (hu : isNumeral u = false) (s t : Text) :
    pieces (s ++ u :: t) = pieces s ++ Piece.ofChar u :: pieces t := by
  induction s with
  | nil => simp [pieces, hu]
  | cons c s ih =>
    rw [List.cons_append, pieces, pieces, ih]
    by_cases hc : isNumeral c = true
    · rw [if_pos hc, if_pos hc, consNumeral_append_ofChar]
    · rw [if_neg hc, if_neg hc, List.cons_append]

/-! ## Tokens

Reading stops at the first fault. Put into the monad of outcomes, the reading of two parts is the
one after the other, with no case for what is behind a fault. -/

/-- The pieces of a text are read one part after the other; the first fault decides. -/
theorem tokensOfPieces_append (strict : Bool) (ps qs : List Piece) :
    tokensOfPieces strict (ps ++ qs)
      = (tokensOfPieces strict ps).bind fun ts => (tokensOfPieces strict qs).map (ts ++ ·) := by
  -- a token in front goes through both readings
  have hmap : ∀ (t : Token Binary64) (r : Except TokenError (List (Token Binary64))),
      (r.bind fun ts => (tokensOfPieces strict qs).map (ts ++ ·)).map (t :: ·)
        = (r.map (t :: ·)).bind fun ts => (tokensOfPieces strict qs).map (ts ++ ·) := by
    intro t r
    cases r with
    | error e => rfl
    | ok ts => cases tokensOfPieces strict qs <;> rfl
  induction ps with
  | nil =>
    cases hq : tokensOfPieces strict qs <;> simp [tokensOfPieces, hq, Except.bind, Except.map]
  | cons p ps ih =>
    cases p with
    | run t =>
      rw [List.cons_append, tokensOfPieces, tokensOfPieces]
      cases readNumber? t with
      | none => rfl
      | some x => rw [ih]; exact hmap _ _
    | operator op => rw [List.cons_append, tokensOfPieces, tokensOfPieces, ih]; exact hmap _ _
    | leftParen => rw [List.cons_append, tokensOfPieces, tokensOfPieces, ih]; exact hmap _ _
    | rightParen => rw [List.cons_append, tokensOfPieces, tokensOfPieces, ih]; exact hmap _ _
    | unknown c =>
      rw [List.cons_append, tokensOfPieces, tokensOfPieces]
      split
      · rfl
      · exact ih

/-- A separator divides a text into parts that are read apart, with its own token between them. -/
theorem tokenize_append_separator {u : Char} (hblank : isBlank u = false)
    (hnumeral : isNumeral u = false) (hstar : u ≠ '*') (hslash : u ≠ '/') (strict : Bool)
    (s t : Text) :
    tokenize strict (s ++ u :: t)
      = (tokenize strict s).bind fun ts => (tokensOfPieces strict [.ofChar u]).bind fun us =>
          (tokenize strict t).map fun vs => ts ++ (us ++ vs) := by
  unfold tokenize
  rw [normalize_append_cons hblank hstar hslash, pieces_append_cons hnumeral,
    ← List.singleton_append, tokensOfPieces_append, tokensOfPieces_append]
  congr 1
  funext ts
  cases tokensOfPieces strict [.ofChar u] with
  | error e => rfl
  | ok us => cases tokensOfPieces strict (pieces (normalize t)) <;> rfl

theorem tokenize_append_leftParen (strict : Bool) (s t : Text) :
    tokenize strict (s ++ '(' :: t)
      = (tokenize strict s).bind fun ts =>
          (tokenize strict t).map fun vs => ts ++ .leftParen :: vs :=
  tokenize_append_separator (by decide) (by decide) (by decide) (by decide) strict s t

theorem tokenize_append_rightParen (strict : Bool) (s t : Text) :
    tokenize strict (s ++ ')' :: t)
      = (tokenize strict s).bind fun ts =>
          (tokenize strict t).map fun vs => ts ++ .rightParen :: vs :=
  tokenize_append_separator (by decide) (by decide) (by decide) (by decide) strict s t

/-- An operator on its own is read from its symbol. -/
theorem tokenize_symbol (strict : Bool) (op : Operator) :
    tokenize strict op.symbol = .ok [.operator op] := by
  cases op <;> cases strict <;> rfl

/-! ## Separators and blanks

Parentheses, most operators and every unknown character are separators. The last ones have no token,
so in lenient mode they divide a text and leave no trace. -/

/-- The token of a character that belongs to no numeral, if it is known. -/
def Token.ofChar? {α : Type} (c : Char) : Option (Token α) :=
  if c = '(' then some .leftParen
  else if c = ')' then some .rightParen
  else (Operator.ofChar? c).map .operator

/-- A piece of one character gives its token, or it is unknown and skipped or a fault. -/
theorem tokensOfPieces_ofChar (strict : Bool) (c : Char) (ps : List Piece) :
    tokensOfPieces strict (.ofChar c :: ps) = match Token.ofChar? c with
      | some t => (tokensOfPieces strict ps).map (t :: ·)
      | none => if strict then .error (.unknownCharacter c) else tokensOfPieces strict ps := by
  unfold Piece.ofChar Token.ofChar?
  split
  · rfl
  · split
    · rfl
    · cases Operator.ofChar? c <;> rfl

/-- In lenient mode a separator that is unknown leaves nothing between the two parts. -/
theorem tokensOfPieces_lenient_ofChar (u : Char) :
    tokensOfPieces false [.ofChar u] = .ok (Token.ofChar? u).toList := by
  rw [tokensOfPieces_ofChar]
  cases (Token.ofChar? u : Option (Token Binary64)) <;> rfl

/-- A character that is no blank, no digit, no point, no star and no slash divides a text: the
tokens are those of what stands before it, its own if it has one, and those of what stands behind
it, and the fault further to the left is reported. Blanks divide nothing: texts with the same
characters but for blanks give the same tokens and the same value, or the same fault, in either
mode. -/
theorem separators_divide_and_blanks_do_not :
    (∀ (s t : Text) (u : Char), isBlank u = false → isDigit u = false → u ≠ '.' → u ≠ '*' →
        u ≠ '/' →
        tokenize false (s ++ u :: t) = match tokenize false s, tokenize false t with
          | .error e, _ => .error e
          | .ok _, .error e => .error e
          | .ok ts, .ok vs => .ok (ts ++ (Token.ofChar? u).toList ++ vs))
      ∧ ∀ s t : Text, s.withoutBlanks = t.withoutBlanks → ∀ strict,
        tokenize strict s = tokenize strict t ∧ evaluate strict s = evaluate strict t := by
  constructor
  · intro s t u hblank hdigit hpoint hstar hslash
    have hnumeral : isNumeral u = false := by simp [isNumeral, hdigit, hpoint]
    rw [tokenize_append_separator hblank hnumeral hstar hslash, tokensOfPieces_lenient_ofChar]
    -- the part on the left decides first
    cases tokenize false s with
    | error e => rfl
    | ok ts =>
      cases tokenize false t with
      | error e => rfl
      | ok vs => exact congrArg Except.ok (List.append_assoc ts _ vs).symm
  · intro s t hst strict
    have htokens : tokenize strict s = tokenize strict t := by
      rw [tokenize, tokenize, normalize_congr hst]
    exact ⟨htokens, by rw [evaluate, evaluate, htokens]⟩

/-- Ten times minus times two: a minus keeps the stars on its two sides apart, a blank keeps neither
digits nor stars apart. -/
theorem separators_divide_and_blanks_do_not_at_stars :
    tokenize false ("1 0 *".toList ++ '-' :: "* 2".toList)
        = .ok [.number ⟨0x4024000000000000⟩, .operator .mul, .operator .sub, .operator .mul,
            .number ⟨0x4000000000000000⟩]
      ∧ tokenize true "1 0 * * 2".toList = tokenize true "10**2".toList := by
  have hleft : tokenize false "1 0 *".toList
      = .ok [.number ⟨0x4024000000000000⟩, .operator .mul] := by decide +kernel
  have hright : tokenize false "* 2".toList
      = .ok [.operator .mul, .number ⟨0x4000000000000000⟩] := by decide +kernel
  constructor
  · have hminus := separators_divide_and_blanks_do_not.1 "1 0 *".toList "* 2".toList '-'
      (by decide) (by decide) (by decide) (by decide) (by decide)
    rw [hleft, hright] at hminus
    exact hminus
  · exact (separators_divide_and_blanks_do_not.2 "1 0 * * 2".toList "10**2".toList (by decide)
      true).1

end Reckon
