import Mathlib.Data.List.TakeWhile
import Mathlib.Logic.Function.Basic
import Reckon.Proofs.Neighbours

/-!
# Tokens that are typed and read

A token list can be typed: every number as a literal, every operator as its symbol, and blanks
anywhere. What number a literal stands for is said of its digits and its point (`Literal.decimal`,
`Literal.value`), without the reader of runs, which then turns out to give it.
`tokenize_spelled_iff` says when the same list is read again: exactly if none of its tokens fuses
with the one behind it. Contraction then finds in the text the pairs that were typed as
operators and no others (`Doubled.contractPairs_spell`), and a run ends where its literal does
(`pieces_spell`). Conversely, whatever is read has no two neighbours that fuse.
-/

namespace Reckon

/-! ## Literals

A literal is a run that can be read: the conditions are about its characters, and they are exactly
those under which the reader takes the run (`isSome_readNumber?_iff`). Its decimal is told from the
same characters by counting, not by cutting the run at its points as the reader does. -/

/-- In a run a character that is no digit is a point. -/
theorem all_isDigit_iff {t : Text} (ht : t.all isNumeral = true) :
    t.all isDigit = true ↔ '.' ∉ t := by
  rw [List.all_eq_true] at ht ⊢
  constructor
  · intro h hpoint
    have hdigit := h '.' hpoint
    revert hdigit
    decide
  · intro h c hc
    have hne : c ≠ '.' := fun hpoint => h (hpoint ▸ hc)
    simpa [isNumeral, hne] using ht c hc

theorem Numeral.point_not_mem {t : Text} (h : t.all isDigit = true) : '.' ∉ t :=
  fun hpoint => absurd (List.all_eq_true.1 h '.' hpoint) (by decide)

namespace Decimal

/-- Digits are read as their number. -/
theorem ofRun?_digits {run : Text} (hne : run ≠ []) (hrun : run.all isDigit = true) :
    ofRun? run = some ⟨Numeral.read run, 0⟩ := by
  rw [ofRun?, splitOn_of_not_mem (Numeral.point_not_mem hrun)]
  exact if_pos ⟨hne, hrun⟩

/-- Digits with a point are read as their number, in units of the last place. -/
theorem ofRun?_point {whole fraction : Text} (hne : whole ++ fraction ≠ [])
    (hwhole : whole.all isDigit = true) (hfraction : fraction.all isDigit = true) :
    ofRun? (whole ++ '.' :: fraction)
      = some ⟨Numeral.read (whole ++ fraction), -(fraction.length : Int)⟩ := by
  rw [ofRun?, splitOn_append_cons (Numeral.point_not_mem hwhole),
    splitOn_of_not_mem (Numeral.point_not_mem hfraction)]
  exact if_pos ⟨hne, by rw [List.all_append, hwhole, hfraction, Bool.and_self]⟩

end Decimal

/-- Digits alone are read unless there are none. -/
theorem isSome_digits_iff {t : Text} (ht : t.all isNumeral = true) (hpoint : '.' ∉ t)
    (d : Decimal) :
    (if t ≠ [] ∧ t.all isDigit then some d else none).isSome = true ↔ t.any isDigit = true := by
  have hdigits := (all_isDigit_iff ht).2 hpoint
  rw [hdigits]
  cases t with
  | nil => simp
  | cons c rest =>
    have hc : isDigit c = true := List.all_eq_true.1 hdigits c List.mem_cons_self
    simp [hc]

/-- A run of digits and points is read if it has a digit and at most one point. -/
theorem isSome_readNumber?_iff {run : Text} (hrun : run.all isNumeral = true) :
    (readNumber? run).isSome = true ↔ run.any isDigit = true ∧ run.count '.' ≤ 1 := by
  have hjoin := joinWith_splitOn '.' run
  have hlength := length_splitOn '.' run
  have hclear : ∀ piece ∈ splitOn '.' run, '.' ∉ piece := fun _ => not_mem_of_mem_splitOn
  rw [readNumber?, Option.isSome_map, Decimal.ofRun?]
  -- on the number of pieces that the points cut the run into
  generalize splitOn '.' run = pieces at hjoin hlength hclear
  match pieces with
  | [] => simp at hlength
  | [whole] =>
    obtain rfl : whole = run := hjoin
    have hpoint : '.' ∉ whole := hclear whole List.mem_cons_self
    have hcount : whole.count '.' = 0 := List.count_eq_zero.2 hpoint
    dsimp only
    rw [isSome_digits_iff hrun hpoint, hcount]
    simp
  | [whole, fraction] =>
    obtain rfl : whole ++ ['.'] ++ fraction = run := hjoin
    have hpoint : '.' ∉ whole ++ fraction := by simpa using hclear
    have hboth : (whole ++ fraction).all isNumeral = true := by
      simp only [List.all_append, Bool.and_eq_true] at hrun ⊢
      exact ⟨hrun.1.1, hrun.2⟩
    have hcount : (whole ++ ['.'] ++ fraction).count '.' = 1 := (Nat.succ.inj hlength).symm
    have hnodigit : isDigit '.' = false := by decide
    dsimp only
    rw [isSome_digits_iff hboth hpoint, hcount]
    simp [hnodigit]
  | _ :: _ :: _ :: _ =>
    simp only [List.length_cons] at hlength
    simp
    omega

/-- A number as it is typed: digits, and at most one point before, between or behind them. -/
structure Literal where
  run : Text
  numeral : run.all isNumeral = true
  digit : run.any isDigit = true
  point : run.count '.' ≤ 1

namespace Literal

/-- The decimal that the literal spells: the number of all its digits, in units of the place of the
last one. The places are counted from the point, which is the first character that is no digit. -/
def decimal (l : Literal) : Decimal :=
  ⟨Numeral.read (l.run.filter isDigit), -((l.run.dropWhile isDigit).tail.length : Int)⟩

/-- The machine number nearest to that decimal, in the sense of
`Binary64.nearestMagnitude_nearest`. -/
def value (l : Literal) : Binary64 :=
  Binary64.ofDecimal l.decimal

theorem run_ne_nil (l : Literal) : l.run ≠ [] := by
  intro hnil
  have hdigit := l.digit
  rw [hnil] at hdigit
  cases hdigit

/-- The run is all digits, or digits before and behind one point. -/
theorem run_cases (l : Literal) :
    l.run.all isDigit = true ∨ ∃ whole fraction, l.run = whole ++ '.' :: fraction
      ∧ whole.all isDigit = true ∧ fraction.all isDigit = true := by
  by_cases hpoint : '.' ∈ l.run
  · obtain ⟨whole, fraction, hrun⟩ := List.append_of_mem hpoint
    have hcount := l.point
    have hnumeral := l.numeral
    rw [hrun] at hcount hnumeral
    rw [List.all_append, List.all_cons, Bool.and_eq_true, Bool.and_eq_true] at hnumeral
    -- the one point is used up, so there is none on either side of it
    rw [List.count_append, List.count_cons_self] at hcount
    have hwhole : '.' ∉ whole := List.count_eq_zero.1 (by omega)
    have hfraction : '.' ∉ fraction := List.count_eq_zero.1 (by omega)
    exact .inr ⟨whole, fraction, hrun, (all_isDigit_iff hnumeral.1).2 hwhole,
      (all_isDigit_iff hnumeral.2.2).2 hfraction⟩
  · exact .inl ((all_isDigit_iff l.numeral).2 hpoint)

theorem decimal_of_digits {l : Literal} (h : l.run.all isDigit = true) :
    l.decimal = ⟨Numeral.read l.run, 0⟩ := by
  have hfilter : l.run.filter isDigit = l.run := List.filter_eq_self.2 (List.all_eq_true.1 h)
  have hdrop : l.run.dropWhile isDigit = [] := List.dropWhile_eq_nil_iff.2 (List.all_eq_true.1 h)
  rw [decimal, hfilter, hdrop]
  rfl

/-- What stands behind the point is counted. -/
theorem decimal_of_point {l : Literal} {whole fraction : Text}
    (hrun : l.run = whole ++ '.' :: fraction) (hwhole : whole.all isDigit = true)
    (hfraction : fraction.all isDigit = true) :
    l.decimal = ⟨Numeral.read (whole ++ fraction), -(fraction.length : Int)⟩ := by
  have hpoint : ¬isDigit '.' = true := by decide
  have hfilter : l.run.filter isDigit = whole ++ fraction := by
    rw [hrun, List.filter_append, List.filter_cons_of_neg hpoint,
      List.filter_eq_self.2 (List.all_eq_true.1 hwhole),
      List.filter_eq_self.2 (List.all_eq_true.1 hfraction)]
  have hdrop : l.run.dropWhile isDigit = '.' :: fraction := by
    rw [hrun, List.dropWhile_append_of_pos (List.all_eq_true.1 hwhole),
      List.dropWhile_cons_of_neg hpoint]
  rw [decimal, hfilter, hdrop]
  rfl

/-- The reader of runs gives the value of the literal. -/
theorem readNumber?_run (l : Literal) : readNumber? l.run = some l.value := by
  rw [readNumber?, value]
  rcases l.run_cases with hdigits | ⟨whole, fraction, hrun, hwhole, hfraction⟩
  · rw [Decimal.ofRun?_digits l.run_ne_nil hdigits, decimal_of_digits hdigits]
    rfl
  · -- a point alone would have no digit on either side
    have hne : whole ++ fraction ≠ [] := by
      intro hnil
      obtain ⟨rfl, rfl⟩ := List.append_eq_nil_iff.1 hnil
      have hdigit := l.digit
      rw [hrun] at hdigit
      revert hdigit
      decide
    rw [decimal_of_point hrun hwhole hfraction, hrun,
      Decimal.ofRun?_point hne hwhole hfraction]
    rfl

end Literal

/-! ## Typing tokens

The spelling of the operators is a parameter, since the text is followed through the contractions:
first they are spelled by their symbols, then powers by their mark, then integer divisions too. -/

/-- A token as it is typed, if the operators are spelled as `symbol` says. -/
def Token.spelling (symbol : Operator → Text) : Token Literal → Text
  | number l => l.run
  | operator op => symbol op
  | leftParen => ['(']
  | rightParen => [')']

/-- Tokens typed one behind the other. -/
def spell (symbol : Operator → Text) (ts : List (Token Literal)) : Text :=
  ts.flatMap (Token.spelling symbol)

theorem spell_cons (symbol : Operator → Text) (t : Token Literal) (ts : List (Token Literal)) :
    spell symbol (t :: ts) = t.spelling symbol ++ spell symbol ts :=
  List.flatMap_cons

/-- `Spaced t s`: the text `s` is `t` with blanks put in anywhere. -/
inductive Spaced : Text → Text → Prop
  | nil : Spaced [] []
  | blank {c : Char} {t s : Text} (hc : isBlank c = true) (h : Spaced t s) : Spaced t (c :: s)
  | char (c : Char) {t s : Text} (h : Spaced t s) : Spaced (c :: t) (c :: s)

theorem Spaced.withoutBlanks_eq {t s : Text} (h : Spaced t s) :
    s.withoutBlanks = t.withoutBlanks := by
  induction h with
  | nil => rfl
  | blank hc _ ih => simpa [Text.withoutBlanks, hc] using ih
  | @char c t s _ ih => cases hc : isBlank c <;> simpa [Text.withoutBlanks, hc] using ih

/-- Every text comes of its other characters by putting its blanks in. -/
theorem spaced_withoutBlanks (s : Text) : Spaced s.withoutBlanks s := by
  induction s with
  | nil => exact .nil
  | cons c s ih =>
    cases hc : isBlank c with
    | true => simpa [Text.withoutBlanks, hc] using Spaced.blank hc ih
    | false => simpa [Text.withoutBlanks, hc] using Spaced.char c ih

/-- What is typed for a token is never skipped, and no mark is typed. -/
theorem mem_spell {c : Char} {ts : List (Token Literal)} (hc : c ∈ spell Operator.symbol ts) :
    isBlank c = false ∧ isTokenChar c = true ∧ c ≠ Operator.powerMark
      ∧ c ≠ Operator.intDivMark := by
  obtain ⟨t, -, hct⟩ := List.mem_flatMap.1 hc
  cases t with
  | number l =>
    have hnumeral : isNumeral c = true := List.all_eq_true.1 l.numeral c hct
    have htoken : isTokenChar c = true := by simp [isTokenChar, hnumeral]
    have hne : ∀ d, isNumeral d = false → c ≠ d := by
      rintro d hd rfl
      rw [hd] at hnumeral
      cases hnumeral
    refine ⟨?_, htoken, hne _ (by decide), hne _ (by decide)⟩
    rcases Bool.or_eq_true_iff.1 hnumeral with hdigit | hpoint
    · exact not_isBlank_of_isDigit hdigit
    · rw [beq_iff_eq.1 hpoint]
      decide
  | operator op =>
    -- there are finitely many symbols, so their characters are checked one by one
    have hsymbol : op.symbol.all (fun c => !isBlank c && isTokenChar c
        && c != Operator.powerMark && c != Operator.intDivMark) = true := by cases op <;> decide
    simpa [and_assoc] using List.all_eq_true.1 hsymbol c hct
  | leftParen =>
    obtain rfl := List.mem_singleton.1 hct
    decide
  | rightParen =>
    obtain rfl := List.mem_singleton.1 hct
    decide

/-! ## Contraction of what was typed

Both contractions work alike. One character spells an operator alone and another one twice, and the
first pair that is found from the left must be the second operator and no two of the first. That is
what the condition on neighbours is for. -/

/-- Without the character nothing is contracted. -/
theorem contractPairs_append_of_not_mem {c mark : Char} {s : Text} (hs : c ∉ s) (t : Text) :
    contractPairs c mark (s ++ t) = s ++ contractPairs c mark t := by
  induction s with
  | nil => rfl
  | cons x rest ih =>
    have hx : x ≠ c := fun h => hs (h ▸ List.mem_cons_self)
    have hcons : contractPairs c mark (x :: (rest ++ t)) = x :: contractPairs c mark (rest ++ t) :=
      contractPairs_append_cons hx [] (rest ++ t)
    rw [List.cons_append, hcons, ih fun h => hs (List.mem_cons_of_mem x h), List.cons_append]

/-- A character of pairs stays alone in front of anything else. -/
theorem contractPairs_cons_of_head? {c mark : Char} {t : Text} (ht : t.head? ≠ some c) :
    contractPairs c mark (c :: t) = c :: contractPairs c mark t := by
  cases t with
  | nil => rfl
  | cons x rest =>
    have hx : x ≠ c := fun h => ht (congrArg some h)
    rw [contractPairs, if_neg fun h => hx h.2]

/-- The part that the character `c` has in a spelling of the operators: one `c` spells `single`, two
spell `double`, and nothing else has any. -/
structure Doubled (symbol : Operator → Text) (c : Char) (single double : Operator) : Prop where
  once : symbol single = [c]
  twice : symbol double = [c, c]
  others : ∀ op, op ≠ single → op ≠ double → c ∉ symbol op
  filled : ∀ op, symbol op ≠ []
  apart : isNumeral c = false ∧ c ≠ '(' ∧ c ≠ ')'

namespace Doubled

variable {symbol : Operator → Text} {c : Char} {single double : Operator}

/-- Any other token is typed without the character. -/
theorem not_mem_spelling (h : Doubled symbol c single double) {t : Token Literal}
    (hsingle : t ≠ .operator single) (hdouble : t ≠ .operator double) : c ∉ t.spelling symbol := by
  obtain ⟨hnumeral, hleft, hright⟩ := h.apart
  intro hc
  cases t with
  | number l =>
    have hnot := List.all_eq_true.1 l.numeral c hc
    rw [hnumeral] at hnot
    cases hnot
  | operator op =>
    exact h.others op (fun e => hsingle (congrArg _ e)) (fun e => hdouble (congrArg _ e)) hc
  | leftParen => exact hleft (List.mem_singleton.1 hc)
  | rightParen => exact hright (List.mem_singleton.1 hc)

theorem spelling_ne_nil (h : Doubled symbol c single double) (t : Token Literal) :
    t.spelling symbol ≠ [] := by
  cases t with
  | number l => exact l.run_ne_nil
  | operator op => exact h.filled op
  | leftParen => exact List.cons_ne_nil _ _
  | rightParen => exact List.cons_ne_nil _ _

/-- What is typed begins with `c` only for the two operators. -/
theorem head?_spell_ne (h : Doubled symbol c single double) {ts : List (Token Literal)}
    (hts : ∀ t ∈ ts.head?, t ≠ .operator single ∧ t ≠ .operator double) :
    (spell symbol ts).head? ≠ some c := by
  cases ts with
  | nil => exact fun hnil => nomatch hnil
  | cons t rest =>
    obtain ⟨hsingle, hdouble⟩ := hts t rfl
    intro hc
    rw [spell_cons, List.head?_append_of_ne_nil _ (h.spelling_ne_nil t)] at hc
    exact h.not_mem_spelling hsingle hdouble (List.mem_of_mem_head? hc)

/-- Contraction puts its mark for each `double` and for nothing else, if no `single` stands where it
could take a half of what follows. -/
theorem contractPairs_spell (h : Doubled symbol c single double) (mark : Char)
    {ts : List (Token Literal)}
    (hts : ts.IsChain fun t u =>
      t = .operator single → u ≠ .operator single ∧ u ≠ .operator double) :
    contractPairs c mark (spell symbol ts) = spell (Function.update symbol double [mark]) ts := by
  induction ts with
  | nil => rfl
  | cons t rest ih =>
    obtain ⟨hnext, hrest⟩ := List.isChain_cons.1 hts
    rw [spell_cons, spell_cons, ← ih hrest]
    -- the pair of `double` is contracted, a `single` stays alone, and nothing else has a `c`
    by_cases hdouble : t = .operator double
    · subst hdouble
      simp [Token.spelling, h.twice, contractPairs]
    · have hsame : t.spelling (Function.update symbol double [mark]) = t.spelling symbol := by
        cases t with
        | operator op => exact Function.update_of_ne (fun e => hdouble (congrArg _ e)) _ _
        | number l => rfl
        | leftParen => rfl
        | rightParen => rfl
      rw [hsame]
      by_cases hsingle : t = .operator single
      · have hhead := h.head?_spell_ne fun u hu => hnext u hu hsingle
        subst hsingle
        simp [Token.spelling, h.once, contractPairs_cons_of_head? hhead]
      · exact contractPairs_append_of_not_mem (h.not_mem_spelling hsingle hdouble) _

end Doubled

theorem doubled_star : Doubled Operator.symbol '*' .mul .pow where
  once := rfl
  twice := rfl
  others op := by cases op <;> decide
  filled op := by cases op <;> decide
  apart := by decide

/-- Slashes are contracted when the powers are marks already. -/
theorem doubled_slash :
    Doubled (Function.update Operator.symbol .pow [Operator.powerMark]) '/' .div .intDiv where
  once := rfl
  twice := rfl
  others op := by cases op <;> decide
  filled op := by cases op <;> decide
  apart := by decide

/-- The normal form of what was typed spells every operator by its mark. -/
theorem normalize_spell {ts : List (Token Literal)} (hts : Unfused ts) :
    normalize (spell Operator.symbol ts) = spell (fun op => [op.mark]) ts := by
  have hblank : (spell Operator.symbol ts).withoutBlanks = spell Operator.symbol ts :=
    List.filter_eq_self.2 fun c hc => by rw [(mem_spell hc).1]; rfl
  -- the two conditions of `Unfused` on operators, each in the form that its contraction asks for
  have hstars : ts.IsChain fun t u =>
      t = .operator .mul → u ≠ .operator .mul ∧ u ≠ .operator .pow := by
    refine hts.imp fun t u hfuses ht => ⟨?_, ?_⟩
    · rintro rfl
      exact hfuses (ht ▸ .stars (.inl rfl))
    · rintro rfl
      exact hfuses (ht ▸ .stars (.inr rfl))
  have hslashes : ts.IsChain fun t u =>
      t = .operator .div → u ≠ .operator .div ∧ u ≠ .operator .intDiv := by
    refine hts.imp fun t u hfuses ht => ⟨?_, ?_⟩
    · rintro rfl
      exact hfuses (ht ▸ .slashes (.inl rfl))
    · rintro rfl
      exact hfuses (ht ▸ .slashes (.inr rfl))
  have hmarks : Function.update (Function.update Operator.symbol .pow [Operator.powerMark]) .intDiv
      [Operator.intDivMark] = fun op => [op.mark] := by
    funext op
    cases op <;> rfl
  rw [normalize, hblank, doubled_star.contractPairs_spell _ hstars,
    doubled_slash.contractPairs_spell _ hslashes, hmarks]

/-! ## Reading what was typed

In the normal form every token but a number is one character, so only the runs have to be found
again. A run ends with its literal, since no number is typed behind a number. -/

/-- A run ends where something else follows. -/
theorem pieces_append_run {run t : Text} (hrun : run.all isNumeral = true) (hne : run ≠ [])
    (ht : ∀ c ∈ t.head?, isNumeral c = false) : pieces (run ++ t) = .run run :: pieces t := by
  induction run with
  | nil => exact absurd rfl hne
  | cons c rest ih =>
    rw [List.all_cons, Bool.and_eq_true] at hrun
    rw [List.cons_append, pieces, if_pos hrun.1]
    cases rest with
    -- the run is read from its end, where it meets what follows
    | cons d more => rw [ih hrun.2 (List.cons_ne_nil d more), consNumeral]
    | nil =>
      rw [List.nil_append]
      cases t with
      | nil => rfl
      | cons d t =>
        have hd : pieces (d :: t) = .ofChar d :: pieces t := by rw [pieces, ht d rfl]; rfl
        rw [hd]
        exact consNumeral_append_ofChar c d [] (pieces t)

/-- The piece that a token is read from. -/
def Token.piece : Token Literal → Piece
  | number l => .run l.run
  | operator op => .operator op
  | leftParen => .leftParen
  | rightParen => .rightParen

/-- The pieces of the normal form are those of the tokens. -/
theorem pieces_spell {ts : List (Token Literal)} (hts : Unfused ts) :
    pieces (spell (fun op => [op.mark]) ts) = ts.map Token.piece := by
  have hmark : ∀ op : Operator, isNumeral op.mark = false := by
    intro op
    cases op <;> rfl
  induction ts with
  | nil => rfl
  | cons t rest ih =>
    obtain ⟨hnext, hrest⟩ := List.isChain_cons.1 hts
    rw [spell_cons, List.map_cons, ← ih hrest]
    cases t with
    | operator op =>
      rw [Token.spelling, List.singleton_append, pieces, hmark, Piece.ofChar_mark]
      rfl
    | leftParen => rfl
    | rightParen => rfl
    -- a run ends where another token begins, and that token is no number
    | number l =>
      refine pieces_append_run l.numeral l.run_ne_nil fun c hc => ?_
      cases rest with
      | nil => cases hc
      | cons u more =>
        cases u with
        | number l' => exact absurd (.numbers l l') (hnext _ rfl)
        | operator op =>
          obtain rfl : op.mark = c := Option.some.inj hc
          exact hmark op
        | leftParen =>
          obtain rfl : '(' = c := Option.some.inj hc
          rfl
        | rightParen =>
          obtain rfl : ')' = c := Option.some.inj hc
          rfl

/-- They are read as the tokens, in either mode, since none of them is unknown. -/
theorem tokensOfPieces_piece (strict : Bool) (ts : List (Token Literal)) :
    tokensOfPieces strict (ts.map Token.piece) = .ok (ts.map (Token.map Literal.value)) := by
  induction ts with
  | nil => rfl
  | cons t rest ih =>
    rw [List.map_cons, List.map_cons]
    cases t with
    | number l =>
      rw [Token.piece, tokensOfPieces, l.readNumber?_run]
      dsimp only
      rw [ih]
      rfl
    | operator op => rw [Token.piece, tokensOfPieces, ih]; rfl
    | leftParen => rw [Token.piece, tokensOfPieces, ih]; rfl
    | rightParen => rw [Token.piece, tokensOfPieces, ih]; rfl

/-- Whatever was typed, what is read has no neighbours that fuse. -/
theorem unfused_of_tokenize_spell {strict : Bool} {ts : List (Token Literal)}
    {us : List (Token Binary64)} (h : tokenize strict (spell Operator.symbol ts) = .ok us) :
    Unfused us := by
  have hpower : Operator.powerMark ∉ spell Operator.symbol ts := fun hc => (mem_spell hc).2.2.1 rfl
  have hintDiv : Operator.intDivMark ∉ spell Operator.symbol ts :=
    fun hc => (mem_spell hc).2.2.2 rfl
  -- everything in the normal form is a mark or was typed
  have hknown : ∀ c, .unknown c ∉ pieces (normalize (spell Operator.symbol ts)) := by
    intro c hc
    obtain ⟨hmem, hother⟩ := unknown_mem_pieces_iff.1 hc
    rcases mem_of_mem_normalize hmem with rfl | rfl | hsource
    · revert hother
      decide
    · revert hother
      decide
    · rw [(mem_spell hsource).2.1] at hother
      cases hother
  exact unfused_of_reads (isChain_normalize hpower hintDiv) (forall₂_reads hknown h)

/-- Tokens that are typed, with blanks put in anywhere, are read as the same tokens in either mode
exactly if none of them fuses with the one behind it: no number stands right behind a number, no `*`
in front of a `*` or `**`, and no `/` in front of a `/` or `//`. A number is read as the machine
number nearest to the decimal that was typed. -/
theorem tokenize_spelled_iff (strict : Bool) {ts : List (Token Literal)} {source : Text}
    (hsource : Spaced (spell Operator.symbol ts) source) :
    tokenize strict source = .ok (ts.map (Token.map Literal.value)) ↔ Unfused ts := by
  have hsame : tokenize strict source = tokenize strict (spell Operator.symbol ts) := by
    rw [tokenize, tokenize, normalize_congr hsource.withoutBlanks_eq]
  rw [hsame]
  constructor
  · intro h
    -- the tokens that were read are the typed ones with other numbers
    have hread := unfused_of_tokenize_spell h
    rw [Unfused, List.isChain_map] at hread
    exact hread.imp fun t u hapart hfuses => hapart (hfuses.map Literal.value)
  · intro hts
    rw [tokenize, normalize_spell hts, pieces_spell hts, tokensOfPieces_piece]

/-- Three stars are a power and a product, in this order only. -/
theorem tokenize_spelled_iff_at_three_stars :
    let two : Literal := ⟨['2'], by decide, by decide, by decide⟩
    let half : Literal := ⟨".5".toList, by decide, by decide, by decide⟩
    tokenize true "2* ** . 5".toList
        = .ok [.number two.value, .operator .pow, .operator .mul, .number half.value]
      ∧ tokenize true "2* ** . 5".toList
        ≠ .ok [.number two.value, .operator .mul, .operator .pow, .number half.value] := by
  intro two half
  have hspaced := spaced_withoutBlanks "2* ** . 5".toList
  have hpower : Spaced (spell Operator.symbol
      [.number two, .operator .pow, .operator .mul, .number half]) "2* ** . 5".toList := hspaced
  have hproduct : Spaced (spell Operator.symbol
      [.number two, .operator .mul, .operator .pow, .number half]) "2* ** . 5".toList := hspaced
  constructor
  · refine (tokenize_spelled_iff true hpower).2 ?_
    simp only [Unfused, List.isChain_cons_cons, List.isChain_singleton, and_true]
    exact ⟨nofun, nofun, nofun⟩
  · intro h
    have hunfused := (tokenize_spelled_iff true hproduct).1 h
    simp only [Unfused, List.isChain_cons_cons] at hunfused
    exact hunfused.2.1 (.stars (.inr rfl))

end Reckon
