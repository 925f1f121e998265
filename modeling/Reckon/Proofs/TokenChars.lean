import Mathlib.Data.List.Forall2
import Reckon.Proofs.Tokenizing

/-!
# The characters of tokens

A character that no token consists of is a piece of its own wherever it stands, and nothing else is
such a piece (`unknown_mem_pieces_iff`). Strict reading accepts none, so the texts that it accepts
have only blanks and characters of tokens (`mem_of_tokenize_strict`). And where there is none, in
either mode, the tokens are read from the pieces one by one (`forall₂_reads`).
-/

namespace Reckon

/-- The characters that tokens consist of. -/
def isTokenChar (c : Char) : Bool :=
  isNumeral c || c == '(' || c == ')' || (Operator.ofChar? c).isSome

/-! ## Contraction

What is in a normal text is in the source, or it is one of the two marks. Conversely, of the source
only blanks, stars and slashes can be missing. -/

/-- Contraction takes away only what it contracts. -/
theorem mem_contractPairs {c mark x : Char} {t : Text} (hx : x ∈ t) (hne : x ≠ c) :
    x ∈ contractPairs c mark t := by
  fun_induction contractPairs c mark t with
  | case1 y z rest hpair ih =>
    obtain ⟨rfl, rfl⟩ := hpair
    -- `x` is neither half of the pair
    have hrest : x ∈ rest := by simpa [hne] using hx
    exact List.mem_cons_of_mem mark (ih hrest)
  | case2 y z rest hpair ih =>
    rcases List.mem_cons.1 hx with rfl | hx
    · exact List.mem_cons_self
    · exact List.mem_cons_of_mem y (ih hx)
  | case3 short => exact hx

/-- It adds nothing but the mark. -/
theorem mem_of_mem_contractPairs {c mark x : Char} {t : Text} (hx : x ∈ contractPairs c mark t) :
    x = mark ∨ x ∈ t := by
  fun_induction contractPairs c mark t with
  | case1 y z rest hpair ih =>
    rcases List.mem_cons.1 hx with rfl | hx
    · exact .inl rfl
    · exact (ih hx).imp_right fun h => List.mem_cons_of_mem y (List.mem_cons_of_mem z h)
  | case2 y z rest hpair ih =>
    rcases List.mem_cons.1 hx with rfl | hx
    · exact .inr List.mem_cons_self
    · exact (ih hx).imp_right fun h => List.mem_cons_of_mem y h
  | case3 short => exact .inr hx

/-- A character that is neither skipped nor contracted is found in the normal form. -/
theorem mem_normalize {c : Char} {source : Text} (hc : c ∈ source) (hblank : isBlank c = false)
    (hstar : c ≠ '*') (hslash : c ≠ '/') : c ∈ normalize source := by
  have hkept : c ∈ source.withoutBlanks := List.mem_filter.2 ⟨hc, by rw [hblank]; rfl⟩
  exact mem_contractPairs (mem_contractPairs hkept hstar) hslash

/-- The normal form has no characters but the marks and those of the source. -/
theorem mem_of_mem_normalize {c : Char} {source : Text} (hc : c ∈ normalize source) :
    c = Operator.powerMark ∨ c = Operator.intDivMark ∨ c ∈ source := by
  rcases mem_of_mem_contractPairs hc with rfl | hc
  · exact .inr (.inl rfl)
  · rcases mem_of_mem_contractPairs hc with rfl | hc
    · exact .inl rfl
    · exact .inr (.inr (List.mem_filter.1 hc).1)

/-! ## Pieces

Cutting does not look at the characters around an unknown one, so that it is found among the pieces
exactly if it is found in the text. -/

/-- A character is a piece of its own kind, and the unknown kind is what no token consists of. -/
theorem Piece.unknown_eq_ofChar_iff {c d : Char} (hd : isNumeral d = false) :
    unknown c = ofChar d ↔ c = d ∧ isTokenChar c = false := by
  constructor
  · intro h
    -- the last of the kinds, after all others have been ruled out
    unfold ofChar at h
    split at h
    · cases h
    · split at h
      · cases h
      · split at h
        · cases h
        · next hleft hright _ hop =>
          obtain rfl : c = d := unknown.inj h
          exact ⟨rfl, by simp [isTokenChar, hd, hleft, hright, hop]⟩
  · rintro ⟨rfl, h⟩
    simp only [isTokenChar, Bool.or_eq_false_iff, beq_eq_false_iff_ne, Option.isSome_eq_false_iff,
      Option.isNone_iff_eq_none] at h
    obtain ⟨⟨⟨-, hleft⟩, hright⟩, hop⟩ := h
    rw [ofChar, if_neg hleft, if_neg hright, hop]

/-- A digit or point in front does not touch the unknown pieces. -/
theorem unknown_mem_consNumeral_iff {c d : Char} {ps : List Piece} :
    .unknown c ∈ consNumeral d ps ↔ .unknown c ∈ ps := by
  unfold consNumeral
  split <;> simp

/-- A character of no token is a piece of its own, wherever it stands. -/
theorem unknown_mem_pieces_iff {c : Char} {t : Text} :
    .unknown c ∈ pieces t ↔ c ∈ t ∧ isTokenChar c = false := by
  induction t with
  | nil => simp [pieces]
  | cons d rest ih =>
    rw [pieces, List.mem_cons, or_and_right]
    split
    · next hd =>
      -- a digit or point is a character of tokens
      have hother : ¬(c = d ∧ isTokenChar c = false) := by
        rintro ⟨rfl, h⟩
        simp [isTokenChar, hd] at h
      rw [unknown_mem_consNumeral_iff, ih, or_iff_right hother]
    · next hd =>
      rw [List.mem_cons, ih, Piece.unknown_eq_ofChar_iff (Bool.eq_false_iff.2 hd)]

/-- In strict mode an unknown piece is a fault, wherever it stands. -/
theorem unknown_not_mem_of_tokensOfPieces {ps : List Piece} {ts : List (Token Binary64)}
    (h : tokensOfPieces true ps = .ok ts) (c : Char) : .unknown c ∉ ps := by
  intro hmem
  obtain ⟨before, behind, rfl⟩ := List.append_of_mem hmem
  have hfault : tokensOfPieces true (.unknown c :: behind) = .error (.unknownCharacter c) := rfl
  rw [tokensOfPieces_append, hfault] at h
  -- whatever comes of the pieces before it, the text is not accepted
  cases hbefore : tokensOfPieces true before <;> rw [hbefore] at h <;> cases h

/-- A text that strict reading accepts has no other characters than blanks and those of tokens. -/
theorem mem_of_tokenize_strict {source : Text} {ts : List (Token Binary64)}
    (h : tokenize true source = .ok ts) {c : Char} (hc : c ∈ source) :
    isBlank c = true ∨ isTokenChar c = true := by
  by_contra hother
  simp only [not_or, Bool.not_eq_true] at hother
  obtain ⟨hblank, htoken⟩ := hother
  -- stars and slashes may be contracted, but they are characters of tokens
  have hstar : c ≠ '*' := by
    rintro rfl
    revert htoken
    decide
  have hslash : c ≠ '/' := by
    rintro rfl
    revert htoken
    decide
  have hnormal : c ∈ normalize source := mem_normalize hc hblank hstar hslash
  exact unknown_not_mem_of_tokensOfPieces h c (unknown_mem_pieces_iff.2 ⟨hnormal, htoken⟩)

/-! ## Tokens

If there is nothing unknown, no piece is skipped, and the two lists go together one by one. -/

/-- The token of a piece that is no unknown character. -/
inductive Piece.Reads : Piece → Token Binary64 → Prop
  | number {t : Text} {x : Binary64} (h : readNumber? t = some x) : Reads (.run t) (.number x)
  | operator (op : Operator) : Reads (.operator op) (.operator op)
  | leftParen : Reads .leftParen .leftParen
  | rightParen : Reads .rightParen .rightParen

theorem exists_of_map_cons_eq_ok {t : Token Binary64} {ts : List (Token Binary64)}
    {r : Except TokenError (List (Token Binary64))} (h : r.map (t :: ·) = .ok ts) :
    ∃ us, r = .ok us ∧ t :: us = ts := by
  cases r with
  | error e => cases h
  | ok us => exact ⟨us, rfl, Except.ok.inj h⟩

/-- The first piece gives the first token, if it is known. -/
theorem exists_of_tokensOfPieces_cons {strict : Bool} {p : Piece} {ps : List Piece}
    {ts : List (Token Binary64)} (hknown : ∀ c, p ≠ .unknown c)
    (h : tokensOfPieces strict (p :: ps) = .ok ts) :
    ∃ t us, p.Reads t ∧ tokensOfPieces strict ps = .ok us ∧ t :: us = ts := by
  cases p with
  | run text =>
    rw [tokensOfPieces] at h
    split at h
    · -- a run that is no number is a fault
      cases h
    · next x hx =>
      obtain ⟨us, hus, hts⟩ := exists_of_map_cons_eq_ok h
      exact ⟨_, us, .number hx, hus, hts⟩
  | operator op =>
    obtain ⟨us, hus, hts⟩ := exists_of_map_cons_eq_ok h
    exact ⟨_, us, .operator op, hus, hts⟩
  | leftParen =>
    obtain ⟨us, hus, hts⟩ := exists_of_map_cons_eq_ok h
    exact ⟨_, us, .leftParen, hus, hts⟩
  | rightParen =>
    obtain ⟨us, hus, hts⟩ := exists_of_map_cons_eq_ok h
    exact ⟨_, us, .rightParen, hus, hts⟩
  | unknown c => exact absurd rfl (hknown c)

/-- Without unknown characters the tokens are those of the pieces, one by one. -/
theorem forall₂_reads {strict : Bool} {ps : List Piece} {ts : List (Token Binary64)}
    (hknown : ∀ c, .unknown c ∉ ps) (h : tokensOfPieces strict ps = .ok ts) :
    List.Forall₂ Piece.Reads ps ts := by
  induction ps generalizing ts with
  | nil =>
    obtain rfl : [] = ts := Except.ok.inj h
    exact .nil
  | cons p ps ih =>
    have hfirst : ∀ c, p ≠ .unknown c := fun c hp => hknown c (hp ▸ List.mem_cons_self)
    obtain ⟨t, us, ht, hus, rfl⟩ := exists_of_tokensOfPieces_cons hfirst h
    exact .cons ht (ih (fun c hc => hknown c (List.mem_cons_of_mem p hc)) hus)

end Reckon
