import Reckon.Proofs.Segments

/-!
# The two modes of reading

Strict and lenient reading part at the first unknown character and nowhere else: strict reading
fails there, lenient reading notes a warning and goes on, up to the first malformed run
(`tokensOfPieces_strict`). Which characters are skipped can be told from the normal text: they are
the characters of no token in front of that run (`skippedCharacters_pieces`).
-/

namespace Reckon

/-! ## In front of the first malformed run

Lenient reading stops at the first malformed run, so characters behind it are not skipped any more.
Both `soundPart` and `skippedCharacters` are followed segment by segment. -/

/-- What stands in front of the first malformed run; the whole text if there is none. -/
def soundPart (t : Text) : Text :=
  ((segments t).takeWhile fun s => !isMalformed s).flatten

theorem soundPart_spec (t : Text) :
    Sound t ∧ soundPart t = t ∨ ∃ run behind, FirstMalformed t (soundPart t) run behind := by
  cases hfirst : (segments t).find? isMalformed with
  -- nothing is malformed, so that all segments are taken
  | none =>
    have hclear : ∀ s ∈ segments t, isMalformed s = false := by simpa using hfirst
    refine .inl ⟨sound_iff.2 hclear, ?_⟩
    rw [soundPart, List.takeWhile_eq_self_iff.2 fun s hs => by rw [hclear s hs]; rfl]
    exact List.flatten_splitBy _ t
  -- the segments are taken up to the first malformed one
  | some run =>
    obtain ⟨before, behind, h⟩ := find?_isMalformed_eq_some_iff.1 hfirst
    have hrun : ¬((!isMalformed run) = true) := by
      rw [(isMalformed_of_isRun h.isRun).2 h.malformed]
      exact Bool.false_ne_true
    have hfront : ∀ s ∈ segments before, (!isMalformed s) = true :=
      fun s hs => by rw [sound_iff.1 h.sound s hs]; rfl
    have hpart : soundPart t = before := by
      have htake : (run :: segments behind).takeWhile (fun s => !isMalformed s) = [] :=
        List.takeWhile_cons_of_neg hrun
      rw [soundPart, h.parts, h.isRun.segments_append, List.takeWhile_append_of_pos hfront, htake,
        List.append_nil]
      exact List.flatten_splitBy _ before
    exact .inr ⟨run, behind, hpart ▸ h⟩

/-- A character outside runs belongs to the sound part if it comes first. -/
theorem soundPart_cons {c : Char} (hc : isNumeral c = false) (rest : Text) :
    soundPart (c :: rest) = c :: soundPart rest := by
  rw [soundPart, segments_cons hc, List.takeWhile_cons_of_pos (by rw [isMalformed_char hc]; rfl)]
  rfl

/-- So does a run, unless it is malformed. -/
theorem soundPart_run_append {run rest : Text} (hfilled : run ≠ [])
    (hrun : run.all isNumeral = true) (hrest : ∀ d ∈ rest.head?, isNumeral d = false) :
    soundPart (run ++ rest) = if isMalformed run then [] else run ++ soundPart rest := by
  rw [soundPart, segments_run_append hfilled hrun hrest, List.takeWhile_cons]
  cases isMalformed run <;> rfl

/-- Characters of tokens are not skipped, all others are. -/
theorem skippedCharacters_ofChar {c : Char} (hc : isNumeral c = false) (ps : List Piece) :
    skippedCharacters (.ofChar c :: ps)
      = if isTokenChar c then skippedCharacters ps else c :: skippedCharacters ps := by
  rw [isTokenChar_eq_isSome hc]
  unfold Piece.ofChar Token.ofChar?
  split
  · rfl
  · split
    · rfl
    · cases Operator.ofChar? c <;> rfl

/-- The characters of no token in front of the first malformed run, in order. -/
def unknownCharacters (t : Text) : List Char :=
  (soundPart t).filter fun c => !isTokenChar c

/-- They are the ones that lenient reading skips. -/
theorem skippedCharacters_pieces (t : Text) :
    skippedCharacters (pieces t) = unknownCharacters t := by
  induction t using segments_induction with
  | nil => rfl
  | char c rest hc ih =>
    rw [pieces_cons hc, skippedCharacters_ofChar hc, ih, unknownCharacters, unknownCharacters,
      soundPart_cons hc, List.filter_cons]
    cases isTokenChar c <;> rfl
  | run run rest hfilled hrun hrest ih =>
    have hknown : run.filter (fun c => !isTokenChar c) = [] := by
      refine List.filter_eq_nil_iff.2 fun c hc => ?_
      simp [isTokenChar, List.all_eq_true.1 hrun c hc]
    rw [pieces_append_run hrun hfilled hrest, skippedCharacters, ih, unknownCharacters,
      unknownCharacters, soundPart_run_append hfilled hrun hrest, isMalformed_eq_isNone hrun]
    -- behind a malformed run nothing is skipped any more
    cases readNumber? run with
    | none => rfl
    | some x => simp [hknown]

/-! ## The modes

The modes treat one kind of piece differently. `tokensOfPieces_strict` says what this comes to for
any pieces, and everything else about the modes follows from it. -/

/-- Strict reading fails at the first character that lenient reading skips, and is lenient reading
if there is none. -/
theorem tokensOfPieces_strict (ps : List Piece) :
    tokensOfPieces true ps = match skippedCharacters ps with
      | [] => tokensOfPieces false ps
      | c :: _ => .error (.unknownCharacter c) := by
  induction ps with
  | nil => rfl
  | cons p ps ih =>
    -- a token in front changes neither what is skipped nor the fault
    have hmap : ∀ t : Token Binary64, (tokensOfPieces true ps).map (t :: ·)
        = match skippedCharacters ps with
          | [] => (tokensOfPieces false ps).map (t :: ·)
          | c :: _ => .error (.unknownCharacter c) := by
      intro t
      rw [ih]
      cases skippedCharacters ps <;> rfl
    cases p with
    | run t =>
      rw [tokensOfPieces, tokensOfPieces, skippedCharacters]
      cases readNumber? t with
      | none => rfl
      | some x => exact hmap (.number x)
    | operator op => exact hmap (.operator op)
    | leftParen => exact hmap .leftParen
    | rightParen => exact hmap .rightParen
    | unknown c => rfl

theorem tokenize_strict (source : Text) :
    tokenize true source = match unknownCharacters (normalize source) with
      | [] => tokenize false source
      | c :: _ => .error (.unknownCharacter c) := by
  rw [← skippedCharacters_pieces]
  exact tokensOfPieces_strict _

/-- Lenient reading never fails at an unknown character. -/
theorem tokenize_lenient_ne_unknownCharacter (source : Text) (c : Char) :
    tokenize false source ≠ .error (.unknownCharacter c) := by
  intro h
  obtain ⟨run, -, hrun⟩ := (tokensOfPieces_eq_error_iff (normalize source) _).1 h
  cases hrun

/-- Strict reading fails at the first unknown character, if there is one, and at no other. -/
theorem tokenize_strict_eq_unknownCharacter_iff (source : Text) (c : Char) :
    tokenize true source = .error (.unknownCharacter c)
      ↔ (unknownCharacters (normalize source)).head? = some c := by
  rw [tokenize_strict]
  cases unknownCharacters (normalize source) with
  | nil => simpa using tokenize_lenient_ne_unknownCharacter source c
  | cons d more => simp

/-- The warnings of lenient reading are those of the skipped characters. -/
theorem warnings_tokenizeLog (source : Text) :
    (tokenizeLog false source).filter (fun r => r.level = .warn)
      = (unknownCharacters (normalize source)).map skipWarning := by
  have hwarn : ∀ r ∈ (skippedCharacters (pieces (normalize source))).map skipWarning,
      decide (r.level = .warn) = true := by
    rintro r hr
    obtain ⟨c, -, rfl⟩ := List.mem_map.1 hr
    rfl
  rw [← skippedCharacters_pieces]
  unfold tokenizeLog
  cases tokenize false source <;> simp [List.filter_eq_self.2 hwarn]

/-- The two modes differ only by unknown characters, and of these only the ones in front of the
first malformed run of the normal text count. Lenient reading notes one warning for each of them, in
order, and no other. Strict reading fails at the first of them, and if there is none it gives the
same tokens or the same fault as lenient reading. So both modes give an expression the same value,
or the same fault, unless strict reading finds an unknown character in it. -/
theorem modes_differ_by_unknown_characters (source : Text) :
    let normal := normalize source
    let unknown := unknownCharacters normal
    (Sound normal ∧ soundPart normal = normal
        ∨ ∃ run behind, FirstMalformed normal (soundPart normal) run behind)
      ∧ (tokenizeLog false source).filter (fun r => r.level = .warn) = unknown.map skipWarning
      ∧ (∀ c, tokenize true source = .error (.unknownCharacter c) ↔ unknown.head? = some c)
      ∧ (unknown = [] → tokenize true source = tokenize false source)
      ∧ ((∀ c, evaluate true source ≠ .error (.token (.unknownCharacter c))) →
        evaluate true source = evaluate false source) := by
  intro normal unknown
  have hnone : unknown = [] → tokenize true source = tokenize false source := by
    intro hnil
    have hsame := tokenize_strict source
    rwa [show unknownCharacters (normalize source) = [] from hnil] at hsame
  refine ⟨soundPart_spec normal, warnings_tokenizeLog source,
    tokenize_strict_eq_unknownCharacter_iff source, hnone, fun hclear => ?_⟩
  have hnil : unknown = [] := by
    refine List.head?_eq_none_iff.1 (Option.eq_none_iff_forall_ne_some.2 fun c hc => hclear c ?_)
    -- a fault of the lexer would be the fault of the whole
    rw [evaluate, (tokenize_strict_eq_unknownCharacter_iff source c).2 hc]
  rw [evaluate, evaluate, hnone hnil]

end Reckon
