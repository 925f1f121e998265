import Reckon.Proofs.Runs
import Reckon.Proofs.Spelling

/-!
# Reading a normal text by its segments

`segments` cuts a normal text without reading it: each longest run of digits and points is a
segment, and so is every other character. Lenient reading goes by the segments. It gives one token
for each of them that is no unknown character (`tokensOfPieces_eq_ok_iff`), unless a run among them
spells no number; then it stops at the first such run (`tokensOfPieces_eq_error_iff`).

Where a run stands can be told without the segments (`IsRun`): a longest run is a segment, and a
segment of digits and points is a longest run. So the result (`lenient_reading_by_runs`) speaks of
the runs of the text.
-/

namespace Reckon

/-! ## Segments

The text is cut between two characters unless both of them belong to numerals. That is a `Grouping`,
so everything in `Runs` applies; where the first character is none of a numeral its run is the
character alone. -/

/-- The longest runs of digits and points and, each on its own, the other characters, in order. -/
def segments (t : Text) : List Text :=
  t.splitBy fun c d => isNumeral c && isNumeral d

theorem grouping_isNumeral : Grouping fun c d => isNumeral c && isNumeral d := by
  intro c d e hcd
  obtain ⟨hc, hd⟩ := Bool.and_eq_true_iff.1 hcd
  show (isNumeral d && isNumeral e) = (isNumeral c && isNumeral e)
  rw [hc, hd]

variable {run rest : Text} {c : Char}

theorem segments_cons (hc : isNumeral c = false) (rest : Text) :
    segments (c :: rest) = [c] :: segments rest := by
  have hrun : ∀ d ∈ ([] : Text), (isNumeral c && isNumeral d) = true := nofun
  have hnone : ∀ d ∈ rest.head?, (isNumeral c && isNumeral d) = false := by simp [hc]
  exact grouping_isNumeral.splitBy_cons hrun hnone

/-- A run in front of something else is a segment. -/
theorem segments_run_append (hfilled : run ≠ []) (hrun : run.all isNumeral = true)
    (hrest : ∀ d ∈ rest.head?, isNumeral d = false) :
    segments (run ++ rest) = run :: segments rest := by
  obtain ⟨c, more, rfl⟩ := List.exists_cons_of_ne_nil hfilled
  rw [List.all_cons, Bool.and_eq_true, List.all_eq_true] at hrun
  refine grouping_isNumeral.splitBy_cons (fun d hd => ?_) fun d hd => ?_
  · rw [hrun.1, hrun.2 d hd, Bool.and_self]
  · rw [hrest d hd, Bool.and_false]

/-- A text is taken apart by its segments. -/
theorem segments_induction {motive : Text → Prop} (nil : motive [])
    (char : ∀ c rest, isNumeral c = false → motive rest → motive (c :: rest))
    (run : ∀ run rest, run ≠ [] → run.all isNumeral = true →
      (∀ d ∈ rest.head?, isNumeral d = false) → motive rest → motive (run ++ rest))
    (t : Text) : motive t := by
  induction t using run_induction fun c d => isNumeral c && isNumeral d with
  | nil => exact nil
  | cons c more rest hmore hrest ih =>
    cases hc : isNumeral c with
    | true =>
      simp only [hc, Bool.true_and] at hmore hrest
      have hall : (c :: more).all isNumeral = true := by
        rw [List.all_cons, hc, List.all_eq_true.2 hmore, Bool.and_self]
      exact run (c :: more) rest (List.cons_ne_nil c more) hall hrest ih
    | false =>
      -- nothing is related to a character that is neither digit nor point
      have hempty : more = [] := List.eq_nil_iff_forall_not_mem.2 fun d hd => by
        have hrelated := hmore d hd
        rw [hc, Bool.false_and] at hrelated
        cases hrelated
      rw [hempty]
      exact char c rest hc ih

theorem pieces_cons (hc : isNumeral c = false) (rest : Text) :
    pieces (c :: rest) = .ofChar c :: pieces rest := by
  rw [pieces, hc]
  rfl

/-! ## Malformed runs

Whether a run is malformed is said of its characters. That the reader of numbers takes exactly the
others was shown with the literals. -/

/-- A number is spelled with a digit and at most one point. -/
def SpellsNumber (run : Text) : Prop :=
  run.any isDigit = true ∧ run.count '.' ≤ 1

instance (run : Text) : Decidable (SpellsNumber run) :=
  inferInstanceAs (Decidable (_ ∧ _))

/-- Holds of the segments that consist of digits and points and spell no number. -/
def isMalformed (segment : Text) : Bool :=
  segment.all isNumeral && !decide (SpellsNumber segment)

theorem isMalformed_char (hc : isNumeral c = false) : isMalformed [c] = false := by
  simp [isMalformed, hc]

/-- A run is malformed if it cannot be read. -/
theorem isMalformed_eq_isNone (hrun : run.all isNumeral = true) :
    isMalformed run = (readNumber? run).isNone := by
  have hread : (readNumber? run).isSome = decide (SpellsNumber run) := by
    rw [Bool.eq_iff_iff, isSome_readNumber?_iff hrun, decide_eq_true_iff]
    rfl
  rw [isMalformed, hrun, Bool.true_and, ← hread, Option.not_isSome]

/-! ## Tokens

What a segment denotes is said for each segment on its own. Both results below are inductions on
the segments: an unknown character is skipped on either side, and any other segment puts one token
in front or ends the reading. -/

/-- The token of a segment that is no unknown character: a run denotes its number, and a character
its own token. -/
inductive Denotes : Text → Token Binary64 → Prop
  | number {run : Text} {x : Binary64} (hrun : run.all isNumeral = true)
      (h : readNumber? run = some x) : Denotes run (.number x)
  | char {c : Char} {t : Token Binary64} (hc : isNumeral c = false)
      (h : Token.ofChar? c = some t) : Denotes [c] t

theorem denotes_char_iff (hc : isNumeral c = false) {t : Token Binary64} :
    Denotes [c] t ↔ Token.ofChar? c = some t := by
  constructor
  · intro h
    cases h with
    | number hrun _ =>
      rw [List.all_cons, hc] at hrun
      cases hrun
    | char _ h => exact h
  · exact .char hc

theorem denotes_run_iff (hrun : run.all isNumeral = true) {t : Token Binary64} :
    Denotes run t ↔ (readNumber? run).map .number = some t := by
  rw [Option.map_eq_some_iff]
  constructor
  · intro h
    cases h with
    | number _ h => exact ⟨_, h, rfl⟩
    | char hc _ =>
      rw [List.all_cons, hc] at hrun
      cases hrun
  · rintro ⟨x, hx, rfl⟩
    exact .number hrun hx

/-- The characters with a token are those that tokens consist of, digits and points apart. -/
theorem isTokenChar_eq_isSome (hc : isNumeral c = false) :
    isTokenChar c = (Token.ofChar? c : Option (Token Binary64)).isSome := by
  unfold isTokenChar Token.ofChar?
  rw [hc, Bool.false_or]
  split
  · next h => simp [h]
  · split
    · next h => simp [h]
    · next hleft hright => simp [hleft, hright]

/-- The segments that are no unknown characters. -/
def tokenSegments (t : Text) : List Text :=
  (segments t).filter fun s => s.any isTokenChar

theorem tokenSegments_cons (hc : isNumeral c = false) (rest : Text) :
    tokenSegments (c :: rest)
      = if isTokenChar c then [c] :: tokenSegments rest else tokenSegments rest := by
  rw [tokenSegments, segments_cons hc, List.filter_cons]
  simp [tokenSegments]

theorem tokenSegments_run_append (hfilled : run ≠ []) (hrun : run.all isNumeral = true)
    (hrest : ∀ d ∈ rest.head?, isNumeral d = false) :
    tokenSegments (run ++ rest) = run :: tokenSegments rest := by
  have hkeep : run.any isTokenChar = true := by
    obtain ⟨c, more, rfl⟩ := List.exists_cons_of_ne_nil hfilled
    rw [List.all_cons, Bool.and_eq_true] at hrun
    simp [isTokenChar, hrun.1]
  rw [tokenSegments, segments_run_append hfilled hrun hrest]
  exact List.filter_cons_of_pos hkeep

example : tokenSegments "1.5x2)".toList = ["1.5".toList, ['2'], [')']] := by decide

/-- The token of the first segment goes in front of those of the others. -/
theorem map_cons_eq_ok_iff {s : Text} {others : List Text} {t : Token Binary64}
    {r : Except TokenError (List (Token Binary64))} (hs : ∀ u, Denotes s u ↔ some t = some u)
    (hr : ∀ ts, r = .ok ts ↔ List.Forall₂ Denotes others ts) (ts : List (Token Binary64)) :
    r.map (t :: ·) = .ok ts ↔ List.Forall₂ Denotes (s :: others) ts := by
  constructor
  · intro h
    obtain ⟨us, hus, rfl⟩ := exists_of_map_cons_eq_ok h
    exact .cons ((hs t).2 rfl) ((hr us).1 hus)
  · intro h
    cases h with
    | cons hu hus =>
      obtain rfl := Option.some.inj ((hs _).1 hu)
      rw [(hr _).2 hus]
      rfl

theorem map_cons_eq_error_iff {t : Token Binary64} {e : TokenError}
    {r : Except TokenError (List (Token Binary64))} :
    r.map (t :: ·) = .error e ↔ r = .error e := by
  cases r <;> simp [Except.map]

/-- Lenient reading gives the tokens that the segments denote, one by one, without the unknown
characters. -/
theorem tokensOfPieces_eq_ok_iff (t : Text) (ts : List (Token Binary64)) :
    tokensOfPieces false (pieces t) = .ok ts ↔ List.Forall₂ Denotes (tokenSegments t) ts := by
  induction t using segments_induction generalizing ts with
  | nil =>
    have hnil : tokenSegments [] = [] := rfl
    rw [hnil, List.forall₂_nil_left_iff]
    exact ⟨fun h => (Except.ok.inj h).symm, fun h => congrArg Except.ok h.symm⟩
  | char c rest hc ih =>
    have hdenotes : ∀ u, Denotes [c] u ↔ Token.ofChar? c = some u := fun _ => denotes_char_iff hc
    rw [pieces_cons hc, tokenSegments_cons hc, isTokenChar_eq_isSome hc, tokensOfPieces_ofChar]
    cases hu : (Token.ofChar? c : Option (Token Binary64)) with
    | none => exact ih ts
    | some u =>
      rw [hu] at hdenotes
      exact map_cons_eq_ok_iff hdenotes ih ts
  | run run rest hfilled hrun hrest ih =>
    have hdenotes : ∀ u, Denotes run u ↔ (readNumber? run).map .number = some u :=
      fun _ => denotes_run_iff hrun
    rw [pieces_append_run hrun hfilled hrest, tokenSegments_run_append hfilled hrun hrest,
      tokensOfPieces]
    cases hx : readNumber? run with
    | none =>
      -- the run denotes nothing, so that no list of tokens fits the segments
      rw [hx] at hdenotes
      constructor
      · intro h
        cases h
      · intro h
        cases h with
        | cons hu _ => cases (hdenotes _).1 hu
    | some x =>
      rw [hx] at hdenotes
      exact map_cons_eq_ok_iff hdenotes ih ts

/-- Lenient reading stops at the first malformed segment, and at nothing else. -/
theorem tokensOfPieces_eq_error_iff (t : Text) (e : TokenError) :
    tokensOfPieces false (pieces t) = .error e
      ↔ ∃ run, (segments t).find? isMalformed = some run ∧ e = .malformedNumber run := by
  induction t using segments_induction with
  | nil => simp [pieces, tokensOfPieces, segments]
  -- such a character is never a fault, so that both sides are about the rest
  | char c rest hc ih =>
    rw [pieces_cons hc, segments_cons hc, tokensOfPieces_ofChar,
      List.find?_cons_of_neg (Bool.not_eq_true _ ▸ isMalformed_char hc), ← ih]
    cases (Token.ofChar? c : Option (Token Binary64)) with
    | none => rfl
    | some u => exact map_cons_eq_error_iff
  | run run rest hfilled hrun hrest ih =>
    have hmalformed := isMalformed_eq_isNone hrun
    rw [pieces_append_run hrun hfilled hrest, segments_run_append hfilled hrun hrest,
      tokensOfPieces]
    cases hx : readNumber? run with
    | none =>
      rw [hx] at hmalformed
      -- this run is the first malformed segment, and the reader stops at it
      rw [List.find?_cons_of_pos hmalformed]
      simp [eq_comm]
    | some x =>
      rw [hx] at hmalformed
      rw [List.find?_cons_of_neg (by simp [hmalformed]), ← ih]
      exact map_cons_eq_error_iff

/-! ## Where a run stands

So far a run has been what the cut makes of the text. The result should be read without the cut, so
a run is now given by the text before and behind it: it begins and ends at a character of no
numeral, or where the text does. The two notions agree (`IsRun.segments_append`,
`exists_isRun_of_segments`). -/

/-- `run` is a longest run of digits and points where it stands between `before` and `behind`. -/
structure IsRun (before run behind : Text) : Prop where
  filled : run ≠ []
  numeral : run.all isNumeral = true
  begins : ∀ c ∈ before.getLast?, isNumeral c = false
  ends : ∀ c ∈ behind.head?, isNumeral c = false

variable {before behind t : Text}

/-- A longest run is a segment. -/
theorem IsRun.segments_append (h : IsRun before run behind) :
    segments (before ++ (run ++ behind)) = segments before ++ run :: segments behind := by
  have hapart : ∀ x ∈ before.getLast?, ∀ y ∈ (run ++ behind).head?,
      (isNumeral x && isNumeral y) = false := fun x hx y _ => by
    rw [h.begins x hx, Bool.false_and]
  rw [← segments_run_append h.filled h.numeral h.ends]
  exact List.splitBy_append hapart

/-- A segment of digits and points is a longest run. -/
theorem exists_isRun_of_segments {front back : List Text} (h : segments t = front ++ run :: back)
    (hrun : run.all isNumeral = true) :
    ∃ before behind, t = before ++ (run ++ behind) ∧ IsRun before run behind
      ∧ segments before = front := by
  obtain ⟨ht, hfilled, hrelated, hapart⟩ := List.splitBy_eq_iff.1 h
  have hnumeral := List.all_eq_true.1 hrun
  have hneighbours := List.isChain_iff_forall_rel_of_append_cons_cons.1 hapart
  refine ⟨front.flatten, back.flatten, by simp [ht], ⟨?_, hrun, ?_, ?_⟩, ?_⟩
  · rintro rfl
    exact hfilled (List.mem_append_right front List.mem_cons_self)
  · intro c hc
    rcases List.eq_nil_or_concat front with rfl | ⟨others, last, rfl⟩
    · cases hc
    · -- the segment in front of the run ends in `c`
      have hsplit : others.concat last ++ run :: back = others ++ last :: run :: back := by simp
      obtain ⟨hlast, hne, hlr⟩ := hneighbours hsplit
      rw [hnumeral _ (List.head_mem hne), Bool.and_true] at hlr
      rw [List.concat_eq_append, List.flatten_append, List.flatten_singleton,
        List.getLast?_append_of_ne_nil _ hlast] at hc
      rwa [List.getLast_of_mem_getLast? hc] at hlr
  · intro c hc
    cases back with
    | nil => cases hc
    | cons next others =>
      -- the segment behind the run begins with `c`
      obtain ⟨hne, hnext, hrn⟩ := hneighbours rfl
      rw [hnumeral _ (List.getLast_mem hne), Bool.true_and] at hrn
      rw [List.flatten_cons, List.head?_append_of_ne_nil _ hnext] at hc
      rwa [List.head_of_mem_head? hc] at hrn
  · exact List.splitBy_flatten (fun hmem => hfilled (List.mem_append_left _ hmem))
      (fun m hm => hrelated m (List.mem_append_left _ hm)) hapart.left_of_append

/-- Every longest run of digits and points in the text spells a number. -/
def Sound (t : Text) : Prop :=
  ∀ before run behind, t = before ++ (run ++ behind) → IsRun before run behind → SpellsNumber run

/-- `run`, which stands behind `before`, is the first longest run in `t` that spells no number. -/
structure FirstMalformed (t before run behind : Text) : Prop where
  parts : t = before ++ (run ++ behind)
  isRun : IsRun before run behind
  malformed : ¬SpellsNumber run
  sound : Sound before

/-- For a run it is only the spelling that counts. -/
theorem isMalformed_of_isRun (h : IsRun before run behind) :
    isMalformed run = true ↔ ¬SpellsNumber run := by
  simp [isMalformed, h.numeral]

/-- A text is sound if no segment of it is malformed. -/
theorem sound_iff : Sound t ↔ ∀ s ∈ segments t, isMalformed s = false := by
  constructor
  · intro hsound s hs
    by_contra hmalformed
    rw [Bool.not_eq_false, isMalformed, Bool.and_eq_true] at hmalformed
    obtain ⟨front, back, hsegments⟩ := List.append_of_mem hs
    -- a malformed segment is a run somewhere in the text
    obtain ⟨before, behind, ht, hrun, -⟩ := exists_isRun_of_segments hsegments hmalformed.1
    have hspells := hsound before s behind ht hrun
    simp [hspells] at hmalformed
  · rintro hclear before run behind rfl hrun
    have hmem : run ∈ segments (before ++ (run ++ behind)) := by
      rw [hrun.segments_append]
      exact List.mem_append_right _ List.mem_cons_self
    by_contra hnot
    have hmalformed := (isMalformed_of_isRun hrun).2 hnot
    rw [hclear run hmem] at hmalformed
    cases hmalformed

/-- The first malformed segment is the first malformed run. -/
theorem find?_isMalformed_eq_some_iff :
    (segments t).find? isMalformed = some run
      ↔ ∃ before behind, FirstMalformed t before run behind := by
  rw [List.find?_eq_some_iff_append]
  constructor
  · rintro ⟨hmalformed, front, back, hsegments, hfront⟩
    have hrun : run.all isNumeral = true := (Bool.and_eq_true_iff.1 hmalformed).1
    -- the segment gives the run, and the segments before it are those of the text before it
    obtain ⟨before, behind, ht, hisRun, rfl⟩ := exists_isRun_of_segments hsegments hrun
    refine ⟨before, behind, ht, hisRun, (isMalformed_of_isRun hisRun).1 hmalformed, ?_⟩
    exact sound_iff.2 fun s hs => by simpa using hfront s hs
  · rintro ⟨before, behind, h⟩
    refine ⟨(isMalformed_of_isRun h.isRun).2 h.malformed, segments before, segments behind, ?_, ?_⟩
    · rw [h.parts, h.isRun.segments_append]
    · intro s hs
      rw [sound_iff.1 h.sound s hs]
      rfl

/-- Lenient reading succeeds exactly if every longest run of digits and points in the normal text
has a digit and at most one point. The tokens are then, in order, a number for each such run and one
token for each operator or parenthesis, and every other character is dropped where it stands.
Otherwise the fault names the first run of which this does not hold. -/
theorem lenient_reading_by_runs (source : Text) :
    let normal := normalize source
    ((∃ ts, tokenize false source = .ok ts) ↔ Sound normal)
      ∧ (∀ ts, tokenize false source = .ok ts ↔ List.Forall₂ Denotes (tokenSegments normal) ts)
      ∧ ∀ e, tokenize false source = .error e
        ↔ ∃ before run behind, FirstMalformed normal before run behind
          ∧ e = .malformedNumber run := by
  intro normal
  have herror : ∀ e, tokenize false source = .error e
      ↔ ∃ run, (segments normal).find? isMalformed = some run ∧ e = .malformedNumber run :=
    tokensOfPieces_eq_error_iff normal
  refine ⟨?_, tokensOfPieces_eq_ok_iff normal, fun e => ?_⟩
  · -- a reading has a value or a fault, and faults are known already
    have hnone : Sound normal ↔ (segments normal).find? isMalformed = none := by
      simp [sound_iff]
    rw [hnone]
    cases hread : tokenize false source with
    | ok ts =>
      have hno : ∀ run, (segments normal).find? isMalformed ≠ some run := fun run hrun => by
        have hfault := (herror _).2 ⟨run, hrun, rfl⟩
        rw [hread] at hfault
        cases hfault
      simpa using Option.eq_none_iff_forall_ne_some.2 hno
    | error e =>
      obtain ⟨run, hrun, -⟩ := (herror e).1 hread
      simp [hrun]
  · rw [herror]
    simp only [find?_isMalformed_eq_some_iff]
    constructor
    · rintro ⟨run, ⟨before, behind, h⟩, he⟩
      exact ⟨before, run, behind, h, he⟩
    · rintro ⟨before, run, behind, h, he⟩
      exact ⟨run, ⟨before, behind, h⟩, he⟩

end Reckon
