import Mathlib.Data.List.Chain
import Reckon.Proofs.TokenChars

/-!
# Tokens side by side

Which tokens can come out of a text next to each other. In a normal text no star or slash stands in
front of another that would have been contracted with it (`isChain_normalize`), and no two runs of
digits stand side by side among the pieces (`isChain_pieces`). So tokens that would fuse when they
are typed one behind the other are never read side by side (`unfused_of_reads`).
-/

namespace Reckon

/-! ## Tokens that fuse

There are three ways in which two tokens become others when nothing is typed between them. Blanks do
not help, since they are taken out before anything is read. -/

namespace Token

variable {α β : Type}

/-- Whether `t` is read as something else when `u` is typed right behind it: digits go on with
digits, and a star or a slash takes the one that follows it. -/
inductive Fuses : Token α → Token α → Prop
  | numbers (x y : α) : Fuses (number x) (number y)
  | stars {op : Operator} (h : op = .mul ∨ op = .pow) : Fuses (operator .mul) (operator op)
  | slashes {op : Operator} (h : op = .div ∨ op = .intDiv) : Fuses (operator .div) (operator op)

theorem Fuses.map {t u : Token α} (h : Fuses t u) (f : α → β) : Fuses (t.map f) (u.map f) := by
  cases h with
  | numbers x y => exact .numbers (f x) (f y)
  | stars h => exact .stars h
  | slashes h => exact .slashes h

end Token

/-- No token fuses with the one behind it. -/
def Unfused {α : Type} (ts : List (Token α)) : Prop :=
  ts.IsChain fun t u => ¬t.Fuses u

/-! ## Characters

Contraction goes from left to right and looks at two characters at a time, so a relation between
neighbours has to be followed through each pair that it takes out. `isChain_contractPairs` says
which four facts about a relation are enough; the two contractions of a normal text then only differ
in the facts. -/

/-- The first character is kept, or it is the first of a pair. -/
theorem head?_contractPairs {c mark x : Char} {t : Text}
    (hx : (contractPairs c mark t).head? = some x) :
    t.head? = some x ∨ x = mark ∧ t.head? = some c := by
  match t with
  | [] => exact .inl hx
  | [y] => exact .inl hx
  | y :: z :: rest =>
    rw [contractPairs] at hx
    split at hx
    · next hpair => exact .inr ⟨(Option.some.inj hx).symm, congrArg some hpair.1⟩
    · exact .inl hx

/-- Neighbours in a contracted text were neighbours before, and no pair, or one of them is a mark
and the other stood next to its pair. -/
theorem isChain_contractPairs {R S : Char → Char → Prop} {c mark : Char} {t : Text}
    (ht : t.IsChain R) (hkept : ∀ x y, R x y → ¬(x = c ∧ y = c) → S x y)
    (hbefore : ∀ x, R x c → x ≠ c → S x mark) (hbehind : ∀ y, R c y → S mark y)
    (hboth : R c c → S mark mark) : (contractPairs c mark t).IsChain S := by
  fun_induction contractPairs c mark t with
  -- the mark comes to stand in front of what followed the pair, which may be the next mark
  | case1 x y rest hpair ih =>
    obtain ⟨rfl, rfl⟩ := hpair
    have hrest := (List.isChain_cons_cons.1 ht).2
    refine List.isChain_cons.2 ⟨fun z hz => ?_, ih hrest.tail⟩
    rcases head?_contractPairs hz with hnext | ⟨rfl, hnext⟩
    · exact hbehind z (hrest.rel_head? hnext)
    · exact hboth (hrest.rel_head? hnext)
  | case2 x y rest hpair ih =>
    obtain ⟨hxy, hrest⟩ := List.isChain_cons_cons.1 ht
    refine List.isChain_cons.2 ⟨fun z hz => ?_, ih hrest⟩
    rcases head?_contractPairs hz with hnext | ⟨rfl, hnext⟩
    · obtain rfl : y = z := Option.some.inj hnext
      exact hkept x y hxy hpair
    · obtain rfl : y = c := Option.some.inj hnext
      exact hbefore x hxy fun h => hpair ⟨h, rfl⟩
  | case3 short hshort =>
    cases short with
    | nil => exact List.isChain_nil
    | cons x more =>
      cases more with
      | nil => exact List.isChain_singleton x
      | cons y rest => exact absurd rfl (hshort x y rest)

/-- Whether `d` right behind `c` would have been contracted with it, as it is or as one half of what
its mark stands for. -/
def Contracts (c d : Char) : Prop :=
  c = '*' ∧ (d = '*' ∨ d = Operator.powerMark) ∨ c = '/' ∧ (d = '/' ∨ d = Operator.intDivMark)

/-- A mark that was typed could stand behind a lonely star or slash, one that comes of contraction
cannot. -/
theorem isChain_normalize {source : Text} (hpower : Operator.powerMark ∉ source)
    (hintDiv : Operator.intDivMark ∉ source) :
    (normalize source).IsChain fun c d => ¬Contracts c d := by
  have hplain : source.withoutBlanks.IsChain fun _ d =>
      d ≠ Operator.powerMark ∧ d ≠ Operator.intDivMark := by
    refine List.Pairwise.isChain (List.pairwise_of_forall_mem_list fun _ _ d hd => ?_)
    have hsource : d ∈ source := (List.mem_filter.1 hd).1
    exact ⟨fun h => hpower (h ▸ hsource), fun h => hintDiv (h ▸ hsource)⟩
  -- after the first contraction there are marks of powers, but still none of integer division
  have hstars : (contractPairs '*' Operator.powerMark source.withoutBlanks).IsChain fun c d =>
      ¬(c = '*' ∧ (d = '*' ∨ d = Operator.powerMark)) ∧ d ≠ Operator.intDivMark := by
    refine isChain_contractPairs hplain ?_ ?_ ?_ ?_
    · grind
    · grind [Operator.powerMark, Operator.intDivMark]
    · grind [Operator.powerMark]
    · grind [Operator.powerMark, Operator.intDivMark]
  refine isChain_contractPairs hstars ?_ ?_ ?_ ?_
  · grind [Contracts]
  · grind [Contracts, Operator.powerMark, Operator.intDivMark]
  · grind [Contracts, Operator.intDivMark]
  · grind [Contracts, Operator.intDivMark]

/-! ## Pieces

What is known of the characters carries over to the pieces: an operator is a piece of one character,
and the digits between two of them are gathered in one run. -/

/-- Whether the piece is a run of digits and points. -/
def Piece.isRun : Piece → Bool
  | run _ => true
  | operator _ | leftParen | rightParen | unknown _ => false

/-- A run goes on as far as there are digits and points. -/
theorem isChain_pieces (t : Text) :
    (pieces t).IsChain fun p q => ¬(p.isRun = true ∧ q.isRun = true) := by
  induction t with
  | nil => exact List.isChain_nil
  | cons c rest ih =>
    rw [pieces]
    split
    · unfold consNumeral
      split
      · next r ps hps =>
        -- `c` joins the first run, which keeps the piece behind it
        rw [hps] at ih
        obtain ⟨hfirst, hmore⟩ := List.isChain_cons.1 ih
        exact List.isChain_cons.2 ⟨hfirst, hmore⟩
      · next ps hps =>
        -- the pieces behind `c` do not begin with a run
        refine List.isChain_cons.2 ⟨fun q hq hruns => ?_, ih⟩
        cases q with
        | run r =>
          obtain ⟨more, hmore⟩ := List.head?_eq_some_iff.1 hq
          exact hps r more hmore
        | operator | leftParen | rightParen | unknown => cases hruns.2
    · refine List.isChain_cons.2 ⟨fun q _ hruns => ?_, ih⟩
      cases hc : Piece.ofChar c with
      | run r => exact Piece.ofChar_ne_run c r hc
      | operator | leftParen | rightParen | unknown => rw [hc] at hruns; cases hruns.1

/-- Operators that are pieces side by side have their marks side by side in the text. -/
theorem not_contracts_of_pieces {normal : Text}
    (hnormal : normal.IsChain fun c d => ¬Contracts c d) {front back : List Piece}
    {op op' : Operator} (h : pieces normal = front ++ .operator op :: .operator op' :: back) :
    ¬Contracts op.mark op'.mark := by
  have hspelling : spellPieces front ++ [op.mark, op'.mark] ++ spellPieces back = normal := by
    rw [← spellPieces_pieces normal, h]
    simp [spellPieces, Piece.spelling]
  have hinfix : [op.mark, op'.mark] <:+: normal := ⟨_, _, hspelling⟩
  have hpair := List.IsChain.infix hnormal hinfix
  exact List.isChain_pair.1 hpair

/-! ## Tokens

A token is read from one piece, so neighbours among the tokens are neighbours among the pieces. Each
way in which they could fuse is ruled out by what was shown for the pieces. -/

/-- Neighbours correspond to neighbours. -/
theorem isChain_of_forall₂ {α β : Type} {Q : α → β → Prop} {S : β → β → Prop} {l : List α}
    {m : List β} (h : List.Forall₂ Q l m)
    (hl : l.IsChain fun a a' => ∀ b b', Q a b → Q a' b' → S b b') : m.IsChain S := by
  induction h with
  | nil => exact List.isChain_nil
  | cons hab htail ih =>
    cases htail with
    | nil => exact List.isChain_singleton _
    | cons hab' =>
      obtain ⟨hfirst, hrest⟩ := List.isChain_cons_cons.1 hl
      exact List.isChain_cons_cons.2 ⟨hfirst _ _ hab hab', ih hrest⟩

/-- Tokens that are read from a normal text do not fuse. -/
theorem unfused_of_reads {normal : Text} {ts : List (Token Binary64)}
    (hnormal : normal.IsChain fun c d => ¬Contracts c d)
    (hreads : List.Forall₂ Piece.Reads (pieces normal) ts) : Unfused ts := by
  refine isChain_of_forall₂ hreads ?_
  rw [List.isChain_iff_forall_rel_of_append_cons_cons]
  -- `p` and `q` are neighbours among the pieces, and `t` and `u` their tokens
  intro p q front back hsplit t u ht hu hfuses
  cases hfuses with
  | numbers x y =>
    cases ht
    cases hu
    have hapart := List.isChain_iff_forall_rel_of_append_cons_cons.1 (isChain_pieces normal) hsplit
    exact hapart ⟨rfl, rfl⟩
  | stars hop =>
    cases ht
    cases hu
    refine not_contracts_of_pieces hnormal hsplit (.inl ⟨rfl, ?_⟩)
    rcases hop with rfl | rfl
    · exact .inl rfl
    · exact .inr rfl
  | slashes hop =>
    cases ht
    cases hu
    refine not_contracts_of_pieces hnormal hsplit (.inr ⟨rfl, ?_⟩)
    rcases hop with rfl | rfl
    · exact .inl rfl
    · exact .inr rfl

end Reckon
