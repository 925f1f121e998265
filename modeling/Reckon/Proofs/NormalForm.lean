import Reckon.Calculation
import Reckon.Proofs.Runs
import Reckon.Proofs.Spelling

/-!
# The normal form, run by run

Contraction takes pairs from the left, one after the other. What it does to a whole text can be
said without an order: each longest run of the character is halved, with one left over behind the
marks if their number is odd (`contractPairs_eq_contractRuns`). Stars and slashes do not get into
each other's way, so that either may be contracted first (`contractPairs_comm`), and no pair is left
or arises anew. The normal form is therefore its own normal form (`normalize_by_runs`).
-/

namespace Reckon

/-! ## Runs of one character

Pairs are taken from the left, so what becomes of a run depends only on its length: it is used up
two by two, and the last character stays if it has no partner. What stands around the run has no
part in it. -/

/-- What `n` times `c` in a row are contracted to: a mark for every two, and a last `c` if `n` is
odd. -/
def halved (c mark : Char) (n : Nat) : Text :=
  List.replicate (n / 2) mark ++ List.replicate (n % 2) c

/-- Replaces each longest run of `c` and keeps all other runs. -/
def contractRuns (c mark : Char) (t : Text) : Text :=
  (equalRuns t).flatMap fun run => if run.head? = some c then halved c mark run.length else run

theorem halved_add_two (c mark : Char) (n : Nat) :
    halved c mark (n + 2) = mark :: halved c mark n := by
  have hdiv : (n + 2) / 2 = n / 2 + 1 := by omega
  have hmod : (n + 2) % 2 = n % 2 := by omega
  rw [halved, hdiv, hmod, List.replicate_succ, List.cons_append]
  rfl

theorem mem_halved {c mark x : Char} {n : Nat} (hx : x ∈ halved c mark n) : x = mark ∨ x = c := by
  rcases List.mem_append.1 hx with hx | hx
  · exact .inl (List.eq_of_mem_replicate hx)
  · exact .inr (List.eq_of_mem_replicate hx)

variable {c d mark mark' : Char} {rest : Text}

/-- A longest run is contracted on its own. -/
theorem contractPairs_replicate_append (hrest : rest.head? ≠ some c) (mark : Char) :
    ∀ n, contractPairs c mark (List.replicate n c ++ rest)
      = halved c mark n ++ contractPairs c mark rest
  | 0 => rfl
  | 1 => contractPairs_cons_of_head? hrest
  | n + 2 => by
    have hpair : contractPairs c mark (c :: c :: (List.replicate n c ++ rest))
        = mark :: contractPairs c mark (List.replicate n c ++ rest) := by
      rw [contractPairs, if_pos ⟨rfl, rfl⟩]
    rw [List.replicate_succ, List.replicate_succ, List.cons_append, List.cons_append, hpair,
      contractPairs_replicate_append hrest mark n, halved_add_two, List.cons_append]

/-- Contraction of pairs from the left is contraction of all longest runs. -/
theorem contractPairs_eq_contractRuns (c mark : Char) (t : Text) :
    contractPairs c mark t = contractRuns c mark t := by
  induction t using equalRuns_induction with
  | nil => rfl
  | append x n rest hrest ih =>
    rw [contractRuns, equalRuns_replicate_append hrest, List.flatMap_cons, ← contractRuns, ← ih]
    -- a run of `c` is halved, any other run is kept
    by_cases hx : x = c
    · subst hx
      have hhead : (List.replicate (n + 1) x).head? = some x := rfl
      rw [contractPairs_replicate_append hrest, if_pos hhead, List.length_replicate]
    · have hc : c ∉ List.replicate (n + 1) x := fun hc => hx (List.eq_of_mem_replicate hc).symm
      have hhead : (List.replicate (n + 1) x).head? ≠ some c :=
        fun hhead => hc (List.mem_of_mem_head? hhead)
      rw [contractPairs_append_of_not_mem hc, if_neg hhead]

/-! ## Two contractions

Both orders are compared on the first run of the text, whatever it is a run of. A run of one of the
two characters is halved by its own contraction and left alone by the other, before and after; any
other run is left alone by both. -/

/-- A run that the inner contraction leaves alone. -/
theorem contractPairs_contractPairs_replicate_append (hcd : c ≠ d) (hmark' : mark' ≠ c)
    (hrest : rest.head? ≠ some c) (mark : Char) (n : Nat) :
    contractPairs c mark (contractPairs d mark' (List.replicate n c ++ rest))
      = halved c mark n ++ contractPairs c mark (contractPairs d mark' rest) := by
  have hd : d ∉ List.replicate n c := fun hd => hcd (List.eq_of_mem_replicate hd).symm
  have hinner : (contractPairs d mark' rest).head? ≠ some c := by
    intro hc
    rcases head?_contractPairs hc with hhead | ⟨rfl, -⟩
    · exact hrest hhead
    · exact hmark' rfl
  rw [contractPairs_append_of_not_mem hd, contractPairs_replicate_append hinner]

/-- A run that the outer contraction leaves alone when it is halved. -/
theorem contractPairs_halved_append (hcd : c ≠ d) (hmark : mark ≠ d)
    (hrest : rest.head? ≠ some c) (mark' : Char) (n : Nat) :
    contractPairs d mark' (contractPairs c mark (List.replicate n c ++ rest))
      = halved c mark n ++ contractPairs d mark' (contractPairs c mark rest) := by
  have hd : d ∉ halved c mark n := fun hd =>
    (mem_halved hd).elim (fun h => hmark h.symm) fun h => hcd h.symm
  rw [contractPairs_replicate_append hrest, contractPairs_append_of_not_mem hd]

/-- Two contractions may change places if neither makes what the other contracts. -/
theorem contractPairs_comm (hcd : c ≠ d) (hmark : mark ≠ d) (hmark' : mark' ≠ c) (t : Text) :
    contractPairs c mark (contractPairs d mark' t)
      = contractPairs d mark' (contractPairs c mark t) := by
  induction t using equalRuns_induction with
  | nil => rfl
  | append x n rest hrest ih =>
    by_cases hc : x = c
    · subst hc
      rw [contractPairs_contractPairs_replicate_append hcd hmark' hrest,
        contractPairs_halved_append hcd hmark hrest, ih]
    · by_cases hd : x = d
      · subst hd
        rw [contractPairs_contractPairs_replicate_append hcd.symm hmark hrest,
          contractPairs_halved_append hcd.symm hmark' hrest, ih]
      · -- neither contraction touches the run
        have hkept : ∀ {y m : Char}, x ≠ y → ∀ t, contractPairs y m (List.replicate (n + 1) x ++ t)
            = List.replicate (n + 1) x ++ contractPairs y m t := fun hy =>
          contractPairs_append_of_not_mem fun hmem => hy (List.eq_of_mem_replicate hmem).symm
        rw [hkept hd, hkept hc, hkept hc, hkept hd, ih]

/-! ## Texts without pairs

A contracted text has no pair of the character left, and a text without pairs is not changed. So the
second contraction of the same text does nothing. -/

/-- No two of `c` are neighbours. -/
def Unpaired (c : Char) (t : Text) : Prop :=
  t.IsChain fun x y => ¬(x = c ∧ y = c)

/-- Contraction leaves no pair, and makes none if its mark is another character. -/
theorem unpaired_contractPairs (hmark : mark ≠ c) (t : Text) :
    Unpaired c (contractPairs c mark t) := by
  have htrue : t.IsChain fun _ _ => True :=
    (List.pairwise_of_forall fun _ _ => trivial).isChain
  refine isChain_contractPairs htrue ?_ ?_ ?_ ?_
  · exact fun _ _ _ hpair => hpair
  · exact fun x _ hx hboth => hx hboth.1
  · exact fun y _ hboth => hmark hboth.1
  · exact fun _ hboth => hmark hboth.1

/-- Without a pair there is nothing to contract. -/
theorem Unpaired.contractPairs_eq {t : Text} (h : Unpaired c t) (mark : Char) :
    contractPairs c mark t = t := by
  fun_induction contractPairs c mark t with
  | case1 x y rest hpair ih => exact absurd hpair (List.isChain_cons_cons.1 h).1
  | case2 x y rest hpair ih => rw [ih (List.isChain_cons_cons.1 h).2]
  | case3 short => rfl

/-- A pair anywhere in the text would be two neighbours. -/
theorem Unpaired.not_infix {t : Text} (h : Unpaired c t) : ¬[c, c] <:+: t := by
  intro hinfix
  have hpair := List.IsChain.infix h hinfix
  exact List.isChain_pair.1 hpair ⟨rfl, rfl⟩

/-! ## The normal form

Stars and slashes are different characters with different marks, so everything above applies to
both. The stars are contracted first and the slashes last; that no stars are left in the end is
therefore seen from the other order. -/

/-- The slashes may be contracted first. -/
theorem normalize_comm (source : Text) :
    normalize source
      = contractPairs '*' Operator.powerMark
          (contractPairs '/' Operator.intDivMark source.withoutBlanks) :=
  contractPairs_comm (by decide) (by decide) (by decide) _

theorem unpaired_normalize (source : Text) :
    Unpaired '*' (normalize source) ∧ Unpaired '/' (normalize source) := by
  constructor
  · rw [normalize_comm]
    exact unpaired_contractPairs (by decide) _
  · exact unpaired_contractPairs (by decide) _

/-- The marks are no blanks, and all others have been taken out. -/
theorem not_isBlank_of_mem_normalize {source : Text} {x : Char} (hx : x ∈ normalize source) :
    isBlank x = false := by
  rcases mem_of_mem_contractPairs hx with rfl | hx
  · decide
  · rcases mem_of_mem_contractPairs hx with rfl | hx
    · decide
    · exact Text.not_isBlank_of_mem_withoutBlanks hx

/-- A text without blanks and pairs is its own normal form. -/
theorem normalize_eq_self {t : Text} (hblank : ∀ x ∈ t, isBlank x = false)
    (hstar : Unpaired '*' t) (hslash : Unpaired '/' t) : normalize t = t := by
  have hbare : t.withoutBlanks = t :=
    List.filter_eq_self.2 fun x hx => by rw [hblank x hx]; rfl
  rw [normalize, hbare, hstar.contractPairs_eq, hslash.contractPairs_eq]

/-- The normal form of a text has no blanks and no pairs. It is the text without its blanks, with
each longest run of stars halved to power marks and each longest run of slashes halved to marks of
integer division, in either order. It is its own normal form, and it has the same value as the
text. -/
theorem normalize_by_runs (source : Text) :
    (∀ x ∈ normalize source, isBlank x = false)
      ∧ (¬['*', '*'] <:+: normalize source ∧ ¬['/', '/'] <:+: normalize source)
      ∧ normalize source = contractRuns '/' Operator.intDivMark
          (contractRuns '*' Operator.powerMark source.withoutBlanks)
      ∧ normalize source = contractRuns '*' Operator.powerMark
          (contractRuns '/' Operator.intDivMark source.withoutBlanks)
      ∧ normalize (normalize source) = normalize source
      ∧ ∀ strict, evaluate strict (normalize source) = evaluate strict source := by
  obtain ⟨hstar, hslash⟩ := unpaired_normalize source
  have hblank : ∀ x ∈ normalize source, isBlank x = false :=
    fun x hx => not_isBlank_of_mem_normalize hx
  have hagain : normalize (normalize source) = normalize source :=
    normalize_eq_self hblank hstar hslash
  refine ⟨hblank, ⟨hstar.not_infix, hslash.not_infix⟩, ?_, ?_, hagain, fun strict => ?_⟩
  · rw [← contractPairs_eq_contractRuns, ← contractPairs_eq_contractRuns]
    rfl
  · rw [← contractPairs_eq_contractRuns, ← contractPairs_eq_contractRuns]
    exact normalize_comm source
  · rw [evaluate, evaluate, tokenize, tokenize, hagain]

example : normalize "8 / / / 2 ***".toList = "8#/2^*".toList := by decide

end Reckon
