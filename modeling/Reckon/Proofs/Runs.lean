import Mathlib.Data.List.SplitBy
import Mathlib.Data.List.TakeWhile

/-!
# Longest runs

`List.splitBy` cuts a list into its longest runs of related neighbours. Where all elements of a run
have the same relatives (`Grouping`), a run is told by its first element alone: the cut of a list
begins with the elements that are related to the first one (`Grouping.splitBy_cons`), and a list is
taken apart by taking them away, again and again (`run_induction`).

The runs of equal elements are the case in which the relation is equality.
-/

namespace Reckon

variable {α : Type} {p : α → α → Bool} {x : α} {run rest : List α}

/-- Elements that are related have the same relatives. -/
def Grouping (p : α → α → Bool) : Prop :=
  ∀ x y z, p x y = true → p y z = p x z

/-- The relatives of the first element, as far as they reach, are the first run. -/
theorem Grouping.splitBy_cons (hp : Grouping p) (hrun : ∀ y ∈ run, p x y = true)
    (hrest : ∀ y ∈ rest.head?, p x y = false) :
    (x :: (run ++ rest)).splitBy p = (x :: run) :: rest.splitBy p := by
  have hrelated : (x :: run).Pairwise fun y z => p y z = true := by
    refine List.pairwise_cons.2 ⟨hrun, List.pairwise_of_forall_mem_list fun y hy z hz => ?_⟩
    rw [hp x y z (hrun y hy), hrun z hz]
  -- the last element of the run has the relatives of the first one
  have hends : ∀ y ∈ (x :: run).getLast?, ∀ z ∈ rest.head?, p y z = false := by
    intro y hy z hz
    rcases List.mem_cons.1 (List.mem_of_mem_getLast? hy) with rfl | hmem
    · exact hrest z hz
    · rw [hp x y z (hrun y hmem), hrest z hz]
  rw [← List.cons_append, List.splitBy_append hends,
    List.splitBy_of_isChain (List.cons_ne_nil x run) hrelated.isChain, List.singleton_append]

/-- The first run is what `takeWhile` takes, and the induction goes on with what is dropped. -/
theorem run_induction (p : α → α → Bool) {motive : List α → Prop} (nil : motive [])
    (cons : ∀ x run rest, (∀ y ∈ run, p x y = true) → (∀ y ∈ rest.head?, p x y = false) →
      motive rest → motive (x :: (run ++ rest))) :
    ∀ l, motive l
  | [] => nil
  | x :: l => by
    have hrest : motive (l.dropWhile (p x)) := run_induction p nil cons _
    have hends : ∀ y ∈ (l.dropWhile (p x)).head?, p x y = false := by
      intro y hy
      have hnot := List.head?_dropWhile_not (p x) l
      rw [Option.mem_def.1 hy] at hnot
      simpa using hnot
    have hl := cons x (l.takeWhile (p x)) _ (fun _ => List.mem_takeWhile_imp) hends hrest
    rwa [List.takeWhile_append_dropWhile] at hl
termination_by l => l.length
decreasing_by exact Nat.lt_succ_of_le (List.length_dropWhile_le (p x) l)

/-! ## Runs of equal elements

Here a run is its first element a number of times, and the element behind it is another. -/

variable [DecidableEq α]

/-- The longest runs of equal elements, in order. -/
def equalRuns (l : List α) : List (List α) :=
  l.splitBy fun x y => decide (x = y)

theorem grouping_eq : Grouping fun x y : α => decide (x = y) := by
  intro x y z hxy
  rw [of_decide_eq_true hxy]

/-- Equal elements in front of another one are the first run. -/
theorem equalRuns_replicate_append (hrest : rest.head? ≠ some x) (n : Nat) :
    equalRuns (List.replicate (n + 1) x ++ rest)
      = List.replicate (n + 1) x :: equalRuns rest := by
  have hrun : ∀ y ∈ List.replicate n x, decide (x = y) = true :=
    fun y hy => decide_eq_true (List.eq_of_mem_replicate hy).symm
  have hends : ∀ y ∈ rest.head?, decide (x = y) = false :=
    fun y hy => decide_eq_false fun h => hrest (h ▸ hy)
  exact grouping_eq.splitBy_cons hrun hends

/-- A list is taken apart by its longest runs of equal elements. -/
theorem equalRuns_induction {motive : List α → Prop} (nil : motive [])
    (append : ∀ x n rest, rest.head? ≠ some x → motive rest →
      motive (List.replicate (n + 1) x ++ rest))
    (l : List α) : motive l := by
  induction l using run_induction fun x y : α => decide (x = y) with
  | nil => exact nil
  | cons x run rest hrun hrest ih =>
    have hall : run = List.replicate run.length x :=
      List.eq_replicate_iff.2 ⟨rfl, fun y hy => (of_decide_eq_true (hrun y hy)).symm⟩
    have hends : rest.head? ≠ some x := fun hx => of_decide_eq_false (hrest x hx) rfl
    have hmotive := append x run.length rest hends ih
    rwa [List.replicate_succ, ← hall] at hmotive

end Reckon
