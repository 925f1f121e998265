import Reckon.Text.Basic

/-!
# Cutting lists at separators

`splitOn` cuts at one element (a comma, a slash, a line feed), `splitOnSemicolons` at three
semicolons in a row, taken from the left. Both give one piece more than there are separators, so the
result is never empty, and joining the pieces again gives the text that was cut.
-/

namespace Reckon

variable {α : Type}

/-- Puts `x` in front of the first piece. -/
def consFirst (x : α) : List (List α) → List (List α)
  | [] => [[x]]
  | piece :: rest => (x :: piece) :: rest

/-- The pieces between the occurrences of `sep`, in order. -/
def splitOn [DecidableEq α] (sep : α) : List α → List (List α)
  | [] => [[]]
  | x :: rest => if x = sep then [] :: splitOn sep rest else consFirst x (splitOn sep rest)

/-- The pieces put one after the other, with `sep` between neighbours. -/
def joinWith (sep : List α) : List (List α) → List α
  | [] => []
  | [piece] => piece
  | piece :: next :: rest => piece ++ sep ++ joinWith sep (next :: rest)

/-- The pieces between three semicolons in a row. A run of more than three is cut as early as
possible: four leave one semicolon at the front of the next piece. -/
def splitOnSemicolons : Text → List Text
  | [] => [[]]
  | ';' :: ';' :: ';' :: rest => [] :: splitOnSemicolons rest
  | c :: rest => consFirst c (splitOnSemicolons rest)

@[simp] theorem consFirst_ne_nil (x : α) (pieces : List (List α)) : consFirst x pieces ≠ [] := by
  cases pieces <;> simp [consFirst]

@[simp] theorem splitOn_ne_nil [DecidableEq α] (sep : α) (l : List α) : splitOn sep l ≠ [] := by
  cases l with
  | nil => simp [splitOn]
  | cons x rest => rw [splitOn]; split <;> simp

theorem joinWith_consFirst (sep : List α) (x : α) {pieces : List (List α)} (h : pieces ≠ []) :
    joinWith sep (consFirst x pieces) = x :: joinWith sep pieces := by
  match pieces, h with
  | [p], _ => rfl
  | p :: q :: rest, _ => rfl

/-- Cutting loses nothing: the pieces and the separators between them are the text. -/
theorem joinWith_splitOn [DecidableEq α] (sep : α) (l : List α) :
    joinWith [sep] (splitOn sep l) = l := by
  induction l with
  | nil => rfl
  | cons x rest ih =>
    rw [splitOn]
    split
    · next h =>
      subst h
      have hne := splitOn_ne_nil x rest
      -- the separator opens a new piece in front of the others, of which there is at least one
      revert ih hne
      cases splitOn x rest with
      | nil => intro _ hne; exact absurd rfl hne
      | cons p ps => intro ih _; simp [joinWith, ih]
    · rw [joinWith_consFirst _ _ (splitOn_ne_nil sep rest), ih]

/-- No piece holds a separator. -/
theorem not_mem_of_mem_splitOn [DecidableEq α] {sep : α} {l piece : List α}
    (h : piece ∈ splitOn sep l) : sep ∉ piece := by
  induction l generalizing piece with
  | nil => simp [splitOn] at h; simp [h]
  | cons x rest ih =>
    rw [splitOn] at h
    split at h
    · rcases List.mem_cons.1 h with rfl | h
      · simp
      · exact ih h
    · next hx =>
      revert h ih
      -- `x` goes into the first piece of the rest, which has no separator by induction
      cases splitOn sep rest with
      | nil =>
        intro _ h
        simp only [consFirst, List.mem_singleton] at h
        subst h
        simpa using fun e => hx e.symm
      | cons p ps =>
        intro ih h
        rcases List.mem_cons.1 h with rfl | h
        · intro hm
          rcases List.mem_cons.1 hm with e | hm
          · exact hx e.symm
          · exact ih (List.mem_cons_self) hm
        · exact ih (List.mem_cons_of_mem _ h)

theorem splitOn_of_not_mem [DecidableEq α] {sep : α} {l : List α} (h : sep ∉ l) :
    splitOn sep l = [l] := by
  induction l with
  | nil => rfl
  | cons x rest ih =>
    have hx : x ≠ sep := fun e => h (e ▸ List.mem_cons_self)
    rw [splitOn, if_neg hx, ih fun hm => h (List.mem_cons_of_mem x hm), consFirst]

/-- What is put behind a list goes on with its last piece. -/
theorem exists_splitOn_append [DecidableEq α] (sep : α) (l : List α) :
    ∃ pieces last, splitOn sep l = pieces ++ [last]
      ∧ ∀ {tail first more}, splitOn sep tail = first :: more →
        splitOn sep (l ++ tail) = pieces ++ (last ++ first) :: more := by
  induction l with
  | nil => exact ⟨[], [], rfl, fun htail => htail⟩
  | cons x rest ih =>
    obtain ⟨pieces, last, hpieces, happend⟩ := ih
    by_cases hx : x = sep
    · refine ⟨[] :: pieces, last, by rw [splitOn, if_pos hx, hpieces]; rfl, fun htail => ?_⟩
      rw [List.cons_append, splitOn, if_pos hx, happend htail]
      rfl
    · -- `x` goes into the first piece, which is the last one too if there is no other
      cases pieces with
      | nil =>
        refine ⟨[], x :: last, by rw [splitOn, if_neg hx, hpieces]; rfl, fun htail => ?_⟩
        rw [List.cons_append, splitOn, if_neg hx, happend htail]
        rfl
      | cons piece others =>
        refine ⟨(x :: piece) :: others, last, by rw [splitOn, if_neg hx, hpieces]; rfl,
          fun htail => ?_⟩
        rw [List.cons_append, splitOn, if_neg hx, happend htail]
        rfl

/-- The two sides of a separator are cut apart. -/
theorem splitOn_append_separator [DecidableEq α] (sep : α) (l m : List α) :
    splitOn sep (l ++ sep :: m) = splitOn sep l ++ splitOn sep m := by
  obtain ⟨pieces, last, hpieces, happend⟩ := exists_splitOn_append sep l
  have hcut : splitOn sep (sep :: m) = [] :: splitOn sep m := by rw [splitOn, if_pos rfl]
  rw [happend hcut, hpieces]
  simp

/-- The first separator ends the first piece. -/
theorem splitOn_append_cons [DecidableEq α] {sep : α} {front : List α}
    (h : sep ∉ front) (back : List α) :
    splitOn sep (front ++ sep :: back) = front :: splitOn sep back := by
  rw [splitOn_append_separator, splitOn_of_not_mem h, List.singleton_append]

/-- Pieces that hold no separator come back when they are joined and cut again. -/
theorem splitOn_joinWith [DecidableEq α] {sep : α} {pieces : List (List α)} (hne : pieces ≠ [])
    (h : ∀ piece ∈ pieces, sep ∉ piece) : splitOn sep (joinWith [sep] pieces) = pieces := by
  induction pieces with
  | nil => exact absurd rfl hne
  | cons piece rest ih =>
    have hpiece : sep ∉ piece := h piece List.mem_cons_self
    cases rest with
    | nil => exact splitOn_of_not_mem hpiece
    | cons next more =>
      have hrest := ih (List.cons_ne_nil next more) fun p hp => h p (List.mem_cons_of_mem piece hp)
      rw [joinWith, List.append_assoc, List.singleton_append, splitOn_append_cons hpiece, hrest]

theorem length_splitOn [DecidableEq α] (sep : α) (l : List α) :
    (splitOn sep l).length = l.count sep + 1 := by
  induction l with
  | nil => rfl
  | cons x rest ih =>
    rw [splitOn, List.count_cons]
    split
    · next h => simp [h, ih]
    · next h =>
      -- any other element goes into a piece that is there
      have hne := splitOn_ne_nil sep rest
      generalize splitOn sep rest = pieces at hne ih
      obtain ⟨piece, more, rfl⟩ := List.exists_cons_of_ne_nil hne
      simpa [consFirst, h] using ih

/-- The last piece is empty where nothing stands behind the last separator. -/
theorem getLast?_splitOn_eq_nil_iff [DecidableEq α] (sep : α) (l : List α) :
    (splitOn sep l).getLast? = some [] ↔ l = [] ∨ l.getLast? = some sep := by
  rcases List.eq_nil_or_concat l with rfl | ⟨front, x, rfl⟩
  · simp [splitOn]
  · by_cases hx : x = sep
    · subst hx
      simp [splitOn_append_separator, splitOn]
    · obtain ⟨pieces, last, -, happend⟩ := exists_splitOn_append sep front
      have hcut : splitOn sep [x] = [[x]] := by simp [splitOn, hx, consFirst]
      simp [happend hcut, hx]

theorem mem_joinWith {sep : List α} {pieces : List (List α)} {x : α}
    (h : x ∈ joinWith sep pieces) : x ∈ sep ∨ ∃ piece ∈ pieces, x ∈ piece := by
  induction pieces with
  | nil => cases h
  | cons piece rest ih =>
    cases rest with
    | nil => exact .inr ⟨piece, List.mem_cons_self, h⟩
    | cons next more =>
      rw [joinWith, List.mem_append, List.mem_append] at h
      -- in the first piece, in the separator behind it, or further on
      rcases h with (h | h) | h
      · exact .inr ⟨piece, List.mem_cons_self, h⟩
      · exact .inl h
      · rcases ih h with hsep | ⟨other, hother, hx⟩
        · exact .inl hsep
        · exact .inr ⟨other, List.mem_cons_of_mem piece hother, hx⟩

theorem mem_of_mem_splitOn [DecidableEq α] {sep : α} {l piece : List α} {x : α}
    (hpiece : piece ∈ splitOn sep l) (hx : x ∈ piece) : x ∈ l := by
  induction l generalizing piece with
  | nil =>
    rw [splitOn, List.mem_singleton] at hpiece
    exact hpiece ▸ hx
  | cons y rest ih =>
    rw [splitOn] at hpiece
    split at hpiece
    · rcases List.mem_cons.1 hpiece with rfl | hpiece
      · cases hx
      · exact List.mem_cons_of_mem y (ih hpiece hx)
    · cases hrest : splitOn sep rest with
      | nil => exact absurd hrest (splitOn_ne_nil sep rest)
      | cons first more =>
        rw [hrest, consFirst] at hpiece
        rw [hrest] at ih
        rcases List.mem_cons.1 hpiece with rfl | hpiece
        · rcases List.mem_cons.1 hx with rfl | hx
          · exact List.mem_cons_self
          · exact List.mem_cons_of_mem y (ih List.mem_cons_self hx)
        · exact List.mem_cons_of_mem y (ih (List.mem_cons_of_mem first hpiece) hx)

@[simp] theorem splitOnSemicolons_ne_nil (t : Text) : splitOnSemicolons t ≠ [] := by
  fun_cases splitOnSemicolons t <;> simp

theorem joinWith_nil_cons (sep : List α) {pieces : List (List α)} (h : pieces ≠ []) :
    joinWith sep ([] :: pieces) = sep ++ joinWith sep pieces := by
  match pieces, h with
  | p :: rest, _ => simp [joinWith]

/-- Cutting at semicolons loses nothing either. -/
theorem joinWith_splitOnSemicolons (t : Text) :
    joinWith [';', ';', ';'] (splitOnSemicolons t) = t := by
  fun_induction splitOnSemicolons t with
  | case1 => rfl
  | case2 rest ih => rw [joinWith_nil_cons _ (splitOnSemicolons_ne_nil rest), ih]; rfl
  | case3 c rest _ ih => rw [joinWith_consFirst _ _ (splitOnSemicolons_ne_nil rest), ih]

end Reckon
