import Mathlib.Data.List.DropRight
import Mathlib.Data.List.Infix
import Reckon.History.FileFormat

/-!
# Reading the history file back

The file has no escaping, so an entry comes back as the leftmost cut of its line gives it. When the
expression holds no delimiter of its own, the cut stands right behind its last character that is no
semicolon: semicolons at its end are read as the front of the result (`Entry.reread`), and anything
else comes back as it was written.

* `Entry.ofLine?_line`: the line of an entry is read as `Entry.reread` says.
* `HistoryFile.entries_content`: a file is read line by line.
-/

namespace Reckon

/-! ## Cutting at semicolons

`splitOnSemicolons` looks for three semicolons from the left. Its cut can come earlier than the
delimiter that was written only if semicolons stand right before that one. -/

/-- What does not hold the delimiter is one piece. -/
theorem splitOnSemicolons_of_not_infix {t : Text} (h : ¬Entry.delimiter <:+: t) :
    splitOnSemicolons t = [t] := by
  -- along the cutting; the case of a cut cannot occur
  fun_induction splitOnSemicolons t with
  | case1 => rfl
  | case2 rest => exact absurd (List.prefix_append Entry.delimiter rest).isInfix h
  | case3 c rest _ ih =>
    have hrest : ¬Entry.delimiter <:+: rest :=
      fun hi => h (hi.trans (List.suffix_cons c rest).isInfix)
    rw [ih hrest, consFirst]

/-- The cut comes right behind a front that holds no delimiter and does not end in a semicolon. With
a semicolon at its end the leftmost delimiter would begin there. -/
theorem splitOnSemicolons_append_delimiter {front : Text} (hclear : ¬Entry.delimiter <:+: front)
    (hend : front.getLast? ≠ some ';') (back : Text) :
    splitOnSemicolons (front ++ Entry.delimiter ++ back) = front :: splitOnSemicolons back := by
  induction front with
  | nil =>
    rw [Entry.delimiter, List.nil_append, List.cons_append, List.cons_append, List.cons_append,
      List.nil_append, splitOnSemicolons]
  | cons c rest ih =>
    have hclear' : ¬Entry.delimiter <:+: rest :=
      fun hi => hclear (hi.trans (List.suffix_cons c rest).isInfix)
    have hend' : rest.getLast? ≠ some ';' := by
      cases rest with
      | nil => simp
      | cons d rest => rwa [List.getLast?_cons_cons] at hend
    -- no delimiter begins at `c`, neither inside the front nor across its end
    have hhere : ∀ tail, c = ';' → rest ++ Entry.delimiter ++ back = ';' :: ';' :: tail →
        False := by
      intro tail hc htail
      subst hc
      match rest, hclear, hend, htail with
      | [], _, hend, _ => exact hend rfl
      | [d], _, hend, htail =>
        obtain ⟨rfl, -⟩ := List.cons.inj htail
        exact hend rfl
      | d :: e :: more, hclear, _, htail =>
        have hd : d = ';' := (List.cons.inj htail).1
        have he : e = ';' := (List.cons.inj (List.cons.inj htail).2).1
        subst hd he
        exact hclear (List.prefix_append Entry.delimiter more).isInfix
    rw [List.cons_append, List.cons_append, splitOnSemicolons.eq_3 _ _ hhere, ih hclear' hend',
      consFirst]

/-! ## One entry

The line of an entry is also that of its `reread` one, whose expression does not end in a semicolon.
So cutting it gives the fields of that one, whichever of the two was written. -/

/-- A character of the delimiter. -/
def isSemicolon (c : Char) : Bool :=
  c == ';'

/-- The same in the form in which the library speaks of dropping from the right. -/
theorem getLast?_ne_semicolon_iff (t : Text) :
    t.getLast? ≠ some ';' ↔ ∀ h : t ≠ [], ¬isSemicolon (t.getLast h) = true := by
  constructor
  · intro h hne hsemi
    exact h (by rw [List.getLast?_eq_some_getLast hne, beq_iff_eq.1 hsemi])
  · intro h hlast
    obtain ⟨hne, hsemi⟩ := List.mem_getLast?_eq_getLast hlast
    exact h hne (by rw [← hsemi]; rfl)

namespace Entry

/-- The semicolons at the end of the expression. -/
def overhang (e : Entry) : Text :=
  e.expression.rtakeWhile isSemicolon

/-- The entry that the line of `e` is read as: semicolons at the end of the expression go to the
result. -/
def reread (e : Entry) : Entry :=
  ⟨e.expression.rdropWhile isSemicolon, e.overhang ++ e.result⟩

theorem overhang_eq_replicate (e : Entry) :
    e.overhang = List.replicate e.overhang.length ';' := by
  refine List.eq_replicate_of_mem fun c hc => ?_
  have hsemi : isSemicolon c = true := List.mem_rtakeWhile_imp hc
  exact beq_iff_eq.1 hsemi

/-- It does not matter on which side of the delimiter semicolons stand. -/
theorem line_reread (e : Entry) : e.reread.line = e.line := by
  have hexpr : e.expression.rdropWhile isSemicolon ++ e.overhang = e.expression :=
    List.rdropWhile_append_rtakeWhile
  -- delimiter and overhang are both made of semicolons
  have hswap : delimiter ++ e.overhang = e.overhang ++ delimiter := by
    have hd : delimiter = List.replicate 3 ';' := rfl
    rw [overhang_eq_replicate, hd, List.replicate_append_replicate,
      List.replicate_append_replicate, Nat.add_comm]
  calc e.reread.line
      = e.expression.rdropWhile isSemicolon ++ (delimiter ++ e.overhang) ++ e.result := by
        simp only [line, reread, List.append_assoc]
    _ = e.expression.rdropWhile isSemicolon ++ e.overhang ++ delimiter ++ e.result := by
        rw [hswap, List.append_assoc _ e.overhang]
    _ = e.line := by rw [hexpr, line]

/-- An entry comes back unchanged exactly if its expression does not end in a semicolon. -/
theorem reread_eq_self_iff (e : Entry) : e.reread = e ↔ e.expression.getLast? ≠ some ';' := by
  rw [getLast?_ne_semicolon_iff]
  constructor
  · intro h
    have hdrop : e.expression.rdropWhile isSemicolon = e.expression := congrArg Entry.expression h
    exact List.rdropWhile_eq_self_iff.1 hdrop
  · intro h
    have hdrop := List.rdropWhile_eq_self_iff.2 h
    have htake := List.rtakeWhile_eq_nil_iff.2 h
    rw [reread, overhang, hdrop, htake, List.nil_append]

/-- Three of them would be a delimiter. -/
theorem length_overhang_lt {e : Entry} (hclear : ¬delimiter <:+: e.expression) :
    e.overhang.length < 3 := by
  by_contra hmany
  have hpre : delimiter <+: e.overhang := by
    refine ⟨List.replicate (e.overhang.length - 3) ';', ?_⟩
    have hd : delimiter = List.replicate 3 ';' := rfl
    rw [hd, List.replicate_append_replicate, Nat.add_sub_cancel' (Nat.le_of_not_lt hmany),
      ← overhang_eq_replicate]
  have hsuf : e.overhang <:+ e.expression := List.rtakeWhile_suffix _ _
  exact hclear (hpre.isInfix.trans hsuf.isInfix)

/-- No delimiter arises where the overhang meets a result without semicolons. -/
theorem not_infix_reread_result {e : Entry} (hclear : ¬delimiter <:+: e.expression)
    (hfree : ';' ∉ e.result) : ¬delimiter <:+: e.reread.result := by
  intro hi
  -- a delimiter has three semicolons, and all that there are stand in the overhang
  have hthree : List.count ';' delimiter = 3 := by decide
  have hcount : 3 ≤ List.count ';' e.overhang := by
    have h := hi.sublist.count_le ';'
    rwa [hthree, reread, List.count_append, List.count_eq_zero.2 hfree] at h
  exact Nat.not_lt.2 (hcount.trans List.count_le_length) (length_overhang_lt hclear)

/-- The line is cut into the fields of the reread entry. -/
theorem splitOnSemicolons_line {e : Entry} (hclear : ¬delimiter <:+: e.expression)
    (hfree : ';' ∉ e.result) :
    splitOnSemicolons e.line = [e.reread.expression, e.reread.result] := by
  have hpre : e.reread.expression <+: e.expression := List.rdropWhile_prefix _ _
  have hfront : ¬delimiter <:+: e.reread.expression := fun hi => hclear (hi.trans hpre.isInfix)
  have hend : e.reread.expression.getLast? ≠ some ';' :=
    (getLast?_ne_semicolon_iff _).2 (List.rdropWhile_last_not _ _)
  rw [← line_reread, line, splitOnSemicolons_append_delimiter hfront hend,
    splitOnSemicolons_of_not_infix (not_infix_reread_result hclear hfree)]

/-- The line of an entry with a result is read as the reread entry. -/
theorem ofLine?_line {e : Entry} (hclear : ¬delimiter <:+: e.expression)
    (hne : e.result ≠ []) (hfree : ';' ∉ e.result) : ofLine? e.line = some e.reread := by
  have hresult : e.reread.result.isEmpty = false := by
    rw [List.isEmpty_eq_false_iff, reread]
    exact List.append_ne_nil_of_right_ne_nil _ hne
  have hfields : fields e.line = [e.reread.expression, e.reread.result] := by
    rw [fields, splitOnSemicolons_line hclear hfree]
    simp [hresult]
  rw [ofLine?, hfields]

end Entry

/-! ## A whole file

The bytes of a text hold the byte of a line feed only where the text has a line feed, so a file that
is written line by line is cut into the same lines. -/

namespace HistoryFile

/-- Only the line feed is written with the byte of a line feed; all bytes of a longer form have
their highest bit set. -/
theorem eq_lineFeed_of_mem_encodeChar {c : Char} (h : lineFeed ∈ Utf8.encodeChar c) : c = '\n' := by
  have hbound : c.toNat < 0x110000 := c.valid.elim (fun h => Nat.lt_trans h (by decide)) (·.2)
  have hhigh : ∀ n, 0x80 ≤ n → n < 256 → lineFeed ≠ Utf8.byte n := by
    intro n hlow hn heq
    have htoNat := Utf8.toNat_byte hn
    rw [← heq] at htoNat
    have hten : lineFeed.toNat = 10 := rfl
    omega
  -- in each of the longer forms every byte is one of those that `hhigh` excludes
  have hlow : c.toNat < 0x80 := by
    by_contra hlong
    unfold Utf8.encodeChar at h
    dsimp only at h
    rw [if_neg hlong] at h
    split at h
    · rcases List.mem_cons.1 h with h | h
      · exact hhigh _ (by omega) (by omega) h
      · exact hhigh _ (by omega) (by omega) (List.mem_singleton.1 h)
    · split at h
      · simp only [List.mem_cons, List.not_mem_nil, or_false] at h
        rcases h with h | h | h <;> exact hhigh _ (by omega) (by omega) h
      · simp only [List.mem_cons, List.not_mem_nil, or_false] at h
        rcases h with h | h | h | h <;> exact hhigh _ (by omega) (by omega) h
  have hbyte : lineFeed = Utf8.byte c.toNat := by
    rw [Utf8.encodeChar, if_pos hlow] at h
    exact List.mem_singleton.1 h
  have hten : c.toNat = 10 := by
    have htoNat := Utf8.toNat_byte (show c.toNat < 256 by omega)
    rw [← hbyte] at htoNat
    exact htoNat.symm
  rw [← Char.ofNat_toNat c, hten]

/-- A text on one line is encoded on one line. -/
theorem lineFeed_not_mem_encode {t : Text} (h : '\n' ∉ t) : lineFeed ∉ Utf8.encode t := by
  intro hm
  obtain ⟨c, hc, hbyte⟩ := List.mem_flatMap.1 hm
  exact h (eq_lineFeed_of_mem_encodeChar hbyte ▸ hc)

/-- A line feed ends the lines before it, whatever they are. -/
theorem lines_append_lineFeed (front rest : Bytes) :
    lines (front ++ lineFeed :: rest) = splitOn lineFeed front ++ lines rest := by
  have hne := splitOn_ne_nil lineFeed rest
  simp only [lines, splitOn_append_separator, List.getLast?_append_of_ne_nil _ hne,
    List.dropLast_append_of_ne_nil hne]
  split <;> rfl

/-- The first line of a file is what stands before its first line feed. -/
theorem lines_append_cons {first : Bytes} (h : lineFeed ∉ first) (rest : Bytes) :
    lines (first ++ lineFeed :: rest) = first :: lines rest := by
  rw [lines_append_lineFeed, splitOn_of_not_mem h, List.singleton_append]

/-- A text without the carriage return at its end, if there is one. -/
def withoutReturn (t : Text) : Text :=
  if t.getLast? = some '\r' then t.dropLast else t

theorem withoutReturn_of_ne {t : Text} (h : t.getLast? ≠ some '\r') : withoutReturn t = t :=
  if_neg h

theorem prefix_withoutReturn (t : Text) : withoutReturn t <+: t := by
  unfold withoutReturn
  split
  · exact List.dropLast_prefix t
  · exact List.prefix_refl t

/-- Reading undoes the encoding, but for a carriage return at the end. -/
theorem lineText_encode (t : Text) : lineText (Utf8.encode t) = withoutReturn t := by
  rw [lineText, Utf8.decodeReplacing_encode, withoutReturn]

/-- What is written depends on the lines of the entries alone. -/
theorem content_eq (es : List Entry) :
    content es = Utf8.encode ((es.map Entry.line).flatMap (· ++ ['\n'])) := by
  rw [content, List.flatMap_map]

theorem content_congr {es fs : List Entry} (h : es.map Entry.line = fs.map Entry.line) :
    content es = content fs := by
  rw [content_eq, content_eq, h]

/-- A history with an entry leaves no empty file. -/
theorem content_concat_ne_nil (es : List Entry) (e : Entry) :
    content (es ++ [e]) ≠ [] :=
  Utf8.encode_ne_nil (by simp)

/-- Texts on one line each, written up to a line feed, come back one by one. -/
theorem lineTexts_encode {texts : List Text} (hone : ∀ t ∈ texts, '\n' ∉ t) :
    lineTexts (Utf8.encode (texts.flatMap (· ++ ['\n']))) = texts.map withoutReturn := by
  -- the first line is cut at the first line feed
  induction texts with
  | nil => rfl
  | cons t rest ih =>
    have hfirst : lineFeed ∉ Utf8.encode t := lineFeed_not_mem_encode (hone t List.mem_cons_self)
    have hcontent : Utf8.encode ((t :: rest).flatMap (· ++ ['\n']))
        = Utf8.encode t ++ lineFeed :: Utf8.encode (rest.flatMap (· ++ ['\n'])) := by
      simp only [List.flatMap_cons, Utf8.encode_append, List.append_assoc]
      rfl
    have hrest := ih fun t ht => hone t (List.mem_cons_of_mem _ ht)
    rw [lineTexts] at hrest
    rw [lineTexts, hcontent, lines_append_cons hfirst, List.map_cons, lineText_encode, hrest,
      List.map_cons]

/-- Entries on one line each come back from the file line by line. -/
theorem lineTexts_content_of_oneLine {es : List Entry} (hone : ∀ e ∈ es, '\n' ∉ e.line) :
    lineTexts (content es) = es.map fun e => withoutReturn e.line := by
  rw [content_eq, lineTexts_encode (by simpa using hone), List.map_map]
  rfl

/-- They come back as they are when none of them ends in a carriage return either. -/
theorem lineTexts_content {es : List Entry}
    (hone : ∀ e ∈ es, '\n' ∉ e.line) (hend : ∀ e ∈ es, e.line.getLast? ≠ some '\r') :
    lineTexts (content es) = es.map Entry.line := by
  rw [lineTexts_content_of_oneLine hone]
  exact List.map_congr_left fun e he => withoutReturn_of_ne (hend e he)

/-- A file is read entry by entry. -/
theorem entries_content {es : List Entry}
    (hone : ∀ e ∈ es, '\n' ∉ e.line) (hend : ∀ e ∈ es, e.line.getLast? ≠ some '\r') :
    entries (content es) = es.filterMap fun e => Entry.ofLine? e.line := by
  rw [entries, lineTexts_content hone hend, List.filterMap_map]
  rfl

end HistoryFile

end Reckon
