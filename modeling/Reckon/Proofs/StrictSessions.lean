import Reckon.Proofs.Restart
import Reckon.Proofs.TokenChars

/-!
# A history over strict sessions

Strict reading accepts a text only if it consists of blanks and of characters of tokens
(`mem_of_tokenize_strict`). A semicolon is neither, so an expression that strict sessions record can
hold no delimiter and cannot end in a part of one, and every entry comes back as it was.
-/

namespace Reckon

/-! ## Recorded expressions

Only an expression with a value is recorded, and in strict mode only tokens and blanks have one. -/

/-- A semicolon is an unknown character, which strict reading does not pass over. -/
theorem semicolon_not_mem_of_evaluate_strict {source : Text} {x : Binary64}
    (h : evaluate true source = .ok x) : ';' ∉ source := by
  intro hmem
  unfold evaluate at h
  split at h
  · cases h
  · next ts hts =>
    have hkind := mem_of_tokenize_strict hts hmem
    revert hkind
    decide

namespace FileSystem

/-- No entry of strict sessions has one in its expression. -/
theorem semicolon_not_mem_of_mem_recorded {fs : FileSystem} {scripts : List Script}
    (hstrict : ∀ script ∈ scripts, script.settings.strict = true) {e : Entry}
    (he : e ∈ fs.recorded scripts) : ';' ∉ e.expression := by
  obtain ⟨m, hm, hentry⟩ := List.mem_filterMap.1 he
  obtain ⟨script, hscript, -, hmode⟩ := exists_script_of_mem_moments hm
  obtain ⟨x, hvalue, rfl⟩ := Moment.value_of_recorded? hentry
  rw [hmode, hstrict script hscript] at hvalue
  exact semicolon_not_mem_of_evaluate_strict hvalue

/-- The moments of some sessions come before those of the sessions after them. -/
theorem moments_append (fs : FileSystem) (earlier later : List Script) :
    fs.moments (earlier ++ later) = fs.moments earlier ++ (fs.afterAll earlier).moments later := by
  induction earlier generalizing fs with
  | nil => rfl
  | cons script rest ih =>
    rw [List.cons_append, moments, moments, ih, List.append_assoc]
    rfl

/-- Sessions are undisturbed whatever comes after them. -/
theorem Undisturbed.of_append {fs : FileSystem} {path : Path} {earlier later : List Script}
    (h : fs.Undisturbed path (earlier ++ later)) : fs.Undisturbed path earlier where
  shared script hs := h.shared script (List.mem_append_left later hs)
  oneLine script hs := h.oneLine script (List.mem_append_left later hs)
  saves m hm := h.saves m (by rw [moments_append]; exact List.mem_append_left _ hm)
  apart m hm := h.apart m (by rw [moments_append]; exact List.mem_append_left _ hm)

end FileSystem

/-- Every one of several strict sessions begins with the entries that those before it have recorded,
in their order and unchanged. -/
theorem history_kept_over_strict_sessions {fs : FileSystem} {path : Path} {scripts : List Script}
    (hstrict : ∀ script ∈ scripts, script.settings.strict = true)
    (habsent : fs.nodeAt? (fs.placeOf path) = none) (hrun : fs.Undisturbed path scripts)
    {earlier later : List Script} {script : Script}
    (hscripts : scripts = earlier ++ script :: later) :
    ((fs.afterAll earlier).sessionOf script).history.entries = fs.recorded earlier := by
  subst hscripts
  have hpath : script.settings.historyFile = path :=
    hrun.shared script (List.mem_append_right earlier List.mem_cons_self)
  -- no semicolon is accepted in strict mode, so neither the delimiter nor an end that could be
  -- mistaken for a part of it is in an expression
  have hplain : ∀ e ∈ fs.recorded earlier, ';' ∉ e.expression := fun e he =>
    FileSystem.semicolon_not_mem_of_mem_recorded
      (fun s hs => hstrict s (List.mem_append_left _ hs)) he
  have hclear : ∀ e ∈ fs.recorded earlier, ¬Entry.delimiter <:+: e.expression := by
    intro e he hwithin
    exact hplain e he (hwithin.subset List.mem_cons_self)
  have hloaded : ((fs.afterAll earlier).sessionOf script).history.entries
      = (fs.recorded earlier).map Entry.reread := by
    rw [FileSystem.sessionOf, FileSystem.startSession, hpath]
    exact FileSystem.entries_openHistory_afterAll habsent hrun.of_append hclear
  rw [hloaded, Entry.map_reread_eq_self_iff]
  intro e he hlast
  exact hplain e he (List.mem_of_getLast? hlast)

/-- Works out an expression in strict mode, between an invalid choice and an export. -/
def Script.strictOn (expression : Text) : Script :=
  ⟨{ strict := true }, [['9'], ['1'], expression, ['3'], "out.txt".toList, ['5']]⟩

/-- The second session records nothing, because strict reading refuses the semicolon. -/
theorem history_kept_over_three_strict_sessions :
    ((FileSystem.bare.afterAll [.strictOn "7 // 2".toList, .strictOn "1;".toList]).sessionOf
        (.strictOn ['8'])).history.entries = [⟨"7 // 2".toList, ['3']⟩] := by
  have hrun : FileSystem.bare.Undisturbed ({} : Settings).historyFile
      [.strictOn "7 // 2".toList, .strictOn "1;".toList, .strictOn ['8']] :=
    ⟨by decide, by decide, by decide +kernel, by decide +kernel⟩
  have habsent : FileSystem.bare.nodeAt? (FileSystem.bare.placeOf ({} : Settings).historyFile)
      = none := by decide +kernel
  have hscripts : [Script.strictOn "7 // 2".toList, .strictOn "1;".toList, .strictOn ['8']]
      = [.strictOn "7 // 2".toList, .strictOn "1;".toList] ++ .strictOn ['8'] :: [] := rfl
  rw [history_kept_over_strict_sessions (by decide) habsent hrun hscripts]
  decide +kernel

end Reckon
