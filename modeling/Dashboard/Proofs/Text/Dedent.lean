import Dashboard.Proofs.Text.Lines
import Dashboard.Proofs.Text.Trimming
import Dashboard.Text.Dedent

/-!
# Dedented texts line by line

The margins of a text are those of its lines, whatever ends them, and the dedented text is
these lines without the common margin, with line feeds between them
(`dedentChars_eq_intercalate`).  One more line feed at the end of a text is one more line
feed at the end of the dedented text, and so the text without margin and blanks around it
is the same.
-/

namespace Dashboard.Text

variable {l : List Char}

/-! ## Lines -/

theorem takeWhile_isMargin_concat_return (l : List Char) :
    (l ++ ['\r']).takeWhile isMargin = l.takeWhile isMargin := by
  induction l with
  | nil =>
      rfl
  | cons c l ih =>
      by_cases hc : isMargin c = true
      · rw [List.cons_append, List.takeWhile_cons_of_pos hc, List.takeWhile_cons_of_pos hc, ih]
      · rw [List.cons_append, List.takeWhile_cons_of_neg hc, List.takeWhile_cons_of_neg hc]

/-- A carriage return at the end of a line is no part of its margin, and is blank. -/
theorem margin_contentOf_append_feed (hl : '\n' ∉ l) :
    (contentOf (l ++ ['\n'])).all isBlank = l.all isBlank ∧
      (contentOf (l ++ ['\n'])).takeWhile isMargin = l.takeWhile isMargin := by
  rcases contentOf_append_feed hl with hcontent | ⟨content, rfl, hcontent⟩
  · rw [hcontent]
    exact ⟨rfl, rfl⟩
  · have hreturn : ['\r'].all isBlank = true := by decide
    rw [hcontent, List.all_append, hreturn, Bool.and_true, takeWhile_isMargin_concat_return]
    exact ⟨rfl, rfl⟩

/-- The margins are those of the lines between the line feeds. -/
theorem margins_eq (text : List Char) :
    margins text =
      ((text.splitOn '\n').filter fun l => !l.all isBlank).map fun l => l.takeWhile isMargin := by
  induction text using line_induction with
  | last l hl =>
      rw [margins, List.splitOn_eq_singleton hl]
      by_cases hnil : l = []
      · subst hnil
        rfl
      · rw [pieces_of_no_feed hnil hl, List.map_singleton, contentOf_of_no_feed hl]
  | line l rest hl ih =>
      obtain ⟨hblank, hmargin⟩ := margin_contentOf_append_feed hl
      rw [margins] at ih
      rw [margins, pieces_append_feed hl, List.splitOn_append_cons_self_of_not_mem hl,
        List.map_cons, List.filter_cons, List.filter_cons, hblank]
      split
      · rw [List.map_cons, List.map_cons, hmargin, ih]
      · exact ih

/-- The pieces of a text without a margin are its lines without the margin. -/
theorem flatMap_dedentPiece (margin text : List Char) :
    (pieces text).flatMap (dedentPiece margin) =
      ['\n'].intercalate ((text.splitOn '\n').map (dedentLine margin)) := by
  induction text using line_induction with
  | last l hl =>
      rw [List.splitOn_eq_singleton hl, List.map_singleton, List.intercalate_singleton]
      by_cases hnil : l = []
      · subst hnil
        rfl
      · rw [pieces_of_no_feed hnil hl, List.flatMap_singleton, dedentPiece,
          splitEnd_of_no_feed hl]
        exact List.append_nil _
  | line l rest hl ih =>
      have hne : (rest.splitOn '\n').map (dedentLine margin) ≠ [] :=
        fun hnil => List.splitOn_ne_nil '\n' rest (List.map_eq_nil_iff.1 hnil)
      rw [pieces_append_feed hl, List.splitOn_append_cons_self_of_not_mem hl, List.map_cons,
        List.intercalate_cons_of_ne_nil hne, List.flatMap_cons, ih, dedentPiece,
        splitEnd_append_feed hl]

theorem dedentChars_eq_intercalate (text : List Char) :
    dedentChars text =
      ['\n'].intercalate ((text.splitOn '\n').map (dedentLine (commonMargin text))) :=
  flatMap_dedentPiece (commonMargin text) text

/-! ## The last line feed -/

theorem splitOn_concat_feed (text : List Char) :
    (text ++ ['\n']).splitOn '\n' = text.splitOn '\n' ++ [[]] :=
  List.splitOn_append_cons_self text []

theorem margins_concat (text : List Char) : margins (text ++ ['\n']) = margins text := by
  rw [margins_eq, margins_eq, splitOn_concat_feed, List.filter_append]
  simp

theorem intercalate_concat_nil
    {ls : List (List Char)}
    (hne : ls ≠ []) :
    ['\n'].intercalate (ls ++ [[]]) = ['\n'].intercalate ls ++ ['\n'] := by
  induction ls with
  | nil =>
      exact absurd rfl hne
  | cons l ls ih =>
      by_cases hnil : ls = []
      · subst hnil
        simp
      · rw [List.cons_append, List.intercalate_cons_of_ne_nil (by simp),
          List.intercalate_cons_of_ne_nil hnil, ih hnil, List.append_assoc, List.append_assoc,
          List.append_assoc]

theorem dedentChars_concat (text : List Char) :
    dedentChars (text ++ ['\n']) = dedentChars text ++ ['\n'] := by
  have hne : (text.splitOn '\n').map (dedentLine (commonMargin text)) ≠ [] :=
    fun hnil => List.splitOn_ne_nil '\n' text (List.map_eq_nil_iff.1 hnil)
  have hmargin : commonMargin (text ++ ['\n']) = commonMargin text := by
    rw [commonMargin, margins_concat, commonMargin]
  rw [dedentChars_eq_intercalate, dedentChars_eq_intercalate, splitOn_concat_feed, hmargin,
    List.map_append]
  exact intercalate_concat_nil hne

/-- The text without margin and blanks around it does not depend on its last line feed. -/
theorem trimChars_dedentChars_concat (text : List Char) :
    trimChars (dedentChars (text ++ ['\n'])) = trimChars (dedentChars text) := by
  rw [dedentChars_concat, trimChars_concat_feed]

end Dashboard.Text
