import Dashboard.Proofs.Text.Dedent
import Dashboard.Proofs.Text.Search
import Mathlib.Data.List.Forall2

/-!
# The common margin

What texts have in common at their beginning is the largest of their common beginnings.  So
dedenting takes from each line that is not blank one and the same margin, which is all that
these lines have in common of spaces and tabs (`Dedented`): nothing is left to take a second
time, and margin that is put in front of all these lines is taken away again.
-/

namespace Dashboard.Text

variable {p l margin text : List Char}

/-- Spaces and tabs alone. -/
def IsMargin (cs : List Char) : Prop :=
  ∀ c ∈ cs, isMargin c = true

instance (cs : List Char) : Decidable (IsMargin cs) :=
  decidable_of_iff (cs.all isMargin = true) List.all_eq_true

/-- How a line comes out without a margin: a blank line empty, and any other is the margin
and what comes out. -/
def Loses (margin line out : List Char) : Prop :=
  if line.all isBlank then out = [] else line = margin ++ out

/-- A line of the text is not blank. -/
def HasText (text : List Char) : Prop :=
  ∃ l ∈ text.splitOn '\n', l.all isBlank = false

/-- A text comes out without a margin, line by line, and its lines have no more of a margin
in common. -/
structure Dedented (margin text out : List Char) : Prop where
  isMargin : IsMargin margin
  feeds : out.count '\n' = text.count '\n'
  lines : List.Forall₂ (Loses margin) (text.splitOn '\n') (out.splitOn '\n')
  largest : HasText text → ∀ more, IsMargin more →
    (∀ o ∈ out.splitOn '\n', o.all isBlank = false → more <+: o) → more = []

/-- A text with the same characters in front of each line that is not blank. -/
def indentChars (more text : List Char) : List Char :=
  ['\n'].intercalate ((text.splitOn '\n').map fun l => if l.all isBlank then l else more ++ l)

/-- A text with the same characters in front of each line that is not blank. -/
def indent (more : List Char) (text : String) : String :=
  String.ofList (indentChars more text.toList)

/-! ## Common beginnings -/

/-- The common beginning is the largest one. -/
theorem prefix_commonStart_iff
    {a b : List Char} :
    p <+: commonStart a b ↔ p <+: a ∧ p <+: b := by
  constructor
  · intro h
    exact ⟨h.trans (commonStart_isPrefix a b).1, h.trans (commonStart_isPrefix a b).2⟩
  · rintro ⟨⟨as, rfl⟩, hb⟩
    induction p generalizing b with
    | nil =>
        exact List.nil_prefix
    | cons c p ih =>
        obtain ⟨bs, rfl⟩ := hb
        rw [List.cons_append, List.cons_append, commonStart, if_pos rfl, List.prefix_cons_inj]
        exact ih (List.prefix_append p bs)

theorem prefix_foldl_commonStart_iff
    {ls : List (List Char)} :
    p <+: ls.foldl commonStart l ↔ p <+: l ∧ ∀ k ∈ ls, p <+: k := by
  induction ls generalizing l with
  | nil =>
      simp
  | cons k ls ih =>
      rw [List.foldl_cons, ih, prefix_commonStart_iff, List.forall_mem_cons, and_assoc]

theorem prefix_commonStartAll_iff
    {ls : List (List Char)}
    (hne : ls ≠ []) :
    p <+: commonStartAll ls ↔ ∀ l ∈ ls, p <+: l := by
  obtain ⟨l, ls, rfl⟩ := List.exists_cons_of_ne_nil hne
  rw [commonStartAll, prefix_foldl_commonStart_iff, List.forall_mem_cons]

/-! ## Margins -/

theorem isMargin_append
    {a b : List Char} :
    IsMargin (a ++ b) ↔ IsMargin a ∧ IsMargin b :=
  List.forall_mem_append

theorem not_feed_mem_of_isMargin (h : IsMargin margin) : '\n' ∉ margin :=
  fun hfeed => absurd (h _ hfeed) (by decide)

theorem all_isBlank_of_isMargin (h : IsMargin margin) : margin.all isBlank = true := by
  rw [List.all_eq_true]
  intro c hc
  have hspace := h c hc
  rw [isMargin, Bool.or_eq_true, beq_iff_eq, beq_iff_eq] at hspace
  rcases hspace with rfl | rfl
  · decide
  · decide

/-- The blanks of a margin do not tell whether a line is blank. -/
theorem all_isBlank_append
    (h : IsMargin margin)
    (l : List Char) :
    (margin ++ l).all isBlank = l.all isBlank := by
  rw [List.all_append, all_isBlank_of_isMargin h, Bool.true_and]

theorem prefix_takeWhile_isMargin_iff (hp : IsMargin p) :
    p <+: l.takeWhile isMargin ↔ p <+: l := by
  refine ⟨fun h => h.trans (List.takeWhile_prefix isMargin), ?_⟩
  rintro ⟨rest, rfl⟩
  rw [List.takeWhile_append_of_pos hp]
  exact List.prefix_append p _

theorem commonMargin_eq_nil (h : ¬HasText text) : commonMargin text = [] := by
  have hnone : (text.splitOn '\n').filter (fun l => !l.all isBlank) = [] := by
    rw [List.filter_eq_nil_iff]
    intro l hl hshown
    exact h ⟨l, hl, by simpa using hshown⟩
  rw [commonMargin, margins_eq, hnone, List.map_nil, commonStartAll]

/-- What is in front of all lines that are not blank is in the margin. -/
theorem prefix_commonMargin_iff_takeWhile (h : HasText text) :
    p <+: commonMargin text ↔
      ∀ l ∈ text.splitOn '\n', l.all isBlank = false → p <+: l.takeWhile isMargin := by
  obtain ⟨k, hk, hshown⟩ := h
  have hmem : k.takeWhile isMargin ∈ margins text := by
    rw [margins_eq]
    exact List.mem_map_of_mem (List.mem_filter.2 ⟨hk, by simp [hshown]⟩)
  rw [commonMargin, prefix_commonStartAll_iff (List.ne_nil_of_mem hmem), margins_eq,
    List.forall_mem_map, List.forall_mem_filter]
  simp only [Bool.not_eq_true']

theorem prefix_commonMargin_iff
    (hp : IsMargin p)
    (h : HasText text) :
    p <+: commonMargin text ↔ ∀ l ∈ text.splitOn '\n', l.all isBlank = false → p <+: l := by
  rw [prefix_commonMargin_iff_takeWhile h]
  simp only [prefix_takeWhile_isMargin_iff hp]

theorem isMargin_commonMargin (text : List Char) : IsMargin (commonMargin text) := by
  by_cases h : HasText text
  · obtain ⟨l, hl, hshown⟩ := id h
    have hstart := (prefix_commonMargin_iff_takeWhile h).1 List.prefix_rfl l hl hshown
    exact fun c hc => List.all_eq_true.1 List.all_takeWhile c (hstart.subset hc)
  · rw [commonMargin_eq_nil h]
    exact List.forall_mem_nil _

/-- Every line that is not blank starts with the margin, and so none is left as it is for
want of it. -/
theorem commonMargin_isPrefix
    (hl : l ∈ text.splitOn '\n')
    (hshown : l.all isBlank = false) :
    commonMargin text <+: l :=
  (prefix_commonMargin_iff (isMargin_commonMargin text) ⟨l, hl, hshown⟩).1 List.prefix_rfl l hl
    hshown

/-! ## Lines without their margin -/

theorem dedentLine_of_blank
    (h : l.all isBlank = true)
    (margin : List Char) :
    dedentLine margin l = [] := by
  rw [dedentLine, if_pos h]

theorem dedentLine_append
    (h : (margin ++ l).all isBlank = false) :
    dedentLine margin (margin ++ l) = l := by
  rw [dedentLine, if_neg (by simp [h]), dropPrefix?_append, Option.getD_some]

theorem loses_dedentLine (hl : l ∈ text.splitOn '\n') :
    Loses (commonMargin text) l (dedentLine (commonMargin text) l) := by
  rw [Loses]
  split
  · next hblank =>
      exact dedentLine_of_blank hblank _
  · next hshown =>
      rw [Bool.not_eq_true] at hshown
      obtain ⟨rest, hrest⟩ := commonMargin_isPrefix hl hshown
      rw [← hrest] at hshown ⊢
      rw [dedentLine_append hshown]

theorem dedentLine_suffix (margin l : List Char) : dedentLine margin l <:+ l := by
  rw [dedentLine]
  split
  · exact List.nil_suffix
  · cases hdrop : dropPrefix? margin l with
    | none =>
        exact List.suffix_rfl
    | some rest =>
        rw [eq_append_of_dropPrefix? hdrop]
        exact List.suffix_append margin rest

/-- What comes out is blank if the line is. -/
theorem all_isBlank_dedentLine (hl : l ∈ text.splitOn '\n') :
    (dedentLine (commonMargin text) l).all isBlank = l.all isBlank := by
  have hloses := loses_dedentLine hl
  rw [Loses] at hloses
  split at hloses
  · next hblank =>
      rw [hloses, hblank]
      rfl
  · rw [← all_isBlank_append (isMargin_commonMargin text), ← hloses]

theorem splitOn_dedentChars (text : List Char) :
    (dedentChars text).splitOn '\n' =
      (text.splitOn '\n').map (dedentLine (commonMargin text)) := by
  rw [dedentChars_eq_intercalate]
  refine List.splitOn_intercalate '\n' ?_ ?_
  · rw [List.forall_mem_map]
    intro l hl hfeed
    exact not_feed_mem_of_mem_splitOn hl ((dedentLine_suffix _ l).subset hfeed)
  · exact fun hnil => List.splitOn_ne_nil '\n' text (List.map_eq_nil_iff.1 hnil)

theorem dedented_dedentChars (text : List Char) :
    Dedented (commonMargin text) text (dedentChars text) where
  isMargin := isMargin_commonMargin text
  feeds := by
    have hlength := congrArg List.length (splitOn_dedentChars text)
    rw [List.length_map, length_splitOn_feed, length_splitOn_feed] at hlength
    exact Nat.add_right_cancel hlength
  lines := by
    rw [splitOn_dedentChars, List.forall₂_map_right_iff, List.forall₂_same]
    exact fun l hl => loses_dedentLine hl
  largest := by
    intro htext more hmore hall
    -- the margin and more of it would be a common margin, too
    have hlonger : commonMargin text ++ more <+: commonMargin text := by
      rw [prefix_commonMargin_iff (isMargin_append.2 ⟨isMargin_commonMargin text, hmore⟩) htext]
      intro l hl hshown
      have hloses := loses_dedentLine hl
      rw [Loses, if_neg (by simp [hshown])] at hloses
      rw [hloses, List.prefix_append_right_inj]
      refine hall _ ?_ ?_
      · rw [splitOn_dedentChars]
        exact List.mem_map_of_mem hl
      · rw [all_isBlank_dedentLine hl, hshown]
    have hlength := hlonger.length_le
    rw [List.length_append] at hlength
    exact List.length_eq_zero_iff.1 (by omega)

/-! ## Dedented and indented texts -/

theorem hasText_dedentChars_iff : HasText (dedentChars text) ↔ HasText text := by
  rw [HasText, HasText, splitOn_dedentChars]
  constructor
  · rintro ⟨o, ho, hshown⟩
    obtain ⟨l, hl, rfl⟩ := List.mem_map.1 ho
    exact ⟨l, hl, by rw [← all_isBlank_dedentLine hl, hshown]⟩
  · rintro ⟨l, hl, hshown⟩
    exact ⟨_, List.mem_map_of_mem hl, by rw [all_isBlank_dedentLine hl, hshown]⟩

/-- Without their margin the lines have none in common. -/
theorem commonMargin_dedentChars (text : List Char) : commonMargin (dedentChars text) = [] := by
  by_cases h : HasText text
  · exact (dedented_dedentChars text).largest h _ (isMargin_commonMargin _)
      fun o ho hshown => commonMargin_isPrefix ho hshown
  · exact commonMargin_eq_nil fun hout => h (hasText_dedentChars_iff.1 hout)

theorem dedentChars_dedentChars (text : List Char) :
    dedentChars (dedentChars text) = dedentChars text := by
  have hlines : ∀ l ∈ text.splitOn '\n',
      dedentLine [] (dedentLine (commonMargin text) l) = dedentLine (commonMargin text) l := by
    intro l hl
    cases hblank : l.all isBlank with
    | true =>
        rw [dedentLine_of_blank hblank]
        rfl
    | false =>
        have hshown : ([] ++ dedentLine (commonMargin text) l).all isBlank = false := by
          rw [List.nil_append, all_isBlank_dedentLine hl, hblank]
        exact dedentLine_append hshown
  rw [dedentChars_eq_intercalate (dedentChars text), commonMargin_dedentChars,
    splitOn_dedentChars, List.map_map, dedentChars_eq_intercalate text]
  exact congrArg _ (List.map_congr_left hlines)

theorem splitOn_indentChars
    (hp : IsMargin p)
    (text : List Char) :
    (indentChars p text).splitOn '\n' =
      (text.splitOn '\n').map fun l => if l.all isBlank then l else p ++ l := by
  refine List.splitOn_intercalate '\n' ?_ ?_
  · rw [List.forall_mem_map]
    intro l hl
    split
    · exact not_feed_mem_of_mem_splitOn hl
    · rw [List.mem_append, not_or]
      exact ⟨not_feed_mem_of_isMargin hp, not_feed_mem_of_mem_splitOn hl⟩
  · exact fun hnil => List.splitOn_ne_nil '\n' text (List.map_eq_nil_iff.1 hnil)

/-- The lines of an indented text that are not blank. -/
theorem forall_shown_indentChars_iff
    (hp : IsMargin p)
    {P : List Char → Prop} :
    (∀ l ∈ (indentChars p text).splitOn '\n', l.all isBlank = false → P l) ↔
      ∀ l ∈ text.splitOn '\n', l.all isBlank = false → P (p ++ l) := by
  rw [splitOn_indentChars hp, List.forall_mem_map]
  refine forall₂_congr fun l hl => ?_
  split
  · next hblank =>
      simp [hblank]
  · rw [all_isBlank_append hp]

theorem hasText_indentChars
    (hp : IsMargin p)
    (h : HasText text) :
    HasText (indentChars p text) := by
  obtain ⟨l, hl, hshown⟩ := h
  refine ⟨p ++ l, ?_, by rw [all_isBlank_append hp, hshown]⟩
  rw [splitOn_indentChars hp]
  exact List.mem_map.2 ⟨l, hl, if_neg (by simp [hshown])⟩

/-- More margin in front of the lines is more of the margin that they have in common. -/
theorem commonMargin_indentChars
    (hp : IsMargin p)
    (h : HasText text) :
    commonMargin (indentChars p text) = p ++ commonMargin text := by
  have hindented := hasText_indentChars hp h
  have hlines : ∀ l ∈ text.splitOn '\n', l.all isBlank = false →
      commonMargin (indentChars p text) <+: p ++ l :=
    (forall_shown_indentChars_iff hp).1 fun l hl hshown => commonMargin_isPrefix hl hshown
  have hshort : p ++ commonMargin text <+: commonMargin (indentChars p text) := by
    rw [prefix_commonMargin_iff (isMargin_append.2 ⟨hp, isMargin_commonMargin text⟩) hindented,
      forall_shown_indentChars_iff hp]
    intro l hl hshown
    exact (List.prefix_append_right_inj p).2 (commonMargin_isPrefix hl hshown)
  obtain ⟨rest, hrest⟩ := hshort
  have hmargin := isMargin_commonMargin (indentChars p text)
  rw [← hrest, List.append_assoc, isMargin_append] at hmargin
  -- what stands behind the added margin in all lines is in the margin of the text
  have hlong : commonMargin text ++ rest <+: commonMargin text := by
    rw [prefix_commonMargin_iff hmargin.2 h]
    intro l hl hshown
    have hline := hlines l hl hshown
    rwa [← hrest, List.append_assoc, List.prefix_append_right_inj] at hline
  have hnil : rest = [] := by
    have hlength := hlong.length_le
    rw [List.length_append] at hlength
    exact List.length_eq_zero_iff.1 (by omega)
  rw [← hrest, hnil, List.append_nil]

/-- An indented line loses what was put in front of it and its margin. -/
theorem dedentLine_indented
    (hp : IsMargin p)
    (hl : l ∈ text.splitOn '\n') :
    dedentLine (p ++ commonMargin text) (if l.all isBlank then l else p ++ l) =
      dedentLine (commonMargin text) l := by
  split
  · next hblank =>
      rw [dedentLine_of_blank hblank, dedentLine_of_blank hblank]
  · next hshown =>
      rw [Bool.not_eq_true] at hshown
      obtain ⟨rest, hrest⟩ := commonMargin_isPrefix hl hshown
      have hwhole : (p ++ commonMargin text ++ rest).all isBlank = false := by
        rw [List.append_assoc, all_isBlank_append hp, hrest, hshown]
      rw [← hrest] at hshown ⊢
      rw [dedentLine_append hshown, ← List.append_assoc, dedentLine_append hwhole]

theorem indentChars_of_blank (h : ¬HasText text) : indentChars p text = text := by
  have hsame : ∀ l ∈ text.splitOn '\n', (if l.all isBlank then l else p ++ l) = id l := by
    intro l hl
    refine if_pos ?_
    rw [← Bool.not_eq_false]
    exact fun hshown => h ⟨l, hl, hshown⟩
  rw [indentChars, List.map_congr_left hsame, List.map_id, List.intercalate_splitOn]

theorem dedentChars_indentChars
    (hp : IsMargin p)
    (text : List Char) :
    dedentChars (indentChars p text) = dedentChars text := by
  by_cases h : HasText text
  · have hlines : ∀ l ∈ text.splitOn '\n',
        dedentLine (p ++ commonMargin text) (if l.all isBlank then l else p ++ l) =
          dedentLine (commonMargin text) l := fun l hl => dedentLine_indented hp hl
    rw [dedentChars_eq_intercalate (indentChars p text), commonMargin_indentChars hp h,
      splitOn_indentChars hp, List.map_map, dedentChars_eq_intercalate text]
    exact congrArg _ (List.map_congr_left hlines)
  · rw [indentChars_of_blank h]

/-- Dedenting takes away exactly the margin that the lines of a text have in common: what
is left has none, and none that is put in front of the lines makes a difference. -/
theorem dedent_takes_common_margin (text : String) :
    (∃ margin, Dedented margin text.toList (dedent text).toList) ∧
      dedent (dedent text) = dedent text ∧
      ∀ more, IsMargin more → dedent (indent more text) = dedent text := by
  refine ⟨⟨commonMargin text.toList, ?_⟩, ?_, fun more hmore => ?_⟩
  · rw [dedent, String.toList_ofList]
    exact dedented_dedentChars text.toList
  · rw [dedent, dedent, String.toList_ofList, dedentChars_dedentChars]
  · rw [dedent, indent, String.toList_ofList, dedentChars_indentChars hmore, dedent]

/-! ## A text with tabs, carriage returns and wide blanks -/

/-- Two lines with a common margin of a tab and two spaces, and a blank one. -/
def mixedText : String :=
  "\t  a:\r\n \u2003\r\n\t    - b"

/-- With a space and a tab more in front of its lines, it is dedented as before. -/
theorem dedent_indent_mixedText :
    IsMargin [' ', '\t'] ∧ dedent (indent [' ', '\t'] mixedText) = "a:\r\n\n  - b" := by
  have hmargin : IsMargin [' ', '\t'] := by decide
  refine ⟨hmargin, ?_⟩
  rw [(dedent_takes_common_margin mixedText).2.2 _ hmargin]
  decide +kernel

end Dashboard.Text
