import Dashboard.Markdown.Widgets
import Dashboard.Proofs.Markdown.Sections
import Dashboard.Proofs.Text.Dedent

/-!
# The chapter on widgets in its document

The chapter is taken from the first place that reads like its heading, in whatever line,
up to the line feed in front of the next chapter.  So the widgets of a document are those
of its chapter alone exactly if no such place is in front of the chapter.  A heading of a
widget that is the last line of the chapter loses its line feed and is none.
-/

namespace Dashboard.Markdown

/-! ## Taking the chapter -/

section Taking

variable {pre body rest chapter : List Char}

/-- A chapter without its heading, and what follows it: no line of the chapter starts the
next one, and that starts a line. -/
structure ChapterThen (body rest : List Char) : Prop where
  no_chapter : ∀ p ∈ Text.pieces body, ¬"## ".toList <+: p
  next : rest = [] ∨ Text.EndsLine body ∧ "## ".toList <+: rest

theorem splitAt?_widgetsHeading
    (hpre : Text.EndsLine pre)
    (hnot : ¬widgetsHeading <:+: pre)
    (text : List Char) :
    Text.splitAt? widgetsHeading (pre ++ widgetsHeading ++ text) = some (pre, text) := by
  have hne : widgetsHeading ≠ [] := by decide
  have hfeed : '\n' ∉ widgetsHeading := by decide
  rw [Text.splitAt?_eq_some_iff hne]
  refine ⟨rfl, ?_⟩
  rw [List.dropLast_append_of_ne_nil hne]
  by_cases hnil : pre = []
  · subst hnil
    exact Text.not_infix_dropLast hne
  · obtain ⟨u, rfl⟩ := Text.exists_feed_of_endsLine hpre hnil
    rw [List.append_assoc, List.singleton_append, Text.infix_append_feed_iff hfeed, not_or]
    refine ⟨fun h => hnot ?_, Text.not_infix_dropLast hne⟩
    exact h.trans (List.prefix_append u _).isInfix

theorem not_infix_of_no_chapter
    (h : ∀ p ∈ Text.pieces body, ¬"## ".toList <+: p) :
    ¬"\n## ".toList <:+: '\n' :: body := by
  intro hinfix
  have hne : "## ".toList ≠ [] := by decide
  obtain ⟨p, hp, hstart⟩ := (Text.exists_prefix_piece_iff hne (by decide) body).2 hinfix
  exact h p hp hstart

/-- The chapter is cut at the line feed in front of the next one. -/
theorem splitAt?_next
    (h : ∀ p ∈ Text.pieces body, ¬"## ".toList <+: p)
    (hends : Text.EndsLine body)
    (more : List Char) :
    Text.splitAt? "\n## ".toList ('\n' :: (body ++ ("## ".toList ++ more))) =
      some (('\n' :: body).dropLast, more) := by
  have hne : "\n## ".toList ≠ [] := by decide
  have hmarks : '\n' ∉ "## ".toList := by decide
  obtain ⟨v, hv⟩ := Text.exists_feed_of_feed_cons hends
  rw [← List.cons_append, hv, List.dropLast_concat, Text.splitAt?_eq_some_iff hne]
  refine ⟨by simp, fun hinfix => ?_⟩
  rw [List.dropLast_append_of_ne_nil hne] at hinfix
  rcases Text.feed_infix_append_feed hmarks hinfix with hinfix | hinfix
  · refine not_infix_of_no_chapter h ?_
    rw [hv]
    exact hinfix.trans (List.prefix_append v _).isInfix
  · exact Text.not_infix_dropLast hne hinfix

theorem widgetsChapter?_of_no_occurrence
    (hpre : Text.EndsLine pre)
    (hnot : ¬widgetsHeading <:+: pre)
    (h : ChapterThen body rest) :
    widgetsChapter? (pre ++ widgetsHeading ++ '\n' :: (body ++ rest)) =
      some (widgetsHeading ++
        if rest = [] then '\n' :: body else ('\n' :: body).dropLast) := by
  rcases h.next with rfl | ⟨hends, more, rfl⟩
  · have hnone := (Text.splitAt?_eq_none_iff (by decide)).2 (not_infix_of_no_chapter h.no_chapter)
    simp only [widgetsChapter?, splitAt?_widgetsHeading hpre hnot, Option.bind_eq_bind,
      Option.bind_some, Option.pure_def, List.append_nil, hnone, if_true]
  · have hmarks : "## ".toList ++ more ≠ [] := by simp
    simp only [widgetsChapter?, splitAt?_widgetsHeading hpre hnot, Option.bind_eq_bind,
      Option.bind_some, Option.pure_def, splitAt?_next h.no_chapter hends, hmarks, if_false]

/-- A place that reads like the heading in front of the chapter takes its part. -/
theorem exists_widgetsChapter?_of_occurrence
    (hpre : Text.EndsLine pre)
    (h : widgetsHeading <:+: pre) :
    ∃ chapter, ∀ text, widgetsChapter? (pre ++ widgetsHeading ++ text) = some chapter := by
  have hne : widgetsHeading ≠ [] := by decide
  have hnext : "\n## ".toList ≠ [] := by decide
  cases hsplit : Text.splitAt? widgetsHeading pre with
  | none =>
      exact absurd h ((Text.splitAt?_eq_none_iff hne).1 hsplit)
  | some r =>
      obtain ⟨before, after⟩ := r
      obtain ⟨v, rfl⟩ : ∃ v, after = v ++ ['\n'] := by
        rw [Text.eq_append_of_splitAt? hsplit] at hpre
        refine Text.exists_feed_of_endsLine hpre.of_append ?_
        rintro rfl
        rw [List.append_nil] at hpre
        have hletter : ¬Text.EndsLine widgetsHeading := by decide
        exact hletter hpre.of_append
      have hwidgets : '\n' :: widgetsHeading = "\n## ".toList ++ "Widgets".toList := by
        decide
      cases hcut : Text.splitAt? "\n## ".toList (v ++ "\n## ".toList) with
      | none =>
          refine absurd ?_ ((Text.splitAt?_eq_none_iff hnext).1 hcut)
          exact (List.suffix_append v _).isInfix
      | some r =>
          obtain ⟨part, more⟩ := r
          refine ⟨widgetsHeading ++ part, fun text => ?_⟩
          have hbehind : v ++ ['\n'] ++ (widgetsHeading ++ text) =
              v ++ "\n## ".toList ++ ("Widgets".toList ++ text) := by
            rw [List.append_assoc, List.singleton_append, ← List.cons_append, hwidgets]
            simp only [List.append_assoc]
          have hwhole := Text.splitAt?_append hne hsplit (widgetsHeading ++ text)
          rw [← List.append_assoc, hbehind] at hwhole
          simp only [widgetsChapter?, hwhole, Option.bind_eq_bind, Option.bind_some,
            Text.splitAt?_append hnext hcut, Option.pure_def]

end Taking

/-! ## Documentation and line feeds -/

section Documentation

variable {s t : Section}

theorem docOf?_eq_of_docText
    (hname : s.name = t.name)
    (htext : docText s = docText t) :
    docOf? s = docOf? t := by
  rw [docOf?, docOf?, hname, htext]

/-- One more line feed behind the sections changes no documentation. -/
theorem filterMap_docOf?_addFeed
    (before : List Char)
    (found : List Section) :
    (addFeed before found).2.filterMap docOf? = found.filterMap docOf? := by
  induction found generalizing before with
  | nil =>
      rfl
  | cons s found ih =>
      have htext : docText ⟨s.heading, s.name, (addFeed s.body found).1⟩ = docText s := by
        rcases addFeed_fst s.body found with hbody | hbody
        · rw [hbody]
        · rw [hbody, docText, Text.trimChars_dedentChars_concat, docText]
      have hdoc := docOf?_eq_of_docText
        (s := ⟨s.heading, s.name, (addFeed s.body found).1⟩) (t := s) rfl htext
      rw [addFeed, List.filterMap_cons, List.filterMap_cons, ih, hdoc]

theorem filterMap_docOf?_concat
    {text : List Char}
    (h : ¬EndsInHeading (sections "###" (text ++ ['\n']))) :
    (sections "###" (text ++ ['\n'])).filterMap docOf? =
      (sections "###" text).filterMap docOf? := by
  have hsplit := (splitFrom_concat (by decide) (by decide) true text).resolve_left h
  rw [sections, hsplit, filterMap_docOf?_addFeed, sections]

end Documentation

/-! ## The chapter in a document -/

section Document

variable {pre body rest : String}

/-- The widgets of a document are those of its chapter. -/
theorem widgets_of_widgetsChapter?
    {text : String}
    {chapter : List Char}
    (h : widgetsChapter? text.toList = some chapter) :
    widgets text =
      sortByType (firstOfType [] ((sections "###" chapter).filterMap docOf?)) := by
  rw [widgets, h]

theorem toList_heading : "## Widgets\n".toList = widgetsHeading ++ ['\n'] := by
  decide

/-- A document of the chapter, and texts in front of it and behind it. -/
theorem toList_around (pre body rest : String) :
    (pre ++ "## Widgets\n" ++ body ++ rest).toList =
      pre.toList ++ widgetsHeading ++ '\n' :: (body.toList ++ rest.toList) := by
  simp only [String.toList_append, toList_heading, List.append_assoc, List.cons_append,
    List.nil_append]

theorem toList_alone (body : String) :
    ("## Widgets\n" ++ body).toList = widgetsHeading ++ '\n' :: body.toList := by
  rw [String.toList_append, toList_heading, List.append_assoc, List.singleton_append]

theorem widgets_alone
    (h : ∀ p ∈ Text.pieces body.toList, ¬"## ".toList <+: p) :
    widgets ("## Widgets\n" ++ body) =
      sortByType (firstOfType []
        ((sections "###" ("## Widgets\n" ++ body).toList).filterMap docOf?)) := by
  have hnil : Text.EndsLine [] := by decide
  have hchapter := widgetsChapter?_of_no_occurrence hnil (by decide) ⟨h, .inl rfl⟩
  rw [List.nil_append, if_pos rfl, List.append_nil, ← toList_alone] at hchapter
  exact widgets_of_widgetsChapter? hchapter

/-- With no such heading in front of it, the chapter counts as it does alone. -/
theorem widgets_of_no_occurrence
    (hpre : Text.EndsLine pre.toList)
    (hnot : ¬widgetsHeading <:+: pre.toList)
    (h : ChapterThen body.toList rest.toList)
    (hlast : rest = "" ∨ ¬EndsInHeading (sections "###" ("## Widgets\n" ++ body).toList)) :
    widgets (pre ++ "## Widgets\n" ++ body ++ rest) = widgets ("## Widgets\n" ++ body) := by
  have hwhole := widgetsChapter?_of_no_occurrence hpre hnot h
  rw [← toList_around] at hwhole
  rw [widgets_of_widgetsChapter? hwhole, widgets_alone h.no_chapter]
  split
  · rw [toList_alone]
  · next hrest =>
      have hlast := hlast.resolve_left fun heq => hrest (by rw [heq]; rfl)
      -- the line feed in front of the next chapter is the last one of the chapter alone
      have htext : ("## Widgets\n" ++ body).toList =
          widgetsHeading ++ ('\n' :: body.toList).dropLast ++ ['\n'] := by
        obtain ⟨v, hv⟩ := Text.exists_feed_of_feed_cons (h.next.resolve_left hrest).1
        rw [toList_alone, hv, List.dropLast_concat, List.append_assoc]
      rw [htext] at hlast ⊢
      rw [filterMap_docOf?_concat hlast]

/-- With such a heading in front of it, the chapter does not count at all. -/
theorem widgets_of_occurrence
    (hpre : Text.EndsLine pre.toList)
    (h : widgetsHeading <:+: pre.toList)
    (body rest body' rest' : String) :
    widgets (pre ++ "## Widgets\n" ++ body ++ rest) =
      widgets (pre ++ "## Widgets\n" ++ body' ++ rest') := by
  obtain ⟨chapter, hchapter⟩ := exists_widgetsChapter?_of_occurrence hpre h
  have hwhole : ∀ body rest : String,
      widgetsChapter? (pre ++ "## Widgets\n" ++ body ++ rest).toList = some chapter := by
    intro body rest
    rw [toList_around]
    exact hchapter _
  rw [widgets_of_widgetsChapter? (hwhole body rest),
    widgets_of_widgetsChapter? (hwhole body' rest')]

/-- A widget that is declared below its heading. -/
def clockBody : String :=
  "### Clock\n- type: clock\n"

/-- The widgets of every chapter behind a text are those of the chapter alone, exactly if
the text has nowhere what reads like the heading of the chapter.  Another chapter may
follow, unless a heading is the last line in front of it. -/
theorem widgets_of_chapter_iff
    (hpre : Text.EndsLine pre.toList) :
    (∀ body rest, ChapterThen body.toList rest.toList →
      rest = "" ∨ ¬EndsInHeading (sections "###" ("## Widgets\n" ++ body).toList) →
      widgets (pre ++ "## Widgets\n" ++ body ++ rest) = widgets ("## Widgets\n" ++ body)) ↔
      ¬widgetsHeading <:+: pre.toList := by
  constructor
  · intro hall hinfix
    have hempty := hall "" "" ⟨by decide, .inl rfl⟩ (.inl rfl)
    have hclock := hall clockBody "" ⟨by decide +kernel, .inl rfl⟩ (.inl rfl)
    rw [widgets_of_occurrence hpre hinfix clockBody "" "" "", hempty] at hclock
    exact absurd hclock (by decide +kernel)
  · intro hnot body rest h hlast
    exact widgets_of_no_occurrence hpre hnot h hlast

/-- What is documented of that widget. -/
def clockWidget : WidgetDoc where
  name := "Clock"
  type := "clock"
  markdown := "- type: clock"
  example? := none

/-- Between other chapters the clock is found. -/
theorem widgets_clock_between :
    Text.EndsLine "# Pages\n\n".toList ∧
      ChapterThen clockBody.toList "## Branding\n".toList ∧
      widgets ("# Pages\n\n" ++ "## Widgets\n" ++ clockBody ++ "## Branding\n") =
        [clockWidget] := by
  have hpre : Text.EndsLine "# Pages\n\n".toList := by decide +kernel
  have hchapter : ChapterThen clockBody.toList "## Branding\n".toList :=
    ⟨by decide +kernel, .inr ⟨by decide +kernel, by decide +kernel⟩⟩
  have hlast : ¬EndsInHeading (sections "###" ("## Widgets\n" ++ clockBody).toList) := by
    decide +kernel
  refine ⟨hpre, hchapter, ?_⟩
  rw [(widgets_of_chapter_iff hpre).2 (by decide +kernel) clockBody _ hchapter (.inr hlast)]
  decide +kernel

/-- Behind a heading of a lower level the chapter is empty, although no line in front of it
is its heading; and a heading right in front of the next chapter goes into the text of the
widget before. -/
theorem not_widgets_of_chapter :
    (Text.EndsLine "### Widgets\n\n".toList ∧
      (∀ p ∈ Text.pieces "### Widgets\n\n".toList, ¬widgetsHeading <+: p) ∧
      ChapterThen clockBody.toList [] ∧
      widgets ("### Widgets\n\n" ++ "## Widgets\n" ++ clockBody ++ "") = [] ∧
      widgets ("## Widgets\n" ++ clockBody) = [clockWidget]) ∧
    ChapterThen (clockBody ++ "### Calendar\n").toList "## Branding\n".toList ∧
      widgets ("" ++ "## Widgets\n" ++ (clockBody ++ "### Calendar\n") ++ "## Branding\n") =
        [{ clockWidget with markdown := "- type: clock\n### Calendar" }] ∧
      widgets ("## Widgets\n" ++ (clockBody ++ "### Calendar\n")) = [clockWidget] := by
  refine ⟨⟨by decide +kernel, by decide +kernel, ⟨by decide +kernel, .inl rfl⟩,
    by decide +kernel, by decide +kernel⟩, ⟨by decide +kernel, .inr ⟨by decide +kernel,
    by decide +kernel⟩⟩, by decide +kernel, by decide +kernel⟩

end Document

end Dashboard.Markdown
