import Dashboard.Markdown.Section
import Dashboard.Proofs.Text.Search
import Dashboard.Proofs.Text.Trimming

/-!
# Sections line by line

A heading whose marks have a name behind them in their line is that line.  Where all
headings are such, a text is split into its sections line by line, and complete lines in
front of a text are split on their own (`splitFrom_append`).  One more line feed at the end
of a text goes to its last section, unless it ends a heading (`splitFrom_concat`).
-/

namespace Dashboard.Markdown

variable {marks : List Char}

/-! ## Headings in a line -/

/-- A line of the marks of a heading without a name. -/
def isUnnamed (marks line : List Char) : Bool :=
  (Text.dropPrefix? marks line).any fun rest => rest.all Text.isBlank

/-- The name in a heading line: it is behind at least one blank, and not blank. -/
def headingName? (marks line : List Char) : Option String :=
  (Text.dropPrefix? marks line).bind fun rest =>
    if rest.head?.any Text.isBlank && !rest.all Text.isBlank then
      some (Text.trim (String.ofList rest))
    else none

/-- Put a line in front of what the lines below it are split into. -/
def putLine (marks line : List Char) (r : List Char × List Section) :
    List Char × List Section :=
  match headingName? marks line with
  | some name => ([], ⟨line, name, r.1⟩ :: r.2)
  | none => (line ++ r.1, r.2)

/-- The sections of a text, of which each heading is a line with a name. -/
def lineSections (marks text : List Char) : List Section :=
  ((Text.pieces text).foldr (putLine marks) ([], [])).2

theorem exists_blanks
    {r : List Char}
    (h : r.all Text.isBlank = false) :
    ∃ blanks d name, r = blanks ++ d :: name ∧ (∀ c ∈ blanks, Text.isBlank c = true) ∧
      Text.isBlank d = false := by
  induction r with
  | nil =>
      cases h
  | cons c r ih =>
      by_cases hc : Text.isBlank c = true
      · obtain ⟨blanks, d, name, rfl, hblanks, hd⟩ := ih (by simpa [hc] using h)
        exact ⟨c :: blanks, d, name, rfl, List.forall_mem_cons.2 ⟨hc, hblanks⟩, hd⟩
      · exact ⟨[], c, r, rfl, List.forall_mem_nil _, by simpa using hc⟩

theorem nameLine?_append_feed
    {d : Char}
    {name : List Char}
    (h : '\n' ∉ d :: name)
    (rest : List Char) :
    nameLine? (d :: name ++ '\n' :: rest) = some (d :: name, rest) := by
  rw [List.mem_cons, not_or] at h
  have hname : ∀ c ∈ name, (c != '\n') = true := by
    intro c hc
    rw [bne_iff_ne]
    rintro rfl
    exact h.2 hc
  have hstop : ¬('\n' != '\n') = true := by decide
  rw [List.cons_append, nameLine?, if_neg (by simpa using Ne.symm h.1),
    List.dropWhile_append_of_pos hname, List.takeWhile_append_of_pos hname,
    List.dropWhile_cons_of_neg (p := (· != '\n')) hstop,
    List.takeWhile_cons_of_neg (p := (· != '\n')) hstop, List.append_nil]

/-- Marks, blanks and a name are a heading. -/
theorem heading?_named
    {blanks name : List Char}
    {d : Char}
    (hne : blanks ≠ [])
    (hblanks : ∀ c ∈ blanks, Text.isBlank c = true)
    (hd : Text.isBlank d = false)
    (hname : '\n' ∉ name)
    (rest : List Char) :
    heading? marks (marks ++ (blanks ++ d :: name) ++ '\n' :: rest) =
      some (marks ++ (blanks ++ d :: name) ++ ['\n'], d :: name, rest) := by
  have hfeed : '\n' ∉ d :: name := by
    rw [List.mem_cons, not_or]
    refine ⟨?_, hname⟩
    rintro rfl
    cases hd
  have hstop : ¬Text.isBlank d = true := by
    simp [hd]
  have hdrop : Text.dropPrefix? marks (marks ++ (blanks ++ d :: name) ++ '\n' :: rest) =
      some (blanks ++ (d :: name ++ '\n' :: rest)) := by
    rw [Text.dropPrefix?_eq_some_iff]
    simp
  obtain ⟨b, bs, hlast⟩ := List.exists_cons_of_ne_nil (by simpa using hne : blanks.reverse ≠ [])
  have hsplit : splitName? blanks.reverse (d :: name ++ '\n' :: rest) =
      some (blanks, d :: name, rest) := by
    rw [hlast, splitName?, nameLine?_append_feed hfeed, ← hlast, List.reverse_reverse]
  simp only [heading?, hdrop, Option.bind_eq_bind, Option.bind_some,
    List.takeWhile_append_of_pos hblanks, List.dropWhile_append_of_pos hblanks]
  rw [List.cons_append, List.takeWhile_cons_of_neg hstop, List.dropWhile_cons_of_neg hstop,
    List.append_nil, ← List.cons_append, hsplit]
  simp

/-- The name in the line of that heading is the same, without the blanks around it. -/
theorem headingName?_named
    {blanks name : List Char}
    {d : Char}
    (hne : blanks ≠ [])
    (hblanks : ∀ c ∈ blanks, Text.isBlank c = true)
    (hd : Text.isBlank d = false) :
    headingName? marks (marks ++ (blanks ++ d :: name) ++ ['\n']) =
      some (Text.trim (String.ofList (d :: name))) := by
  have hdrop : Text.dropPrefix? marks (marks ++ (blanks ++ d :: name) ++ ['\n']) =
      some (blanks ++ d :: name ++ ['\n']) := by
    rw [List.append_assoc, Text.dropPrefix?_append]
  have hfirst : (blanks ++ d :: name ++ ['\n']).head?.any Text.isBlank = true := by
    obtain ⟨b, bs, rfl⟩ := List.exists_cons_of_ne_nil hne
    exact hblanks b List.mem_cons_self
  have hnamed : (blanks ++ d :: name ++ ['\n']).all Text.isBlank = false := by
    simp [hd]
  rw [headingName?, hdrop, Option.bind_some, hfirst, hnamed, Bool.not_false, Bool.true_and,
    if_pos rfl, Text.trim, Text.trim, String.toList_ofList, String.toList_ofList,
    Text.trimChars_concat_feed, Text.trimChars_of_blank_append hblanks]

theorem heading?_of_not_started
    {text : List Char}
    (h : ¬marks <+: text) :
    heading? marks text = none := by
  rw [heading?, Text.dropPrefix?_eq_none_iff.2 h]
  rfl

/-- Marks right before something else are no heading. -/
theorem heading?_unblank
    {d : Char}
    (hd : Text.isBlank d = false)
    (text : List Char) :
    heading? marks (marks ++ d :: text) = none := by
  have hstop : ¬Text.isBlank d = true := by
    simp [hd]
  simp only [heading?, Text.dropPrefix?_append, Option.bind_eq_bind, Option.bind_some,
    List.takeWhile_cons_of_neg hstop, List.reverse_nil, splitName?, Option.bind_none]

/-- A heading ends its line. -/
theorem exists_feed_of_heading?
    {text whole name rest : List Char}
    (h : heading? marks text = some (whole, name, rest)) :
    ∃ u, whole = u ++ ['\n'] := by
  simp only [heading?, Option.bind_eq_bind, Option.bind_eq_some_iff, Option.pure_def,
    Option.some.injEq, Prod.mk.injEq] at h
  obtain ⟨-, -, ⟨blanks, n, after⟩, -, rfl, -, -⟩ := h
  exact ⟨marks ++ blanks ++ n, rfl⟩

theorem heading?_eq_none_of_no_feed
    {text : List Char}
    (h : '\n' ∉ text) :
    heading? marks text = none := by
  rw [Option.eq_none_iff_forall_ne_some]
  rintro ⟨whole, name, rest⟩ hheading
  obtain ⟨u, rfl⟩ := exists_feed_of_heading? hheading
  rw [heading?_eq hheading] at h
  simp at h

/-- A line that is not marks alone is a heading with the text that follows, or without. -/
theorem heading?_line
    {l : List Char}
    (hmarks : '\n' ∉ marks)
    (hl : '\n' ∉ l)
    (hnamed : isUnnamed marks (l ++ ['\n']) = false)
    (rest : List Char) :
    headingName? marks (l ++ ['\n']) = none ∧ heading? marks (l ++ '\n' :: rest) = none ∨
      ∃ name, headingName? marks (l ++ ['\n']) = some (Text.trim (String.ofList name)) ∧
        heading? marks (l ++ '\n' :: rest) = some (l ++ ['\n'], name, rest) := by
  by_cases hstart : marks <+: l
  · obtain ⟨r, rfl⟩ := hstart
    have hdrop : Text.dropPrefix? marks (marks ++ r ++ ['\n']) = some (r ++ ['\n']) := by
      rw [List.append_assoc, Text.dropPrefix?_append]
    have hsome : r.all Text.isBlank = false := by
      rwa [isUnnamed, hdrop, Option.any_some, Text.all_isBlank_concat] at hnamed
    obtain ⟨blanks, d, name, rfl, hblanks, hd⟩ := exists_blanks hsome
    by_cases hne : blanks = []
    · subst hne
      refine .inl ⟨?_, ?_⟩
      · rw [headingName?, hdrop, Option.bind_some, if_neg (by simp [hd])]
      · rw [List.nil_append, List.append_assoc]
        exact heading?_unblank hd _
    · have hname : '\n' ∉ name := fun h => hl (by simp [h])
      exact .inr ⟨d :: name, headingName?_named hne hblanks hd,
        heading?_named hne hblanks hd hname rest⟩
  · refine .inl ⟨?_, heading?_of_not_started ?_⟩
    · have hline : ¬marks <+: l ++ ['\n'] :=
        fun h => hstart ((Text.prefix_line_iff hmarks l []).1 h)
      rw [headingName?, Text.dropPrefix?_eq_none_iff.2 hline, Option.bind_none]
    · exact fun h => hstart ((Text.prefix_line_iff hmarks l rest).1 h)

/-! ## Splitting line by line -/

theorem splitFrom_of_heading
    {text whole name rest : List Char}
    (h : heading? marks text = some (whole, name, rest)) :
    splitFrom marks true text =
      ([], ⟨whole, Text.trim (String.ofList name), (splitFrom marks true rest).1⟩ ::
        (splitFrom marks true rest).2) := by
  obtain ⟨c, cs, rfl⟩ : ∃ c cs, text = c :: cs := by
    refine List.exists_cons_of_ne_nil ?_
    rw [heading?_eq h]
    simp [heading?_ne_nil h]
  rw [splitFrom]
  split
  · next heq =>
      rw [if_pos rfl, h] at heq
      cases heq
      rfl
  · next heq =>
      rw [if_pos rfl, h] at heq
      cases heq

theorem splitFrom_of_none
    {lineStart : Bool}
    {c : Char}
    {cs : List Char}
    (h : (if lineStart then heading? marks (c :: cs) else none) = none) :
    splitFrom marks lineStart (c :: cs) =
      (c :: (splitFrom marks (c == '\n') cs).1, (splitFrom marks (c == '\n') cs).2) := by
  rw [splitFrom]
  split
  · next heq =>
      rw [h] at heq
      cases heq
  · rfl

/-- Inside a line there is no heading. -/
theorem splitFrom_inside_line
    {l : List Char}
    (hl : '\n' ∉ l)
    (rest : List Char) :
    splitFrom marks false (l ++ '\n' :: rest) =
      (l ++ '\n' :: (splitFrom marks true rest).1, (splitFrom marks true rest).2) := by
  induction l with
  | nil =>
      exact splitFrom_of_none rfl
  | cons c l ih =>
      rw [List.mem_cons, not_or] at hl
      have hc : (c == '\n') = false := by
        simpa using Ne.symm hl.1
      rw [List.cons_append, splitFrom_of_none rfl, hc, ih hl.2, List.cons_append]

theorem splitFrom_of_no_feed
    {l : List Char}
    (hl : '\n' ∉ l)
    (lineStart : Bool) :
    splitFrom marks lineStart l = (l, []) := by
  induction l generalizing lineStart with
  | nil =>
      rw [splitFrom]
  | cons c l ih =>
      have hnone : (if lineStart then heading? marks (c :: l) else none) = none := by
        rw [heading?_eq_none_of_no_feed hl, ite_self]
      rw [splitFrom_of_none hnone, ih (List.not_mem_of_not_mem_cons hl)]

variable {a text : List Char}

theorem splitFrom_line
    {l : List Char}
    (hmarks : '\n' ∉ marks)
    (hl : '\n' ∉ l)
    (hnamed : isUnnamed marks (l ++ ['\n']) = false)
    (rest : List Char) :
    splitFrom marks true (l ++ '\n' :: rest) =
      putLine marks (l ++ ['\n']) (splitFrom marks true rest) := by
  rw [putLine]
  rcases heading?_line hmarks hl hnamed rest with ⟨hname, hnone⟩ | ⟨name, hname, hsome⟩
  · rw [hname]
    cases l with
    | nil =>
        exact splitFrom_of_none (by rwa [if_pos rfl])
    | cons c l =>
        rw [List.mem_cons, not_or] at hl
        have hc : (c == '\n') = false := by
          simpa using Ne.symm hl.1
        rw [List.cons_append, splitFrom_of_none (by rwa [if_pos rfl]), hc,
          splitFrom_inside_line hl.2]
        simp
  · rw [hname, splitFrom_of_heading hsome]

/-- Complete lines are put in front of what the rest is split into, one by one. -/
theorem splitFrom_append
    (hmarks : '\n' ∉ marks)
    (ha : Text.CompleteLines a)
    (hnamed : ∀ p ∈ Text.pieces a, isUnnamed marks p = false)
    (b : List Char) :
    splitFrom marks true (a ++ b) =
      (Text.pieces a).foldr (putLine marks) (splitFrom marks true b) := by
  induction ha with
  | nil =>
      rfl
  | @line l rest hl hrest ih =>
      rw [Text.pieces_append_feed hl] at hnamed ⊢
      rw [List.append_assoc, List.cons_append,
        splitFrom_line hmarks hl (hnamed _ List.mem_cons_self),
        ih fun p hp => hnamed p (List.mem_cons_of_mem _ hp), List.foldr_cons]

theorem foldr_putLine
    (lines : List (List Char))
    (more : List Section) :
    lines.foldr (putLine marks) ([], more) =
      ((lines.foldr (putLine marks) ([], [])).1,
        (lines.foldr (putLine marks) ([], [])).2 ++ more) := by
  induction lines with
  | nil =>
      rfl
  | cons l lines ih =>
      rw [List.foldr_cons, List.foldr_cons, ih, putLine, putLine]
      cases headingName? marks l <;> rfl

/-- The sections in front of a heading are those without it. -/
theorem splitFrom_append_heading
    {b whole name rest : List Char}
    (hmarks : '\n' ∉ marks)
    (ha : Text.CompleteLines a)
    (hnamed : ∀ p ∈ Text.pieces a, isUnnamed marks p = false)
    (hb : heading? marks b = some (whole, name, rest)) :
    (splitFrom marks true (a ++ b)).2 =
      (splitFrom marks true a).2 ++ (splitFrom marks true b).2 := by
  have halone := splitFrom_append hmarks ha hnamed []
  have hfirst : splitFrom marks true b = ([], (splitFrom marks true b).2) := by
    rw [splitFrom_of_heading hb]
  rw [List.append_nil, splitFrom] at halone
  rw [splitFrom_append hmarks ha hnamed b, hfirst, foldr_putLine, ← halone]

/-- Sections are found line by line, if every heading line has a name and the last one of
them its line feed. -/
theorem splitFrom_eq_lineSections
    (hmarks : '\n' ∉ marks)
    (hnamed : ∀ p ∈ Text.pieces text, isUnnamed marks p = false)
    (hlast : Text.EndsLine text ∨
      ∀ l ∈ (Text.pieces text).getLast?, headingName? marks l = none) :
    (splitFrom marks true text).2 = lineSections marks text := by
  obtain ⟨a, l, rfl, ha, hl⟩ := Text.exists_complete text
  rw [Text.pieces_append ha] at hnamed hlast
  rw [splitFrom_append hmarks ha (fun p hp => hnamed p (List.mem_append_left _ hp)),
    splitFrom_of_no_feed hl, lineSections, Text.pieces_append ha, List.foldr_append]
  by_cases hnil : l = []
  · rw [hnil]
    rfl
  · have hpieces := Text.pieces_of_no_feed hnil hl
    have hname : headingName? marks l = none := by
      rcases hlast with hends | hlast
      · exact absurd (Text.eq_nil_of_endsLine hends hl) hnil
      · exact hlast l (by rw [hpieces, List.getLast?_concat]; rfl)
    rw [hpieces, List.foldr_cons, List.foldr_nil, putLine, hname, List.append_nil]

/-! ## One more line feed -/

section Feed

/-- One more line feed at the end of what a text is split into. -/
def addFeed (before : List Char) : List Section → List Char × List Section
  | [] => (before ++ ['\n'], [])
  | s :: more =>
    (before, ⟨s.heading, s.name, (addFeed s.body more).1⟩ :: (addFeed s.body more).2)

/-- The last section is its heading alone. -/
def EndsInHeading (found : List Section) : Prop :=
  ∃ s ∈ found.getLast?, s.body = []

instance (found : List Section) : Decidable (EndsInHeading found) :=
  inferInstanceAs (Decidable (∃ s ∈ found.getLast?, s.body = []))

theorem addFeed_cons
    (c : Char)
    (before : List Char)
    (more : List Section) :
    addFeed (c :: before) more = (c :: (addFeed before more).1, (addFeed before more).2) := by
  cases more <;> rfl

/-- The text before the sections gets the line feed, or keeps as it is. -/
theorem addFeed_fst
    (before : List Char)
    (more : List Section) :
    (addFeed before more).1 = before ∨ (addFeed before more).1 = before ++ ['\n'] := by
  cases more with
  | nil =>
      exact .inr rfl
  | cons s more =>
      exact .inl rfl

theorem EndsInHeading.cons
    {found : List Section}
    (h : EndsInHeading found)
    (s : Section) :
    EndsInHeading (s :: found) := by
  obtain ⟨t, ht, hbody⟩ := h
  refine ⟨t, ?_, hbody⟩
  rw [List.getLast?_cons, Option.mem_def.1 ht]
  rfl

theorem nameLine?_concat (text : List Char) :
    (∃ name, nameLine? (text ++ ['\n']) = some (name, [])) ∨
      nameLine? (text ++ ['\n']) = (nameLine? text).map fun r => (r.1, r.2 ++ ['\n']) := by
  by_cases hfeed : '\n' ∈ text
  · obtain ⟨l, rest, rfl, hl⟩ := List.eq_append_cons_of_mem hfeed
    refine .inr ?_
    rw [List.append_assoc, List.cons_append]
    cases l with
    | nil =>
        rfl
    | cons d l =>
        rw [nameLine?_append_feed hl, nameLine?_append_feed hl, Option.map_some]
  · cases text with
    | nil =>
        exact .inr rfl
    | cons d l =>
        exact .inl ⟨d :: l, nameLine?_append_feed hfeed []⟩

theorem splitName?_concat (blanks text : List Char) :
    (∃ used name, splitName? blanks (text ++ ['\n']) = some (used, name, [])) ∨
      splitName? blanks (text ++ ['\n']) =
        (splitName? blanks text).map fun r => (r.1, r.2.1, r.2.2 ++ ['\n']) := by
  induction blanks generalizing text with
  | nil =>
      exact .inr rfl
  | cons b blanks ih =>
      rw [splitName?, splitName?]
      rcases nameLine?_concat text with ⟨name, hname⟩ | hname
      · rw [hname]
        exact .inl ⟨_, name, rfl⟩
      · rw [hname]
        cases nameLine? text with
        | some r =>
            exact .inr rfl
        | none =>
            exact ih (b :: text)

/-- One more line feed is one blank more, or stands behind what is not blank. -/
theorem splitName?_blanks_concat (rest : List Char) :
    splitName? ((rest ++ ['\n']).takeWhile Text.isBlank).reverse
        ((rest ++ ['\n']).dropWhile Text.isBlank) =
      splitName? (rest.takeWhile Text.isBlank).reverse
        (rest.dropWhile Text.isBlank ++ ['\n']) := by
  by_cases hall : rest.all Text.isBlank = true
  · have hblanks : ∀ c ∈ rest, Text.isBlank c = true := List.all_eq_true.1 hall
    have htake : (rest ++ []).takeWhile Text.isBlank = rest ++ [].takeWhile Text.isBlank :=
      List.takeWhile_append_of_pos hblanks
    rw [List.append_nil, List.takeWhile_nil, List.append_nil] at htake
    have hnil : rest.dropWhile Text.isBlank = [] := Text.dropBlanks_eq_nil hblanks
    have hfeed : Text.isBlank '\n' = true := by decide
    rw [List.takeWhile_append_of_pos hblanks, List.dropWhile_append_of_pos hblanks, htake,
      hnil, List.takeWhile_cons_of_pos hfeed, List.dropWhile_cons_of_pos hfeed,
      List.reverse_append]
    rfl
  · obtain ⟨blanks, d, name, rfl, hblanks, hd⟩ := exists_blanks (by simpa using hall)
    have hstop : ¬Text.isBlank d = true := by
      simp [hd]
    simp only [List.append_assoc, List.takeWhile_append_of_pos hblanks,
      List.dropWhile_append_of_pos hblanks, List.cons_append,
      List.takeWhile_cons_of_neg hstop, List.dropWhile_cons_of_neg hstop]

/-- With one more line feed a heading is the same, or it is what the text ends with. -/
theorem heading?_concat
    (hmarks : '\n' ∉ marks)
    (text : List Char) :
    (∃ whole name, heading? marks (text ++ ['\n']) = some (whole, name, [])) ∨
      heading? marks (text ++ ['\n']) =
        (heading? marks text).map fun r => (r.1, r.2.1, r.2.2 ++ ['\n']) := by
  by_cases hstart : marks <+: text
  · obtain ⟨rest, rfl⟩ := hstart
    simp only [heading?, List.append_assoc, Text.dropPrefix?_append, Option.bind_eq_bind,
      Option.bind_some, splitName?_blanks_concat]
    rcases splitName?_concat (rest.takeWhile Text.isBlank).reverse
      (rest.dropWhile Text.isBlank) with ⟨used, name, hname⟩ | hname
    · rw [hname]
      exact .inl ⟨_, name, rfl⟩
    · rw [hname]
      refine .inr ?_
      cases splitName? (rest.takeWhile Text.isBlank).reverse (rest.dropWhile Text.isBlank) <;> rfl
  · have hline : ¬marks <+: text ++ ['\n'] :=
      fun h => hstart ((Text.prefix_line_iff hmarks text []).1 h)
    rw [heading?_of_not_started hstart, heading?_of_not_started hline]
    exact .inr rfl

theorem heading?_feed
    (hmarks : '\n' ∉ marks)
    (hne : marks ≠ []) :
    heading? marks ['\n'] = none := by
  refine heading?_of_not_started fun h => hne ?_
  rw [← List.prefix_nil]
  exact (Text.prefix_line_iff hmarks [] []).1 h

theorem endsInHeading_of_heading?
    {text whole name : List Char}
    (h : heading? marks text = some (whole, name, [])) :
    EndsInHeading (splitFrom marks true text).2 := by
  rw [splitFrom_of_heading h, splitFrom]
  exact ⟨_, rfl, rfl⟩

/-- With one more line feed a text is split as before, unless it ends in a heading. -/
theorem splitFrom_concat
    (hmarks : '\n' ∉ marks)
    (hne : marks ≠ [])
    (lineStart : Bool)
    (text : List Char) :
    EndsInHeading (splitFrom marks lineStart (text ++ ['\n'])).2 ∨
      splitFrom marks lineStart (text ++ ['\n']) =
        addFeed (splitFrom marks lineStart text).1 (splitFrom marks lineStart text).2 := by
  fun_induction splitFrom marks lineStart text with
  | case1 lineStart =>
      have hnone : (if lineStart then heading? marks ['\n'] else none) = none := by
        rw [heading?_feed hmarks hne, ite_self]
      refine .inr ?_
      rw [List.nil_append, splitFrom_of_none hnone, splitFrom]
      rfl
  | case2 lineStart c cs whole name rest h body more hmore ih =>
      obtain ⟨rfl, hheading⟩ :
          lineStart = true ∧ heading? marks (c :: cs) = some (whole, name, rest) := by
        split at h
        · exact ⟨‹_›, h⟩
        · cases h
      rcases heading?_concat hmarks (c :: cs) with ⟨whole, name, hend⟩ | hsame
      · exact .inl (endsInHeading_of_heading? hend)
      · rw [hheading, Option.map_some] at hsame
        rw [splitFrom_of_heading hsame]
        rcases ih with hend | hfeed
        · exact .inl (hend.cons _)
        · rw [hmore] at hfeed
          rw [hfeed]
          exact .inr rfl
  | case3 lineStart c cs h before more hmore ih =>
      by_cases hend : lineStart = true ∧
          ∃ whole name, heading? marks (c :: cs ++ ['\n']) = some (whole, name, [])
      · obtain ⟨rfl, whole, name, hend⟩ := hend
        exact .inl (endsInHeading_of_heading? hend)
      · have hnone : (if lineStart then heading? marks (c :: (cs ++ ['\n'])) else none) = none := by
          cases lineStart with
          | false =>
              rfl
          | true =>
              have hsame := (heading?_concat hmarks (c :: cs)).resolve_left fun h => hend ⟨rfl, h⟩
              rw [dif_pos rfl] at h
              rw [if_pos rfl, ← List.cons_append, hsame, h, Option.map_none]
        rw [List.cons_append, splitFrom_of_none hnone]
        rw [hmore] at ih
        refine ih.imp_right fun hfeed => ?_
        rw [hfeed, addFeed_cons]

theorem not_endsInHeading_nil : ¬EndsInHeading [] := by
  rintro ⟨s, hs, -⟩
  cases hs

/-- Lines in front of a text that is no heading do not make the last section empty. -/
theorem not_endsInHeading_foldr
    {before : List Char}
    (hne : before ≠ [])
    (lines : List (List Char)) :
    ((lines.foldr (putLine marks) (before, [])).2 = [] →
      (lines.foldr (putLine marks) (before, [])).1 ≠ []) ∧
      ¬EndsInHeading (lines.foldr (putLine marks) (before, [])).2 := by
  induction lines with
  | nil =>
      exact ⟨fun _ => hne, not_endsInHeading_nil⟩
  | cons l lines ih =>
      obtain ⟨hbefore, hends⟩ := ih
      rw [List.foldr_cons, putLine]
      cases headingName? marks l with
      | none =>
          exact ⟨fun hnil => List.append_ne_nil_of_right_ne_nil l (hbefore hnil), hends⟩
      | some name =>
          refine ⟨fun hnil => absurd hnil (List.cons_ne_nil _ _), ?_⟩
          rintro ⟨s, hs, hbody⟩
          rw [List.getLast?_cons] at hs
          cases hlast : (lines.foldr (putLine marks) (before, [])).2.getLast? with
          | none =>
              rw [hlast] at hs
              obtain rfl := Option.some.inj hs
              exact hbefore (List.getLast?_eq_none_iff.1 hlast) hbody
          | some t =>
              rw [hlast] at hs
              obtain rfl := Option.some.inj hs
              exact hends ⟨_, hlast, hbody⟩

/-- A last line that is no heading is in a body, or in front of all sections. -/
theorem not_endsInHeading_lineSections
    (h : ∀ l ∈ (Text.pieces text).getLast?, headingName? marks l = none) :
    ¬EndsInHeading (lineSections marks text) := by
  rw [lineSections]
  rcases List.eq_nil_or_concat (Text.pieces text) with hnil | ⟨lines, l, hlines⟩
  · rw [hnil]
    exact not_endsInHeading_nil
  · rw [List.concat_eq_append] at hlines
    have hl : l ≠ [] := Text.ne_nil_of_mem_pieces (t := text) (by rw [hlines]; simp)
    have hname := h l (by rw [hlines, List.getLast?_concat]; rfl)
    rw [hlines, List.foldr_append, List.foldr_cons, List.foldr_nil, putLine, hname,
      List.append_nil]
    exact (not_endsInHeading_foldr hl lines).2

end Feed

end Dashboard.Markdown
