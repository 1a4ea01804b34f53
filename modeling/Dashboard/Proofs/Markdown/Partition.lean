import Dashboard.Markdown.Slices
import Dashboard.Proofs.Markdown.Sections

/-!
# Sections as a partition

The headings of a text are found from left to right, none overlaps another, and none is
left out.  What is cut out by their places is the whole text: the part before the first
heading, then each heading with its section.  All places are between characters.
-/

namespace Dashboard

/-! ## Slices -/

namespace Text

section Slices

variable {text front behind part : List Char} {n stop : Nat}

theorem size_nil : size [] = 0 :=
  rfl

theorem size_cons (c : Char) (cs : List Char) : size (c :: cs) = c.utf8Size + size cs :=
  rfl

theorem size_append (a b : List Char) : size (a ++ b) = size a + size b := by
  induction a with
  | nil =>
      rw [List.nil_append, size_nil, Nat.zero_add]
  | cons c a ih =>
      rw [List.cons_append, size_cons, size_cons, ih, Nat.add_assoc]

theorem size_eq_zero_iff : size text = 0 ↔ text = [] := by
  cases text with
  | nil =>
      simp [size_nil]
  | cons c cs =>
      simp [size_cons, Nat.ne_of_gt (Char.utf8Size_pos c)]

/-- A text is cut at a place if that many bytes are in front of it. -/
theorem cutAt?_eq_some_iff :
    cutAt? n text = some (front, behind) ↔ text = front ++ behind ∧ size front = n := by
  fun_induction cutAt? n text generalizing front with
  | case1 text =>
      rw [size_eq_zero_iff]
      constructor
      · rintro ⟨⟩
        exact ⟨rfl, rfl⟩
      · rintro ⟨rfl, rfl⟩
        rfl
  | case2 n =>
      simp only [reduceCtorEq, List.nil_eq, List.append_eq_nil_iff, false_iff]
      rintro ⟨⟨rfl, -⟩, h⟩
      cases h
  | case3 n c cs hlt =>
      simp only [reduceCtorEq, false_iff]
      rintro ⟨htext, hsize⟩
      cases front with
      | nil =>
          cases hsize
      | cons d front =>
          obtain ⟨rfl, -⟩ := List.cons.inj htext
          rw [size_cons] at hsize
          omega
  | case4 n c cs hle ih =>
      simp only [Option.map_eq_some_iff, Prod.exists, Prod.mk.injEq]
      constructor
      · rintro ⟨front, behind, hcut, rfl, rfl⟩
        obtain ⟨rfl, hsize⟩ := ih.1 hcut
        refine ⟨rfl, ?_⟩
        rw [size_cons]
        omega
      · rintro ⟨htext, hsize⟩
        cases front with
        | nil =>
            cases hsize
        | cons d front =>
            obtain ⟨rfl, rfl⟩ := List.cons.inj htext
            rw [size_cons] at hsize
            exact ⟨front, behind, ih.2 ⟨rfl, by omega⟩, rfl, rfl⟩

theorem cutAt?_append (a b : List Char) : cutAt? (size a) (a ++ b) = some (a, b) :=
  cutAt?_eq_some_iff.2 ⟨rfl, rfl⟩

/-- A slice is what starts behind the bytes in front of it, and ends where it is asked to. -/
theorem slice?_append_iff :
    slice? (size front) stop (front ++ text) = some part ↔
      ∃ behind, text = part ++ behind ∧ size (front ++ part) = stop := by
  rw [slice?]
  split
  · next hlt =>
      simp only [Option.bind_eq_bind, Option.bind_none, reduceCtorEq, false_iff]
      rintro ⟨behind, -, hstop⟩
      rw [size_append] at hstop
      omega
  · next hle =>
      simp only [cutAt?_append, Option.bind_eq_bind, Option.bind_some, Option.bind_eq_some_iff,
        Prod.exists, cutAt?_eq_some_iff, Option.pure_def, Option.some.injEq, size_append]
      constructor
      · rintro ⟨part, behind, ⟨rfl, hsize⟩, rfl⟩
        exact ⟨behind, rfl, by omega⟩
      · rintro ⟨behind, rfl, hstop⟩
        exact ⟨part, behind, ⟨rfl, by omega⟩, rfl⟩

theorem slice?_cons
    {c : Char}
    (h : slice? (size (front ++ [c])) stop (front ++ c :: text) = some part) :
    slice? (size front) stop (front ++ c :: text) = some (c :: part) := by
  rw [List.append_cons front c text] at h
  obtain ⟨behind, rfl, hstop⟩ := slice?_append_iff.1 h
  rw [← List.append_cons] at hstop
  exact slice?_append_iff.2 ⟨behind, rfl, hstop⟩

end Slices

end Text

namespace Markdown

variable {marks text : List Char}

/-! ## The first heading -/

section Heading

variable {blanks name rest whole : List Char}

/-- A text that starts like a heading with these blanks and this name. -/
structure Reads (marks blanks name rest text : List Char) : Prop where
  text_eq : text = marks ++ (blanks ++ (name ++ '\n' :: rest))
  blanks_ne_nil : blanks ≠ []
  blank : ∀ c ∈ blanks, Text.isBlank c = true
  name_ne_nil : name ≠ []
  no_feed : '\n' ∉ name

/-- A text that starts with a heading of these marks. -/
def StartsHeading (marks text : List Char) : Prop :=
  ∃ blanks name rest, Reads marks blanks name rest text

/-- A heading as it stands in a text. -/
def headingText (marks blanks name : List Char) : List Char :=
  marks ++ (blanks ++ (name ++ ['\n']))

theorem Reads.eq_append
    (h : Reads marks blanks name rest text) :
    text = headingText marks blanks name ++ rest := by
  simp [h.text_eq, headingText]

theorem StartsHeading.append
    (h : StartsHeading marks text)
    (more : List Char) :
    StartsHeading marks (text ++ more) := by
  obtain ⟨blanks, name, rest, hreads⟩ := h
  exact ⟨blanks, name, rest ++ more, { hreads with text_eq := by simp [hreads.text_eq] }⟩

theorem nameLine?_eq_some_iff :
    nameLine? text = some (name, rest) ↔
      text = name ++ '\n' :: rest ∧ name ≠ [] ∧ '\n' ∉ name := by
  constructor
  · intro h
    refine ⟨nameLine?_eq h, ?_⟩
    cases text with
    | nil =>
        cases h
    | cons c cs =>
        rw [nameLine?] at h
        split at h
        · cases h
        · next hc =>
            split at h
            · cases h
            · obtain ⟨rfl, rfl⟩ := Prod.mk.inj (Option.some.inj h)
              refine ⟨List.cons_ne_nil _ _, fun hmem => ?_⟩
              rcases List.mem_cons.1 hmem with hfeed | hmem
              · exact hc (beq_iff_eq.2 hfeed.symm)
              · simpa using List.all_eq_true.1 List.all_takeWhile _ hmem
  · rintro ⟨rfl, hne, hfeed⟩
    obtain ⟨d, name, rfl⟩ := List.exists_cons_of_ne_nil hne
    exact nameLine?_append_feed hfeed rest

/-- Blanks and a name are taken from the front of a run of blanks. -/
theorem splitName?_sound
    {run used : List Char}
    (h : splitName? run text = some (used, name, rest)) :
    used ≠ [] ∧ used <+: run.reverse ∧ name ≠ [] ∧ '\n' ∉ name := by
  induction run generalizing text with
  | nil =>
      cases h
  | cons b run ih =>
      rw [splitName?] at h
      split at h
      · next n r hline =>
          simp only [Option.some.injEq, Prod.mk.injEq] at h
          obtain ⟨rfl, rfl, rfl⟩ := h
          obtain ⟨-, hne, hfeed⟩ := nameLine?_eq_some_iff.1 hline
          exact ⟨by simp, List.prefix_refl _, hne, hfeed⟩
      · obtain ⟨hused, hstart, hname⟩ := ih h
        refine ⟨hused, hstart.trans ?_, hname⟩
        rw [List.reverse_cons]
        exact List.prefix_append _ _

/-- No name is behind more blanks of a run than are taken. -/
theorem splitName?_longest
    {run front back : List Char}
    (hrun : run.reverse = front ++ back)
    (hfront : front ≠ [])
    (hline : nameLine? (back ++ text) = some (name, rest)) :
    ∃ used n r, splitName? run text = some (used, n, r) ∧ front.length ≤ used.length := by
  induction run generalizing text back with
  | nil =>
      rw [List.reverse_nil, List.nil_eq, List.append_eq_nil_iff] at hrun
      exact absurd hrun.1 hfront
  | cons b run ih =>
      rw [splitName?]
      split
      · next n r hfirst =>
          refine ⟨_, n, r, rfl, ?_⟩
          rw [hrun, List.length_append]
          exact Nat.le_add_right _ _
      · next hnone =>
          rw [List.reverse_cons] at hrun
          rcases List.eq_nil_or_concat back with rfl | ⟨back, d, rfl⟩
          · rw [List.nil_append, hnone] at hline
            cases hline
          · rw [List.concat_eq_append, ← List.append_assoc] at hrun
            obtain ⟨hbefore, hlast⟩ := List.append_inj' hrun rfl
            obtain rfl := (List.cons.inj hlast).1
            rw [List.concat_eq_append, List.append_assoc, List.singleton_append] at hline
            exact ih hbefore hline

/-- What is found at the beginning of a text: a heading, and what is behind it. -/
theorem heading?_sound
    (h : heading? marks text = some (whole, name, rest)) :
    ∃ blanks, Reads marks blanks name rest text ∧ whole = headingText marks blanks name := by
  have htext := heading?_eq h
  simp only [heading?, Option.bind_eq_bind, Option.bind_eq_some_iff, Option.pure_def,
    Option.some.injEq, Prod.exists, Prod.mk.injEq] at h
  obtain ⟨t, -, blanks, name, rest, hsplit, rfl, rfl, rfl⟩ := h
  obtain ⟨hne, hstart, hname, hfeed⟩ := splitName?_sound hsplit
  rw [List.reverse_reverse] at hstart
  refine ⟨blanks, ⟨by simp [htext], hne, fun c hc => ?_, hname, hfeed⟩, by simp [headingText]⟩
  exact List.all_eq_true.1 List.all_takeWhile c (hstart.subset hc)

/-- The blanks of what is found go as far as in any heading that the text starts with. -/
theorem heading?_longest
    (h : Reads marks blanks name rest text) :
    ∃ used n r, heading? marks text = some (headingText marks used n, n, r) ∧
      blanks.length ≤ used.length := by
  have hdrop : Text.dropPrefix? marks text = some (blanks ++ (name ++ '\n' :: rest)) :=
    Text.dropPrefix?_eq_some_iff.2 h.text_eq
  have hline : nameLine? (name ++ '\n' :: rest) = some (name, rest) :=
    nameLine?_eq_some_iff.2 ⟨rfl, h.name_ne_nil, h.no_feed⟩
  rw [← List.takeWhile_append_dropWhile (p := Text.isBlank) (l := name ++ '\n' :: rest)] at hline
  obtain ⟨used, n, r, hsplit, hlength⟩ :=
    splitName?_longest (List.reverse_reverse _) h.blanks_ne_nil hline
  refine ⟨used, n, r, ?_, hlength⟩
  simp only [heading?, hdrop, Option.bind_eq_bind, Option.bind_some,
    List.takeWhile_append_of_pos h.blank, List.dropWhile_append_of_pos h.blank, hsplit]
  simp [headingText]

theorem heading?_eq_none_iff : heading? marks text = none ↔ ¬StartsHeading marks text := by
  constructor
  · rintro hnone ⟨blanks, name, rest, hreads⟩
    obtain ⟨used, n, r, hsome, -⟩ := heading?_longest hreads
    rw [hnone] at hsome
    cases hsome
  · intro hnot
    rw [Option.eq_none_iff_forall_ne_some]
    rintro ⟨whole, name, rest⟩ hsome
    obtain ⟨blanks, hreads, -⟩ := heading?_sound hsome
    exact hnot ⟨blanks, name, rest, hreads⟩

/-- The heading that a text starts with: its blanks go as far as its name allows. -/
structure IsHeading (marks blanks name rest text : List Char) : Prop
    extends Reads marks blanks name rest text where
  longest : ∀ {bs n r}, Reads marks bs n r text → bs.length ≤ blanks.length

/-- Where a heading is read, its blanks, its name and what is behind it are known. -/
theorem Reads.unique
    {bs n r : List Char}
    (h : Reads marks blanks name rest text)
    (h' : Reads marks bs n r text)
    (hlength : bs.length = blanks.length) :
    bs = blanks ∧ n = name ∧ r = rest := by
  have htext := h'.text_eq.symm.trans h.text_eq
  obtain ⟨rfl, hline⟩ := List.append_inj (List.append_cancel_left htext) hlength
  have hname : nameLine? (n ++ '\n' :: r) = some (n, r) :=
    nameLine?_eq_some_iff.2 ⟨rfl, h'.name_ne_nil, h'.no_feed⟩
  rw [hline, nameLine?_eq_some_iff.2 ⟨rfl, h.name_ne_nil, h.no_feed⟩] at hname
  obtain ⟨rfl, rfl⟩ := Prod.mk.inj (Option.some.inj hname)
  exact ⟨rfl, rfl, rfl⟩

theorem heading?_eq_some_iff :
    heading? marks text = some (whole, name, rest) ↔
      ∃ blanks, IsHeading marks blanks name rest text ∧
        whole = headingText marks blanks name := by
  constructor
  · intro h
    obtain ⟨blanks, hreads, rfl⟩ := heading?_sound h
    refine ⟨blanks, ⟨hreads, fun hother => ?_⟩, rfl⟩
    obtain ⟨used, n, r, hsome, hlength⟩ := heading?_longest hother
    rw [h, Option.some.injEq, Prod.mk.injEq, Prod.mk.injEq] at hsome
    obtain ⟨hwhole, rfl, -⟩ := hsome
    rwa [List.append_cancel_right (List.append_cancel_left hwhole)]
  · rintro ⟨blanks, hheading, rfl⟩
    obtain ⟨used, n, r, hsome, hlength⟩ := heading?_longest hheading.toReads
    obtain ⟨bs, hreads, hwhole⟩ := heading?_sound hsome
    obtain rfl := List.append_cancel_right (List.append_cancel_left hwhole)
    have hsame := Nat.le_antisymm (hheading.longest hreads) hlength
    obtain ⟨rfl, rfl, rfl⟩ := hheading.unique hreads hsame
    exact hsome

end Heading

/-! ## Between the headings -/

section Splitting

variable {lineStart : Bool} {blanks name rest front behind pre : List Char}

/-- Sections one after the other. -/
def join (found : List Section) : List Char :=
  found.flatMap fun s => s.heading ++ s.body

theorem splitFrom_join (marks : List Char) (lineStart : Bool) (text : List Char) :
    (splitFrom marks lineStart text).1 ++ join (splitFrom marks lineStart text).2 = text :=
  splitFrom_flatten marks lineStart text

/-- A part of a text that starts a line, without a place where a heading starts. -/
def Unheaded (marks part after : List Char) : Prop :=
  ∀ front behind, part = front ++ behind → behind ≠ [] → Text.EndsLine front →
    ¬StartsHeading marks (behind ++ after)

/-- A heading is found at the beginning of a line, or one more character is no beginning
of a heading. -/
@[elab_as_elim]
theorem heading_induction
    (marks : List Char)
    {motive : Bool → List Char → Prop}
    (nil : ∀ lineStart, motive lineStart [])
    (heading : ∀ blanks name rest text, IsHeading marks blanks name rest text →
      motive true rest → motive true text)
    (char : ∀ lineStart c cs, (lineStart = true → ¬StartsHeading marks (c :: cs)) →
      motive (c == '\n') cs → motive lineStart (c :: cs))
    (lineStart : Bool)
    (text : List Char) :
    motive lineStart text := by
  fun_induction splitFrom marks lineStart text with
  | case1 lineStart =>
      exact nil lineStart
  | case2 lineStart c cs whole name rest h body more hb ih =>
      cases lineStart with
      | false =>
          cases h
      | true =>
          obtain ⟨blanks, hheading, -⟩ := heading?_eq_some_iff.1 h
          exact heading blanks name rest _ hheading ih
  | case3 lineStart c cs h before more hb ih =>
      refine char lineStart c cs ?_ ih
      rintro rfl
      exact heading?_eq_none_iff.1 h

theorem splitFrom_of_isHeading
    (h : IsHeading marks blanks name rest text) :
    splitFrom marks true text =
      ([], ⟨headingText marks blanks name, Text.trim (String.ofList name),
        (splitFrom marks true rest).1⟩ :: (splitFrom marks true rest).2) :=
  splitFrom_of_heading (heading?_eq_some_iff.2 ⟨blanks, h, rfl⟩)

theorem heading?_eq_none_of_not_starts
    (h : lineStart = true → ¬StartsHeading marks text) :
    (if lineStart then heading? marks text else none) = none := by
  cases lineStart with
  | false =>
      rfl
  | true =>
      exact heading?_eq_none_iff.2 (h rfl)

theorem splitFrom_of_not_starts
    {c : Char}
    {cs : List Char}
    (h : lineStart = true → ¬StartsHeading marks (c :: cs)) :
    splitFrom marks lineStart (c :: cs) =
      (c :: (splitFrom marks (c == '\n') cs).1, (splitFrom marks (c == '\n') cs).2) :=
  splitFrom_of_none (heading?_eq_none_of_not_starts h)

/-- The part before the first heading has no section, also when it is split alone. -/
theorem splitFrom_before (marks : List Char) (lineStart : Bool) (text : List Char) :
    splitFrom marks lineStart (splitFrom marks lineStart text).1 =
      ((splitFrom marks lineStart text).1, []) := by
  induction lineStart, text using heading_induction marks with
  | nil lineStart =>
      rw [splitFrom, splitFrom]
  | heading blanks name rest text h ih =>
      rw [splitFrom_of_isHeading h, splitFrom]
  | char lineStart c cs h ih =>
      -- what reads like a heading alone does so with the text behind it, too
      have hbefore : lineStart = true →
          ¬StartsHeading marks (c :: (splitFrom marks (c == '\n') cs).1) := by
        intro hstart hheading
        refine h hstart ?_
        rw [← splitFrom_join marks (c == '\n') cs]
        exact hheading.append _
      rw [splitFrom_of_not_starts h, splitFrom_of_not_starts hbefore, ih]

theorem endsLine_concat_iff {c : Char} : Text.EndsLine (pre ++ [c]) ↔ c = '\n' := by
  simp [Text.EndsLine]

/-- No heading starts before the first one.  In front of the text stands another one, which
ends a line if the text starts one. -/
theorem not_startsHeading_before
    (hpre : lineStart = true ↔ Text.EndsLine pre)
    (hbefore : (splitFrom marks lineStart text).1 = front ++ behind)
    (hne : behind ≠ [])
    (hends : Text.EndsLine (pre ++ front)) :
    ¬StartsHeading marks (behind ++ join (splitFrom marks lineStart text).2) := by
  induction lineStart, text using heading_induction marks generalizing pre front with
  | nil lineStart =>
      rw [splitFrom, List.nil_eq, List.append_eq_nil_iff] at hbefore
      exact absurd hbefore.2 hne
  | heading blanks name rest text h ih =>
      rw [splitFrom_of_isHeading h, List.nil_eq, List.append_eq_nil_iff] at hbefore
      exact absurd hbefore.2 hne
  | char lineStart c cs h ih =>
      rw [splitFrom_of_not_starts h] at hbefore ⊢
      cases front with
      | nil =>
          rw [List.nil_append] at hbefore
          rw [List.append_nil] at hends
          rw [← hbefore, List.cons_append, splitFrom_join]
          exact h (hpre.2 hends)
      | cons d front =>
          obtain ⟨rfl, hrest⟩ := List.cons.inj hbefore
          have hpre' : (c == '\n') = true ↔ Text.EndsLine (pre ++ [c]) := by
            rw [endsLine_concat_iff, beq_iff_eq]
          refine ih hpre' hrest ?_
          rwa [List.append_assoc, List.singleton_append]

theorem unheaded_before (marks text : List Char) :
    Unheaded marks (splitFrom marks true text).1 (join (splitFrom marks true text).2) := by
  intro front behind hbefore hne hends
  have hnil : true = true ↔ Text.EndsLine [] := by decide
  exact not_startsHeading_before hnil hbefore hne hends

/-- A section has its heading, and what is behind that is split into its body and the
sections behind it. -/
theorem exists_isHeading_of_mem
    {earlier later : List Section}
    {s : Section}
    (h : (splitFrom marks lineStart text).2 = earlier ++ s :: later) :
    ∃ blanks name rest, IsHeading marks blanks name rest (s.heading ++ rest) ∧
      s.heading = headingText marks blanks name ∧
      s.name = Text.trim (String.ofList name) ∧ splitFrom marks true rest = (s.body, later) := by
  induction lineStart, text using heading_induction marks generalizing earlier with
  | nil lineStart =>
      rw [splitFrom, List.nil_eq, List.append_eq_nil_iff] at h
      cases h.2
  | heading blanks name rest text hheading ih =>
      rw [splitFrom_of_isHeading hheading] at h
      cases earlier with
      | nil =>
          obtain ⟨rfl, rfl⟩ := List.cons.inj h
          refine ⟨blanks, name, rest, ?_, rfl, rfl, rfl⟩
          rwa [← hheading.eq_append]
      | cons e earlier =>
          exact ih (List.cons.inj h).2
  | char lineStart c cs hnot ih =>
      rw [splitFrom_of_not_starts hnot] at h
      exact ih h

end Splitting

/-! ## Cutting -/

section Cutting

variable {blanks name rest : List Char} {lineStart : Bool}

theorem placesFrom_of_isHeading
    (h : IsHeading marks blanks name rest text)
    (place : Nat) :
    placesFrom marks true place text =
      let stop := place + Text.size (headingText marks blanks name)
      let nameStop := stop - Text.size ['\n']
      ⟨place, nameStop - Text.size name, nameStop, stop⟩ :: placesFrom marks true stop rest := by
  have hsome := heading?_eq_some_iff.2 ⟨blanks, h, rfl⟩
  obtain ⟨c, cs, rfl⟩ : ∃ c cs, text = c :: cs := by
    refine List.exists_cons_of_ne_nil ?_
    rw [h.eq_append]
    simp [headingText]
  rw [placesFrom]
  split
  · next heq =>
      rw [if_pos rfl, hsome] at heq
      cases heq
      rfl
  · next heq =>
      rw [if_pos rfl, hsome] at heq
      cases heq

theorem placesFrom_of_not_starts
    {c : Char}
    {cs : List Char}
    (h : lineStart = true → ¬StartsHeading marks (c :: cs))
    (place : Nat) :
    placesFrom marks lineStart place (c :: cs) =
      placesFrom marks (c == '\n') (place + c.utf8Size) cs := by
  rw [placesFrom]
  split
  · next heq =>
      rw [heading?_eq_none_of_not_starts h] at heq
      cases heq
  · rfl

theorem slice?_name (pre rest : List Char) :
    let stop := Text.size pre + Text.size (headingText marks blanks name)
    let nameStop := stop - Text.size ['\n']
    Text.slice? (nameStop - Text.size name) nameStop
      (pre ++ (headingText marks blanks name ++ rest)) = some name := by
  have hfront : Text.size pre + Text.size (headingText marks blanks name) - Text.size ['\n'] =
      Text.size (pre ++ marks ++ blanks) + Text.size name := by
    simp only [headingText, Text.size_append]
    omega
  have htext : pre ++ (headingText marks blanks name ++ rest) =
      pre ++ marks ++ blanks ++ (name ++ '\n' :: rest) := by
    simp [headingText]
  simp only [hfront, htext, Nat.add_sub_cancel]
  exact Text.slice?_append_iff.2 ⟨'\n' :: rest, rfl, Text.size_append _ _⟩

/-- The places of the headings cut out what the text is split into.  In front of the text
stands another one. -/
theorem cut_placesFrom (marks : List Char) (lineStart : Bool) (pre text : List Char) :
    Text.slice? (Text.size pre)
        (firstStart (pre ++ text) (placesFrom marks lineStart (Text.size pre) text))
        (pre ++ text) = some (splitFrom marks lineStart text).1 ∧
      cutSections? (pre ++ text) (placesFrom marks lineStart (Text.size pre) text) =
        some (splitFrom marks lineStart text).2 := by
  induction lineStart, text using heading_induction marks generalizing pre with
  | nil lineStart =>
      rw [placesFrom, splitFrom, firstStart, cutSections?, Text.slice?_append_iff]
      exact ⟨⟨[], rfl, rfl⟩, rfl⟩
  | heading blanks name rest text h ih =>
      obtain ⟨hbody, hmore⟩ := ih (pre ++ headingText marks blanks name)
      rw [List.append_assoc, Text.size_append] at hbody hmore
      rw [placesFrom_of_isHeading h, splitFrom_of_isHeading h, firstStart,
        Text.slice?_append_iff]
      refine ⟨⟨text, rfl, by rw [List.append_nil]⟩, ?_⟩
      rw [h.eq_append]
      have hheading : Text.slice? (Text.size pre)
          (Text.size pre + Text.size (headingText marks blanks name))
          (pre ++ (headingText marks blanks name ++ rest)) =
            some (headingText marks blanks name) :=
        Text.slice?_append_iff.2 ⟨rest, rfl, Text.size_append _ _⟩
      simp only [cutSections?, hheading, slice?_name, hbody, hmore, Option.bind_eq_bind,
        Option.bind_some, Option.pure_def]
  | char lineStart c cs h ih =>
      obtain ⟨hbefore, hfound⟩ := ih (pre ++ [c])
      have hplace : Text.size pre + c.utf8Size = Text.size (pre ++ [c]) := by
        rw [Text.size_append]
        rfl
      rw [placesFrom_of_not_starts h, splitFrom_of_not_starts h, hplace]
      rw [List.append_assoc, List.singleton_append] at hbefore hfound
      exact ⟨Text.slice?_cons hbefore, hfound⟩

theorem length_of_cutSections?
    {places : List HeadingPlaces}
    {found : List Section}
    (h : cutSections? text places = some found) :
    found.length = places.length := by
  induction places generalizing found with
  | nil =>
      cases h
      rfl
  | cons p places ih =>
      simp only [cutSections?, Option.bind_eq_bind, Option.bind_eq_some_iff, Option.pure_def,
        Option.some.injEq] at h
      obtain ⟨heading, -, name, -, body, -, more, hmore, rfl⟩ := h
      rw [List.length_cons, List.length_cons, ih hmore]

end Cutting

/-! ## Texts in parts -/

/-- A section in front of others: its heading is the one that the text starts with there, and
no other heading starts in its body. -/
structure IsSection (marks : String) (s : Section) (later : List Section) : Prop where
  heading : ∃ blanks name,
    let rest := s.body ++ join later
    IsHeading marks.toList blanks name rest (s.heading ++ rest) ∧
      s.heading = headingText marks.toList blanks name ∧ s.name = Text.trim (String.ofList name)
  unheaded : Unheaded marks.toList s.body (join later)
  body : sections marks s.body = []

/-- A text and the places of its headings, with the part before the first heading and the
sections that are cut out of it. -/
structure IsPartition (marks : String) (text : List Char) (places : List HeadingPlaces)
    (before : List Char) (found : List Section) : Prop where
  text_eq : text = before ++ join found
  before_cut : cutBefore? text places = some before
  sections_cut : cutSections? text places = some found
  length_eq : found.length = places.length
  before_unheaded : Unheaded marks.toList before (join found)
  isSection : ∀ earlier s later, found = earlier ++ s :: later → IsSection marks s later

theorem isSection_of_mem
    {marks : String}
    {earlier later : List Section}
    {s : Section}
    (h : sections marks text = earlier ++ s :: later) :
    IsSection marks s later := by
  obtain ⟨blanks, name, rest, hheading, hwhole, hname, hsplit⟩ := exists_isHeading_of_mem h
  have hrest := splitFrom_join marks.toList true rest
  have hbody := unheaded_before marks.toList rest
  have halone := splitFrom_before marks.toList true rest
  rw [hsplit] at hrest hbody halone
  rw [← hrest] at hheading
  exact ⟨⟨blanks, name, hheading, hwhole, hname⟩, hbody, by rw [sections, halone]⟩

/-- A text is the part before its first heading, and its headings with their sections: they
are cut out by the places of all headings. -/
theorem sections_partition (marks : String) (text : List Char) :
    ∃ before, IsPartition marks text (headingPlaces marks text) before (sections marks text) := by
  obtain ⟨hbefore, hfound⟩ := cut_placesFrom marks.toList true [] text
  exact ⟨(splitFrom marks.toList true text).1,
    { text_eq := (splitFrom_join marks.toList true text).symm
      before_cut := hbefore
      sections_cut := hfound
      length_eq := length_of_cutSections? hfound
      before_unheaded := unheaded_before marks.toList text
      isSection := fun _ _ _ => isSection_of_mem }⟩

example : headingPlaces "##" "é\n##\n Aé \n## B\n##\n".toList =
    [⟨3, 7, 11, 12⟩, ⟨12, 15, 16, 17⟩] := by
  cbv

end Markdown

end Dashboard
