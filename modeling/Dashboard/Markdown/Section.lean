import Dashboard.Text.Blank
import Dashboard.Text.Search

/-!
# Sections of a document

A heading starts at the beginning of a line with its marks and blanks; its name
runs to the end of the line.  The blanks may go over line ends, so that marks
alone on their line take the next line for their name.  A section reaches from
its heading to the next heading of the same marks.
-/

namespace Dashboard.Markdown

/-- A heading as it stands in the text, its name, and the text up to the next
heading. -/
structure Section where
  heading : List Char
  name : String
  body : List Char
deriving DecidableEq, Repr

/-- A name with at least one character, and the text behind its line feed. -/
def nameLine? : List Char → Option (List Char × List Char)
  | [] => none
  | c :: cs =>
    if c == '\n' then none
    else
      match cs.dropWhile (· != '\n') with
      | [] => none
      | _ :: rest => some (c :: cs.takeWhile (· != '\n'), rest)

/-- Blanks, name and rest behind the marks of a heading.  The blanks, latest
first, go as far as a name allows. -/
def splitName? : List Char → List Char → Option (List Char × List Char × List Char)
  | [], _ => none
  | b :: bs, text =>
    match nameLine? text with
    | some (name, rest) => some ((b :: bs).reverse, name, rest)
    | none => splitName? bs (b :: text)

/-- The heading with these marks that a line starts with: its text, its name,
and what follows. -/
def heading? (marks text : List Char) : Option (List Char × List Char × List Char) := do
  let rest ← Text.dropPrefix? marks text
  let (blanks, name, after) ←
    splitName? (rest.takeWhile Text.isBlank).reverse (rest.dropWhile Text.isBlank)
  return (marks ++ blanks ++ name ++ ['\n'], name, after)

theorem nameLine?_eq {text name rest : List Char} (h : nameLine? text = some (name, rest)) :
    text = name ++ '\n' :: rest := by
  cases text with
  | nil => simp [nameLine?] at h
  | cons c cs =>
    simp only [nameLine?] at h
    split at h
    · simp at h
    · split at h
      · simp at h
      · next n r hd =>
        simp only [Option.some.injEq, Prod.mk.injEq] at h
        obtain ⟨rfl, rfl⟩ := h
        have hn : n = '\n' := by
          have := List.head?_dropWhile_not (· != '\n') cs
          simpa [hd] using this
        have hcs := List.takeWhile_append_dropWhile (p := (· != '\n')) (l := cs)
        rw [hd, hn] at hcs
        simp [hcs]

theorem splitName?_eq {blanks text used name rest : List Char}
    (h : splitName? blanks text = some (used, name, rest)) :
    blanks.reverse ++ text = used ++ name ++ '\n' :: rest := by
  induction blanks generalizing text with
  | nil => simp [splitName?] at h
  | cons b bs ih =>
    simp only [splitName?] at h
    split at h
    · next n r hn =>
      simp only [Option.some.injEq, Prod.mk.injEq] at h
      obtain ⟨rfl, rfl, rfl⟩ := h
      rw [nameLine?_eq hn]
      simp
    · simpa using ih h

/-- A heading and what follows it are the text. -/
theorem heading?_eq {marks text whole name rest : List Char}
    (h : heading? marks text = some (whole, name, rest)) : text = whole ++ rest := by
  simp only [heading?, Option.bind_eq_bind, Option.bind_eq_some_iff] at h
  obtain ⟨t, ht, ⟨blanks, n, after⟩, hs, hp⟩ := h
  simp only [Option.pure_def, Option.some.injEq, Prod.mk.injEq] at hp
  obtain ⟨rfl, rfl, rfl⟩ := hp
  have h1 := Text.eq_append_of_dropPrefix? ht
  have h2 := splitName?_eq hs
  rw [List.reverse_reverse, List.takeWhile_append_dropWhile] at h2
  rw [h1, h2]
  simp

/-- A heading is not empty. -/
theorem heading?_ne_nil {marks text whole name rest : List Char}
    (h : heading? marks text = some (whole, name, rest)) : whole ≠ [] := by
  simp only [heading?, Option.bind_eq_bind, Option.bind_eq_some_iff] at h
  obtain ⟨t, ht, ⟨blanks, n, after⟩, hs, hp⟩ := h
  simp only [Option.pure_def, Option.some.injEq, Prod.mk.injEq] at hp
  obtain ⟨rfl, rfl, rfl⟩ := hp
  simp

/-- A heading leaves less of the text. -/
theorem length_lt_of_heading? {marks text whole name rest : List Char} {lineStart : Bool}
    (h : (if lineStart then heading? marks text else none) = some (whole, name, rest)) :
    rest.length < text.length := by
  split at h
  · have hwhole := List.length_pos_iff.2 (heading?_ne_nil h)
    rw [heading?_eq h, List.length_append]
    omega
  · simp at h

/-- The text before the first heading, and the sections.  `lineStart` is set at
the beginning of a line. -/
def splitFrom (marks : List Char) (lineStart : Bool) (text : List Char) :
    List Char × List Section :=
  match text with
  | [] => ([], [])
  | c :: cs =>
    match _ : if lineStart then heading? marks (c :: cs) else none with
    | some (whole, name, rest) =>
      let (body, more) := splitFrom marks true rest
      ([], ⟨whole, Text.trim (String.ofList name), body⟩ :: more)
    | none =>
      let (before, more) := splitFrom marks (c == '\n') cs
      (c :: before, more)
termination_by text.length
decreasing_by
  · rename_i h
    exact length_lt_of_heading? h
  · simp

/-- The sections of a text under the headings with these marks. -/
def sections (marks : String) (text : List Char) : List Section :=
  (splitFrom marks.toList true text).2

/-- Before the first heading, headings and bodies: nothing else is in a text. -/
theorem splitFrom_flatten (marks : List Char) (lineStart : Bool) (text : List Char) :
    (splitFrom marks lineStart text).1 ++
      ((splitFrom marks lineStart text).2.flatMap fun s => s.heading ++ s.body) = text := by
  fun_induction splitFrom marks lineStart text with
  | case1 => rfl
  | case2 lineStart c cs whole name rest h body more hb ih =>
    rw [hb] at ih
    split at h
    · simpa [ih] using (heading?_eq h).symm
    · simp at h
  | case3 lineStart c cs h before more hb ih =>
    rw [hb] at ih
    simpa using ih

end Dashboard.Markdown
