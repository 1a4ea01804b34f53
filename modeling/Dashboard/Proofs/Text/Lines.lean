import Dashboard.Text.Lines

/-!
# Lines that were put together

A text is cut where its lines were put together, if no line is empty or holds a
character of a line end.  Behind a text of complete lines, the lines of what follows are
lines of both together (`pieces_append`).
-/

namespace Dashboard.Text

variable {l : List Char}

/-- A line that can be told from the ends of lines. -/
structure IsLine (l : List Char) : Prop where
  ne_nil : l ≠ []
  no_feed : '\n' ∉ l
  no_return : '\r' ∉ l

theorem pieces_append_feed
    (h : '\n' ∉ l)
    (rest : List Char) :
    pieces (l ++ '\n' :: rest) = (l ++ ['\n']) :: pieces rest := by
  induction l with
  | nil =>
      simp [pieces]
  | cons c l ih =>
      rw [List.mem_cons, not_or] at h
      have hc : (c == '\n') = false := by
        simpa using Ne.symm h.1
      rw [List.cons_append, pieces, hc, ih h.2]
      simp

theorem pieces_of_no_feed
    (hne : l ≠ [])
    (h : '\n' ∉ l) :
    pieces l = [l] := by
  induction l with
  | nil =>
      exact absurd rfl hne
  | cons c l ih =>
      rw [List.mem_cons, not_or] at h
      have hc : (c == '\n') = false := by
        simpa using Ne.symm h.1
      rw [pieces, hc]
      cases l with
      | nil =>
          simp [pieces]
      | cons d l =>
          rw [ih (List.cons_ne_nil d l) h.2]
          simp

theorem splitEnd_append_feed
    (h : '\n' ∉ l) :
    splitEnd (l ++ ['\n']) = (l, ['\n']) := by
  induction l with
  | nil =>
      rfl
  | cons c l ih =>
      rw [List.mem_cons, not_or] at h
      have hne : l ++ ['\n'] ≠ [] := by
        simp
      obtain ⟨d, ds, hds⟩ := List.exists_cons_of_ne_nil hne
      have htail := ih h.2
      rw [hds] at htail
      rw [List.cons_append, hds, splitEnd, htail]
      · exact List.cons_ne_nil d ds

theorem splitEnd_of_no_feed
    (h : '\n' ∉ l) :
    splitEnd l = (l, []) := by
  induction l with
  | nil =>
      rfl
  | cons c l ih =>
      rw [List.mem_cons, not_or] at h
      cases l with
      | nil =>
          rw [splitEnd, if_neg (by simpa using Ne.symm h.1)]
      | cons d l =>
          rw [splitEnd, ih h.2]
          exact List.cons_ne_nil d l

theorem contentOf_of_no_feed
    (h : '\n' ∉ l) :
    contentOf l = l := by
  rw [contentOf, splitEnd_of_no_feed h]

/-- The content of a line is what is in front of its line feed, or in front of a carriage
return and its line feed. -/
theorem contentOf_append_feed
    (h : '\n' ∉ l) :
    contentOf (l ++ ['\n']) = l ∨ ∃ content, l = content ++ ['\r'] ∧
      contentOf (l ++ ['\n']) = content := by
  rw [contentOf, splitEnd_append_feed h]
  split
  · next heq =>
      exact absurd heq (by simp)
  · next heq =>
      obtain ⟨rfl, -⟩ := Prod.mk.inj heq
      split
      · next front hfront =>
          refine .inr ⟨front.reverse, ?_, rfl⟩
          rw [← List.reverse_reverse l, hfront, List.reverse_cons]
      · exact .inl rfl

/-- Without a carriage return at its end the line is its content. -/
theorem IsLine.contentOf_append_feed
    (h : IsLine l) :
    contentOf (l ++ ['\n']) = l := by
  rcases Text.contentOf_append_feed h.no_feed with hcontent | ⟨content, rfl, -⟩
  · exact hcontent
  · exact absurd (List.mem_append_right content List.mem_cons_self) h.no_return

/-! ## Complete lines -/

section Complete

variable {t a b : List Char}

/-- The last line of a text has its line feed. -/
def EndsLine (t : List Char) : Prop :=
  ∀ c ∈ t.getLast?, c = '\n'

instance (t : List Char) : Decidable (EndsLine t) :=
  match h : t.getLast? with
  | none => .isTrue (by simp [EndsLine, h])
  | some c => decidable_of_iff (c = '\n') (by simp [EndsLine, h])

/-- A text of complete lines, one after the other. -/
inductive CompleteLines : List Char → Prop
  | nil : CompleteLines []
  | line {l rest : List Char} (h : '\n' ∉ l) (hrest : CompleteLines rest) :
      CompleteLines (l ++ '\n' :: rest)

theorem exists_feed_of_endsLine
    (h : EndsLine t)
    (hne : t ≠ []) :
    ∃ u, t = u ++ ['\n'] := by
  rcases List.eq_nil_or_concat t with rfl | ⟨u, c, rfl⟩
  · exact absurd rfl hne
  · have hc := h c (by rw [List.concat_eq_append, List.getLast?_concat]; rfl)
    exact ⟨u, by rw [List.concat_eq_append, hc]⟩

theorem CompleteLines.cons
    {c : Char}
    (hc : c ≠ '\n')
    (h : CompleteLines t)
    (hne : t ≠ []) :
    CompleteLines (c :: t) := by
  cases h with
  | nil =>
      exact absurd rfl hne
  | line hl hrest =>
      exact .line (l := c :: _) (List.not_mem_cons_of_ne_of_not_mem hc.symm hl) hrest

/-- A text is cut behind its last line feed: complete lines, and what is begun of one. -/
theorem exists_complete (t : List Char) :
    ∃ a l, t = a ++ l ∧ CompleteLines a ∧ '\n' ∉ l := by
  induction t with
  | nil =>
      exact ⟨[], [], rfl, .nil, List.not_mem_nil⟩
  | cons c t ih =>
      obtain ⟨a, l, rfl, ha, hl⟩ := ih
      by_cases hc : c = '\n'
      · subst hc
        exact ⟨'\n' :: a, l, rfl, .line (l := []) List.not_mem_nil ha, hl⟩
      · by_cases hnil : a = []
        · subst hnil
          exact ⟨[], c :: l, rfl, .nil, List.not_mem_cons_of_ne_of_not_mem (Ne.symm hc) hl⟩
        · exact ⟨c :: a, l, rfl, ha.cons hc hnil, hl⟩

theorem CompleteLines.endsLine
    (h : CompleteLines t) :
    EndsLine t := by
  induction h with
  | nil =>
      intro c hc
      cases hc
  | @line l rest hl hrest ih =>
      intro c hc
      rw [List.getLast?_append, List.getLast?_cons] at hc
      cases hlast : rest.getLast? with
      | none =>
          rw [hlast] at hc
          exact (Option.mem_some_iff.1 hc).symm
      | some d =>
          rw [hlast] at hc
          obtain rfl := Option.mem_some_iff.1 hc
          exact ih d hlast

theorem EndsLine.of_append
    (h : EndsLine (a ++ b)) :
    EndsLine b := by
  intro c hc
  refine h c ?_
  rw [List.getLast?_append, Option.mem_def.1 hc]
  rfl

/-- A text that ends with a line feed has nothing of a line behind its last one. -/
theorem eq_nil_of_endsLine
    {l : List Char}
    (h : EndsLine (a ++ l))
    (hl : '\n' ∉ l) :
    l = [] := by
  by_cases hnil : l = []
  · exact hnil
  · obtain ⟨u, rfl⟩ := exists_feed_of_endsLine h.of_append hnil
    exact absurd (List.mem_append_right u List.mem_cons_self) hl

theorem completeLines_iff : CompleteLines t ↔ EndsLine t := by
  refine ⟨CompleteLines.endsLine, fun h => ?_⟩
  obtain ⟨a, l, rfl, ha, hl⟩ := exists_complete t
  rwa [eq_nil_of_endsLine h hl, List.append_nil]

theorem CompleteLines.append
    (ha : CompleteLines a)
    (hb : CompleteLines b) :
    CompleteLines (a ++ b) := by
  induction ha with
  | nil =>
      exact hb
  | line hl hrest ih =>
      rw [List.append_assoc, List.cons_append]
      exact .line hl ih

/-- An empty line in front of complete lines ends with a line feed, too. -/
theorem exists_feed_of_feed_cons
    (h : EndsLine t) :
    ∃ u, '\n' :: t = u ++ ['\n'] :=
  exists_feed_of_endsLine
    (CompleteLines.line List.not_mem_nil (completeLines_iff.2 h)).endsLine (List.cons_ne_nil _ _)

theorem pieces_append
    (h : CompleteLines a)
    (b : List Char) :
    pieces (a ++ b) = pieces a ++ pieces b := by
  induction h with
  | nil =>
      rfl
  | @line l rest hl hrest ih =>
      rw [List.append_assoc, List.cons_append, pieces_append_feed hl, ih, pieces_append_feed hl,
        List.cons_append]

theorem ne_nil_of_mem_pieces
    {p : List Char}
    (hp : p ∈ pieces t) :
    p ≠ [] := by
  obtain ⟨a, l, rfl, ha, hl⟩ := exists_complete t
  induction ha with
  | nil =>
      cases l with
      | nil =>
          cases hp
      | cons c l =>
          rw [List.nil_append, pieces_of_no_feed (List.cons_ne_nil c l) hl] at hp
          rw [List.mem_singleton.1 hp]
          exact List.cons_ne_nil c l
  | @line m rest hm hrest ih =>
      rw [List.append_assoc, List.cons_append, pieces_append_feed hm] at hp
      rcases List.mem_cons.1 hp with rfl | hp
      · simp
      · exact ih hp

/-- What is without a line feed starts a text in its first line. -/
theorem prefix_line_iff
    {n : List Char}
    (hn : '\n' ∉ n)
    (l rest : List Char) :
    n <+: l ++ '\n' :: rest ↔ n <+: l := by
  refine ⟨fun h => ?_, fun h => h.trans (List.prefix_append l _)⟩
  rcases List.prefix_or_prefix_of_prefix h (List.prefix_append l _) with h | ⟨m, rfl⟩
  · exact h
  · cases m with
    | nil =>
        exact ⟨[], by simp⟩
    | cons c m =>
        obtain rfl := (List.cons_prefix_cons.1 ((List.prefix_append_right_inj l).1 h)).1
        exact absurd (List.mem_append_right l List.mem_cons_self) hn

theorem feed_infix_append_iff
    {l : List Char}
    (hl : '\n' ∉ l)
    (n rest : List Char) :
    '\n' :: n <:+: l ++ rest ↔ '\n' :: n <:+: rest := by
  induction l with
  | nil =>
      rfl
  | cons c l ih =>
      rw [List.mem_cons, not_or] at hl
      rw [List.cons_append, List.infix_cons_iff, ih hl.2]
      refine or_iff_right fun hstart => ?_
      exact hl.1 (List.cons_prefix_cons.1 hstart).1

/-- A line starts with these characters exactly if they stand behind a line feed, one in
front of the text counted in. -/
theorem exists_prefix_piece_iff
    {n : List Char}
    (hne : n ≠ [])
    (hn : '\n' ∉ n)
    (t : List Char) :
    (∃ p ∈ pieces t, n <+: p) ↔ '\n' :: n <:+: '\n' :: t := by
  obtain ⟨a, l, rfl, ha, hl⟩ := exists_complete t
  induction ha with
  | nil =>
      have hinner : ¬('\n' :: n <:+: l) := fun h => hl (h.subset List.mem_cons_self)
      rw [List.nil_append, List.infix_cons_iff, List.cons_prefix_cons, or_iff_left hinner]
      cases l with
      | nil =>
          simp [pieces, hne]
      | cons c l =>
          simp [pieces_of_no_feed (List.cons_ne_nil c l) hl]
  | @line m rest hm hrest ih =>
      have hfirst : n <+: m ++ ['\n'] ↔ n <+: m ++ '\n' :: (rest ++ l) :=
        (prefix_line_iff hn m []).trans (prefix_line_iff hn m (rest ++ l)).symm
      rw [List.append_assoc, List.cons_append, pieces_append_feed hm, List.infix_cons_iff,
        List.cons_prefix_cons, feed_infix_append_iff hm, ← ih, ← hfirst]
      simp only [List.mem_cons, or_and_right, exists_or, exists_eq_left, true_and]

/-! ## Line by line -/

/-- A text is one line without a line feed, or a line with one in front of a text. -/
@[elab_as_elim]
theorem line_induction
    {motive : List Char → Prop}
    (last : ∀ l, '\n' ∉ l → motive l)
    (line : ∀ l rest, '\n' ∉ l → motive rest → motive (l ++ '\n' :: rest))
    (t : List Char) :
    motive t := by
  obtain ⟨a, l, rfl, ha, hl⟩ := exists_complete t
  induction ha with
  | nil =>
      exact last l hl
  | @line m rest hm hrest ih =>
      rw [List.append_assoc, List.cons_append]
      exact line m (rest ++ l) hm ih

theorem not_feed_mem_of_mem_splitOn
    (h : l ∈ t.splitOn '\n') :
    '\n' ∉ l := by
  induction t using line_induction with
  | last m hm =>
      rw [List.splitOn_eq_singleton hm, List.mem_singleton] at h
      rwa [h]
  | line m rest hm ih =>
      rw [List.splitOn_append_cons_self_of_not_mem hm, List.mem_cons] at h
      rcases h with rfl | h
      · exact hm
      · exact ih h

/-- There is one line more than line feeds. -/
theorem length_splitOn_feed (t : List Char) : (t.splitOn '\n').length = t.count '\n' + 1 := by
  induction t using line_induction with
  | last m hm =>
      rw [List.splitOn_eq_singleton hm, List.count_eq_zero_of_not_mem hm, List.length_singleton]
  | line m rest hm ih =>
      rw [List.splitOn_append_cons_self_of_not_mem hm, List.length_cons, ih, List.count_append,
        List.count_eq_zero_of_not_mem hm, List.count_cons_self, Nat.zero_add]

end Complete

end Dashboard.Text
