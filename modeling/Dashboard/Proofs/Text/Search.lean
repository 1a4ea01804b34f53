import Dashboard.Proofs.Text.Lines
import Dashboard.Text.Search

/-!
# What is found in a text

A text is cut around the first occurrence of what is searched for: no occurrence ends
before that one does.  A line feed that what is searched for does not have keeps its
occurrences on one side.
-/

namespace Dashboard.Text

variable {needle text before after : List Char}

theorem dropPrefix?_eq_some_iff {rest : List Char} :
    dropPrefix? needle text = some rest ↔ text = needle ++ rest := by
  refine ⟨eq_append_of_dropPrefix?, ?_⟩
  rintro rfl
  induction needle with
  | nil =>
      rfl
  | cons n ns ih =>
      rw [List.cons_append, dropPrefix?, if_pos (beq_self_eq_true n), ih]

theorem dropPrefix?_append (needle rest : List Char) :
    dropPrefix? needle (needle ++ rest) = some rest :=
  dropPrefix?_eq_some_iff.2 rfl

theorem dropPrefix?_eq_none_iff : dropPrefix? needle text = none ↔ ¬needle <+: text := by
  rw [Option.eq_none_iff_forall_ne_some]
  constructor
  · rintro hnone ⟨rest, hrest⟩
    exact hnone rest (dropPrefix?_eq_some_iff.2 hrest.symm)
  · intro hnone rest hrest
    exact hnone ⟨rest, (dropPrefix?_eq_some_iff.1 hrest).symm⟩

/-- A shorter text has no room. -/
theorem not_infix_of_length_lt
    (h : text.length < needle.length) :
    ¬needle <:+: text :=
  fun hinfix => absurd hinfix.length_le (Nat.not_le.2 h)

theorem not_infix_dropLast
    (hne : needle ≠ []) :
    ¬needle <:+: needle.dropLast := by
  refine not_infix_of_length_lt ?_
  rw [List.length_dropLast]
  exact Nat.sub_lt (List.length_pos_iff.2 hne) Nat.one_pos

/-- An occurrence that does not start with one more character in front is the first one
with it if it is without it. -/
theorem first_cons_iff
    {c : Char}
    (hne : needle ≠ [])
    (h : ¬needle <+: c :: (before ++ needle ++ after)) :
    ¬needle <:+: (c :: before ++ needle).dropLast ↔ ¬needle <:+: (before ++ needle).dropLast := by
  have htail : (c :: before ++ needle).dropLast = c :: (before ++ needle).dropLast :=
    List.dropLast_cons_of_ne_nil (by simp [hne])
  have hstart : ¬needle <+: c :: (before ++ needle).dropLast := by
    intro hstarts
    refine h (hstarts.trans ((List.prefix_cons_inj c).2 ?_))
    exact List.IsPrefix.trans ( List.dropLast_prefix _) (List.prefix_append _ _)
  rw [htail, List.infix_cons_iff, or_iff_right hstart]

/-- An occurrence at the beginning is the only first one. -/
theorem eq_nil_of_prefix
    (h : needle <+: before ++ needle ++ after)
    (hfirst : ¬needle <:+: (before ++ needle).dropLast) :
    before = [] := by
  cases before with
  | nil =>
      rfl
  | cons b before =>
      refine absurd (List.IsPrefix.isInfix ?_) hfirst
      have hwhole : (b :: before ++ needle).dropLast <+: b :: before ++ needle ++ after :=
        List.IsPrefix.trans ( List.dropLast_prefix _) (List.prefix_append _ _)
      refine List.prefix_of_prefix_length_le h hwhole ?_
      simp

/-- The first occurrence is where the text is cut. -/
theorem splitAt?_eq_some_iff
    (hne : needle ≠ []) :
    splitAt? needle text = some (before, after) ↔
      text = before ++ needle ++ after ∧ ¬needle <:+: (before ++ needle).dropLast := by
  induction text generalizing before with
  | nil =>
      rw [splitAt?, if_neg (by simpa using hne)]
      simp [hne]
  | cons c text ih =>
      rw [splitAt?]
      split
      · next rest hrest =>
          rw [dropPrefix?_eq_some_iff] at hrest
          constructor
          · rintro ⟨⟩
            exact ⟨hrest, not_infix_dropLast hne⟩
          · rintro ⟨htext, hfirst⟩
            obtain rfl := eq_nil_of_prefix ⟨rest, hrest.symm.trans htext⟩ hfirst
            obtain rfl := List.append_cancel_left (hrest.symm.trans htext)
            rfl
      · next hnone =>
          rw [dropPrefix?_eq_none_iff] at hnone
          simp only [Option.map_eq_some_iff, Prod.exists, Prod.mk.injEq]
          constructor
          · rintro ⟨before, after, hcut, rfl, rfl⟩
            obtain ⟨rfl, hfirst⟩ := ih.1 hcut
            exact ⟨rfl, (first_cons_iff hne hnone).2 hfirst⟩
          · rintro ⟨htext, hfirst⟩
            cases before with
            | nil =>
                exact absurd ⟨after, htext.symm⟩ hnone
            | cons b before =>
                obtain ⟨rfl, rfl⟩ := List.cons.inj htext
                exact ⟨before, after, ih.2 ⟨rfl, (first_cons_iff hne hnone).1 hfirst⟩, rfl, rfl⟩

/-- What is searched for is found if it is there. -/
theorem splitAt?_eq_none_iff
    (hne : needle ≠ []) :
    splitAt? needle text = none ↔ ¬needle <:+: text := by
  induction text with
  | nil =>
      rw [splitAt?, if_neg (by simpa using hne)]
      simp [hne]
  | cons c text ih =>
      rw [splitAt?, List.infix_cons_iff, not_or, ← ih, ← dropPrefix?_eq_none_iff]
      split
      · next h =>
          simp [h]
      · next h =>
          simp [h]

/-- What follows the text does not matter where the needle is in the text. -/
theorem splitAt?_append
    (hne : needle ≠ [])
    (h : splitAt? needle text = some (before, after))
    (more : List Char) :
    splitAt? needle (text ++ more) = some (before, after ++ more) := by
  obtain ⟨rfl, hfirst⟩ := (splitAt?_eq_some_iff hne).1 h
  exact (splitAt?_eq_some_iff hne).2 ⟨List.append_assoc _ _ _, hfirst⟩

/-! ## On both sides of a line feed -/

theorem infix_append_feed_iff
    (hn : '\n' ∉ needle)
    (l rest : List Char) :
    needle <:+: l ++ '\n' :: rest ↔ needle <:+: l ∨ needle <:+: rest := by
  induction l with
  | nil =>
      have hstart : needle <+: [] ++ '\n' :: rest ↔ needle <+: [] := prefix_line_iff hn [] rest
      rw [List.nil_append] at hstart ⊢
      rw [List.infix_cons_iff, hstart, List.prefix_nil, List.infix_nil]
  | cons c l ih =>
      rw [List.cons_append, List.infix_cons_iff, List.infix_cons_iff, ih, ← List.cons_append,
        prefix_line_iff hn, or_assoc]

/-- A needle that starts with its only line feed is on one side, too. -/
theorem feed_infix_append_feed
    (hn : '\n' ∉ needle)
    {l rest : List Char}
    (h : '\n' :: needle <:+: l ++ '\n' :: rest) :
    '\n' :: needle <:+: l ∨ '\n' :: needle <:+: '\n' :: rest := by
  induction l with
  | nil =>
      exact .inr h
  | cons c l ih =>
      rw [List.cons_append, List.infix_cons_iff, List.cons_prefix_cons] at h
      rcases h with ⟨rfl, hstart⟩ | h
      · have hline := (prefix_line_iff hn l rest).1 hstart
        exact .inl ((List.prefix_cons_inj _).2 hline).isInfix
      · exact (ih h).imp_left List.infix_cons

end Dashboard.Text
