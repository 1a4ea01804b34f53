import Dashboard.Yaml.Scalar.Folding

/-!
# Blanks between the words of one line

The scalars that are written stand on one line each, and the only blanks in
them are spaces.  A text is taken apart into its first word, the spaces after
it and what is left, which is how both kinds of scalars are read.
-/

namespace Dashboard.Yaml

/-- The characters of a word: no blanks and no line breaks. -/
def IsWordText (w : List Char) : Prop :=
  ∀ c ∈ w, isGap c = false

/-- The text goes on with no blank and no line break. -/
def noGapNext (cs : List Char) : Bool :=
  !cs.head?.any isGap

theorem noGapNext_cons
    (c : Char)
    (cs : List Char) :
    noGapNext (c :: cs) = !isGap c := by
  rfl

/-- Spaces are taken into a fold before any line break. -/
theorem readFold?_spaces
    (margin k : Nat)
    {rest : List Char}
    (hrest : noGapNext rest = true)
    (spaces : List Char)
    (index line column : Nat) :
    readFold? margin (List.replicate k ' ' ++ rest) { spaces }
        ⟨List.replicate k ' ' ++ rest, index, line, column⟩ =
      some ({ spaces := spaces ++ List.replicate k ' ' },
        ⟨rest, index + k, line, column + k⟩) := by
  induction k generalizing spaces index column with
  | zero =>
      cases rest with
      | nil =>
          simp [readFold?]
      | cons c cs =>
          have hc : isGap c = false := by
            simpa [noGapNext_cons] using hrest
          simp only [isGap, Bool.or_eq_false_iff] at hc
          simp [readFold?, hc.1, hc.2]
  | succ k ih =>
      have hspace : isSpace ' ' = true := rfl
      have hindex : index + 1 + k = index + (k + 1) := by
        omega
      have hcolumn : column + 1 + k = column + (k + 1) := by
        omega
      have hspaces : spaces ++ [' '] ++ List.replicate k ' ' =
          spaces ++ List.replicate (k + 1) ' ' := by
        rw [List.append_assoc, List.replicate_succ]
        rfl
      rw [List.replicate_succ, List.cons_append, readFold?, if_pos hspace]
      simp only [Fold.addSpace, Cursor.skip, Bool.false_and, Bool.false_eq_true, if_false]
      rw [ih, hindex, hcolumn, hspaces, List.replicate_succ]

/-- A line break and the indentation after it are taken into a fold. -/
theorem readFold?_break
    (margin k : Nat)
    {rest : List Char}
    (hrest : noGapNext rest = true)
    (index line column : Nat) :
    ∃ f : Fold, f.broken = true ∧
      readFold? margin ('\n' :: (List.replicate k ' ' ++ rest)) {}
          ⟨'\n' :: (List.replicate k ' ' ++ rest), index, line, column⟩ =
        some (f, ⟨rest, index + 1 + k, line + 1, k⟩) := by
  have hindent : ∀ (k column : Nat) (f : Fold) (index : Nat), f.broken = true →
      readFold? margin (List.replicate k ' ' ++ rest) f
          ⟨List.replicate k ' ' ++ rest, index, line + 1, column⟩ =
        some (f, ⟨rest, index + k, line + 1, column + k⟩) := by
    intro k
    induction k with
    | zero =>
        intro column f index _
        cases rest with
        | nil =>
            simp [readFold?]
        | cons c cs =>
            have hc : isGap c = false := by
              simpa [noGapNext_cons] using hrest
            simp only [isGap, Bool.or_eq_false_iff] at hc
            simp [readFold?, hc.1, hc.2]
    | succ k ih =>
        intro column f index hf
        have hspace : isSpace ' ' = true := rfl
        have htab : (' ' == '\t') = false := rfl
        have hindex : index + 1 + k = index + (k + 1) := by
          omega
        have hcolumn : column + 1 + k = column + (k + 1) := by
          omega
        rw [List.replicate_succ, List.cons_append, readFold?, if_pos hspace]
        simp only [Fold.addSpace, Cursor.skip, hf, htab, Bool.and_false, Bool.false_and,
          Bool.false_eq_true, if_false, if_true]
        rw [ih _ f _ hf, hindex, hcolumn]
  refine ⟨Fold.addBreak {} '\n', rfl, ?_⟩
  have hspace : isSpace '\n' = false := rfl
  have hbreak : isBreak '\n' = true := rfl
  rw [readFold?, if_neg (by simp [hspace]), if_pos hbreak]
  simp only [Cursor.skipBreak]
  rw [hindent k 0 _ _ rfl, Nat.zero_add]

/-- The first word of a text with spaces, the spaces after it, and the rest. -/
theorem exists_word
    (s : List Char)
    (hs : ∀ c ∈ s, isGap c = true → c = ' ') :
    ∃ (word : List Char) (k : Nat) (rest : List Char),
      s = word ++ (List.replicate k ' ' ++ rest) ∧ IsWordText word ∧
        noGapNext rest = true ∧ (k = 0 → rest = []) := by
  induction s with
  | nil =>
      exact ⟨[], 0, [], rfl, by simp [IsWordText], rfl, fun _ => rfl⟩
  | cons c cs ih =>
      have hcs : ∀ d ∈ cs, isGap d = true → d = ' ' :=
        fun d hd => hs d (List.mem_cons_of_mem _ hd)
      obtain ⟨word, k, rest, rfl, hword, hrest, hzero⟩ := ih hcs
      by_cases hc : isGap c = true
      · have hspace : c = ' ' :=
          hs c List.mem_cons_self hc
        subst hspace
        cases word with
        | nil =>
            exact ⟨[], k + 1, rest, by simp [List.replicate_succ], by simp [IsWordText], hrest,
              by omega⟩
        | cons w ws =>
            have hw : isGap w = false :=
              hword w List.mem_cons_self
            refine ⟨[], 1, w :: ws ++ (List.replicate k ' ' ++ rest), rfl, by simp [IsWordText],
              ?_, by omega⟩
            rw [List.cons_append, noGapNext_cons, hw]
            rfl
      · have hc : isGap c = false := by
          simpa using hc
        refine ⟨c :: word, k, rest, rfl, ?_, hrest, hzero⟩
        intro d hd
        rcases List.mem_cons.1 hd with rfl | hd
        · exact hc
        · exact hword d hd

end Dashboard.Yaml
