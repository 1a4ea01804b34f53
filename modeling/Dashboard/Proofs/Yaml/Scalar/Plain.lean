import Dashboard.Proofs.Yaml.Scalar.Folding
import Dashboard.Yaml.Scalar.Plain

/-!
# Plain scalars that are read to their end

A bare text holds no colon, no comment mark and no blank but single spaces,
and its last character is no space.  Such a text is read as it stands, up to
the colon, line break, comma or bracket behind it.
-/

namespace Dashboard.Yaml

/-- The characters inside a bare text: nothing that could end it. -/
def isBareChar (inFlow : Bool) (c : Char) : Bool :=
  c != ':' && c != '#' && (!isGap c || c == ' ') && !(inFlow && isFlowIndicator c)

/-- A text that may stand as a plain scalar once it has started. -/
structure BareText (inFlow : Bool) (s : List Char) : Prop where
  chars : ∀ c ∈ s, isBareChar inFlow c = true
  last : ∀ c ∈ s.getLast?, isGap c = false

/-- A bare text ends here, and no word goes on. -/
def atBareEnd (inFlow : Bool) : List Char → Bool
  | [] => true
  | ':' :: cs => !inFlow && atGap cs
  | c :: _ => isGap c || (inFlow && isFlowIndicator c)

/-- A bare character that is no space is a character of a word. -/
theorem isGap_of_isBareChar
    {inFlow : Bool}
    {c : Char}
    (h : isBareChar inFlow c = true) :
    c ≠ ':' ∧ c ≠ '#' ∧ (isGap c = true → c = ' ') ∧
      (inFlow = true → isFlowIndicator c = false) := by
  simp only [isBareChar, Bool.and_eq_true, bne_iff_ne, Bool.or_eq_true, Bool.not_eq_true',
    Bool.and_eq_false_iff, beq_iff_eq] at h
  obtain ⟨⟨⟨hcolon, hhash⟩, hgap⟩, hflow⟩ := h
  refine ⟨hcolon, hhash, ?_, ?_⟩
  · intro hc
    rcases hgap with hgap | hgap
    · rw [hgap] at hc
      exact absurd hc (by simp)
    · exact hgap
  · intro hin
    rcases hflow with hflow | hflow
    · rw [hflow] at hin
      exact absurd hin (by simp)
    · exact hflow

/-- Where a bare text ends no word is read. -/
theorem readPlainWord?_end
    {inFlow : Bool}
    {tail : List Char}
    (h : atBareEnd inFlow tail = true)
    (c : Cursor) :
    readPlainWord? inFlow tail c = some ([], c) := by
  cases tail with
  | nil =>
      rfl
  | cons x xs =>
      by_cases hcolon : x = ':'
      · subst hcolon
        simp only [atBareEnd, Bool.and_eq_true, Bool.not_eq_true'] at h
        have hgap : isGap ':' = false := rfl
        simp [readPlainWord?, hgap, h.1, atPlainEnd, h.2]
      · have hend : isGap x = true ∨ (inFlow = true ∧ isFlowIndicator x = true) := by
          simpa [atBareEnd, hcolon] using h
        rcases hend with hgap | ⟨hin, hflow⟩
        · simp [readPlainWord?, hgap]
        · cases hgap : isGap x with
          | true =>
              simp [readPlainWord?, hgap]
          | false =>
              have hbad : atBadColon (x :: xs) = false := by
                rw [atBadColon]
                rintro c cs heq
                exact hcolon (List.cons.inj heq).1
              have hplain : atPlainEnd true (x :: xs) = true := by
                rw [atPlainEnd]
                · simpa using hflow
                · rintro heq
                  exact hcolon heq
              subst hin
              simp [readPlainWord?, hgap, hbad, hplain]

/-- A word of bare characters is read up to a space or the end. -/
theorem readPlainWord?_append
    {inFlow : Bool}
    {word tail : List Char}
    (hbare : ∀ c ∈ word, isBareChar inFlow c = true)
    (hword : IsWordText word)
    (htail : atBareEnd inFlow tail = true)
    (index line column : Nat) :
    readPlainWord? inFlow (word ++ tail) ⟨word ++ tail, index, line, column⟩ =
      some (word, ⟨tail, index + word.length, line, column + word.length⟩) := by
  induction word generalizing index column with
  | nil =>
      exact readPlainWord?_end htail _
  | cons x xs ih =>
      obtain ⟨hcolon, -, -, hflow⟩ := isGap_of_isBareChar (hbare x List.mem_cons_self)
      have hgap : isGap x = false :=
        hword x List.mem_cons_self
      have hbad : atBadColon (x :: (xs ++ tail)) = false := by
        rw [atBadColon]
        rintro c cs heq
        exact hcolon (List.cons.inj heq).1
      have hplain : atPlainEnd inFlow (x :: (xs ++ tail)) = false := by
        rw [atPlainEnd]
        · cases inFlow with
          | false =>
              rfl
          | true =>
              simpa using hflow rfl
        · rintro heq
          exact hcolon heq
      have hrest := ih (fun c hc => hbare c (List.mem_cons_of_mem _ hc))
        (fun c hc => hword c (List.mem_cons_of_mem _ hc)) (index + 1) (column + 1)
      have hindex : index + 1 + xs.length = index + (x :: xs).length := by
        rw [List.length_cons]
        omega
      have hcolumn : column + 1 + xs.length = column + (x :: xs).length := by
        rw [List.length_cons]
        omega
      rw [List.cons_append, readPlainWord?, if_neg (by simp [hgap]), if_neg (by simp [hbad]),
        if_neg (by simp [hplain])]
      simp only [Cursor.skip, hrest, hindex, hcolumn]
      rfl

/-- Away from the start of a line there is no document mark. -/
theorem atDocumentMark_of_column
    {rest : List Char}
    {index line column : Nat}
    (h : column ≠ 0) :
    (⟨rest, index, line, column⟩ : Cursor).atDocumentMark = false := by
  simp [Cursor.atDocumentMark, h]

/-- What happens behind a word: the scalar ends, or goes on after a fold. -/
def afterPlainWord (inFlow : Bool) (margin steps : Nat) (text : List Char) (c : Cursor) :
    Option (List Char × Bool × Cursor) :=
  match c.rest with
  | [] => some (text, false, c)
  | x :: _ =>
    if !isGap x then some (text, false, c)
    else do
      let (fold, c) ← readFold? margin c.rest {} c
      if !inFlow && c.column < margin then some (text, fold.broken, c)
      else readPlainBody? inFlow margin steps text fold c

/-- A word is taken together with the spaces before it. -/
theorem readPlainBody?_word
    {inFlow : Bool}
    {word tail : List Char}
    (hne : word ≠ [])
    (hbare : ∀ c ∈ word, isBareChar inFlow c = true)
    (hword : IsWordText word)
    (htail : atBareEnd inFlow tail = true)
    (margin steps : Nat)
    (text spaces : List Char)
    {index line column : Nat}
    (hmark : (⟨word ++ tail, index, line, column⟩ : Cursor).atDocumentMark = false) :
    readPlainBody? inFlow margin (steps + 1) text { spaces } ⟨word ++ tail, index, line, column⟩ =
      afterPlainWord inFlow margin steps (text ++ spaces ++ word)
        ⟨tail, index + word.length, line, column + word.length⟩ := by
  obtain ⟨w, ws, rfl⟩ := List.exists_cons_of_ne_nil hne
  have hhash : ((w :: ws ++ tail).head? == some '#') = false := by
    have hw := (isGap_of_isBareChar (hbare w List.mem_cons_self)).2.1
    simpa using hw
  rw [readPlainBody?, hmark, hhash, readPlainWord?_append hbare hword htail, afterPlainWord]
  simp only [Bool.or_self, Bool.false_eq_true, if_false, Option.bind_eq_bind, Option.bind_some,
    List.isEmpty_cons, Fold.text]
  rfl

/-- Spaces before another word lead to that word. -/
theorem afterPlainWord_spaces
    (inFlow : Bool)
    {margin : Nat}
    (steps : Nat)
    (text : List Char)
    (k : Nat)
    {rest : List Char}
    (hrest : noGapNext rest = true)
    {index line column : Nat}
    (hmargin : margin ≤ column + 1) :
    afterPlainWord inFlow margin steps text
        ⟨List.replicate (k + 1) ' ' ++ rest, index, line, column⟩ =
      readPlainBody? inFlow margin steps text { spaces := List.replicate (k + 1) ' ' }
        ⟨rest, index + (k + 1), line, column + (k + 1)⟩ := by
  have hgap : isGap ' ' = true := rfl
  have hcolumn : decide (column + (k + 1) < margin) = false := by
    rw [decide_eq_false_iff_not]
    omega
  rw [afterPlainWord, readFold?_spaces margin (k + 1) hrest [] index line column]
  simp only [List.replicate_succ, List.cons_append, hgap, Bool.not_true, Bool.false_eq_true,
    if_false, Option.bind_eq_bind, Option.bind_some, hcolumn, Bool.and_false, List.nil_append]

/-- Reading a bare text leads behind its last word, with the text read. -/
theorem readPlainBody?_append
    {inFlow : Bool}
    {margin : Nat}
    {s tail : List Char}
    (hs : BareText inFlow s)
    (hne : s ≠ [])
    (hstart : noGapNext s = true)
    (htail : atBareEnd inFlow tail = true)
    (text spaces : List Char)
    {index line column steps : Nat}
    (hmargin : margin ≤ column + 1)
    (hmark : (⟨s ++ tail, index, line, column⟩ : Cursor).atDocumentMark = false)
    (hsteps : s.length < steps) :
    ∃ left, steps ≤ left + s.length ∧
      readPlainBody? inFlow margin steps text { spaces } ⟨s ++ tail, index, line, column⟩ =
        afterPlainWord inFlow margin left (text ++ spaces ++ s)
          ⟨tail, index + s.length, line, column + s.length⟩ := by
  induction hlen : s.length using Nat.strongRecOn
    generalizing s text spaces index column steps with
  | ind len ih =>
      obtain ⟨steps, rfl⟩ : ∃ n, steps = n + 1 := ⟨steps - 1, by omega⟩
      have hspaces : ∀ c ∈ s, isGap c = true → c = ' ' :=
        fun c hc => (isGap_of_isBareChar (hs.chars c hc)).2.2.1
      obtain ⟨word, k, rest, rfl, hword, hrest, hzero⟩ := exists_word s hspaces
      have hwordne : word ≠ [] := by
        rintro rfl
        cases k with
        | zero =>
            rw [hzero rfl] at hne
            exact hne rfl
        | succ k =>
            exact absurd hstart (by simp [List.replicate_succ, noGapNext, isGap, isSpace])
      have hwordpos : 0 < word.length :=
        List.length_pos_iff.2 hwordne
      have hbare : ∀ c ∈ word, isBareChar inFlow c = true :=
        fun c hc => hs.chars c (List.mem_append_left _ hc)
      rw [List.append_assoc] at hmark
      cases k with
      | zero =>
          rw [hzero rfl, List.replicate_zero, List.append_nil] at hmark hlen ⊢
          rw [List.append_nil] at hlen ⊢
          refine ⟨steps, by omega, ?_⟩
          rw [readPlainBody?_word hwordne hbare hword htail margin steps text spaces hmark, hlen]
      | succ k =>
          have hrestne : rest ≠ [] := by
            rintro rfl
            have hlast := hs.last ' ' (by simp [List.replicate_succ'])
            exact absurd hlast (by decide)
          have hnext : noGapNext (rest ++ tail) = true := by
            obtain ⟨r, rs, rfl⟩ := List.exists_cons_of_ne_nil hrestne
            simpa [noGapNext] using hrest
          have hrestBare : BareText inFlow rest := by
            refine ⟨fun c hc => hs.chars c (by simp [hc]), fun c hc => hs.last c ?_⟩
            rw [Option.mem_def] at hc
            simp [List.getLast?_append, hc]
          rw [List.length_append, List.length_append, List.length_replicate] at hlen hsteps
          have hmark' : (⟨rest ++ tail, index + word.length + (k + 1), line,
              column + word.length + (k + 1)⟩ : Cursor).atDocumentMark = false :=
            atDocumentMark_of_column (by omega)
          have hsteps' : rest.length < steps := by
            omega
          obtain ⟨left, hleft, heq⟩ := ih rest.length (by omega) hrestBare hrestne hrest
            (text ++ spaces ++ word) (List.replicate (k + 1) ' ') (by omega) hmark' hsteps' rfl
          refine ⟨left, by omega, ?_⟩
          rw [List.append_assoc] at hmark ⊢
          rw [List.append_assoc (List.replicate (k + 1) ' ')]
          rw [readPlainBody?_word hwordne hbare hword rfl margin steps text spaces hmark,
            afterPlainWord_spaces inFlow steps _ k hnext (by omega), heq]
          have hindex : index + word.length + (k + 1) + rest.length = index + len := by
            omega
          have hcolumn : column + word.length + (k + 1) + rest.length = column + len := by
            omega
          rw [hindex, hcolumn]
          simp only [List.append_assoc]

/-- A plain scalar before a colon, a comma, a bracket or the end of the text. -/
theorem readPlain?_stop
    {inFlow : Bool}
    {margin : Nat}
    {s tail : List Char}
    (hs : BareText inFlow s)
    (hne : s ≠ [])
    (hstart : noGapNext s = true)
    (htail : atBareEnd inFlow tail = true)
    (hstop : noGapNext tail = true)
    {index line column : Nat}
    (hmargin : margin ≤ column + 1)
    (hmark : (⟨s ++ tail, index, line, column⟩ : Cursor).atDocumentMark = false) :
    readPlain? inFlow margin ⟨s ++ tail, index, line, column⟩ =
      some (s, false, ⟨tail, index + s.length, line, column + s.length⟩) := by
  have hsteps : s.length < (s ++ tail).length + 1 := by
    rw [List.length_append]
    omega
  obtain ⟨left, -, heq⟩ := readPlainBody?_append hs hne hstart htail [] [] hmargin hmark hsteps
  rw [readPlain?, heq, afterPlainWord]
  cases tail with
  | nil =>
      rfl
  | cons x xs =>
      rw [noGapNext_cons] at hstop
      simp only [hstop, if_true, List.nil_append]

/-- A plain scalar before a line that does not go on with it: the line break and
the indentation of that line are taken too. -/
theorem readPlain?_break
    {margin : Nat}
    {s : List Char}
    (hs : BareText false s)
    (hne : s ≠ [])
    (hstart : noGapNext s = true)
    {k : Nat}
    {rest : List Char}
    (hrest : noGapNext rest = true)
    (hout : rest = [] ∨ k < margin)
    {index line column : Nat}
    (hmargin : margin ≤ column + 1)
    (hmark : (⟨s ++ '\n' :: (List.replicate k ' ' ++ rest), index, line, column⟩ :
      Cursor).atDocumentMark = false) :
    readPlain? false margin ⟨s ++ '\n' :: (List.replicate k ' ' ++ rest), index, line, column⟩ =
      some (s, true, ⟨rest, index + s.length + 1 + k, line + 1, k⟩) := by
  have hsteps : s.length < (s ++ '\n' :: (List.replicate k ' ' ++ rest)).length + 1 := by
    rw [List.length_append]
    omega
  obtain ⟨left, hleft, heq⟩ :=
    readPlainBody?_append hs hne hstart rfl [] [] hmargin hmark hsteps
  obtain ⟨fold, hbroken, hfold⟩ := readFold?_break margin k hrest (index + s.length) line
    (column + s.length)
  have hgap : isGap '\n' = true := rfl
  rw [readPlain?, heq, afterPlainWord]
  simp only [hgap, Bool.not_true, Bool.false_eq_true, if_false, hfold, Option.bind_eq_bind,
    Option.bind_some, Bool.not_false, Bool.true_and, decide_eq_true_eq, hbroken, List.nil_append]
  split
  · rfl
  · next hdeep =>
      rcases hout with rfl | hlt
      · obtain ⟨left, rfl⟩ : ∃ n, left = n + 1 := by
          rw [List.length_append, List.length_cons] at hleft
          exact ⟨left - 1, by omega⟩
        have hmark' : (⟨[], index + s.length + 1 + k, line + 1, k⟩ : Cursor).atDocumentMark =
            false := by
          simp [Cursor.atDocumentMark]
        rw [readPlainBody?, hmark']
        simp [readPlainWord?, hbroken]
      · exact absurd hlt hdeep

end Dashboard.Yaml
