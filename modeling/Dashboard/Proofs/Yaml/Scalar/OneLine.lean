import Dashboard.Yaml.Scalar.Plain

/-!
# Plain scalars on one line

A plain scalar leaves out a comment, folds line breaks and stops at the colon
behind a key.  Where none of the first two comes before the third, it is the
rest of the text as it stands.
-/

namespace Dashboard.Yaml

/-- A plain scalar that starts here comes to a line break or a comment, and to no
colon behind a key before. -/
def cutShort : List Char → Bool
  | [] => false
  | c :: cs =>
    !(c == ':' && atGap cs) &&
      (isBreak c || (isSpace c && cs.head? == some '#') || cutShort cs)

theorem normalize_cons
    {x : Char}
    (hreturn : x ≠ '\r')
    (hnext : x ≠ '\u0085')
    (cs : List Char) :
    normalize (x :: cs) = x :: normalize cs := by
  rw [normalize.eq_def]
  split
  · next heq =>
      cases heq
  · next heq =>
      exact absurd (List.cons.inj heq).1 hreturn
  · next heq =>
      exact absurd (List.cons.inj heq).1 hreturn
  · next heq =>
      exact absurd (List.cons.inj heq).1 hnext
  · next heq =>
      cases heq
      rfl

theorem normalize_eq_self
    {cs : List Char}
    (h : (normalize cs).any isBreak = false) :
    normalize cs = cs := by
  fun_induction normalize cs with
  | case1 =>
      rfl
  | case2 cs ih | case3 cs _ ih | case4 cs ih =>
      simp [isBreak] at h
  | case5 c cs _ _ _ ih =>
      rw [List.any_cons, Bool.or_eq_false_iff] at h
      rw [ih h.2]

theorem normalize_eq_nil_iff
    {cs : List Char} :
    normalize cs = [] ↔ cs = [] := by
  fun_induction normalize cs <;> simp

/-- A text that ends with no line break ends with the same character before
normalizing. -/
theorem getLast?_eq_of_normalize
    {cs : List Char}
    {y : Char}
    (hy : y ≠ '\n')
    (h : (normalize cs).getLast? = some y) :
    cs.getLast? = some y := by
  have hcons : ∀ {x z : Char} {xs : List Char},
      ((normalize xs).getLast? = some y → xs.getLast? = some y) → (x = y → z = y) →
        (x :: normalize xs).getLast? = some y → (z :: xs).getLast? = some y := by
    intro x z xs ih hx hlast
    rw [List.getLast?_cons, Option.some.injEq] at hlast ⊢
    cases hxs : (normalize xs).getLast? with
    | none =>
        rw [List.getLast?_eq_none_iff, normalize_eq_nil_iff] at hxs
        subst hxs
        exact hx hlast
    | some w =>
        rw [hxs, Option.getD_some] at hlast
        rw [ih (hlast ▸ hxs), Option.getD_some]
  fun_induction normalize cs with
  | case1 =>
      cases h
  | case2 cs ih =>
      rw [List.getLast?_cons_cons]
      exact hcons ih id h
  | case3 cs _ ih | case4 cs ih =>
      exact hcons ih (fun heq => absurd heq.symm hy) h
  | case5 c cs _ _ _ ih =>
      exact hcons ih id h

section Line

variable {cs : List Char}
variable {c d : Cursor}

/-- A word ends before a gap or before the colon behind a key, and what comes
behind it is the same for the rest of the line. -/
theorem of_readPlainWord?
    {word : List Char}
    (hrest : c.rest = cs)
    (h : readPlainWord? false cs c = some (word, d)) :
    cs = word ++ d.rest ∧ (∀ x ∈ word, isGap x = false) ∧
      cutShort d.rest = cutShort cs ∧
      (d.rest = [] ∨ (∃ x xs, d.rest = x :: xs ∧ isGap x = true) ∨
        ∃ xs, d.rest = ':' :: xs ∧ atGap xs = true) := by
  induction cs generalizing word c with
  | nil =>
      cases h
      exact ⟨hrest.symm, by simp, congrArg cutShort hrest, .inl hrest⟩
  | cons x xs ih =>
      have hstop : ∀ e, e = c → x :: xs = [] ++ e.rest ∧ (∀ y ∈ ([] : List Char), isGap y = false) ∧
          cutShort e.rest = cutShort (x :: xs) := by
        rintro e rfl
        exact ⟨hrest.symm, by simp, congrArg cutShort hrest⟩
      rw [readPlainWord?] at h
      simp only [Bool.false_and, Bool.false_eq_true, if_false] at h
      split at h
      · next hgap =>
          cases h
          obtain ⟨happend, hword, hcut⟩ := hstop _ rfl
          exact ⟨happend, hword, hcut, .inr (.inl ⟨x, xs, hrest, hgap⟩)⟩
      · next hgap =>
          split at h
          · next hend =>
              cases h
              obtain ⟨happend, hword, hcut⟩ := hstop _ rfl
              refine ⟨happend, hword, hcut, .inr (.inr ⟨xs, ?_⟩)⟩
              rw [atPlainEnd.eq_def] at hend
              split at hend
              · next heq =>
                  cases heq
              · next heq =>
                  cases heq
                  exact ⟨hrest, hend⟩
              · cases hend
          · next hend =>
              simp only [Option.bind_eq_bind, Option.bind_eq_some_iff, Option.pure_def,
                Option.some.injEq, Prod.mk.injEq] at h
              obtain ⟨⟨w, e⟩, hw, rfl, rfl⟩ := h
              have hskip : c.skip.rest = xs ∧ c.skip.column = c.column + 1 := by
                rw [Cursor.skip, hrest]
                exact ⟨rfl, rfl⟩
              obtain ⟨happend, hword, hcut, hends⟩ := ih hskip.1 hw
              have hcolon : (x == ':' && atGap xs) = false := by
                rw [Bool.eq_false_iff]
                intro hc
                simp only [Bool.and_eq_true, beq_iff_eq] at hc
                rw [hc.1] at hend
                exact hend hc.2
              have hnone : isSpace x = false ∧ isBreak x = false := by
                simpa [isGap] using hgap
              refine ⟨by rw [List.cons_append, ← happend], ?_, ?_, hends⟩
              · rw [List.forall_mem_cons]
                exact ⟨by simpa using hgap, hword⟩
              · rw [hcut, cutShort, hcolon, hnone.1, hnone.2]
                rfl

/-- Gaps where no line break comes are blanks, and no comment follows them. -/
theorem exists_of_readFold?
    {margin : Nat}
    {f f' : Fold}
    (hrest : c.rest = cs)
    (hfold : f.broken = false)
    (hcut : cutShort cs = false)
    (hhash : cs.head? ≠ some '#')
    (h : readFold? margin cs f c = some (f', d)) :
    ∃ spaces, (∀ x ∈ spaces, isSpace x = true) ∧ cs = spaces ++ d.rest ∧
      f'.spaces = f.spaces ++ spaces ∧ f'.broken = false ∧ cutShort d.rest = false ∧
      d.rest.head? ≠ some '#' ∧ d.column = c.column + spaces.length ∧
      d.rest.head?.any isGap = false := by
  induction cs generalizing f c with
  | nil =>
      cases h
      exact ⟨[], by simp, hrest.symm, by simp, hfold, by rw [hrest]; exact hcut,
        by rw [hrest]; exact hhash, rfl, by rw [hrest]; rfl⟩
  | cons x xs ih =>
      rw [readFold?] at h
      split at h
      · next hspace =>
          rw [hfold] at h
          simp only [Bool.false_and, Bool.false_eq_true, if_false] at h
          have hcolon : (x == ':') = false := by
            rw [beq_eq_false_iff_ne]
            rintro rfl
            cases hspace
          rw [cutShort, hcolon, hspace] at hcut
          simp only [Bool.false_and, Bool.not_false, Bool.true_and, Bool.or_eq_false_iff,
            beq_eq_false_iff_ne] at hcut
          have hskip : c.skip.rest = xs ∧ c.skip.column = c.column + 1 := by
            rw [Cursor.skip, hrest]
            exact ⟨rfl, rfl⟩
          have hadd : f.addSpace x = { f with spaces := f.spaces ++ [x] } := by
            rw [Fold.addSpace, hfold]
            rfl
          obtain ⟨spaces, hspaces, happend, hf, hbroken, hcut', hhash', hcolumn, hend⟩ :=
            ih hskip.1 (hadd ▸ hfold) hcut.2 hcut.1.2 h
          refine ⟨x :: spaces, List.forall_mem_cons.2 ⟨hspace, hspaces⟩, ?_, ?_, hbroken, hcut', hhash',
            ?_, hend⟩
          · rw [happend, List.cons_append]
          · rw [hf, hadd, List.append_assoc, List.singleton_append]
          · rw [hcolumn, hskip.2, List.length_cons]
            omega
      · next hspace =>
          split at h
          · next hbreak =>
              have hcolon : (x == ':') = false := by
                rw [beq_eq_false_iff_ne]
                rintro rfl
                cases hbreak
              rw [cutShort, hcolon, hbreak] at hcut
              cases hcut
          · next hbreak =>
              cases h
              refine ⟨[], by simp, hrest.symm, by simp, hfold, by rw [hrest]; exact hcut,
                by rw [hrest]; exact hhash, rfl, ?_⟩
              rw [hrest]
              simp [isGap, hspace, hbreak]

theorem any_isBreak_of_isGap
    {xs : List Char}
    (h : ∀ x ∈ xs, isGap x = false) :
    xs.any isBreak = false := by
  rw [List.any_eq_false]
  intro x hx
  have hgap := h x hx
  rw [isGap, Bool.or_eq_false_iff] at hgap
  simp [hgap.2]

theorem any_isBreak_of_isSpace
    {xs : List Char}
    (h : ∀ x ∈ xs, isSpace x = true) :
    xs.any isBreak = false := by
  rw [List.any_eq_false]
  intro x hx
  have hspace := h x hx
  simp only [isSpace, Bool.or_eq_true, beq_iff_eq] at hspace
  rcases hspace with rfl | rfl <;> decide

/-- Where nothing cuts it short, a plain scalar is the rest of the text but for
blanks at its end, or it stops at the colon behind a key. -/
theorem of_readPlainBody?
    {steps : Nat}
    {text text' : List Char}
    {fold : Fold}
    {broken : Bool}
    (hfold : fold.broken = false)
    (hspaces : ∀ x ∈ fold.spaces, isSpace x = true)
    (hmark : c.atDocumentMark = false)
    (hhash : c.rest.head? ≠ some '#')
    (hcut : cutShort c.rest = false)
    (h : readPlainBody? false 0 steps text fold c = some (text', broken, d)) :
    broken = false ∧
      ((d.rest = [] ∧ c.rest.any isBreak = false ∧
          ∃ spaces, (∀ x ∈ spaces, isSpace x = true) ∧
            text' ++ spaces = text ++ (fold.spaces ++ c.rest)) ∨
        ∃ xs, d.rest = ':' :: xs ∧ atGap xs = true) := by
  induction steps generalizing text fold c with
  | zero =>
      cases h
  | succ steps ih =>
      have hstay : (c.atDocumentMark || c.rest.head? == some '#') = false := by
        rw [hmark, Bool.false_or, beq_eq_false_iff_ne]
        exact hhash
      rw [readPlainBody?, hstay] at h
      simp only [Bool.false_eq_true, if_false, Option.bind_eq_bind, Option.bind_eq_some_iff] at h
      obtain ⟨⟨word, e⟩, hword, h⟩ := h
      obtain ⟨happend, hnogap, hcut', hends⟩ := of_readPlainWord? rfl hword
      -- the word is taken together with the blanks before it
      obtain ⟨text₁, fold₁, hnext, hfold₁, hspaces₁, htext₁⟩ : ∃ text₁ fold₁,
          (if word.isEmpty = true then (text, fold) else (text ++ fold.text ++ word, {})) =
            (text₁, fold₁) ∧ fold₁.broken = false ∧ (∀ x ∈ fold₁.spaces, isSpace x = true) ∧
              text₁ ++ fold₁.spaces = text ++ (fold.spaces ++ word) := by
        cases word with
        | nil =>
            exact ⟨text, fold, rfl, hfold, hspaces, by rw [List.append_nil]⟩
        | cons x xs =>
            refine ⟨text ++ fold.text ++ x :: xs, {}, rfl, rfl, by simp, ?_⟩
            rw [Fold.text, hfold]
            simp
      simp only [hnext] at h
      rcases hends with hnil | ⟨x, xs, hrest, hgap⟩ | ⟨xs, hrest, hgap⟩
      · rw [hnil] at h happend
        rw [List.append_nil] at happend
        cases h
        refine ⟨hfold₁, .inl ⟨hnil, ?_, fold₁.spaces, hspaces₁, ?_⟩⟩
        · rw [happend]
          exact any_isBreak_of_isGap hnogap
        · rw [happend, htext₁]
      · simp only [hrest, hgap, Bool.not_true, Bool.false_eq_true, if_false,
          Option.bind_eq_some_iff, Nat.not_lt_zero, decide_false, Bool.and_false] at h
        obtain ⟨⟨fold₂, e₂⟩, hread, h⟩ := h
        have hhash₁ : (x :: xs).head? ≠ some '#' := by
          rintro ⟨⟩
          cases hgap
        obtain ⟨spaces, hblank, happend₂, hfold₂, hbroken₂, hcut₂, hhash₂, hcolumn, hend⟩ :=
          exists_of_readFold? hrest hfold₁ (hrest ▸ hcut'.trans hcut) hhash₁ hread
        have hmark₂ : e₂.atDocumentMark = false := by
          cases spaces with
          | nil =>
              rw [List.nil_append] at happend₂
              rw [← happend₂] at hend
              simp [hgap] at hend
          | cons y ys =>
              have hzero : e₂.column ≠ 0 := by
                rw [hcolumn, List.length_cons]
                omega
              simp [Cursor.atDocumentMark, hzero]
        have hspaces₂ : ∀ y ∈ fold₂.spaces, isSpace y = true := by
          rw [hfold₂]
          intro y hy
          exact (List.mem_append.1 hy).elim (hspaces₁ y) (hblank y)
        obtain ⟨hbroken, hcases⟩ := ih hbroken₂ hspaces₂ hmark₂ hhash₂ hcut₂ h
        refine ⟨hbroken, hcases.imp_left ?_⟩
        rintro ⟨hnil, hline, rest, hrests, htext⟩
        refine ⟨hnil, ?_, rest, hrests, ?_⟩
        · rw [happend, hrest, happend₂]
          simp only [List.any_append, any_isBreak_of_isGap hnogap, any_isBreak_of_isSpace hblank,
            hline, Bool.or_self]
        · calc
            text' ++ rest = text₁ ++ (fold₂.spaces ++ e₂.rest) := htext
            _ = text₁ ++ fold₁.spaces ++ (spaces ++ e₂.rest) := by
              rw [hfold₂, List.append_assoc, List.append_assoc]
            _ = text ++ (fold.spaces ++ word) ++ e.rest := by
              rw [htext₁, hrest, happend₂]
            _ = text ++ (fold.spaces ++ c.rest) := by
              rw [happend, List.append_assoc, List.append_assoc]
      · have hcolon : isGap ':' = false := rfl
        simp only [hrest, hcolon, Bool.not_false, if_true] at h
        cases h
        exact ⟨hfold₁, .inr ⟨xs, hrest, hgap⟩⟩

/-- A plain scalar that starts the text and is not cut short. -/
theorem of_readPlain?_start
    {text : List Char}
    {broken : Bool}
    (hmark : (Cursor.start cs).atDocumentMark = false)
    (hhash : cs.head? ≠ some '#')
    (hcut : cutShort cs = false)
    (h : readPlain? false 0 (.start cs) = some (text, broken, d)) :
    broken = false ∧
      ((d.rest = [] ∧ cs.any isBreak = false ∧
          ∃ spaces, (∀ x ∈ spaces, isSpace x = true) ∧ text ++ spaces = cs) ∨
        ∃ xs, d.rest = ':' :: xs ∧ atGap xs = true) :=
  of_readPlainBody? (c := .start cs) rfl (by simp) hmark hhash hcut h

end Line

end Dashboard.Yaml
