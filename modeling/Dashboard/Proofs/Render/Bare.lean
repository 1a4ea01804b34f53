import Dashboard.Proofs.Render.Characters
import Dashboard.Proofs.Yaml.SelfReading

/-!
# Scalars without quotes

A text without quotes reads back as itself when it is the whole text.  From
that and from its characters it follows that it is read as one scalar wherever
it stands, and that this scalar is the text.  The other scalars are words and
numbers, which are never quoted.
-/

namespace Dashboard.Render

open Yaml

section Numbers

variable {c : Char}

theorem isBareChar_of_isNumeral
    (h : isNumeral c = true)
    (inFlow : Bool) :
    isBareChar inFlow c = true ∧ isGap c = false := by
  have hgap : isGap c = false := by
    rw [Bool.eq_false_iff]
    intro hc
    simp only [isGap, isSpace, isBreak, Bool.or_eq_true, beq_iff_eq] at hc
    rcases hc with (rfl | rfl) | (rfl | rfl) | rfl <;> exact absurd h (by decide)
  have hflow : isFlowIndicator c = false := by
    rw [Bool.eq_false_iff]
    intro hc
    simp only [isFlowIndicator, Bool.or_eq_true, beq_iff_eq] at hc
    rcases hc with (((rfl | rfl) | rfl) | rfl) | rfl <;> exact absurd h (by decide)
  have hcolon : c ≠ ':' := by
    rintro rfl
    exact absurd h (by decide)
  have hhash : c ≠ '#' := by
    rintro rfl
    exact absurd h (by decide)
  simp [isBareChar, hgap, hflow, hcolon, hhash]

/-- A bare text may start with a digit, also behind a dash. -/
theorem startsBare_of_isDigit
    (h : c.isDigit = true)
    (cs : List Char)
    (negative : Bool) :
    startsBare ((if negative then ['-'] else []) ++ c :: cs) = true := by
  have hgap : isGap c = false :=
    (isBareChar_of_isNumeral (isNumeral_of_isDigit h) false).2
  have hne : ∀ x : Char, x.isDigit = false → c ≠ x := by
    rintro x hx rfl
    rw [h] at hx
    exact absurd hx (by decide)
  cases negative with
  | true =>
      simp [startsBare, hgap, hne '-' rfl]
  | false =>
      have hindicator : Scanner.isIndicator c = false := by
        have hnone : "-?:,[]\x7b\x7d#&*!|>'\"%@`".toList.all (!·.isDigit) = true := by
          decide
        rw [Bool.eq_false_iff]
        intro hc
        have hdigit := List.all_eq_true.1 hnone c (List.contains_iff_mem.1 hc)
        exact hne c (by simpa using hdigit) rfl
      rw [startsBare.eq_def]
      split
      · next heq =>
          exact absurd heq (by simp)
      · next heq =>
          exact absurd (List.cons.inj heq).1 (hne '-' rfl)
      · next heq =>
          exact absurd (List.cons.inj heq).1 (hne '.' rfl)
      · next d ds _ _ heq =>
          obtain ⟨rfl, -⟩ := List.cons.inj heq
          simp [hgap, hindicator, hne byteOrderMark rfl]

theorem startsBare_of_isNumber
    {s : List Char}
    (h : IsNumber s) :
    startsBare s = true := by
  obtain ⟨negative, hfirst, -⟩ := h
  exact startsBare_of_isDigit hfirst _ negative

end Numbers

/-- A scalar that is no text is written bare everywhere. -/
theorem written_plainScalar
    {v : Value}
    {s : Scalar}
    (h : v.asScalar? = some s)
    (inFlow : Bool) :
    Written inFlow (plainScalar v) (String.ofList (plainScalar v)) true := by
  rcases plainScalar_cases h with hword | hnumber
  · have hwords : ∀ w ∈ scalarWords, w.all (isBareChar inFlow) = true ∧
        w.getLast?.all (!isGap ·) = true ∧ startsBare w = true := by
      cases inFlow <;> decide
    obtain ⟨hchars, hlast, hstarts⟩ := hwords _ hword
    refine .bare ⟨List.all_eq_true.1 hchars, fun c hc => ?_⟩ hstarts
    rw [Option.mem_def.1 hc] at hlast
    simpa using hlast
  · have htext : BareText inFlow (plainScalar v) := by
      constructor
      · intro c hc
        exact (isBareChar_of_isNumeral (hnumber.isNumeral c hc) inFlow).1
      · intro c hc
        exact (isBareChar_of_isNumeral (hnumber.isNumeral c (List.mem_of_getLast? hc)) inFlow).2
    exact .bare htext (startsBare_of_isNumber hnumber)

section Texts

variable {s : List Char}

/-- What a text without quotes is known for. -/
structure Unquoted (s : List Char) : Prop where
  ne_nil : s ≠ []
  plain : ∀ c ∈ s, isPlainChar c = true
  harmless : ∀ c ∈ s, isSignificant c = false
  head : ∀ c ∈ s.head?, Text.isBlank c = false ∧ isIndicator c = false
  last : ∀ c ∈ s.getLast?, Text.isBlank c = false
  readsBack : readChars? s = some (.scalar (.str (String.ofList s)))

theorem unquoted_of_needsQuotes
    (hne : s ≠ [])
    (h : needsQuotes s = false) :
    Unquoted s := by
  simp only [needsQuotes, Bool.or_eq_false_iff, List.any_eq_false, Bool.not_eq_true,
    Option.any_eq_false, Bool.not_eq_false'] at h
  obtain ⟨⟨⟨⟨⟨⟨hharmless, hplain⟩, hhead⟩, hlast⟩, hindicator⟩, -⟩, hreads⟩ := h
  refine ⟨hne, fun c hc => ?_, hharmless, fun c hc => ⟨hhead c hc, hindicator c hc⟩, hlast, ?_⟩
  · simpa [needsEscape] using hplain c hc
  · rw [Render.readsBack] at hreads
    split at hreads
    · next t hread =>
        rw [hread, eq_of_beq hreads]
    · exact absurd hreads (by decide)

namespace Unquoted

theorem isClean
    (h : Unquoted s) :
    IsClean s :=
  fun c hc => .inl (h.plain c hc)

/-- A text without quotes is bare in a block. -/
theorem bareText
    (h : Unquoted s) :
    BareText false s := by
  constructor
  · intro c hc
    have hharmless := h.harmless c hc
    simp only [isSignificant, Bool.or_eq_false_iff, beq_eq_false_iff_ne] at hharmless
    have hgap := eq_space_of_isPlainChar (h.plain c hc)
    simp only [isBareChar, Bool.false_and, Bool.not_false, Bool.and_true, Bool.and_eq_true,
      bne_iff_ne, Bool.or_eq_true, Bool.not_eq_true', beq_iff_eq]
    refine ⟨⟨hharmless.1.1.1.1.1.1.1, hharmless.1.1.1.1.1.1.2⟩, ?_⟩
    cases hc : isGap c with
    | true =>
        exact .inr (hgap hc)
    | false =>
        exact .inl rfl
  · intro c hc
    have hblank := h.last c hc
    have hgap := eq_space_of_isPlainChar (h.plain c (List.mem_of_getLast? hc))
    rw [Bool.eq_false_iff]
    intro hc
    rw [hgap hc] at hblank
    exact absurd hblank (by decide)

/-- A text without quotes may stand where a scalar starts. -/
theorem startsBare
    (h : Unquoted s) :
    Yaml.startsBare s = true := by
  obtain ⟨c, cs, rfl⟩ := List.exists_cons_of_ne_nil h.ne_nil
  obtain ⟨hblank, hindicator⟩ := h.head c rfl
  have hclean := h.isClean.normalize_eq
  have hharmless := h.harmless c List.mem_cons_self
  rw [startsBare.eq_def]
  split
  · next heq =>
      exact absurd heq (by simp)
  · next heq =>
      rw [(List.cons.inj heq).1] at hharmless
      exact absurd hharmless (by decide)
  · next ds heq =>
      rw [heq] at h hclean
      rw [Bool.not_eq_true', Bool.eq_false_iff]
      intro hgap
      exact readChars?_ne_of_documentEnd hgap hclean h.readsBack
  · next d ds _ _ heq =>
      obtain ⟨rfl, rfl⟩ := List.cons.inj heq
      have hmark : c ≠ byteOrderMark := by
        rintro rfl
        exact readChars?_ne_of_byteOrderMark hclean h.readsBack
      have hgap : isGap c = false := by
        rw [Bool.eq_false_iff]
        intro hc
        rw [eq_space_of_isPlainChar (h.plain c List.mem_cons_self) hc] at hblank
        exact absurd hblank (by decide)
      have hstart : Scanner.isIndicator c = false := by
        have hcovered : "-?:,[]\x7b\x7d#&*!|>'\"%@`".toList.all
            (fun x => isSignificant x || isIndicator x) = true := by
          decide
        rw [Bool.eq_false_iff]
        intro hc
        have hx := List.all_eq_true.1 hcovered c (List.contains_iff_mem.1 hc)
        rcases (Bool.or_eq_true _ _).mp hx with hx | hx
        · rw [hharmless] at hx
          exact absurd hx (by decide)
        · rw [hindicator] at hx
          exact absurd hx (by decide)
      simp [hgap, hstart, hmark]

/-- A text without quotes is no other scalar. -/
theorem ofPlain?_eq
    (h : Unquoted s) :
    Scalar.ofPlain? s = some (.str (String.ofList s)) := by
  have hread := readChars?_of_startsBare h.isClean.printable h.isClean.normalize_eq h.bareText
    h.startsBare
  rw [h.readsBack] at hread
  obtain ⟨t, ht, heq⟩ := Option.map_eq_some_iff.1 hread.symm
  rw [ht, Datum.scalar.inj heq]

end Unquoted

/-- A text that is written without quotes. -/
def isBare (s : String) : Bool :=
  !s.toList.isEmpty && !needsQuotes s.toList

theorem unquoted_of_isBare
    {t : String}
    (h : isBare t = true) :
    Unquoted t.toList := by
  simp only [isBare, Bool.and_eq_true, Bool.not_eq_true', List.isEmpty_eq_false_iff] at h
  exact unquoted_of_needsQuotes h.1 h.2

/-- The three ways to write a text in a block. -/
theorem quoted_cases
    (t : String) :
    (t = "" ∧ quoted t.toList = ['\'', '\''] ∧ isBare t = false) ∨
      (quoted t.toList = doubleQuoted t.toList ∧ isBare t = false) ∨
      (quoted t.toList = t.toList ∧ isBare t = true) := by
  rw [quoted]
  split
  · next hempty =>
      refine .inl ⟨?_, rfl, by simp [isBare, hempty]⟩
      rw [← String.ofList_toList (s := t), List.isEmpty_iff.1 hempty]
  · split
    · next hquotes =>
        exact .inr (.inl ⟨rfl, by simp [isBare, hquotes]⟩)
    · next hempty hquotes =>
        exact .inr (.inr ⟨rfl, by simp [isBare, hempty, hquotes]⟩)

/-- A text is written as one scalar, plain when it is bare. -/
theorem written_quoted
    (t : String) :
    Written false (quoted t.toList) t (isBare t) := by
  rcases quoted_cases t with ⟨rfl, hquoted, hbare⟩ | ⟨hquoted, hbare⟩ | ⟨hquoted, hbare⟩
  · rw [hquoted, hbare]
    exact .empty
  · have hwritten : Written false (doubleQuoted t.toList) (String.ofList t.toList) false :=
      .quoted _
    rw [String.ofList_toList] at hwritten
    rwa [hquoted, hbare]
  · have hunquoted := unquoted_of_isBare hbare
    have hwritten := Written.bare hunquoted.bareText hunquoted.startsBare
    rw [String.ofList_toList] at hwritten
    rwa [hquoted, hbare]

end Texts

end Dashboard.Render
