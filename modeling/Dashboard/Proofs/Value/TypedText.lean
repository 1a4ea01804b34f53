import Dashboard.Proofs.Text.Trimming
import Dashboard.Proofs.Yaml.Unquoted
import Dashboard.Value.OfYaml

/-!
# Texts typed into form fields

A text that a form field takes for text is kept as it was typed, without the
blanks around it, and a collection is the whole text, from the bracket that
opens it to the one that closes it.  The exceptions are texts of which the YAML
reader leaves a part out: a comment, a line break, a mark at the start, or what
stands behind a collection.
-/

namespace Dashboard

open Yaml

/-- What opens with a bracket may be read as a collection without what stands
behind the bracket that closes the first one. -/
def losesBehind (cs : List Char) : Bool :=
  (behindBracket? cs).any (fun r => !r.isEmpty && atNodeEnd (r.dropWhile isSpace)) ||
    (scan? cs).any (HasLoneKey ·)

/-- A part of a typed text may be dropped when it is read. -/
def dropsPart (text : String) : Bool :=
  match normalize (Text.trim text).toList with
  | '[' :: cs => losesBehind ('[' :: cs)
  | '\x7b' :: cs => losesBehind ('\x7b' :: cs)
  | cs => losesText cs

theorem dropsPart_of_left
    {text : String}
    {b : Bracket}
    {cs : List Char}
    (hcs : normalize (Text.trim text).toList = b.left :: cs) :
    dropsPart text = losesBehind (b.left :: cs) := by
  rw [dropsPart, hcs]
  cases b <;> rfl

theorem dropsPart_of_ne_left
    {text : String}
    {c : Char}
    {cs : List Char}
    (hcs : normalize (Text.trim text).toList = c :: cs)
    (hc : ∀ b : Bracket, c ≠ b.left) :
    dropsPart text = losesText (c :: cs) := by
  rw [dropsPart, hcs]
  split
  · next heq =>
      exact absurd (List.cons.inj heq).1 (hc .square)
  · next heq =>
      exact absurd (List.cons.inj heq).1 (hc .brace)
  · rfl

/-- What separates the tokens of YAML is trimmed away. -/
theorem isBlank_of_isGap
    {c : Char}
    (h : isGap c = true) :
    Text.isBlank c = true := by
  simp only [isGap, isSpace, isBreak, Bool.or_eq_true, beq_iff_eq] at h
  rcases h with (rfl | rfl) | (rfl | rfl) | rfl <;> rfl

/-- Only a text has a text as its value. -/
theorem Value.eq_of_ofScalar_str
    {d : Yaml.Scalar}
    {s : String}
    (h : ofScalar d = .str s) :
    d = .str s := by
  cases d with
  | null | bool b | float x =>
      cases h
  | int n =>
      rw [ofScalar, ofInt] at h
      split at h <;> cases h
  | str t =>
      cases h
      rfl

section Trimmed

variable {text : String}
variable {c : Char}
variable {cs : List Char}

/-- A trimmed text starts with no gap, and normalizing leaves that character. -/
theorem normalize_trim
    (hcs : (Text.trim text).toList = c :: cs) :
    isGap c = false ∧ normalize (Text.trim text).toList = c :: normalize cs := by
  have hblank : Text.isBlank c = false := by
    have hhead : c ∈ (Text.trimChars text.toList).head? := by
      rw [← String.toList_ofList (l := Text.trimChars text.toList), ← Text.trim, hcs]
      rfl
    exact Text.isBlank_of_mem_head?_trimChars hhead
  have hne : ∀ d, Text.isBlank d = true → c ≠ d := by
    rintro d hd rfl
    rw [hblank] at hd
    cases hd
  refine ⟨?_, ?_⟩
  · rw [Bool.eq_false_iff]
    exact fun hgap => hne c (isBlank_of_isGap hgap) rfl
  · rw [hcs, normalize_cons (hne _ rfl) (hne _ rfl)]

theorem isSpace_getLast?_trim
    (text : String) :
    ∀ y ∈ (Text.trim text).toList.getLast?, isSpace y = false := by
  intro y hy
  rw [Text.trim, String.toList_ofList] at hy
  rw [Bool.eq_false_iff]
  intro hspace
  have hblank := Text.isBlank_of_mem_getLast?_trimChars hy
  rw [isBlank_of_isGap (by rw [isGap, hspace]; rfl)] at hblank
  cases hblank

/-- A text that opens with no quote and no bracket is kept, if it is taken for
text. -/
theorem eq_trim_of_ofFormText_str
    {s : String}
    (hcs : (Text.trim text).toList = c :: cs)
    (hopens : c ∉ ['\'', '"', '[', '\x7b'])
    (hdrops : dropsPart text = false)
    (h : Value.ofFormText text = .str s) :
    s = Text.trim text := by
  simp only [List.mem_cons, List.not_mem_nil, or_false, not_or] at hopens
  obtain ⟨hsingle, hdouble, hsquare, hbrace⟩ := hopens
  obtain ⟨hgap, hnormal⟩ := normalize_trim hcs
  have hloses : losesText (c :: normalize cs) = false := by
    rw [← dropsPart_of_ne_left hnormal ?_, hdrops]
    intro b
    cases b
    · exact hsquare
    · exact hbrace
  have hbracket : (c == '[' || c == '\x7b') = false := by
    simp [hsquare, hbrace]
  simp only [Value.ofFormText, hcs, hbracket] at h
  split at h
  · exact (Value.str.inj h).symm
  · next hname =>
      split at h
      · split at h
        · cases h
        · exact (Value.str.inj h).symm
      · next hread =>
          obtain rfl := Value.eq_of_ofScalar_str h
          rw [Bool.or_eq_true, not_or] at hname
          have hother : c ∉ ['\'', '"', '[', '\x7b', '&', '*'] := by
            simpa [hsingle, hdouble, hsquare, hbrace] using hname
          rw [eq_of_readChars?_str hnormal hgap hother (isSpace_getLast?_trim text) hloses hread,
            String.ofList_toList]
      · exact (Value.str.inj h).symm
      · exact (Value.str.inj h).symm
      · exact (Value.str.inj h).symm

/-- A text that is read as a collection is one from its first bracket to the one
that closes it. -/
theorem exists_brackets_of_readChars?
    {b : Bracket}
    {d : Datum}
    (hcs : (Text.trim text).toList = b.left :: cs)
    (hdrops : dropsPart text = false)
    (h : readChars? (Text.trim text).toList = some d)
    (hd : d ≠ .scalar .null) :
    (∃ mid, (Text.trim text).toList = b.left :: (mid ++ [b.right])) ∧
      behindBracket? (normalize (Text.trim text).toList) = some [] := by
  obtain ⟨-, hnormal⟩ := normalize_trim hcs
  rw [dropsPart_of_left hnormal, losesBehind, Bool.or_eq_false_iff] at hdrops
  obtain ⟨hbehind, hlone⟩ := hdrops
  obtain ⟨ts, hscan, ⟨-, hnull⟩ | ⟨n, hdocument, -⟩⟩ := exists_of_readChars? h
  · exact absurd hnull hd
  rw [hnormal] at hscan
  have hlone' : ¬HasLoneKey ts := by
    simpa [hscan] using hlone
  obtain ⟨r, hr, hsuffix, hends⟩ := exists_behindBracket? hscan hlone' hdocument
  obtain rfl : r = [] := by
    simpa [hr, hends] using hbehind
  refine ⟨?_, hnormal ▸ hr⟩
  obtain ⟨ys, hys⟩ := hsuffix
  have hright : b.right ≠ '\n' := by
    cases b <;> decide
  have hlast : (Text.trim text).toList.getLast? = some b.right := by
    refine getLast?_eq_of_normalize hright ?_
    rw [hnormal, ← hys, ← List.cons_append, List.getLast?_concat]
  rw [hcs] at hlast ⊢
  obtain ⟨us, hus⟩ := List.getLast?_eq_some_iff.1 hlast
  cases us with
  | nil =>
      cases b <;> cases hus
  | cons u us =>
      obtain ⟨-, rfl⟩ := List.cons.inj hus
      exact ⟨us, rfl⟩

end Trimmed

namespace Value

theorem isContainer_ofScalar
    (d : Yaml.Scalar) :
    (ofScalar d).isContainer = false := by
  cases d with
  | null | bool b | float x | str t =>
      rfl
  | int n =>
      rw [ofScalar, ofInt]
      split <;> rfl

/-- Only a text that opens with a bracket, and is read as something, is taken for
a collection. -/
theorem exists_of_isContainer_ofFormText
    {text : String}
    (h : (ofFormText text).isContainer = true) :
    ∃ (b : Bracket) (cs : List Char) (d : Datum), (Text.trim text).toList = b.left :: cs ∧
      readChars? (Text.trim text).toList = some d ∧ d ≠ .scalar .null := by
  have hbracket : ∀ {c : Char}, (c == '[' || c == '\x7b') = true → ∃ b : Bracket, c = b.left := by
    intro c hc
    rw [Bool.or_eq_true, beq_iff_eq, beq_iff_eq] at hc
    rcases hc with rfl | rfl
    · exact ⟨.square, rfl⟩
    · exact ⟨.brace, rfl⟩
  simp only [ofFormText] at h
  split at h
  · cases h
  · next c cs hcs =>
      split at h
      · cases h
      · split at h
        · split at h <;> cases h
        · rw [isContainer_ofScalar] at h
          cases h
        · next items hread =>
            split at h
            · next hc =>
                obtain ⟨b, rfl⟩ := hbracket hc
                exact ⟨b, cs, _, hcs, hread, by rintro ⟨⟩⟩
            · cases h
        · next entries hread =>
            split at h
            · next hc =>
                obtain ⟨b, rfl⟩ := hbracket hc
                exact ⟨b, cs, _, hcs, hread, by rintro ⟨⟩⟩
            · cases h
        · cases h

/-- Unless a part may be dropped, a typed text that is taken for text is kept
whole, and one that is taken for a collection is a collection as a whole. -/
theorem ofFormText_whole
    (text : String)
    (hdrops : dropsPart text = false) :
    ((∀ c ∈ (Text.trim text).toList.head?, c ∉ ['\'', '"', '[', '\x7b']) →
        ∀ s, ofFormText text = .str s → s = Text.trim text) ∧
      ((ofFormText text).isContainer = true →
        ∃ b : Bracket, (∃ mid, (Text.trim text).toList = b.left :: (mid ++ [b.right])) ∧
          behindBracket? (normalize (Text.trim text).toList) = some []) := by
  refine ⟨fun hopens s hs => ?_, fun hcontainer => ?_⟩
  · cases hcs : (Text.trim text).toList with
    | nil =>
        simp only [ofFormText, hcs] at hs
        rw [← Value.str.inj hs, ← String.toList_inj, hcs]
        rfl
    | cons c cs =>
        exact eq_trim_of_ofFormText_str hcs (hopens c (by rw [hcs]; rfl)) hdrops hs
  · obtain ⟨b, cs, d, hcs, hread, hd⟩ := exists_of_isContainer_ofFormText hcontainer
    exact ⟨b, exists_brackets_of_readChars? hcs hdrops hread hd⟩

/-- An entry of a mapping without brackets is kept, its comment with it, and a
collection ends where the text does. -/
theorem ofFormText_whole_entry :
    (dropsPart " a: b # c " = false ∧
        ofFormText " a: b # c " = .str (Text.trim " a: b # c ")) ∧
      (dropsPart " [a, \x7bb: c\x7d] " = false ∧
        behindBracket? (normalize (Text.trim " [a, \x7bb: c\x7d] ").toList) = some []) := by
  have hentry : dropsPart " a: b # c " = false := by
    decide +kernel
  have hlist : dropsPart " [a, \x7bb: c\x7d] " = false := by
    decide +kernel
  have hread : ofFormText " a: b # c " = .str "a: b # c" := by
    decide +kernel
  have hopens : ∀ c ∈ (Text.trim " a: b # c ").toList.head?, c ∉ ['\'', '"', '[', '\x7b'] := by
    rw [show (Text.trim " a: b # c ").toList.head? = some 'a' by decide +kernel]
    rintro c ⟨⟩
    decide
  have hkept := (ofFormText_whole " a: b # c " hentry).1 hopens _ hread
  obtain ⟨b, -, hbehind⟩ := (ofFormText_whole " [a, \x7bb: c\x7d] " hlist).2 (by decide +kernel)
  exact ⟨⟨hentry, hkept ▸ hread⟩, hlist, hbehind⟩

/-- A comment is dropped. -/
theorem not_ofFormText_whole :
    ¬∀ text : String, (∀ c ∈ (Text.trim text).toList.head?, c ∉ ['\'', '"', '[', '\x7b']) →
      ∀ s, ofFormText text = .str s → s = Text.trim text := by
  intro h
  have hread : ofFormText "a # b" = .str "a" := by
    decide +kernel
  have hopens : ∀ c ∈ (Text.trim "a # b").toList.head?, c ∉ ['\'', '"', '[', '\x7b'] := by
    rw [show (Text.trim "a # b").toList.head? = some 'a' by decide +kernel]
    rintro c ⟨⟩
    decide
  have heq := h "a # b" hopens "a" hread
  revert heq
  decide +kernel

end Value

end Dashboard
