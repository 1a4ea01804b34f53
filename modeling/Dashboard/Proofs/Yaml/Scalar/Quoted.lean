import Dashboard.Proofs.Yaml.Scalar.Folding
import Dashboard.Proofs.Yaml.Scalar.Plain
import Dashboard.Render.Quoting

/-!
# Quoted scalars are read back

Every text between double quotes is read as that text: an escape stands for
the one character it was written for, and all other characters stand for
themselves.  The reader takes words and spaces in turn, as it does for plain
scalars.
-/

namespace Dashboard

namespace Render

/-- The only blank among the plain characters is the space. -/
theorem eq_space_of_isPlainChar
    {c : Char}
    (hplain : isPlainChar c = true)
    (hgap : Yaml.isGap c = true) :
    c = ' ' := by
  simp only [Yaml.isGap, Yaml.isSpace, Yaml.isBreak, Bool.or_eq_true, beq_iff_eq] at hgap
  rcases hgap with (rfl | rfl) | (rfl | rfl) | rfl
  · rfl
  all_goals exact absurd hplain (by decide)

/-- A character that needs an escape has a short code point. -/
theorem toNat_lt_of_needsEscape
    {c : Char}
    (h : needsEscape c = true) :
    c.toNat < 0x10000 := by
  simp only [needsEscape, isPlainChar, Bool.not_eq_true', Bool.or_eq_false_iff,
    decide_eq_false_iff_not] at h
  omega

/-- A digit in upper case has its value. -/
theorem hexValue?_digitChar :
    ∀ d < 16, Yaml.hexValue? (Nat.digitChar d).toUpper = some d := by
  decide

/-- Four digits in upper case are read as the code point they are for. -/
theorem readHex?_hex4
    {n : Nat}
    (h : n < 0x10000)
    (rest : List Char) :
    Yaml.readHex? 4 0 (hex4 n ++ rest) = some (n, rest) := by
  have h3 := hexValue?_digitChar (n / 4096) (by omega)
  have h2 := hexValue?_digitChar (n / 256 % 16) (by omega)
  have h1 := hexValue?_digitChar (n / 16 % 16) (by omega)
  have h0 := hexValue?_digitChar (n % 16) (by omega)
  have hsum : (((0 * 16 + n / 4096) * 16 + n / 256 % 16) * 16 + n / 16 % 16) * 16 + n % 16 =
      n := by
    omega
  simp only [hex4, List.map_cons, List.map_nil, List.cons_append, List.nil_append,
    Yaml.readHex?, h3, h2, h1, h0, Option.bind_eq_bind, Option.bind_some, hsum]

/-- A character is the character of its code point. -/
theorem charOf?_toNat
    (c : Char) :
    Yaml.charOf? c.toNat = some c := by
  have hvalid : c.toNat < 0xD800 ∨ (0xDFFF < c.toNat ∧ c.toNat ≤ 0x10FFFF) := by
    have hc := c.valid
    simp only [UInt32.isValidChar, Nat.isValidChar] at hc
    rcases hc with hc | hc
    · exact .inl hc
    · refine .inr ⟨hc.1, ?_⟩
      have hlt : c.toNat < 0x110000 := hc.2
      omega
  rw [Yaml.charOf?, if_pos hvalid, Char.ofNat_toNat]

/-- A character stands for itself, or is read back from its escape. -/
theorem escape_cases
    (c : Char) :
    (escape c = [c] ∧ isPlainChar c = true ∧ c ≠ '"' ∧ c ≠ '\\') ∨
      ∃ letter more, escape c = '\\' :: letter :: more ∧ Yaml.isBreak letter = false ∧
        ∀ rest, Yaml.readEscape? (escape c ++ rest) = some (c, (escape c).length) := by
  by_cases hquote : c = '"'
  · subst hquote
    exact .inr ⟨'"', [], rfl, rfl, fun _ => rfl⟩
  by_cases hslash : c = '\\'
  · subst hslash
    exact .inr ⟨'\\', [], rfl, rfl, fun _ => rfl⟩
  by_cases hfeed : c = '\n'
  · subst hfeed
    exact .inr ⟨'n', [], rfl, rfl, fun _ => rfl⟩
  by_cases hreturn : c = '\r'
  · subst hreturn
    exact .inr ⟨'r', [], rfl, rfl, fun _ => rfl⟩
  by_cases htab : c = '\t'
  · subst htab
    exact .inr ⟨'t', [], rfl, rfl, fun _ => rfl⟩
  by_cases hescape : needsEscape c = true
  · have hform : escape c = '\\' :: 'u' :: hex4 c.toNat := by
      simp [escape, hquote, hslash, hfeed, hreturn, htab, hescape]
    refine .inr ⟨'u', hex4 c.toNat, hform, rfl, fun rest => ?_⟩
    have hwidth : Yaml.escapeWidth? 'u' = some 4 := rfl
    have hhex := readHex?_hex4 (toNat_lt_of_needsEscape hescape) rest
    have hlength : (hex4 c.toNat).length = 4 := rfl
    rw [hform, List.cons_append, List.cons_append, Yaml.readEscape?]
    simp only [hwidth, hhex, charOf?_toNat, Option.bind_eq_bind, Option.bind_some,
      List.length_cons, hlength, Nat.reduceAdd]
    rfl
  · have hplain : isPlainChar c = true := by
      simpa [needsEscape] using hescape
    have hform : escape c = [c] := by
      simp [escape, hquote, hslash, hfeed, hreturn, htab, needsEscape, hplain]
    exact .inl ⟨hform, hplain, hquote, hslash⟩

end Render

namespace Yaml

open Render (escape)

/-- The place behind a text without line breaks. -/
theorem skipN_append
    (cs rest : List Char)
    (index line column : Nat) :
    Cursor.skipN cs.length ⟨cs ++ rest, index, line, column⟩ =
      ⟨rest, index + cs.length, line, column + cs.length⟩ := by
  induction cs generalizing index column with
  | nil =>
      rfl
  | cons c cs ih =>
      rw [List.length_cons, Cursor.skipN, Cursor.skip, List.cons_append]
      simp only [ih, Nat.add_assoc, Nat.add_comm 1]

/-- A word between double quotes, read up to a space or the closing quote. -/
theorem readQuotedWord?_append
    {word : List Char}
    (hword : ∀ c ∈ word, c ≠ ' ')
    {tail : List Char}
    (htail : tail.head?.any (fun c => c == ' ' || c == '"') = true)
    (text : List Char)
    (index line column : Nat)
    {steps : Nat}
    (hsteps : word.length < steps) :
    readQuotedWord? true steps text ⟨word.flatMap escape ++ tail, index, line, column⟩ =
      some (text ++ word, .gap, ⟨tail, index + (word.flatMap escape).length, line,
        column + (word.flatMap escape).length⟩) := by
  induction word generalizing text index column steps with
  | nil =>
      obtain ⟨steps, rfl⟩ : ∃ n, steps = n + 1 := ⟨steps - 1, by omega⟩
      cases tail with
      | nil =>
          simp at htail
      | cons t ts =>
          have ht : t = ' ' ∨ t = '"' := by
            simpa using htail
          rcases ht with rfl | rfl
          · simp [readQuotedWord?, isGap, isSpace]
          · simp [readQuotedWord?, isGap, isSpace, isBreak]
  | cons c cs ih =>
      rw [List.length_cons] at hsteps
      obtain ⟨steps, rfl⟩ : ∃ n, steps = n + 1 := ⟨steps - 1, by omega⟩
      have hcs : ∀ d ∈ cs, d ≠ ' ' :=
        fun d hd => hword d (List.mem_cons_of_mem _ hd)
      have hc : c ≠ ' ' :=
        hword c List.mem_cons_self
      rw [List.flatMap_cons, List.append_assoc, List.length_append, readQuotedWord?]
      rcases Render.escape_cases c with ⟨hform, hplain, hquote, hslash⟩ |
        ⟨letter, more, hform, hbreak, hread⟩
      · have hgap : isGap c = false := by
          rw [Bool.eq_false_iff]
          exact fun hgap => hc (Render.eq_space_of_isPlainChar hplain hgap)
        simp only [hform, List.cons_append, List.nil_append, hgap, Bool.false_eq_true, if_false,
          beq_iff_eq, hquote, hslash, if_true, Cursor.skip]
        rw [ih hcs _ _ _ (by omega), List.append_assoc]
        simp only [List.length_singleton, Nat.add_assoc, List.singleton_append]
      · have hrest := hread (cs.flatMap escape ++ tail)
        have hgap : isGap '\\' = false := rfl
        have hquote : ('\\' == '"') = false := rfl
        have hskipped := skipN_append (escape c) (cs.flatMap escape ++ tail) index line column
        rw [hform] at hrest hskipped ⊢
        simp only [List.cons_append, hgap, Bool.false_eq_true, if_false, hquote, beq_self_eq_true,
          if_true, hbreak] at hrest hskipped ⊢
        rw [hrest]
        simp only [Option.bind_eq_bind, Option.bind_some, hskipped]
        rw [ih hcs _ _ _ (by omega), List.append_assoc]
        simp only [List.singleton_append, Nat.add_assoc]

/-- Nothing is shorter with escapes. -/
theorem length_le_flatMap_escape
    (s : List Char) :
    s.length ≤ (s.flatMap escape).length := by
  induction s with
  | nil =>
      exact Nat.le_refl 0
  | cons c cs ih =>
      have hpos : 0 < (escape c).length := by
        rcases Render.escape_cases c with ⟨hform, -⟩ | ⟨letter, more, hform, -⟩
        · simp [hform]
        · simp [hform]
      rw [List.flatMap_cons, List.length_append, List.length_cons]
      omega

/-- Spaces are written as they are. -/
theorem flatMap_escape_spaces
    (k : Nat) :
    (List.replicate k ' ').flatMap escape = List.replicate k ' ' := by
  induction k with
  | zero =>
      rfl
  | succ k ih =>
      have hspace : escape ' ' = [' '] := by
        decide
      rw [List.replicate_succ, List.flatMap_cons, ih, hspace, List.singleton_append]

/-- The first word of a text, the spaces after it, and the rest. -/
theorem exists_spaces
    (s : List Char) :
    ∃ (word : List Char) (k : Nat) (rest : List Char),
      s = word ++ (List.replicate k ' ' ++ rest) ∧ (∀ c ∈ word, c ≠ ' ') ∧
        rest.head? ≠ some ' ' ∧ (k = 0 → rest = []) := by
  induction s with
  | nil =>
      exact ⟨[], 0, [], rfl, by simp, by simp, fun _ => rfl⟩
  | cons c cs ih =>
      obtain ⟨word, k, rest, rfl, hword, hrest, hzero⟩ := ih
      by_cases hc : c = ' '
      · subst hc
        cases word with
        | nil =>
            exact ⟨[], k + 1, rest, by simp [List.replicate_succ], by simp, hrest, by omega⟩
        | cons w ws =>
            have hw : w ≠ ' ' :=
              hword w List.mem_cons_self
            exact ⟨[], 1, w :: ws ++ (List.replicate k ' ' ++ rest), rfl, by simp,
              by simpa using hw, by omega⟩
      · refine ⟨c :: word, k, rest, rfl, ?_, hrest, hzero⟩
        intro d hd
        rcases List.mem_cons.1 hd with rfl | hd
        · exact hc
        · exact hword d hd

/-- What is written for a text that starts with no space starts with no gap. -/
theorem noGapNext_escape
    {s : List Char}
    (hs : s.head? ≠ some ' ')
    (rest : List Char) :
    noGapNext (s.flatMap escape ++ '"' :: rest) = true := by
  cases s with
  | nil =>
      rfl
  | cons c cs =>
      have hc : c ≠ ' ' := by
        simpa using hs
      rw [List.flatMap_cons]
      rcases Render.escape_cases c with ⟨hform, hplain, -, -⟩ | ⟨letter, more, hform, -, -⟩
      · have hgap : isGap c = false := by
          rw [Bool.eq_false_iff]
          exact fun hgap => hc (Render.eq_space_of_isPlainChar hplain hgap)
        rw [hform]
        simp [noGapNext, hgap]
      · rw [hform]
        rfl

/-- The text between double quotes is read to the closing quote. -/
theorem readQuotedBody?_append
    (s rest text : List Char)
    (index line : Nat)
    {column steps : Nat}
    (hcolumn : column ≠ 0)
    (hsteps : s.length < steps) :
    readQuotedBody? true steps text ⟨s.flatMap escape ++ '"' :: rest, index, line, column⟩ =
      some (text ++ s, ⟨rest, index + (s.flatMap escape).length + 1, line,
        column + (s.flatMap escape).length + 1⟩) := by
  induction hlen : s.length using Nat.strongRecOn
    generalizing s text index column steps with
  | ind len ih =>
      obtain ⟨steps, rfl⟩ : ∃ n, steps = n + 1 := ⟨steps - 1, by omega⟩
      obtain ⟨word, k, more, rfl, hword, hmore, hzero⟩ := exists_spaces s
      rw [List.length_append, List.length_append, List.length_replicate] at hlen hsteps
      have hword_steps : ∀ tail : List Char,
          word.length < (word.flatMap escape ++ tail).length + 1 := by
        intro tail
        have hle := length_le_flatMap_escape word
        rw [List.length_append]
        omega
      rw [List.flatMap_append, List.flatMap_append, flatMap_escape_spaces, List.append_assoc,
        List.append_assoc, readQuotedBody?, atDocumentMark_of_column hcolumn]
      cases k with
      | zero =>
          have hend : ('"' :: rest).head?.any (fun c => c == ' ' || c == '"') = true := rfl
          have hread := readQuotedWord?_append hword hend text index line column
            (hword_steps ('"' :: rest))
          rw [hzero rfl]
          simp only [List.replicate_zero, List.flatMap_nil, List.nil_append, List.append_nil,
            hread, Bool.false_eq_true, if_false, Option.bind_eq_bind, Option.bind_some, if_true,
            beq_self_eq_true, Cursor.skip]
          rfl
      | succ k =>
          have hend : (List.replicate (k + 1) ' ' ++ (more.flatMap escape ++ '"' :: rest)).head?.any
              (fun c => c == ' ' || c == '"') = true := rfl
          have hread := readQuotedWord?_append hword hend text index line column
            (hword_steps (List.replicate (k + 1) ' ' ++ (more.flatMap escape ++ '"' :: rest)))
          have hfold := readFold?_spaces 0 (k + 1) (noGapNext_escape hmore rest) []
            (index + (word.flatMap escape).length) line (column + (word.flatMap escape).length)
          have hdeep : column + (word.flatMap escape).length + (k + 1) ≠ 0 := by
            omega
          have hmoreSteps : more.length < steps := by
            omega
          have hbody := ih more.length (by omega) more
            (text ++ word ++ List.replicate (k + 1) ' ')
            (index + (word.flatMap escape).length + (k + 1)) hdeep hmoreSteps rfl
          have hspace : (' ' == '"') = false := rfl
          rw [hread]
          simp only [List.replicate_succ, List.cons_append, List.nil_append] at hfold hbody ⊢
          simp only [hfold, hbody, Bool.false_eq_true, if_false, Option.bind_eq_bind,
            Option.bind_some, if_true, hspace, Fold.text]
          simp only [List.append_assoc, List.length_append, List.length_cons,
            List.length_replicate, List.cons_append, Nat.add_assoc, Nat.add_comm 1]

/-- A text between double quotes is read back. -/
theorem readQuoted?_doubleQuoted
    (s rest : List Char)
    (index line column : Nat) :
    readQuoted? true ⟨Render.doubleQuoted s ++ rest, index, line, column⟩ =
      some (s, ⟨rest, index + (Render.doubleQuoted s).length, line,
        column + (Render.doubleQuoted s).length⟩) := by
  have hlength : (Render.doubleQuoted s).length = (s.flatMap escape).length + 2 := by
    simp [Render.doubleQuoted]
  have htext : Render.doubleQuoted s ++ rest = '"' :: (s.flatMap escape ++ '"' :: rest) := by
    simp [Render.doubleQuoted]
  have hsteps : s.length < ('"' :: (s.flatMap escape ++ '"' :: rest)).length + 1 := by
    have hle := length_le_flatMap_escape s
    rw [List.length_cons, List.length_append]
    omega
  rw [readQuoted?, htext, hlength]
  simp only [Cursor.skip]
  rw [readQuotedBody?_append s rest [] (index + 1) line (by omega) hsteps, List.nil_append]
  simp only [Nat.add_assoc, Nat.add_comm 1]

/-- Two single quotes are the empty text. -/
theorem readQuoted?_empty
    {rest : List Char}
    (hrest : rest.head? ≠ some '\'')
    (index line column : Nat) :
    readQuoted? false ⟨'\'' :: '\'' :: rest, index, line, column⟩ =
      some ([], ⟨rest, index + 2, line, column + 2⟩) := by
  have hmark : (⟨'\'' :: rest, index + 1, line, column + 1⟩ : Cursor).atDocumentMark = false :=
    atDocumentMark_of_column (by omega)
  have hword : ∀ steps, readQuotedWord? false (steps + 1) []
      ⟨'\'' :: rest, index + 1, line, column + 1⟩ =
        some ([], .gap, ⟨'\'' :: rest, index + 1, line, column + 1⟩) := by
    intro steps
    have hgap : isGap '\'' = false := rfl
    rw [readQuotedWord?]
    simp only [hgap, Bool.false_eq_true, if_false, beq_self_eq_true, if_true]
    split
    · next more =>
        exact absurd rfl hrest
    · rfl
  simp only [readQuoted?, Cursor.skip, readQuotedBody?, hmark, Bool.false_eq_true, if_false,
    List.length_cons, hword, Option.bind_eq_bind, Option.bind_some, beq_self_eq_true, if_true]
  rfl

end Yaml

end Dashboard
