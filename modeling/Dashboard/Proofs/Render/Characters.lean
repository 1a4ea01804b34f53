import Dashboard.Proofs.Double.ReadBack
import Dashboard.Proofs.Yaml.Typing
import Dashboard.Render.Value

/-!
# The characters of a written value

Whatever a value holds, its text consists of characters that a reader takes as
they are, and of line feeds.
-/

namespace Dashboard.Render

open Yaml

/-- The words among the scalars that are no texts. -/
def scalarWords : List (List Char) :=
  ["null", "true", "false", ".nan", ".inf", "-.inf"].map String.toList

/-- The characters of numbers. -/
def isNumeral (c : Char) : Bool :=
  c.isDigit || c == '.' || c == '-'

theorem isNumeral_of_isDigit
    {c : Char}
    (h : c.isDigit = true) :
    isNumeral c = true := by
  simp [isNumeral, h]

/-- A number: a digit behind the sign, and more characters of numbers. -/
inductive IsNumber : List Char → Prop where
  | intro
      (negative : Bool)
      {c : Char}
      {cs : List Char}
      (first : c.isDigit = true)
      (rest : ∀ d ∈ cs, isNumeral d = true) :
      IsNumber ((if negative then ['-'] else []) ++ c :: cs)

theorem IsNumber.ne_nil
    {s : List Char}
    (h : IsNumber s) :
    s ≠ [] := by
  obtain ⟨negative, -, -⟩ := h
  simp

/-- All characters of a number are characters of numbers. -/
theorem IsNumber.isNumeral
    {s : List Char}
    (h : IsNumber s) :
    ∀ c ∈ s, isNumeral c = true := by
  obtain ⟨negative, hfirst, hrest⟩ := h
  intro d hd
  rcases List.mem_append.1 hd with hd | hd
  · cases negative with
    | true =>
        rw [List.mem_singleton.1 hd]
        rfl
    | false =>
        exact absurd hd List.not_mem_nil
  · rcases List.mem_cons.1 hd with rfl | hd
    · exact isNumeral_of_isDigit hfirst
    · exact hrest d hd

theorem isNumber_intText
    (n : Int64) :
    IsNumber (Value.intText n) := by
  obtain ⟨c, cs, hdigits⟩ := List.exists_cons_of_ne_nil (Nat.toDigits_ne_nil (n := n.toInt.natAbs))
  have hdigit := Scalar.isDigit_toDigits n.toInt.natAbs
  rw [hdigits, List.forall_mem_cons] at hdigit
  have hnumber := IsNumber.intro (decide (n.toInt < 0)) hdigit.1
    fun d hd => isNumeral_of_isDigit (hdigit.2 d hd)
  simpa only [Value.intText, hdigits, decide_eq_true_eq] using hnumber

theorem isNumber_finiteText
    (negative : Bool)
    {m k : Nat}
    (h : Double.Canonical m k) :
    IsNumber (Double.finiteText Double.plainLayout negative m k h) := by
  obtain ⟨whole, fraction, htext, hpointed, -⟩ := Double.finiteText_plainLayout negative h
  obtain ⟨c, cs, rfl⟩ := List.exists_cons_of_ne_nil hpointed.whole_ne_nil
  have hwhole := List.forall_mem_cons.1 hpointed.isDigit_whole
  rw [htext]
  refine .intro negative hwhole.1 fun d hd => ?_
  rcases List.mem_append.1 hd with hd | hd
  · exact isNumeral_of_isDigit (hwhole.2 d hd)
  · rcases List.mem_cons.1 hd with rfl | hd
    · rfl
    · exact isNumeral_of_isDigit (hpointed.isDigit_fraction d hd)

/-- A scalar that is no text is written as a word or a number. -/
theorem plainScalar_cases
    {v : Value}
    {s : Scalar}
    (h : v.asScalar? = some s) :
    plainScalar v ∈ scalarWords ∨ IsNumber (plainScalar v) := by
  match v with
  | .null | .bool true | .bool false | .float .nan | .float (.infinity true)
  | .float (.infinity false) =>
      exact .inl (by decide)
  | .int n =>
      exact .inr (isNumber_intText n)
  | .float (.finite negative m k hcanonical) =>
      exact .inr (isNumber_finiteText negative hcanonical)

/-- The flow form of a scalar that is no text. -/
theorem flow_eq_plainScalar
    {v : Value}
    {s : Scalar}
    (h : v.asScalar? = some s) :
    flow v = plainScalar v := by
  cases v with
  | null | bool b | int n | float x =>
      simp [flow]
  | str t | seq vs | map m =>
      cases h

/-- The inline form of a scalar that is no text. -/
theorem inline_eq_plainScalar
    {v : Value}
    {s : Scalar}
    (h : v.asScalar? = some s) :
    inline v = plainScalar v := by
  cases v with
  | null | bool b | int n | float x =>
      simp [inline, flow]
  | str t | seq vs | map m =>
      cases h

/-- Only characters that are read as they are. -/
def IsPlain (cs : List Char) : Prop :=
  ∀ c ∈ cs, isPlainChar c = true

section Plain

variable {cs ds : List Char}

theorem isPlain_append :
    IsPlain (cs ++ ds) ↔ IsPlain cs ∧ IsPlain ds :=
  List.forall_mem_append

theorem isPlain_cons
    {c : Char} :
    IsPlain (c :: cs) ↔ isPlainChar c = true ∧ IsPlain cs :=
  List.forall_mem_cons

theorem isPlain_nil :
    IsPlain [] := by
  simp [IsPlain]

end Plain

/-- Only characters that are read as they are, and line feeds. -/
def IsClean (cs : List Char) : Prop :=
  ∀ c ∈ cs, isPlainChar c = true ∨ c = '\n'

section Clean

variable {cs ds : List Char}

theorem isClean_append :
    IsClean (cs ++ ds) ↔ IsClean cs ∧ IsClean ds :=
  List.forall_mem_append

theorem isClean_cons
    {c : Char} :
    IsClean (c :: cs) ↔ (isPlainChar c = true ∨ c = '\n') ∧ IsClean cs :=
  List.forall_mem_cons

theorem isClean_nil :
    IsClean [] := by
  simp [IsClean]

theorem IsPlain.isClean
    (h : IsPlain cs) :
    IsClean cs :=
  fun c hc => .inl (h c hc)

/-- A clean text may be read. -/
theorem IsClean.printable
    (h : IsClean cs) :
    cs.all isPrintable = true := by
  rw [List.all_eq_true]
  intro c hc
  rcases h c hc with hplain | rfl
  · simp only [isPlainChar, Bool.or_eq_true, Bool.and_eq_true, decide_eq_true_eq] at hplain
    simp only [isPrintable, Bool.or_eq_true, Bool.and_eq_true, decide_eq_true_eq, beq_iff_eq]
    omega
  · rfl

/-- A clean text is read as it is. -/
theorem IsClean.normalize_eq
    (h : IsClean cs) :
    normalize cs = cs := by
  induction cs with
  | nil =>
      rfl
  | cons c cs ih =>
      obtain ⟨hc, hcs⟩ := isClean_cons.1 h
      rw [Yaml.normalize, ih hcs]
      · rintro _ rfl
        exact absurd hc (by decide)
      · rintro rfl
        exact absurd hc (by decide)
      · rintro rfl
        exact absurd hc (by decide)

end Clean

section Texts

/-- The digits of an escape; a number that is no digit has a star. -/
theorem hexDigit_mem
    (d : Nat) :
    (Nat.digitChar d).toUpper ∈ "0123456789ABCDEF*".toList := by
  rcases Nat.lt_or_ge d 16 with hlt | hge
  · exact (by decide : ∀ d < 16, (Nat.digitChar d).toUpper ∈ "0123456789ABCDEF*".toList) d hlt
  · have hstar : Nat.digitChar d = '*' := by
      simp only [Nat.digitChar]
      repeat rw [if_neg (by omega)]
    rw [hstar]
    decide

theorem isPlainChar_hexDigit
    (d : Nat) :
    isPlainChar (Nat.digitChar d).toUpper = true :=
  List.all_eq_true.1 (by decide : "0123456789ABCDEF*".toList.all isPlainChar = true) _
    (hexDigit_mem d)

/-- Escapes are plain. -/
theorem isPlain_escape
    (c : Char) :
    IsPlain (escape c) := by
  intro d hd
  have hmem : ∀ cs : List Char, cs.all isPlainChar = true → d ∈ cs → isPlainChar d = true :=
    fun cs hcs hd => List.all_eq_true.1 hcs d hd
  simp only [escape] at hd
  split at hd
  · exact hmem _ (by decide) hd
  · split at hd
    · exact hmem _ (by decide) hd
    · split at hd
      · exact hmem _ (by decide) hd
      · split at hd
        · exact hmem _ (by decide) hd
        · split at hd
          · exact hmem _ (by decide) hd
          · split at hd
            · refine hmem _ ?_ hd
              have hslash : isPlainChar '\\' = true := by
                decide
              have hletter : isPlainChar 'u' = true := by
                decide
              simp [hex4, isPlainChar_hexDigit, hslash, hletter]
            · next hplain =>
                rw [List.mem_singleton.1 hd]
                simpa [needsEscape] using hplain

theorem isPlain_doubleQuoted
    (s : List Char) :
    IsPlain (doubleQuoted s) := by
  have hquote : isPlainChar '"' = true := by
    decide
  simp only [doubleQuoted, isPlain_cons, isPlain_append, List.cons_append]
  refine ⟨hquote, fun c hc => ?_, hquote, isPlain_nil⟩
  obtain ⟨d, -, hd⟩ := List.mem_flatMap.1 hc
  exact isPlain_escape d c hd

theorem isPlainChar_of_isNumeral
    {c : Char}
    (h : isNumeral c = true) :
    isPlainChar c = true := by
  simp only [isNumeral, Char.isDigit, Bool.or_eq_true, Bool.and_eq_true, decide_eq_true_eq,
    beq_iff_eq] at h
  rcases h with (⟨hlow, hhigh⟩ | rfl) | rfl
  · have hlow' : 48 ≤ c.toNat := hlow
    have hhigh' : c.toNat ≤ 57 := hhigh
    simp only [isPlainChar, Bool.or_eq_true, Bool.and_eq_true, decide_eq_true_eq]
    omega
  · decide
  · decide

theorem isPlain_plainScalar
    (v : Value) :
    IsPlain (plainScalar v) := by
  cases hscalar : v.asScalar? with
  | none =>
      cases v with
      | str _ | seq _ | map _ =>
          exact isPlain_nil
      | null | bool _ | int _ | float _ =>
          exact absurd hscalar (by simp [Value.asScalar?])
  | some s =>
      intro c hc
      rcases plainScalar_cases hscalar with hword | hnumber
      · have hclean : scalarWords.all (List.all · isPlainChar) = true := by
          decide
        exact List.all_eq_true.1 (List.all_eq_true.1 hclean _ hword) c hc
      · exact isPlainChar_of_isNumeral (hnumber.isNumeral c hc)

theorem isPlain_quoted
    (s : List Char) :
    IsPlain (quoted s) := by
  rw [quoted]
  split
  · exact List.all_eq_true.1 (by decide : ['\'', '\''].all isPlainChar = true)
  · split
    · exact isPlain_doubleQuoted s
    · next hbare =>
        simp only [needsQuotes, Bool.or_eq_true, not_or, List.any_eq_true, not_exists,
          not_and] at hbare
        intro c hc
        have hplain := hbare.1.1.1.1.1.2 c hc
        simpa [needsEscape] using hplain

end Texts

section Values

theorem isPlain_comma
    {cs : List Char} :
    IsPlain (',' :: ' ' :: cs) ↔ IsPlain cs := by
  simp [isPlain_cons, show isPlainChar ',' = true by decide, show isPlainChar ' ' = true by decide]

theorem isPlain_colon
    {cs : List Char} :
    IsPlain (':' :: ' ' :: cs) ↔ IsPlain cs := by
  simp [isPlain_cons, show isPlainChar ':' = true by decide, show isPlainChar ' ' = true by decide]

mutual

/-- The flow form of a value is plain. -/
theorem isPlain_flow
    (v : Value) :
    IsPlain (flow v) := by
  match v with
  | .str s =>
      rw [flow]
      exact isPlain_doubleQuoted _
  | .seq vs =>
      rw [flow, List.cons_append, isPlain_cons, isPlain_append]
      exact ⟨by decide, isPlain_flowItems vs, by simp [IsPlain]; decide⟩
  | .map m =>
      rw [flow, List.cons_append, isPlain_cons, isPlain_append]
      exact ⟨by decide, isPlain_flowEntries m, by simp [IsPlain]; decide⟩
  | .null | .bool _ | .int _ | .float _ =>
      rw [flow_eq_plainScalar rfl]
      exact isPlain_plainScalar _

theorem isPlain_flowItems
    (vs : List Value) :
    IsPlain (flowItems vs) := by
  match vs with
  | [] =>
      exact isPlain_nil
  | [v] =>
      rw [flowItems]
      exact isPlain_flow v
  | v :: w :: vs =>
      rw [flowItems, isPlain_append, isPlain_comma]
      · exact ⟨isPlain_flow v, isPlain_flowItems (w :: vs)⟩
      · simp

theorem isPlain_flowEntries
    (m : List (String × Value)) :
    IsPlain (flowEntries m) := by
  match m with
  | [] =>
      exact isPlain_nil
  | [(k, v)] =>
      rw [flowEntries, isPlain_append, isPlain_colon]
      exact ⟨isPlain_doubleQuoted _, isPlain_flow v⟩
  | (k, v) :: e :: m =>
      rw [flowEntries, List.append_assoc, isPlain_append, List.cons_append, List.cons_append,
        isPlain_colon, isPlain_append, isPlain_comma]
      · exact ⟨isPlain_doubleQuoted _, isPlain_flow v, isPlain_flowEntries (e :: m)⟩
      · simp

end

theorem isPlain_inline
    (v : Value) :
    IsPlain (inline v) := by
  rw [inline.eq_def]
  split
  · exact isPlain_quoted _
  · exact isPlain_flow _

theorem isPlain_indentation
    (depth : Nat) :
    IsPlain (indentation depth) := by
  intro c hc
  rw [List.eq_of_mem_replicate hc]
  exact by decide

theorem isClean_joinLines
    {ls : List (List Char)}
    (h : ∀ l ∈ ls, IsPlain l) :
    IsClean (joinLines ls) := by
  fun_induction joinLines ls with
  | case1 =>
      exact isClean_nil
  | case2 l =>
      exact (h l List.mem_cons_self).isClean
  | case3 l ls _ ih =>
      rw [isClean_append, isClean_cons]
      exact ⟨(h l List.mem_cons_self).isClean, .inr rfl, ih fun l' hl' => h l' (List.mem_cons_of_mem _ hl')⟩

mutual

/-- The lines of a value are plain. -/
theorem isPlain_blockLines
    (depth : Nat)
    (v : Value) :
    ∀ l ∈ blockLines depth v, IsPlain l := by
  match v with
  | .seq [] | .map [] =>
      simp only [blockLines, List.mem_singleton, forall_eq, isPlain_append, isPlain_cons]
      exact ⟨isPlain_indentation depth, by decide, by decide, isPlain_nil⟩
  | .seq (v :: vs) =>
      rw [blockLines]
      exact isPlain_itemLines depth (v :: vs)
  | .map (e :: m) =>
      rw [blockLines]
      exact isPlain_entryLines depth (e :: m)
  | .str _ | .null | .bool _ | .int _ | .float _ =>
      simp only [blockLines, List.mem_singleton, forall_eq, isPlain_append]
      exact ⟨isPlain_indentation depth, isPlain_inline _⟩

theorem isPlain_itemLines
    (depth : Nat)
    (vs : List Value) :
    ∀ l ∈ itemLines depth vs, IsPlain l := by
  match vs with
  | [] =>
      simp [itemLines]
  | v :: vs =>
      rw [itemLines, List.forall_mem_append]
      refine ⟨?_, isPlain_itemLines depth vs⟩
      split
      · rw [List.forall_mem_cons, isPlain_append, isPlain_cons]
        exact ⟨⟨isPlain_indentation depth, by decide, isPlain_nil⟩,
          isPlain_blockLines (depth + 1) v⟩
      · simp only [List.mem_singleton, forall_eq, isPlain_append, isPlain_cons]
        exact ⟨isPlain_indentation depth, by decide, by decide, isPlain_inline v⟩

theorem isPlain_entryLines
    (depth : Nat)
    (m : List (String × Value)) :
    ∀ l ∈ entryLines depth m, IsPlain l := by
  match m with
  | [] =>
      simp [entryLines]
  | (k, v) :: m =>
      rw [entryLines, List.forall_mem_append]
      refine ⟨?_, isPlain_entryLines depth m⟩
      split
      · rw [List.forall_mem_cons, isPlain_append, isPlain_append, isPlain_cons]
        exact ⟨⟨⟨isPlain_indentation depth, isPlain_quoted _⟩, by decide, isPlain_nil⟩,
          isPlain_blockLines (depth + 1) v⟩
      · simp only [List.mem_singleton, forall_eq, isPlain_append, isPlain_colon]
        exact ⟨⟨isPlain_indentation depth, isPlain_quoted _⟩, isPlain_inline v⟩

end

/-- The block form of a value is clean. -/
theorem isClean_block
    (depth : Nat)
    (v : Value) :
    IsClean (block depth v) :=
  isClean_joinLines (isPlain_blockLines depth v)

end Values

end Dashboard.Render
