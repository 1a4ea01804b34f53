import Dashboard.Proofs.Double.ReadBack

/-!
# Numbers read back in every layout

A decimal with an exponent is read as that very decimal, so a number is read back from its
text however its digits are laid out, and no two numbers have the same text.
-/

namespace Dashboard.Double

open Decimal

/-- An exponent is read behind its mark and its sign. -/
theorem readExponent?_signed
    (e : Int) :
    readExponent? ('e' :: (if e < 0 then '-' else '+') :: Nat.toDigits 10 e.natAbs) = some e := by
  have hdigits : ∀ c ∈ Nat.toDigits 10 e.natAbs, c.isDigit = true :=
    fun c hc => Nat.isDigit_of_mem_toDigits (by decide) (by decide) hc
  have hread :
      readDigits 0 0 (Nat.toDigits 10 e.natAbs) =
        (e.natAbs, (Nat.toDigits 10 e.natAbs).length, []) := by
    have hnil : ([] : List Char).head?.any Char.isDigit = false := rfl
    have happend := readDigits_append hdigits hnil 0 0
    rwa [List.append_nil, Nat.ofDigitChars_ten_toDigits, Nat.zero_add] at happend
  obtain ⟨count, hcount⟩ : ∃ count, (Nat.toDigits 10 e.natAbs).length = count + 1 :=
    Nat.exists_eq_succ_of_ne_zero fun h => Nat.toDigits_ne_nil (List.length_eq_zero_iff.1 h)
  rw [hcount] at hread
  by_cases hneg : e < 0
  · rw [if_pos hneg]
    simp only [readExponent?, beq_self_eq_true, Bool.true_or, if_true, hread]
    exact congrArg some (by omega)
  · rw [if_neg hneg]
    simp only [readExponent?, beq_self_eq_true, Bool.true_or, if_true, hread]
    exact congrArg some (by simp; omega)

/-- Scientific text is read as the decimal itself. -/
theorem readDecimal?_scientificText
    (n : Nat)
    (leading : Int) :
    readDecimal? (scientificText (Nat.toDigits 10 n) leading) =
      some ⟨n, leading - ((Nat.toDigits 10 n).length - 1 : Nat)⟩ := by
  have hdigits : ∀ c ∈ Nat.toDigits 10 n, c.isDigit = true :=
    fun c hc => Nat.isDigit_of_mem_toDigits (by decide) (by decide) hc
  have hvalue : Nat.ofDigitChars 10 (Nat.toDigits 10 n) 0 = n :=
    Nat.ofDigitChars_ten_toDigits
  have hexponent := readExponent?_signed leading
  rw [scientificText]
  generalize (if leading < 0 then '-' else '+') :: Nat.toDigits 10 leading.natAbs = tail
    at hexponent ⊢
  obtain ⟨c, cs, htext⟩ := List.exists_cons_of_ne_nil (Nat.toDigits_ne_nil (n := n) (b := 10))
  rw [htext] at hdigits hvalue ⊢
  have hc : ∀ d ∈ [c], d.isDigit = true := fun d hd => by
    rw [List.mem_singleton.1 hd]
    exact hdigits c List.mem_cons_self
  have hcs : ∀ d ∈ cs, d.isDigit = true := fun d hd => hdigits d (List.mem_cons_of_mem _ hd)
  have hmark : ('e' :: tail).head?.any Char.isDigit = false := rfl
  cases cs with
  | nil =>
      have hwhole := readDigits_append hc hmark 0 0
      rw [hvalue] at hwhole
      have hread :
          readDecimal? ([c] ++ 'e' :: tail) =
            (readExponent? ('e' :: tail)).map fun e => ⟨n, e⟩ := by
        rw [readDecimal?, hwhole]
        rfl
      simpa [hexponent] using hread
  | cons d ds =>
      have hpoint : ('.' :: (d :: ds ++ 'e' :: tail)).head?.any Char.isDigit = false := rfl
      have hwhole := readDigits_append hc hpoint 0 0
      have hfraction := readDigits_append hcs hmark (Nat.ofDigitChars 10 [c] 0) 0
      rw [← Nat.ofDigitChars_append, List.singleton_append, hvalue, Nat.zero_add] at hfraction
      have hread :
          readDecimal? ([c] ++ '.' :: (d :: ds ++ 'e' :: tail)) =
            (readExponent? ('e' :: tail)).map fun e => ⟨n, e - (d :: ds).length⟩ := by
        rw [readDecimal?, hwhole]
        simp only [hfraction]
        rfl
      simpa [hexponent] using hread

/-- Text in any layout is read as a decimal for the same number. -/
theorem readDecimal?_decimalText
    (layout : Layout)
    (d : Decimal) :
    (readDecimal? (decimalText layout d)).map Decimal.toDouble = some d.toDouble := by
  have hscientific :
      (readDecimal? (scientificText (Nat.toDigits 10 d.digits)
        (d.exponent + (Nat.toDigits 10 d.digits).length - 1))).map Decimal.toDouble =
          some d.toDouble := by
    have hpos : 0 < (Nat.toDigits 10 d.digits).length :=
      List.length_pos_iff.2 Nat.toDigits_ne_nil
    have hexponent :
        d.exponent + (Nat.toDigits 10 d.digits).length - 1 -
          ((Nat.toDigits 10 d.digits).length - 1 : Nat) = d.exponent := by
      omega
    rw [readDecimal?_scientificText, hexponent, Option.map_some]
  rw [decimalText]
  split
  · exact readDecimal?_positionalText d
  · split
    · exact readDecimal?_positionalText d
    · exact hscientific

/-- Text in any layout begins with a digit. -/
theorem exists_decimalText_eq_cons
    (layout : Layout)
    (d : Decimal) :
    ∃ c cs, decimalText layout d = c :: cs ∧ c.isDigit = true := by
  have hpositional :
      ∃ c cs, positionalText (Nat.toDigits 10 d.digits) d.exponent = c :: cs ∧
        c.isDigit = true := by
    obtain ⟨whole, fraction, -, htext, hpointed, -, -⟩ :=
      positionalText_toDigits d.digits d.exponent
    obtain ⟨c, cs, rfl⟩ := List.exists_cons_of_ne_nil hpointed.whole_ne_nil
    exact ⟨c, _, htext, hpointed.isDigit_whole c List.mem_cons_self⟩
  have hscientific :
      ∀ leading, ∃ c cs, scientificText (Nat.toDigits 10 d.digits) leading = c :: cs ∧
        c.isDigit = true := by
    intro leading
    obtain ⟨c, cs, htext⟩ :=
      List.exists_cons_of_ne_nil (Nat.toDigits_ne_nil (n := d.digits) (b := 10))
    have hc : c.isDigit = true :=
      Nat.isDigit_of_mem_toDigits (by decide) (by decide) (htext ▸ List.mem_cons_self)
    rw [scientificText, htext]
    exact ⟨c, _, rfl, hc⟩
  rw [decimalText]
  split
  · exact hpositional
  · split
    · exact hpositional
    · exact hscientific _

/-- Text in any layout has a point or an exponent. -/
theorem mem_decimalText_mark
    (layout : Layout)
    (d : Decimal) :
    '.' ∈ decimalText layout d ∨ 'e' ∈ decimalText layout d := by
  have hpositional : '.' ∈ positionalText (Nat.toDigits 10 d.digits) d.exponent := by
    obtain ⟨whole, fraction, -, htext, -⟩ := positionalText_toDigits d.digits d.exponent
    rw [htext]
    exact List.mem_append_right whole List.mem_cons_self
  rw [decimalText]
  split
  · exact .inl hpositional
  · split
    · exact .inl hpositional
    · exact .inr (List.mem_append_right _ List.mem_cons_self)

section Texts

variable (layout : Layout)
variable (negative : Bool)
variable {m k : Nat}
variable (h : Canonical m k)

theorem exists_isDigit_finiteText :
    ∃ c ∈ finiteText layout negative m k h, c.isDigit = true := by
  obtain ⟨c, cs, htext, hc⟩ := exists_decimalText_eq_cons layout (shortest layout.tie m k h)
  refine ⟨c, ?_, hc⟩
  rw [finiteText, htext]
  exact List.mem_append_right _ List.mem_cons_self

theorem mem_finiteText_mark :
    '.' ∈ finiteText layout negative m k h ∨ 'e' ∈ finiteText layout negative m k h :=
  (mem_decimalText_mark layout (shortest layout.tie m k h)).imp
    (List.mem_append_right _) (List.mem_append_right _)

/-- A number is read back from its text in any layout. -/
theorem read?_finiteText_layout :
    read? (finiteText layout negative m k h) = some (.finite negative m k h) := by
  have hread :
      (readDecimal? (decimalText layout (shortest layout.tie m k h))).map Decimal.toDouble =
        some (.finite false m k h) := by
    rw [readDecimal?_decimalText, toDouble_shortest]
  obtain ⟨c, cs, htext, hc⟩ := exists_decimalText_eq_cons layout (shortest layout.tie m k h)
  rw [finiteText]
  rw [htext] at hread ⊢
  cases negative with
  | true =>
      have hnegate := congrArg (Option.map negate) hread
      rw [Option.map_map] at hnegate
      exact hnegate
  | false =>
      have hsign : ∀ sign, sign.isDigit = false → c ≠ sign := by
        rintro sign hsign rfl
        rw [hc] at hsign
        cases hsign
      rw [if_neg Bool.false_ne_true, List.nil_append, read?]
      · exact hread
      · rintro rest heq
        exact hsign '-' rfl (List.cons.inj heq).1
      · rintro rest heq
        exact hsign '+' rfl (List.cons.inj heq).1

end Texts

end Dashboard.Double
