import Dashboard.Proofs.Double.ReadBack
import Dashboard.Render.Value
import Dashboard.Value.OfYaml

/-!
# Scalars keep their kind

Null, the truth values, integers and numbers are written without quotes.  A
reader of YAML types the text it finds, so each of these texts has to be taken
for what it was written for: a number holds a point and is no integer, an
integer has no leading zero, and neither is a word for something else.
-/

namespace Dashboard

namespace Yaml.Scalar

/-- A text with a point spells no natural number, whatever the base. -/
theorem readNat?_of_mem_point
    {base : Nat}
    (hbase : base ≤ 16)
    {cs : List Char}
    (h : '.' ∈ cs)
    (n : Nat) :
    readNat? base n cs = none := by
  induction cs generalizing n with
  | nil =>
      simp at h
  | cons c cs ih =>
      rcases List.mem_cons.1 h with rfl | hmem
      · have hpoint : digitValue? base '.' = none := by
          have hlarge : ¬16 < base := by
            omega
          exact if_neg hlarge
        simp [readNat?, hpoint]
      · cases hvalue : digitValue? base c with
        | none =>
            simp [readNat?, hvalue]
        | some d =>
            simp [readNat?, hvalue, ih hmem]

/-- A text with a point is no row of digits, whatever the base. -/
theorem readDigits?_of_mem_point
    {base : Nat}
    (hbase : base ≤ 16)
    {cs : List Char}
    (h : '.' ∈ cs) :
    readDigits? base cs = none := by
  cases cs with
  | nil =>
      rfl
  | cons c cs =>
      exact readNat?_of_mem_point hbase h 0

/-- A text with a point is no magnitude of an integer. -/
theorem readMagnitude?_of_mem_point
    (decimal : Bool)
    {cs : List Char}
    (h : '.' ∈ cs) :
    readMagnitude? decimal cs = none := by
  have hdecimal : readDigits? 10 cs = none :=
    readDigits?_of_mem_point (by decide) h
  simp only [readMagnitude?]
  split
  · next n hmarked =>
      split at hmarked
      · rw [readDigits?_of_mem_point (by decide) (by simpa using h)] at hmarked
        exact absurd hmarked (by simp)
      · rw [readDigits?_of_mem_point (by decide) (by simpa using h)] at hmarked
        exact absurd hmarked (by simp)
      · rw [readDigits?_of_mem_point (by decide) (by simpa using h)] at hmarked
        exact absurd hmarked (by simp)
      · exact absurd hmarked (by simp)
  · rw [hdecimal]
    exact ite_self none

/-- A text with a point is no integer. -/
theorem readInt?_of_mem_point
    {cs : List Char}
    (h : '.' ∈ cs) :
    readInt? cs = none := by
  simp only [readInt?]
  split
  · rw [readMagnitude?_of_mem_point _ (by simpa using h)]
    rfl
  · rw [readMagnitude?_of_mem_point _ (by simpa using h)]
    rfl
  · rw [readMagnitude?_of_mem_point _ h]
    rfl

/-- A text with a point has no leading zero in the sense of integers. -/
theorem hasLeadingZero_of_mem_point
    {cs : List Char}
    (h : '.' ∈ cs) :
    hasLeadingZero cs = false := by
  simp only [hasLeadingZero]
  split
  · next d rest heq =>
      have hmem : '.' ∈ '0' :: d :: rest := by
        rw [← heq]
        split
        · simpa using h
        · simpa using h
        · exact h
      have htail : '.' ∈ d :: rest := by
        simpa using hmem
      exact List.all_eq_false.2 ⟨'.', htail, by decide⟩
  · rfl

/-- A text with a point is a number if it is one, else a text. -/
theorem ofPlain?_of_mem_point
    {cs : List Char}
    (h : '.' ∈ cs) :
    ofPlain? cs =
      match readDouble? cs with
      | some x => some (.float x)
      | none => some (.str (String.ofList cs)) := by
  have hne : ∀ word : List Char, '.' ∉ word → (cs == word) = false := by
    intro word hword
    rw [beq_eq_false_iff_ne]
    rintro rfl
    exact hword h
  have hempty : cs.isEmpty = false := by
    cases cs with
    | nil =>
        simp at h
    | cons c cs =>
        rfl
  have hnull : isNullWord cs = false := by
    simp only [isNullWord, Bool.or_eq_false_iff]
    exact ⟨⟨⟨hne _ (by decide), hne _ (by decide)⟩, hne _ (by decide)⟩, hne _ (by decide)⟩
  have hbool : readBool? cs = none := by
    simp only [readBool?, hne "true".toList (by decide), hne "True".toList (by decide),
      hne "TRUE".toList (by decide), hne "false".toList (by decide),
      hne "False".toList (by decide), hne "FALSE".toList (by decide)]
    rfl
  have hint : ofInteger? cs = some none := by
    rw [ofInteger?, readInt?_of_mem_point h]
  have hzero := hasLeadingZero_of_mem_point h
  cases hread : readDouble? cs with
  | none | some x =>
      simp [ofPlain?, hempty, hnull, hbool, hint, hzero, hread]

/-- Digits, points and minus signs spell none of the words for infinity and NaN. -/
theorem readDouble?_of_numeric
    {cs : List Char}
    (h : ∀ c ∈ cs, c.isDigit = true ∨ c = '.' ∨ c = '-') :
    readDouble? cs = (Double.read? cs).filter Double.isFinite := by
  have hnot : ∀ c, c.isDigit = false → c ≠ '.' → c ≠ '-' → c ∉ cs := by
    intro c hdigit hpoint hminus hmem
    rcases h c hmem with hc | hc | hc
    · rw [hdigit] at hc
      exact Bool.false_ne_true hc
    · exact hpoint hc
    · exact hminus hc
  have hplus : '+' ∉ cs :=
    hnot _ (by decide) (by decide) (by decide)
  have hword : ∀ word : List Char, 'n' ∈ word ∨ 'N' ∈ word → (cs == word) = false := by
    intro word hmem
    rw [beq_eq_false_iff_ne]
    rintro rfl
    rcases hmem with hmem | hmem
    · exact hnot 'n' (by decide) (by decide) (by decide) hmem
    · exact hnot 'N' (by decide) (by decide) (by decide) hmem
  simp only [readDouble?, hword ".nan".toList (by decide),
    hword ".NaN".toList (by decide), hword ".NAN".toList (by decide),
    hword "-.inf".toList (by decide), hword "-.Inf".toList (by decide),
    hword "-.INF".toList (by decide), Bool.or_self, Bool.false_eq_true, if_false]
  split
  · exact absurd List.mem_cons_self hplus
  · simp only [hword ".inf".toList (by decide), hword ".Inf".toList (by decide),
      hword ".INF".toList (by decide), Bool.or_self, Bool.false_eq_true, if_false]
    split
    · exact absurd List.mem_cons_self hplus
    · exact absurd List.mem_cons_self hplus
    · rfl

/-- The text of a number is typed as that number. -/
theorem ofPlain?_floatText
    (x : Double) :
    ofPlain? (Value.floatText x) = some (.float x) := by
  match x with
  | .nan | .infinity true | .infinity false =>
      decide +kernel
  | .finite negative m k h =>
      obtain ⟨whole, fraction, htext, hpointed, -⟩ :=
        Double.finiteText_plainLayout negative h
      have hread := Double.read?_finiteText negative h
      rw [Value.floatText, ofPlain?_of_mem_point, readDouble?_of_numeric, hread]
      · rfl
      · rw [htext]
        intro c hc
        rcases List.mem_append.1 hc with hc | hc
        · cases negative <;> simp at hc
          exact .inr (.inr hc)
        · rcases List.mem_append.1 hc with hc | hc
          · exact .inl (hpointed.isDigit_whole c hc)
          · rcases List.mem_cons.1 hc with rfl | hc
            · exact .inr (.inl rfl)
            · exact .inl (hpointed.isDigit_fraction c hc)
      · rw [htext]
        simp

/-- A digit has its decimal value. -/
theorem digitValue?_of_isDigit
    {c : Char}
    (h : c.isDigit = true) :
    digitValue? 10 c = some (c.toNat - 48) := by
  have hbound : c.toNat - 48 < 10 := by
    simp only [Char.isDigit, Bool.and_eq_true, decide_eq_true_eq, ge_iff_le,
      UInt32.le_iff_toNat_le] at h
    have hle : c.toNat ≤ 57 := h.2
    omega
  simp only [digitValue?, h, if_true, if_pos hbound]

/-- Digits are read as the number they spell. -/
theorem readNat?_of_isDigit
    {ds : List Char}
    (h : ∀ c ∈ ds, c.isDigit = true)
    (n : Nat) :
    readNat? 10 n ds = some (Nat.ofDigitChars 10 ds n) := by
  induction ds generalizing n with
  | nil =>
      rfl
  | cons c cs ih =>
      have hc := digitValue?_of_isDigit (h c List.mem_cons_self)
      have hcs : ∀ d ∈ cs, d.isDigit = true :=
        fun d hd => h d (List.mem_cons_of_mem _ hd)
      rw [readNat?, hc, Nat.ofDigitChars_cons, Nat.mul_comm 10 n]
      exact ih hcs _

/-- The digits of a number have no leading zero. -/
theorem toDigits_ne_zero_cons
    (n : Nat)
    (d : Char)
    (rest : List Char) :
    Nat.toDigits 10 n ≠ '0' :: d :: rest := by
  induction n using Nat.strongRecOn generalizing d rest with
  | ind n ih =>
      intro heq
      by_cases hsmall : n < 10
      · rw [Nat.toDigits_of_lt_base hsmall] at heq
        simp at heq
      · rw [Nat.toDigits_of_base_le (by decide) (by omega)] at heq
        have hless : n / 10 < n := by
          omega
        have hpos : n / 10 ≠ 0 := by
          omega
        cases hfront : Nat.toDigits 10 (n / 10) with
        | nil =>
            exact Nat.toDigits_ne_nil hfront
        | cons c cs =>
            rw [hfront, List.cons_append, List.cons.injEq] at heq
            rw [heq.1] at hfront
            cases cs with
            | nil =>
                have hvalue := Nat.ofDigitChars_ten_toDigits (n := n / 10)
                rw [hfront] at hvalue
                exact hpos hvalue.symm
            | cons e es =>
                exact ih _ hless e es hfront

section Integers

variable (n : Nat)

/-- The digits of a number are digits. -/
theorem isDigit_toDigits :
    ∀ c ∈ Nat.toDigits 10 n, c.isDigit = true :=
  fun _ hc => Nat.isDigit_of_mem_toDigits (by decide) (by decide) hc

/-- The digits of a number are read as its magnitude. -/
theorem readMagnitude?_toDigits :
    readMagnitude? true (Nat.toDigits 10 n) = some n := by
  have hdigit := isDigit_toDigits n
  have hread : readDigits? 10 (Nat.toDigits 10 n) = some n := by
    have hvalue := readNat?_of_isDigit hdigit 0
    rw [Nat.ofDigitChars_ten_toDigits] at hvalue
    rw [readDigits?]
    · exact hvalue
    · exact Nat.toDigits_ne_nil
  have hmark : ∀ c rest, Nat.toDigits 10 n = '0' :: c :: rest → c.isDigit = true := by
    intro c rest heq
    exact absurd heq (toDigits_ne_zero_cons n c rest)
  simp only [readMagnitude?, hread, if_true]
  split
  · next m hmarked =>
      split at hmarked
      · next rest heq =>
          exact absurd heq (toDigits_ne_zero_cons n _ rest)
      · next rest heq =>
          exact absurd heq (toDigits_ne_zero_cons n _ rest)
      · next rest heq =>
          exact absurd heq (toDigits_ne_zero_cons n _ rest)
      · exact absurd hmarked (by simp)
  · rfl

end Integers

/-- An integer that is written is one behind its sign. -/
theorem readInt?_intText
    (n : Int64) :
    readInt? (Value.intText n) = some n.toInt ∧
      hasLeadingZero (Value.intText n) = false := by
  obtain ⟨c, cs, hdigits⟩ :=
    List.exists_cons_of_ne_nil (Nat.toDigits_ne_nil (n := n.toInt.natAbs) (b := 10))
  have hmagnitude := readMagnitude?_toDigits n.toInt.natAbs
  have hzero := toDigits_ne_zero_cons n.toInt.natAbs
  have hc : c.isDigit = true :=
    isDigit_toDigits n.toInt.natAbs c (hdigits ▸ List.mem_cons_self)
  rw [Value.intText]
  rw [hdigits] at hmagnitude hzero ⊢
  have hleading : ∀ sign, sign = [] ∨ sign = ['-'] →
      hasLeadingZero (sign ++ c :: cs) = false := by
    intro sign hsign
    simp only [hasLeadingZero]
    split
    · next d rest heq =>
        refine absurd ?_ (hzero d rest)
        rcases hsign with rfl | rfl
        · split at heq
          · next hminus =>
              simp only [List.nil_append, List.cons.injEq] at hminus
              rw [hminus.1] at hc
              exact absurd hc (by decide)
          · next hplus =>
              simp only [List.nil_append, List.cons.injEq] at hplus
              rw [hplus.1] at hc
              exact absurd hc (by decide)
          · exact heq
        · exact heq
    · rfl
  split
  · next hneg =>
      refine ⟨?_, hleading _ (.inr rfl)⟩
      have hsigned : -(n.toInt.natAbs : Int) = n.toInt := by
        omega
      have hzero := hleading _ (.inr rfl)
      rw [List.singleton_append] at hzero ⊢
      rw [readInt?, hzero, Bool.not_false, hmagnitude]
      exact congrArg some hsigned
  · next hnneg =>
      refine ⟨?_, hleading _ (.inl rfl)⟩
      have hunsigned : (n.toInt.natAbs : Int) = n.toInt := by
        omega
      have hzero := hleading _ (.inl rfl)
      rw [List.nil_append] at hzero ⊢
      rw [readInt?, hzero, Bool.not_false, hmagnitude]
      · exact congrArg some hunsigned
      · rintro rest heq
        rw [(List.cons.inj heq).1] at hc
        exact absurd hc (by decide)
      · rintro rest heq
        rw [(List.cons.inj heq).1] at hc
        exact absurd hc (by decide)

/-- The text of an integer is typed as that integer. -/
theorem ofPlain?_intText
    (n : Int64) :
    ofPlain? (Value.intText n) = some (.int n.toInt) := by
  obtain ⟨c, cs, hdigits⟩ :=
    List.exists_cons_of_ne_nil (Nat.toDigits_ne_nil (n := n.toInt.natAbs) (b := 10))
  have hc : c.isDigit = true :=
    isDigit_toDigits n.toInt.natAbs c (hdigits ▸ List.mem_cons_self)
  have hmem : c ∈ Value.intText n := by
    rw [Value.intText, hdigits]
    exact List.mem_append_right _ List.mem_cons_self
  have hne : ∀ word : List Char, word.all (fun d => !d.isDigit) = true →
      (Value.intText n == word) = false := by
    intro word hword
    rw [beq_eq_false_iff_ne]
    intro heq
    rw [heq] at hmem
    have hnot := List.all_eq_true.1 hword c hmem
    rw [hc] at hnot
    exact absurd hnot (by decide)
  have hempty : (Value.intText n).isEmpty = false :=
    List.isEmpty_eq_false_iff_exists_mem.2 ⟨c, hmem⟩
  have hnull : isNullWord (Value.intText n) = false := by
    simp only [isNullWord, Bool.or_eq_false_iff]
    exact ⟨⟨⟨hne _ (by decide), hne _ (by decide)⟩, hne _ (by decide)⟩, hne _ (by decide)⟩
  have hbool : readBool? (Value.intText n) = none := by
    simp only [readBool?, hne "true".toList (by decide), hne "True".toList (by decide),
      hne "TRUE".toList (by decide), hne "false".toList (by decide),
      hne "False".toList (by decide), hne "FALSE".toList (by decide)]
    rfl
  have hfits : fits64 n.toInt = true := by
    have hlow := n.le_toInt
    have hhigh := n.toInt_lt
    simp only [fits64, Bool.and_eq_true, decide_eq_true_eq]
    omega
  have hint : ofInteger? (Value.intText n) = some (some n.toInt) := by
    simp only [ofInteger?, (readInt?_intText n).1, hfits, if_true]
  simp only [ofPlain?, hempty, hnull, hbool, hint, Bool.or_self, Bool.false_eq_true, if_false]

end Yaml.Scalar

namespace Value

/-- The integer of a value is that value again. -/
theorem ofInt_toInt
    (n : Int64) :
    ofInt n.toInt = .int n := by
  have hsmall : n.toInt < 0x8000000000000000 := by
    have hhigh := n.toInt_lt
    omega
  rw [ofInt, if_pos hsmall, Int64.ofInt_toInt]

/-- The scalar that a value is, for everything but texts and containers. -/
def asScalar? : Value → Option Yaml.Scalar
  | .null => some .null
  | .bool b => some (.bool b)
  | .int n => some (.int n.toInt)
  | .float x => some (.float x)
  | .str _ | .seq _ | .map _ => none

/-- The scalar of a value is that value again. -/
theorem ofScalar_of_asScalar?
    {v : Value}
    {s : Yaml.Scalar}
    (h : v.asScalar? = some s) :
    ofScalar s = v := by
  cases v with
  | int n =>
      cases h
      exact ofInt_toInt n
  | null | bool _ | float _ =>
      cases h
      rfl
  | str _ | seq _ | map _ =>
      cases h

end Value

namespace Yaml.Scalar

/-- Every scalar that is written plainly is typed as what it is. -/
theorem ofPlain?_plainScalar
    {v : Value}
    {s : Scalar}
    (h : v.asScalar? = some s) :
    ofPlain? (Render.plainScalar v) = some s := by
  match v with
  | .null | .bool true | .bool false =>
      cases h
      decide
  | .int n =>
      cases h
      exact ofPlain?_intText n
  | .float x =>
      cases h
      exact ofPlain?_floatText x

end Yaml.Scalar

end Dashboard
