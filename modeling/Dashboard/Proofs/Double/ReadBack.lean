import Dashboard.Double.Text

/-!
# Numbers read back from their text

The text of a finite number is read back as that very number.  Three facts
carry this:

* a decimal keeps its number when a zero is moved between its digits and its
  exponent (`toDouble_mul_pow`);
* whichever decimal `shortest` settles on, it reads back as the number it was
  made for (`toDouble_shortest`);
* the positional text of a decimal is read as the same decimal up to such
  zeros (`readDecimal?_positionalText`).
-/

namespace Dashboard

namespace Double

/-- Rounding looks at the fraction only, not at how it is written. -/
theorem roundDiv_mul_mul
    (n d : Nat)
    {c : Nat}
    (hc : 0 < c) :
    roundDiv (n * c) (d * c) = roundDiv n d := by
  have hq : n * c / (d * c) = n / d :=
    Nat.mul_div_mul_right n d hc
  have hr : n * c % (d * c) = n % d * c :=
    Nat.mul_mod_mul_right c n d
  have hl : 2 * (n % d * c) < d * c ↔ 2 * (n % d) < d := by
    rw [← Nat.mul_assoc]
    exact Nat.mul_lt_mul_right hc
  have hg : d * c < 2 * (n % d * c) ↔ d < 2 * (n % d) := by
    rw [← Nat.mul_assoc]
    exact Nat.mul_lt_mul_right hc
  simp only [roundDiv, hq, hr, hl, hg]

/-- The nearest number to a fraction, however the fraction is written. -/
theorem ofRatio_mul_mul
    (n d : Nat)
    {c : Nat}
    (hc : 0 < c) :
    ofRatio (n * c) (d * c) = ofRatio n d := by
  have hu : n * c * unitsInOne = n * unitsInOne * c :=
    Nat.mul_right_comm n c unitsInOne
  have hq : n * unitsInOne * c / (d * c) = n * unitsInOne / d :=
    Nat.mul_div_mul_right _ _ hc
  have hd : ∀ p, d * c * p = d * p * c :=
    fun p => Nat.mul_right_comm d c p
  simp only [ofRatio, hu, hq, hd, roundDiv_mul_mul _ _ hc]

end Double

namespace Decimal

open Double

/-- Ten times a number has one digit more. -/
theorem digitCount_mul_ten
    {n : Nat}
    (h : 0 < n) :
    digitCount (n * 10) = digitCount n + 1 := by
  have hsplit : Nat.toDigits 10 n ++ Nat.toDigits 10 0 = Nat.toDigits 10 (10 * n + 0) :=
    Nat.toDigits_append_toDigits (by decide) h (by decide)
  have hlength := congrArg List.length hsplit
  simp only [List.length_append, Nat.toDigits_zero, List.length_singleton, Nat.add_zero]
    at hlength
  rw [digitCount, digitCount, Nat.mul_comm n 10]
  exact hlength.symm

/-- A decimal below `10 ^ k` has at most `k` digits, and conversely. -/
theorem digitCount_le_iff
    {n k : Nat}
    (hk : 0 < k) :
    digitCount n ≤ k ↔ n < Nat.pow 10 k :=
  Nat.length_toDigits_le_iff (by decide) hk

/-- A zero at the end of the digits does not change the fraction. -/
theorem ofRatio_ratio_mul_ten
    (n : Nat)
    (e : Int) :
    ofRatio (⟨n * 10, e⟩ : Decimal).ratio.1 (⟨n * 10, e⟩ : Decimal).ratio.2 =
      ofRatio (⟨n, e + 1⟩ : Decimal).ratio.1 (⟨n, e + 1⟩ : Decimal).ratio.2 := by
  rcases Int.lt_trichotomy e (-1) with hlt | rfl | hgt
  · have hneg : e < 0 := by omega
    have hneg' : e + 1 < 0 := by omega
    have habs : e.natAbs = (e + 1).natAbs + 1 := by omega
    simp only [ratio, if_pos hneg, if_pos hneg', habs, Nat.pow_eq, Nat.pow_succ]
    exact ofRatio_mul_mul _ _ (by decide)
  · have hnum : (⟨n * 10, -1⟩ : Decimal).ratio = (n * 10, 1 * 10) := rfl
    have hnum' : (⟨n, -1 + 1⟩ : Decimal).ratio = (n, 1) := by
      simp [ratio]
    rw [hnum, hnum']
    exact ofRatio_mul_mul n 1 (by decide)
  · have hnneg : ¬e < 0 := by omega
    have hnneg' : ¬e + 1 < 0 := by omega
    have habs : (e + 1).natAbs = e.natAbs + 1 := by omega
    simp only [ratio, if_neg hnneg, if_neg hnneg', habs, Nat.pow_eq, Nat.pow_succ]
    rw [Nat.mul_right_comm n 10, Nat.mul_assoc n]

/-- A zero moves between the digits and the exponent. -/
theorem toDouble_mul_ten
    (n : Nat)
    (e : Int) :
    (⟨n * 10, e⟩ : Decimal).toDouble = (⟨n, e + 1⟩ : Decimal).toDouble := by
  rcases Nat.eq_zero_or_pos n with rfl | hpos
  · simp [toDouble]
  · have hcount : (e : Int) + digitCount (n * 10) = e + 1 + digitCount n := by
      rw [digitCount_mul_ten hpos]
      omega
    have hne : n ≠ 0 := by omega
    have hne' : n * 10 ≠ 0 := by omega
    simp only [toDouble, if_neg hne, if_neg hne', hcount, ofRatio_ratio_mul_ten]

/-- Zeros move between the digits and the exponent. -/
theorem toDouble_mul_pow
    (n j : Nat)
    (e : Int) :
    (⟨n * Nat.pow 10 j, e⟩ : Decimal).toDouble = (⟨n, e + j⟩ : Decimal).toDouble := by
  induction j generalizing e with
  | zero =>
      simp
  | succ j ih =>
      have hexponent : e + 1 + (j : Int) = e + ((j + 1 : Nat) : Int) := by
        omega
      have hpow : n * Nat.pow 10 (j + 1) = n * Nat.pow 10 j * 10 :=
        (Nat.mul_assoc n (Nat.pow 10 j) 10).symm
      rw [hpow, toDouble_mul_ten, ih, hexponent]

/-- Zeros at the end of the digits are of no weight. -/
theorem toDouble_stripZeros
    (fuel : Nat)
    (d : Decimal) :
    (d.stripZeros fuel).toDouble = d.toDouble := by
  induction fuel generalizing d with
  | zero =>
      rfl
  | succ fuel ih =>
      rw [stripZeros]
      split
      · next hzero =>
          have hdigits : d.digits / 10 * 10 = d.digits := by
            omega
          rw [ih, ← toDouble_mul_ten, hdigits]
      · rfl

/-- The fewest digits stand for the same number. -/
theorem toDouble_normalize (d : Decimal) :
    d.normalize.toDouble = d.toDouble := by
  rw [normalize]
  split
  · next hzero =>
      simp [toDouble, hzero]
  · exact toDouble_stripZeros _ d

end Decimal

namespace Double

open Decimal

/-- A magnitude grows with its significand and its shift. -/
theorem units_le_units
    {m n k l : Nat}
    (hm : m ≤ n)
    (hk : k ≤ l) :
    units m k ≤ units n l :=
  Nat.mul_le_mul hm (Nat.pow_le_pow_right (by decide) hk)

/-- The exact decimal of a magnitude is within the range where fractions are
rounded. -/
theorem digitCount_exactDecimal
    {m k : Nat}
    (h : Canonical m k)
    (hm : m ≠ 0) :
    674 ≤ digitCount (exactDecimal m k).digits ∧
      digitCount (exactDecimal m k).digits ≤ 1474 := by
  obtain ⟨hm53, hk, -⟩ := h
  have hpos : 1 ≤ units m k :=
    Nat.mul_pos (Nat.pos_of_ne_zero hm) (Nat.two_pow_pos k)
  have hunits : units m k ≤ units 0x20000000000000 2045 :=
    units_le_units (Nat.le_of_lt hm53) hk
  have hleast : Nat.pow 10 673 ≤ 1 * Nat.pow 5 leastPlaces := by
    decide +kernel
  have hmost : units 0x20000000000000 2045 * Nat.pow 5 leastPlaces < Nat.pow 10 1474 := by
    decide +kernel
  have hlow : 1 * Nat.pow 5 leastPlaces ≤ units m k * Nat.pow 5 leastPlaces :=
    Nat.mul_le_mul_right _ hpos
  have hhigh : units m k * Nat.pow 5 leastPlaces ≤
      units 0x20000000000000 2045 * Nat.pow 5 leastPlaces :=
    Nat.mul_le_mul_right _ hunits
  constructor
  · refine Nat.lt_of_not_le fun hle => ?_
    have hlt := (digitCount_le_iff (by decide)).1 hle
    exact Nat.lt_irrefl _
      (Nat.lt_of_lt_of_le hlt (Nat.le_trans hleast hlow))
  · exact (digitCount_le_iff (by decide)).2 (Nat.lt_of_le_of_lt hhigh hmost)

/-- A magnitude written out exactly reads back. -/
theorem toDouble_exactDecimal
    {m k : Nat}
    (h : Canonical m k)
    (hm : m ≠ 0) :
    (exactDecimal m k).toDouble = .finite false m k h := by
  obtain ⟨hlow, hhigh⟩ := digitCount_exactDecimal h hm
  have hexponent : (exactDecimal m k).exponent = -1074 := rfl
  have hdigits : (exactDecimal m k).digits ≠ 0 := by
    intro hzero
    rw [hzero] at hlow
    exact absurd hlow (by decide)
  have hratio : (exactDecimal m k).ratio =
      (units m k * Nat.pow 5 leastPlaces, unitsInOne * Nat.pow 5 leastPlaces) := by
    have hneg : (-leastPlaces : Int) < 0 := by
      decide
    have hten : ∀ p, Nat.pow 10 p = Nat.pow 2 p * Nat.pow 5 p :=
      fun p => Nat.mul_pow 2 5 p
    rw [exactDecimal, ratio, if_pos hneg, Int.natAbs_neg, Int.natAbs_natCast, unitsInOne, hten]
  have hfive : ∀ p, 0 < Nat.pow 5 p :=
    fun _ => Nat.pow_pos (by decide)
  rw [toDouble, if_neg hdigits, if_neg (by omega), if_neg (by omega), hratio]
  have hscaled := ofRatio_mul_mul (units m k) unitsInOne (hfive leastPlaces)
  exact hscaled.trans (ofRatio_units h)

/-- One of the two neighbours is taken. -/
theorem nearer_eq
    (tie : Tie)
    (low high : Decimal)
    (r d : Nat) :
    nearer tie low high r d = low ∨ nearer tie low high r d = high := by
  simp only [nearer]
  split
  · exact .inl rfl
  · split
    · exact .inr rfl
    · cases tie with
      | up =>
          exact .inr rfl
      | even =>
          by_cases heven : low.digits % 2 = 0
          · exact .inl (if_pos heven)
          · exact .inr (if_neg heven)

/-- A decimal that is chosen reads back as the number it is chosen for. -/
theorem toDouble_of_decimalOf?
    {tie : Tie}
    {x : Double}
    {n d p : Nat}
    {c : Decimal}
    (h : decimalOf? tie x n d p = some c) :
    c.toDouble = x := by
  simp only [decimalOf?] at h
  generalize hlowdef : Decimal.mk _ _ = low at h
  generalize hhighdef : Decimal.mk _ _ = high at h
  split at h
  · next hlow hhigh =>
      simp only [Option.some.injEq] at h
      subst h
      rcases nearer_eq tie low high _ _ with heq | heq
      · rw [heq]
        exact of_decide_eq_true hlow
      · rw [heq]
        exact of_decide_eq_true hhigh
  · next hlow _ =>
      simp only [Option.some.injEq] at h
      subst h
      exact of_decide_eq_true hlow
  · next _ hhigh =>
      simp only [Option.some.injEq] at h
      subst h
      exact of_decide_eq_true hhigh
  · simp at h

/-- The shortest decimal reads back as the magnitude it is made for. -/
theorem toDouble_shortest
    (tie : Tie)
    {m k : Nat}
    (h : Canonical m k) :
    (shortest tie m k h).toDouble = .finite false m k h := by
  by_cases hm : m = 0
  · subst hm
    have hk : k = 0 := by
      rcases h.2.2 with hk | hbig
      · exact hk
      · exact absurd hbig (by decide)
    subst hk
    rfl
  · rw [shortest, if_neg hm, toDouble_normalize]
    generalize hfound : List.findSome? _ (List.range 17) = found
    cases found with
    | none =>
        exact toDouble_exactDecimal h hm
    | some d =>
        obtain ⟨i, -, hd⟩ := List.exists_of_findSome?_eq_some hfound
        exact toDouble_of_decimalOf? hd

/-- Digits in front of anything that is no digit are read to their end. -/
theorem readDigits_append
    {digits rest : List Char}
    (hdigits : ∀ c ∈ digits, c.isDigit = true)
    (hrest : rest.head?.any Char.isDigit = false)
    (n count : Nat) :
    readDigits n count (digits ++ rest) =
      (Nat.ofDigitChars 10 digits n, count + digits.length, rest) := by
  induction digits generalizing n count with
  | nil =>
      cases rest with
      | nil =>
          rfl
      | cons c cs =>
          have hc : c.isDigit = false := by
            simpa using hrest
          simp [readDigits, hc]
  | cons c cs ih =>
      have hc : c.isDigit = true :=
        hdigits c List.mem_cons_self
      have hcs : ∀ d ∈ cs, d.isDigit = true :=
        fun d hd => hdigits d (List.mem_cons_of_mem _ hd)
      have hlength : count + 1 + cs.length = count + (c :: cs).length := by
        rw [List.length_cons]
        omega
      rw [List.cons_append, readDigits, if_pos hc, ih hcs, Nat.ofDigitChars_cons,
        Nat.mul_comm n 10, hlength]
      rfl

/-- Two rows of digits with a point between them. -/
structure Pointed (whole fraction : List Char) : Prop where
  whole_ne_nil : whole ≠ []
  fraction_ne_nil : fraction ≠ []
  isDigit_whole : ∀ c ∈ whole, c.isDigit = true
  isDigit_fraction : ∀ c ∈ fraction, c.isDigit = true

/-- A pointed text is read as the decimal of its digits. -/
theorem readDecimal?_pointed
    {whole fraction : List Char}
    (h : Pointed whole fraction) :
    readDecimal? (whole ++ '.' :: fraction) =
      some ⟨Nat.ofDigitChars 10 (whole ++ fraction) 0, -fraction.length⟩ := by
  have hwhole : readDigits 0 0 (whole ++ '.' :: fraction) =
      (Nat.ofDigitChars 10 whole 0, whole.length, '.' :: fraction) := by
    rw [readDigits_append h.isDigit_whole (by simp), Nat.zero_add]
  have hfraction : ∀ n, readDigits n 0 fraction =
      (Nat.ofDigitChars 10 fraction n, fraction.length, []) := by
    intro n
    have hnil : ([] : List Char).head?.any Char.isDigit = false := rfl
    have hread := readDigits_append h.isDigit_fraction hnil n 0
    rwa [List.append_nil, Nat.zero_add] at hread
  have hlength : whole.length + fraction.length ≠ 0 := by
    have := List.length_pos_iff.2 h.whole_ne_nil
    omega
  simp only [readDecimal?, hwhole, hfraction, if_neg hlength, readExponent?, Option.map_some,
    Nat.ofDigitChars_append, Int.zero_sub]

/-- The positional text of a decimal is a pointed text, whose digits differ from
those of the decimal by zeros at the end. -/
theorem positionalText_toDigits
    (n : Nat)
    (e : Int) :
    ∃ (whole fraction : List Char) (zeros : Nat),
      positionalText (Nat.toDigits 10 n) e = whole ++ '.' :: fraction ∧
        Pointed whole fraction ∧
        Nat.ofDigitChars 10 (whole ++ fraction) 0 = n * Nat.pow 10 zeros ∧
        (-fraction.length : Int) + zeros = e := by
  have hdigit : ∀ c ∈ Nat.toDigits 10 n, c.isDigit = true :=
    fun c hc => Nat.isDigit_of_mem_toDigits (by decide) (by decide) hc
  have hzeros : ∀ j, ∀ c ∈ List.replicate j '0', c.isDigit = true := by
    intro j c hc
    rw [List.eq_of_mem_replicate hc]
    rfl
  have hvalue : Nat.ofDigitChars 10 (Nat.toDigits 10 n) 0 = n :=
    Nat.ofDigitChars_ten_toDigits
  rw [positionalText]
  split
  · next hnneg =>
      refine ⟨Nat.toDigits 10 n ++ List.replicate e.natAbs '0', ['0'], e.natAbs + 1, ?_, ?_, ?_, ?_⟩
      · simp
      · refine ⟨?_, by simp, ?_, by simp⟩
        · simp [Nat.toDigits_ne_nil]
        · intro c hc
          rcases List.mem_append.1 hc with hc | hc
          · exact hdigit c hc
          · exact hzeros _ c hc
      · have hall : Nat.toDigits 10 n ++ List.replicate e.natAbs '0' ++ ['0'] =
            Nat.toDigits 10 n ++ List.replicate (e.natAbs + 1) '0' := by
          rw [List.replicate_succ', List.append_assoc]
        rw [hall, Nat.ofDigitChars_append, hvalue, Nat.ofDigitChars_replicate_zero, Nat.mul_comm]
        rfl
      · simp only [List.length_singleton]
        omega
  · next hneg =>
      dsimp only
      split
      · next hlt =>
          refine ⟨_, _, 0, rfl, ⟨?_, ?_, ?_, ?_⟩, ?_, ?_⟩
          · rw [Ne, List.take_eq_nil_iff]
            have := Nat.toDigits_ne_nil (n := n) (b := 10)
            simp only [this, or_false]
            omega
          · rw [Ne, List.drop_eq_nil_iff]
            omega
          · exact fun c hc => hdigit c (List.mem_of_mem_take hc)
          · exact fun c hc => hdigit c (List.mem_of_mem_drop hc)
          · rw [List.take_append_drop, hvalue]
            exact (Nat.mul_one n).symm
          · rw [List.length_drop]
            omega
      · next hge =>
          refine ⟨['0'], _, 0, rfl, ⟨by simp, ?_, by simp, ?_⟩, ?_, ?_⟩
          · simp [Nat.toDigits_ne_nil]
          · intro c hc
            rcases List.mem_append.1 hc with hc | hc
            · exact hzeros _ c hc
            · exact hdigit c hc
          · have hall : ['0'] ++
                (List.replicate (e.natAbs - (Nat.toDigits 10 n).length) '0' ++ Nat.toDigits 10 n) =
                List.replicate (e.natAbs - (Nat.toDigits 10 n).length + 1) '0' ++
                  Nat.toDigits 10 n := by
              rw [List.replicate_succ]
              rfl
            rw [hall, Nat.ofDigitChars_append, Nat.ofDigitChars_replicate_zero, Nat.mul_zero,
              hvalue]
            exact (Nat.mul_one n).symm
          · rw [List.length_append, List.length_replicate]
            omega

/-- Positional text is read as a decimal for the same number. -/
theorem readDecimal?_positionalText
    (d : Decimal) :
    (readDecimal? (positionalText (Nat.toDigits 10 d.digits) d.exponent)).map Decimal.toDouble =
      some d.toDouble := by
  obtain ⟨whole, fraction, zeros, htext, hpointed, hdigits, hexponent⟩ :=
    positionalText_toDigits d.digits d.exponent
  rw [htext, readDecimal?_pointed hpointed, Option.map_some, hdigits, toDouble_mul_pow, hexponent]

/-- The text of a number is a pointed text behind its sign. -/
theorem finiteText_plainLayout
    (negative : Bool)
    {m k : Nat}
    (h : Canonical m k) :
    ∃ whole fraction,
      finiteText plainLayout negative m k h =
          (if negative then ['-'] else []) ++ (whole ++ '.' :: fraction) ∧
        Pointed whole fraction ∧
        (readDecimal? (whole ++ '.' :: fraction)).map Decimal.toDouble =
          some (.finite false m k h) := by
  obtain ⟨whole, fraction, -, htext, hpointed, -, -⟩ :=
    positionalText_toDigits (shortest .up m k h).digits (shortest .up m k h).exponent
  refine ⟨whole, fraction, ?_, hpointed, ?_⟩
  · rw [← htext]
    rfl
  · rw [← htext, readDecimal?_positionalText, toDouble_shortest]

/-- A number is read back from its text. -/
theorem read?_finiteText
    (negative : Bool)
    {m k : Nat}
    (h : Canonical m k) :
    read? (finiteText plainLayout negative m k h) = some (.finite negative m k h) := by
  obtain ⟨whole, fraction, htext, hpointed, hread⟩ := finiteText_plainLayout negative h
  rw [htext]
  cases negative with
  | true =>
      have hnegate := congrArg (Option.map negate) hread
      rw [Option.map_map] at hnegate
      exact hnegate
  | false =>
      obtain ⟨c, cs, rfl⟩ := List.exists_cons_of_ne_nil hpointed.whole_ne_nil
      have hc : c.isDigit = true :=
        hpointed.isDigit_whole c List.mem_cons_self
      simp only [Bool.false_eq_true, if_false, List.nil_append, List.cons_append] at hread ⊢
      rw [read?]
      · exact hread
      · rintro rest heq
        rw [List.cons.injEq] at heq
        rw [heq.1] at hc
        exact absurd hc (by decide)
      · rintro rest heq
        rw [List.cons.injEq] at heq
        rw [heq.1] at hc
        exact absurd hc (by decide)

end Double

end Dashboard
