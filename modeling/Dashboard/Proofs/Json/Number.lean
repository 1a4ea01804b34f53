import Dashboard.Json.Number
import Dashboard.Proofs.Double.Finite

/-!
# Reading numbers

A reader of numbers gives an integer or a finite number, leaves the end of the
text, and stops at the same place when the text goes on with something that is
no part of a number.
-/

namespace Dashboard.Json

open Double

/-! ## Scaling -/

theorem pow_ten_mul_unitsInOne_le
    {n : Nat}
    (h : n ≤ 308) :
    Nat.pow 10 n * unitsInOne ≤ maxUnits := by
  have hlargest : Nat.pow 10 308 * unitsInOne ≤ maxUnits := by decide +kernel
  have hpow : Nat.pow 10 n ≤ Nat.pow 10 308 := Nat.pow_le_pow_right (by decide) h
  exact Nat.le_trans (Nat.mul_le_mul_right _ hpow) hlargest

theorem atLeastOne_tenTo
    {n : Nat}
    (h : n ≤ 308) :
    (tenTo n).AtLeastOne :=
  atLeastOne_ofNat (Nat.pow_pos (by decide)) (pow_ten_mul_unitsInOne_le h)

/-- Scaling a finite number gives a finite one. -/
theorem isFinite_scaled
    {x y : Double}
    {exponent : Int}
    {steps : Nat}
    (hx : x.isFinite = true)
    (h : scaled x exponent steps = some y) :
    y.isFinite = true := by
  fun_induction scaled x exponent steps with
  | case1 x exponent =>
      cases h
      exact hx
  | case2 x exponent steps hsmall hup z hfinite =>
      rw [← Option.some.inj h]
      exact hfinite
  | case3 x exponent steps hsmall hup z hfinite =>
      cases h
  | case4 x exponent steps hsmall hdown =>
      cases h
      exact isFinite_div hx (atLeastOne_tenTo hsmall)
  | case5 x exponent steps hlarge hzero =>
      cases h
      exact hx
  | case6 x exponent steps hlarge hzero hup =>
      cases h
  | case7 x exponent steps hlarge hzero hdown ih =>
      have hten := atLeastOne_tenTo (Nat.le_refl 308)
      exact ih (isFinite_div hx hten) h

theorem isFinite_ofDigits
    {digits : Nat}
    (h : digits ≤ maxDigits) :
    (Double.ofNat digits).isFinite = true := by
  have hlargest : maxDigits * unitsInOne ≤ maxUnits := by decide +kernel
  exact isFinite_ofNat (Nat.le_trans (Nat.mul_le_mul_right _ h) hlargest)

/-! ## Readers -/

/-- No part of a number comes next. -/
def EndsNumber (rest : List Char) : Prop :=
  ∀ c cs, rest = c :: cs → c.isDigit = false ∧ c ≠ '.' ∧ c ≠ 'e' ∧ c ≠ 'E'

theorem endsNumber_nil : EndsNumber [] := by
  intro c cs h
  cases h

theorem endsNumber_cons
    {c : Char}
    {cs : List Char}
    (h : c.isDigit = false ∧ c ≠ '.' ∧ c ≠ 'e' ∧ c ≠ 'E') :
    EndsNumber (c :: cs) := by
  intro c' cs' heq
  cases heq
  exact h

/-- An integer or a finite number. -/
def IsNumber : Value → Prop
  | .int _ => True
  | .float x => x.isFinite = true
  | _ => False

/-- A reader gives a number, leaves the end of the text, and stops at the same
place when the text goes on with what is no part of a number. -/
def ReadsNumber
    (read : List Char → Except Failure (Value × List Char))
    (cs : List Char) : Prop :=
  ∀ v left, read cs = .ok (v, left) →
    IsNumber v ∧ left <:+ cs ∧
      ∀ rest, (left = [] → EndsNumber rest) → read (cs ++ rest) = .ok (v, left ++ rest)

variable {negative : Bool}
variable {digits : Nat}

theorem isFinite_negate
    {x : Double}
    (h : x.isFinite = true) :
    x.negate.isFinite = true := by
  cases x with
  | finite s m k hcanonical =>
      rfl
  | infinity s | nan =>
      cases h

theorem isFinite_signed
    {x : Double}
    (h : x.isFinite = true) :
    (if negative then x.negate else x).isFinite = true := by
  split
  · exact isFinite_negate h
  · exact h

variable (negative)

theorem readsNumber_ofDigits
    (hdigits : digits ≤ maxDigits)
    (exponent : Int)
    (cs : List Char) :
    ReadsNumber (ofDigits negative digits exponent) cs := by
  intro v left h
  rw [ofDigits] at h
  cases hscaled : scaled (Double.ofNat digits) exponent 8 with
  | none =>
      rw [hscaled] at h
      cases h
  | some x =>
      rw [hscaled] at h
      cases h
      refine ⟨isFinite_signed (isFinite_scaled (isFinite_ofDigits hdigits) hscaled),
        List.suffix_refl cs, fun rest _ => ?_⟩
      rw [ofDigits, hscaled]

section Handing

variable {read next : List Char → Except Failure (Value × List Char)}
variable {c : Char}
variable {cs : List Char}

/-- A reader that fails reads no number. -/
theorem readsNumber_of_error
    {f : Failure}
    (h : read cs = .error f) :
    ReadsNumber read cs := by
  intro v left hok
  rw [h] at hok
  cases hok

/-- A reader that hands over to another one. -/
theorem ReadsNumber.of_eq
    (h : ReadsNumber next cs)
    (hread : ∀ rest, (cs = [] → EndsNumber rest) → read (cs ++ rest) = next (cs ++ rest)) :
    ReadsNumber read cs := by
  intro v left hok
  have hself := hread [] fun _ => endsNumber_nil
  rw [List.append_nil] at hself
  rw [hself] at hok
  obtain ⟨hnumber, hsuffix, hgoes⟩ := h v left hok
  refine ⟨hnumber, hsuffix, fun rest hrest => ?_⟩
  rw [hread rest fun hnil => hrest (List.suffix_nil.1 (hnil ▸ hsuffix))]
  exact hgoes rest hrest

/-- A reader that takes a character and hands over to another one. -/
theorem ReadsNumber.of_cons_eq
    (h : ReadsNumber next cs)
    (hread : ∀ rest, (cs = [] → EndsNumber rest) → read (c :: (cs ++ rest)) = next (cs ++ rest)) :
    ReadsNumber read (c :: cs) := by
  have hbehind : ReadsNumber (fun cs => read (c :: cs)) cs := h.of_eq hread
  intro v left hok
  obtain ⟨hnumber, hsuffix, hgoes⟩ := hbehind v left hok
  exact ⟨hnumber, hsuffix.trans (List.suffix_cons c cs), hgoes⟩

/-- Digits that do not count are passed over. -/
theorem dropWhile_isDigit_append
    {rest : List Char}
    (h : cs.dropWhile Char.isDigit = [] → EndsNumber rest) :
    (cs ++ rest).dropWhile Char.isDigit = cs.dropWhile Char.isDigit ++ rest := by
  rw [List.dropWhile_append]
  split
  · next hempty =>
      rw [List.isEmpty_iff] at hempty
      rw [hempty, List.nil_append]
      cases rest with
      | nil =>
          rfl
      | cons c cs =>
          exact List.dropWhile_cons_of_neg (by simp [(h hempty c cs rfl).1])
  · rfl

theorem ReadsNumber.dropWhile
    (h : ReadsNumber next (cs.dropWhile Char.isDigit)) :
    ReadsNumber (fun cs => next (cs.dropWhile Char.isDigit)) cs := by
  intro v left hok
  obtain ⟨hnumber, hsuffix, hgoes⟩ := h v left hok
  refine ⟨hnumber, hsuffix.trans (List.dropWhile_suffix _), fun rest hrest => ?_⟩
  simp only
  rw [dropWhile_isDigit_append fun hnil => hrest (List.suffix_nil.1 (hnil ▸ hsuffix))]
  exact hgoes rest hrest

end Handing

/-! ## Exponents -/

theorem readExponentDigits_append
    {n : Nat}
    {cs left : List Char}
    {e : Option Nat}
    (h : readExponentDigits n cs = (e, left)) :
    left <:+ cs ∧
      ∀ rest, (left = [] → EndsNumber rest) →
        readExponentDigits n (cs ++ rest) = (e, left ++ rest) := by
  induction cs generalizing n with
  | nil =>
      cases h
      refine ⟨List.suffix_refl [], fun rest hrest => ?_⟩
      cases rest with
      | nil =>
          rfl
      | cons c cs =>
          simp [readExponentDigits, (hrest rfl c cs rfl).1]
  | cons c cs ih =>
      simp only [List.cons_append, readExponentDigits] at h ⊢
      split at h
      · next hdigit =>
          simp only [hdigit, ↓reduceIte]
          split at h
          · next hlarge =>
              cases h
              refine ⟨List.suffix_cons c _, fun rest _ => ?_⟩
              rw [if_pos hlarge]
          · next hsmall =>
              obtain ⟨hsuffix, hgoes⟩ := ih h
              refine ⟨hsuffix.trans (List.suffix_cons c cs), fun rest hrest => ?_⟩
              rw [if_neg hsmall]
              exact hgoes rest hrest
      · next hdigit =>
          cases h
          refine ⟨List.suffix_refl _, fun rest _ => ?_⟩
          rw [if_neg hdigit]
          rfl

/-- The number whose exponent has been taken, if it is not too large. -/
def withExponent
    (negative : Bool)
    (digits : Nat)
    (start : Int)
    (down : Bool) :
    Option Nat → List Char → Except Failure (Value × List Char)
  | some e, rest => ofDigits negative digits (if down then start - e else start + e) rest
  | none, rest =>
    if digits ≠ 0 ∧ !down then failed .numberOutOfRange rest
    else
      .ok (.float (if negative then Double.zero.negate else Double.zero),
        rest.dropWhile Char.isDigit)

/-- The number whose sign of the exponent has been taken. -/
def readSigned
    (negative : Bool)
    (digits : Nat)
    (start : Int)
    (down : Bool) :
    List Char → Except Failure (Value × List Char)
  | [] => failed .unfinishedValue []
  | c :: rest =>
    if c.isDigit then
      let r := readExponentDigits (c.toNat - 48) rest
      withExponent negative digits start down r.1 r.2
    else failed .invalidNumber rest

theorem readExponent_sign
    {c : Char}
    {down : Bool}
    (hsign : (c, down) = ('+', false) ∨ (c, down) = ('-', true))
    (start : Int)
    (cs : List Char) :
    readExponent negative digits start (c :: cs) =
      readSigned negative digits start down cs := by
  rcases hsign with hsign | hsign <;> cases hsign
  all_goals
    cases cs with
    | nil =>
        rfl
    | cons c cs =>
        simp only [readExponent, readSigned]
        split
        · rcases readExponentDigits (c.toNat - 48) cs with ⟨_ | e, rest⟩ <;> rfl
        · rfl

theorem readExponent_digits
    {c : Char}
    (hplus : c ≠ '+')
    (hminus : c ≠ '-')
    (start : Int)
    (cs : List Char) :
    readExponent negative digits start (c :: cs) =
      readSigned negative digits start false (c :: cs) := by
  rcases hdigits : readExponentDigits (c.toNat - 48) cs with ⟨_ | e, rest⟩ <;>
    simp [readExponent, readSigned, withExponent, hdigits, hplus, hminus]

theorem readsNumber_withExponent
    (hdigits : digits ≤ maxDigits)
    (start : Int)
    (down : Bool)
    (e : Option Nat)
    (cs : List Char) :
    ReadsNumber (withExponent negative digits start down e) cs := by
  cases e with
  | some e =>
      exact readsNumber_ofDigits negative hdigits _ cs
  | none =>
      by_cases hlarge : digits ≠ 0 ∧ (!down) = true
      · exact readsNumber_of_error (if_pos hlarge)
      · have hzero : ReadsNumber (fun cs =>
            .ok (.float (if negative then Double.zero.negate else Double.zero), cs))
            (cs.dropWhile Char.isDigit) := by
          intro v left hok
          cases hok
          exact ⟨isFinite_signed rfl, List.suffix_refl _, fun rest _ => rfl⟩
        exact hzero.dropWhile.of_eq fun rest _ => if_neg hlarge

theorem readsNumber_readSigned
    (hdigits : digits ≤ maxDigits)
    (start : Int)
    (down : Bool)
    (cs : List Char) :
    ReadsNumber (readSigned negative digits start down) cs := by
  cases cs with
  | nil =>
      exact readsNumber_of_error rfl
  | cons c cs =>
      by_cases hdigit : c.isDigit = true
      · cases hread : readExponentDigits (c.toNat - 48) cs with
        | mk e behind =>
            obtain ⟨hsuffix, hgoes⟩ := readExponentDigits_append hread
            intro v left hok
            simp only [readSigned, hdigit, ↓reduceIte, hread] at hok
            obtain ⟨hnumber, hleft, hrest⟩ :=
              readsNumber_withExponent negative hdigits _ _ _ _ v left hok
            refine ⟨hnumber, hleft.trans (hsuffix.trans (List.suffix_cons c cs)), ?_⟩
            intro rest hend
            have hbehind : behind = [] → EndsNumber rest :=
              fun hnil => hend (List.suffix_nil.1 (hnil ▸ hleft))
            simp only [List.cons_append, readSigned, hdigit, ↓reduceIte, hgoes rest hbehind]
            exact hrest rest hend
      · exact readsNumber_of_error (if_neg hdigit)

theorem readsNumber_readExponent
    (hdigits : digits ≤ maxDigits)
    (start : Int)
    (cs : List Char) :
    ReadsNumber (readExponent negative digits start) cs := by
  cases cs with
  | nil =>
      exact readsNumber_of_error rfl
  | cons c cs =>
      by_cases hplus : c = '+'
      · exact (readsNumber_readSigned negative hdigits start false cs).of_cons_eq fun rest _ =>
          readExponent_sign negative (.inl (by rw [hplus])) start _
      · by_cases hminus : c = '-'
        · exact (readsNumber_readSigned negative hdigits start true cs).of_cons_eq fun rest _ =>
            readExponent_sign negative (.inr (by rw [hminus])) start _
        · exact (readsNumber_readSigned negative hdigits start false (c :: cs)).of_eq fun rest _ =>
            readExponent_digits negative hplus hminus start _

/-! ## Fractions and whole parts -/

theorem readsNumber_readNumberEnd
    (hdigits : digits ≤ maxDigits)
    (exponent : Int)
    (cs : List Char) :
    ReadsNumber (readNumberEnd negative digits exponent) cs := by
  cases cs with
  | nil =>
      refine (readsNumber_ofDigits negative hdigits exponent []).of_eq fun rest hrest => ?_
      cases rest with
      | nil =>
          rfl
      | cons c cs =>
          obtain ⟨-, -, hlower, hupper⟩ := hrest rfl c cs rfl
          simp [readNumberEnd, hlower, hupper]
  | cons c cs =>
      by_cases hmark : (c == 'e' || c == 'E') = true
      · exact (readsNumber_readExponent negative hdigits exponent cs).of_cons_eq fun rest _ =>
          if_pos hmark
      · exact (readsNumber_ofDigits negative hdigits exponent (c :: cs)).of_eq fun rest _ =>
          if_neg hmark

theorem readsNumber_readFraction
    (hdigits : digits ≤ maxDigits)
    (start : Int)
    (places : Nat)
    (cs : List Char) :
    ReadsNumber (readFraction negative digits start places) cs := by
  induction cs generalizing digits places with
  | nil =>
      by_cases hplaces : places = 0
      · exact readsNumber_of_error (if_pos hplaces)
      · refine (readsNumber_readNumberEnd negative hdigits (start - places) []).of_eq
          fun rest hrest => ?_
        cases rest with
        | nil =>
            exact if_neg hplaces
        | cons c cs =>
            simp [readFraction, (hrest rfl c cs rfl).1, hplaces]
  | cons c cs ih =>
      by_cases hdigit : c.isDigit = true
      · by_cases hlarge : maxDigits < digits * 10 + (c.toNat - 48)
        · have hend := readsNumber_readNumberEnd negative hdigits (start - places)
            (cs.dropWhile Char.isDigit)
          refine hend.dropWhile.of_cons_eq fun rest _ => ?_
          simp [readFraction, hdigit, hlarge]
        · refine (ih (Nat.le_of_not_lt hlarge) (places + 1)).of_cons_eq fun rest _ => ?_
          simp [readFraction, hdigit, hlarge]
      · by_cases hplaces : places = 0
        · refine readsNumber_of_error (f := ⟨.invalidNumber, c :: cs, true⟩) ?_
          simp [readFraction, hdigit, hplaces, failedAhead]
        · refine (readsNumber_readNumberEnd negative hdigits (start - places) (c :: cs)).of_eq
            fun rest _ => ?_
          simp [readFraction, hdigit, hplaces]

theorem readsNumber_readLong
    (hdigits : digits ≤ maxDigits)
    (dropped : Nat)
    (cs : List Char) :
    ReadsNumber (readLong negative digits dropped) cs := by
  induction cs generalizing dropped with
  | nil =>
      refine (readsNumber_readNumberEnd negative hdigits dropped []).of_eq fun rest hrest => ?_
      cases rest with
      | nil =>
          rfl
      | cons c cs =>
          obtain ⟨hdigit, hpoint, -⟩ := hrest rfl c cs rfl
          simp [readLong, hdigit, hpoint]
  | cons c cs ih =>
      by_cases hdigit : c.isDigit = true
      · refine (ih (dropped + 1)).of_cons_eq fun rest _ => ?_
        simp [readLong, hdigit]
      · by_cases hpoint : c = '.'
        · refine (readsNumber_readFraction negative hdigits dropped 0 cs).of_cons_eq
            fun rest _ => ?_
          simp [readLong, hpoint]
        · refine (readsNumber_readNumberEnd negative hdigits dropped (c :: cs)).of_eq
            fun rest _ => ?_
          simp [readLong, hdigit, hpoint]

/-- The whole number that has been read. -/
theorem readsNumber_ofInteger
    (hdigits : digits ≤ maxDigits)
    (cs : List Char) :
    ReadsNumber (fun cs => .ok (ofInteger negative digits, cs)) cs := by
  intro v left hok
  cases hok
  refine ⟨?_, List.suffix_refl _, fun rest _ => rfl⟩
  have hfinite := isFinite_ofDigits hdigits
  generalize hx : Double.ofNat digits = x at hfinite
  rw [ofInteger, hx]
  split
  · split
    · exact True.intro
    · exact isFinite_negate hfinite
  · split
    · exact True.intro
    · exact hfinite

theorem readsNumber_readWhole
    (hdigits : digits ≤ maxDigits)
    (cs : List Char) :
    ReadsNumber (readWhole negative digits) cs := by
  induction cs generalizing digits with
  | nil =>
      refine (readsNumber_ofInteger negative hdigits []).of_eq fun rest hrest => ?_
      cases rest with
      | nil =>
          rfl
      | cons c cs =>
          obtain ⟨hdigit, hpoint, hlower, hupper⟩ := hrest rfl c cs rfl
          simp [readWhole, hdigit, hpoint, hlower, hupper]
  | cons c cs ih =>
      by_cases hdigit : c.isDigit = true
      · by_cases hlarge : maxDigits < digits * 10 + (c.toNat - 48)
        · refine (readsNumber_readLong negative hdigits 0 (c :: cs)).of_eq fun rest _ => ?_
          simp [readWhole, hdigit, hlarge]
        · refine (ih (Nat.le_of_not_lt hlarge)).of_cons_eq fun rest _ => ?_
          simp [readWhole, hdigit, hlarge]
      · by_cases hpoint : c = '.'
        · refine (readsNumber_readFraction negative hdigits 0 0 cs).of_cons_eq fun rest _ => ?_
          simp [readWhole, hpoint]
        · by_cases hmark : c = 'e' ∨ c = 'E'
          · refine (readsNumber_readExponent negative hdigits 0 cs).of_cons_eq fun rest _ => ?_
            simp [readWhole, hdigit, hpoint, hmark]
          · refine (readsNumber_ofInteger negative hdigits (c :: cs)).of_eq fun rest _ => ?_
            simp [readWhole, hdigit, hpoint, hmark]

/-- Reading a number gives an integer or a finite number, and stops where nothing
goes on with it. -/
theorem readsNumber_readUnsigned (cs : List Char) : ReadsNumber (readUnsigned negative) cs := by
  cases cs with
  | nil =>
      exact readsNumber_of_error rfl
  | cons c cs =>
      by_cases hzero : c = '0'
      · subst hzero
        cases cs with
        | nil =>
            refine (readsNumber_readWhole negative (Nat.zero_le maxDigits) []).of_cons_eq
              fun rest hrest => ?_
            cases rest with
            | nil =>
                rfl
            | cons c cs =>
                simp [readUnsigned, (hrest rfl c cs rfl).1]
        | cons c cs =>
            by_cases hdigit : c.isDigit = true
            · exact readsNumber_of_error (f := ⟨.invalidNumber, c :: cs, true⟩)
                (by simp [readUnsigned, hdigit, failedAhead])
            · refine (readsNumber_readWhole negative (Nat.zero_le maxDigits) (c :: cs)).of_cons_eq
                fun rest _ => ?_
              simp [readUnsigned, hdigit]
      · by_cases hdigit : c.isDigit = true
        · have hsmall : c.toNat - 48 ≤ maxDigits := by
            have hchar : c.toNat < 0x100000000 := c.val.toNat_lt
            rw [maxDigits]
            omega
          refine (readsNumber_readWhole negative hsmall cs).of_cons_eq fun rest _ => ?_
          simp [readUnsigned, hzero, hdigit]
        · exact readsNumber_of_error (f := ⟨.invalidNumber, cs, false⟩)
            (by simp [readUnsigned, hzero, hdigit, failed])

end Dashboard.Json
