import Dashboard.Double.Basic

/-!
# The nearest number to a fraction

`ofRatio n d` is the number nearest to `n / d`; of two that are equally near
it is the one with the even significand, and beyond the largest finite number
it is infinity.  Everything is computed on natural numbers: a fraction is
first measured in units of `2^-1074`, then the lowest bits are rounded away
until at most 53 are left.
-/

namespace Dashboard.Double

/-- The integer nearest to `n / d`, a half going to the even neighbour. -/
def roundDiv (n d : Nat) : Nat :=
  let q := n / d
  let r := n % d
  if 2 * r < d then q
  else if d < 2 * r then q + 1
  else if q % 2 = 0 then q
  else q + 1

/-- The number `m · 2^k` when it is canonical, after the carry of a significand
that rounding has filled to 54 bits; infinity when the exponent is too large. -/
def ofParts (m k : Nat) : Double :=
  if h : Canonical m k then .finite false m k h
  else if h : m = 0x20000000000000 ∧ k + 1 ≤ 2045 then
    .finite false 0x10000000000000 (k + 1) ⟨by decide, h.2, .inr (Nat.le_refl _)⟩
  else .infinity false

/-- How many low bits of a magnitude with integer part `q` are rounded away. -/
def excessBits (q : Nat) : Nat :=
  q.log2 - 52

/-- The least positive number is this power of a half. -/
def leastPlaces : Nat :=
  1074

/-- How many least positive numbers make one. -/
def unitsInOne : Nat :=
  Nat.pow 2 leastPlaces

/-- The nearest number to `n / d`. -/
def ofRatio (n d : Nat) : Double :=
  let u := n * unitsInOne
  let k := excessBits (u / d)
  ofParts (roundDiv u (d * Nat.pow 2 k)) k

/-- The nearest number to a natural number. -/
def ofNat (n : Nat) : Double :=
  ofRatio n 1

/-- The nearest number to the product. -/
def mul : Double → Double → Double
  | .finite s m k _, .finite t n l _ =>
    withSign (s != t) (ofRatio (units m k * units n l) (unitsInOne * unitsInOne))
  | .infinity s, .finite t n _ _ => if n = 0 then .nan else .infinity (s != t)
  | .finite s m _ _, .infinity t => if m = 0 then .nan else .infinity (s != t)
  | .infinity s, .infinity t => .infinity (s != t)
  | _, _ => .nan

/-- The nearest number to the quotient. -/
def div : Double → Double → Double
  | .finite s m k _, .finite t n l _ =>
    if n = 0 then (if m = 0 then .nan else .infinity (s != t))
    else withSign (s != t) (ofRatio (units m k) (units n l))
  | .infinity s, .finite t _ _ _ => .infinity (s != t)
  | .finite s _ _ _, .infinity t => withSign (s != t) zero
  | _, _ => .nan

/-- A whole quotient is rounded to itself. -/
theorem roundDiv_mul_left {d : Nat} (q : Nat) (h : 0 < d) : roundDiv (q * d) d = q := by
  simp [roundDiv, Nat.mul_div_cancel _ h, h]

/-- A canonical pair is kept. -/
theorem ofParts_of_canonical {m k : Nat} (h : Canonical m k) :
    ofParts m k = .finite false m k h := by
  simp [ofParts, h]

theorem unitsInOne_pos : 0 < unitsInOne := by
  rw [unitsInOne]
  generalize leastPlaces = n
  exact Nat.two_pow_pos n

/-- The low bits in excess of a canonical pair are its shift. -/
theorem excessBits_units {m k : Nat} (h : Canonical m k) :
    excessBits (units m k) = k := by
  obtain ⟨hm, -, rfl | hk⟩ := h
  · simp only [excessBits, units, Nat.pow_eq, Nat.pow_zero, Nat.mul_one]
    by_cases h0 : m = 0
    · subst h0
      rfl
    · have : m.log2 < 53 := (Nat.log2_lt h0).2 hm
      omega
  · have hpos : 0 < m := Nat.lt_of_lt_of_le (Nat.two_pow_pos 52) hk
    have hlog : (m * 2 ^ k).log2 = 52 + k := by
      rw [Nat.log2_eq_iff (Nat.ne_of_gt (Nat.mul_pos hpos (Nat.two_pow_pos k)))]
      constructor
      · rw [Nat.pow_add]
        exact Nat.mul_le_mul_right _ hk
      · rw [show 52 + k + 1 = 53 + k by omega, Nat.pow_add]
        exact (Nat.mul_lt_mul_right (Nat.two_pow_pos k)).2 hm
    simp only [excessBits, units, Nat.pow_eq, hlog]
    omega

/-- A magnitude is its own nearest number. -/
theorem ofRatio_units {m k : Nat} (h : Canonical m k) :
    ofRatio (units m k) unitsInOne = .finite false m k h := by
  have hdiv : units m k * unitsInOne / unitsInOne = units m k :=
    Nat.mul_div_cancel _ unitsInOne_pos
  have hround : roundDiv (units m k * unitsInOne) (unitsInOne * Nat.pow 2 k) = m := by
    have : units m k * unitsInOne = m * (unitsInOne * Nat.pow 2 k) := by
      simp only [units, Nat.mul_assoc, Nat.mul_comm (Nat.pow 2 k)]
    rw [this]
    exact roundDiv_mul_left m (Nat.mul_pos unitsInOne_pos (Nat.two_pow_pos k))
  simp only [ofRatio, hdiv, excessBits_units h, hround]
  exact ofParts_of_canonical h

end Dashboard.Double
