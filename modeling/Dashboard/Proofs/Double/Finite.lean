import Dashboard.Double.Round

/-!
# Finite results

A fraction that is not above the largest finite number has a finite nearest
number, and one that is not below one has a nearest number that is not.  So the
quotient of a finite number and one that is not below one is finite.
-/

namespace Dashboard.Double

/-- The largest shift of a significand. -/
def maxShift : Nat :=
  2045

/-- The largest finite magnitude, in units of the least one. -/
def maxUnits : Nat :=
  0x1FFFFFFFFFFFFF * Nat.pow 2 maxShift

/-! ## Rounding -/

theorem div_le_roundDiv (n d : Nat) : n / d ≤ roundDiv n d := by
  simp only [roundDiv]
  repeat' split
  all_goals omega

/-- A fraction is rounded to no more than a whole number that it is not above. -/
theorem roundDiv_le
    {n d q : Nat}
    (hd : 0 < d)
    (h : n ≤ q * d) :
    roundDiv n d ≤ q := by
  have hdiv : n / d ≤ q := Nat.div_le_of_le_mul (by rwa [Nat.mul_comm])
  rcases Nat.lt_or_eq_of_le hdiv with hlt | heq
  · have hround : roundDiv n d ≤ n / d + 1 := by
      simp only [roundDiv]
      repeat' split
      all_goals omega
    omega
  · -- a fraction that reaches the whole number is that number
    have hrest : n % d = 0 := by
      have hsplit := Nat.div_add_mod n d
      rw [heq, Nat.mul_comm] at hsplit
      omega
    simp only [roundDiv, heq, hrest, Nat.mul_zero, if_pos hd]
    exact Nat.le_refl q

/-- A fraction is rounded to no less than a whole number that it is not below. -/
theorem le_roundDiv
    {n d q : Nat}
    (hd : 0 < d)
    (h : q * d ≤ n) :
    q ≤ roundDiv n d :=
  Nat.le_trans ((Nat.le_div_iff_mul_le hd).2 h) (div_le_roundDiv n d)

/-! ## Taking off low bits -/

/-- No more than 53 bits are left when the low bits in excess are taken off. -/
theorem lt_two_pow_excessBits (q : Nat) : q < Nat.pow 2 (53 + excessBits q) := by
  have hlog : q < Nat.pow 2 (q.log2 + 1) := Nat.lt_log2_self
  refine Nat.lt_of_lt_of_le hlog (Nat.pow_le_pow_right (by decide) ?_)
  rw [excessBits]
  omega

/-- If low bits are taken off, then 53 are left. -/
theorem two_pow_excessBits_le
    {q : Nat}
    (h : excessBits q ≠ 0) :
    Nat.pow 2 (52 + excessBits q) ≤ q := by
  have hlog : 52 + excessBits q = q.log2 := by
    rw [excessBits] at h ⊢
    omega
  have hpos : q ≠ 0 := by
    intro hzero
    rw [hzero] at h
    exact h rfl
  rw [hlog]
  exact Nat.log2_self_le hpos

theorem maxUnits_lt : maxUnits < Nat.pow 2 (53 + maxShift) := by
  rw [maxUnits, Nat.pow_eq, Nat.pow_eq, Nat.pow_add]
  generalize maxShift = n
  exact (Nat.mul_lt_mul_right (Nat.two_pow_pos n)).2 (by decide)

/-- Parts that are not above those of the largest finite number, a carry apart,
make a finite number of their size. -/
theorem exists_ofParts
    {m k : Nat}
    (hm : m ≤ 0x20000000000000)
    (hk : k ≤ maxShift)
    (hlow : k = 0 ∨ 0x10000000000000 ≤ m)
    (hcarry : m = 0x20000000000000 → k + 1 ≤ maxShift) :
    ∃ n l h, ofParts m k = .finite false n l h ∧ units n l = units m k := by
  rcases Nat.lt_or_eq_of_le hm with hlt | heq
  · exact ⟨m, k, ⟨hlt, hk, hlow⟩, ofParts_of_canonical _, rfl⟩
  · have hnot : ¬Canonical m k := fun hcanonical => by
      have := hcanonical.1
      omega
    refine ⟨_, _, _, (dif_neg hnot).trans (dif_pos ⟨heq, hcarry heq⟩), ?_⟩
    rw [heq, units, units, Nat.pow_eq, Nat.pow_eq, Nat.pow_succ, Nat.mul_comm (2 ^ k),
      ← Nat.mul_assoc]

/-- A fraction that is not above the largest finite number has a finite nearest
number, the rounded one with its low bits taken off. -/
theorem exists_ofRatio
    {n d : Nat}
    (hd : 0 < d)
    (h : n * unitsInOne ≤ maxUnits * d) :
    ∃ m l hcanonical, ofRatio n d = .finite false m l hcanonical ∧
      units m l = units
        (roundDiv (n * unitsInOne) (d * Nat.pow 2 (excessBits (n * unitsInOne / d))))
        (excessBits (n * unitsInOne / d)) := by
  simp only [ofRatio]
  generalize n * unitsInOne = u at h
  have hq : u / d ≤ maxUnits := Nat.div_le_of_le_mul (by rwa [Nat.mul_comm])
  have hupper := lt_two_pow_excessBits (u / d)
  have hlower := two_pow_excessBits_le (q := u / d)
  generalize excessBits (u / d) = k at hupper hlower
  have hscale : 0 < d * Nat.pow 2 k := Nat.mul_pos hd (Nat.two_pow_pos k)
  have hk : k ≤ maxShift := by
    rcases Nat.eq_zero_or_pos k with hzero | hpos
    · omega
    · have hlt : Nat.pow 2 (52 + k) < Nat.pow 2 (53 + maxShift) :=
        Nat.lt_of_le_of_lt (Nat.le_trans (hlower (Nat.ne_of_gt hpos)) hq) maxUnits_lt
      rw [Nat.pow_eq, Nat.pow_eq] at hlt
      have hexponent := (Nat.pow_lt_pow_iff_right (Nat.lt_succ_self 1)).1 hlt
      omega
  refine exists_ofParts (roundDiv_le hscale ?_) hk ?_ ?_
  · have hdiv : u < d * (u / d + 1) := Nat.lt_mul_div_succ u hd
    have hpow : d * (u / d + 1) ≤ d * Nat.pow 2 (53 + k) := Nat.mul_le_mul_left d hupper
    calc u ≤ d * Nat.pow 2 (53 + k) := Nat.le_of_lt (Nat.lt_of_lt_of_le hdiv hpow)
      _ = 0x20000000000000 * (d * Nat.pow 2 k) := by
          rw [Nat.pow_eq, Nat.pow_add, Nat.mul_left_comm]
          rfl
  · rcases Nat.eq_zero_or_pos k with hzero | hpos
    · exact .inl hzero
    · refine .inr (Nat.le_trans ?_ (div_le_roundDiv u (d * Nat.pow 2 k)))
      rw [← Nat.div_div_eq_div_mul, Nat.pow_eq, Nat.le_div_iff_mul_le (Nat.two_pow_pos k)]
      have hbits := hlower (Nat.ne_of_gt hpos)
      rwa [Nat.pow_eq, Nat.pow_add] at hbits
  · intro hcarry
    refine Nat.lt_of_le_of_ne hk fun heq => ?_
    have hle : roundDiv u (d * Nat.pow 2 k) ≤ 0x1FFFFFFFFFFFFF := by
      refine roundDiv_le hscale ?_
      rwa [heq, Nat.mul_left_comm, Nat.mul_comm d]
    rw [hcarry] at hle
    exact absurd hle (by decide)

/-! ## Sizes -/

/-- The magnitude of a finite number is not above the largest one. -/
theorem units_le_maxUnits
    {m k : Nat}
    (h : Canonical m k) :
    units m k ≤ maxUnits := by
  obtain ⟨hm, hk, -⟩ := h
  have hk' : k ≤ maxShift := hk
  rw [units, maxUnits, Nat.pow_eq, Nat.pow_eq]
  generalize maxShift = top at hk'
  exact Nat.mul_le_mul (Nat.le_of_lt_succ hm) (Nat.pow_le_pow_right (Nat.zero_lt_succ 1) hk')

/-- A number that is not below one. -/
def AtLeastOne (x : Double) : Prop :=
  ∃ s n l h, x = .finite s n l h ∧ unitsInOne ≤ units n l

theorem isFinite_ofRatio
    {n d : Nat}
    (hd : 0 < d)
    (h : n * unitsInOne ≤ maxUnits * d) :
    (ofRatio n d).isFinite = true := by
  obtain ⟨m, l, hcanonical, hratio, -⟩ := exists_ofRatio hd h
  rw [hratio]
  rfl

/-- A natural number that is not above the largest finite number is finite. -/
theorem isFinite_ofNat
    {n : Nat}
    (h : n * unitsInOne ≤ maxUnits) :
    (ofNat n).isFinite = true :=
  isFinite_ofRatio Nat.one_pos (by rwa [Nat.mul_one])

/-- A natural number other than zero is not below one. -/
theorem atLeastOne_ofNat
    {n : Nat}
    (hpos : 0 < n)
    (h : n * unitsInOne ≤ maxUnits) :
    (ofNat n).AtLeastOne := by
  obtain ⟨m, l, hcanonical, hratio, hunits⟩ := exists_ofRatio Nat.one_pos (by rwa [Nat.mul_one])
  refine ⟨false, m, l, hcanonical, hratio, ?_⟩
  rw [hunits, Nat.div_one, Nat.one_mul]
  have hu : unitsInOne ≤ n * unitsInOne := Nat.le_mul_of_pos_left _ hpos
  have hlower := two_pow_excessBits_le (q := n * unitsInOne)
  generalize n * unitsInOne = u at hu hlower
  generalize excessBits u = k at hlower
  rw [unitsInOne] at hu ⊢
  generalize leastPlaces = places at hu
  rw [units]
  rcases Nat.le_total k places with hk | hk
  · -- the bits that are taken off are below one
    have hsplit : Nat.pow 2 places = Nat.pow 2 (places - k) * Nat.pow 2 k := by
      rw [Nat.pow_eq, Nat.pow_eq, Nat.pow_eq, ← Nat.pow_add, Nat.sub_add_cancel hk]
    rw [hsplit] at hu ⊢
    exact Nat.mul_le_mul_right _ (le_roundDiv (Nat.two_pow_pos k) hu)
  · refine Nat.le_trans (Nat.pow_le_pow_right (Nat.zero_lt_succ 1) hk) ?_
    refine Nat.le_mul_of_pos_left _ (le_roundDiv (Nat.two_pow_pos k) ?_)
    rw [Nat.one_mul]
    rcases Nat.eq_zero_or_pos k with hzero | hkpos
    · rw [hzero]
      exact Nat.le_trans (Nat.two_pow_pos places) hu
    · have hmore : Nat.pow 2 k ≤ Nat.pow 2 (52 + k) :=
        Nat.pow_le_pow_right (Nat.zero_lt_succ 1) (Nat.le_add_left k 52)
      exact Nat.le_trans hmore (hlower (Nat.ne_of_gt hkpos))

theorem isFinite_withSign
    (negative : Bool)
    {x : Double}
    (h : x.isFinite = true) :
    (withSign negative x).isFinite = true := by
  cases x with
  | finite s m k hcanonical =>
      rfl
  | infinity s | nan =>
      cases h

/-- What is finite divided by what is not below one is finite. -/
theorem isFinite_div
    {x y : Double}
    (hx : x.isFinite = true)
    (hy : y.AtLeastOne) :
    (x.div y).isFinite = true := by
  obtain ⟨t, n, l, hcanonical', rfl, hone⟩ := hy
  cases x with
  | finite s m k hcanonical =>
      have hpos : n ≠ 0 := by
        intro hzero
        rw [hzero, units, Nat.zero_mul] at hone
        exact absurd hone (Nat.not_le_of_gt unitsInOne_pos)
      rw [div, if_neg hpos]
      refine isFinite_withSign _ (isFinite_ofRatio (Nat.lt_of_lt_of_le unitsInOne_pos hone) ?_)
      exact Nat.mul_le_mul (units_le_maxUnits hcanonical) hone
  | infinity s | nan =>
      cases hx

end Dashboard.Double
