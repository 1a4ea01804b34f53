/-!
# Numbers of double precision

A finite number is a sign and a natural multiple `m · 2^k` of the least
positive number `2^-1074`.  The pair `(m, k)` is kept canonical, so that equal
numbers of one sign are equal data: the significand has at most 53 bits, and
all 53 of them unless `k` is zero.
-/

namespace Dashboard

namespace Double

/-- The pairs `(m, k)` that stand for one finite magnitude each. -/
def Canonical (m k : Nat) : Prop :=
  m < 0x20000000000000 ∧ k ≤ 2045 ∧ (k = 0 ∨ 0x10000000000000 ≤ m)

instance (m k : Nat) : Decidable (Canonical m k) :=
  inferInstanceAs (Decidable (_ ∧ _ ∧ _))

end Double

/-- A number of double precision; all that is not a number is one value. -/
inductive Double where
  | nan
  | infinity (negative : Bool)
  | finite (negative : Bool) (significand : Nat) (shift : Nat)
      (canonical : Double.Canonical significand shift)
deriving DecidableEq, Repr

namespace Double

/-- Positive zero. -/
def zero : Double :=
  .finite false 0 0 (by decide)

instance : Inhabited Double := ⟨zero⟩

/-- The magnitude of a finite number, in units of `2^-1074`. -/
def units (m k : Nat) : Nat :=
  m * Nat.pow 2 k

/-- The number with the opposite sign. -/
def negate : Double → Double
  | .nan => .nan
  | .infinity s => .infinity !s
  | .finite s m k h => .finite (!s) m k h

/-- The number with the sign given. -/
def withSign (negative : Bool) : Double → Double
  | .nan => .nan
  | .infinity _ => .infinity negative
  | .finite _ m k h => .finite negative m k h

/-- Neither an infinity nor outside the numbers. -/
def isFinite : Double → Bool
  | .finite .. => true
  | _ => false

/-- Not a number. -/
def isNaN : Double → Bool
  | .nan => true
  | _ => false

/-- Equality of numbers: both zeros are equal, and nothing equals what is not a
number. -/
def same : Double → Double → Bool
  | .infinity s, .infinity t => s == t
  | .finite s m k _, .finite t n l _ => m == n && k == l && (s == t || m == 0)
  | _, _ => false

end Double

end Dashboard
