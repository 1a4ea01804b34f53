import Dashboard.Double.Basic

/-!
# The 64 bits of a number

The interchange form of a number: a sign bit, eleven bits of exponent and 52
bits of significand.  Every pattern with all exponent bits set that is no
infinity stands for the one value NaN.
-/

namespace Dashboard.Double

/-- The number that the bits stand for. -/
def ofBits (bits : Nat) : Double :=
  let negative := bits / 0x8000000000000000 % 2 == 1
  let exponent := bits / 0x10000000000000 % 2048
  let fraction := bits % 0x10000000000000
  if exponent = 2047 then
    if fraction = 0 then .infinity negative else .nan
  else if exponent = 0 then
    if h : Canonical fraction 0 then .finite negative fraction 0 h else .nan
  else
    if h : Canonical (0x10000000000000 + fraction) (exponent - 1) then
      .finite negative (0x10000000000000 + fraction) (exponent - 1) h
    else .nan

/-- The bits of a number, with one fixed pattern for NaN. -/
def toBits : Double → Nat
  | .nan => 0x7FF8000000000000
  | .infinity s => s.toNat * 0x8000000000000000 + 2047 * 0x10000000000000
  | .finite s m k _ =>
    if m < 0x10000000000000 then s.toNat * 0x8000000000000000 + m
    else s.toNat * 0x8000000000000000 + (k + 1) * 0x10000000000000 + (m - 0x10000000000000)

end Dashboard.Double
