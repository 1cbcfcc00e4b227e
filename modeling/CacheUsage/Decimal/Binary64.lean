namespace CacheUsage.Decimal

/-- `base` to a power of either sign, as numerator and denominator. -/
def power (base : Nat) (e : Int) : Nat × Nat := (base.pow e.toNat, base.pow (-e).toNat)

/-- The magnitude `significand * 2 ^ exponent`. -/
structure Magnitude where
  significand : Nat
  exponent : Int
deriving DecidableEq

def isNegative (x : Float) : Bool := x.toBits.toNat.testBit 63

namespace Magnitude

def implicitBit : Nat := 0x10000000000000

/-- The exponent of subnormal floats, and of the smallest normal ones. -/
def leastExponent : Int := -1074

def ofFloat (x : Float) : Magnitude :=
  let fraction := x.toBits.toNat % implicitBit
  let biased : Nat := x.toBits.toNat / implicitBit % 0x800
  if biased = 0 then ⟨fraction, leastExponent⟩
  else ⟨implicitBit + fraction, leastExponent + (biased : Int) - 1⟩

def ratio (m : Magnitude) : Nat × Nat :=
  let (num, den) := power 2 m.exponent
  (m.significand * num, den)

end Magnitude

/-- The whole number nearest to `num / den`; of two that are equally near, the even one. -/
def nearest (num den : Nat) : Nat :=
  let floor := num / den
  let rest := num % den
  if 2 * rest < den then floor
  else if den < 2 * rest then floor + 1
  else if floor % 2 = 0 then floor
  else floor + 1

end CacheUsage.Decimal
