import CacheUsage.Decimal.Binary64

namespace CacheUsage.Decimal

structure Scientific where
  digits : Nat
  exponent : Int
deriving DecidableEq

/-- The numbers that round to a float, in units of a quarter of its last place's weight. -/
structure Interval where
  low : Nat
  value : Nat
  high : Nat
  closed : Bool
  exponent : Int

namespace Interval

/-- Below a power of two the floats lie twice as close. -/
def ofMagnitude (m : Magnitude) : Interval :=
  let below :=
    if m.significand = Magnitude.implicitBit ∧ Magnitude.leastExponent < m.exponent then 1 else 2
  { low := 4 * m.significand - below
    value := 4 * m.significand
    high := 4 * m.significand + 2
    closed := m.significand % 2 = 0
    exponent := m.exponent - 2 }

/-- The decimal on the grid of `10 ^ e` that lies in the interval, nearest to its float; of two
that are equally near, the one with an even last digit. -/
def onGrid? (i : Interval) (e : Int) : Option Nat :=
  let (tens, tenths) := power 10 e
  let (twos, halves) := power 2 i.exponent
  let step := tens * halves
  let unit := twos * tenths
  let inside (n : Nat) : Bool :=
    if i.closed then i.low * unit ≤ n * step && n * step ≤ i.high * unit
    else i.low * unit < n * step && n * step < i.high * unit
  let floor := i.value * unit / step
  let near := nearest (i.value * unit) step
  [near, floor, floor + 1].find? inside

end Interval

/-- The least exponent for which the magnitude lies below the next power of ten. -/
def leadingExponent (m : Magnitude) : Int :=
  let (num, den) := m.ratio
  let below (n : Nat) : Bool :=
    let (tens, tenths) := power 10 ((n : Int) - 323)
    num * tenths < tens * den
  (((List.range 632).find? below).getD 632 : Int) - 324

def Scientific.trim : (places : Nat) → Scientific → Scientific
  | 0, s => s
  | places + 1, s =>
    if s.digits % 10 = 0 then trim places ⟨s.digits / 10, s.exponent + 1⟩ else s

/-- The shortest decimal for a finite float's magnitude. -/
def shortest (m : Magnitude) : Scientific :=
  if m.significand = 0 then ⟨0, 0⟩
  else
    let lead := leadingExponent m
    let interval := Interval.ofMagnitude m
    let grids := (List.range 17).map fun (n : Nat) => lead - (n : Int)
    match grids.findSome? fun e => (interval.onGrid? e).map (Scientific.mk · e) with
    | some s => s.trim 17
    | none => ⟨0, 0⟩

end CacheUsage.Decimal
