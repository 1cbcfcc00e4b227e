namespace CacheUsage.Json

structure Numeral where
  negative : Bool
  whole : List Char
  fraction : List Char
  /-- Whether the exponent is negative, and its digits. -/
  exponent : Option (Bool × List Char)
deriving DecidableEq

inductive Number where
  | integer (n : Int)
  | real (x : Float)
deriving DecidableEq

namespace Numeral

def digit (c : Char) : Nat := c.toNat - '0'.toNat

def significandLimit : Nat := UInt64.size

def exponentLimit : Nat := 0x7FFFFFFF

/-- Appends digits to a significand as long as it fits; also says how many it took. -/
def absorb (significand : Nat) : List Char → Nat × Nat
  | [] => (significand, 0)
  | c :: rest =>
    let next := significand * 10 + digit c
    if next < significandLimit then
      let (result, taken) := absorb next rest
      (result, taken + 1)
    else (significand, 0)

def natOfDigits (digits : List Char) : Nat := digits.foldl (fun n c => n * 10 + digit c) 0

/-- The largest power of ten that a float is multiplied with or divided by at once. -/
def stepExponent : Nat := 308

def powerOfTen (n : Nat) : Float := Float.ofScientific 1 false n

/-- `x / 10 ^ n`, rounded once for each step. -/
def scaleDown (x : Float) (n : Nat) : Float :=
  if n ≤ stepExponent then x / powerOfTen n
  else if x == 0 then x
  else scaleDown (x / powerOfTen stepExponent) (n - stepExponent)
termination_by n
decreasing_by simp [stepExponent] at *; omega

def scale? (significand : Nat) (e : Int) : Option Float :=
  let x := Float.ofNat significand
  if e < 0 then some (scaleDown x e.natAbs)
  else if e.toNat ≤ stepExponent then
    let y := x * powerOfTen e.toNat
    if y.isInf then none else some y
  else if x == 0 then some x
  else none

def withSign (negative : Bool) (x : Float) : Float := if negative then -x else x

/-- The number that is written, or nothing if it is too large for a float. -/
def value? (n : Numeral) : Option Number :=
  let (head, taken) := absorb 0 n.whole
  if n.fraction = [] ∧ n.exponent = none ∧ taken = n.whole.length then
    if ¬ n.negative then some (.integer head)
    else if 0 < head ∧ head ≤ 0x8000000000000000 then some (.integer (-head))
    else some (.real (-Float.ofNat head))
  else
    let (significand, places) := absorb head n.fraction
    let shift : Int := (n.whole.length - taken : Nat) - (places : Int)
    let magnitude :=
      match n.exponent with
      | none => scale? significand shift
      | some (below, digits) =>
        let e := natOfDigits digits
        if exponentLimit < e then if significand = 0 ∨ below then some 0 else none
        else scale? significand (if below then shift - e else shift + e)
    magnitude.map fun x => .real (withSign n.negative x)

end Numeral

end CacheUsage.Json
