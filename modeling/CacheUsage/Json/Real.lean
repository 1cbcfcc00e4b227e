import CacheUsage.Decimal.Shortest

namespace CacheUsage.Json

/-- The exponents of a leading digit that are written positionally. -/
def isPositional (lead : Int) : Bool := -5 ≤ lead && lead ≤ 15

/-- The shortest digits of a finite float, with at least one decimal if positional, otherwise with
a signed exponent. -/
def renderReal (x : Float) : String :=
  let s := Decimal.shortest (Decimal.Magnitude.ofFloat x)
  let digits := Nat.toDigits 10 s.digits
  let lead : Int := s.exponent + digits.length - 1
  let zeros (n : Int) : List Char := List.replicate n.toNat '0'
  let body :=
    if ¬ isPositional lead then
      let decimals := if digits.length = 1 then [] else '.' :: digits.tail
      let mark := if lead < 0 then "e-" else "e+"
      String.ofList (digits.take 1 ++ decimals) ++ mark ++ toString lead.natAbs
    else if lead < 0 then String.ofList ('0' :: '.' :: zeros (-lead - 1) ++ digits)
    else if 0 ≤ s.exponent then String.ofList (digits ++ zeros s.exponent ++ ['.', '0'])
    else
      let places := lead.toNat + 1
      String.ofList (digits.take places ++ '.' :: digits.drop places)
  if Decimal.isNegative x then "-" ++ body else body

end CacheUsage.Json
