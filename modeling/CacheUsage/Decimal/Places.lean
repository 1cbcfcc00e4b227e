import CacheUsage.Decimal.Binary64

namespace CacheUsage.Decimal

def padded (width n : Nat) : String :=
  let digits := Nat.toDigits 10 n
  String.ofList (List.replicate (width - digits.length) '0' ++ digits)

/-- The exact value of a finite float, rounded to `places` decimals. -/
def fixed (places : Nat) (x : Float) : String :=
  let (num, den) := (Magnitude.ofFloat x).ratio
  let unit := Nat.pow 10 places
  let rounded := nearest (num * unit) den
  let sign := if isNegative x then "-" else ""
  sign ++ toString (rounded / unit) ++ "." ++ padded places (rounded % unit)

end CacheUsage.Decimal
