import CacheUsage.Json.Numeral
import CacheUsage.Json.Real
import CacheUsage.Text.Quoted

namespace CacheUsage.Json

/-- A value of the wrong type, as far as it is read to describe it. -/
inductive Found where
  | null
  | boolean (b : Bool)
  | number (n : Number)
  | text (s : String)
  | sequence
  | map
deriving DecidableEq

def Found.describe : Found → String
  | .null => "null"
  | .boolean b => s!"boolean `{b}`"
  | .number (.integer n) => s!"integer `{n}`"
  | .number (.real x) => s!"floating point `{renderReal x}`"
  | .text s => s!"string {Text.quoted s}"
  | .sequence => "sequence"
  | .map => "map"

/-- How well-formed text fails the type that it is read into. -/
inductive Mismatch where
  | wrongType (found : Found) (expected : String)
  | outOfRange (n : Int) (expected : String)
  | missingField (name : String)
  | duplicateField (name : String)
  | unknownVariant (name : String) (known : List String)
  | wrongLength (length : Nat) (expected : String)
deriving DecidableEq

def Mismatch.message : Mismatch → String
  | .wrongType found expected => s!"invalid type: {found.describe}, expected {expected}"
  | .outOfRange n expected => s!"invalid value: integer `{n}`, expected {expected}"
  | .missingField name => s!"missing field `{name}`"
  | .duplicateField name => s!"duplicate field `{name}`"
  | .unknownVariant name known =>
    s!"unknown variant `{name}`, expected one of " ++
      String.intercalate ", " (known.map fun k => s!"`{k}`")
  | .wrongLength length expected => s!"invalid length {length}, expected {expected}"

inductive Problem where
  | ended
  | malformed
  | refused (why : Mismatch)
deriving DecidableEq

end CacheUsage.Json
