import CacheUsage.Geometry

namespace CacheUsage

namespace Geometry

/-- The narrowest supported line, in bytes. A reference of 16 bytes touches at most two such
lines. -/
def minLineBytes : Nat := 16

inductive Quantity where
  | size
  | associativity
  | lineSize
deriving DecidableEq

def Quantity.name : Quantity → String
  | .size => "size"
  | .associativity => "associativity"
  | .lineSize => "line size"

inductive Defect where
  | zero (quantity : Quantity)
  | lineNotPowerOfTwo (line : Nat)
  | lineTooSmall (line least : Nat)
  | lineTooLarge (line most : Nat)
  | unevenSets (size line ways : Nat)
  | setsNotPowerOfTwo (sets : Nat)
deriving DecidableEq

def Defect.message : Defect → String
  | .zero quantity => s!"{quantity.name} must be non-zero"
  | .lineNotPowerOfTwo line => s!"line size {line} B is not a power of two"
  | .lineTooSmall line least => s!"line size {line} B is below the minimum of {least} B"
  | .lineTooLarge line most => s!"line size {line} B exceeds the maximum of {most} B"
  | .unevenSets size line ways =>
    s!"size {size} B is not a multiple of line size × ways ({line} B × {ways})"
  | .setsNotPowerOfTwo sets => s!"{sets} sets is not a power of two"

/-- The first defect of a geometry. A set that does not fit 64 bits divides no capacity evenly. -/
def defect? (g : Geometry) : Option Defect :=
  let size := g.sizeBytes.toNat
  let ways := g.ways.toNat
  let line := g.lineBytes.toNat
  let setBytes := line * ways
  if size = 0 then some (.zero .size)
  else if ways = 0 then some (.zero .associativity)
  else if line = 0 then some (.zero .lineSize)
  else if ¬ line.isPowerOfTwo then some (.lineNotPowerOfTwo line)
  else if line < minLineBytes then some (.lineTooSmall line minLineBytes)
  else if maxLineBytes < line then some (.lineTooLarge line maxLineBytes)
  else if Checked.limit ≤ setBytes ∨ size % setBytes ≠ 0 then some (.unevenSets size line ways)
  else if ¬ (size / setBytes).isPowerOfTwo then some (.setsNotPowerOfTwo (size / setBytes))
  else none

def Sound (g : Geometry) : Prop := g.defect? = none

instance (g : Geometry) : Decidable g.Sound := by unfold Sound; infer_instance

end Geometry

end CacheUsage
