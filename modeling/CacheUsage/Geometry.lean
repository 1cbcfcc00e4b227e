import CacheUsage.Words

namespace CacheUsage

/-- How many low bits of `n` are zero before the first that is one; 64 if all are. -/
def trailingZeros (n : Nat) : Nat := (List.range 64).findIdx n.testBit

/-- A cache of `sizeBytes` bytes, in sets of `ways` lines of `lineBytes` bytes. -/
structure Geometry where
  sizeBytes : UInt64
  ways : UInt64
  lineBytes : UInt64
deriving DecidableEq

namespace Geometry

def firstLevelDefault : Geometry := ⟨32768, 8, 64⟩

def lastLevelDefault : Geometry := ⟨8388608, 16, 64⟩

def setCount (g : Geometry) : Except Fault Nat := do
  Checked.quotient (← Checked.quotient g.sizeBytes.toNat g.lineBytes.toNat) g.ways.toNat

def lineBits (g : Geometry) : Nat := trailingZeros g.lineBytes.toNat

def block (g : Geometry) (addr : UInt64) : UInt64 := addr >>> g.lineBits.toUInt64

def blockStart (g : Geometry) (block : UInt64) : UInt64 := block <<< g.lineBits.toUInt64

def description (g : Geometry) : String :=
  if g.ways = 1 then s!"{g.sizeBytes} B, {g.lineBytes} B, direct-mapped"
  else s!"{g.sizeBytes} B, {g.lineBytes} B, {g.ways}-way associative"

end Geometry

end CacheUsage
