import CacheUsage.Checked

namespace CacheUsage

def wordBytes : Nat := 4

/-- Words of a line: bit `w` stands for the bytes `4w` to `4w + 3`. -/
abbrev WordMap := BitVec 64

namespace WordMap

def capacity : Nat := 64

def count (m : WordMap) : Nat := (List.range capacity).countP m.getLsbD

def between (first last : Nat) : WordMap :=
  (BitVec.allOnes 64 >>> (63 - last)) &&& (BitVec.allOnes 64 <<< first)

theorem getLsbD_between {first last w : Nat} (h : last < 64) :
    (between first last).getLsbD w = decide (first ≤ w ∧ w ≤ last) := by
  rw [between, BitVec.getLsbD_and, BitVec.getLsbD_ushiftRight, BitVec.getLsbD_shiftLeft,
    BitVec.getLsbD_allOnes, BitVec.getLsbD_allOnes]
  by_cases h1 : first ≤ w <;> by_cases h2 : w ≤ last <;> simp [h1, h2] <;> omega

end WordMap

def maxLineBytes : Nat := wordBytes * WordMap.capacity

/-- A line whose words a word map can hold. -/
def UsableLine (line : UInt64) : Prop := line.toNat.isPowerOfTwo ∧ line.toNat ≤ maxLineBytes

instance (line : UInt64) : Decidable (UsableLine line) := by unfold UsableLine; infer_instance

/-- What a run of bytes leaves on the line where it starts. -/
structure Coverage where
  words : WordMap
  excess : Nat
deriving DecidableEq

/-- The coverage of `len` bytes at `addr`, in lines of `line` bytes. No bytes touch no words. -/
def coverage (addr len line : UInt64) : Except Fault Coverage :=
  if ¬ UsableLine line then .error (.precondition .line)
  else if len = 0 then .ok ⟨0, 0⟩
  else do
    let offset := addr.toNat % line.toNat
    let stop ← Checked.sum offset len.toNat
    let inside := min stop line.toNat
    return ⟨.between (offset / wordBytes) ((inside - 1) / wordBytes), stop - line.toNat⟩

end CacheUsage
