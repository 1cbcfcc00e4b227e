import CacheUsage.Checked

namespace CacheUsage

structure Counters where
  references : Nat
  firstMisses : Nat
  lastMisses : Nat
  /-- Words used in the first level, summed over the moments after each reference. -/
  firstWords : Nat
  /-- Words used in the last level, summed over the moments after each first-level miss. -/
  lastWords : Nat
deriving DecidableEq

def mean (total samples : Nat) : Float :=
  if samples = 0 then 0 else Float.ofNat total / Float.ofNat samples

namespace Counters

def zero : Counters := ⟨0, 0, 0, 0, 0⟩

def add (a b : Counters) : Except Fault Counters := do
  return {
    references := ← Checked.sum a.references b.references
    firstMisses := ← Checked.sum a.firstMisses b.firstMisses
    lastMisses := ← Checked.sum a.lastMisses b.lastMisses
    firstWords := ← Checked.sum a.firstWords b.firstWords
    lastWords := ← Checked.sum a.lastWords b.lastWords }

def firstMissRate (c : Counters) : Float := mean c.firstMisses c.references

def lastMissRate (c : Counters) : Float := mean c.lastMisses c.references

def meanFirstWords (c : Counters) : Float := mean c.firstWords c.references

def meanLastWords (c : Counters) : Float := mean c.lastWords c.firstMisses

end Counters

end CacheUsage
