import CacheUsage.Slot
import CacheUsage.Touch

namespace CacheUsage

structure Cache where
  geometry : Geometry
  /-- The slots of each set, most recently used first. -/
  sets : Array (List Slot)
  wordsInUse : Nat
deriving DecidableEq

/-- An operation on a cache. A fault stops it and keeps the cache as it then is. -/
abbrev CacheM := EStateM Fault Cache

namespace Cache

/-- A cache of vacant slots. The geometry is not checked, but it has to have a set. -/
def empty (g : Geometry) : Except Fault Cache := do
  let sets ← g.setCount
  let _ ← Checked.product sets g.ways.toNat
  let _ ← Checked.difference sets 1
  return ⟨g, Array.replicate sets (List.replicate g.ways.toNat .vacant), 0⟩

def setMask (c : Cache) : Nat := c.sets.size - 1

def setOf (c : Cache) (block : UInt64) : Nat := block.toNat &&& c.setMask

def tagShift (c : Cache) : Nat := c.geometry.lineBits + trailingZeros c.sets.size

def slots (c : Cache) : List Slot := c.sets.toList.flatten

def recount (c : Cache) : Nat := c.slots.foldr (fun slot n => slot.used.count + n) 0

def slotsOf (c : Cache) (set : Nat) : Except Fault (List Slot) := do
  -- Slots are numbered set by set with 64-bit numbers.
  let start ← Checked.product set c.geometry.ways.toNat
  let _ ← Checked.sum start c.geometry.ways.toNat
  match c.sets[set]? with
  | some slots => return slots
  | none => throw .indexOutOfRange

/-- The total once a slot of the words `before` has become one of the words `after`. -/
def updatedTotal (total : Nat) (before after : WordMap) : Except Fault Nat := do
  Checked.difference (← Checked.sum total after.count) before.count

/-- Visits a block in a set and marks words of it; says whether the block was there. -/
def visit (set : Nat) (tag : UInt64) (words : WordMap) : CacheM Bool := fun c =>
  match c.slotsOf set with
  | .error fault => .error fault c
  | .ok slots =>
    let r := Slot.visit tag words slots
    let c := { c with sets := c.sets.setIfInBounds set r.slots }
    match updatedTotal c.wordsInUse r.before r.after with
    | .error fault => .error fault c
    | .ok total => .ok r.hit { c with wordsInUse := total }

def touch (t : Touch) : CacheM Bool := fun c => visit (c.setOf t.block) t.block t.words c

/-- Makes every touch, the later ones also after a miss; a hit if all of them hit. -/
def touchAll : List Touch → CacheM Bool
  | [] => pure true
  | t :: rest => do
    let hit ← touch t
    let hits ← touchAll rest
    return hit && hits

def perform : Except Fault (List Touch) → CacheM Bool
  | .ok touches => touchAll touches
  | .error fault => throw fault

/-- A reference of any alignment: a hit if every line it touches is there. -/
def access (s : Span) : CacheM Bool := fun c => perform (c.geometry.touches s) c

def accessAll : List Span → CacheM (List Bool)
  | [] => pure []
  | s :: rest => do
    let hit ← access s
    let hits ← accessAll rest
    return hit :: hits

end Cache

end CacheUsage
