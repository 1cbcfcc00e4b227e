import CacheUsage.Cache

namespace CacheUsage

/-- The slots of a cache in two rows side by side, one of tags and one of word maps. The slot `way`
of a set is at `set * ways + way` in both. -/
structure Rows where
  geometry : Geometry
  sets : Nat
  setMask : Nat
  lineBits : Nat
  tagShift : Nat
  tags : List UInt64
  used : List WordMap
  total : Nat
deriving DecidableEq

abbrev RowsM := EStateM Fault Rows

namespace Rows

def empty (g : Geometry) : Except Fault Rows := do
  let sets ← g.setCount
  let slots ← Checked.product sets g.ways.toNat
  let setMask ← Checked.difference sets 1
  return {
    geometry := g
    sets
    setMask
    lineBits := g.lineBits
    tagShift := g.lineBits + trailingZeros sets
    tags := List.replicate slots Slot.vacantTag
    used := List.replicate slots 0
    total := 0 }

/-- Turns the entries from `start` on and before `stop` by one place: the last one comes first. -/
def turn {α : Type} (row : List α) (start stop : Nat) : List α :=
  row.take start ++ (row.extract start stop).rotateRight ++ row.drop stop

structure Row (α : Type) where
  get : Rows → List α
  put : List α → Rows → Rows

def tagRow : Row UInt64 := ⟨Rows.tags, fun tags r => { r with tags }⟩

def usedRow : Row WordMap := ⟨Rows.used, fun used r => { r with used }⟩

namespace Row

variable {α : Type}

def read (row : Row α) (i : Nat) : RowsM α := fun r =>
  match (row.get r)[i]? with
  | some x => .ok x r
  | none => .error .indexOutOfRange r

def write (row : Row α) (i : Nat) (x : α) : RowsM Unit := fun r =>
  if i < (row.get r).length then .ok () (row.put ((row.get r).set i x) r)
  else .error .indexOutOfRange r

def rotate (row : Row α) (start stop : Nat) : RowsM Unit := fun r =>
  if start < stop ∧ stop ≤ (row.get r).length then
    .ok () (row.put (turn (row.get r) start stop) r)
  else .error .indexOutOfRange r

end Row

def bounds (r : Rows) (set : Nat) : Except Fault (Nat × Nat) := do
  let start ← Checked.product set r.geometry.ways.toNat
  let stop ← Checked.sum start r.geometry.ways.toNat
  if stop ≤ r.tags.length ∧ stop ≤ r.used.length then return (start, stop)
  else throw .indexOutOfRange

/-- How far behind the front of a set a tag is. The front itself is not searched. -/
def wayOf (tag : UInt64) (start stop : Nat) (r : Rows) : Option Nat :=
  ((r.tags.extract (start + 1) stop).findIdx? (· == tag)).map (· + 1)

def recountSlot (before after : WordMap) : RowsM Unit := fun r =>
  match Cache.updatedTotal r.total before after with
  | .ok total => .ok () { r with total }
  | .error fault => .error fault r

def mark (start : Nat) (before words : WordMap) : RowsM Unit := do
  usedRow.write start (before ||| words)
  recountSlot before (← usedRow.read start)

def markFront (start : Nat) (words : WordMap) : RowsM Unit := do
  let before ← usedRow.read start
  mark start before words

/-- Brings a slot to the front and marks words in it. The slots before it move one place back. -/
def bringForward (start way : Nat) (words : WordMap) : RowsM Unit := do
  let before ← usedRow.read (start + way)
  tagRow.rotate start (start + way + 1)
  usedRow.rotate start (start + way + 1)
  mark start before words

/-- Puts a tag in front of a set. All its slots move one place back, and the last is lost. -/
def install (start stop : Nat) (tag : UInt64) (words : WordMap) : RowsM Unit := do
  let evicted ← usedRow.read (stop - 1)
  tagRow.rotate start stop
  usedRow.rotate start stop
  tagRow.write start tag
  usedRow.write start words
  recountSlot evicted words

def visit (start stop : Nat) (tag : UInt64) (words : WordMap) : RowsM Bool := do
  if (← tagRow.read start) = tag then
    markFront start words
    return true
  else
    match wayOf tag start stop (← get) with
    | some way =>
      bringForward start way words
      return true
    | none =>
      install start stop tag words
      return false

/-- Looks a tag up in a set and marks words of it; says whether it was there. -/
def lookup (set : Nat) (tag : UInt64) (words : WordMap) : RowsM Bool := fun r =>
  match r.bounds set with
  | .error fault => .error fault r
  | .ok (start, stop) => visit start stop tag words r

def setTags (r : Rows) (set : Nat) : List UInt64 :=
  r.tags.extract (set * r.geometry.ways.toNat) (set * r.geometry.ways.toNat + r.geometry.ways.toNat)

def setUsed (r : Rows) (set : Nat) : List WordMap :=
  r.used.extract (set * r.geometry.ways.toNat) (set * r.geometry.ways.toNat + r.geometry.ways.toNat)

def slotsAt (r : Rows) (set : Nat) : List Slot :=
  List.zipWith Slot.mk (r.setTags set) (r.setUsed set)

end Rows

def Cache.rows (c : Cache) : Rows where
  geometry := c.geometry
  sets := c.sets.size
  setMask := c.setMask
  lineBits := c.geometry.lineBits
  tagShift := c.tagShift
  tags := c.slots.map Slot.tag
  used := c.slots.map Slot.used
  total := c.wordsInUse

end CacheUsage
