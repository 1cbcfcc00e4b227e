import CacheUsage.Geometry

namespace CacheUsage

structure Touch where
  block : UInt64
  words : WordMap
deriving DecidableEq

namespace Geometry

/-- The touches of a reference, one for each line it lies on, in the order of their addresses. -/
def touches (g : Geometry) (s : Span) : Except Fault (List Touch) :=
  let first := g.block s.addr
  let last := g.block s.last
  if maxReferenceBytes < s.size then .error (.precondition (.width s.size))
  else if first = last then do
    let here ← coverage s.addr s.size.toUInt64 g.lineBytes
    if here.excess = 0 then .ok [⟨first, here.words⟩]
    else .error (.shape (.pastOnlyLine s here.excess))
  else if first + 1 = last then do
    let here ← coverage s.addr s.size.toUInt64 g.lineBytes
    if here.excess = 0 then .error (.shape (.shortOfNextLine s))
    else
      let next ← coverage (g.blockStart last) here.excess.toUInt64 g.lineBytes
      .ok [⟨first, here.words⟩, ⟨last, next.words⟩]
  else .error (.shape (.beyondNextLine s first last))

/-- The touch of a reference on the line where it starts, whatever its width. -/
def firstTouch (g : Geometry) (s : Span) : Except Fault Touch := do
  let here ← coverage s.addr s.size.toUInt64 g.lineBytes
  return ⟨g.block s.addr, here.words⟩

def holdsInOneLine (g : Geometry) (s : Span) : Bool := g.block s.addr = g.block s.last

end Geometry

end CacheUsage
