namespace CacheUsage

def maxReferenceBytes : UInt8 := 16

/-- `size` bytes from `addr` on. -/
structure Span where
  addr : UInt64
  size : UInt8
deriving DecidableEq

/-- The address of the last byte, past the top of the address space wrapping to 0. An empty span
ends where it starts. -/
def Span.last (s : Span) : UInt64 := s.addr + (s.size.toNat - 1).toUInt64

inductive AccessKind where
  | fetch
  | read
  | write
deriving DecidableEq

namespace AccessKind

def code : AccessKind → Char
  | .fetch => 'I'
  | .read => 'R'
  | .write => 'W'

def isData : AccessKind → Bool
  | .fetch => false
  | .read => true
  | .write => true

end AccessKind

structure Reference extends Span where
  kind : AccessKind
deriving DecidableEq

inductive Served where
  | firstLevel
  | lastLevel
  | memory
deriving DecidableEq

namespace Served

def code : Served → Char
  | .firstLevel => 'H'
  | .lastLevel => 'L'
  | .memory => 'M'

def isFirstMiss : Served → Bool
  | .firstLevel => false
  | .lastLevel => true
  | .memory => true

end Served

end CacheUsage
