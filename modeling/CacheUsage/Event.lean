import CacheUsage.Levels
import CacheUsage.Reference

namespace CacheUsage

inductive Event where
  | initialised (descriptions : Levels String)
  /-- A first-level cache missed; with the words used in it and in the last level afterwards. -/
  | firstLevelMiss (cache : Level) (span : Span) (firstUsed lastUsed : Nat)
  | aborted (cause : ShapeFault)
deriving DecidableEq

inductive Severity where
  | trace
  | debug
  | error
deriving DecidableEq

def Severity.name : Severity → String
  | .trace => "TRACE"
  | .debug => "DEBUG"
  | .error => "ERROR"

namespace Event

def severity : Event → Severity
  | .initialised _ => .debug
  | .firstLevelMiss .. => .trace
  | .aborted _ => .error

def message : Event → String
  | .initialised _ => "cache hierarchy initialised"
  | .firstLevelMiss .. => "first-level miss"
  | .aborted _ => "cache simulation aborted"

def ofFault : Fault → Option Event
  | .shape cause => some (.aborted cause)
  | _ => none

end Event

abbrev Log := Array Event

end CacheUsage
