import CacheUsage.Reference
import CacheUsage.Text.Hexadecimal

namespace CacheUsage

/-- What a caller promises about a reference or a line. -/
inductive Precondition where
  | width (size : UInt8)
  | line
  | singleLine
deriving DecidableEq

def Precondition.message : Precondition → String
  | .width size => s!"reference of {size} bytes"
  | .line =>
    "assertion failed: line_bytes.is_power_of_two() && line_bytes <= MAX_LINE_SIZE"
  | .singleLine => "assertion failed: self.is_fast_path(addr, size)"

/-- How the blocks and the bytes of a reference can disagree. -/
inductive ShapeFault where
  | beyondNextLine (span : Span) (first last : UInt64)
  | pastOnlyLine (span : Span) (excess : Nat)
  | shortOfNextLine (span : Span)
deriving DecidableEq

def Span.describe (s : Span) : String :=
  s!"addr 0x{Text.hexadecimal s.addr.toNat} size {s.size}"

def ShapeFault.message : ShapeFault → String
  | .beyondNextLine span first last =>
    s!"reference straddles more than two cache lines: {span.describe} blocks {first}..={last}"
  | .pastOnlyLine span excess =>
    s!"usage overflowed a single-line reference: {span.describe} overflow {excess}"
  | .shortOfNextLine span =>
    s!"usage fit one line of a straddling reference: {span.describe}"

inductive Fault where
  | precondition (broken : Precondition)
  | shape (cause : ShapeFault)
  | arithmeticOverflow
  | divideByZero
  /-- A set's slots lie outside the cache. -/
  | indexOutOfRange
deriving DecidableEq

end CacheUsage
