import CacheUsage.Json.Reader

namespace CacheUsage.Json

def digits : Reader (List Char) := do
  let ds ← Reader.takeWhile Char.isDigit
  if ds.isEmpty then
    let _ ← Reader.next
    Reader.fail .malformed
  return ds

def optional (p : Char → Bool) : Reader (Option Char) := do
  match ← Reader.peek? with
  | some c => if p c then some <$> Reader.next else return none
  | none => return none

/-- A number as it is written: without a plus sign or leading zeros, and with a digit on each side
of a point. -/
def numeral : Reader Numeral := do
  let minus ← optional (· = '-')
  let whole ← digits
  if whole.head? = some '0' ∧ whole.length ≠ 1 then Reader.fail .malformed
  let fraction ←
    match ← optional (· = '.') with
    | some _ => digits
    | none => pure []
  let exponent ←
    match ← optional (fun c => c = 'e' || c = 'E') with
    | some _ =>
      let sign ← optional (fun c => c = '+' || c = '-')
      pure (some (decide (sign = some '-'), ← digits))
    | none => pure none
  return ⟨minus.isSome, whole, fraction, exponent⟩

def number : Reader Number := do
  match (← numeral).value? with
  | some n => return n
  | none => Reader.fail .malformed

/-- Skips a number of any magnitude. An unfinished one is malformed even where the text ends. -/
def skipNumber : Reader Unit := fun s =>
  match numeral s with
  | .ok (_, rest) => .ok ((), rest)
  | .error _ => .error .malformed

def startsNumber (c : Char) : Bool := c = '-' || c.isDigit

end CacheUsage.Json
