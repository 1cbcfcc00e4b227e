import CacheUsage.Json.Number
import CacheUsage.Json.Text

namespace CacheUsage.Json

inductive Bracket where
  | array
  | object
deriving DecidableEq

def Bracket.close : Bracket → Char
  | .array => ']'
  | .object => '}'

/-- Where a skip stands, with the brackets that are open, innermost first. -/
inductive SkipStage where
  | value (brackets : List Bracket)
  | ended (bracket : Bracket) (outer : List Bracket)
deriving DecidableEq

def afterValue : List Bracket → SkipStage ⊕ Unit
  | [] => .inr ()
  | bracket :: outer => .inl (.ended bracket outer)

def skipToValue (bracket : Bracket) (outer : List Bracket) : Reader (SkipStage ⊕ Unit) := do
  if bracket = .object then
    Reader.token '"'
    skipText
    Reader.token ':'
  return .inl (.value (bracket :: outer))

def skipOpened (bracket : Bracket) (outer : List Bracket) : Reader (SkipStage ⊕ Unit) := do
  if (← Reader.peekToken) = bracket.close then
    let _ ← Reader.next
    return afterValue outer
  else skipToValue bracket outer

def skipStep : SkipStage → Reader (SkipStage ⊕ Unit)
  | .value brackets => do
    let c ← Reader.peekToken
    if startsNumber c then
      skipNumber
      return afterValue brackets
    let _ ← Reader.next
    match c with
    | '[' => skipOpened .array brackets
    | '{' => skipOpened .object brackets
    | '"' =>
      skipText
      return afterValue brackets
    | 'n' =>
      Reader.word "ull".toList
      return afterValue brackets
    | 't' =>
      Reader.word "rue".toList
      return afterValue brackets
    | 'f' =>
      Reader.word "alse".toList
      return afterValue brackets
    | _ => Reader.fail .malformed
  | .ended bracket outer => do
    let c ← Reader.peekToken
    let _ ← Reader.next
    if c = bracket.close then return afterValue outer
    else if c = ',' then skipToValue bracket outer
    else Reader.fail .malformed

def skipValue : Reader Unit := Reader.iterate skipStep (.value [])

end CacheUsage.Json
