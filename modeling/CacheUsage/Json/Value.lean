import CacheUsage.Json.Number
import CacheUsage.Json.Text

namespace CacheUsage.Json

namespace Reader

variable {α : Type}

/-- Reads of the next value what its description needs. -/
def found : Reader Found := do
  let c ← peekToken
  if startsNumber c then return .number (← number)
  let _ ← next
  match c with
  | 'n' =>
    word "ull".toList
    return .null
  | 't' =>
    word "rue".toList
    return .boolean true
  | 'f' =>
    word "alse".toList
    return .boolean false
  | '"' => return .text (← text)
  | '[' => return .sequence
  | '{' => return .map
  | _ => fail .malformed

def wrongType (expected : String) : Reader α := do refuse (.wrongType (← found) expected)

def natural (limit : Nat) (expected : String) : Reader Nat := do
  if startsNumber (← peekToken) then
    match ← number with
    | .integer n =>
      if 0 ≤ n ∧ n < limit then return n.toNat
      else refuse (.outOfRange n expected)
    | .real x => refuse (.wrongType (.number (.real x)) expected)
  else wrongType expected

def null : Reader Unit := do
  if (← peekToken) = 'n' then word "null".toList
  else wrongType "unit"

def alternative (known : List (String × α)) (name : String) : Reader α :=
  match known.lookup name with
  | some a => pure a
  | none => refuse (.unknownVariant name (known.map Prod.fst))

/-- A variant without contents: its name, or an object of its name and `null`. -/
def variant (known : List (String × α)) : Reader α := do
  match ← peekToken with
  | '"' =>
    let _ ← next
    alternative known (← text)
  | '{' =>
    let _ ← next
    token '"'
    let a ← alternative known (← text)
    token ':'
    null
    token '}'
    return a
  | _ => fail .malformed

end Reader

end CacheUsage.Json
