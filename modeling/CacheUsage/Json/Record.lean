import CacheUsage.Json.Skip
import CacheUsage.Json.Value

namespace CacheUsage.Json

structure Field (α : Type) where
  name : String
  value : Reader α

structure Fields (α β γ : Type) where
  first : Field α
  second : Field β
  third : Field γ

structure Given (α β γ : Type) where
  first : Option α
  second : Option β
  third : Option γ
deriving DecidableEq

inductive Layout where
  | array
  | object
deriving DecidableEq

namespace Reader

variable {α β γ σ : Type}

/-- Reads the next name of an object, or its end. A comma stands before each name but the first. -/
def name? (first : Bool) : Reader (Option String) := do
  let c ← peekToken
  let _ ← next
  if c = '}' then return none
  else if first then
    if c = '"' then some <$> text else fail .malformed
  else if c = ',' then
    token '"'
    some <$> text
  else fail .malformed

def membersStep (member : String → σ → Reader σ) :
    Bool × σ → Reader ((Bool × σ) ⊕ σ)
  | (first, x) => do
    match ← name? first with
    | none => return .inr x
    | some name => return .inl (false, ← member name x)

/-- Reads the members of an object from behind its opening bracket. `member` gets the name, reads
on from behind it, and changes the state. -/
def members (member : String → σ → Reader σ) (x : σ) : Reader σ :=
  iterate (membersStep member) (true, x)

/-- The colon and the value of a field that must not have been seen before. -/
def once (f : Field α) (seen : Option α) : Reader α := do
  if seen.isSome then refuse (.duplicateField f.name)
  token ':'
  f.value

def recordMember (f : Fields α β γ) (name : String) (p : Given α β γ) :
    Reader (Given α β γ) := do
  if name = f.first.name then return { p with first := some (← once f.first p.first) }
  else if name = f.second.name then return { p with second := some (← once f.second p.second) }
  else if name = f.third.name then return { p with third := some (← once f.third p.third) }
  else
    token ':'
    skipValue
    return p

def element? (first : Bool) (value : Reader α) : Reader (Option α) := do
  let c ← peekToken
  if c = ']' then return none
  else if first then some <$> value
  else
    token ','
    if (← peekToken) = ']' then fail .malformed
    some <$> value

def record (f : Fields α β γ) (expected : String) : Reader (Layout × Given α β γ) := do
  match ← peekToken with
  | '[' =>
    let _ ← next
    let first ← element? true f.first.value
    let second ← element? false f.second.value
    let third ← element? false f.third.value
    token ']'
    return (.array, ⟨first, second, third⟩)
  | '{' =>
    let _ ← next
    return (.object, ← members (recordMember f) ⟨none, none, none⟩)
  | _ => wrongType expected

end Reader

end CacheUsage.Json
