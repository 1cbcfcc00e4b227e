import CacheUsage.Json.Problem

namespace CacheUsage.Json

abbrev Reader := StateT (List Char) (Except Problem)

def isBlank (c : Char) : Bool := c = ' ' || c = '\t' || c = '\n' || c = '\r'

namespace Reader

variable {α σ : Type}

def fail (p : Problem) : Reader α := fun _ => .error p

def refuse (m : Mismatch) : Reader α := fail (.refused m)

def peek? : Reader (Option Char) := fun s => .ok (s.head?, s)

def next : Reader Char
  | [] => .error .ended
  | c :: rest => .ok (c, rest)

def takeWhile (p : Char → Bool) : Reader (List Char) := fun s =>
  .ok (s.takeWhile p, s.dropWhile p)

def blanks : Reader Unit := fun s => .ok ((), s.dropWhile isBlank)

def peekToken : Reader Char := do
  blanks
  match ← peek? with
  | some c => return c
  | none => fail .ended

def exactly (c : Char) : Reader Unit := do
  unless (← next) = c do fail .malformed

def token (c : Char) : Reader Unit := do
  blanks
  exactly c

def word : List Char → Reader Unit
  | [] => pure ()
  | c :: rest => do
    exactly c
    word rest

def iterateFor (step : σ → Reader (σ ⊕ α)) : (n : Nat) → (x : σ) → Reader α
  | 0, _ => fail .malformed
  | n + 1, x => do
    match ← step x with
    | .inl y => iterateFor step n y
    | .inr a => return a

/-- Takes steps from `x` until one finishes. A step takes at least one character, so there are no
more steps than characters. -/
def iterate (step : σ → Reader (σ ⊕ α)) (x : σ) : Reader α := fun s =>
  iterateFor step (s.length + 1) x s

def readAll (r : Reader α) (text : String) : Except Problem α := do
  let (a, rest) ← r text.toList
  if rest.all isBlank then return a else throw .malformed

end Reader

end CacheUsage.Json
