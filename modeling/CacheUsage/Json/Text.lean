import CacheUsage.Json.Reader

namespace CacheUsage.Json

inductive Piece where
  | quote
  | char (c : Char)
  | unit (n : Nat)
deriving DecidableEq

def escapedChar? : Char → Option Char
  | '"' => some '"'
  | '\\' => some '\\'
  | '/' => some '/'
  | 'b' => some '\x08'
  | 'f' => some '\x0c'
  | 'n' => some '\n'
  | 'r' => some '\r'
  | 't' => some '\t'
  | _ => none

def hexDigit? (c : Char) : Option Nat :=
  if c.isDigit then some (c.toNat - '0'.toNat)
  else if 'a' ≤ c ∧ c ≤ 'f' then some (c.toNat - 'a'.toNat + 10)
  else if 'A' ≤ c ∧ c ≤ 'F' then some (c.toNat - 'A'.toNat + 10)
  else none

/-- Four hexadecimal digits. A text with fewer than four bytes left has ended. -/
def hexUnit : Reader Nat := fun s =>
  match s.take 4 |>.mapM hexDigit? with
  | some [a, b, c, d] => .ok (((a * 16 + b) * 16 + c) * 16 + d, s.drop 4)
  | _ => if (String.ofList (s.take 4)).utf8ByteSize < 4 then .error .ended else .error .malformed

def piece : Reader Piece := do
  let c ← Reader.next
  if c = '"' then return .quote
  else if c = '\\' then
    let e ← Reader.next
    if e = 'u' then return .unit (← hexUnit)
    else
      match escapedChar? e with
      | some c => return .char c
      | none => Reader.fail .malformed
  else if c.toNat < 0x20 then Reader.fail .malformed
  else return .char c

def isHighSurrogate (n : Nat) : Bool := 0xD800 ≤ n && n ≤ 0xDBFF

def isLowSurrogate (n : Nat) : Bool := 0xDC00 ≤ n && n ≤ 0xDFFF

def ofSurrogates (high low : Nat) : Char :=
  Char.ofNat (0x10000 + (high - 0xD800) * 0x400 + (low - 0xDC00))

/-- A string under way: its characters in reverse, and a high surrogate that waits for its
partner. -/
structure Draft where
  reversed : List Char
  waiting : Option Nat

def Draft.add (d : Draft) : Piece → Option Draft
  | .quote => none
  | .char c =>
    match d.waiting with
    | none => some { d with reversed := c :: d.reversed }
    | some _ => none
  | .unit n =>
    match d.waiting with
    | none =>
      if isHighSurrogate n then some { d with waiting := some n }
      else if isLowSurrogate n then none
      else some { d with reversed := Char.ofNat n :: d.reversed }
    | some high =>
      if isLowSurrogate n then some ⟨ofSurrogates high n :: d.reversed, none⟩ else none

def textStep (d : Draft) : Reader (Draft ⊕ String) := do
  let p ← piece
  if p = .quote ∧ d.waiting = none then return .inr (String.ofList d.reversed.reverse)
  match d.add p with
  | some d => return .inl d
  | none => Reader.fail .malformed

def text : Reader String := Reader.iterate textStep ⟨[], none⟩

def skipText : Reader Unit :=
  Reader.iterate (fun _ => do return if (← piece) = .quote then .inr () else .inl ()) ()

end CacheUsage.Json
