import CacheUsage.Json.Record
import CacheUsage.Reference

namespace CacheUsage.Reference

open Json

def fields : Fields UInt64 UInt8 AccessKind where
  first := ⟨"addr", Nat.toUInt64 <$> Reader.natural UInt64.size "u64"⟩
  second := ⟨"size", Nat.toUInt8 <$> Reader.natural UInt8.size "u8"⟩
  third := ⟨"kind", Reader.variant [("Fetch", .fetch), ("Read", .read), ("Write", .write)]⟩

/-- All fields of a reference have to be given; otherwise the first that is not is at fault. -/
def ofGiven (layout : Layout) : Given UInt64 UInt8 AccessKind → Except Mismatch Reference
  | ⟨some addr, some size, some kind⟩ => .ok ⟨⟨addr, size⟩, kind⟩
  | p =>
    let (given, name) :=
      if p.first.isNone then (0, fields.first.name)
      else if p.second.isNone then (1, fields.second.name)
      else (2, fields.third.name)
    match layout with
    | .array => .error (.wrongLength given "struct Reference with 3 elements")
    | .object => .error (.missingField name)

def reader : Reader Reference := do
  let (layout, p) ← Reader.record fields "struct Reference"
  match ofGiven layout p with
  | .ok r => return r
  | .error m => Reader.refuse m

def ofJson (text : String) : Except Problem Reference := reader.readAll text

end CacheUsage.Reference
