import CacheUsage.Geometry
import CacheUsage.Json.Record

namespace CacheUsage.Geometry

open Json

def quantity : Reader UInt64 := Nat.toUInt64 <$> Reader.natural UInt64.size "usize"

def fields : Fields UInt64 UInt64 UInt64 :=
  ⟨⟨"size_bytes", quantity⟩, ⟨"ways", quantity⟩, ⟨"line_bytes", quantity⟩⟩

/-- A field that is not given is that of the first-level default, at any level. -/
def ofGiven (p : Given UInt64 UInt64 UInt64) : Geometry :=
  { sizeBytes := p.first.getD firstLevelDefault.sizeBytes
    ways := p.second.getD firstLevelDefault.ways
    lineBytes := p.third.getD firstLevelDefault.lineBytes }

def reader : Reader Geometry := do
  let (_, p) ← Reader.record fields "struct CacheConfig"
  return ofGiven p

def ofJson (text : String) : Except Problem Geometry := reader.readAll text

end CacheUsage.Geometry
