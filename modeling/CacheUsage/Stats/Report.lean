import CacheUsage.Decimal.Places
import CacheUsage.Stats

namespace CacheUsage.Stats

inductive Section where
  | fetch
  | data
  | total
deriving DecidableEq

def Section.name : Section → String
  | .fetch => "fetch"
  | .data => "data"
  | .total => "total"

def Section.all : List Section := [.fetch, .data, .total]

/-- The sections asked for by name, in printed order. No name at all asks for every section; an
unknown name asks for none. -/
def Section.wanted (names : List String) : List Section :=
  if names.isEmpty then all else all.filter fun s => names.contains s.name

def doubleRule : String := "=========================================================="

def singleRule : String := "----------------------------------------------------------"

def percent (rate : Float) : String := Decimal.fixed 2 (rate * 100) ++ "%"

def counterLines (side first : String) (c : Counters) : List String :=
  [s!"  {side}.refs              {c.references}",
   s!"  {side}.{first}_misses         {c.firstMisses} ({percent c.firstMissRate})",
   s!"  {side}.ll_misses         {c.lastMisses} ({percent c.lastMissRate})",
   s!"  {side}.{first}_words          {c.firstWords} (avg {Decimal.fixed 2 c.meanFirstWords})",
   s!"  {side}.ll_words          {c.lastWords} (avg {Decimal.fixed 2 c.meanLastWords})"]

/-- The lines of one section. The sums it prints are formed only for it. -/
def sectionLines (s : Stats) : Section → Except Fault (List String)
  | .fetch => return "INSTRUCTION FETCH" :: counterLines "I" "i1" s.fetch ++ [singleRule]
  | .data => do
    let data ← s.data
    return "DATA" :: counterLines "D" "d1" data ++
      [s!"  D.reads / D.writes {s.read.references} / {s.write.references}", singleRule]
  | .total => do
    let total ← s.total
    return [
      "TOTAL",
      s!"  refs               {total.references}",
      s!"  l1_misses          {total.firstMisses} ({percent total.firstMissRate})",
      s!"  ll_misses          {total.lastMisses} ({percent total.lastMissRate})"]

def report (s : Stats) (names : List String) : Except Fault String := do
  let body ← (Section.wanted names).mapM s.sectionLines
  let lines := ["", doubleRule, "CACHE SIMULATION STATISTICS", doubleRule] ++ body.flatten ++
    [doubleRule]
  return String.join (lines.map (· ++ "\n"))

end CacheUsage.Stats
