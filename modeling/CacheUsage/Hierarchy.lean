import CacheUsage.Cache
import CacheUsage.Counters
import CacheUsage.Event

namespace CacheUsage

def AccessKind.firstLevel : AccessKind → Level
  | .fetch => .i1
  | .read => .d1
  | .write => .d1

abbrev Hierarchy := Levels Cache

/-- A hierarchy at work for one set of counters. -/
structure Station where
  caches : Hierarchy
  counters : Counters
  log : Log

abbrev StationM := EStateM Fault Station

namespace Station

def count (read : Counters → Nat) (write : Counters → Nat → Counters) (n : Nat) : StationM Unit :=
  fun st =>
    match Checked.sum (read st.counters) n with
    | .ok sum => .ok () { st with counters := write st.counters sum }
    | .error fault => .error fault st

def countReference : StationM Unit :=
  count Counters.references (fun c n => { c with references := n }) 1

def countFirstMiss : StationM Unit :=
  count Counters.firstMisses (fun c n => { c with firstMisses := n }) 1

def countLastMiss : StationM Unit :=
  count Counters.lastMisses (fun c n => { c with lastMisses := n }) 1

def addFirstWords (n : Nat) : StationM Unit :=
  count Counters.firstWords (fun c n => { c with firstWords := n }) n

def addLastWords (n : Nat) : StationM Unit :=
  count Counters.lastWords (fun c n => { c with lastWords := n }) n

def inCache {α : Type} (level : Level) (op : CacheM α) : StationM α := fun st =>
  match op (st.caches.get level) with
  | .ok a cache => .ok a { st with caches := st.caches.set level cache }
  | .error fault cache => .error fault { st with caches := st.caches.set level cache }

def wordsInUse (level : Level) : StationM Nat := fun st => .ok (st.caches.get level).wordsInUse st

def record (e : Event) : StationM Unit := fun st => .ok () { st with log := st.log.push e }

end Station

namespace Hierarchy

def empty (g : HierarchyGeometry) : Except Fault Hierarchy := do
  return ⟨← Cache.empty g.i1, ← Cache.empty g.d1, ← Cache.empty g.ll⟩

def built (h : Hierarchy) : Event := .initialised (h.map fun c => c.geometry.description)

def wordsInUse (h : Hierarchy) : Levels Nat := h.map Cache.wordsInUse

/-- What follows a first-level miss: makes the touches at the last level, counts and logs. -/
def passOn (level : Level) (s : Span) (last : Except Fault (List Touch)) : StationM Served := do
  Station.countFirstMiss
  let hit ← Station.inCache .ll (Cache.perform last)
  unless hit do Station.countLastMiss
  Station.addLastWords (← Station.wordsInUse .ll)
  Station.record
    (.firstLevelMiss level s (← Station.wordsInUse level) (← Station.wordsInUse .ll))
  return if hit then .lastLevel else .memory

/-- Makes the touches `first` at a first level and, if they miss, `last` at the last level,
counting on the way. -/
def pass (level : Level) (s : Span) (first last : Except Fault (List Touch)) : StationM Served := do
  Station.countReference
  let hit ← Station.inCache level (Cache.perform first)
  let served ← if hit then pure .firstLevel else passOn level s last
  Station.addFirstWords (← Station.wordsInUse level)
  return served

/-- A reference of any alignment through a first level, split by each cache's own geometry. -/
def access (level : Level) (s : Span) : StationM Served := fun st =>
  pass level s ((st.caches.get level).geometry.touches s) (st.caches.ll.geometry.touches s) st

/-- A fetch stays inside one line, and that line is the same in I1 and in LL. -/
def holdsInOneLine (h : Hierarchy) (s : Span) : Bool :=
  h.i1.geometry.lineBits = h.ll.geometry.lineBits && h.i1.geometry.holdsInOneLine s

/-- A fetch inside one line: the touch found with I1's geometry serves both levels. -/
def fetchInOneLine (s : Span) : StationM Served := fun st =>
  if st.caches.holdsInOneLine s then
    let touches := (st.caches.i1.geometry.firstTouch s).map ([·])
    pass .i1 s touches touches st
  else .error (.precondition .singleLine) st

end Hierarchy

end CacheUsage
