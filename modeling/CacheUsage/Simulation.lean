import CacheUsage.Hierarchy
import CacheUsage.Stats

namespace CacheUsage

structure Simulation where
  caches : Hierarchy
  stats : Stats
  log : Log

abbrev SimulationM := EStateM Fault Simulation

inductive StartFailure where
  | defect (level : Level) (cause : Geometry.Defect)
  | fault (cause : Fault)
deriving DecidableEq

def Hierarchy.ofSound (g : HierarchyGeometry) : Except StartFailure Hierarchy :=
  match g.defect? with
  | some (level, cause) => .error (.defect level cause)
  | none => (Hierarchy.empty g).mapError .fault

namespace Simulation

def start (g : HierarchyGeometry) : Except StartFailure Simulation := do
  let caches ← Hierarchy.ofSound g
  return ⟨caches, .zero, #[caches.built]⟩

/-- The path of a reference: a fetch takes the one for a single line where it may. -/
def path (h : Hierarchy) (r : Reference) : StationM Served :=
  if r.kind = .fetch ∧ h.holdsInOneLine r.toSpan then Hierarchy.fetchInOneLine r.toSpan
  else Hierarchy.access r.kind.firstLevel r.toSpan

/-- What an operation of a station does with the counters of one kind. -/
def atStation (kind : AccessKind) (x : Hierarchy → StationM Served) : SimulationM Served :=
  fun sim => match x sim.caches ⟨sim.caches, sim.stats.get kind, sim.log⟩ with
    | .ok served st => .ok served ⟨st.caches, sim.stats.set kind st.counters, st.log⟩
    | .error fault st => .error fault ⟨st.caches, sim.stats.set kind st.counters, st.log⟩

def serve (r : Reference) : SimulationM Served := atStation r.kind fun h => path h r

def serveAll : List Reference → SimulationM (List Served)
  | [] => pure []
  | r :: rest => do
    let served ← serve r
    let later ← serveAll rest
    return served :: later

end Simulation

end CacheUsage
