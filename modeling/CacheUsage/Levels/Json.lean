import CacheUsage.Geometry.Json
import CacheUsage.Levels

namespace CacheUsage

open Json

inductive FileProblem where
  | missing
  | directory
  | notText
deriving DecidableEq

inductive LoadFailure where
  | unreadable (cause : FileProblem)
  | unparsable (cause : Problem)
  | defective (level : Level) (cause : Geometry.Defect)
deriving DecidableEq

namespace LoadFailure

def mismatchMessage (m : Mismatch) : String :=
  s!"failed to parse cache configuration: {m.message}"

def defectMessage (level : Level) (cause : Geometry.Defect) : String :=
  s!"invalid {level.name} cache: {cause.message}"

end LoadFailure

namespace HierarchyGeometry

def fields : Fields Geometry Geometry Geometry :=
  ⟨⟨"l1_i", Geometry.reader⟩, ⟨"l1_d", Geometry.reader⟩, ⟨"ll", Geometry.reader⟩⟩

/-- A level that is not given takes its own default. -/
def ofGiven (p : Given Geometry Geometry Geometry) : HierarchyGeometry :=
  { i1 := p.first.getD HierarchyGeometry.default.i1
    d1 := p.second.getD HierarchyGeometry.default.d1
    ll := p.third.getD HierarchyGeometry.default.ll }

def reader : Reader HierarchyGeometry := do
  let (_, p) ← Reader.record fields "struct CacheHierarchyConfig"
  return ofGiven p

def checked (g : HierarchyGeometry) : Except LoadFailure HierarchyGeometry :=
  match g.defect? with
  | none => .ok g
  | some (level, cause) => .error (.defective level cause)

theorem checked_eq_ok {g h : HierarchyGeometry} : g.checked = .ok h ↔ g.Sound ∧ g = h := by
  unfold checked Sound
  cases g.defect? with
  | none => simp
  | some found => simp

def ofJson (text : String) : Except LoadFailure HierarchyGeometry :=
  match reader.readAll text with
  | .ok g => g.checked
  | .error p => .error (.unparsable p)

def ofFile (contents : Except FileProblem ByteArray) : Except LoadFailure HierarchyGeometry :=
  match contents with
  | .error cause => .error (.unreadable cause)
  | .ok bytes =>
    match String.fromUTF8? bytes with
    | some text => ofJson text
    | none => .error (.unreadable .notText)

end HierarchyGeometry

end CacheUsage
