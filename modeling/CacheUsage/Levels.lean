import CacheUsage.Geometry.Defect

namespace CacheUsage

inductive Level where
  | i1
  | d1
  | ll
deriving DecidableEq

def Level.name : Level → String
  | .i1 => "I1"
  | .d1 => "D1"
  | .ll => "LL"

structure Levels (α : Type) where
  i1 : α
  d1 : α
  ll : α
deriving DecidableEq

namespace Levels

variable {α β : Type}

def get (x : Levels α) : Level → α
  | .i1 => x.i1
  | .d1 => x.d1
  | .ll => x.ll

def set (x : Levels α) (level : Level) (a : α) : Levels α :=
  match level with
  | .i1 => { x with i1 := a }
  | .d1 => { x with d1 := a }
  | .ll => { x with ll := a }

def map (f : α → β) (x : Levels α) : Levels β := ⟨f x.i1, f x.d1, f x.ll⟩

@[simp] theorem get_set_self (x : Levels α) (l : Level) (a : α) : (x.set l a).get l = a := by
  cases l <;> rfl

@[simp] theorem set_get_self (x : Levels α) (l : Level) : x.set l (x.get l) = x := by
  cases l <;> rfl

theorem get_set_of_ne (x : Levels α) {l k : Level} (a : α) (h : k ≠ l) :
    (x.set l a).get k = x.get k := by
  cases l <;> cases k <;> simp_all [get, set]

theorem eq_of_get {x y : Levels α} (h : ∀ level, x.get level = y.get level) : x = y := by
  obtain ⟨i1, d1, ll⟩ := x
  obtain ⟨i1', d1', ll'⟩ := y
  obtain rfl : i1 = i1' := h .i1
  obtain rfl : d1 = d1' := h .d1
  obtain rfl : ll = ll' := h .ll
  rfl

@[simp] theorem get_map (f : α → β) (x : Levels α) (l : Level) : (x.map f).get l = f (x.get l) := by
  cases l <;> rfl

end Levels

abbrev HierarchyGeometry := Levels Geometry

namespace HierarchyGeometry

protected def default : HierarchyGeometry :=
  ⟨.firstLevelDefault, .firstLevelDefault, .lastLevelDefault⟩

/-- The first level with a defect, in the order I1, D1, LL, and that defect. -/
def defect? (g : HierarchyGeometry) : Option (Level × Geometry.Defect) :=
  [Level.i1, .d1, .ll].findSome? fun level => (g.get level).defect?.map (level, ·)

def Sound (g : HierarchyGeometry) : Prop := g.defect? = none

instance (g : HierarchyGeometry) : Decidable g.Sound := by unfold Sound; infer_instance

end HierarchyGeometry

end CacheUsage
