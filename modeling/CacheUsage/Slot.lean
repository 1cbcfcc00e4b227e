import CacheUsage.Words

namespace CacheUsage

structure Slot where
  tag : UInt64
  used : WordMap
deriving DecidableEq

namespace Slot

/-- The tag of a slot that holds no block. In lines of two or more bytes no block has this
number. -/
def vacantTag : UInt64 := 0xFFFFFFFFFFFFFFFF

def vacant : Slot := ⟨vacantTag, 0⟩

def take? (tag : UInt64) : List Slot → Option (Slot × List Slot)
  | [] => none
  | slot :: rest =>
    if slot.tag = tag then some (slot, rest)
    else (take? tag rest).map fun (found, others) => (found, slot :: others)

structure Visit where
  hit : Bool
  /-- The words of the slot that was brought forward or, on a miss, dropped. -/
  before : WordMap
  after : WordMap
  slots : List Slot
deriving DecidableEq

def visit (tag : UInt64) (words : WordMap) (slots : List Slot) : Visit :=
  match take? tag slots with
  | some (slot, others) =>
    { hit := true
      before := slot.used
      after := slot.used ||| words
      slots := ⟨tag, slot.used ||| words⟩ :: others }
  | none =>
    { hit := false
      before := (slots.getLastD vacant).used
      after := words
      slots := ⟨tag, words⟩ :: slots.dropLast }

theorem take?_isSome_iff {tag : UInt64} {slots : List Slot} :
    (take? tag slots).isSome ↔ tag ∈ slots.map Slot.tag := by
  induction slots with
  | nil => simp [take?]
  | cons slot rest ih =>
    by_cases h : slot.tag = tag
    · simp [take?, h]
    · simp [take?, h, Ne.symm h, ← ih]

theorem length_of_take? {tag : UInt64} {slots others : List Slot} {slot : Slot}
    (h : take? tag slots = some (slot, others)) : slots.length = others.length + 1 := by
  induction slots generalizing slot others with
  | nil => simp [take?] at h
  | cons head rest ih =>
    by_cases ht : head.tag = tag
    · simp only [take?, ht, ↓reduceIte, Option.some.injEq, Prod.mk.injEq] at h
      simp [h.2]
    · simp only [take?, ht, ↓reduceIte, Option.map_eq_some_iff, Prod.mk.injEq, Prod.exists] at h
      obtain ⟨_, others', hr, _, rfl⟩ := h
      simp [ih hr]

theorem length_visit {tag : UInt64} {words : WordMap} {slots : List Slot} (h : slots ≠ []) :
    (visit tag words slots).slots.length = slots.length := by
  have hpos := List.length_pos_iff.mpr h
  unfold visit
  split
  next hs => simp [length_of_take? hs]
  next => simp only [List.length_cons, List.length_dropLast]; omega

end Slot

end CacheUsage
