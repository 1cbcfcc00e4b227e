import CacheUsage.Proofs.Coverage
import CacheUsage.Slot
import Mathlib.Algebra.Order.BigOperators.Group.List
import Mathlib.Algebra.Order.Ring.Nat

namespace CacheUsage

namespace Slot

variable {tag : UInt64} {words : WordMap} {slots : List Slot}

def usedCount (slots : List Slot) : Nat := (slots.map fun slot => slot.used.count).sum

theorem usedCount_cons (slot : Slot) (slots : List Slot) :
    usedCount (slot :: slots) = slot.used.count + usedCount slots := by
  simp [usedCount]

theorem usedCount_le {width : Nat} (hw : width ≤ WordMap.capacity)
    (h : ∀ slot ∈ slots, slot.used.Below width) : usedCount slots ≤ slots.length * width := by
  have hcounts : ∀ n ∈ slots.map fun slot => slot.used.count, n ≤ width := by
    intro n hn
    obtain ⟨slot, hslot, rfl⟩ := List.mem_map.mp hn
    exact (h slot hslot).count_le hw
  simpa [usedCount] using List.sum_le_card_nsmul _ width hcounts

theorem take?_eq (tag : UInt64) (slots : List Slot) :
    take? tag slots = (slots.find? fun slot => slot.tag = tag).map
      fun slot => (slot, slots.eraseP fun slot => slot.tag = tag) := by
  induction slots with
  | nil => rfl
  | cons slot rest ih =>
    by_cases h : slot.tag = tag
    · simp [take?, h]
    · cases hf : rest.find? (fun slot => slot.tag = tag) <;> simp [take?, h, ih, hf]

theorem tag_eq_of_take? {slot : Slot} {others : List Slot}
    (h : take? tag slots = some (slot, others)) : slot.tag = tag ∧ slot ∈ slots := by
  rw [take?_eq, Option.map_eq_some_iff] at h
  obtain ⟨found, hf, heq⟩ := h
  cases heq
  exact ⟨by simpa using List.find?_some hf, List.mem_of_find?_eq_some hf⟩

theorem sublist_of_take? {slot : Slot} {others : List Slot}
    (h : take? tag slots = some (slot, others)) : List.Sublist others slots := by
  rw [take?_eq, Option.map_eq_some_iff] at h
  obtain ⟨found, _, heq⟩ := h
  cases heq
  exact List.eraseP_sublist

theorem map_tag_of_take? {slot : Slot} {others : List Slot}
    (h : take? tag slots = some (slot, others)) :
    others.map Slot.tag = (slots.map Slot.tag).erase tag := by
  rw [take?_eq, Option.map_eq_some_iff] at h
  obtain ⟨found, _, heq⟩ := h
  cases heq
  rw [List.erase_eq_eraseP', List.eraseP_map]
  congr 2

theorem usedCount_of_take? {slot : Slot} {others : List Slot}
    (h : take? tag slots = some (slot, others)) :
    slot.used.count + usedCount others = usedCount slots := by
  induction slots generalizing slot others with
  | nil => simp [take?] at h
  | cons head rest ih =>
    by_cases ht : head.tag = tag
    · simp only [take?, ht, ↓reduceIte, Option.some.injEq, Prod.mk.injEq] at h
      rw [← h.1, ← h.2, usedCount_cons]
    · simp only [take?, ht, ↓reduceIte, Option.map_eq_some_iff, Prod.mk.injEq, Prod.exists] at h
      obtain ⟨found, others', hr, rfl, rfl⟩ := h
      have := ih hr
      simp only [usedCount_cons]
      omega

theorem usedCount_dropLast (h : slots ≠ []) :
    (slots.getLastD vacant).used.count + usedCount slots.dropLast = usedCount slots := by
  obtain ⟨init, last, rfl⟩ : ∃ init last, slots = init ++ [last] :=
    ⟨_, _, (List.dropLast_concat_getLast h).symm⟩
  simp [usedCount, Nat.add_comm]

theorem hit_visit : (visit tag words slots).hit = decide (tag ∈ slots.map Slot.tag) := by
  have hmem : (take? tag slots).isSome ↔ tag ∈ slots.map Slot.tag := take?_isSome_iff
  unfold visit
  split
  next hs =>
    rw [hs] at hmem
    exact (decide_eq_true (hmem.mp rfl)).symm
  next hs =>
    rw [hs] at hmem
    exact (decide_eq_false fun hin => by simpa using hmem.mpr hin).symm

/-- A block that is there comes to the front; one that is not displaces the last. -/
theorem map_tag_visit : (visit tag words slots).slots.map Slot.tag =
    tag :: if tag ∈ slots.map Slot.tag then (slots.map Slot.tag).erase tag
      else (slots.map Slot.tag).dropLast := by
  have hmem : (take? tag slots).isSome ↔ tag ∈ slots.map Slot.tag := take?_isSome_iff
  unfold visit
  split
  next slot others hs =>
    rw [hs] at hmem
    rw [if_pos (hmem.mp rfl), List.map_cons, map_tag_of_take? hs]
  next hs =>
    rw [hs] at hmem
    rw [if_neg fun hin => by simpa using hmem.mpr hin, List.map_cons, List.map_dropLast]

theorem visit_visit (w v : WordMap) :
    (visit tag v (visit tag w slots).slots).slots = (visit tag (w ||| v) slots).slots := by
  cases hs : take? tag slots with
  | none => simp [visit, take?, hs]
  | some found =>
    obtain ⟨slot, others⟩ := found
    simp [visit, take?, hs, BitVec.or_assoc]

theorem mem_map_tag_visit (w : WordMap) : tag ∈ (visit tag w slots).slots.map Slot.tag := by
  rw [map_tag_visit]
  exact List.mem_cons_self

theorem usedCount_visit (tag : UInt64) (words : WordMap) (h : slots ≠ []) :
    usedCount (visit tag words slots).slots + (visit tag words slots).before.count =
      usedCount slots + (visit tag words slots).after.count := by
  unfold visit
  split
  next slot others hs =>
    have := usedCount_of_take? hs
    simp only [usedCount_cons]
    omega
  next hs =>
    have := usedCount_dropLast h
    simp only [usedCount_cons]
    omega

theorem count_before_le (tag : UInt64) (words : WordMap) (h : slots ≠ []) :
    (visit tag words slots).before.count ≤ usedCount slots := by
  unfold visit
  split
  next slot others hs =>
    have := usedCount_of_take? hs
    simp only
    omega
  next hs =>
    have := usedCount_dropLast h
    simp only
    omega

theorem below_after_visit {width : Nat} (tag : UInt64)
    (h : ∀ slot ∈ slots, slot.used.Below width) (hw : words.Below width) :
    (visit tag words slots).after.Below width := by
  unfold visit
  split
  next slot others hs => exact (h slot (tag_eq_of_take? hs).2).or hw
  next hs => exact hw

theorem below_visit {width : Nat} (h : ∀ slot ∈ slots, slot.used.Below width)
    (hw : words.Below width) : ∀ slot ∈ (visit tag words slots).slots, slot.used.Below width := by
  unfold visit
  split
  next found others hs =>
    intro slot hslot
    rcases List.mem_cons.mp hslot with rfl | hin
    · exact (h found (tag_eq_of_take? hs).2).or hw
    · exact h slot ((sublist_of_take? hs).subset hin)
  next hs =>
    intro slot hslot
    rcases List.mem_cons.mp hslot with rfl | hin
    · exact hw
    · exact h slot (List.dropLast_subset slots hin)

end Slot

end CacheUsage
