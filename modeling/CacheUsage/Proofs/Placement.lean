import CacheUsage.Proofs.Run
import Mathlib.Data.List.Pairwise

namespace CacheUsage

/-- Only the mark of a vacant slot occurs more than once. -/
def DistinctTags (tags : List UInt64) : Prop :=
  tags.Pairwise fun a b => a = b → a = Slot.vacantTag

theorem DistinctTags.not_mem_erase {tags : List UInt64} {tag : UInt64} (h : DistinctTags tags)
    (hreal : tag ≠ Slot.vacantTag) : tag ∉ tags.erase tag := by
  induction tags with
  | nil => simp
  | cons head rest ih =>
    obtain ⟨hhead, hrest⟩ := List.pairwise_cons.mp h
    by_cases heq : head = tag
    · subst heq
      rw [List.erase_cons_head]
      intro hmem
      exact hreal (hhead head hmem rfl)
    · rw [List.erase_cons_tail (by simpa using heq), List.mem_cons, not_or]
      exact ⟨Ne.symm heq, ih hrest⟩

theorem DistinctTags.visit {slots : List Slot} {tag : UInt64} {words : WordMap}
    (h : DistinctTags (slots.map Slot.tag)) :
    DistinctTags ((Slot.visit tag words slots).slots.map Slot.tag) := by
  rw [Slot.map_tag_visit]
  refine List.pairwise_cons.mpr ⟨?_, ?_⟩
  · intro other hother heq
    subst heq
    by_contra hreal
    split_ifs at hother with hmem
    · exact h.not_mem_erase hreal hother
    · exact hmem (List.dropLast_subset _ hother)
  · split_ifs
    · exact h.sublist List.erase_sublist
    · exact h.sublist (List.dropLast_sublist _)

namespace Cache

variable {c : Cache} {width : Nat} {slot : Slot} {t : Touch} {ts : List Touch}

/-- Blocks are in their own sets, each in one slot. -/
structure Placed (c : Cache) : Prop where
  home : ∀ set < c.sets.size, ∀ tag ∈ c.tagsAt set, tag ≠ Slot.vacantTag → c.setOf tag = set
  distinct : ∀ set < c.sets.size, DistinctTags (c.tagsAt set)

theorem mem_tagsAt_visited {set : Nat} {tag other : UInt64} {words : WordMap}
    (hset : set < c.sets.size) (h : other ∈ (c.visited set tag words).tagsAt set) :
    other = tag ∨ other ∈ c.tagsAt set := by
  rw [tagsAt, slotsAt_visited hset, Slot.map_tag_visit, List.mem_cons] at h
  refine h.imp_right fun hmem => ?_
  split_ifs at hmem
  · exact List.mem_of_mem_erase hmem
  · exact List.dropLast_subset _ hmem

theorem distinctTags_visited {set other : Nat} (tag : UInt64) (words : WordMap)
    (hset : set < c.sets.size) (h : DistinctTags (c.tagsAt other)) :
    DistinctTags ((c.visited set tag words).tagsAt other) := by
  by_cases heq : other = set
  · subst heq
    rw [tagsAt, slotsAt_visited hset]
    exact h.visit
  · rw [tagsAt, slotsAt_visited_of_ne heq]
    exact h

theorem Placed.touched (h : c.Placed) (hw : c.WellFormed width) : (c.touched t).Placed := by
  have hset := hw.setOf_lt t.block
  refine ⟨?_, ?_⟩
  · intro set hlt tag htag hreal
    rw [size_touched] at hlt
    rw [setOf_touched]
    by_cases heq : set = c.setOf t.block
    · subst heq
      rcases mem_tagsAt_visited hset htag with rfl | hold
      · rfl
      · exact h.home _ hlt tag hold hreal
    · rw [tagsAt, slotsAt_touched_of_ne heq] at htag
      exact h.home set hlt tag htag hreal
  · intro set hlt
    rw [size_touched] at hlt
    exact distinctTags_visited t.block t.words hset (h.distinct set hlt)

theorem Placed.afterTouches (h : c.Placed) (hw : c.WellFormed width)
    (ht : ∀ t ∈ ts, t.words.Below width) : (c.afterTouches ts).Placed := by
  induction ts generalizing c with
  | nil => exact h
  | cons t ts ih =>
    exact ih (h.touched hw) (hw.touched (ht t List.mem_cons_self))
      fun u hu => ht u (List.mem_cons_of_mem t hu)

theorem slots_eq (c : Cache) : c.slots = (List.range c.sets.size).flatMap c.slotsAt := by
  rw [slots, toList_sets, List.flatMap_def]

theorem mem_slots : slot ∈ c.slots ↔ ∃ set < c.sets.size, slot ∈ c.slotsAt set := by
  rw [slots_eq, List.mem_flatMap]
  simp only [List.mem_range]

theorem Shaped.length_flatMap_slotsAt (h : c.Shaped) {n : Nat}
    (hn : n ≤ c.sets.size) :
    ((List.range n).flatMap c.slotsAt).length = n * c.geometry.ways.toNat := by
  rw [List.length_flatMap]
  have hsame : (List.range n).map (fun set => (c.slotsAt set).length) =
      List.replicate n c.geometry.ways.toNat := by
    apply List.eq_replicate_iff.mpr
    refine ⟨by simp, ?_⟩
    intro k hk
    obtain ⟨set, hset, rfl⟩ := List.mem_map.mp hk
    have hlt : set < n := List.mem_range.mp hset
    exact h.length_slotsAt set (by omega)
  rw [hsame, List.sum_replicate_nat]

theorem Shaped.length_slots (h : c.Shaped) :
    c.slots.length = c.sets.size * c.geometry.ways.toNat := by
  rw [slots_eq, h.length_flatMap_slotsAt (Nat.le_refl _)]

theorem WellFormed.length_slots (h : c.WellFormed width) :
    c.slots.length = c.sets.size * c.geometry.ways.toNat := h.shaped.length_slots

theorem Placed.pairwise_slots (h : c.Placed) :
    c.slots.Pairwise fun a b => a.tag = b.tag → a.tag = Slot.vacantTag := by
  rw [slots_eq, List.pairwise_flatMap]
  refine ⟨?_, ?_⟩
  · intro set hset
    exact List.pairwise_map.mp (h.distinct set (List.mem_range.mp hset))
  · refine List.pairwise_lt_range.imp_of_mem ?_
    intro i j hi hj hlt a ha b hb heq
    by_contra hreal
    have hleft := h.home i (List.mem_range.mp hi) a.tag (List.mem_map_of_mem ha) hreal
    have hright := h.home j (List.mem_range.mp hj) b.tag (List.mem_map_of_mem hb) (heq ▸ hreal)
    rw [heq] at hleft
    omega

theorem Placed.tag_eq_vacantTag {a b : Slot} (h : c.Placed) (ha : a ∈ c.slots) (hb : b ∈ c.slots)
    (hne : a ≠ b) (htag : a.tag = b.tag) : a.tag = Slot.vacantTag := by
  have hsymm : Std.Symm fun a b : Slot => a.tag = b.tag → a.tag = Slot.vacantTag :=
    ⟨fun _ _ hab heq => heq.trans (hab heq.symm)⟩
  exact h.pairwise_slots.forall ha hb hne htag

theorem placed_blank (g : Geometry) (n : Nat) : (blank g n).Placed := by
  refine ⟨?_, ?_⟩
  · intro set hset tag htag hreal
    rw [size_blank] at hset
    rw [tagsAt_blank hset] at htag
    exact absurd (List.eq_of_mem_replicate htag) hreal
  · intro set hset
    rw [size_blank] at hset
    rw [tagsAt_blank hset]
    exact List.pairwise_replicate.mpr (Or.inr fun _ => rfl)

end Cache

end CacheUsage
