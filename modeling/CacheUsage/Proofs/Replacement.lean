import CacheUsage.Proofs.Operations

namespace CacheUsage

namespace Slot

variable {tag : UInt64} {words : WordMap} {slots : List Slot}

/-- A visit of a tag turns the slots of a set, most recently used first, into others. -/
inductive Visits (tag : UInt64) (words : WordMap) : List Slot → Bool → List Slot → Prop where
  | hit {before after : List Slot} {found : Slot} : (∀ slot ∈ before, slot.tag ≠ tag) →
      found.tag = tag → Visits tag words (before ++ found :: after) true
        (⟨tag, found.used ||| words⟩ :: before ++ after)
  | miss {kept : List Slot} {last : Slot} : (∀ slot ∈ kept ++ [last], slot.tag ≠ tag) →
      Visits tag words (kept ++ [last]) false (⟨tag, words⟩ :: kept)

theorem Visits.hit_iff {hit : Bool} {slots' : List Slot} (h : Visits tag words slots hit slots') :
    hit = true ↔ ∃ slot ∈ slots, slot.tag = tag := by
  cases h with
  | @hit _ _ found _ hfound => exact iff_of_true rfl ⟨found, by simp, hfound⟩
  | miss hnone =>
    refine iff_of_false Bool.false_ne_true fun hmem => ?_
    obtain ⟨slot, hslot, htag⟩ := hmem
    exact hnone slot hslot htag

theorem exists_append_of_take? {found : Slot} {others : List Slot}
    (h : take? tag slots = some (found, others)) :
    ∃ before after, slots = before ++ found :: after ∧ others = before ++ after ∧
      ∀ slot ∈ before, slot.tag ≠ tag := by
  rw [take?_eq, Option.map_eq_some_iff] at h
  obtain ⟨_, hfind, heq⟩ := h
  cases heq
  obtain ⟨hfound, before, after, rfl, hbefore⟩ := List.find?_eq_some_iff_append.mp hfind
  have hnot : ∀ slot ∈ before, ¬ decide (slot.tag = tag) = true := by simpa using hbefore
  refine ⟨before, after, rfl, ?_, by simpa using hnot⟩
  rw [List.eraseP_append_right _ hnot]
  exact congrArg (before ++ ·) (List.eraseP_cons_of_pos hfound)

theorem visit_cases (tag : UInt64) (words : WordMap) (hne : slots ≠ []) :
    (∃ before found after, slots = before ++ found :: after ∧ found.tag = tag ∧
      (∀ slot ∈ before, slot.tag ≠ tag) ∧ visit tag words slots =
        ⟨true, found.used, found.used ||| words, ⟨tag, found.used ||| words⟩ :: before ++ after⟩) ∨
    ∃ kept last, slots = kept ++ [last] ∧ (∀ slot ∈ kept ++ [last], slot.tag ≠ tag) ∧
      visit tag words slots = ⟨false, last.used, words, ⟨tag, words⟩ :: kept⟩ := by
  cases htake : take? tag slots with
  | some taken =>
    obtain ⟨found, others⟩ := taken
    obtain ⟨before, after, rfl, rfl, hbefore⟩ := exists_append_of_take? htake
    refine Or.inl ⟨before, found, after, rfl, (tag_eq_of_take? htake).1, hbefore, ?_⟩
    simp only [visit, htake]
    rfl
  | none =>
    have hnone : tag ∉ slots.map Slot.tag := by
      rw [← take?_isSome_iff, htake]
      exact Bool.false_ne_true
    obtain ⟨kept, last, rfl⟩ : ∃ kept last, slots = kept ++ [last] :=
      ⟨_, _, (List.dropLast_concat_getLast hne).symm⟩
    refine Or.inr ⟨kept, last, rfl, ?_, ?_⟩
    · exact fun slot hslot htag => hnone (htag ▸ List.mem_map_of_mem hslot)
    · simp only [visit, htake, List.getLastD_concat, List.dropLast_concat]

theorem visits_visit (tag : UInt64) (words : WordMap) (hne : slots ≠ []) :
    Visits tag words slots (visit tag words slots).hit (visit tag words slots).slots := by
  obtain ⟨before, found, after, rfl, hfound, hbefore, hvisit⟩ | ⟨kept, last, rfl, hnone, hvisit⟩ :=
    visit_cases tag words hne
  · rw [hvisit]
    exact .hit hbefore hfound
  · rw [hvisit]
    exact .miss hnone

end Slot

namespace Cache

variable {new c d : Cache} {g : Geometry} {width set : Nat} {tag : UInt64} {words : WordMap}

theorem slots_eq_append (hset : set < c.sets.size) :
    c.slots = (List.range set).flatMap c.slotsAt ++ c.slotsAt set ++
      (List.range' (set + 1) (c.sets.size - (set + 1))).flatMap c.slotsAt := by
  have hrange : List.range c.sets.size = List.range set ++ [set] ++
      List.range' (set + 1) (c.sets.size - (set + 1)) := by
    rw [← List.range_succ, List.range_eq_range', List.range_eq_range',
      show set + 1 = 0 + (set + 1) by omega, List.range'_append_1]
    congr 1
    omega
  rw [slots_eq, hrange, List.flatMap_append, List.flatMap_append, List.flatMap_singleton]

theorem Shaped.row_visited (h : c.Shaped) (tag : UInt64) (words : WordMap)
    (hset : set < c.sets.size) :
    ∃ left right, left.length = set * c.geometry.ways.toNat ∧
      c.slots = left ++ c.slotsAt set ++ right ∧
      (c.visited set tag words).slots =
        left ++ (Slot.visit tag words (c.slotsAt set)).slots ++ right := by
  have hbefore : (List.range set).flatMap (c.visited set tag words).slotsAt =
      (List.range set).flatMap c.slotsAt := by
    refine List.flatMap_congr fun other hother => slotsAt_visited_of_ne ?_
    exact Nat.ne_of_lt (List.mem_range.mp hother)
  have hbehind : ∀ n, (List.range' (set + 1) n).flatMap (c.visited set tag words).slotsAt =
      (List.range' (set + 1) n).flatMap c.slotsAt := by
    intro n
    refine List.flatMap_congr fun other hother => slotsAt_visited_of_ne ?_
    exact Nat.ne_of_gt (List.mem_range'_1.mp hother).1
  refine ⟨_, _, h.length_flatMap_slotsAt (Nat.le_of_lt hset), slots_eq_append hset, ?_⟩
  rw [slots_eq_append (by rwa [size_visited]), slotsAt_visited hset, size_visited, hbefore, hbehind]

theorem Kept.total_visited (h : Kept new c) (tag : UInt64) (words : WordMap)
    (hset : set < c.sets.size) :
    ((c.visited set tag words).wordsInUse : Int) - c.wordsInUse =
      (Slot.usedCount (Slot.visit tag words (c.slotsAt set)).slots : Int) -
        Slot.usedCount (c.slotsAt set) := by
  have hne := h.wellFormed.slotsAt_ne_nil hset
  have hnext := (h.visited tag words hset).wellFormed
  have hrecount := recount_visited tag words hset hne
  have hused := Slot.usedCount_visit tag words hne
  rw [hnext.wordsInUse_eq, h.wellFormed.wordsInUse_eq]
  omega

end Cache

end CacheUsage
