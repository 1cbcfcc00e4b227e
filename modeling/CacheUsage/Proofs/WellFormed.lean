import CacheUsage.Cache
import CacheUsage.Proofs.Split
import CacheUsage.Proofs.Visit

namespace CacheUsage

theorem sum_map_set {α : Type} (f : α → Nat) {l : List α} {i : Nat} {x y : α}
    (hi : l[i]? = some x) : ((l.set i y).map f).sum + f x = (l.map f).sum + f y := by
  induction l generalizing i with
  | nil => simp at hi
  | cons z l ih =>
    cases i with
    | zero =>
      simp only [List.getElem?_cons_zero, Option.some.injEq] at hi
      subst hi
      simp only [List.set_cons_zero, List.map_cons, List.sum_cons]
      omega
    | succ i =>
      simp only [List.getElem?_cons_succ] at hi
      have := ih hi
      simp only [List.set_cons_succ, List.map_cons, List.sum_cons]
      omega

namespace Cache

variable {c : Cache} {width set : Nat} {tag : UInt64} {words : WordMap}

def slotsAt (c : Cache) (set : Nat) : List Slot := c.sets[set]?.getD []

structure Shaped (c : Cache) : Prop where
  sets_pos : 0 < c.sets.size
  ways_pos : 0 < c.geometry.ways.toNat
  numbered : c.sets.size * c.geometry.ways.toNat < Checked.limit
  length_slotsAt : ∀ set < c.sets.size, (c.slotsAt set).length = c.geometry.ways.toNat

/-- Every set has one slot for each way, every word map stays below `width`, one more slot would
still be counted in 64 bits, and the running total is the recount. -/
structure WellFormed (width : Nat) (c : Cache) : Prop where
  width_pos : 0 < width
  width_le : width ≤ WordMap.capacity
  sets_pos : 0 < c.sets.size
  ways_pos : 0 < c.geometry.ways.toNat
  setCount_eq : c.geometry.setCount = .ok c.sets.size
  room : c.sets.size * c.geometry.ways.toNat * width + width < Checked.limit
  length_slotsAt : ∀ set < c.sets.size, (c.slotsAt set).length = c.geometry.ways.toNat
  below : ∀ set < c.sets.size, ∀ slot ∈ c.slotsAt set, slot.used.Below width
  wordsInUse_eq : c.wordsInUse = c.recount

def visited (set : Nat) (tag : UInt64) (words : WordMap) (c : Cache) : Cache :=
  { c with
    sets := c.sets.setIfInBounds set (Slot.visit tag words (c.slotsAt set)).slots
    wordsInUse := c.wordsInUse + (Slot.visit tag words (c.slotsAt set)).after.count -
      (Slot.visit tag words (c.slotsAt set)).before.count }

@[simp] theorem geometry_visited : (c.visited set tag words).geometry = c.geometry := rfl

@[simp] theorem size_visited : (c.visited set tag words).sets.size = c.sets.size := by
  simp [visited]

theorem getElem?_sets (hset : set < c.sets.size) : c.sets[set]? = some (c.slotsAt set) := by
  simp [slotsAt, hset]

theorem toList_sets (c : Cache) : c.sets.toList = (List.range c.sets.size).map c.slotsAt := by
  apply List.ext_getElem
  · simp
  · intro set h1 h2
    have hset : set < c.sets.size := by simpa using h1
    simp [slotsAt, hset]

theorem slotsAt_visited (hset : set < c.sets.size) :
    (c.visited set tag words).slotsAt set = (Slot.visit tag words (c.slotsAt set)).slots := by
  simp [slotsAt, visited, hset]

theorem slotsAt_visited_of_ne {other : Nat} (h : other ≠ set) :
    (c.visited set tag words).slotsAt other = c.slotsAt other := by
  simp [slotsAt, visited, Array.getElem?_setIfInBounds_ne (Ne.symm h)]

theorem recount_eq_usedCount (c : Cache) : c.recount = Slot.usedCount c.slots := by
  rw [recount, Slot.usedCount, List.sum, List.foldr_map]

theorem recount_eq (c : Cache) : c.recount = (c.sets.toList.map Slot.usedCount).sum := by
  simp only [recount_eq_usedCount, Slot.usedCount, slots, List.map_flatten, List.sum_flatten,
    List.map_map]
  rfl

theorem recount_visited (tag : UInt64) (words : WordMap) (hset : set < c.sets.size)
    (hne : c.slotsAt set ≠ []) :
    (c.visited set tag words).recount + (Slot.visit tag words (c.slotsAt set)).before.count =
      c.recount + (Slot.visit tag words (c.slotsAt set)).after.count := by
  have hget : c.sets.toList[set]? = some (c.slotsAt set) := by
    rw [Array.getElem?_toList, getElem?_sets hset]
  have hsum := sum_map_set Slot.usedCount (y := (Slot.visit tag words (c.slotsAt set)).slots) hget
  have hvisit := Slot.usedCount_visit tag words hne
  have hle := Slot.count_before_le tag words hne
  rw [recount_eq, recount_eq]
  simp only [visited, Array.toList_setIfInBounds]
  omega

theorem stop_le (hset : set < c.sets.size) :
    set * c.geometry.ways.toNat + c.geometry.ways.toNat ≤
      c.sets.size * c.geometry.ways.toNat := by
  rw [← Nat.succ_mul]
  exact Nat.mul_le_mul_right _ hset

namespace Shaped

theorem slotsAt_ne_nil (h : c.Shaped) (hset : set < c.sets.size) : c.slotsAt set ≠ [] := by
  have hlen := h.length_slotsAt set hset
  have hpos := h.ways_pos
  intro hnil
  rw [hnil, List.length_nil] at hlen
  omega

theorem setOf_lt (h : c.Shaped) (block : UInt64) : c.setOf block < c.sets.size := by
  have hle : c.setOf block ≤ c.sets.size - 1 := Nat.and_le_right
  have hpos := h.sets_pos
  omega

theorem slotsOf_eq_ok (h : c.Shaped) (hset : set < c.sets.size) :
    c.slotsOf set = .ok (c.slotsAt set) := by
  have hnumbered := h.numbered
  have hstop := stop_le hset
  have hproduct := Checked.product_eq_ok.mpr ⟨rfl, show set * c.geometry.ways.toNat < _ by omega⟩
  have hsum := Checked.sum_eq_ok.mpr
    ⟨rfl, show set * c.geometry.ways.toNat + c.geometry.ways.toNat < _ by omega⟩
  simp only [slotsOf, hproduct, getElem?_sets hset]
  change (Checked.sum _ _ >>= fun _ => _) = _
  rw [hsum]
  rfl

theorem visited (h : c.Shaped) (hset : set < c.sets.size) : (c.visited set tag words).Shaped := by
  refine ⟨by simpa using h.sets_pos, h.ways_pos, by simpa using h.numbered, ?_⟩
  intro other hother
  rw [size_visited] at hother
  by_cases heq : other = set
  · subst heq
    rw [slotsAt_visited hset, Slot.length_visit (h.slotsAt_ne_nil hset)]
    exact h.length_slotsAt other hset
  · rw [slotsAt_visited_of_ne heq]
    exact h.length_slotsAt other hother

/-- A visit changes the slots of its set, also where the total cannot follow. -/
theorem visit_eq (h : c.Shaped) (tag : UInt64) (words : WordMap) (hset : set < c.sets.size) :
    visit set tag words c = match updatedTotal c.wordsInUse
        (Slot.visit tag words (c.slotsAt set)).before
        (Slot.visit tag words (c.slotsAt set)).after with
      | .error fault => .error fault { c.visited set tag words with wordsInUse := c.wordsInUse }
      | .ok total => .ok (Slot.visit tag words (c.slotsAt set)).hit
          { c.visited set tag words with wordsInUse := total } := by
  simp only [visit, h.slotsOf_eq_ok hset]
  rfl

end Shaped

namespace WellFormed

theorem shaped (h : c.WellFormed width) : c.Shaped := by
  have hroom := h.room
  have hslots : c.sets.size * c.geometry.ways.toNat ≤
      c.sets.size * c.geometry.ways.toNat * width := Nat.le_mul_of_pos_right _ h.width_pos
  exact ⟨h.sets_pos, h.ways_pos, by omega, h.length_slotsAt⟩

theorem slotsAt_ne_nil (h : c.WellFormed width) (hset : set < c.sets.size) :
    c.slotsAt set ≠ [] := h.shaped.slotsAt_ne_nil hset

theorem setOf_lt (h : c.WellFormed width) (block : UInt64) : c.setOf block < c.sets.size :=
  h.shaped.setOf_lt block

theorem slotsOf_eq_ok (h : c.WellFormed width) (hset : set < c.sets.size) :
    c.slotsOf set = .ok (c.slotsAt set) := h.shaped.slotsOf_eq_ok hset

theorem recount_le (h : c.WellFormed width) :
    c.recount ≤ c.sets.size * c.geometry.ways.toNat * width := by
  rw [recount_eq, Nat.mul_assoc]
  have hbound : ∀ n ∈ c.sets.toList.map Slot.usedCount, n ≤ c.geometry.ways.toNat * width := by
    intro n hn
    obtain ⟨slots, hslots, rfl⟩ := List.mem_map.mp hn
    obtain ⟨set, hset, heq⟩ := List.mem_iff_getElem.mp hslots
    have hlt : set < c.sets.size := by simpa using hset
    have hat : c.slotsAt set = slots := by simpa [slotsAt, hlt] using heq
    have hle := Slot.usedCount_le h.width_le (h.below set hlt)
    rw [h.length_slotsAt set hlt, hat] at hle
    exact hle
  simpa using List.sum_le_card_nsmul _ _ hbound

/-- The running total follows from the sets. -/
theorem eq_of_sets {d : Cache} (h : c.WellFormed width) (hd : d.WellFormed width)
    (hgeometry : c.geometry = d.geometry) (hsets : c.sets = d.sets) : c = d := by
  have htotal : c.wordsInUse = d.wordsInUse := by
    rw [h.wordsInUse_eq, hd.wordsInUse_eq, recount, recount, slots, slots, hsets]
  cases c
  cases d
  cases hgeometry
  cases hsets
  cases htotal
  rfl

theorem wordsInUse_lt (h : c.WellFormed width) : c.wordsInUse < Checked.limit := by
  have hle := h.recount_le
  have hroom := h.room
  have htotal := h.wordsInUse_eq
  omega

theorem updatedTotal_eq_ok (h : c.WellFormed width) (tag : UInt64) (hset : set < c.sets.size)
    (hw : words.Below width) :
    updatedTotal c.wordsInUse (Slot.visit tag words (c.slotsAt set)).before
      (Slot.visit tag words (c.slotsAt set)).after = .ok (c.visited set tag words).wordsInUse := by
  have hne := h.slotsAt_ne_nil hset
  have hafter := (Slot.below_after_visit tag (h.below set hset) hw).count_le h.width_le
  have hrec := recount_visited tag words hset hne
  have hle := h.recount_le
  have hroom := h.room
  have htotal := h.wordsInUse_eq
  have hsum := Checked.sum_eq_ok.mpr ⟨rfl, show c.wordsInUse +
    (Slot.visit tag words (c.slotsAt set)).after.count < Checked.limit by omega⟩
  rw [updatedTotal, hsum]
  refine Checked.difference_eq_ok.mpr ?_
  simp only [visited]
  omega

theorem visit_eq_ok (h : c.WellFormed width) (hset : set < c.sets.size) (hw : words.Below width) :
    visit set tag words c = .ok (decide (tag ∈ (c.slotsAt set).map Slot.tag))
      (c.visited set tag words) := by
  have hhit : (Slot.visit tag words (c.slotsAt set)).hit = _ := Slot.hit_visit
  rw [h.shaped.visit_eq tag words hset, h.updatedTotal_eq_ok tag hset hw, ← hhit]

theorem visited (h : c.WellFormed width) (hset : set < c.sets.size) (hw : words.Below width) :
    (c.visited set tag words).WellFormed width := by
  have hne := h.slotsAt_ne_nil hset
  have hrec := recount_visited tag words hset hne
  refine ⟨h.width_pos, h.width_le, by simpa using h.sets_pos, h.ways_pos,
    by simpa using h.setCount_eq, by simpa using h.room, (h.shaped.visited hset).length_slotsAt,
    ?_, ?_⟩
  · intro other hother
    rw [size_visited] at hother
    by_cases heq : other = set
    · subst heq
      rw [slotsAt_visited hset]
      exact Slot.below_visit (h.below other hset) hw
    · rw [slotsAt_visited_of_ne heq]
      exact h.below other hother
  · have htotal := h.wordsInUse_eq
    change c.wordsInUse + _ - _ = _
    omega

end WellFormed

end Cache

end CacheUsage
