import CacheUsage.Proofs.Replacement

namespace CacheUsage

theorem toNat_eq_zero {n : UInt64} : n.toNat = 0 ↔ n = 0 := by
  rw [← UInt64.toNat_inj, UInt64.toNat_zero]

namespace Geometry

variable {g : Geometry} {n : Nat} {fault : Fault}

/-- Why no cache is built of a geometry: a divisor is zero, or the capacity holds no set. -/
inductive Obstacle (g : Geometry) : Fault → Prop where
  | zeroDivisor : g.lineBytes = 0 ∨ g.ways = 0 → Obstacle g .divideByZero
  | noSet : g.lineBytes ≠ 0 → g.ways ≠ 0 →
      g.sizeBytes.toNat / g.lineBytes.toNat / g.ways.toNat = 0 → Obstacle g .arithmeticOverflow

theorem setCount_of_zero (h : g.lineBytes = 0 ∨ g.ways = 0) :
    g.setCount = .error .divideByZero := by
  refine except_bind_eq_error.mpr ?_
  by_cases hline : g.lineBytes.toNat = 0
  · exact Or.inl (Checked.quotient_eq_error.mpr ⟨hline, rfl⟩)
  · have hways := h.resolve_left (mt toNat_eq_zero.mpr hline)
    exact Or.inr ⟨_, Checked.quotient_eq_ok.mpr ⟨hline, rfl⟩,
      Checked.quotient_eq_error.mpr ⟨toNat_eq_zero.mpr hways, rfl⟩⟩

theorem setCount_of_ne_zero (hline : g.lineBytes ≠ 0) (hways : g.ways ≠ 0) :
    g.setCount = .ok (g.sizeBytes.toNat / g.lineBytes.toNat / g.ways.toNat) :=
  setCount_eq_ok.mpr ⟨mt toNat_eq_zero.mp hline, mt toNat_eq_zero.mp hways, rfl⟩

/-- Two divisions that round down leave nothing just where the capacity is less than one set. -/
theorem quotient_eq_zero_iff (hline : g.lineBytes ≠ 0) (hways : g.ways ≠ 0) :
    g.sizeBytes.toNat / g.lineBytes.toNat / g.ways.toNat = 0 ↔
      g.sizeBytes.toNat < g.lineBytes.toNat * g.ways.toNat := by
  have hset : g.lineBytes.toNat * g.ways.toNat ≠ 0 :=
    Nat.mul_ne_zero (mt toNat_eq_zero.mp hline) (mt toNat_eq_zero.mp hways)
  rw [Nat.div_div_eq_div_mul, Nat.div_eq_zero_iff]
  exact or_iff_right hset

theorem mul_ways_le_of_setCount (h : g.setCount = .ok n) :
    n * g.ways.toNat ≤ g.sizeBytes.toNat / g.lineBytes.toNat := by
  obtain ⟨_, _, rfl⟩ := setCount_eq_ok.mp h
  exact Nat.div_mul_le_self _ _

theorem mul_ways_lt_of_setCount (h : g.setCount = .ok n) : n * g.ways.toNat < Checked.limit := by
  have hslots := mul_ways_le_of_setCount h
  have hlines := Nat.div_le_self g.sizeBytes.toNat g.lineBytes.toNat
  have hcap : g.sizeBytes.toNat < Checked.limit := g.sizeBytes.toNat_lt
  omega

theorem Obstacle.empty_eq (h : g.Obstacle fault) : Cache.empty g = .error fault := by
  cases h with
  | zeroDivisor hzero => exact except_bind_eq_error.mpr (Or.inl (setCount_of_zero hzero))
  | noSet hline hways hnone =>
    have hcount := setCount_of_ne_zero hline hways
    rw [hnone] at hcount
    have hproduct := Checked.product_eq_ok.mpr ⟨rfl, mul_ways_lt_of_setCount hcount⟩
    refine except_bind_eq_error.mpr (Or.inr ⟨_, hcount, ?_⟩)
    exact except_bind_eq_error.mpr (Or.inr ⟨_, hproduct, rfl⟩)

theorem exists_empty_or_obstacle (g : Geometry) :
    (∃ new, Cache.empty g = .ok new) ∨ ∃ fault, g.Obstacle fault := by
  by_cases hzero : g.lineBytes = 0 ∨ g.ways = 0
  · exact Or.inr ⟨_, .zeroDivisor hzero⟩
  obtain ⟨hline, hways⟩ := not_or.mp hzero
  by_cases hnone : g.sizeBytes.toNat / g.lineBytes.toNat / g.ways.toNat = 0
  · exact Or.inr ⟨_, .noSet hline hways hnone⟩
  have hcount := setCount_of_ne_zero hline hways
  exact Or.inl ⟨_, Cache.empty_eq_ok.mpr
    ⟨_, hcount, Nat.pos_of_ne_zero hnone, mul_ways_lt_of_setCount hcount, rfl⟩⟩

/-- A cache is built of a geometry unless something stands in the way. The slots of the sets that
the capacity splits into, even if there are none, can be numbered. -/
structure Construction (g : Geometry) : Prop where
  error_iff : ∀ fault, Cache.empty g = .error fault ↔ g.Obstacle fault
  ok_iff : (∃ new, Cache.empty g = .ok new) ↔ ∀ fault, ¬ g.Obstacle fault
  noSet_iff : g.lineBytes ≠ 0 → g.ways ≠ 0 →
    (g.sizeBytes.toNat / g.lineBytes.toNat / g.ways.toNat = 0 ↔
      g.sizeBytes.toNat < g.lineBytes.toNat * g.ways.toNat)
  numbered : ∀ n, g.setCount = .ok n → Checked.product n g.ways.toNat = .ok (n * g.ways.toNat) ∧
    n * g.ways.toNat ≤ g.sizeBytes.toNat / g.lineBytes.toNat

theorem construction (g : Geometry) : g.Construction := by
  have hall := exists_empty_or_obstacle g
  refine ⟨fun fault => ?_, ?_, quotient_eq_zero_iff, fun n hn => ⟨?_, mul_ways_le_of_setCount hn⟩⟩
  · exact except_eq_error_iff_of_cause (fun _ => Obstacle.empty_eq) hall
  · exact exists_except_eq_ok_iff_of_cause (fun _ => Obstacle.empty_eq) hall
  · exact Checked.product_eq_ok.mpr ⟨rfl, mul_ways_lt_of_setCount hn⟩

end Geometry

namespace Cache

variable {new c : Cache} {g : Geometry} {n set : Nat} {tag : UInt64} {words : WordMap}
  {fault : Fault}

theorem shaped_of_empty (hnew : empty g = .ok new) : new.Shaped := by
  obtain ⟨n, hn, hpos, hfit, rfl⟩ := empty_eq_ok.mp hnew
  exact shaped_blank hpos (Nat.pos_of_ne_zero (Geometry.setCount_eq_ok.mp hn).2.1) hfit

theorem updatedTotal_eq_error {total : Nat} {before after : WordMap} :
    updatedTotal total before after = .error fault ↔ fault = .arithmeticOverflow ∧
      (Checked.limit ≤ total + after.count ∨ total + after.count < before.count) := by
  simp only [updatedTotal, except_bind_eq_error, Checked.sum_eq_error, Checked.sum_eq_ok,
    Checked.difference_eq_error]
  constructor
  · intro h
    rcases h with ⟨hover, hfault⟩ | ⟨_, ⟨rfl, _⟩, hunder, hfault⟩
    · exact ⟨hfault, Or.inl hover⟩
    · exact ⟨hfault, Or.inr hunder⟩
  · intro h
    obtain ⟨hfault, hout⟩ := h
    by_cases hover : Checked.limit ≤ total + after.count
    · exact Or.inl ⟨hover, hfault⟩
    · exact Or.inr ⟨_, ⟨rfl, by omega⟩, hout.resolve_left hover, hfault⟩

theorem exists_slotsOf_eq_error (hset : c.sets.size ≤ set) :
    ∃ fault, c.slotsOf set = .error fault := by
  cases hslots : c.slotsOf set with
  | error fault => exact ⟨fault, rfl⟩
  | ok slots =>
    obtain ⟨_, _, hrest⟩ := except_bind_eq_ok.mp hslots
    obtain ⟨_, _, hfound⟩ := except_bind_eq_ok.mp hrest
    rw [Array.getElem?_eq_none hset] at hfound
    cases hfound

theorem exists_visit_eq_error (hset : c.sets.size ≤ set) (tag : UInt64) (words : WordMap) :
    ∃ fault, visit set tag words c = .error fault c := by
  obtain ⟨fault, herror⟩ := exists_slotsOf_eq_error hset
  exact ⟨fault, by simp only [visit, herror]⟩

namespace Shaped

theorem withTotal (h : c.Shaped) (total : Nat) : ({ c with wordsInUse := total } : Cache).Shaped :=
  ⟨h.sets_pos, h.ways_pos, h.numbered, h.length_slotsAt⟩

theorem exists_residue_visit_eq (h : c.Shaped) (tag : UInt64) (words : WordMap)
    (hset : set < c.sets.size) :
    ∃ total, residue (visit set tag words c) =
      { c.visited set tag words with wordsInUse := total } := by
  rw [h.visit_eq tag words hset]
  split
  · exact ⟨_, rfl⟩
  · exact ⟨_, rfl⟩

/-- Only the total can make a visit of a set fail. -/
theorem visit_eq_error_iff (h : c.Shaped) (tag : UInt64) (words : WordMap)
    (hset : set < c.sets.size) : (∃ d, visit set tag words c = .error fault d) ↔
      updatedTotal c.wordsInUse (Slot.visit tag words (c.slotsAt set)).before
        (Slot.visit tag words (c.slotsAt set)).after = .error fault := by
  rw [h.visit_eq tag words hset]
  split
  next cause hcause => simp [hcause]
  next total htotal => simp [htotal]

theorem slotsAt_eq (h : c.Shaped) (hset : set < c.sets.size) : c.slotsAt set =
    (c.slots.drop (set * c.geometry.ways.toNat)).take c.geometry.ways.toNat := by
  have hstart := h.length_flatMap_slotsAt (Nat.le_of_lt hset)
  rw [slots_eq_append hset, List.append_assoc, List.drop_left' hstart,
    List.take_left' (h.length_slotsAt set hset)]

theorem slots_visited (h : c.Shaped) (tag : UInt64) (words : WordMap) (hset : set < c.sets.size) :
    (c.visited set tag words).slots = c.slots.take (set * c.geometry.ways.toNat) ++
      (Slot.visit tag words (c.slotsAt set)).slots ++
      c.slots.drop (set * c.geometry.ways.toNat + c.geometry.ways.toNat) := by
  obtain ⟨left, right, hstart, hrow, hvisited⟩ := h.row_visited tag words hset
  have hstop : (left ++ c.slotsAt set).length =
      set * c.geometry.ways.toNat + c.geometry.ways.toNat := by
    rw [List.length_append, hstart, h.length_slotsAt set hset]
  have hleft : c.slots.take (set * c.geometry.ways.toNat) = left := by
    rw [hrow, List.append_assoc, List.take_left' hstart]
  have hright : c.slots.drop (set * c.geometry.ways.toNat + c.geometry.ways.toNat) = right := by
    rw [hrow, List.drop_left' hstop]
  rw [hvisited, hleft, hright]

end Shaped

/-- What operations keep of a cache, also if they fail since the total cannot be counted. -/
structure ShapedAs (new c : Cache) : Prop where
  shaped : c.Shaped
  geometry : c.geometry = new.geometry
  size : c.sets.size = new.sets.size

theorem visit_maintains_shape (set : Nat) (tag : UInt64) (words : WordMap) :
    Maintains (ShapedAs new) (visit set tag words) := by
  intro c hc
  rcases Nat.lt_or_ge set c.sets.size with hset | hset
  · obtain ⟨total, hresidue⟩ := hc.shaped.exists_residue_visit_eq tag words hset
    rw [hresidue]
    refine ⟨(hc.shaped.visited hset).withTotal total, hc.geometry, ?_⟩
    exact size_visited.trans hc.size
  · obtain ⟨fault, herror⟩ := exists_visit_eq_error hset tag words
    rw [herror]
    exact hc

theorem Reachable.shapedAs (h : Reachable new c) (hnew : new.Shaped) : ShapedAs new c := by
  induction h with
  | start => exact ⟨hnew, rfl, rfl⟩
  | visit set tag words _ _ ih => exact visit_maintains_shape set tag words _ ih
  | access s _ ih =>
    refine maintains_perform (fun _ _ t _ => ?_) _ ih
    exact fun c hc => visit_maintains_shape (c.setOf t.block) t.block t.words c hc

/-- A cache of `sets` sets of `ways` slots, which stand in one row. Every block has a set, and every
set its own part of the row. -/
structure Indexed (sets ways : Nat) (c : Cache) : Prop where
  ways_pos : 0 < ways
  length : c.slots.length = sets * ways
  setOf_lt : ∀ block, c.setOf block < sets
  slotsOf : ∀ set < sets, set * ways + ways ≤ c.slots.length ∧
    c.slotsOf set = .ok ((c.slots.drop (set * ways)).take ways)
  visit : ∀ set < sets, ∀ tag words, ∃ old, c.slotsOf set = .ok old ∧
    (residue (visit set tag words c)).slots = c.slots.take (set * ways) ++
      (Slot.visit tag words old).slots ++ c.slots.drop (set * ways + ways) ∧
    ∀ fault, (∃ d, Cache.visit set tag words c = .error fault d) ↔ fault = .arithmeticOverflow ∧
      (Checked.limit ≤ c.wordsInUse + (Slot.visit tag words old).after.count ∨
        c.wordsInUse + (Slot.visit tag words old).after.count <
          (Slot.visit tag words old).before.count)
  outside : ∀ set, sets ≤ set → ∀ tag words, ∃ fault, Cache.visit set tag words c = .error fault c

theorem Shaped.indexed (h : c.Shaped) : c.Indexed c.sets.size c.geometry.ways.toNat := by
  refine ⟨h.ways_pos, h.length_slots, h.setOf_lt, ?_, ?_, ?_⟩
  · intro set hset
    rw [h.length_slots, h.slotsOf_eq_ok hset, ← h.slotsAt_eq hset]
    exact ⟨stop_le hset, rfl⟩
  · intro set hset tag words
    refine ⟨_, h.slotsOf_eq_ok hset, ?_, ?_⟩
    · obtain ⟨total, hresidue⟩ := h.exists_residue_visit_eq tag words hset
      rw [hresidue]
      exact h.slots_visited tag words hset
    · intro fault
      rw [h.visit_eq_error_iff tag words hset, updatedTotal_eq_error]
  · exact fun set hset tag words => exists_visit_eq_error hset tag words

/-- A geometry has a cache unless there is an obstacle, and no operation on that cache leaves its
slots, however many there are. -/
theorem empty_indexed (g : Geometry) : g.Construction ∧ ∀ new, empty g = .ok new →
    g.setCount = .ok new.sets.size ∧
    ∀ c, Reachable new c → c.Indexed new.sets.size g.ways.toNat := by
  refine ⟨g.construction, fun new hnew => ?_⟩
  obtain ⟨n, hn, _, _, rfl⟩ := empty_eq_ok.mp hnew
  rw [size_blank]
  refine ⟨hn, fun c hc => ?_⟩
  have hshape := hc.shapedAs (shaped_of_empty hnew)
  have hindexed := hshape.shaped.indexed
  rw [hshape.size, hshape.geometry, geometry_blank, size_blank] at hindexed
  exact hindexed

theorem empty_indexed_thirds :
    ∃ new c, empty ⟨0xFFFFFFFFFFFFFFFF, 3, 1⟩ = .ok new ∧
      ¬ Nat.isPowerOfTwo 0x5555555555555555 ∧
      Geometry.setCount ⟨0xFFFFFFFFFFFFFFFF, 3, 1⟩ = .ok 0x5555555555555555 ∧
      Checked.product 0x5555555555555555 3 = .ok 0xFFFFFFFFFFFFFFFF ∧
      (0xFFFFFFFFFFFFFFFF / 1 / 3 = 0 ↔ 0xFFFFFFFFFFFFFFFF < 1 * 3) ∧
      c = residue (access ⟨0xFFFFFFFFFFFFFFFF, 2⟩ (residue (visit 0x5555555555555554 7 3 new))) ∧
      Reachable new c ∧ c.Indexed 0x5555555555555555 3 := by
  -- A third as many sets as there are 64-bit numbers, which is no power of two. So many slots can
  -- have more words in use than 64 bits count.
  have hcount : Geometry.setCount ⟨0xFFFFFFFFFFFFFFFF, 3, 1⟩ = .ok 0x5555555555555555 := rfl
  have hnew : empty ⟨0xFFFFFFFFFFFFFFFF, 3, 1⟩ =
      .ok (blank ⟨0xFFFFFFFFFFFFFFFF, 3, 1⟩ 0x5555555555555555) :=
    empty_eq_ok.mpr ⟨_, hcount, by decide, by decide, rfl⟩
  have hlast : 0x5555555555555554 <
      (blank ⟨0xFFFFFFFFFFFFFFFF, 3, 1⟩ 0x5555555555555555).sets.size := by
    rw [size_blank]
    decide
  have hreach := (Reachable.visit _ 7 3 .start hlast).access ⟨0xFFFFFFFFFFFFFFFF, 2⟩
  obtain ⟨hbuilt, hindexed⟩ := empty_indexed ⟨0xFFFFFFFFFFFFFFFF, 3, 1⟩
  obtain ⟨hproduct, _⟩ := hbuilt.numbered _ hcount
  have hcache := (hindexed _ hnew).2 _ hreach
  rw [size_blank] at hcache
  exact ⟨_, _, hnew, by decide, hcount, hproduct, hbuilt.noSet_iff (by decide) (by decide), rfl,
    hreach, hcache⟩

end Cache

end CacheUsage
