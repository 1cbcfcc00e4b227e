import CacheUsage.Proofs.Recency
import CacheUsage.Proofs.Start

namespace CacheUsage

namespace Geometry

variable {g : Geometry} {k : Nat}

/-- The capacity is that of `2 ^ k` sets of lines of a supported size. -/
structure FilledBy (k : Nat) (g : Geometry) : Prop where
  ways : 1 ≤ g.ways.toNat
  line : g.lineBytes.toNat ∈ [16, 32, 64, 128, 256]
  size : g.sizeBytes.toNat = g.lineBytes.toNat * g.ways.toNat * 2 ^ k

theorem mem_lineSizes {n : Nat} :
    n ∈ [16, 32, 64, 128, 256] ↔ ∃ j, 4 ≤ j ∧ j ≤ 8 ∧ n = 2 ^ j := by
  constructor
  · intro h
    simp only [List.mem_cons, List.not_mem_nil, or_false] at h
    rcases h with rfl | rfl | rfl | rfl | rfl
    · exact ⟨4, by omega, by omega, rfl⟩
    · exact ⟨5, by omega, by omega, rfl⟩
    · exact ⟨6, by omega, by omega, rfl⟩
    · exact ⟨7, by omega, by omega, rfl⟩
    · exact ⟨8, by omega, by omega, rfl⟩
  · intro h
    obtain ⟨j, hlow, hhigh, rfl⟩ := h
    obtain rfl | rfl | rfl | rfl | rfl : j = 4 ∨ j = 5 ∨ j = 6 ∨ j = 7 ∨ j = 8 := by omega
    all_goals simp

theorem sound_iff_exists_filledBy : g.Sound ↔ ∃ k, g.FilledBy k := by
  rw [sound_iff, ← mem_lineSizes]
  constructor
  · intro h
    obtain ⟨hways, hline, k, hsize⟩ := h
    exact ⟨k, hways, hline, hsize⟩
  · intro h
    obtain ⟨k, hways, hline, hsize⟩ := h
    exact ⟨hways, hline, k, hsize⟩

theorem FilledBy.sound (h : g.FilledBy k) : g.Sound := sound_iff_exists_filledBy.mpr ⟨k, h⟩

theorem FilledBy.setCount_eq (h : g.FilledBy k) : g.setCount = .ok (2 ^ k) := by
  obtain ⟨m, hm, hsize⟩ := h.sound.setCount_eq
  have hset : 0 < g.lineBytes.toNat * g.ways.toNat :=
    Nat.mul_pos h.sound.lineBytes_pos h.sound.ways_pos
  have hsame : 2 ^ k = 2 ^ m := Nat.eq_of_mul_eq_mul_left hset (h.size.symm.trans hsize)
  rw [hm, hsame]

theorem FilledBy.exponent_lt (h : g.FilledBy k) : k < 64 := by
  have hcap := g.sizeBytes.toNat_lt
  have hset : 0 < g.lineBytes.toNat * g.ways.toNat :=
    Nat.mul_pos h.sound.lineBytes_pos h.sound.ways_pos
  have hle : 2 ^ k ≤ g.sizeBytes.toNat := by
    rw [h.size]
    exact Nat.le_mul_of_pos_left _ hset
  exact (Nat.pow_lt_pow_iff_right (show 1 < 2 by omega)).mp (Nat.lt_of_le_of_lt hle hcap)

end Geometry

namespace Cache

variable {g : Geometry} {k : Nat}

/-- A new cache of `2 ^ k` sets. Blocks are lines in the order of their addresses, dealt out to the
sets in turn, and none of them has the mark of a vacant slot. -/
structure LaidOut (g : Geometry) (k : Nat) (c : Cache) : Prop where
  geometry : c.geometry = g
  sets : c.sets.size = 2 ^ k
  slots : c.slots = List.replicate (2 ^ k * g.ways.toNat) Slot.vacant
  bytes : 2 ^ k * g.ways.toNat * g.lineBytes.toNat = g.sizeBytes.toNat
  block : ∀ addr, (g.block addr).toNat = addr.toNat / g.lineBytes.toNat
  real : ∀ addr, g.block addr ≠ Slot.vacantTag
  setOf : ∀ block, c.setOf block = block.toNat % 2 ^ k
  tagShift : 2 ^ c.tagShift = g.lineBytes.toNat * 2 ^ k

theorem laidOut_blank (h : g.FilledBy k) : (blank g (2 ^ k)).LaidOut g k := by
  have hsets := size_blank g (2 ^ k)
  refine ⟨rfl, hsets, ?_, ?_, h.sound.toNat_block, h.sound.block_ne_vacantTag,
    setOf_eq_mod hsets, ?_⟩
  · simp only [slots, blank, Array.toList_replicate, List.flatten_replicate_replicate]
  · rw [h.size]
    ac_rfl
  · rw [tagShift, hsets, trailingZeros_two_pow h.exponent_lt, Nat.pow_add, geometry_blank,
      ← h.sound.lineBytes_eq]

theorem exists_laidOut (h : g.FilledBy k) : ∃ c, empty g = .ok c ∧ c.LaidOut g k := by
  obtain ⟨m, hm, hempty, _⟩ := empty_of_sound h.sound
  have hsame : 2 ^ m = 2 ^ k := Except.ok.inj (hm.symm.trans h.setCount_eq)
  rw [hsame] at hempty
  exact ⟨_, hempty, laidOut_blank h⟩

end Cache

def Level.earlier : Level → List Level
  | .i1 => []
  | .d1 => [.i1]
  | .ll => [.i1, .d1]

theorem HierarchyGeometry.defect?_eq_some {g : HierarchyGeometry} {level : Level}
    {cause : Geometry.Defect} : g.defect? = some (level, cause) ↔
      (g.get level).defect? = some cause ∧
        ∀ other ∈ level.earlier, (g.get other).defect? = none := by
  simp only [defect?, List.findSome?_cons, List.findSome?_nil]
  cases hi1 : (g.get .i1).defect? with
  | some a => cases level <;> simp [Level.earlier, hi1]
  | none =>
    cases hd1 : (g.get .d1).defect? with
    | some a => cases level <;> simp [Level.earlier, hi1, hd1]
    | none =>
      cases hll : (g.get .ll).defect? with
      | some a => cases level <;> simp [Level.earlier, hi1, hd1, hll]
      | none => cases level <;> simp [Level.earlier, hi1, hd1, hll]

/-- The check lets through just the geometries that can be simulated, and the caches built of these
work with the same numbers. A hierarchy has the defect of the first of its levels that has one. -/
theorem Geometry.sound_iff_filledBy (g : Geometry) (h : HierarchyGeometry) :
    (g.Sound ↔ ∃ k, g.FilledBy k) ∧
    (∀ k, g.FilledBy k → g.setCount = .ok (2 ^ k) ∧ ∃ c, Cache.empty g = .ok c ∧ c.LaidOut g k) ∧
    (h.Sound ↔ ∀ level, (h.get level).Sound) ∧
    ∀ level cause, h.defect? = some (level, cause) ↔ (h.get level).defect? = some cause ∧
      ∀ other ∈ level.earlier, (h.get other).defect? = none :=
  ⟨sound_iff_exists_filledBy, fun _ hk => ⟨hk.setCount_eq, Cache.exists_laidOut hk⟩,
    HierarchyGeometry.sound_iff, fun _ _ => HierarchyGeometry.defect?_eq_some⟩

theorem Geometry.sound_iff_filledBy_three_ways :
    FilledBy 54 ⟨0xC000000000000000, 3, 256⟩ ∧ Geometry.Sound ⟨0xC000000000000000, 3, 256⟩ ∧
    setCount ⟨0xC000000000000000, 3, 256⟩ = .ok (2 ^ 54) ∧
    (∃ c, Cache.empty ⟨0xC000000000000000, 3, 256⟩ = .ok c ∧
      c.LaidOut ⟨0xC000000000000000, 3, 256⟩ 54) ∧
    HierarchyGeometry.defect? ⟨⟨64, 2, 16⟩, ⟨96, 2, 16⟩, ⟨0, 2, 16⟩⟩ =
      some (.d1, .setsNotPowerOfTwo 3) := by
  -- A capacity near the top of 64 bits in three ways, and a hierarchy with defects at two levels.
  have hfilled : FilledBy 54 ⟨0xC000000000000000, 3, 256⟩ :=
    ⟨by decide, by decide, by decide⟩
  obtain ⟨hsound, hbuilt, _, hfirst⟩ := sound_iff_filledBy ⟨0xC000000000000000, 3, 256⟩
    ⟨⟨64, 2, 16⟩, ⟨96, 2, 16⟩, ⟨0, 2, 16⟩⟩
  obtain ⟨hsets, hcache⟩ := hbuilt 54 hfilled
  exact ⟨hfilled, hsound.mpr ⟨54, hfilled⟩, hsets, hcache,
    (hfirst .d1 (.setsNotPowerOfTwo 3)).mpr ⟨by decide, by decide⟩⟩

end CacheUsage
