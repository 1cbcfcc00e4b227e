import CacheUsage.Geometry.Defect
import CacheUsage.Proofs.Effects
import Mathlib.Algebra.Order.Ring.Nat
import Mathlib.Tactic.Common

namespace CacheUsage

theorem trailingZeros_two_pow {k : Nat} (hk : k < 64) : trailingZeros (2 ^ k) = k := by
  have hlen : k < (List.range 64).length := by simpa using hk
  refine (List.findIdx_eq hlen).mpr ⟨?_, ?_⟩
  · simp
  · intro j hj
    have hne : k ≠ j := by omega
    simp [hne]

theorem UsableLine.pos {line : UInt64} (h : UsableLine line) : 0 < line.toNat :=
  Nat.pos_of_isPowerOfTwo h.1

theorem UsableLine.exists_eq {line : UInt64} (h : UsableLine line) :
    ∃ k ≤ 8, line.toNat = 2 ^ k := by
  obtain ⟨⟨k, hk⟩, hmost⟩ := h
  rw [hk] at hmost
  exact ⟨k, (Nat.pow_le_pow_iff_right (show 1 < 2 by omega)).mp hmost, hk⟩

namespace UsableLine

variable {g : Geometry}

theorem lineBits_le (h : UsableLine g.lineBytes) : g.lineBits ≤ 8 := by
  obtain ⟨k, hhigh, hk⟩ := h.exists_eq
  rw [Geometry.lineBits, hk, trailingZeros_two_pow (by omega)]
  exact hhigh

theorem lineBytes_eq (h : UsableLine g.lineBytes) : g.lineBytes.toNat = 2 ^ g.lineBits := by
  obtain ⟨k, hhigh, hk⟩ := h.exists_eq
  rw [Geometry.lineBits, hk, trailingZeros_two_pow (by omega)]

theorem toNat_block (h : UsableLine g.lineBytes) (addr : UInt64) :
    (g.block addr).toNat = addr.toNat / g.lineBytes.toNat := by
  have hbits := h.lineBits_le
  have hmod : g.lineBits % 2 ^ 64 % 64 = g.lineBits := by omega
  rw [Geometry.block, UInt64.toNat_shiftRight, Nat.toUInt64_eq, UInt64.toNat_ofNat', hmod,
    Nat.shiftRight_eq_div_pow, h.lineBytes_eq]

end UsableLine

namespace Geometry

variable {g : Geometry}

theorem setCount_eq_ok {n : Nat} : g.setCount = .ok n ↔ g.lineBytes.toNat ≠ 0 ∧
    g.ways.toNat ≠ 0 ∧ g.sizeBytes.toNat / g.lineBytes.toNat / g.ways.toNat = n := by
  simp only [setCount, except_bind_eq_ok, Checked.quotient_eq_ok]
  constructor
  · intro h'
    obtain ⟨lines, ⟨hline, rfl⟩, hways, hn⟩ := h'
    exact ⟨hline, hways, hn⟩
  · intro h'
    obtain ⟨hline, hways, hn⟩ := h'
    exact ⟨_, ⟨hline, rfl⟩, hways, hn⟩

theorem sound_iff_checks : g.Sound ↔ 0 < g.sizeBytes.toNat ∧ 0 < g.ways.toNat ∧
    UsableLine g.lineBytes ∧ minLineBytes ≤ g.lineBytes.toNat ∧
    g.sizeBytes.toNat % (g.lineBytes.toNat * g.ways.toNat) = 0 ∧
    (g.sizeBytes.toNat / (g.lineBytes.toNat * g.ways.toNat)).isPowerOfTwo := by
  have hsize : g.sizeBytes.toNat < Checked.limit := g.sizeBytes.toNat_lt
  simp only [Sound, defect?, ite_eq_iff, reduceCtorEq, and_false, false_or, not_not, not_or,
    and_true, UsableLine, Nat.not_lt, ne_eq]
  constructor
  · intro h'
    obtain ⟨h1, h2, _, h4, h5, h6, ⟨_, h7⟩, h8⟩ := h'
    exact ⟨by omega, by omega, ⟨h4, h6⟩, h5, h7, h8⟩
  · intro h'
    obtain ⟨h1, h2, ⟨h4, h6⟩, h5, h7, h8⟩ := h'
    have hle := Nat.le_of_dvd h1 (Nat.dvd_of_mod_eq_zero h7)
    have hpos := Nat.pos_of_isPowerOfTwo h4
    exact ⟨by omega, by omega, by omega, h4, h5, h6, ⟨by omega, h7⟩, h8⟩

/-- Lines are a power of two from 16 to 256 bytes, and a power of two of sets fills the capacity. -/
theorem sound_iff : g.Sound ↔ 0 < g.ways.toNat ∧
    (∃ k, 4 ≤ k ∧ k ≤ 8 ∧ g.lineBytes.toNat = 2 ^ k) ∧
    ∃ m, g.sizeBytes.toNat = g.lineBytes.toNat * g.ways.toNat * 2 ^ m := by
  rw [sound_iff_checks]
  constructor
  · intro h'
    obtain ⟨_, hways, ⟨⟨k, hk⟩, hmost⟩, hleast, hmod, m, hm⟩ := h'
    simp only [maxLineBytes, wordBytes, WordMap.capacity, hk] at hmost
    simp only [minLineBytes, hk] at hleast
    have hlow : 4 ≤ k := (Nat.pow_le_pow_iff_right (show 1 < 2 by omega)).mp hleast
    have hhigh : k ≤ 8 := (Nat.pow_le_pow_iff_right (show 1 < 2 by omega)).mp hmost
    refine ⟨hways, ⟨k, hlow, hhigh, hk⟩, m, ?_⟩
    rw [← hm]
    exact (Nat.mul_div_cancel' (Nat.dvd_of_mod_eq_zero hmod)).symm
  · intro h'
    obtain ⟨hways, ⟨k, hlow, hhigh, hk⟩, m, hm⟩ := h'
    have hleast : 2 ^ 4 ≤ g.lineBytes.toNat := by
      rw [hk]
      exact Nat.pow_le_pow_right (by omega) hlow
    have hmost : g.lineBytes.toNat ≤ 2 ^ 8 := by
      rw [hk]
      exact Nat.pow_le_pow_right (by omega) hhigh
    have hset : 0 < g.lineBytes.toNat * g.ways.toNat := Nat.mul_pos (by omega) hways
    refine ⟨?_, hways, ⟨⟨k, hk⟩, hmost⟩, hleast, ?_, m, ?_⟩
    · rw [hm]
      exact Nat.mul_pos hset (Nat.two_pow_pos m)
    · rw [hm, Nat.mul_mod_right]
    · rw [hm, Nat.mul_div_cancel_left _ hset]

namespace Sound

theorem ways_pos (h : g.Sound) : 0 < g.ways.toNat := (sound_iff.mp h).1

theorem usableLine (h : g.Sound) : UsableLine g.lineBytes := (sound_iff_checks.mp h).2.2.1

theorem minLineBytes_le (h : g.Sound) : minLineBytes ≤ g.lineBytes.toNat :=
  (sound_iff_checks.mp h).2.2.2.1

theorem lineBytes_pos (h : g.Sound) : 0 < g.lineBytes.toNat := h.usableLine.pos

theorem lineBytes_eq (h : g.Sound) : g.lineBytes.toNat = 2 ^ g.lineBits := h.usableLine.lineBytes_eq

theorem setCount_eq (h : g.Sound) : ∃ m, g.setCount = .ok (2 ^ m) ∧
    g.sizeBytes.toNat = g.lineBytes.toNat * g.ways.toNat * 2 ^ m := by
  obtain ⟨hways, _, m, hm⟩ := sound_iff.mp h
  have hline := h.lineBytes_pos
  refine ⟨m, setCount_eq_ok.mpr ⟨by omega, by omega, ?_⟩, hm⟩
  rw [hm, Nat.mul_assoc, Nat.mul_div_cancel_left _ hline, Nat.mul_div_cancel_left _ hways]

theorem toNat_block (h : g.Sound) (addr : UInt64) :
    (g.block addr).toNat = addr.toNat / g.lineBytes.toNat := h.usableLine.toNat_block addr

theorem toNat_blockStart (h : g.Sound) (addr : UInt64) :
    (g.blockStart (g.block addr)).toNat = addr.toNat / g.lineBytes.toNat * g.lineBytes.toNat := by
  have hbits := h.usableLine.lineBits_le
  have hmod : g.lineBits % 2 ^ 64 % 64 = g.lineBits := by omega
  have hle := Nat.div_mul_le_self addr.toNat g.lineBytes.toNat
  have haddr := addr.toNat_lt
  rw [blockStart, UInt64.toNat_shiftLeft, h.toNat_block, Nat.toUInt64_eq, UInt64.toNat_ofNat', hmod,
    Nat.shiftLeft_eq, ← h.lineBytes_eq]
  exact Nat.mod_eq_of_lt (by omega)

/-- Blocks are far below the mark of a vacant slot. -/
theorem block_lt (h : g.Sound) (addr : UInt64) : (g.block addr).toNat < 2 ^ 60 := by
  have haddr := addr.toNat_lt
  have hmin := h.minLineBytes_le
  rw [h.toNat_block]
  exact Nat.div_lt_of_lt_mul (by simp only [minLineBytes] at hmin; omega)

end Sound

end Geometry

end CacheUsage
