import CacheUsage.Proofs.SoundGeometry
import CacheUsage.Slot
import CacheUsage.Touch

namespace CacheUsage

/-- At most sixteen bytes, the last of them inside the address space. An empty span counts as one
byte. -/
structure Span.Fits (s : Span) : Prop where
  narrow : s.size ≤ maxReferenceBytes
  inside : s.addr.toNat + max s.size.toNat 1 - 1 < 2 ^ 64

instance (s : Span) : Decidable s.Fits :=
  decidable_of_iff (s.size ≤ maxReferenceBytes ∧ s.addr.toNat + max s.size.toNat 1 - 1 < 2 ^ 64)
    ⟨fun h => ⟨h.1, h.2⟩, fun h => ⟨h.narrow, h.inside⟩⟩

theorem Span.toNat_size_le {s : Span} (h : s.size ≤ maxReferenceBytes) : s.size.toNat ≤ 16 :=
  UInt8.le_iff_toNat_le.mp h

theorem Span.toNat_last_eq_mod (s : Span) :
    s.last.toNat = (s.addr.toNat + (s.size.toNat - 1)) % 2 ^ 64 := by
  have hsize := s.size.toNat_lt
  have hless : (s.size.toNat - 1) % 2 ^ 64 = s.size.toNat - 1 := Nat.mod_eq_of_lt (by omega)
  rw [Span.last, UInt64.toNat_add, Nat.toUInt64_eq, UInt64.toNat_ofNat', hless]

theorem Span.Fits.toNat_last {s : Span} (h : s.Fits) :
    s.last.toNat = s.addr.toNat + (s.size.toNat - 1) := by
  have hinside := h.inside
  rw [s.toNat_last_eq_mod, Nat.mod_eq_of_lt (by omega)]

namespace UsableLine

variable {g : Geometry}

/-- A line that starts in the address space ends there, for lines divide the whole of it. -/
theorem lineEnd_le (h : UsableLine g.lineBytes) (addr : UInt64) :
    g.lineBytes.toNat * (addr.toNat / g.lineBytes.toNat) + g.lineBytes.toNat ≤ 2 ^ 64 := by
  obtain ⟨k, hhigh, hk⟩ := h.exists_eq
  have hspace : 2 ^ 64 = g.lineBytes.toNat * 2 ^ (64 - k) := by
    rw [hk, ← Nat.pow_add]
    congr 1
    omega
  have hblock : addr.toNat / g.lineBytes.toNat < 2 ^ (64 - k) := by
    refine Nat.div_lt_of_lt_mul ?_
    rw [← hspace]
    exact addr.toNat_lt
  rw [← Nat.mul_succ, hspace]
  exact Nat.mul_le_mul_left _ hblock

theorem block_eq_last_iff (h : UsableLine g.lineBytes) (s : Span) :
    g.block s.addr = g.block s.last ↔
      s.addr.toNat % g.lineBytes.toNat + s.size.toNat ≤ g.lineBytes.toNat := by
  have hlast := s.toNat_last_eq_mod
  have hsize := s.size.toNat_lt
  have haddr := s.addr.toNat_lt
  have hmost : g.lineBytes.toNat ≤ 256 := h.2
  have hoff := Nat.mod_lt s.addr.toNat h.pos
  have hsplit := Nat.div_add_mod s.addr.toNat g.lineBytes.toNat
  rw [← UInt64.toNat_inj, h.toNat_block, h.toNat_block]
  constructor
  · intro hsame
    -- Past the top of the address space the last byte would be far below the first.
    have hoff' := Nat.mod_lt s.last.toNat h.pos
    have hsplit' := Nat.div_add_mod s.last.toNat g.lineBytes.toNat
    rw [← hsame] at hsplit'
    omega
  · intro hin
    have hend := h.lineEnd_le s.addr
    symm
    refine Nat.div_eq_of_lt_le ?_ ?_
    · rw [Nat.mul_comm]
      omega
    · rw [Nat.mul_comm, Nat.mul_succ]
      omega

end UsableLine

namespace Geometry

def blocks (g : Geometry) (s : Span) : List UInt64 :=
  if g.block s.addr = g.block s.last then [g.block s.addr]
  else [g.block s.addr, g.block s.last]

def lineWords (g : Geometry) : Nat := g.lineBytes.toNat / wordBytes

variable {g : Geometry} {s : Span}

theorem nodup_blocks (g : Geometry) (s : Span) : (g.blocks s).Nodup := by
  unfold blocks
  split
  next => simp
  next hne => simpa using hne

theorem exists_blocks_eq_concat (g : Geometry) (s : Span) :
    ∃ blocks, g.blocks s = blocks ++ [g.block s.last] := by
  unfold blocks
  split
  next heq => exact ⟨[], by rw [heq]; rfl⟩
  next => exact ⟨[g.block s.addr], rfl⟩

theorem Sound.lineWords_mul (h : g.Sound) : 4 * g.lineWords = g.lineBytes.toNat := by
  obtain ⟨_, ⟨k, hlow, _, hk⟩, _⟩ := sound_iff.mp h
  have hdvd : 2 ^ 2 ∣ g.lineBytes.toNat := by
    rw [hk]
    exact Nat.pow_dvd_pow 2 (by omega)
  exact Nat.mul_div_cancel' hdvd

theorem Sound.lineWords_pos (h : g.Sound) : 0 < g.lineWords := by
  have := h.lineWords_mul
  have := h.lineBytes_pos
  omega

theorem Sound.lineWords_le (h : g.Sound) : g.lineWords ≤ WordMap.capacity := by
  have hmul := h.lineWords_mul
  have hmost : g.lineBytes.toNat ≤ 256 := h.usableLine.2
  simp only [WordMap.capacity]
  omega

/-- A short span ends in the block where it starts or in the next one. -/
theorem Sound.toNat_block_last (h : g.Sound) (hs : s.Fits) :
    (g.block s.last).toNat = (g.block s.addr).toNat +
      if s.addr.toNat % g.lineBytes.toNat + (s.size.toNat - 1) < g.lineBytes.toNat
      then 0 else 1 := by
  have hsize := Span.toNat_size_le hs.narrow
  have hmin := h.minLineBytes_le
  have hoff := Nat.mod_lt s.addr.toNat h.lineBytes_pos
  have hsplit := Nat.div_add_mod s.addr.toNat g.lineBytes.toNat
  simp only [minLineBytes] at hmin
  rw [h.toNat_block, h.toNat_block, hs.toNat_last]
  split_ifs with hin
  · refine Nat.div_eq_of_lt_le ?_ ?_
    · rw [Nat.add_zero, Nat.mul_comm]
      omega
    · rw [Nat.add_zero, Nat.add_mul, Nat.mul_comm]
      omega
  · refine Nat.div_eq_of_lt_le ?_ ?_
    · rw [Nat.add_mul, Nat.mul_comm]
      omega
    · rw [Nat.add_mul, Nat.add_mul, Nat.mul_comm]
      omega

theorem Sound.block_eq_last_iff (h : g.Sound) (s : Span) : g.block s.addr = g.block s.last ↔
    s.addr.toNat % g.lineBytes.toNat + (s.size.toNat - 1) < g.lineBytes.toNat := by
  have hoff := Nat.mod_lt s.addr.toNat h.lineBytes_pos
  rw [h.usableLine.block_eq_last_iff]
  omega

theorem Sound.toNat_block_last_of_ne (h : g.Sound) (hs : s.Fits)
    (htwo : g.block s.addr ≠ g.block s.last) :
    (g.block s.last).toNat = (g.block s.addr).toNat + 1 := by
  have hlast := h.toNat_block_last hs
  rwa [if_neg (mt (h.block_eq_last_iff s).mpr htwo)] at hlast

theorem Sound.block_add_one (h : g.Sound) (hs : s.Fits)
    (htwo : g.block s.addr ≠ g.block s.last) : g.block s.addr + 1 = g.block s.last := by
  have hlow := h.block_lt s.addr
  apply UInt64.toNat_inj.mp
  rw [UInt64.toNat_add, h.toNat_block_last_of_ne hs htwo, UInt64.toNat_one]
  omega

theorem Sound.block_ne_vacantTag (h : g.Sound) (addr : UInt64) :
    g.block addr ≠ Slot.vacantTag := by
  intro heq
  have hlt := h.block_lt addr
  rw [heq] at hlt
  exact absurd hlt (by decide)

theorem mem_blocks {block : UInt64} :
    block ∈ g.blocks s ↔ block = g.block s.addr ∨ block = g.block s.last := by
  unfold blocks
  split
  next heq => simp [← heq]
  next => simp

theorem Sound.ne_vacantTag_of_mem_blocks (h : g.Sound) {block : UInt64}
    (hb : block ∈ g.blocks s) : block ≠ Slot.vacantTag := by
  rcases mem_blocks.mp hb with rfl | rfl
  · exact h.block_ne_vacantTag s.addr
  · exact h.block_ne_vacantTag s.last

theorem Sound.lt_of_mem_blocks (h : g.Sound) {block : UInt64} (hb : block ∈ g.blocks s) :
    block.toNat < 2 ^ 60 := by
  rcases mem_blocks.mp hb with rfl | rfl
  · exact h.block_lt s.addr
  · exact h.block_lt s.last

theorem Sound.block_last_of_wrap (h : g.Sound) (hsize : s.size ≤ maxReferenceBytes)
    (hwrap : 2 ^ 64 ≤ s.addr.toNat + max s.size.toNat 1 - 1) :
    g.block s.last = 0 ∧ 0 < (g.block s.addr).toNat := by
  have hnarrow := Span.toNat_size_le hsize
  have hmin := h.minLineBytes_le
  have hmost : g.lineBytes.toNat ≤ 256 := h.usableLine.2
  have haddr := s.addr.toNat_lt
  simp only [minLineBytes] at hmin
  have hlast : s.last.toNat < g.lineBytes.toNat := by
    rw [Span.last, UInt64.toNat_add, Nat.toUInt64_eq, UInt64.toNat_ofNat']
    omega
  refine ⟨?_, ?_⟩
  · apply UInt64.toNat_inj.mp
    rw [h.toNat_block, Nat.div_eq_of_lt hlast, UInt64.toNat_zero]
  · rw [h.toNat_block]
    exact Nat.div_pos (by omega) h.lineBytes_pos

theorem Sound.fits_of_holdsInOneLine (h : g.Sound) (hsize : s.size ≤ maxReferenceBytes)
    (hone : g.holdsInOneLine s = true) : s.Fits := by
  have hin := (h.usableLine.block_eq_last_iff s).mp (by simpa [holdsInOneLine] using hone)
  have hend := h.usableLine.lineEnd_le s.addr
  have hsplit := Nat.div_add_mod s.addr.toNat g.lineBytes.toNat
  have haddr := s.addr.toNat_lt
  exact ⟨hsize, by omega⟩

end Geometry

end CacheUsage
