import CacheUsage.Proofs.Calls

namespace CacheUsage

namespace Span

def front (s : Span) : Span := ⟨s.addr, s.size - 1⟩

def lastByte (s : Span) : Span := ⟨s.last, 1⟩

def bytes (s : Span) : List Span :=
  (List.range s.size.toNat).map fun i => ⟨s.addr + i.toUInt64, 1⟩

variable {s : Span}

theorem toNat_size_front (hpos : 1 ≤ s.size) : s.front.size.toNat = s.size.toNat - 1 :=
  UInt8.toNat_sub_of_le s.size 1 hpos

theorem bytes_eq_of_one (hone : s.size = 1) : s.bytes = [s] := by
  obtain ⟨addr, size⟩ := s
  change size = 1 at hone
  subst hone
  simp [bytes]

theorem bytes_eq_front (hpos : 1 ≤ s.size) : s.bytes = s.front.bytes ++ [s.lastByte] := by
  have hsize : s.size.toNat = s.front.size.toNat + 1 := by
    have := toNat_size_front hpos
    have := UInt8.le_iff_toNat_le.mp hpos
    simp only [UInt8.toNat_one] at this
    omega
  have hlast : s.lastByte = ⟨s.addr + s.front.size.toNat.toUInt64, 1⟩ := by
    rw [toNat_size_front hpos]
    rfl
  rw [bytes, hsize, List.range_succ, List.map_append, hlast]
  rfl

theorem Fits.front (h : s.Fits) (hpos : 1 ≤ s.size) : s.front.Fits := by
  have hfront := toNat_size_front hpos
  have hnarrow := UInt8.le_iff_toNat_le.mp h.narrow
  have hinside := h.inside
  refine ⟨UInt8.le_iff_toNat_le.mpr (by omega), ?_⟩
  rw [hfront]
  change s.addr.toNat + _ - 1 < _
  omega

theorem fits_lastByte (s : Span) : s.lastByte.Fits := by
  have hlast := s.last.toNat_lt
  refine ⟨show (1 : UInt8) ≤ maxReferenceBytes by decide, ?_⟩
  change s.last.toNat + 1 - 1 < _
  omega

theorem fits_of_mem_bytes {b : Span} (hb : b ∈ s.bytes) : b.Fits := by
  obtain ⟨i, _, rfl⟩ := List.mem_map.mp hb
  have haddr := (s.addr + i.toUInt64).toNat_lt
  refine ⟨show (1 : UInt8) ≤ maxReferenceBytes by decide, ?_⟩
  change (s.addr + i.toUInt64).toNat + 1 - 1 < _
  omega

end Span

namespace Geometry

variable {g : Geometry} {s : Span} {block : UInt64} {w : Nat}

theorem blocks_lastByte : g.blocks s.lastByte = [g.block s.last] := by
  simp [blocks, Span.lastByte, Span.last]

theorem coversWord_iff_front (hs : s.Fits) (hpos : 1 ≤ s.size) : g.CoversWord s block w ↔
    g.CoversWord s.front block w ∨ g.CoversWord s.lastByte block w := by
  have hlast : s.lastByte.addr.toNat = s.addr.toNat + (s.size.toNat - 1) := hs.toNat_last
  have hone : s.lastByte.size.toNat = 1 := rfl
  have haddr : s.front.addr = s.addr := rfl
  have hsize : 1 ≤ s.size.toNat := UInt8.le_iff_toNat_le.mp hpos
  simp only [CoversWord, hlast, hone, haddr, Span.toNat_size_front hpos]
  constructor
  · intro h'
    obtain ⟨a, ha, hstop, hword⟩ := h'
    rcases Nat.lt_or_ge a (s.addr.toNat + (s.size.toNat - 1)) with hlt | hge
    · exact Or.inl ⟨a, ha, hlt, hword⟩
    · exact Or.inr ⟨a, hge, by omega, hword⟩
  · intro h'
    rcases h' with ⟨a, ha, hstop, hword⟩ | ⟨a, ha, hstop, hword⟩
    · exact ⟨a, ha, by omega, hword⟩
    · exact ⟨a, by omega, by omega, hword⟩

theorem Sound.getLsbD_of_mem_split_front (h : g.Sound) (hs : s.Fits) (hpos : 1 ≤ s.size)
    {t : Touch} (ht : t ∈ g.split s.front) (hne : t.block ≠ g.block s.last) (w : Nat) :
    t.words.getLsbD w = true ↔ w < g.lineWords ∧ g.CoversWord s t.block w := by
  rw [h.getLsbD_of_mem_split (hs.front hpos) ht w, coversWord_iff_front hs hpos]
  refine and_congr_right fun hw => (or_iff_left ?_).symm
  intro hcovers
  have hmem := h.mem_blocks_of_coversWord s.fits_lastByte hw hcovers
  rw [blocks_lastByte] at hmem
  exact hne (List.mem_singleton.mp hmem)

/-- The last byte is in the block where the rest of the span ends, or the only one in its block. -/
theorem Sound.blocks_eq_front (h : g.Sound) (hs : s.Fits) (hpos : 1 < s.size) :
    g.block s.front.last = g.block s.last ∧ g.blocks s = g.blocks s.front ∨
      g.block s.last ∉ g.blocks s.front ∧ g.blocks s = g.blocks s.front ++ [g.block s.last] := by
  have hone : 1 ≤ s.size := UInt8.le_of_lt hpos
  have hsize : 1 < s.size.toNat := UInt8.lt_iff_toNat_lt.mp hpos
  have hfront := hs.front hone
  have haddr : s.front.addr = s.addr := rfl
  by_cases hsame : g.block s.front.last = g.block s.last
  · refine Or.inl ⟨hsame, ?_⟩
    rw [blocks, blocks, hsame, haddr]
  · have hnear := h.toNat_block_last hfront
    have hfar := h.toNat_block_last hs
    rw [haddr, Span.toNat_size_front hone] at hnear
    have hne : (g.block s.front.last).toNat ≠ (g.block s.last).toNat :=
      fun heq => hsame (UInt64.toNat_inj.mp heq)
    split_ifs at hnear hfar with hin hin'
    · exact absurd (hnear.trans hfar.symm) hne
    · have hstart : g.block s.addr = g.block s.front.last := UInt64.toNat_inj.mp hnear.symm
      have htwo : g.block s.addr ≠ g.block s.last := fun heq => hsame (hstart ▸ heq)
      rw [blocks, blocks, haddr, if_pos hstart, if_neg htwo]
      exact Or.inr ⟨by simpa using Ne.symm htwo, rfl⟩
    · omega
    · exact absurd (hnear.trans hfar.symm) hne

theorem Sound.split_eq_front (h : g.Sound) (hs : s.Fits) (hpos : 1 < s.size) :
    ∃ ts t u, g.split s.front = ts ++ [t] ∧ g.split s.lastByte = [u] ∧
      (u.block = t.block ∧ g.split s = ts ++ [⟨t.block, t.words ||| u.words⟩] ∨
        g.split s = ts ++ [t, u]) := by
  have hone : 1 ≤ s.size := UInt8.le_of_lt hpos
  have hfront := hs.front hone
  have hlast := s.fits_lastByte
  obtain ⟨early, hearly⟩ := exists_blocks_eq_concat g s.front
  obtain ⟨ts, rest, hsplit, hts, hrest⟩ :=
    List.map_eq_append_iff.mp ((h.map_block_split hfront).trans hearly)
  obtain ⟨t, rfl, ht⟩ := List.map_eq_singleton_iff.mp hrest
  obtain ⟨u, hu, hublock⟩ :=
    List.map_eq_singleton_iff.mp ((h.map_block_split hlast).trans blocks_lastByte)
  have huwords := h.getLsbD_of_mem_split hlast (t := u) (by simp [hu])
  refine ⟨ts, t, u, hsplit, hu, ?_⟩
  rcases h.blocks_eq_front hs hpos with ⟨hsame, hblocks⟩ | ⟨hnew, hblocks⟩
  · have htogether : u.block = t.block := hublock.trans (hsame.symm.trans ht.symm)
    refine Or.inl ⟨htogether, h.split_eq hs ?_ ?_⟩
    · rw [hblocks, hearly, ← hts, ← ht]
      simp
    · intro v hv w
      rcases List.mem_append.mp hv with hin | hlastv
      · refine h.getLsbD_of_mem_split_front hs hone (by simp [hsplit, hin]) ?_ w
        have hnodup := nodup_blocks g s.front
        rw [hearly, ← hts, hsame] at hnodup
        have hdisjoint := (List.nodup_append.mp hnodup).2.2
        exact hdisjoint v.block (List.mem_map_of_mem hin) _ (List.mem_singleton.mpr rfl)
      · rw [List.mem_singleton.mp hlastv, BitVec.getLsbD_or, Bool.or_eq_true,
          h.getLsbD_of_mem_split hfront (t := t) (by simp [hsplit]), huwords, htogether,
          coversWord_iff_front hs hone, and_or_left]
  · refine Or.inr (h.split_eq hs ?_ ?_)
    · rw [hblocks, ← h.map_block_split hfront, hsplit, ← hublock]
      simp
    · intro v hv w
      rw [List.append_cons, ← hsplit] at hv
      rcases List.mem_append.mp hv with hin | hlastv
      · refine h.getLsbD_of_mem_split_front hs hone hin ?_ w
        intro heq
        rw [← heq, ← h.map_block_split hfront] at hnew
        exact hnew (List.mem_map_of_mem hin)
      · rw [List.mem_singleton.mp hlastv, huwords, coversWord_iff_front hs hone, hublock]
        refine and_congr_right fun hw => (or_iff_right ?_).symm
        exact fun hcovers => hnew (h.mem_blocks_of_coversWord hfront hw hcovers)

end Geometry

namespace Cache

variable {c new : Cache} {g : Geometry} {s : Span}

namespace Sound

/-- The last byte of a reference may come as a reference of its own. -/
theorem accessed_front (h : c.Sound) (hs : s.Fits) (hpos : 1 < s.size) :
    c.accessed s = (c.accessed s.front).accessed s.lastByte ∧
      c.hits s = (c.hits s.front && (c.accessed s.front).hits s.lastByte) := by
  have hone : 1 ≤ s.size := UInt8.le_of_lt hpos
  obtain ⟨ts, t, u, hfront, hlast, hsplit⟩ := h.geometry.split_eq_front hs hpos
  have hbelow := h.below_split (hs.front hone)
  have hu := h.below_split s.fits_lastByte u (by simp [hlast])
  rw [hfront] at hbelow
  simp only [Cache.accessed, hits, geometry_afterTouches, hfront, hlast]
  have hw := h.wellFormed.afterTouches fun t ht => hbelow t (List.mem_append_left _ ht)
  rcases hsplit with ⟨hblock, hsplit⟩ | hsplit
  · rw [hsplit]
    have hmerge := hw.touched_touched (hbelow t (by simp)) hu hblock
    simp only [afterTouches_append, verdicts_append, afterTouches_cons, afterTouches_nil, verdicts,
      hmerge, hw.holds_touched hblock]
    simp
  · rw [hsplit]
    simp [afterTouches_append, verdicts_append, verdicts, Bool.and_assoc]

theorem accessed_bytes (h : c.Sound) (hs : s.Fits) (hpos : 1 ≤ s.size) :
    c.accessed s = s.bytes.foldl (fun c b => c.accessed b) c ∧
      c.hits s = (c.hitsAll s.bytes).all id := by
  obtain ⟨n, hn⟩ := Nat.exists_eq_add_of_le (UInt8.le_iff_toNat_le.mp hpos)
  induction n generalizing s with
  | zero =>
    have hone : s.size = 1 := UInt8.toNat_inj.mp hn
    rw [Span.bytes_eq_of_one hone]
    simp [hitsAll]
  | succ n ih =>
    have htwo : 1 < s.size := UInt8.lt_iff_toNat_lt.mpr (by omega)
    have hsize := Span.toNat_size_front hpos
    have hfront : 1 ≤ s.front.size := UInt8.le_iff_toNat_le.mpr (by omega)
    obtain ⟨hcache, hverdict⟩ := h.accessed_front hs htwo
    obtain ⟨hcache', hverdict'⟩ := ih (hs.front hpos) hfront (by omega)
    rw [hcache, hverdict, hverdict', hcache', Span.bytes_eq_front hpos, List.foldl_append,
      hitsAll_append, List.all_append]
    simp [hitsAll]

end Sound

/-- A reference is its bytes: one reference for each of them, in the order of the addresses, leaves
the same cache, and the reference hits when they all do. -/
theorem access_eq_accessAll_bytes (hg : g.Sound) (hs : s.Fits) (hpos : 1 ≤ s.size) :
    ∃ new, empty g = .ok new ∧ ∀ c, AccessReachable new c → ∃ hit hits d,
      access s c = .ok hit d ∧ accessAll s.bytes c = .ok hits d ∧ hit = hits.all id := by
  obtain ⟨m, _, hnew, hsound⟩ := empty_of_sound hg
  refine ⟨_, hnew, ?_⟩
  intro c hreach
  have hc := (hreach.soundFor ⟨hsound, rfl⟩).sound
  obtain ⟨hcache, hverdict⟩ := hc.accessed_bytes hs hpos
  refine ⟨_, _, _, hc.access_eq_ok hs, ?_, hverdict⟩
  rw [hcache]
  exact hc.accessAll_eq_ok fun b hb => Span.fits_of_mem_bytes hb

theorem access_eq_accessAll_bytes_one_slot :
    ∃ new, empty ⟨16, 1, 16⟩ = .ok new ∧
      AccessReachable new (residue (access ⟨0x10, 16⟩ new)) ∧ ∃ hit hits d,
      access ⟨0x1C, 8⟩ (residue (access ⟨0x10, 16⟩ new)) = .ok hit d ∧
        accessAll (Span.bytes ⟨0x1C, 8⟩) (residue (access ⟨0x10, 16⟩ new)) = .ok hits d ∧
        hit = hits.all id := by
  -- In a cache of one slot the second line of a reference evicts the first.
  have hg : Geometry.Sound ⟨16, 1, 16⟩ := by decide
  have hs : Span.Fits ⟨0x1C, 8⟩ := by decide
  obtain ⟨new, hnew, hbytes⟩ := access_eq_accessAll_bytes hg hs (by decide)
  have hreach : AccessReachable new (residue (access ⟨0x10, 16⟩ new)) := .access _ .start
  exact ⟨new, hnew, hreach, hbytes _ hreach⟩

end Cache

end CacheUsage
