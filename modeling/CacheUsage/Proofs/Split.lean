import CacheUsage.Proofs.Coverage
import CacheUsage.Proofs.Lines

namespace CacheUsage

namespace Geometry

/-- Some byte of the span is one of the four bytes of a word of a block. -/
def CoversWord (g : Geometry) (s : Span) (block : UInt64) (w : Nat) : Prop :=
  ∃ a, s.addr.toNat ≤ a ∧ a < s.addr.toNat + s.size.toNat ∧
    block.toNat * g.lineBytes.toNat + 4 * w ≤ a ∧ a ≤ block.toNat * g.lineBytes.toNat + 4 * w + 3

def split (g : Geometry) (s : Span) : List Touch := (g.touches s).toOption.getD []

end Geometry

/-- What a fitting span touches: words inside a line, of a block that is no mark for vacancy. -/
structure Touch.Regular (g : Geometry) (t : Touch) : Prop where
  below : t.words.Below g.lineWords
  real : t.block ≠ Slot.vacantTag

theorem Touch.Regular.of_lineBytes_eq {g g' : Geometry} {t : Touch} (h : t.Regular g)
    (hline : g.lineBytes = g'.lineBytes) : t.Regular g' := by
  refine ⟨?_, h.real⟩
  have hbelow := h.below
  rwa [Geometry.lineWords, hline, ← Geometry.lineWords] at hbelow

namespace Geometry

variable {g : Geometry} {s : Span}

theorem touches_eq_of_lineBytes_eq {g' : Geometry} (hline : g.lineBytes = g'.lineBytes) :
    g.touches s = g'.touches s := by
  obtain ⟨size, ways, line⟩ := g
  obtain ⟨size', ways', line'⟩ := g'
  change line = line' at hline
  subst hline
  rfl

theorem Sound.mem_blocks_of_coversWord {block : UInt64} {w : Nat} (h : g.Sound) (hs : s.Fits)
    (hw : w < g.lineWords) (hcovers : g.CoversWord s block w) : block ∈ g.blocks s := by
  obtain ⟨a, ha, hstop, hlow, hhigh⟩ := hcovers
  have hmul := h.lineWords_mul
  have hblock : a / g.lineBytes.toNat = block.toNat := by
    refine Nat.div_eq_of_lt_le (by omega) ?_
    rw [Nat.succ_mul]
    omega
  have hfirst : (g.block s.addr).toNat ≤ block.toNat := by
    rw [h.toNat_block, ← hblock]
    exact Nat.div_le_div_right ha
  have hlast : block.toNat ≤ (g.block s.last).toNat := by
    rw [h.toNat_block, ← hblock, hs.toNat_last]
    exact Nat.div_le_div_right (by omega)
  unfold blocks
  split_ifs with hone
  · rw [← hone] at hlast
    exact List.mem_singleton.mpr (UInt64.toNat_inj.mp (by omega))
  · have hnext := h.toNat_block_last_of_ne hs hone
    rcases Nat.lt_or_ge (g.block s.addr).toNat block.toNat with hlt | hge
    · have heq : block = g.block s.last := UInt64.toNat_inj.mp (by omega)
      simp [heq]
    · have heq : block = g.block s.addr := UInt64.toNat_inj.mp (by omega)
      simp [heq]

theorem Sound.coverage_eq_ok (h : g.Sound) (addr len : UInt64)
    (hsum : addr.toNat % g.lineBytes.toNat + len.toNat < Checked.limit) :
    ∃ c, coverage addr len g.lineBytes = .ok c ∧
      c.excess = addr.toNat % g.lineBytes.toNat + len.toNat - g.lineBytes.toNat ∧
      ∀ w, c.words.getLsbD w = true ↔ w < g.lineWords ∧
        ∃ a, addr.toNat ≤ a ∧ a < addr.toNat + len.toNat ∧
          addr.toNat / g.lineBytes.toNat * g.lineBytes.toNat + 4 * w ≤ a ∧
          a ≤ addr.toNat / g.lineBytes.toNat * g.lineBytes.toNat + 4 * w + 3 := by
  obtain ⟨c, hc, hexcess, hwords⟩ := CacheUsage.coverage_eq_ok h.usableLine hsum
  refine ⟨c, hc, hexcess, fun w => (hwords w).trans ?_⟩
  have hmul := h.lineWords_mul
  have hsplit := Nat.div_add_mod' addr.toNat g.lineBytes.toNat
  simp only [wordBytes]
  constructor
  · intro h'
    obtain ⟨i, hi, hstop, hw⟩ := h'
    exact ⟨by omega, addr.toNat / g.lineBytes.toNat * g.lineBytes.toNat + i, by omega, by omega,
      by omega, by omega⟩
  · intro h'
    obtain ⟨hw, a, ha, hstop, hlow, hhigh⟩ := h'
    exact ⟨a - addr.toNat / g.lineBytes.toNat * g.lineBytes.toNat, by omega, by omega, by omega⟩

theorem Sound.coverage_of_span (h : g.Sound) (s : Span) :
    ∃ c, coverage s.addr s.size.toUInt64 g.lineBytes = .ok c ∧
      c.excess = s.addr.toNat % g.lineBytes.toNat + s.size.toNat - g.lineBytes.toNat ∧
      ∀ w, c.words.getLsbD w = true ↔ w < g.lineWords ∧ g.CoversWord s (g.block s.addr) w := by
  have hoff := Nat.mod_lt s.addr.toNat h.lineBytes_pos
  have hmost : g.lineBytes.toNat ≤ 256 := h.usableLine.2
  have hsize := s.size.toNat_lt
  have hlen : s.size.toUInt64.toNat = s.size.toNat := by simp
  obtain ⟨c, hc, hexcess, hwords⟩ := h.coverage_eq_ok s.addr s.size.toUInt64
    (by rw [Checked.limit]; omega)
  refine ⟨c, hc, ?_, ?_⟩
  · rw [hexcess, hlen]
  · intro w
    rw [hwords w, CoversWord, h.toNat_block, hlen]

theorem Sound.coverage_of_excess (h : g.Sound) (hs : s.Fits)
    (htwo : g.block s.addr ≠ g.block s.last) {excess : Nat}
    (hexcess : excess = s.addr.toNat % g.lineBytes.toNat + s.size.toNat - g.lineBytes.toNat) :
    ∃ c, coverage (g.blockStart (g.block s.last)) excess.toUInt64 g.lineBytes = .ok c ∧
      ∀ w, c.words.getLsbD w = true ↔ w < g.lineWords ∧ g.CoversWord s (g.block s.last) w := by
  have hsize := Span.toNat_size_le hs.narrow
  have hoff := Nat.mod_lt s.addr.toNat h.lineBytes_pos
  have hsplit := Nat.div_add_mod' s.addr.toNat g.lineBytes.toNat
  have hout := mt (h.block_eq_last_iff s).mpr htwo
  have hrest : excess.toUInt64.toNat = excess := by
    rw [Nat.toUInt64_eq, UInt64.toNat_ofNat']
    omega
  have hstart : (g.blockStart (g.block s.last)).toNat =
      (g.block s.last).toNat * g.lineBytes.toNat := by
    rw [h.toNat_blockStart, ← h.toNat_block]
  have hedge : (g.block s.last).toNat * g.lineBytes.toNat =
      s.addr.toNat / g.lineBytes.toNat * g.lineBytes.toNat + g.lineBytes.toNat := by
    rw [h.toNat_block_last_of_ne hs htwo, h.toNat_block, Nat.succ_mul]
  obtain ⟨c, hc, _, hwords⟩ := h.coverage_eq_ok (g.blockStart (g.block s.last))
    excess.toUInt64 (by rw [hstart, Nat.mul_mod_left, hrest, Checked.limit]; omega)
  refine ⟨c, hc, ?_⟩
  intro w
  rw [hwords w, CoversWord, hstart, Nat.mul_div_cancel _ h.lineBytes_pos, hrest]
  constructor
  · intro h'
    obtain ⟨hw, a, ha, hstop, hlow, hhigh⟩ := h'
    exact ⟨hw, a, by omega, by omega, hlow, hhigh⟩
  · intro h'
    obtain ⟨hw, a, ha, hstop, hlow, hhigh⟩ := h'
    exact ⟨hw, a, by omega, by omega, hlow, hhigh⟩

theorem Sound.touches_of_one_line (h : g.Sound) (hs : s.Fits)
    (hone : g.block s.addr = g.block s.last) :
    ∃ words, g.touches s = .ok [⟨g.block s.addr, words⟩] ∧ g.firstTouch s =
      .ok ⟨g.block s.addr, words⟩ ∧
      ∀ w, words.getLsbD w = true ↔ w < g.lineWords ∧ g.CoversWord s (g.block s.addr) w := by
  have hoff := Nat.mod_lt s.addr.toNat h.lineBytes_pos
  have hin := (h.block_eq_last_iff s).mp hone
  obtain ⟨c, hc, hexcess, hwords⟩ := h.coverage_of_span s
  have hwide : ¬ maxReferenceBytes < s.size := UInt8.not_lt.mpr hs.narrow
  have hfit : c.excess = 0 := by omega
  refine ⟨c.words, ?_, ?_, hwords⟩
  · simp only [touches, if_neg hwide, if_pos hone, hc]
    exact if_pos hfit
  · simp only [firstTouch, hc]
    rfl

theorem Sound.touches_of_two_lines (h : g.Sound) (hs : s.Fits)
    (htwo : g.block s.addr ≠ g.block s.last) :
    ∃ first last, g.touches s = .ok [⟨g.block s.addr, first⟩, ⟨g.block s.last, last⟩] ∧
      (∀ w, first.getLsbD w = true ↔ w < g.lineWords ∧ g.CoversWord s (g.block s.addr) w) ∧
      ∀ w, last.getLsbD w = true ↔ w < g.lineWords ∧ g.CoversWord s (g.block s.last) w := by
  have hoff := Nat.mod_lt s.addr.toNat h.lineBytes_pos
  have hout := mt (h.block_eq_last_iff s).mpr htwo
  obtain ⟨c, hc, hexcess, hwords⟩ := h.coverage_of_span s
  obtain ⟨d, hd, hwords'⟩ := h.coverage_of_excess hs htwo hexcess
  have hwide : ¬ maxReferenceBytes < s.size := UInt8.not_lt.mpr hs.narrow
  have hmore : c.excess ≠ 0 := by omega
  refine ⟨c.words, d.words, ?_, hwords, hwords'⟩
  simp only [touches, if_neg hwide, if_neg htwo, if_pos (h.block_add_one hs htwo), hc]
  change (if c.excess = 0 then _ else _) = _
  rw [if_neg hmore, hd]
  rfl

/-- A narrow span past the top of the address space is refused, for its blocks are not next to each
other. -/
theorem Sound.touches_of_wrap (h : g.Sound) (hsize : s.size ≤ maxReferenceBytes)
    (hwrap : 2 ^ 64 ≤ s.addr.toNat + max s.size.toNat 1 - 1) :
    g.touches s = .error (.shape (.beyondNextLine s (g.block s.addr) (g.block s.last))) := by
  obtain ⟨hlast, hfirst⟩ := h.block_last_of_wrap hsize hwrap
  have hlow := h.block_lt s.addr
  have hwide : ¬ maxReferenceBytes < s.size := UInt8.not_lt.mpr hsize
  have hone : g.block s.addr ≠ g.block s.last := by
    intro heq
    rw [heq, hlast] at hfirst
    exact Nat.lt_irrefl 0 hfirst
  have hnext : g.block s.addr + 1 ≠ g.block s.last := by
    intro heq
    have hnat := congrArg UInt64.toNat heq
    rw [UInt64.toNat_add, hlast, UInt64.toNat_one, UInt64.toNat_zero] at hnat
    omega
  simp only [touches, if_neg hwide, if_neg hone, if_neg hnext]

theorem touches_of_wide (hsize : maxReferenceBytes < s.size) :
    g.touches s = .error (.precondition (.width s.size)) := by
  simp only [touches, if_pos hsize]

theorem Sound.fits_of_touches (h : g.Sound) {ts : List Touch} (ht : g.touches s = .ok ts) :
    s.Fits := by
  have hsize : s.size ≤ maxReferenceBytes := by
    by_contra hwide
    rw [touches_of_wide (UInt8.not_le.mp hwide)] at ht
    cases ht
  refine ⟨hsize, ?_⟩
  by_contra hwrap
  rw [h.touches_of_wrap hsize (by omega)] at ht
  cases ht

theorem Sound.touches_eq_split (h : g.Sound) (hs : s.Fits) : g.touches s = .ok (g.split s) := by
  by_cases hone : g.block s.addr = g.block s.last
  · obtain ⟨words, ht, _⟩ := h.touches_of_one_line hs hone
    simp [split, ht, Except.toOption]
  · obtain ⟨first, last, ht, _⟩ := h.touches_of_two_lines hs hone
    simp [split, ht, Except.toOption]

theorem Sound.map_block_split (h : g.Sound) (hs : s.Fits) :
    (g.split s).map Touch.block = g.blocks s := by
  have hsplit := h.touches_eq_split hs
  by_cases hone : g.block s.addr = g.block s.last
  · obtain ⟨words, ht, _⟩ := h.touches_of_one_line hs hone
    rw [← Except.ok.inj (ht.symm.trans hsplit)]
    simp [blocks, hone]
  · obtain ⟨first, last, ht, _⟩ := h.touches_of_two_lines hs hone
    rw [← Except.ok.inj (ht.symm.trans hsplit)]
    simp [blocks, hone]

theorem Sound.block_mem_blocks (h : g.Sound) (hs : s.Fits) {t : Touch} (ht : t ∈ g.split s) :
    t.block ∈ g.blocks s := by
  rw [← h.map_block_split hs]
  exact List.mem_map_of_mem ht

theorem Sound.getLsbD_of_mem_split (h : g.Sound) (hs : s.Fits) {t : Touch} (ht : t ∈ g.split s)
    (w : Nat) :
    t.words.getLsbD w = true ↔ w < g.lineWords ∧ g.CoversWord s t.block w := by
  have hsplit := h.touches_eq_split hs
  by_cases hone : g.block s.addr = g.block s.last
  · obtain ⟨words, heq, _, hwords⟩ := h.touches_of_one_line hs hone
    rw [← Except.ok.inj (heq.symm.trans hsplit), List.mem_singleton] at ht
    subst ht
    exact hwords w
  · obtain ⟨first, last, heq, hfirst, hlast⟩ := h.touches_of_two_lines hs hone
    rw [← Except.ok.inj (heq.symm.trans hsplit), List.mem_cons, List.mem_singleton] at ht
    rcases ht with rfl | rfl
    · exact hfirst w
    · exact hlast w

/-- The split is the only list of touches with the blocks of the span and the words it covers. -/
theorem Sound.split_eq (h : g.Sound) (hs : s.Fits) {ts : List Touch}
    (hblocks : ts.map Touch.block = g.blocks s)
    (hwords : ∀ t ∈ ts, ∀ w, t.words.getLsbD w = true ↔
      w < g.lineWords ∧ g.CoversWord s t.block w) : g.split s = ts := by
  have hmap : (g.split s).map Touch.block = ts.map Touch.block :=
    (h.map_block_split hs).trans hblocks.symm
  apply List.ext_getElem
  · simpa using congrArg List.length hmap
  · intro i hi hi'
    have hblock : (g.split s)[i].block = ts[i].block := by
      simpa [hi, hi'] using congrArg (fun blocks : List UInt64 => blocks[i]?) hmap
    have hleft := h.getLsbD_of_mem_split hs (List.getElem_mem hi)
    have hright := hwords ts[i] (List.getElem_mem hi')
    have hsame : (g.split s)[i].words = ts[i].words := by
      apply BitVec.eq_of_getLsbD_eq
      intro w _
      rw [Bool.eq_iff_iff, hleft w, hright w, hblock]
    cases hl : (g.split s)[i]
    cases hr : ts[i]
    rw [hl, hr] at hblock hsame
    cases hblock
    cases hsame
    rfl

theorem Sound.map_block_flatMap_split {spans : List Span} (h : g.Sound)
    (hs : ∀ s ∈ spans, s.Fits) :
    (spans.flatMap g.split).map Touch.block = spans.flatMap g.blocks := by
  induction spans with
  | nil => rfl
  | cons s spans ih =>
    rw [List.flatMap_cons, List.map_append, h.map_block_split (hs s List.mem_cons_self),
      ih fun r hr => hs r (List.mem_cons_of_mem s hr), List.flatMap_cons]

theorem Sound.regular_of_mem_split (h : g.Sound) (hs : s.Fits) :
    ∀ t ∈ g.split s, t.Regular g := by
  intro t ht
  exact ⟨fun w hw => ((h.getLsbD_of_mem_split hs ht w).mp hw).1,
    h.ne_vacantTag_of_mem_blocks (h.block_mem_blocks hs ht)⟩

theorem Sound.regular_of_touches (h : g.Sound) {ts : List Touch} (ht : g.touches s = .ok ts) :
    ∀ t ∈ ts, t.Regular g := by
  have hs := h.fits_of_touches ht
  have hsplit := h.regular_of_mem_split hs
  rw [← Except.ok.inj (ht.symm.trans (h.touches_eq_split hs))] at hsplit
  exact hsplit

theorem Sound.exists_firstTouch (h : g.Sound) (s : Span) : ∃ t, g.firstTouch s = .ok t := by
  obtain ⟨c, hc, _⟩ := h.coverage_of_span s
  exact ⟨⟨g.block s.addr, c.words⟩, by rw [firstTouch, hc]; rfl⟩

theorem Sound.regular_of_firstTouch (h : g.Sound) {t : Touch} (ht : g.firstTouch s = .ok t) :
    t.Regular g := by
  obtain ⟨c, hc, _, hwords⟩ := h.coverage_of_span s
  simp only [firstTouch, hc] at ht
  cases ht
  exact ⟨fun w hw => ((hwords w).mp hw).1, h.block_ne_vacantTag s.addr⟩

theorem Sound.regular_of_mem_flatMap_split {spans : List Span} (h : g.Sound)
    (hs : ∀ s ∈ spans, s.Fits) : ∀ t ∈ spans.flatMap g.split, t.Regular g := by
  intro t ht
  obtain ⟨s, hmem, hsplit⟩ := List.mem_flatMap.mp ht
  exact h.regular_of_mem_split (hs s hmem) t hsplit

end Geometry

end CacheUsage
