import CacheUsage.Proofs.SoundGeometry

namespace CacheUsage

namespace WordMap

def Below (m : WordMap) (width : Nat) : Prop := ∀ w, m.getLsbD w = true → w < width

theorem below_zero (width : Nat) : Below 0 width := by
  intro w hw
  simp at hw

theorem Below.or {m n : WordMap} {width : Nat} (hm : m.Below width) (hn : n.Below width) :
    Below (m ||| n) width := by
  intro w hw
  rw [BitVec.getLsbD_or, Bool.or_eq_true] at hw
  exact hw.elim (hm w) (hn w)

theorem below_capacity (m : WordMap) : m.Below capacity := by
  intro w hw
  by_contra hge
  rw [BitVec.getLsbD_of_ge m w (by simp only [capacity] at hge; omega)] at hw
  exact Bool.false_ne_true hw

theorem count_zero : count 0#64 = 0 := by
  simp [count]

theorem Below.count_eq {m : WordMap} {width : Nat} (h : m.Below width) (hw : width ≤ capacity) :
    m.count = (List.range width).countP m.getLsbD := by
  obtain ⟨rest, hrest⟩ := Nat.exists_eq_add_of_le hw
  rw [count, hrest, List.range_add, List.countP_append, List.countP_map, Nat.add_eq_left,
    List.countP_eq_zero]
  intro i _ hi
  have hlt : width + i < width := h _ hi
  omega

theorem Below.count_le {m : WordMap} {width : Nat} (h : m.Below width) (hw : width ≤ capacity) :
    m.count ≤ width := by
  rw [h.count_eq hw]
  simpa using List.countP_le_length (p := m.getLsbD) (l := List.range width)

end WordMap

/-- The coverage is exact: a word is marked when it has one of the bytes inside the line, and the
excess are the bytes past it. -/
theorem coverage_eq_ok {addr len line : UInt64} (hline : UsableLine line)
    (hsum : addr.toNat % line.toNat + len.toNat < Checked.limit) :
    ∃ c, coverage addr len line = .ok c ∧
      c.excess = addr.toNat % line.toNat + len.toNat - line.toNat ∧
      ∀ w, c.words.getLsbD w = true ↔ ∃ i, addr.toNat % line.toNat ≤ i ∧
        i < min (addr.toNat % line.toNat + len.toNat) line.toNat ∧ i / wordBytes = w := by
  have hoff := Nat.mod_lt addr.toNat hline.pos
  have hmost : line.toNat ≤ 256 := hline.2
  by_cases hlen : len = 0
  · have hzero : len.toNat = 0 := by simp [hlen]
    refine ⟨⟨0, 0⟩, by simp [coverage, hline, hlen], by simp only; omega, ?_⟩
    intro w
    constructor
    · intro hw
      simp at hw
    · intro h'
      obtain ⟨i, hi, hstop, _⟩ := h'
      omega
  · have hpos : 0 < len.toNat := by
      rcases Nat.eq_zero_or_pos len.toNat with h | h
      · exact absurd (UInt64.toNat_inj.mp h) hlen
      · exact h
    have hsum' := Checked.sum_eq_ok.mpr ⟨rfl, hsum⟩
    refine ⟨_, by simp only [coverage, hline, hlen, not_true_eq_false, ↓reduceIte, hsum']; rfl,
      rfl, ?_⟩
    intro w
    simp only [wordBytes]
    rw [WordMap.getLsbD_between (by omega), decide_eq_true_iff]
    constructor
    · intro h'
      obtain ⟨hfirst, hlast⟩ := h'
      exact ⟨max (addr.toNat % line.toNat) (4 * w), by omega, by omega, by omega⟩
    · intro h'
      obtain ⟨i, hi, hstop, rfl⟩ := h'
      omega

end CacheUsage
