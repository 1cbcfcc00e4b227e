import CacheUsage.Proofs.Coverage
import CacheUsage.Proofs.Effects
import Mathlib.Algebra.Order.Floor.Div

namespace CacheUsage

theorem countP_range_interval (a b n : Nat) :
    (List.range n).countP (fun w => decide (a ≤ w ∧ w < b)) = min b n - a := by
  induction n with
  | zero => simp
  | succ n ih =>
    rw [List.range_succ, List.countP_append, ih, List.countP_singleton]
    simp only [decide_eq_true_eq]
    split_ifs <;> omega

/-- The coverage of `len` bytes from byte `offset` of a line of `line` bytes, said byte by byte. -/
structure Coverage.Exact (offset len line : Nat) (c : Coverage) : Prop where
  words : ∀ w, c.words.getLsbD w = true ↔
    ∃ i, offset ≤ i ∧ i < min (offset + len) line ∧ i / wordBytes = w
  excess : (c.excess : Int) = max ((offset : Int) + len - line) 0
  count : 0 < len →
    c.words.count + offset / wordBytes = min (offset + len) line ⌈/⌉ wordBytes
  below : c.words.Below (max (line / wordBytes) 1)

theorem UsableLine.and_mask {line : UInt64} (h : UsableLine line) (n : Nat) :
    n &&& (line.toNat - 1) = n % line.toNat := by
  obtain ⟨k, hk⟩ := h.1
  rw [hk, Nat.and_two_pow_sub_one_eq_mod]

namespace Checked

def shift (places : Nat) : Except Fault Nat :=
  if places < WordMap.capacity then .ok places else .error .arithmeticOverflow

def cut (stop line : Nat) : Except Fault (Nat × Nat) :=
  if line < stop then do
    let excess ← difference stop line
    return (line, excess)
  else return (stop, 0)

def wordsBetween (offset stop : Nat) : Except Fault WordMap := do
  let final ← difference stop 1
  let unused ← difference 63 (final / wordBytes)
  let down ← shift unused
  let up ← shift (offset / wordBytes)
  return (BitVec.allOnes 64 >>> down) &&& (BitVec.allOnes 64 <<< up)

/-- The coverage in steps that are checked one by one, where a mask finds the offset. -/
def coverage (addr len line : UInt64) : Except Fault Coverage :=
  if ¬ UsableLine line then .error (.precondition .line)
  else if len = 0 then .ok ⟨0, 0⟩
  else do
    let offset := addr.toNat &&& (← difference line.toNat 1)
    let stop ← sum offset len.toNat
    let (inside, excess) ← cut stop line.toNat
    let words ← wordsBetween offset inside
    return ⟨words, excess⟩

theorem shift_eq_ok {places : Nat} (h : places < 64) : shift places = .ok places := if_pos h

theorem cut_eq (stop line : Nat) : cut stop line = .ok (min stop line, stop - line) := by
  unfold cut
  split_ifs with h
  · rw [difference_eq_ok.mpr (show stop = stop - line + line by omega), Nat.min_eq_right (by omega)]
    rfl
  · rw [Nat.min_eq_left (by omega), Nat.sub_eq_zero_of_le (by omega)]
    rfl

theorem wordsBetween_eq {offset stop : Nat} (hlt : offset < stop) (hmost : stop ≤ 256) :
    wordsBetween offset stop =
      .ok (.between (offset / wordBytes) ((stop - 1) / wordBytes)) := by
  simp only [wordsBetween, wordBytes]
  refine except_bind_eq_ok.mpr ⟨stop - 1, difference_eq_ok.mpr (by omega), ?_⟩
  refine except_bind_eq_ok.mpr
    ⟨63 - (stop - 1) / 4, difference_eq_ok.mpr (by omega), ?_⟩
  refine except_bind_eq_ok.mpr ⟨_, shift_eq_ok (by omega), ?_⟩
  exact except_bind_eq_ok.mpr ⟨_, shift_eq_ok (by omega), rfl⟩

/-- No difference and no shift of the coverage leaves its range. -/
theorem coverage_eq (addr len line : UInt64) :
    coverage addr len line = CacheUsage.coverage addr len line := by
  unfold coverage CacheUsage.coverage
  by_cases hline : UsableLine line
  · by_cases hlen : len = 0
    · simp only [hline, hlen, not_true_eq_false, ↓reduceIte]
    · have hoff := Nat.mod_lt addr.toNat hline.pos
      have hmost : line.toNat ≤ 256 := hline.2
      have hpos : 0 < len.toNat := Nat.pos_of_ne_zero fun h => hlen (UInt64.toNat_inj.mp h)
      have hmask := difference_eq_ok.mpr (show line.toNat = line.toNat - 1 + 1 by omega)
      simp only [hline, hlen, not_true_eq_false, ↓reduceIte, hmask]
      change (sum (addr.toNat &&& (line.toNat - 1)) len.toNat >>= _) = _
      rw [hline.and_mask]
      cases hsum : sum (addr.toNat % line.toNat) len.toNat with
      | error fault => rfl
      | ok stop =>
        obtain ⟨rfl, _⟩ := sum_eq_ok.mp hsum
        have hinside : addr.toNat % line.toNat <
            min (addr.toNat % line.toNat + len.toNat) line.toNat := by omega
        have hwords := wordsBetween_eq hinside (by omega)
        change (cut _ _ >>= _) = _
        rw [cut_eq]
        change (wordsBetween _ _ >>= _) = _
        rw [hwords]
        rfl
  · simp only [hline, not_false_eq_true, ↓reduceIte]

end Checked

theorem WordMap.count_eq {m : WordMap} {offset stop : Nat} (hlt : offset < stop)
    (hmost : stop ≤ 256)
    (h : ∀ w, m.getLsbD w = true ↔ ∃ i, offset ≤ i ∧ i < stop ∧ i / wordBytes = w) :
    m.count + offset / wordBytes = stop ⌈/⌉ wordBytes := by
  simp only [wordBytes] at h ⊢
  have hbits : m.getLsbD = fun w => decide (offset / 4 ≤ w ∧ w < (stop + 3) / 4) := by
    funext w
    rw [Bool.eq_iff_iff, h, decide_eq_true_iff]
    constructor
    · intro h'
      obtain ⟨i, hi, hstop, rfl⟩ := h'
      omega
    · intro h'
      exact ⟨max offset (4 * w), by omega, by omega, by omega⟩
  rw [count, hbits, countP_range_interval, Nat.ceilDiv_eq_add_pred_div, capacity]
  omega

theorem WordMap.below_of_bytes {m : WordMap} {stop k : Nat} (hmost : stop ≤ 2 ^ k)
    (h : ∀ w, m.getLsbD w = true → ∃ i < stop, i / wordBytes = w) :
    m.Below (max (2 ^ k / wordBytes) 1) := by
  intro w hw
  obtain ⟨i, hi, rfl⟩ := h w hw
  simp only [wordBytes]
  -- Lines of one and two bytes are narrower than a word; all others are whole words.
  rcases k with _ | _ | k
  · omega
  · omega
  · rw [Nat.pow_add] at hmost ⊢
    omega

/-- Bytes on a line are covered exactly, in checked steps, unless their end leaves 64 bits. -/
theorem coverage_exact {line : UInt64} (hpow : line.toNat.isPowerOfTwo) (hmost : line.toNat ≤ 256)
    (addr len : UInt64) :
    (addr.toNat % line.toNat + len.toNat < Checked.limit → ∃ c, coverage addr len line = .ok c ∧
      c.Exact (addr.toNat % line.toNat) len.toNat line.toNat) ∧
    (0 < len.toNat → (coverage addr len line = .error .arithmeticOverflow ↔
      Checked.limit ≤ addr.toNat % line.toNat + len.toNat)) ∧
    Checked.coverage addr len line = coverage addr len line := by
  have hline : UsableLine line := ⟨hpow, hmost⟩
  have hoff := Nat.mod_lt addr.toNat hline.pos
  refine ⟨?_, ?_, Checked.coverage_eq addr len line⟩
  · intro hsum
    obtain ⟨c, hc, hexcess, hwords⟩ := coverage_eq_ok hline hsum
    refine ⟨c, hc, hwords, by omega, ?_, ?_⟩
    · intro hpos
      exact WordMap.count_eq (by omega) (by omega) hwords
    · obtain ⟨k, hk⟩ := hpow
      have hend : min (addr.toNat % line.toNat + len.toNat) line.toNat ≤ 2 ^ k := by omega
      rw [hk]
      refine WordMap.below_of_bytes hend fun w hw => ?_
      obtain ⟨i, _, hstop, hi⟩ := (hwords w).mp hw
      exact ⟨i, hstop, hi⟩
  · intro hpos
    have hlen : len ≠ 0 := by
      intro h
      simp [h] at hpos
    constructor
    · intro herror
      by_contra hsum
      obtain ⟨c, hc, _⟩ := coverage_eq_ok hline (Nat.not_le.mp hsum)
      cases herror.symm.trans hc
    · intro hsum
      have hover : Checked.sum (addr.toNat % line.toNat) len.toNat = .error .arithmeticOverflow :=
        if_neg (Nat.not_lt.mpr hsum)
      simp only [coverage, hline, hlen, not_true_eq_false, ↓reduceIte, hover]
      rfl

theorem coverage_exact_two_bytes : (2 : UInt64).toNat.isPowerOfTwo ∧ (2 : UInt64).toNat ≤ 256 ∧
    (∃ c, coverage 7 3 2 = .ok c ∧ c.Exact 1 3 2) ∧
    coverage 7 0xFFFFFFFFFFFFFFFF 2 = .error .arithmeticOverflow := by
  have hpow : (2 : UInt64).toNat.isPowerOfTwo := ⟨1, rfl⟩
  have hmost : (2 : UInt64).toNat ≤ 256 := by decide
  exact ⟨hpow, hmost, (coverage_exact hpow hmost 7 3).1 (by decide),
    ((coverage_exact hpow hmost 7 0xFFFFFFFFFFFFFFFF).2.1 (by decide)).mpr (by decide)⟩

end CacheUsage
