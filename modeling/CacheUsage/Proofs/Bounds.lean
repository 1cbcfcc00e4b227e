import CacheUsage.Proofs.Placement
import CacheUsage.Proofs.Recount
import CacheUsage.Proofs.Refusal

namespace CacheUsage

def Geometry.capacityWords (g : Geometry) : Nat := g.sizeBytes.toNat / wordBytes

def HierarchyGeometry.capacityWords (g : HierarchyGeometry) : Nat :=
  max (max g.i1.capacityWords g.d1.capacityWords) g.ll.capacityWords

theorem HierarchyGeometry.capacityWords_le (g : HierarchyGeometry) (level : Level) :
    (g.get level).capacityWords ≤ g.capacityWords := by
  cases level with
  | i1 => exact Nat.le_trans (Nat.le_max_left _ _) (Nat.le_max_left _ _)
  | d1 => exact Nat.le_trans (Nat.le_max_right _ _) (Nat.le_max_left _ _)
  | ll => exact Nat.le_max_right _ _

theorem Geometry.Sound.setWords_mul {g : Geometry} (h : g.Sound) {sets : Nat}
    (hsets : g.setCount = .ok sets) : sets * g.ways.toNat * g.lineWords = g.capacityWords := by
  obtain ⟨m, hm, hsize⟩ := h.setCount_eq
  have hcount : sets = 2 ^ m := Except.ok.inj (hsets.symm.trans hm)
  have hbytes : g.sizeBytes.toNat = 4 * (sets * g.ways.toNat * g.lineWords) := by
    rw [hsize, ← h.lineWords_mul, hcount]
    ac_rfl
  unfold capacityWords wordBytes
  omega

theorem Geometry.Sound.capacityWords_pos {g : Geometry} (h : g.Sound) : 0 < g.capacityWords := by
  obtain ⟨m, hm, _⟩ := h.setCount_eq
  rw [← h.setWords_mul hm]
  exact Nat.mul_pos (Nat.mul_pos (Nat.two_pow_pos m) h.ways_pos) h.lineWords_pos

namespace Cache

variable {c : Cache}

theorem Sound.wordsInUse_le (h : c.Sound) : c.wordsInUse ≤ c.geometry.capacityWords := by
  have hle := h.wellFormed.recount_le
  rw [← h.wellFormed.wordsInUse_eq, h.geometry.setWords_mul h.wellFormed.setCount_eq] at hle
  exact hle

theorem Sound.below (h : c.Sound) : ∀ slot ∈ c.slots, slot.used.Below c.geometry.lineWords := by
  intro slot hslot
  obtain ⟨set, hset, hin⟩ := mem_slots.mp hslot
  exact h.wellFormed.below set hset slot hin

end Cache

namespace Hierarchy

variable {g : HierarchyGeometry} {h : Hierarchy}

structure Bounded (g : HierarchyGeometry) (h : Hierarchy) : Prop where
  below : ∀ level, ∀ slot ∈ (h.get level).slots, slot.used.Below (g.get level).lineWords
  wordsInUse : ∀ level, (h.get level).wordsInUse ≤ (g.get level).capacityWords

theorem SoundFor.bounded (hsound : SoundFor g h) : h.Bounded g := by
  refine ⟨?_, ?_⟩
  · intro level
    rw [← (hsound level).geometry]
    exact (hsound level).sound.below
  · intro level
    rw [← (hsound level).geometry]
    exact (hsound level).sound.wordsInUse_le

end Hierarchy

namespace Counters

variable {c : Counters} {x : Step} {first last most : Nat}

/-- Each reference has met at most `first` words in the first level, and each first-level miss at
most `last` in the last. -/
structure Bounded (first last : Nat) (c : Counters) : Prop where
  firstWords : c.firstWords ≤ c.references * first
  lastWords : c.lastWords ≤ c.firstMisses * last
  firstMisses : c.firstMisses ≤ c.references
  lastMisses : c.lastMisses ≤ c.firstMisses

theorem bounded_zero : zero.Bounded first last :=
  ⟨Nat.zero_le _, Nat.zero_le _, Nat.le_refl _, Nat.le_refl _⟩

theorem Bounded.tally (h : c.Bounded first last) (hfirst : x.firstWords ≤ first)
    (hlast : x.lastWords ≤ last) : (c.tally x).Bounded first last := by
  obtain ⟨h1, h2, h3, h4⟩ := h
  refine ⟨?_, ?_, ?_, ?_⟩
  · show c.firstWords + x.firstWords ≤ (c.references + 1) * first
    rw [Nat.succ_mul]
    omega
  · show c.lastWords + (if _ then _ else 0) ≤ (c.firstMisses + if _ then 1 else 0) * last
    split_ifs
    · rw [Nat.succ_mul]
      omega
    · exact h2
  · show c.firstMisses + (if _ then 1 else 0) ≤ c.references + 1
    split_ifs <;> omega
  · show c.lastMisses + (if _ then 1 else 0) ≤ c.firstMisses + if _ then 1 else 0
    cases x.served <;> simp [Served.isFirstMiss] <;> omega

theorem Bounded.le_mul (h : c.Bounded first last) (hpos : 0 < most) (hfirst : first ≤ most)
    (hlast : last ≤ most) : c.references ≤ c.references * most ∧
      c.firstMisses ≤ c.references * most ∧ c.lastMisses ≤ c.references * most ∧
      c.firstWords ≤ c.references * most ∧ c.lastWords ≤ c.references * most := by
  obtain ⟨h1, h2, h3, h4⟩ := h
  have hreferences : c.references ≤ c.references * most := Nat.le_mul_of_pos_right _ hpos
  have hwords := Nat.mul_le_mul_left c.references hfirst
  have hmisses : c.firstMisses * last ≤ c.references * most := Nat.mul_le_mul h3 hlast
  omega

end Counters

namespace Stats

variable {s : Stats} {steps : List Step} {first : AccessKind → Nat} {last most : Nat}

theorem get_tallyAll_bounded (first : AccessKind → Nat)
    (h : ∀ kind, (s.get kind).Bounded (first kind) last)
    (hfirst : ∀ x ∈ steps, x.firstWords ≤ first x.reference.kind)
    (hlast : ∀ x ∈ steps, x.lastWords ≤ last) (kind : AccessKind) :
    ((s.tallyAll steps).get kind).Bounded (first kind) last := by
  induction steps generalizing s with
  | nil => exact h kind
  | cons x steps ih =>
    apply ih
    · intro other
      by_cases heq : other = x.reference.kind
      · subst heq
        rw [tally, get_set_self]
        exact (h x.reference.kind).tally (hfirst x List.mem_cons_self) (hlast x List.mem_cons_self)
      · rw [tally, get_set_of_ne s _ heq]
        exact h other
    · exact fun y hy => hfirst y (List.mem_cons_of_mem x hy)
    · exact fun y hy => hlast y (List.mem_cons_of_mem x hy)

theorem inRange_total (h : ∀ kind, (s.get kind).Bounded (first kind) last) (hpos : 0 < most)
    (hfirst : ∀ kind, first kind ≤ most) (hlast : last ≤ most)
    (hroom : (s.fetch.references + (s.read.references + s.write.references)) * most <
      Checked.limit) : (s.fetch.plus (s.read.plus s.write)).InRange := by
  have hfetch := (h .fetch).le_mul hpos (hfirst .fetch) hlast
  have hread := (h .read).le_mul hpos (hfirst .read) hlast
  have hwrite := (h .write).le_mul hpos (hfirst .write) hlast
  rw [Nat.add_mul, Nat.add_mul] at hroom
  simp only [get] at hfetch hread hwrite
  rw [Counters.inRange_iff]
  simp only [Counters.plus]
  omega

theorem InRange.of_total (h : (s.fetch.plus (s.read.plus s.write)).InRange) : s.InRange := by
  obtain ⟨hfetch, hdata⟩ := h.of_plus
  obtain ⟨hread, hwrite⟩ := hdata.of_plus
  intro kind
  cases kind with
  | fetch => exact hfetch
  | read => exact hread
  | write => exact hwrite

theorem InRange.of_total_eq_ok {c : Counters} (h : s.total = .ok c) : s.InRange := by
  obtain ⟨hsum, hin⟩ := total_eq_ok.mp h
  rw [← hsum] at hin
  exact .of_total hin

structure Bounded (g : HierarchyGeometry) (s : Stats) : Prop where
  data : ∃ c, s.data = .ok c
  total : ∃ c, s.total = .ok c
  firstWords : ∀ kind, (s.get kind).firstWords ≤
    (s.get kind).references * (g.get kind.firstLevel).capacityWords
  lastWords : ∀ kind, (s.get kind).lastWords ≤ (s.get kind).firstMisses * g.ll.capacityWords

end Stats

namespace Hierarchy

variable {g : HierarchyGeometry} {h : Hierarchy} {refs : List Reference}

theorem SoundFor.bounded_tallyAll (hsound : SoundFor g h) (hr : ∀ r ∈ refs, r.toSpan.Fits)
    (kind : AccessKind) : ((Stats.zero.tallyAll (h.steps refs)).get kind).Bounded
      (g.get kind.firstLevel).capacityWords g.ll.capacityWords := by
  have hsteps : ∀ x ∈ h.steps refs, x.caches.Bounded g := fun x hx =>
    (hsound.of_mem_steps hr x hx).bounded
  apply Stats.get_tallyAll_bounded fun kind => (g.get kind.firstLevel).capacityWords
  · intro kind
    rw [Stats.get_zero]
    exact Counters.bounded_zero
  · intro x hx
    exact (hsteps x hx).wordsInUse x.reference.kind.firstLevel
  · intro x hx
    exact (hsteps x hx).wordsInUse .ll

theorem SoundFor.inRange_total (hsound : SoundFor g h) (hr : ∀ r ∈ refs, r.toSpan.Fits)
    (hroom : refs.length * g.capacityWords < Checked.limit) :
    ((Stats.zero.tallyAll (h.steps refs)).fetch.plus
      ((Stats.zero.tallyAll (h.steps refs)).read.plus
        (Stats.zero.tallyAll (h.steps refs)).write)).InRange := by
  have hpos : 0 < g.capacityWords :=
    Nat.lt_of_lt_of_le (hsound .ll).sound_geometry.capacityWords_pos (g.capacityWords_le .ll)
  have hcount := Counters.sum_references_recounted (h.steps refs)
  rw [← hsound.get_tallyAll_zero hr, ← hsound.get_tallyAll_zero hr, ← hsound.get_tallyAll_zero hr,
    ← List.length_map Step.reference, map_reference_steps] at hcount
  apply Stats.inRange_total (hsound.bounded_tallyAll hr) hpos
    (fun kind => g.capacityWords_le kind.firstLevel) (g.capacityWords_le .ll)
  rw [← hcount] at hroom
  exact hroom

end Hierarchy

namespace Simulation

variable {g : HierarchyGeometry} {refs : List Reference}

/-- All along a run the words in use stay bounded. A run goes through, with counters that can be
added up, if 64 bits hold the words of the largest level once for each reference. -/
theorem serveAll_bounded (hg : g.Sound) (hr : ∀ r ∈ refs, r.toSpan.Fits) :
    ∃ sim, start g = .ok sim ∧ ∀ past, past <+: refs →
      (residue (serveAll past sim)).caches.Bounded g ∧
      (past.length * g.capacityWords < Checked.limit →
        ∃ served last, serveAll past sim = .ok served last ∧ last.stats.Bounded g) := by
  obtain ⟨new, _, hstart, hsound⟩ := start_of_sound hg
  refine ⟨_, hstart, fun past hpast => ?_⟩
  have hcaches : (Simulation.mk new .zero #[new.built]).caches.SoundFor g := hsound
  have hfit : ∀ r ∈ past, r.toSpan.Fits := fun r hmem => hr r (hpast.subset hmem)
  have hend := serveAll_maintains past _ hcaches
  refine ⟨Hierarchy.SoundFor.bounded hend, fun hroom => ?_⟩
  have htotal := hsound.inRange_total hfit hroom
  have hkinds := hsound.bounded_tallyAll hfit
  refine ⟨_, _, (serveAll_yields hcaches hfit).eq_ok (Stats.InRange.of_total htotal), ?_⟩
  refine ⟨⟨_, Counters.add_eq_ok.mpr ⟨rfl, htotal.of_plus.2⟩⟩,
    ⟨_, Stats.total_eq_ok.mpr ⟨rfl, htotal⟩⟩, ?_, ?_⟩
  · exact fun kind => (hkinds kind).firstWords
  · exact fun kind => (hkinds kind).lastWords

theorem serveAll_bounded_three_kinds :
    HierarchyGeometry.Sound ⟨⟨64, 2, 16⟩, ⟨64, 1, 32⟩, ⟨128, 2, 32⟩⟩ ∧
    (∀ r : Reference, r ∈ [⟨⟨0x1C, 8⟩, .fetch⟩, ⟨⟨0x1C, 8⟩, .read⟩, ⟨⟨0x20, 4⟩, .write⟩] →
      r.toSpan.Fits) ∧
    3 * HierarchyGeometry.capacityWords ⟨⟨64, 2, 16⟩, ⟨64, 1, 32⟩, ⟨128, 2, 32⟩⟩ <
      Checked.limit ∧
    ∃ sim served last, start ⟨⟨64, 2, 16⟩, ⟨64, 1, 32⟩, ⟨128, 2, 32⟩⟩ = .ok sim ∧
      serveAll [⟨⟨0x1C, 8⟩, .fetch⟩, ⟨⟨0x1C, 8⟩, .read⟩, ⟨⟨0x20, 4⟩, .write⟩] sim =
        .ok served last ∧
      last.caches.Bounded ⟨⟨64, 2, 16⟩, ⟨64, 1, 32⟩, ⟨128, 2, 32⟩⟩ ∧
      last.stats.Bounded ⟨⟨64, 2, 16⟩, ⟨64, 1, 32⟩, ⟨128, 2, 32⟩⟩ := by
  have hg : HierarchyGeometry.Sound ⟨⟨64, 2, 16⟩, ⟨64, 1, 32⟩, ⟨128, 2, 32⟩⟩ := by decide
  have hr : ∀ r : Reference, r ∈ [⟨⟨0x1C, 8⟩, .fetch⟩, ⟨⟨0x1C, 8⟩, .read⟩, ⟨⟨0x20, 4⟩, .write⟩] →
      r.toSpan.Fits := by decide
  have hroom : 3 * HierarchyGeometry.capacityWords ⟨⟨64, 2, 16⟩, ⟨64, 1, 32⟩, ⟨128, 2, 32⟩⟩ <
      Checked.limit := by decide
  obtain ⟨sim, hstart, hall⟩ := serveAll_bounded hg hr
  obtain ⟨hcaches, hrun⟩ := hall _ List.prefix_rfl
  obtain ⟨served, last, hserve, hstats⟩ := hrun hroom
  rw [hserve] at hcaches
  exact ⟨hg, hr, hroom, sim, served, last, hstart, hserve, hcaches, hstats⟩

end Simulation

end CacheUsage
