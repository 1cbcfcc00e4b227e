import CacheUsage.Proofs.Passage

namespace CacheUsage

theorem HierarchyGeometry.sound_iff {g : HierarchyGeometry} :
    g.Sound ↔ ∀ level, (g.get level).Sound := by
  rw [Sound, defect?, List.findSome?_eq_none_iff]
  constructor
  · intro h level
    have hmem : level ∈ [Level.i1, .d1, .ll] := by cases level <;> decide
    exact Option.map_eq_none_iff.mp (h level hmem)
  · intro h level _
    exact Option.map_eq_none_iff.mpr (h level)

namespace Hierarchy

variable {g : HierarchyGeometry} {h : Hierarchy}

theorem empty_eq_ok : empty g = .ok h ↔ ∀ level, Cache.empty (g.get level) = .ok (h.get level) := by
  simp only [empty, except_bind_eq_ok]
  constructor
  · intro hempty
    obtain ⟨i1, hi1, d1, hd1, ll, hll, heq⟩ := hempty
    cases heq
    intro level
    cases level with
    | i1 => exact hi1
    | d1 => exact hd1
    | ll => exact hll
  · intro hempty
    exact ⟨h.i1, hempty .i1, h.d1, hempty .d1, h.ll, hempty .ll, rfl⟩

theorem ofSound_eq_ok : ofSound g = .ok h ↔ g.Sound ∧ empty g = .ok h := by
  unfold ofSound HierarchyGeometry.Sound
  cases g.defect? with
  | some defect =>
    constructor
    · intro hstart
      cases hstart
    · intro hstart
      cases hstart.1
  | none =>
    cases empty g with
    | ok caches => simp [Except.mapError]
    | error fault => simp [Except.mapError]

theorem soundFor_of_empty (hg : g.Sound) (hempty : empty g = .ok h) : SoundFor g h := by
  intro level
  obtain ⟨m, _, hblank, hsound⟩ := Cache.empty_of_sound (HierarchyGeometry.sound_iff.mp hg level)
  have hcache := empty_eq_ok.mp hempty level
  rw [hblank] at hcache
  rw [← Except.ok.inj hcache]
  exact ⟨hsound, rfl⟩

theorem exists_empty_of_sound (hg : g.Sound) : ∃ h, empty g = .ok h := by
  have hlevels : ∀ level, ∃ c, Cache.empty (g.get level) = .ok c := by
    intro level
    obtain ⟨_, _, hblank, _⟩ := Cache.empty_of_sound (HierarchyGeometry.sound_iff.mp hg level)
    exact ⟨_, hblank⟩
  choose c hc using hlevels
  refine ⟨⟨c .i1, c .d1, c .ll⟩, empty_eq_ok.mpr fun level => ?_⟩
  cases level with
  | i1 => exact hc .i1
  | d1 => exact hc .d1
  | ll => exact hc .ll

end Hierarchy

namespace Simulation

variable {g : HierarchyGeometry}

theorem start_of_sound (hg : g.Sound) : ∃ new, Hierarchy.empty g = .ok new ∧
    start g = .ok ⟨new, .zero, #[new.built]⟩ ∧ Hierarchy.SoundFor g new := by
  obtain ⟨new, hnew⟩ := Hierarchy.exists_empty_of_sound hg
  refine ⟨new, hnew, ?_, Hierarchy.soundFor_of_empty hg hnew⟩
  rw [start, Hierarchy.ofSound_eq_ok.mpr ⟨hg, hnew⟩]
  rfl

end Simulation

end CacheUsage
