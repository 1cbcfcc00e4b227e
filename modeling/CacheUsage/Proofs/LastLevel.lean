import CacheUsage.Proofs.Inclusion
import CacheUsage.Proofs.Recount

namespace CacheUsage

/-- A last level of more ways turns some references to memory into hits, and no others. -/
structure Served.Within (x x' : Served) : Prop where
  first : x = .firstLevel ↔ x' = .firstLevel
  last : x = .lastLevel → x' = .lastLevel

theorem Served.Within.refl (x : Served) : x.Within x := ⟨Iff.rfl, fun h => h⟩

theorem Served.Within.isFirstMiss {x x' : Served} (h : x.Within x') :
    x.isFirstMiss = x'.isFirstMiss := by
  have hfirst := h.first
  cases x <;> cases x' <;> simp_all [Served.isFirstMiss]

theorem Served.Within.memory {x x' : Served} (h : x.Within x') (hx : x' = .memory) :
    x = .memory := by
  subst hx
  cases x with
  | firstLevel => cases h.first.mp rfl
  | lastLevel => cases h.last rfl
  | memory => rfl

structure Counters.Within (c c' : Counters) : Prop where
  references : c.references = c'.references
  firstMisses : c.firstMisses = c'.firstMisses
  firstWords : c.firstWords = c'.firstWords
  lastMisses : c'.lastMisses ≤ c.lastMisses
  lastWords : c.lastWords ≤ c'.lastWords

/-- The first levels are the same, and the last level of `h` lies within that of `h'`. -/
structure Hierarchy.Within (h h' : Hierarchy) : Prop where
  first : ∀ level ≠ .ll, h.get level = h'.get level
  last : h.ll.Within h'.ll

structure Step.Within (x x' : Step) : Prop where
  reference : x.reference = x'.reference
  served : x.served.Within x'.served
  caches : x.caches.Within x'.caches
  lastWords : x.lastWords ≤ x'.lastWords

theorem Step.Within.firstWords {x x' : Step} (h : x.Within x') : x.firstWords = x'.firstWords := by
  unfold Step.firstWords
  rw [← h.reference, h.caches.first _ (Hierarchy.firstLevel_ne_ll x.reference.kind)]

namespace Counters

variable {c c' : Counters} {x x' : Step}

theorem Within.tally (h : c.Within c') (hx : x.Within x') : (c.tally x).Within (c'.tally x') := by
  obtain ⟨hreferences, hfirst, hwords, hlast, hlastWords⟩ := h
  have hmiss := hx.served.isFirstMiss
  have hfirstWords := hx.firstWords
  have hmore := hx.lastWords
  have hmemory := hx.served.memory
  refine ⟨?_, ?_, ?_, ?_, ?_⟩
  · show c.references + 1 = c'.references + 1
    omega
  · show c.firstMisses + _ = c'.firstMisses + _
    rw [hfirst, hmiss]
  · show c.firstWords + x.firstWords = c'.firstWords + x'.firstWords
    omega
  · show c'.lastMisses + (if _ then 1 else 0) ≤ c.lastMisses + if _ then 1 else 0
    split_ifs with hx' hx
    · omega
    · exact absurd (hmemory hx') hx
    · omega
    · omega
  · show c.lastWords + (if _ then _ else 0) ≤ c'.lastWords + if _ then _ else 0
    rw [hmiss]
    split_ifs <;> omega

theorem Within.inRange (h : c.Within c') (hmisses : c.lastMisses ≤ c.firstMisses)
    (hin : c'.InRange) : c.InRange := by
  obtain ⟨hreferences, hfirst, hwords, _, hlastWords⟩ := h
  rw [inRange_iff] at hin ⊢
  omega

end Counters

theorem Stats.get_tallyAll_within {s s' : Stats} {steps steps' : List Step}
    (h : ∀ kind, (s.get kind).Within (s'.get kind))
    (hsteps : List.Forall₂ Step.Within steps steps') (kind : AccessKind) :
    ((s.tallyAll steps).get kind).Within ((s'.tallyAll steps').get kind) := by
  induction hsteps generalizing s s' with
  | nil => exact h kind
  | @cons x x' _ _ hx _ ih =>
    apply ih
    intro other
    rw [Stats.tally, Stats.tally, ← hx.reference]
    by_cases heq : other = x.reference.kind
    · subst heq
      rw [Stats.get_set_self, Stats.get_set_self]
      exact (h x.reference.kind).tally hx
    · rw [Stats.get_set_of_ne s _ heq, Stats.get_set_of_ne s' _ heq]
      exact h other

namespace Hierarchy

variable {g g' : HierarchyGeometry} {h h' : Hierarchy} {r : Reference} {refs : List Reference}

theorem Within.hits_first (hw : h.Within h') (r : Reference) :
    (h.get r.kind.firstLevel).hits r.toSpan = (h'.get r.kind.firstLevel).hits r.toSpan := by
  rw [hw.first _ (firstLevel_ne_ll r.kind)]

theorem Within.outcome (hw : h.Within h') (hsound : SoundFor g h) (hr : r.toSpan.Fits) :
    (h.outcome r).Within (h'.outcome r) := by
  have hfirst := hw.hits_first r
  unfold Hierarchy.outcome
  rw [← hfirst]
  cases (h.get r.kind.firstLevel).hits r.toSpan with
  | true =>
    rw [if_pos rfl, if_pos rfl]
    exact .refl _
  | false =>
    cases hhit : h.ll.hits r.toSpan with
    | true =>
      rw [hw.last.hits (hsound .ll).sound hr hhit]
      exact .refl _
    | false => constructor <;> cases h'.ll.hits r.toSpan <;> simp

theorem Within.passed (hw : h.Within h') (r : Reference) : (h.passed r).Within (h'.passed r) := by
  refine ⟨?_, ?_⟩
  · intro level hlevel
    by_cases heq : level = r.kind.firstLevel
    · subst heq
      rw [get_firstLevel_passed, get_firstLevel_passed, hw.first _ hlevel]
    · rw [get_passed_of_ne heq hlevel, get_passed_of_ne heq hlevel]
      exact hw.first level hlevel
  · rw [ll_passed, ll_passed, isFirstMiss_outcome, isFirstMiss_outcome, hw.hits_first r]
    split_ifs
    · exact hw.last.accessed r.toSpan
    · exact hw.last

theorem Within.step (hw : h.Within h') (hsound : SoundFor g h) (hsound' : SoundFor g' h')
    (hr : r.toSpan.Fits) : (h.step r).Within (h'.step r) := by
  have hnext := hw.passed r
  refine ⟨rfl, hw.outcome hsound hr, hnext, ?_⟩
  have htotal : (h.passed r).ll.wordsInUse = (h.passed r).ll.recount := (hsound.passed hr).exact .ll
  have htotal' : (h'.passed r).ll.wordsInUse = (h'.passed r).ll.recount :=
    (hsound'.passed hr).exact .ll
  show (h.passed r).ll.wordsInUse ≤ (h'.passed r).ll.wordsInUse
  rw [htotal, htotal']
  exact hnext.last.recount_le

theorem Within.steps (hw : h.Within h') (hsound : SoundFor g h) (hsound' : SoundFor g' h')
    (hr : ∀ r ∈ refs, r.toSpan.Fits) :
    List.Forall₂ Step.Within (h.steps refs) (h'.steps refs) ∧
      (h.after (h.steps refs)).Within (h'.after (h'.steps refs)) := by
  induction refs generalizing h h' with
  | nil => exact ⟨.nil, hw⟩
  | cons r refs ih =>
    have hfit := hr r List.mem_cons_self
    have hrest := ih (hw.passed r) (hsound.passed hfit) (hsound'.passed hfit)
      fun u hu => hr u (List.mem_cons_of_mem r hu)
    exact ⟨.cons (hw.step hsound hsound' hfit) hrest.1, hrest.2⟩

theorem within_of_empty (hg : g.Sound) (hg' : g'.Sound)
    (hfirst : ∀ level ≠ .ll, g.get level = g'.get level)
    (hline : g.ll.lineBytes = g'.ll.lineBytes) (hsets : g.ll.setCount = g'.ll.setCount)
    (hways : g.ll.ways ≤ g'.ll.ways) (hempty : empty g = .ok h) (hempty' : empty g' = .ok h') :
    h.Within h' := by
  rw [empty_eq_ok] at hempty hempty'
  refine ⟨?_, ?_⟩
  · intro level hlevel
    have hcache := hempty level
    rw [hfirst level hlevel] at hcache
    exact Except.ok.inj (hcache.symm.trans (hempty' level))
  · have hll : g.ll.Sound := HierarchyGeometry.sound_iff.mp hg .ll
    have hll' : g'.ll.Sound := HierarchyGeometry.sound_iff.mp hg' .ll
    obtain ⟨m, hm, hblank, _⟩ := Cache.empty_of_sound hll
    obtain ⟨m', hm', hblank', _⟩ := Cache.empty_of_sound hll'
    have hsame : 2 ^ m' = 2 ^ m := Except.ok.inj (hm'.symm.trans (hsets.symm.trans hm))
    have hlast : h.ll = .blank g.ll (2 ^ m) := Except.ok.inj ((hempty .ll).symm.trans hblank)
    have hlast' : h'.ll = .blank g'.ll (2 ^ m') := Except.ok.inj ((hempty' .ll).symm.trans hblank')
    rw [hlast, hlast', hsame]
    exact Cache.within_blank hline hways

end Hierarchy

namespace Simulation

variable {g g' : HierarchyGeometry} {refs : List Reference}

/-- What a run gains by more ways at the last level: with them it ends in `last'` instead of
`last`. -/
structure Gains (served served' : List Served) (last last' : Simulation) : Prop where
  caches : ∀ level ≠ .ll, last.caches.get level = last'.caches.get level
  outcomes : List.Forall₂ Served.Within served served'
  counters : ∀ kind, (last.stats.get kind).Within (last'.stats.get kind)

/-- A run loses nothing by more ways at the last level, and goes through with fewer if the counters
with more fit 64 bits. -/
theorem serveAll_gains (hg : g.Sound) (hg' : g'.Sound)
    (hfirst : ∀ level ≠ .ll, g.get level = g'.get level)
    (hline : g.ll.lineBytes = g'.ll.lineBytes) (hsets : g.ll.setCount = g'.ll.setCount)
    (hways : g.ll.ways ≤ g'.ll.ways) (hr : ∀ r ∈ refs, r.toSpan.Fits) :
    ∃ new' sim sim', Hierarchy.empty g' = .ok new' ∧ start g = .ok sim ∧ start g' = .ok sim' ∧
      ∀ past, past <+: refs →
        ((∀ kind, (Counters.recounted kind (new'.steps past)).InRange) →
          ∃ served last served' last', serveAll past sim = .ok served last ∧
            serveAll past sim' = .ok served' last' ∧ Gains served served' last last') ∧
        ((¬ ∀ kind, (Counters.recounted kind (new'.steps past)).InRange) →
          ∃ last', serveAll past sim' = .error .arithmeticOverflow last') := by
  obtain ⟨new, hempty, hstart, hsound⟩ := start_of_sound hg
  obtain ⟨new', hempty', hstart', hsound'⟩ := start_of_sound hg'
  refine ⟨new', _, _, hempty', hstart, hstart', fun past hpast => ?_⟩
  have hfit : ∀ r ∈ past, r.toSpan.Fits := fun r hmem => hr r (hpast.subset hmem)
  have hwithin := Hierarchy.within_of_empty hg hg' hfirst hline hsets hways hempty hempty'
  obtain ⟨hsteps, hafter⟩ := hwithin.steps hsound hsound' hfit
  have hcaches : (Simulation.mk new .zero #[new.built]).caches.SoundFor g := hsound
  have hcaches' : (Simulation.mk new' .zero #[new'.built]).caches.SoundFor g' := hsound'
  have hrun := serveAll_yields hcaches hfit
  have hrun' := serveAll_yields hcaches' hfit
  have hzero : ∀ kind, (Stats.zero.get kind).Within (Stats.zero.get kind) := fun _ =>
    ⟨rfl, rfl, rfl, Nat.le_refl _, Nat.le_refl _⟩
  have hcounters := Stats.get_tallyAll_within hzero hsteps
  have hrange := hsound'.inRange_tallyAll_iff hfit
  refine ⟨?_, fun hout => hrun'.eq_error Stats.inRange_zero (mt hrange.mp hout)⟩
  intro hall
  have hin' := hrange.mpr hall
  have hin : (Stats.zero.tallyAll (new.steps past)).InRange := by
    intro kind
    apply (hcounters kind).inRange _ (hin' kind)
    rw [hsound.get_tallyAll_zero hfit]
    exact (Counters.recounted_misses_le kind (new.steps past)).1
  refine ⟨_, _, _, _, hrun.eq_ok hin, hrun'.eq_ok hin', hafter.first, ?_, hcounters⟩
  rw [List.forall₂_map_left_iff, List.forall₂_map_right_iff]
  exact hsteps.imp fun _ _ hx => hx.served

theorem serveAll_gains_two_ways :
    HierarchyGeometry.Sound ⟨⟨16, 1, 16⟩, ⟨64, 2, 16⟩, ⟨32, 1, 32⟩⟩ ∧
    HierarchyGeometry.Sound ⟨⟨16, 1, 16⟩, ⟨64, 2, 16⟩, ⟨64, 2, 32⟩⟩ ∧
    (∀ r : Reference, r ∈ [⟨⟨0x00, 8⟩, .fetch⟩, ⟨⟨0x2C, 8⟩, .read⟩, ⟨⟨0x10, 4⟩, .fetch⟩] →
      r.toSpan.Fits) ∧
    ∃ sim sim' last last',
      start ⟨⟨16, 1, 16⟩, ⟨64, 2, 16⟩, ⟨32, 1, 32⟩⟩ = .ok sim ∧
      start ⟨⟨16, 1, 16⟩, ⟨64, 2, 16⟩, ⟨64, 2, 32⟩⟩ = .ok sim' ∧
      serveAll [⟨⟨0x00, 8⟩, .fetch⟩, ⟨⟨0x2C, 8⟩, .read⟩, ⟨⟨0x10, 4⟩, .fetch⟩] sim =
        .ok [.memory, .memory, .memory] last ∧
      serveAll [⟨⟨0x00, 8⟩, .fetch⟩, ⟨⟨0x2C, 8⟩, .read⟩, ⟨⟨0x10, 4⟩, .fetch⟩] sim' =
        .ok [.memory, .memory, .lastLevel] last' ∧
      Gains [.memory, .memory, .memory] [.memory, .memory, .lastLevel] last last' := by
  -- The third fetch finds its line in the last level only with two ways.
  have hg : HierarchyGeometry.Sound ⟨⟨16, 1, 16⟩, ⟨64, 2, 16⟩, ⟨32, 1, 32⟩⟩ := by decide
  have hg' : HierarchyGeometry.Sound ⟨⟨16, 1, 16⟩, ⟨64, 2, 16⟩, ⟨64, 2, 32⟩⟩ := by decide
  have hfirst : ∀ level : Level, level ≠ .ll →
      Levels.get ⟨⟨16, 1, 16⟩, ⟨64, 2, 16⟩, ⟨32, 1, 32⟩⟩ level =
        Levels.get (⟨⟨16, 1, 16⟩, ⟨64, 2, 16⟩, ⟨64, 2, 32⟩⟩ : HierarchyGeometry) level := by
    intro level hlevel
    cases level with
    | i1 => rfl
    | d1 => rfl
    | ll => exact absurd rfl hlevel
  have hr : ∀ r : Reference, r ∈ [⟨⟨0x00, 8⟩, .fetch⟩, ⟨⟨0x2C, 8⟩, .read⟩, ⟨⟨0x10, 4⟩, .fetch⟩] →
      r.toSpan.Fits := by decide
  obtain ⟨new', sim, sim', hempty', hstart, hstart', hall⟩ :=
    serveAll_gains hg hg' hfirst rfl rfl (by decide) hr
  obtain ⟨hfits, _⟩ := hall _ List.prefix_rfl
  obtain ⟨sim₁, last, hsim, hserve⟩ := outcomes?_eq_some.mp (show outcomes?
    ⟨⟨16, 1, 16⟩, ⟨64, 2, 16⟩, ⟨32, 1, 32⟩⟩
    [⟨⟨0x00, 8⟩, .fetch⟩, ⟨⟨0x2C, 8⟩, .read⟩, ⟨⟨0x10, 4⟩, .fetch⟩] =
      some [.memory, .memory, .memory] by decide +kernel)
  obtain ⟨sim₂, last', hsim', hserve'⟩ := outcomes?_eq_some.mp (show outcomes?
    ⟨⟨16, 1, 16⟩, ⟨64, 2, 16⟩, ⟨64, 2, 32⟩⟩
    [⟨⟨0x00, 8⟩, .fetch⟩, ⟨⟨0x2C, 8⟩, .read⟩, ⟨⟨0x10, 4⟩, .fetch⟩] =
      some [.memory, .memory, .lastLevel] by decide +kernel)
  have hsame := Except.ok.inj (hsim.symm.trans hstart)
  have hsame' := Except.ok.inj (hsim'.symm.trans hstart')
  subst hsame hsame'
  have hin := inRange_of_serveAll_eq_ok hg' hr hempty' hstart' hserve'
  obtain ⟨_, _, _, _, hrun, hrun', hgains⟩ := hfits hin
  cases hserve.symm.trans hrun
  cases hserve'.symm.trans hrun'
  exact ⟨hg, hg', hr, _, _, last, last', hstart, hstart', hserve, hserve', hgains⟩

end Simulation

end CacheUsage
