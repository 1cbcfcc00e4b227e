import CacheUsage.Proofs.Serving

namespace CacheUsage

namespace Step

def startsAt (level : Level) (x : Step) : Bool := x.reference.kind.firstLevel = level

def span (x : Step) : Span := x.reference.toSpan

end Step

namespace Hierarchy

variable {g : HierarchyGeometry} {h : Hierarchy} {level : Level} {refs : List Reference}
  {p verdict : Step → Bool}

/-- A level that makes some references of a run, and stays as it is at all others, does what a cache
does that these references alone access. -/
theorem accessAll_filter_steps (hsound : SoundFor g h) (hr : ∀ r ∈ refs, r.toSpan.Fits)
    (hmade : ∀ (h : Hierarchy) r, p (h.step r) = true →
      (h.get level).hits r.toSpan = verdict (h.step r) ∧
        (h.passed r).get level = (h.get level).accessed r.toSpan)
    (hkept : ∀ (h : Hierarchy) r, p (h.step r) = false → (h.passed r).get level = h.get level) :
    Cache.accessAll (((h.steps refs).filter p).map Step.span) (h.get level) =
      .ok (((h.steps refs).filter p).map verdict) ((h.after (h.steps refs)).get level) := by
  -- The level after the first step is where the rest of the run meets it, whether it made the step
  -- or was left out of it.
  induction refs generalizing h with
  | nil => rfl
  | cons r refs ih =>
    have hfit := hr r List.mem_cons_self
    have hrest := ih (hsound.passed hfit) fun u hu => hr u (List.mem_cons_of_mem r hu)
    rw [steps]
    change _ = EStateM.Result.ok _ (((h.passed r).after ((h.passed r).steps refs)).get level)
    cases hp : p (h.step r) with
    | true =>
      obtain ⟨hverdict, hcache⟩ := hmade h r hp
      have hhead := (hsound level).sound.access_eq_ok hfit
      rw [hcache] at hrest
      rw [List.filter_cons_of_pos hp, List.map_cons, List.map_cons, Cache.accessAll]
      change (Cache.access r.toSpan >>= _) _ = _
      rw [bind_eq_of_ok hhead, bind_eq_of_ok hrest, hverdict]
      rfl
    | false =>
      rw [hkept h r hp] at hrest
      rwa [List.filter_cons_of_neg (by simp [hp])]

/-- Every level has done what a cache of its own does, with the verdicts that the outcomes tell: a
first level for the references that start there, the last level for those that missed the first. -/
structure Decomposes (new : Hierarchy) (steps : List Step) : Prop where
  first : ∀ level ≠ .ll,
    Cache.accessAll ((steps.filter (Step.startsAt level)).map Step.span) (new.get level) =
      .ok ((steps.filter (Step.startsAt level)).map fun x => x.served = .firstLevel)
        ((new.after steps).get level)
  last :
    Cache.accessAll ((steps.filter fun x => x.served.isFirstMiss).map Step.span) new.ll =
      .ok ((steps.filter fun x => x.served.isFirstMiss).map fun x => x.served = .lastLevel)
        (new.after steps).ll

theorem SoundFor.decomposes (hsound : SoundFor g h) (hr : ∀ r ∈ refs, r.toSpan.Fits) :
    Decomposes h (h.steps refs) := by
  refine ⟨?_, ?_⟩
  · intro level hlevel
    refine accessAll_filter_steps hsound hr ?_ ?_
    · intro h r hp
      have hstart : r.kind.firstLevel = level := of_decide_eq_true hp
      subst hstart
      exact ⟨hits_first_eq, get_firstLevel_passed⟩
    · intro h r hp
      have hother : r.kind.firstLevel ≠ level := of_decide_eq_false hp
      exact get_passed_of_ne hother.symm hlevel
  · have hll : ∀ h : Hierarchy, h.get .ll = h.ll := fun _ => rfl
    rw [← hll, ← hll]
    refine accessAll_filter_steps hsound hr ?_ ?_
    · intro h r hp
      change (h.outcome r).isFirstMiss = true at hp
      refine ⟨hits_last_eq hp, ?_⟩
      rw [hll, ll_passed, if_pos hp, hll]
    · intro h r hp
      change (h.outcome r).isFirstMiss = false at hp
      have hnot : ¬ (h.outcome r).isFirstMiss = true := by simp [hp]
      rw [hll, ll_passed, if_neg hnot, hll]

end Hierarchy

def startingAt (level : Level) (refs : List Reference) : List Span :=
  (refs.filter fun r => r.kind.firstLevel = level).map Reference.toSpan

def heldAt (level : Level) (refs : List Reference) (served : List Served) : List Bool :=
  ((refs.zip served).filter fun x => x.1.kind.firstLevel = level).map fun x => x.2 = .firstLevel

theorem startingAt_map_reference (level : Level) (steps : List Step) :
    startingAt level (steps.map Step.reference) =
      (steps.filter (Step.startsAt level)).map Step.span := by
  rw [startingAt, List.filter_map, List.map_map]
  rfl

theorem heldAt_map_served (level : Level) (steps : List Step) :
    heldAt level (steps.map Step.reference) (steps.map Step.served) =
      (steps.filter (Step.startsAt level)).map fun x => decide (x.served = .firstLevel) := by
  rw [heldAt, List.zip_map', List.filter_map, List.map_map]
  rfl

namespace Simulation

variable {g : HierarchyGeometry} {sim : Simulation} {refs : List Reference}

/-- The steps of a run are those of its references, decompose all along, and give the outcomes and
the caches of the run, unless the counters leave 64 bits. -/
structure RunsBy (new : Hierarchy) (sim : Simulation) (refs : List Reference)
    (steps : List Step) : Prop where
  references : steps.map Step.reference = refs
  decomposes : ∀ past, past <+: steps → new.Decomposes past
  served : (Stats.zero.tallyAll steps).InRange → ∃ last,
    serveAll refs sim = .ok (steps.map Step.served) last ∧ last.caches = new.after steps
  overflow : ¬ (Stats.zero.tallyAll steps).InRange → ∃ last,
    serveAll refs sim = .error .arithmeticOverflow last

theorem exists_runsBy (hg : g.Sound) (hr : ∀ r ∈ refs, r.toSpan.Fits) :
    ∃ new sim steps, (∀ level, Cache.empty (g.get level) = .ok (new.get level)) ∧
      start g = .ok sim ∧ RunsBy new sim refs steps := by
  obtain ⟨new, hempty, hstart, hsound⟩ := start_of_sound hg
  have hcaches : (Simulation.mk new .zero #[new.built]).caches.SoundFor g := hsound
  have hrun := serveAll_yields hcaches hr
  refine ⟨new, _, Hierarchy.steps new refs, Hierarchy.empty_eq_ok.mp hempty, hstart,
    Hierarchy.map_reference_steps, ?_, ?_, ?_⟩
  · intro past hpast
    rw [List.prefix_iff_eq_take.mp hpast, Hierarchy.take_steps]
    exact hsound.decomposes fun r hmem => hr r (List.mem_of_mem_take hmem)
  · intro hin
    exact ⟨_, hrun.eq_ok hin, rfl⟩
  · intro hout
    exact hrun.eq_error Stats.inRange_zero hout

theorem accessAll_startingAt {level : Level} {served : List Served} {last : Simulation}
    (hg : g.Sound) (hr : ∀ r ∈ refs, r.toSpan.Fits) (hlevel : level ≠ .ll)
    (hstart : start g = .ok sim) (hserve : serveAll refs sim = .ok served last) :
    ∃ new, Cache.empty (g.get level) = .ok new ∧ Cache.accessAll (startingAt level refs) new =
      .ok (heldAt level refs served) (last.caches.get level) := by
  obtain ⟨new, sim', steps, hempty, hstart', hruns⟩ := exists_runsBy hg hr
  have hsim := Except.ok.inj (hstart.symm.trans hstart')
  subst hsim
  by_cases hin : (Stats.zero.tallyAll steps).InRange
  · obtain ⟨last', hrun, hcaches⟩ := hruns.served hin
    obtain ⟨hserved, hlast⟩ := EStateM.Result.ok.inj (hserve.symm.trans hrun)
    refine ⟨_, hempty level, ?_⟩
    rw [← hruns.references, startingAt_map_reference, hserved, heldAt_map_served, hlast, hcaches]
    exact (hruns.decomposes steps (List.prefix_refl steps)).first level hlevel
  · obtain ⟨last', hrun⟩ := hruns.overflow hin
    cases hserve.symm.trans hrun

/-- A run decomposes into its levels, and goes through when the counters fit 64 bits. What a first
level does depends on its geometry and on the references that start there alone. -/
theorem serveAll_decomposes (hg : g.Sound) (hr : ∀ r ∈ refs, r.toSpan.Fits) :
    (∃ new sim steps, (∀ level, Cache.empty (g.get level) = .ok (new.get level)) ∧
      start g = .ok sim ∧ RunsBy new sim refs steps) ∧
    ∀ (g' : HierarchyGeometry) refs' level sim sim' served served' last last', g'.Sound →
      (∀ r ∈ refs', r.toSpan.Fits) → level ≠ .ll → g.get level = g'.get level →
      startingAt level refs = startingAt level refs' →
      start g = .ok sim → start g' = .ok sim' →
      serveAll refs sim = .ok served last → serveAll refs' sim' = .ok served' last' →
      heldAt level refs served = heldAt level refs' served' ∧
        last.caches.get level = last'.caches.get level := by
  refine ⟨exists_runsBy hg hr, ?_⟩
  intro g' refs' level sim sim' served served' last last' hg' hr' hlevel hgeometry hspans hstart
    hstart' hserve hserve'
  obtain ⟨new, hempty, haccess⟩ := accessAll_startingAt hg hr hlevel hstart hserve
  obtain ⟨new', hempty', haccess'⟩ := accessAll_startingAt hg' hr' hlevel hstart' hserve'
  rw [hgeometry] at hempty
  have hnew := Except.ok.inj (hempty.symm.trans hempty')
  subst hnew
  rw [hspans] at haccess
  exact EStateM.Result.ok.inj (haccess.symm.trans haccess')

theorem serveAll_decomposes_straddling :
    HierarchyGeometry.Sound ⟨⟨64, 2, 16⟩, ⟨64, 1, 32⟩, ⟨128, 2, 32⟩⟩ ∧
    (∀ r : Reference, r ∈ [⟨⟨0x1C, 8⟩, .fetch⟩, ⟨⟨0x1C, 8⟩, .read⟩, ⟨⟨0x20, 4⟩, .fetch⟩] →
      r.toSpan.Fits) ∧
    ∃ new sim steps last sim' last',
      (∀ level, Cache.empty (Levels.get ⟨⟨64, 2, 16⟩, ⟨64, 1, 32⟩, ⟨128, 2, 32⟩⟩ level) =
        .ok (new.get level)) ∧
      start ⟨⟨64, 2, 16⟩, ⟨64, 1, 32⟩, ⟨128, 2, 32⟩⟩ = .ok sim ∧
      RunsBy new sim [⟨⟨0x1C, 8⟩, .fetch⟩, ⟨⟨0x1C, 8⟩, .read⟩, ⟨⟨0x20, 4⟩, .fetch⟩] steps ∧
      serveAll [⟨⟨0x1C, 8⟩, .fetch⟩, ⟨⟨0x1C, 8⟩, .read⟩, ⟨⟨0x20, 4⟩, .fetch⟩] sim =
        .ok [.memory, .lastLevel, .firstLevel] last ∧
      start ⟨⟨64, 2, 16⟩, ⟨64, 1, 32⟩, ⟨64, 1, 16⟩⟩ = .ok sim' ∧
      serveAll [⟨⟨0x1C, 8⟩, .fetch⟩, ⟨⟨0x20, 4⟩, .fetch⟩] sim' =
        .ok [.memory, .firstLevel] last' ∧
      last.caches.i1 = last'.caches.i1 := by
  -- A fetch that straddles two lines of I1 and none of LL, and the same fetches without the data
  -- reference, before another LL.
  have hg : HierarchyGeometry.Sound ⟨⟨64, 2, 16⟩, ⟨64, 1, 32⟩, ⟨128, 2, 32⟩⟩ := by decide
  have hr : ∀ r : Reference, r ∈ [⟨⟨0x1C, 8⟩, .fetch⟩, ⟨⟨0x1C, 8⟩, .read⟩, ⟨⟨0x20, 4⟩, .fetch⟩] →
      r.toSpan.Fits := by decide
  obtain ⟨⟨new, sim, steps, hempty, hstart, hruns⟩, halone⟩ := serveAll_decomposes hg hr
  obtain ⟨sim₁, last, hstart₁, hserve⟩ := outcomes?_eq_some.mp (show outcomes?
    ⟨⟨64, 2, 16⟩, ⟨64, 1, 32⟩, ⟨128, 2, 32⟩⟩
    [⟨⟨0x1C, 8⟩, .fetch⟩, ⟨⟨0x1C, 8⟩, .read⟩, ⟨⟨0x20, 4⟩, .fetch⟩] =
      some [.memory, .lastLevel, .firstLevel] by decide +kernel)
  obtain ⟨sim', last', hstart', hserve'⟩ := outcomes?_eq_some.mp (show outcomes?
    ⟨⟨64, 2, 16⟩, ⟨64, 1, 32⟩, ⟨64, 1, 16⟩⟩ [⟨⟨0x1C, 8⟩, .fetch⟩, ⟨⟨0x20, 4⟩, .fetch⟩] =
      some [.memory, .firstLevel] by decide +kernel)
  have hsim := Except.ok.inj (hstart₁.symm.trans hstart)
  subst hsim
  refine ⟨hg, hr, new, _, steps, last, sim', last', hempty, hstart, hruns, hserve, hstart',
    hserve', ?_⟩
  exact (halone ⟨⟨64, 2, 16⟩, ⟨64, 1, 32⟩, ⟨64, 1, 16⟩⟩
    [⟨⟨0x1C, 8⟩, .fetch⟩, ⟨⟨0x20, 4⟩, .fetch⟩] .i1 _ _ _ _ _ _ (by decide) (by decide) (by decide)
    rfl rfl hstart hstart' hserve hserve').2

end Simulation

end CacheUsage
