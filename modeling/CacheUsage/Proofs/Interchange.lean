import CacheUsage.Proofs.Bounds

namespace CacheUsage

structure Reference.Alike (r r' : Reference) : Prop where
  span : r.toSpan = r'.toSpan
  isData : r.kind.isData = r'.kind.isData

instance (r r' : Reference) : Decidable (r.Alike r') :=
  decidable_of_iff (r.toSpan = r'.toSpan ∧ r.kind.isData = r'.kind.isData)
    ⟨fun h => ⟨h.1, h.2⟩, fun h => ⟨h.span, h.isData⟩⟩

theorem Reference.Alike.fits {refs refs' : List Reference}
    (h : List.Forall₂ Reference.Alike refs refs') (hr : ∀ r ∈ refs, r.toSpan.Fits) :
    ∀ r ∈ refs', r.toSpan.Fits := by
  induction h with
  | nil => exact hr
  | cons hhead _ ih =>
    rw [List.forall_mem_cons] at hr ⊢
    exact ⟨hhead.span ▸ hr.1, ih hr.2⟩

theorem Reference.Alike.firstLevel {r r' : Reference} (h : r.Alike r') :
    r.kind.firstLevel = r'.kind.firstLevel := by
  have hdata := h.isData
  cases hkind : r.kind <;> cases hkind' : r'.kind <;>
    simp_all [AccessKind.isData, AccessKind.firstLevel]

structure Step.Alike (x x' : Step) : Prop where
  reference : x.reference.Alike x'.reference
  served : x.served = x'.served
  caches : x.caches = x'.caches

namespace Stats

variable {s s' : Stats}

theorem data_eq_of_startingAt (h : ∀ level, s.startingAt level = s'.startingAt level) :
    s.data = s'.data := by
  rw [data_eq_checked, data_eq_checked, h]

theorem total_eq_of_startingAt (h : ∀ level, s.startingAt level = s'.startingAt level) :
    s.total = s'.total := by
  rw [total_eq_checked, total_eq_checked, h, h]

end Stats

namespace Step.Alike

variable {x x' : Step} {steps steps' : List Step}

theorem firstWords (h : x.Alike x') : x.firstWords = x'.firstWords := by
  rw [Step.firstWords, Step.firstWords, h.caches, h.reference.firstLevel]

theorem lastWords (h : x.Alike x') : x.lastWords = x'.lastWords := by
  rw [Step.lastWords, Step.lastWords, h.caches]

theorem tally (h : x.Alike x') (c : Counters) : c.tally x = c.tally x' := by
  simp only [Counters.tally, h.served, h.firstWords, h.lastWords]

theorem logged (h : x.Alike x') (log : Log) : x.logged log = x'.logged log := by
  simp only [Step.logged, h.served, h.firstWords, h.lastWords, h.reference.span,
    h.reference.firstLevel]

theorem loggedAll (h : List.Forall₂ Step.Alike steps steps') (log : Log) :
    Step.loggedAll steps log = Step.loggedAll steps' log := by
  induction h generalizing log with
  | nil => rfl
  | @cons x x' steps steps' hx _ ih =>
    change Step.loggedAll steps (x.logged log) = Step.loggedAll steps' (x'.logged log)
    rw [hx.logged, ih]

theorem startingAt_tally {s s' : Stats} (hs : ∀ level, s.startingAt level = s'.startingAt level)
    (h : x.Alike x') (level : Level) :
    (s.tally x).startingAt level = (s'.tally x').startingAt level := by
  rw [Stats.startingAt_tally, Stats.startingAt_tally, h.reference.firstLevel, hs level, h.tally]

theorem startingAt_tallyAll {s s' : Stats} (hs : ∀ level, s.startingAt level = s'.startingAt level)
    (h : List.Forall₂ Step.Alike steps steps') (level : Level) :
    (s.tallyAll steps).startingAt level = (s'.tallyAll steps').startingAt level := by
  induction h generalizing s s' with
  | nil => exact hs level
  | cons hx _ ih => exact ih (hx.startingAt_tally hs)

theorem map_served (h : List.Forall₂ Step.Alike steps steps') :
    steps.map Step.served = steps'.map Step.served := by
  induction h with
  | nil => rfl
  | cons hx _ ih => rw [List.map_cons, List.map_cons, hx.served, ih]

theorem after (h : List.Forall₂ Step.Alike steps steps') (caches : Hierarchy) :
    caches.after steps = caches.after steps' := by
  induction h generalizing caches with
  | nil => rfl
  | @cons x x' steps steps' hx _ ih =>
    change x.caches.after steps = x'.caches.after steps'
    rw [hx.caches, ih]

end Step.Alike

namespace Hierarchy

variable {h : Hierarchy} {r r' : Reference} {refs refs' : List Reference}

theorem step_alike (hr : r.Alike r') : (h.step r).Alike (h.step r') := by
  refine ⟨hr, ?_, ?_⟩
  · change h.outcome r = h.outcome r'
    rw [outcome, outcome, hr.firstLevel, hr.span]
  · change h.passed r = h.passed r'
    rw [passed, passed, passedFirst, passedFirst, hr.firstLevel, hr.span]

theorem steps_alike (hr : List.Forall₂ Reference.Alike refs refs') :
    List.Forall₂ Step.Alike (h.steps refs) (h.steps refs') := by
  induction hr generalizing h with
  | nil => exact .nil
  | @cons r r' _ _ hhead _ ih =>
    have hx : (h.step r).Alike (h.step r') := step_alike hhead
    have hnext : h.passed r = h.passed r' := hx.caches
    rw [steps, steps, hnext]
    exact .cons hx ih

end Hierarchy

namespace Simulation

variable {g : HierarchyGeometry} {refs refs' : List Reference}

/-- The same but for the split of the data counters between reads and writes. -/
structure Alike (sim sim' : Simulation) : Prop where
  caches : sim.caches = sim'.caches
  log : sim.log = sim'.log
  fetch : sim.stats.fetch = sim'.stats.fetch
  data : ∃ c, sim.stats.data = .ok c ∧ sim'.stats.data = .ok c
  total : ∃ c, sim.stats.total = .ok c ∧ sim'.stats.total = .ok c

/-- Runs with reads in place of writes, or the other way round, do the same. If the total of one
stays in 64 bits, so does that of the other. -/
theorem serveAll_alike (hg : g.Sound) (hr : ∀ r ∈ refs, r.toSpan.Fits)
    (halike : List.Forall₂ Reference.Alike refs refs') :
    ∃ new sim, Hierarchy.empty g = .ok new ∧ start g = .ok sim ∧
      (((Counters.recounted .fetch (new.steps refs)).plus
        ((Counters.recounted .read (new.steps refs)).plus
          (Counters.recounted .write (new.steps refs)))).InRange →
        ∃ served last last', serveAll refs sim = .ok served last ∧
          serveAll refs' sim = .ok served last' ∧ last.Alike last' ∧
          ∃ steps steps', observe refs sim = .ok steps last ∧ observe refs' sim = .ok steps' last' ∧
            List.Forall₂ Step.Alike steps steps') := by
  obtain ⟨new, hempty, hstart, hsound⟩ := start_of_sound hg
  have hcaches : (Simulation.mk new .zero #[new.built]).caches.SoundFor g := hsound
  have hr' := Reference.Alike.fits halike hr
  have hsteps : List.Forall₂ Step.Alike (new.steps refs) (new.steps refs') :=
    Hierarchy.steps_alike halike
  have hsides : ∀ level, (Stats.zero.tallyAll (new.steps refs)).startingAt level =
      (Stats.zero.tallyAll (new.steps refs')).startingAt level :=
    Step.Alike.startingAt_tallyAll (fun _ => rfl) hsteps
  have hdata := Stats.data_eq_of_startingAt hsides
  have htotal := Stats.total_eq_of_startingAt hsides
  refine ⟨new, _, hempty, hstart, fun hroom => ?_⟩
  rw [← hsound.get_tallyAll_zero hr, ← hsound.get_tallyAll_zero hr,
    ← hsound.get_tallyAll_zero hr] at hroom
  have hdataOk := Counters.add_eq_ok.mpr ⟨rfl, hroom.of_plus.2⟩
  have htotalOk := Stats.total_eq_ok.mpr ⟨rfl, hroom⟩
  have hin := Stats.InRange.of_total hroom
  have hin' := Stats.InRange.of_total_eq_ok (htotal.symm.trans htotalOk)
  have hrun := (serveAll_yields hcaches hr).eq_ok hin
  rw [Step.Alike.map_served hsteps] at hrun
  refine ⟨_, _, _, hrun, (serveAll_yields hcaches hr').eq_ok hin', ?_, _, _,
    (observe_yields hcaches hr).eq_ok hin, (observe_yields hcaches hr').eq_ok hin', hsteps⟩
  exact ⟨Step.Alike.after hsteps new, Step.Alike.loggedAll hsteps _, hsides .i1,
    ⟨_, hdataOk, hdata.symm.trans hdataOk⟩, ⟨_, htotalOk, htotal.symm.trans htotalOk⟩⟩

theorem serveAll_alike_swapped :
    HierarchyGeometry.Sound ⟨⟨64, 2, 16⟩, ⟨64, 1, 32⟩, ⟨128, 4, 16⟩⟩ ∧
    (∀ r : Reference, r ∈ [⟨⟨0x14, 8⟩, .fetch⟩, ⟨⟨0x1C, 8⟩, .read⟩, ⟨⟨0x1C, 8⟩, .fetch⟩,
      ⟨⟨0x1C, 8⟩, .write⟩] → r.toSpan.Fits) ∧
    List.Forall₂ Reference.Alike
      [⟨⟨0x14, 8⟩, .fetch⟩, ⟨⟨0x1C, 8⟩, .read⟩, ⟨⟨0x1C, 8⟩, .fetch⟩, ⟨⟨0x1C, 8⟩, .write⟩]
      [⟨⟨0x14, 8⟩, .fetch⟩, ⟨⟨0x1C, 8⟩, .write⟩, ⟨⟨0x1C, 8⟩, .fetch⟩, ⟨⟨0x1C, 8⟩, .read⟩] ∧
    ∃ sim last last', start ⟨⟨64, 2, 16⟩, ⟨64, 1, 32⟩, ⟨128, 4, 16⟩⟩ = .ok sim ∧
      serveAll [⟨⟨0x14, 8⟩, .fetch⟩, ⟨⟨0x1C, 8⟩, .read⟩, ⟨⟨0x1C, 8⟩, .fetch⟩,
        ⟨⟨0x1C, 8⟩, .write⟩] sim = .ok [.memory, .memory, .lastLevel, .firstLevel] last ∧
      serveAll [⟨⟨0x14, 8⟩, .fetch⟩, ⟨⟨0x1C, 8⟩, .write⟩, ⟨⟨0x1C, 8⟩, .fetch⟩,
        ⟨⟨0x1C, 8⟩, .read⟩] sim = .ok [.memory, .memory, .lastLevel, .firstLevel] last' ∧
      last.Alike last' := by
  -- A read and a write change places, between fetches that share the last level with them.
  have hg : HierarchyGeometry.Sound ⟨⟨64, 2, 16⟩, ⟨64, 1, 32⟩, ⟨128, 4, 16⟩⟩ := by decide
  have hr : ∀ r : Reference, r ∈ [⟨⟨0x14, 8⟩, .fetch⟩, ⟨⟨0x1C, 8⟩, .read⟩, ⟨⟨0x1C, 8⟩, .fetch⟩,
      ⟨⟨0x1C, 8⟩, .write⟩] → r.toSpan.Fits := by decide
  have halike : List.Forall₂ Reference.Alike
      [⟨⟨0x14, 8⟩, .fetch⟩, ⟨⟨0x1C, 8⟩, .read⟩, ⟨⟨0x1C, 8⟩, .fetch⟩, ⟨⟨0x1C, 8⟩, .write⟩]
      [⟨⟨0x14, 8⟩, .fetch⟩, ⟨⟨0x1C, 8⟩, .write⟩, ⟨⟨0x1C, 8⟩, .fetch⟩, ⟨⟨0x1C, 8⟩, .read⟩] := by
    decide
  obtain ⟨new, sim, hempty, hstart, hall⟩ := serveAll_alike hg hr halike
  have hnew : new = ⟨.blank ⟨64, 2, 16⟩ 2, .blank ⟨64, 1, 32⟩ 2, .blank ⟨128, 4, 16⟩ 2⟩ :=
    Except.ok.inj (hempty.symm.trans rfl)
  subst hnew
  obtain ⟨sim', last, hstart', hserve⟩ := outcomes?_eq_some.mp (show outcomes?
    ⟨⟨64, 2, 16⟩, ⟨64, 1, 32⟩, ⟨128, 4, 16⟩⟩
    [⟨⟨0x14, 8⟩, .fetch⟩, ⟨⟨0x1C, 8⟩, .read⟩, ⟨⟨0x1C, 8⟩, .fetch⟩, ⟨⟨0x1C, 8⟩, .write⟩] =
      some [.memory, .memory, .lastLevel, .firstLevel] by decide +kernel)
  cases hstart.symm.trans hstart'
  obtain ⟨served, _, last', hrun, hrun', hlast, _⟩ := hall (by decide +kernel)
  cases hserve.symm.trans hrun
  exact ⟨hg, hr, halike, sim, last, last', hstart, hserve, hrun', hlast⟩

end Simulation

end CacheUsage
