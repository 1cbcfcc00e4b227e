import CacheUsage.Proofs.SingleLine

namespace CacheUsage

namespace Simulation

variable {g : HierarchyGeometry} {sim : Simulation} {r : Reference} {refs : List Reference}

def InRange (sim : Simulation) : Prop := sim.stats.InRange

def after (sim : Simulation) (steps : List Step) : Simulation :=
  ⟨sim.caches.after steps, sim.stats.tallyAll steps, Step.loggedAll steps sim.log⟩

theorem serve_yields (hsim : sim.caches.SoundFor g) (hr : r.toSpan.Fits) :
    Yields InRange .arithmeticOverflow (serve r) sim (sim.caches.step r).served
      (sim.after [sim.caches.step r]) := by
  have haccess := hsim.access_yields hr (sim.stats.get r.kind) sim.log
  have hpath := path_eq_access hsim hr.narrow (sim.stats.get r.kind) sim.log
  refine ⟨fun h => Stats.InRange.of_tally h, ?_⟩
  rcases haccess.run with ⟨hok, hkeep⟩ | ⟨st, herror, hout⟩
  · refine Or.inl ⟨?_, fun h => (Stats.inRange_tally h).mpr (hkeep (h r.kind))⟩
    rw [serve, atStation, hpath, hok]
    rfl
  · refine Or.inr ⟨⟨st.caches, sim.stats.set r.kind st.counters, st.log⟩, ?_, ?_⟩
    · rw [serve, atStation, hpath, herror]
    · intro h
      exact hout ((Stats.inRange_tally (Stats.InRange.of_tally h)).mp h)

theorem serveAll_yields (hsim : sim.caches.SoundFor g) (hr : ∀ r ∈ refs, r.toSpan.Fits) :
    Yields InRange .arithmeticOverflow (serveAll refs) sim
      ((sim.caches.steps refs).map Step.served) (sim.after (sim.caches.steps refs)) := by
  induction refs generalizing sim with
  | nil => exact Yields.of_ok rfl Iff.rfl
  | cons r refs ih =>
    have hfit := hr r List.mem_cons_self
    have hnext : (sim.after [sim.caches.step r]).caches.SoundFor g := hsim.passed hfit
    have hrest := ih hnext fun u hu => hr u (List.mem_cons_of_mem r hu)
    exact (serve_yields hsim hfit).bind (hrest.bind (Yields.of_ok rfl Iff.rfl))

def outcomes? (g : HierarchyGeometry) (refs : List Reference) : Option (List Served) :=
  match start g with
  | .error _ => none
  | .ok sim =>
    match serveAll refs sim with
    | .ok served _ => some served
    | .error _ _ => none

theorem outcomes?_eq_some {served : List Served} : outcomes? g refs = some served ↔
    ∃ sim last, start g = .ok sim ∧ serveAll refs sim = .ok served last := by
  unfold outcomes?
  cases start g with
  | error failure => simp
  | ok sim => cases hserve : serveAll refs sim <;> simp [hserve]

end Simulation

end CacheUsage
