import CacheUsage.Proofs.Calls

namespace CacheUsage

namespace Geometry

variable {g : Geometry} {s : Span}

theorem Sound.touches_eq_firstTouch (h : g.Sound) (hsize : s.size ≤ maxReferenceBytes)
    (hone : g.holdsInOneLine s = true) : g.touches s = (g.firstTouch s).map ([·]) := by
  have hblock : g.block s.addr = g.block s.last := by simpa [holdsInOneLine] using hone
  have hs := h.fits_of_holdsInOneLine hsize hone
  obtain ⟨words, htouches, hfirst, _⟩ := h.touches_of_one_line hs hblock
  rw [htouches, hfirst]
  rfl

end Geometry

namespace Hierarchy

variable {g : HierarchyGeometry} {st : Station} {s : Span}

theorem fetchInOneLine_eq_access (hst : st.caches.SoundFor g) (hsize : s.size ≤ maxReferenceBytes)
    (hone : st.caches.holdsInOneLine s = true) : fetchInOneLine s st = access .i1 s st := by
  have hi1 : st.caches.i1.geometry = g.i1 := (hst .i1).geometry
  have hll : st.caches.ll.geometry = g.ll := (hst .ll).geometry
  have hline := lineBytes_eq_of_holdsInOneLine hst hone
  have hinside : g.i1.holdsInOneLine s = true := by
    rw [holdsInOneLine, Bool.and_eq_true, hi1] at hone
    exact hone.2
  -- Neither level refuses the span, and their lines are the same, so both split it into one touch.
  have hfirst : g.i1.touches s = (g.i1.firstTouch s).map ([·]) :=
    (hst .i1).sound_geometry.touches_eq_firstTouch hsize hinside
  have hlast : g.ll.touches s = (g.i1.firstTouch s).map ([·]) :=
    (Geometry.touches_eq_of_lineBytes_eq hline.symm).trans hfirst
  rw [fetchInOneLine, if_pos hone, access, hll, hlast]
  change _ = pass .i1 s (st.caches.i1.geometry.touches s) _ st
  rw [hi1, hfirst]

end Hierarchy

namespace Simulation

variable {g : HierarchyGeometry} {sim : Simulation} {r : Reference} {refs : List Reference}

/-- Serves one reference as `serve` does, a fetch always by the path for any alignment. -/
def serveGenerally (r : Reference) : SimulationM Served :=
  atStation r.kind fun _ => Hierarchy.access r.kind.firstLevel r.toSpan

def serveAllGenerally : List Reference → SimulationM (List Served)
  | [] => pure []
  | r :: rest => do
    let served ← serveGenerally r
    let later ← serveAllGenerally rest
    return served :: later

theorem path_eq_access (hsim : sim.caches.SoundFor g) (hsize : r.size ≤ maxReferenceBytes)
    (counters : Counters) (log : Log) : path sim.caches r ⟨sim.caches, counters, log⟩ =
      Hierarchy.access r.kind.firstLevel r.toSpan ⟨sim.caches, counters, log⟩ := by
  unfold path
  split_ifs with hfetch
  · rw [hfetch.1]
    exact Hierarchy.fetchInOneLine_eq_access hsim hsize hfetch.2
  · rfl

theorem path_maintains (h : Hierarchy) (r : Reference) :
    Maintains (Station.SoundFor g) (path h r) := by
  unfold path
  split_ifs
  · exact Hierarchy.fetchInOneLine_maintains r.toSpan
  · exact Hierarchy.access_maintains r.kind.firstLevel r.toSpan

theorem serve_eq_serveGenerally (hsim : sim.caches.SoundFor g)
    (hsize : r.size ≤ maxReferenceBytes) : serve r sim = serveGenerally r sim := by
  rw [serve, atStation, path_eq_access hsim hsize]
  rfl

theorem atStation_maintains {x : Hierarchy → StationM Served} (kind : AccessKind)
    (hx : ∀ h, Maintains (Station.SoundFor g) (x h)) :
    Maintains (fun sim : Simulation => sim.caches.SoundFor g) (atStation kind x) := by
  intro sim hsim
  have hstation := hx sim.caches ⟨sim.caches, sim.stats.get kind, sim.log⟩ hsim
  unfold atStation
  cases hresult : x sim.caches ⟨sim.caches, sim.stats.get kind, sim.log⟩ with
  | ok served st =>
    rw [hresult] at hstation
    exact hstation
  | error fault st =>
    rw [hresult] at hstation
    exact hstation

theorem serveGenerally_maintains (r : Reference) :
    Maintains (fun sim : Simulation => sim.caches.SoundFor g) (serveGenerally r) :=
  atStation_maintains r.kind fun _ => Hierarchy.access_maintains r.kind.firstLevel r.toSpan

theorem serveAll_eq_serveAllGenerally (hsim : sim.caches.SoundFor g)
    (hsize : ∀ r ∈ refs, r.size ≤ maxReferenceBytes) :
    serveAll refs sim = serveAllGenerally refs sim := by
  induction refs generalizing sim with
  | nil => rfl
  | cons r refs ih =>
    have hhead := serve_eq_serveGenerally hsim (hsize r List.mem_cons_self)
    have hkeep := serveGenerally_maintains r sim hsim
    rw [serveAll, serveAllGenerally]
    cases hresult : serveGenerally r sim with
    | ok served next =>
      rw [hresult] at hhead hkeep
      change next.caches.SoundFor g at hkeep
      have hrest := ih hkeep fun u hu => hsize u (List.mem_cons_of_mem r hu)
      rw [bind_eq_of_ok hhead, bind_eq_of_ok hresult]
      cases htail : serveAllGenerally refs next with
      | ok later last => rw [bind_eq_of_ok (hrest.trans htail), bind_eq_of_ok htail]
      | error fault last => rw [bind_eq_of_error (hrest.trans htail), bind_eq_of_error htail]
    | error fault next => rw [bind_eq_of_error (hhead.trans hresult), bind_eq_of_error hresult]

/-- From every hierarchy that calls lead to, the path for one line gives what an access gives: the
same outcome, caches, counters and log, or the overflow of the same counter. So a run may take it or
not. -/
theorem singleLine_eq_access (hg : g.Sound) :
    (∀ h counters log s, Hierarchy.Reachable g h → s.size ≤ maxReferenceBytes →
      h.holdsInOneLine s = true →
      Hierarchy.fetchInOneLine s ⟨h, counters, log⟩ = Hierarchy.access .i1 s ⟨h, counters, log⟩ ∧
      ((∃ served st, Hierarchy.fetchInOneLine s ⟨h, counters, log⟩ = .ok served st) ∨
        ∃ st, Hierarchy.fetchInOneLine s ⟨h, counters, log⟩ = .error .arithmeticOverflow st ∧
          ¬ (counters.tally (h.step ⟨s, .fetch⟩)).InRange)) ∧
    (∃ sim, start g = .ok sim ∧ Hierarchy.Reachable g sim.caches) ∧
    ∀ sim refs, Hierarchy.Reachable g sim.caches → (∀ r ∈ refs, r.size ≤ maxReferenceBytes) →
      serveAll refs sim = serveAllGenerally refs sim := by
  refine ⟨?_, ?_, ?_⟩
  · intro h counters log s hreach hsize hone
    have hsound := hreach.soundFor
    have hst : (Station.mk h counters log).caches.SoundFor g := hsound
    have heq := Hierarchy.fetchInOneLine_eq_access hst hsize hone
    have hs : s.Fits := by
      refine (hsound .i1).sound.geometry.fits_of_holdsInOneLine hsize ?_
      rw [Hierarchy.holdsInOneLine, Bool.and_eq_true] at hone
      exact hone.2
    have haccess := hsound.access_yields (r := ⟨s, .fetch⟩) hs counters log
    refine ⟨heq, ?_⟩
    rw [heq]
    rcases haccess.run with ⟨hok, _⟩ | ⟨st, herror, hout⟩
    · exact Or.inl ⟨_, _, hok⟩
    · exact Or.inr ⟨st, herror, hout⟩
  · obtain ⟨new, hempty, hstart, _⟩ := start_of_sound hg
    exact ⟨_, hstart, .start (Hierarchy.ofSound_eq_ok.mpr ⟨hg, hempty⟩)⟩
  · intro sim refs hreach hsize
    exact serveAll_eq_serveAllGenerally hreach.soundFor hsize

theorem singleLine_eq_access_two_sets :
    HierarchyGeometry.Sound ⟨⟨64, 2, 16⟩, ⟨64, 1, 32⟩, ⟨128, 4, 16⟩⟩ ∧
    ∃ sim, start ⟨⟨64, 2, 16⟩, ⟨64, 1, 32⟩, ⟨128, 4, 16⟩⟩ = .ok sim ∧
      sim.caches.holdsInOneLine ⟨0x14, 8⟩ = true ∧
      Hierarchy.fetchInOneLine ⟨0x14, 8⟩ ⟨sim.caches, .zero, sim.log⟩ =
        Hierarchy.access .i1 ⟨0x14, 8⟩ ⟨sim.caches, .zero, sim.log⟩ ∧
      serveAll [⟨⟨0x14, 8⟩, .fetch⟩, ⟨⟨0x1C, 8⟩, .read⟩, ⟨⟨0x1C, 8⟩, .fetch⟩] sim =
        serveAllGenerally [⟨⟨0x14, 8⟩, .fetch⟩, ⟨⟨0x1C, 8⟩, .read⟩, ⟨⟨0x1C, 8⟩, .fetch⟩] sim := by
  have hg : HierarchyGeometry.Sound ⟨⟨64, 2, 16⟩, ⟨64, 1, 32⟩, ⟨128, 4, 16⟩⟩ := by decide
  obtain ⟨hcall, ⟨sim, hstart, hreach⟩, hrun⟩ := singleLine_eq_access hg
  have hone : sim.caches.holdsInOneLine ⟨0x14, 8⟩ = true := by
    have hi1 : sim.caches.i1.geometry = ⟨64, 2, 16⟩ := (hreach.soundFor .i1).geometry
    have hll : sim.caches.ll.geometry = ⟨128, 4, 16⟩ := (hreach.soundFor .ll).geometry
    rw [Hierarchy.holdsInOneLine, hi1, hll]
    decide
  exact ⟨hg, sim, hstart, hone, (hcall _ _ _ _ hreach (by decide) hone).1,
    hrun _ _ hreach (by decide)⟩

end Simulation

end CacheUsage
