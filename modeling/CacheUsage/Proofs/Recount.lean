import CacheUsage.Proofs.Serving

namespace CacheUsage

namespace Step

variable {x : Step}

def isOf (kind : AccessKind) (x : Step) : Bool := x.reference.kind = kind

def Exact (x : Step) : Prop :=
  ∀ level, (x.caches.get level).wordsInUse = (x.caches.get level).recount

end Step

namespace Counters

variable {c : Counters} {x : Step} {steps : List Step} {kind : AccessKind}

/-- The steps of one kind: how many there are, how many missed the first level and both, and the
words in use there after each of them and in the last level after each first-level miss. -/
def recounted (kind : AccessKind) (steps : List Step) : Counters where
  references := (steps.filter (Step.isOf kind)).length
  firstMisses := (steps.filter (Step.isOf kind)).countP fun x => x.served ≠ .firstLevel
  lastMisses := (steps.filter (Step.isOf kind)).countP fun x => x.served = .memory
  firstWords := ((steps.filter (Step.isOf kind)).map fun x =>
    (x.caches.get kind.firstLevel).recount).sum
  lastWords := (((steps.filter (Step.isOf kind)).filter fun x => x.served ≠ .firstLevel).map fun x =>
    x.caches.ll.recount).sum

theorem recounted_cons_of_ne (h : x.reference.kind ≠ kind) :
    recounted kind (x :: steps) = recounted kind steps := by
  have hother : ¬ Step.isOf kind x = true := by simpa [Step.isOf] using h
  simp only [recounted, List.filter_cons_of_neg hother]

theorem recounted_cons (hx : x.Exact) :
    recounted x.reference.kind (x :: steps) =
      (zero.tally x).plus (recounted x.reference.kind steps) := by
  have hown : Step.isOf x.reference.kind x = true := by simp [Step.isOf]
  have hfirst := hx x.reference.kind.firstLevel
  have hlast : x.caches.ll.wordsInUse = x.caches.ll.recount := hx .ll
  simp only [recounted, plus, tally, zero, List.filter_cons_of_pos hown, Step.firstWords,
    Step.lastWords, hfirst, hlast]
  cases hserved : x.served with
  | firstLevel => simp [hserved, Served.isFirstMiss]; omega
  | lastLevel => simp [hserved, Served.isFirstMiss]; omega
  | memory => simp [hserved, Served.isFirstMiss]; omega

theorem recounted_misses_le (kind : AccessKind) (steps : List Step) :
    (recounted kind steps).lastMisses ≤ (recounted kind steps).firstMisses ∧
      (recounted kind steps).firstMisses ≤ (recounted kind steps).references := by
  refine ⟨List.countP_mono_left ?_, List.countP_le_length⟩
  intro x _ hx
  have hmemory : x.served = .memory := by simpa using hx
  simp [hmemory]

theorem sum_references_recounted (steps : List Step) :
    (recounted .fetch steps).references +
      ((recounted .read steps).references + (recounted .write steps).references) =
      steps.length := by
  induction steps with
  | nil => rfl
  | cons x steps ih =>
    simp only [recounted, ← List.countP_eq_length_filter, List.countP_cons, List.length_cons] at ih ⊢
    cases hkind : x.reference.kind with
    | fetch => simp [Step.isOf, hkind]; omega
    | read => simp [Step.isOf, hkind]; omega
    | write => simp [Step.isOf, hkind]; omega

end Counters

namespace Stats

variable {s : Stats} {steps : List Step}

theorem get_tallyAll (kind : AccessKind) (hexact : ∀ x ∈ steps, x.Exact) :
    (s.tallyAll steps).get kind = (s.get kind).plus (Counters.recounted kind steps) := by
  induction steps generalizing s with
  | nil => rfl
  | cons x steps ih =>
    have hrest := ih (s := s.tally x) fun y hy => hexact y (List.mem_cons_of_mem x hy)
    change ((s.tally x).tallyAll steps).get kind = _
    rw [hrest]
    by_cases heq : x.reference.kind = kind
    · subst heq
      rw [tally, get_set_self, Counters.recounted_cons (hexact x List.mem_cons_self),
        Counters.tally_eq_plus, Counters.plus_assoc]
    · rw [tally, get_set_of_ne s _ (Ne.symm heq), Counters.recounted_cons_of_ne heq]

structure Recounts (s : Stats) (steps : List Step) : Prop where
  counters : ∀ kind, s.get kind = Counters.recounted kind steps
  misses : ∀ kind, (s.get kind).lastMisses ≤ (s.get kind).firstMisses ∧
    (s.get kind).firstMisses ≤ (s.get kind).references
  total : (s.fetch.plus (s.read.plus s.write)).InRange →
    ∃ total, s.total = .ok total ∧ total.references = steps.length

theorem recounts_of_get (h : ∀ kind, s.get kind = Counters.recounted kind steps) :
    s.Recounts steps := by
  refine ⟨h, ?_, ?_⟩
  · intro kind
    rw [h kind]
    exact Counters.recounted_misses_le kind steps
  · intro hin
    have hfetch : s.fetch = Counters.recounted .fetch steps := h .fetch
    have hread : s.read = Counters.recounted .read steps := h .read
    have hwrite : s.write = Counters.recounted .write steps := h .write
    refine ⟨_, total_eq_ok.mpr ⟨rfl, hin⟩, ?_⟩
    rw [hfetch, hread, hwrite]
    exact Counters.sum_references_recounted steps

end Stats

namespace Hierarchy

variable {g : HierarchyGeometry} {h : Hierarchy} {refs : List Reference}

theorem SoundFor.exact (hsound : SoundFor g h) (level : Level) :
    (h.get level).wordsInUse = (h.get level).recount :=
  (hsound level).sound.wellFormed.wordsInUse_eq

theorem SoundFor.of_mem_steps (hsound : SoundFor g h) (hr : ∀ r ∈ refs, r.toSpan.Fits) :
    ∀ x ∈ h.steps refs, SoundFor g x.caches := by
  induction refs generalizing h with
  | nil =>
    intro x hx
    cases hx
  | cons r refs ih =>
    have hnext := hsound.passed (hr r List.mem_cons_self)
    intro x hx
    rcases List.mem_cons.mp hx with rfl | hlater
    · exact hnext
    · exact ih hnext (fun u hu => hr u (List.mem_cons_of_mem r hu)) x hlater

theorem SoundFor.after (hsound : SoundFor g h) (hr : ∀ r ∈ refs, r.toSpan.Fits) :
    SoundFor g (h.after (h.steps refs)) := by
  induction refs generalizing h with
  | nil => exact hsound
  | cons r refs ih =>
    have hnext := hsound.passed (hr r List.mem_cons_self)
    exact ih hnext fun u hu => hr u (List.mem_cons_of_mem r hu)

theorem SoundFor.exact_of_mem_steps (hsound : SoundFor g h) (hr : ∀ r ∈ refs, r.toSpan.Fits) :
    ∀ x ∈ h.steps refs, x.Exact :=
  fun x hx => (hsound.of_mem_steps hr x hx).exact

theorem SoundFor.get_tallyAll_zero (hsound : SoundFor g h) (hr : ∀ r ∈ refs, r.toSpan.Fits)
    (kind : AccessKind) :
    (Stats.zero.tallyAll (h.steps refs)).get kind = Counters.recounted kind (h.steps refs) := by
  rw [Stats.get_tallyAll kind (hsound.exact_of_mem_steps hr), Stats.get_zero, Counters.zero_plus]

theorem SoundFor.inRange_tallyAll_iff (hsound : SoundFor g h) (hr : ∀ r ∈ refs, r.toSpan.Fits) :
    (Stats.zero.tallyAll (h.steps refs)).InRange ↔
      ∀ kind, (Counters.recounted kind (h.steps refs)).InRange := by
  simp only [Stats.InRange, hsound.get_tallyAll_zero hr]

end Hierarchy

namespace Simulation

variable {g : HierarchyGeometry} {sim : Simulation} {refs : List Reference}

/-- Serves references in order, as `serveAll` does, and keeps the caches as they are after each. -/
def observe : List Reference → SimulationM (List Step)
  | [] => pure []
  | r :: rest => do
    let served ← serve r
    let caches ← Simulation.caches <$> get
    let later ← observe rest
    return ⟨r, served, caches⟩ :: later

theorem observe_yields (hsim : sim.caches.SoundFor g) (hr : ∀ r ∈ refs, r.toSpan.Fits) :
    Yields InRange .arithmeticOverflow (observe refs) sim (sim.caches.steps refs)
      (sim.after (sim.caches.steps refs)) := by
  induction refs generalizing sim with
  | nil => exact Yields.of_ok rfl Iff.rfl
  | cons r refs ih =>
    have hfit := hr r List.mem_cons_self
    have hnext : (sim.after [sim.caches.step r]).caches.SoundFor g := hsim.passed hfit
    have hrest := ih hnext fun u hu => hr u (List.mem_cons_of_mem r hu)
    refine (serve_yields hsim hfit).bind ?_
    refine Yields.bind (Yields.of_ok rfl Iff.rfl) ?_
    exact hrest.bind (Yields.of_ok rfl Iff.rfl)

theorem inRange_of_serveAll_eq_ok {new : Hierarchy} {served : List Served} {last : Simulation}
    (hg : g.Sound) (hr : ∀ r ∈ refs, r.toSpan.Fits) (hempty : Hierarchy.empty g = .ok new)
    (hstart : start g = .ok sim) (hserve : serveAll refs sim = .ok served last) :
    ∀ kind, (Counters.recounted kind (new.steps refs)).InRange := by
  obtain ⟨new', hempty', hstart', hsound⟩ := start_of_sound hg
  obtain rfl := Except.ok.inj (hempty.symm.trans hempty')
  obtain rfl := Except.ok.inj (hstart.symm.trans hstart')
  have hcaches : (Simulation.mk new .zero #[new.built]).caches.SoundFor g := hsound
  have hrun := serveAll_yields hcaches hr
  refine (hsound.inRange_tallyAll_iff hr).mp ?_
  by_contra hout
  obtain ⟨_, herror⟩ := hrun.eq_error Stats.inRange_zero hout
  cases hserve.symm.trans herror

/-- The counters of a run are those that its steps give when they are counted anew, and the run goes
through when these fit 64 bits. -/
theorem serveAll_recounts (hg : g.Sound) (hr : ∀ r ∈ refs, r.toSpan.Fits) :
    ∃ new sim, Hierarchy.empty g = .ok new ∧ start g = .ok sim ∧
      ((∀ kind, (Counters.recounted kind (new.steps refs)).InRange) → ∃ last,
        serveAll refs sim = .ok ((new.steps refs).map Step.served) last ∧
        observe refs sim = .ok (new.steps refs) last ∧
        (new.steps refs).map Step.reference = refs ∧ last.stats.Recounts (new.steps refs)) ∧
      ((¬ ∀ kind, (Counters.recounted kind (new.steps refs)).InRange) → ∃ last,
        serveAll refs sim = .error .arithmeticOverflow last) := by
  obtain ⟨new, hempty, hstart, hsound⟩ := start_of_sound hg
  have hcaches : (Simulation.mk new .zero #[new.built]).caches.SoundFor g := hsound
  have hrun := serveAll_yields hcaches hr
  have hobserve := observe_yields hcaches hr
  have hrange := hsound.inRange_tallyAll_iff hr
  refine ⟨new, _, hempty, hstart, ?_, ?_⟩
  · intro hin
    have hfit := hrange.mpr hin
    exact ⟨_, hrun.eq_ok hfit, hobserve.eq_ok hfit, Hierarchy.map_reference_steps,
      Stats.recounts_of_get (hsound.get_tallyAll_zero hr)⟩
  · intro hout
    exact hrun.eq_error Stats.inRange_zero (mt hrange.mp hout)

theorem serveAll_recounts_three_kinds :
    HierarchyGeometry.Sound ⟨⟨64, 2, 16⟩, ⟨64, 1, 32⟩, ⟨128, 2, 32⟩⟩ ∧
    (∀ r : Reference, r ∈ [⟨⟨0x1C, 8⟩, .fetch⟩, ⟨⟨0x1C, 8⟩, .read⟩, ⟨⟨0x20, 4⟩, .write⟩] →
      r.toSpan.Fits) ∧
    ∃ new sim last, Hierarchy.empty ⟨⟨64, 2, 16⟩, ⟨64, 1, 32⟩, ⟨128, 2, 32⟩⟩ = .ok new ∧
      start ⟨⟨64, 2, 16⟩, ⟨64, 1, 32⟩, ⟨128, 2, 32⟩⟩ = .ok sim ∧
      serveAll [⟨⟨0x1C, 8⟩, .fetch⟩, ⟨⟨0x1C, 8⟩, .read⟩, ⟨⟨0x20, 4⟩, .write⟩] sim =
        .ok [.memory, .lastLevel, .firstLevel] last ∧
      observe [⟨⟨0x1C, 8⟩, .fetch⟩, ⟨⟨0x1C, 8⟩, .read⟩, ⟨⟨0x20, 4⟩, .write⟩] sim =
        .ok (new.steps [⟨⟨0x1C, 8⟩, .fetch⟩, ⟨⟨0x1C, 8⟩, .read⟩, ⟨⟨0x20, 4⟩, .write⟩]) last ∧
      last.stats.Recounts
        (new.steps [⟨⟨0x1C, 8⟩, .fetch⟩, ⟨⟨0x1C, 8⟩, .read⟩, ⟨⟨0x20, 4⟩, .write⟩]) := by
  have hg : HierarchyGeometry.Sound ⟨⟨64, 2, 16⟩, ⟨64, 1, 32⟩, ⟨128, 2, 32⟩⟩ := by decide
  have hr : ∀ r : Reference, r ∈ [⟨⟨0x1C, 8⟩, .fetch⟩, ⟨⟨0x1C, 8⟩, .read⟩, ⟨⟨0x20, 4⟩, .write⟩] →
      r.toSpan.Fits := by decide
  obtain ⟨new, sim, hempty, hstart, hfits, _⟩ := serveAll_recounts hg hr
  have houtcomes : outcomes? ⟨⟨64, 2, 16⟩, ⟨64, 1, 32⟩, ⟨128, 2, 32⟩⟩
      [⟨⟨0x1C, 8⟩, .fetch⟩, ⟨⟨0x1C, 8⟩, .read⟩, ⟨⟨0x20, 4⟩, .write⟩] =
        some [.memory, .lastLevel, .firstLevel] := by decide +kernel
  obtain ⟨sim', last, hstart', hserve⟩ := outcomes?_eq_some.mp houtcomes
  have hsim := Except.ok.inj (hstart'.symm.trans hstart)
  subst hsim
  have hin := inRange_of_serveAll_eq_ok hg hr hempty hstart hserve
  obtain ⟨last', hrun, hobserve, _, hstats⟩ := hfits hin
  obtain ⟨_, hlast⟩ := EStateM.Result.ok.inj (hserve.symm.trans hrun)
  subst hlast
  exact ⟨hg, hr, new, _, _, hempty, hstart, hserve, hobserve, hstats⟩

end Simulation

end CacheUsage
