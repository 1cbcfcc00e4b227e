import CacheUsage.Proofs.Bounds

namespace CacheUsage

/-- A way to put parts together, two at a time. -/
inductive Merging (α : Type) where
  | nothing
  | part (a : α)
  | both (left right : Merging α)

namespace Counters

variable {α : Type} {f f' : α → Counters} {xs ys : List α}

def plusAll (f : α → Counters) (xs : List α) : Counters := xs.foldr (fun a c => (f a).plus c) zero

theorem plusAll_append : plusAll f (xs ++ ys) = (plusAll f xs).plus (plusAll f ys) := by
  induction xs with
  | nil => exact (zero_plus _).symm
  | cons a xs ih =>
    change (f a).plus (plusAll f (xs ++ ys)) = ((f a).plus (plusAll f xs)).plus (plusAll f ys)
    rw [ih, plus_assoc]

theorem plus_left_comm (a b c : Counters) : a.plus (b.plus c) = b.plus (a.plus c) := by
  rw [← plus_assoc, plus_comm a b, plus_assoc]

theorem plusAll_plus :
    plusAll (fun a => (f a).plus (f' a)) xs = (plusAll f xs).plus (plusAll f' xs) := by
  induction xs with
  | nil => rfl
  | cons a xs ih =>
    change ((f a).plus (f' a)).plus (plusAll (fun a => (f a).plus (f' a)) xs) =
      ((f a).plus (plusAll f xs)).plus ((f' a).plus (plusAll f' xs))
    rw [ih, plus_assoc, plus_assoc, plus_left_comm (f' a)]

theorem InRange.of_plusAll (h : (plusAll f xs).InRange) : ∀ a ∈ xs, (f a).InRange := by
  induction xs with
  | nil =>
    intro a ha
    cases ha
  | cons b xs ih =>
    have hparts : (f b).InRange ∧ (plusAll f xs).InRange := InRange.of_plus h
    exact List.forall_mem_cons.mpr ⟨hparts.1, ih hparts.2⟩

theorem plusAll_perm (h : xs.Perm ys) : plusAll f xs = plusAll f ys := by
  have : LeftCommutative fun a c => (f a).plus c := ⟨fun _ _ _ => plus_left_comm _ _ _⟩
  exact h.foldr_eq zero

end Counters

namespace Merging

variable {α : Type} {t : Merging α} {f : α → Counters} {count : α → Except Fault Counters}

def parts : Merging α → List α
  | nothing => []
  | part a => [a]
  | both left right => left.parts ++ right.parts

def sum (count : α → Except Fault Counters) : Merging α → Except Fault Counters
  | nothing => .ok .zero
  | part a => count a
  | both left right => do (← left.sum count).add (← right.sum count)

/-- A sum in 64 bits has only sums in 64 bits as its parts, so it matters little where it is cut. -/
theorem sum_eq_checked (hcount : ∀ a ∈ t.parts, count a = (f a).checked) :
    t.sum count = (Counters.plusAll f t.parts).checked := by
  induction t with
  | nothing => exact (Counters.checked_eq_ok.mpr ⟨rfl, Counters.inRange_zero⟩).symm
  | part a =>
    have hzero : Counters.plusAll f (part a).parts = f a := by simp [parts, Counters.plusAll]
    rw [sum, hzero]
    exact hcount a (List.mem_singleton.mpr rfl)
  | both left right ihl ihr =>
    have hleft := ihl fun a ha => hcount a (List.mem_append_left _ ha)
    have hright := ihr fun a ha => hcount a (List.mem_append_right _ ha)
    rw [sum, hleft, hright, parts, Counters.plusAll_append]
    exact Counters.checked_add_checked _ _

theorem sum_eq_of_perm {xs : List α} (hperm : t.parts.Perm xs)
    (hcount : ∀ a ∈ xs, count a = (f a).checked) :
    t.sum count = (Counters.plusAll f xs).checked := by
  rw [← Counters.plusAll_perm hperm]
  exact sum_eq_checked fun a ha => hcount a (hperm.mem_iff.mp ha)

end Merging

namespace Stats

variable {s : Stats} {steps later : List Step}

theorem get_tally_eq_plus (s : Stats) (x : Step) (kind : AccessKind) :
    (s.tally x).get kind = (s.get kind).plus ((zero.tally x).get kind) := by
  by_cases heq : kind = x.reference.kind
  · subst heq
    rw [tally, tally, get_set_self, get_set_self, get_zero]
    exact Counters.tally_eq_plus _ x
  · rw [tally, tally, get_set_of_ne s _ heq, get_set_of_ne zero _ heq, get_zero]
    exact (Counters.plus_zero _).symm

theorem get_tallyAll_eq_plus (s : Stats) (steps : List Step) (kind : AccessKind) :
    (s.tallyAll steps).get kind = (s.get kind).plus ((zero.tallyAll steps).get kind) := by
  induction steps generalizing s with
  | nil =>
    change s.get kind = (s.get kind).plus (zero.get kind)
    rw [get_zero, Counters.plus_zero]
  | cons x steps ih =>
    change ((s.tally x).tallyAll steps).get kind =
      (s.get kind).plus (((zero.tally x).tallyAll steps).get kind)
    rw [ih, ih (zero.tally x), get_tally_eq_plus, Counters.plus_assoc]

theorem get_tallyAll_append (kind : AccessKind) : (zero.tallyAll (steps ++ later)).get kind =
    ((zero.tallyAll steps).get kind).plus ((zero.tallyAll later).get kind) := by
  have happend : zero.tallyAll (steps ++ later) = (zero.tallyAll steps).tallyAll later :=
    List.foldl_append
  rw [happend, get_tallyAll_eq_plus]

theorem InRange.of_tallyAll_append (h : (zero.tallyAll (steps ++ later)).InRange) :
    (zero.tallyAll steps).InRange ∧ (zero.tallyAll later).InRange := by
  have hparts : ∀ kind, ((zero.tallyAll steps).get kind).InRange ∧
      ((zero.tallyAll later).get kind).InRange := by
    intro kind
    have hkind := h kind
    rw [get_tallyAll_append] at hkind
    exact hkind.of_plus
  exact ⟨fun kind => (hparts kind).1, fun kind => (hparts kind).2⟩

theorem total_eq_overflow (s : Stats) : s.total = .error .arithmeticOverflow ↔
    ¬ (s.fetch.plus (s.read.plus s.write)).InRange := by
  rw [total_eq_checked]
  exact Counters.checked_eq_overflow

theorem sum_eq_total (hs : s.InRange) {t : Merging AccessKind}
    (hperm : t.parts.Perm [.fetch, .read, .write]) :
    t.sum (fun kind => .ok (s.get kind)) = s.total := by
  have hall : Counters.plusAll s.get [.fetch, .read, .write] =
      (s.startingAt .i1).plus (s.startingAt .d1) := by
    change s.fetch.plus (s.read.plus (s.write.plus .zero)) = s.fetch.plus (s.read.plus s.write)
    rw [Counters.plus_zero]
  rw [total_eq_checked, ← hall]
  exact Merging.sum_eq_of_perm hperm fun kind _ => (Counters.checked_eq_ok.mpr ⟨rfl, hs kind⟩).symm

end Stats

structure Phase where
  steps : List Step
  stats : Stats

/-- The counters of the phases add up to those of the run, however they are put together. So do the
sums over kinds, where an overflow of the one is an overflow of the other. -/
structure Stats.SumsUp (s : Stats) (parts : List Phase) : Prop where
  counters : ∀ kind, ∀ t : Merging Phase, t.parts.Perm parts →
    t.sum (fun p => .ok (p.stats.get kind)) = .ok (s.get kind)
  data : ∀ t : Merging Phase, t.parts.Perm parts → t.sum (fun p => p.stats.data) = s.data
  total : ∀ t : Merging Phase, t.parts.Perm parts → t.sum (fun p => p.stats.total) = s.total

theorem Stats.sumsUp_of_plusAll {s : Stats} {parts : List Phase} (hs : s.InRange)
    (hparts : ∀ kind, Counters.plusAll (fun p : Phase => p.stats.get kind) parts = s.get kind) :
    s.SumsUp parts := by
  have hin : ∀ p ∈ parts, ∀ kind, (p.stats.get kind).InRange := by
    intro p hp kind
    have hkind := hs kind
    rw [← hparts kind] at hkind
    exact hkind.of_plusAll p hp
  have hfetch : Counters.plusAll (fun p : Phase => p.stats.startingAt .i1) parts =
      s.startingAt .i1 := hparts .fetch
  have hdata : Counters.plusAll (fun p : Phase => p.stats.startingAt .d1) parts =
      s.startingAt .d1 := by
    have hread : Counters.plusAll (fun p : Phase => p.stats.read) parts = s.read := hparts .read
    have hwrite : Counters.plusAll (fun p : Phase => p.stats.write) parts = s.write :=
      hparts .write
    exact Counters.plusAll_plus.trans (congrArg₂ Counters.plus hread hwrite)
  refine ⟨?_, ?_, ?_⟩
  · intro kind t hperm
    have hcount : ∀ p ∈ parts, Except.ok (p.stats.get kind) = (p.stats.get kind).checked :=
      fun p hp => (Counters.checked_eq_ok.mpr ⟨rfl, hin p hp kind⟩).symm
    rw [Merging.sum_eq_of_perm hperm hcount, hparts kind]
    exact Counters.checked_eq_ok.mpr ⟨rfl, hs kind⟩
  · intro t hperm
    rw [Merging.sum_eq_of_perm hperm fun p _ => Stats.data_eq_checked p.stats, hdata,
      Stats.data_eq_checked]
  · intro t hperm
    rw [Merging.sum_eq_of_perm hperm fun p _ => Stats.total_eq_checked p.stats,
      Counters.plusAll_plus, hfetch, hdata, Stats.total_eq_checked]

namespace Hierarchy

variable {g : HierarchyGeometry} {h : Hierarchy} {refs : List Reference}
  {phases : List (List Reference)}

def inPhases (h : Hierarchy) : List (List Reference) → List Phase
  | [] => []
  | refs :: rest =>
    ⟨h.steps refs, Stats.zero.tallyAll (h.steps refs)⟩ :: (h.after (h.steps refs)).inPhases rest

theorem flatMap_steps_inPhases :
    (h.inPhases phases).flatMap Phase.steps = h.steps phases.flatten := by
  induction phases generalizing h with
  | nil => rfl
  | cons refs rest ih =>
    rw [Hierarchy.inPhases, List.flatMap_cons, ih, List.flatten_cons, steps_append]

theorem map_references_inPhases :
    ((h.inPhases phases).map fun p => p.steps.map Step.reference) = phases := by
  induction phases generalizing h with
  | nil => rfl
  | cons refs rest ih => rw [Hierarchy.inPhases, List.map_cons, ih, map_reference_steps]

theorem plusAll_inPhases (kind : AccessKind) :
    Counters.plusAll (fun p => p.stats.get kind) (h.inPhases phases) =
      (Stats.zero.tallyAll (h.steps phases.flatten)).get kind := by
  induction phases generalizing h with
  | nil => exact (Stats.get_zero kind).symm
  | cons refs rest ih =>
    rw [List.flatten_cons, steps_append, Stats.get_tallyAll_append, ← ih]
    rfl

end Hierarchy

namespace Simulation

variable {g : HierarchyGeometry} {sim : Simulation} {refs : List Reference}
  {phases : List (List Reference)}

/-- Serves references with counters that start at zero. The caches stay as they are before. -/
def servePhase (refs : List Reference) : SimulationM Phase := do
  modify uncounted
  let steps ← observe refs
  return ⟨steps, (← get).stats⟩

def servePhases : List (List Reference) → SimulationM (List Phase)
  | [] => pure []
  | refs :: rest => do
    let part ← servePhase refs
    let later ← servePhases rest
    return part :: later

theorem servePhase_eq_ok (hsim : sim.caches.SoundFor g) (hr : ∀ r ∈ refs, r.toSpan.Fits)
    (hin : (Stats.zero.tallyAll (sim.caches.steps refs)).InRange) :
    servePhase refs sim =
      .ok ⟨sim.caches.steps refs, Stats.zero.tallyAll (sim.caches.steps refs)⟩
        (sim.uncounted.after (sim.caches.steps refs)) := by
  have hcaches : sim.uncounted.caches.SoundFor g := hsim
  have hobserve := (observe_yields hcaches hr).eq_ok hin
  change (observe refs >>= _) sim.uncounted = _
  rw [bind_eq_of_ok hobserve]
  rfl

theorem servePhases_eq_ok (hsim : sim.caches.SoundFor g)
    (hr : ∀ refs ∈ phases, ∀ r ∈ refs, r.toSpan.Fits)
    (hin : (Stats.zero.tallyAll (sim.caches.steps phases.flatten)).InRange) :
    ∃ last, servePhases phases sim = .ok (sim.caches.inPhases phases) last ∧
      last.uncounted = (sim.after (sim.caches.steps phases.flatten)).uncounted := by
  induction phases generalizing sim with
  | nil => exact ⟨sim, rfl, rfl⟩
  | cons refs rest ih =>
    obtain ⟨hrefs, hrest⟩ := List.forall_mem_cons.mp hr
    rw [List.flatten_cons, Hierarchy.steps_append] at hin ⊢
    obtain ⟨hpart, hlater⟩ := hin.of_tallyAll_append
    have hserve := servePhase_eq_ok hsim hrefs hpart
    have hnext : (sim.uncounted.after (sim.caches.steps refs)).caches.SoundFor g :=
      hsim.after hrefs
    -- Caches and log go on where this phase leaves them; its counters are gone with the next cut.
    obtain ⟨last, hok, hlast⟩ := ih hnext hrest hlater
    refine ⟨last, ?_, ?_⟩
    · rw [servePhases, bind_eq_of_ok hserve, bind_eq_of_ok hok]
      rfl
    · rw [hlast]
      simp only [uncounted, after, Hierarchy.after_append, Step.loggedAll, List.foldl_append]

/-- Whatever the counters are, a run that goes through takes the same steps to the same caches. -/
def IgnoresCounters (sim : Simulation) : Prop :=
  ∀ refs : List Reference, (∀ r ∈ refs, r.toSpan.Fits) → ∀ s s' steps steps' last last',
    observe refs { sim with stats := s } = .ok steps last →
    observe refs { sim with stats := s' } = .ok steps' last' →
    steps = steps' ∧ last.uncounted = last'.uncounted

theorem ignoresCounters (hsim : sim.caches.SoundFor g) : sim.IgnoresCounters := by
  intro refs hr s s' steps steps' last last' hok hok'
  have hcaches : (Simulation.mk sim.caches s sim.log).caches.SoundFor g := hsim
  have hcaches' : (Simulation.mk sim.caches s' sim.log).caches.SoundFor g := hsim
  obtain ⟨rfl, rfl⟩ := (observe_yields hcaches hr).eq_of_ok hok
  obtain ⟨rfl, rfl⟩ := (observe_yields hcaches' hr).eq_of_ok hok'
  exact ⟨rfl, rfl⟩

/-- A run whose counters fit 64 bits can be cut into phases that count for themselves: they take its
steps to its caches, and their counters add up to its counters. -/
theorem servePhases_sumUp (hg : g.Sound) (hr : ∀ refs ∈ phases, ∀ r ∈ refs, r.toSpan.Fits) :
    ∃ new sim, Hierarchy.empty g = .ok new ∧ start g = .ok sim ∧
      ((∀ kind, (Counters.recounted kind (new.steps phases.flatten)).InRange) →
        ∃ last parts last',
          serveAll phases.flatten sim = .ok ((new.steps phases.flatten).map Step.served) last ∧
          observe phases.flatten sim = .ok (new.steps phases.flatten) last ∧
          servePhases phases sim = .ok parts last' ∧
          (parts.map fun p => p.steps.map Step.reference) = phases ∧
          parts.flatMap Phase.steps = new.steps phases.flatten ∧
          last'.uncounted = last.uncounted ∧ last.stats.SumsUp parts) ∧
      (∀ sim', Reachable sim sim' → sim'.IgnoresCounters) ∧
      ∀ s : Stats, s.InRange →
        (s.total = .error .arithmeticOverflow ↔
          ¬ (s.fetch.plus (s.read.plus s.write)).InRange) ∧
        ∀ t : Merging AccessKind, t.parts.Perm [.fetch, .read, .write] →
          t.sum (fun kind => .ok (s.get kind)) = s.total := by
  obtain ⟨new, hempty, hstart, hsound⟩ := start_of_sound hg
  have hcaches : (Simulation.mk new .zero #[new.built]).caches.SoundFor g := hsound
  have hall : ∀ r ∈ phases.flatten, r.toSpan.Fits := by
    intro r hmem
    obtain ⟨refs, hrefs, hin⟩ := List.mem_flatten.mp hmem
    exact hr refs hrefs r hin
  refine ⟨new, _, hempty, hstart, fun hroom => ?_, fun sim' hreach => ?_, fun s hs => ?_⟩
  · have hin := (hsound.inRange_tallyAll_iff hall).mpr hroom
    obtain ⟨last', hphases, hlast⟩ := servePhases_eq_ok hcaches hr hin
    exact ⟨_, _, last', (serveAll_yields hcaches hall).eq_ok hin,
      (observe_yields hcaches hall).eq_ok hin, hphases, Hierarchy.map_references_inPhases,
      Hierarchy.flatMap_steps_inPhases, hlast,
      Stats.sumsUp_of_plusAll hin Hierarchy.plusAll_inPhases⟩
  · exact ignoresCounters (hreach.soundFor (g := g) hsound)
  · exact ⟨s.total_eq_overflow, fun t hperm => Stats.sum_eq_total hs hperm⟩

theorem servePhases_sumUp_two_phases :
    HierarchyGeometry.Sound ⟨⟨64, 2, 16⟩, ⟨64, 1, 32⟩, ⟨128, 4, 16⟩⟩ ∧
    (∀ refs : List Reference, refs ∈ [[⟨⟨0x14, 8⟩, .fetch⟩, ⟨⟨0x1C, 8⟩, .read⟩],
      [⟨⟨0x1C, 8⟩, .fetch⟩, ⟨⟨0x1C, 8⟩, .write⟩]] → ∀ r ∈ refs, r.toSpan.Fits) ∧
    ∃ sim last parts last', start ⟨⟨64, 2, 16⟩, ⟨64, 1, 32⟩, ⟨128, 4, 16⟩⟩ = .ok sim ∧
      serveAll [⟨⟨0x14, 8⟩, .fetch⟩, ⟨⟨0x1C, 8⟩, .read⟩, ⟨⟨0x1C, 8⟩, .fetch⟩,
        ⟨⟨0x1C, 8⟩, .write⟩] sim = .ok [.memory, .memory, .lastLevel, .firstLevel] last ∧
      servePhases [[⟨⟨0x14, 8⟩, .fetch⟩, ⟨⟨0x1C, 8⟩, .read⟩],
        [⟨⟨0x1C, 8⟩, .fetch⟩, ⟨⟨0x1C, 8⟩, .write⟩]] sim = .ok parts last' ∧
      last'.uncounted = last.uncounted ∧ last.stats.SumsUp parts ∧ sim.IgnoresCounters ∧
      Merging.sum (fun kind => .ok (Stats.get
        ⟨⟨0xFFFFFFFFFFFFFFFF, 0, 0, 0, 0⟩, ⟨1, 0, 0, 0, 0⟩, .zero⟩ kind))
        (.both (.both (.part .write) (.part .fetch)) (.part .read)) =
          .error .arithmeticOverflow := by
  -- The second phase finds in the caches what the first one left there. A sum of counters overflows
  -- also where the reads come last.
  have hg : HierarchyGeometry.Sound ⟨⟨64, 2, 16⟩, ⟨64, 1, 32⟩, ⟨128, 4, 16⟩⟩ := by decide
  have hr : ∀ refs : List Reference, refs ∈ [[⟨⟨0x14, 8⟩, .fetch⟩, ⟨⟨0x1C, 8⟩, .read⟩],
      [⟨⟨0x1C, 8⟩, .fetch⟩, ⟨⟨0x1C, 8⟩, .write⟩]] → ∀ r ∈ refs, r.toSpan.Fits := by decide
  obtain ⟨new, sim, hempty, hstart, hall, hignores, htotal⟩ := servePhases_sumUp hg hr
  obtain ⟨sim', last, hstart', hserve⟩ := outcomes?_eq_some.mp (show outcomes?
    ⟨⟨64, 2, 16⟩, ⟨64, 1, 32⟩, ⟨128, 4, 16⟩⟩
    [⟨⟨0x14, 8⟩, .fetch⟩, ⟨⟨0x1C, 8⟩, .read⟩, ⟨⟨0x1C, 8⟩, .fetch⟩, ⟨⟨0x1C, 8⟩, .write⟩] =
      some [.memory, .memory, .lastLevel, .firstLevel] by decide +kernel)
  cases hstart.symm.trans hstart'
  have hroom := inRange_of_serveAll_eq_ok hg (by decide) hempty hstart hserve
  obtain ⟨_, parts, last', hrun, _, hphases, _, _, hlast, hsums⟩ := hall hroom
  obtain ⟨_, rfl⟩ := EStateM.Result.ok.inj (hserve.symm.trans hrun)
  obtain ⟨hoverflow, hsum⟩ := htotal ⟨⟨0xFFFFFFFFFFFFFFFF, 0, 0, 0, 0⟩, ⟨1, 0, 0, 0, 0⟩, .zero⟩
    (by intro kind; cases kind <;> decide)
  exact ⟨hg, hr, sim, last, parts, last', hstart, hserve, hphases, hlast, hsums,
    hignores sim .start, (hsum _ (by decide)).trans (hoverflow.mpr (by decide))⟩

end Simulation

end CacheUsage
