import CacheUsage.Proofs.Recount

namespace CacheUsage

namespace Event

def cache? : Event → Option Level
  | .firstLevelMiss cache _ _ _ => some cache
  | _ => none

def lastUsed : Event → Nat
  | .firstLevelMiss _ _ _ lastUsed => lastUsed
  | _ => 0

end Event

def missesIn (log : Log) : List Event :=
  log.toList.filter fun e => e.severity = .trace ∧ e.message = "first-level miss"

def missesAt (level : Level) (log : Log) : List Event :=
  (missesIn log).filter fun e => e.cache? = some level

namespace Step

variable {x : Step} {log : Log} {steps : List Step} {level : Level}

/-- The event of a first-level miss, with the words in use counted anew. -/
def missEvent (x : Step) : Event :=
  .firstLevelMiss x.reference.kind.firstLevel x.reference.toSpan
    (x.caches.get x.reference.kind.firstLevel).recount x.caches.ll.recount

theorem missesIn_logged (hx : x.Exact) : missesIn (x.logged log) =
    missesIn log ++ if x.served ≠ .firstLevel then [x.missEvent] else [] := by
  have hfirst : x.firstWords = (x.caches.get x.reference.kind.firstLevel).recount := hx _
  have hlast : x.lastWords = x.caches.ll.recount := hx .ll
  unfold logged missEvent
  rw [hfirst, hlast]
  cases x.served with
  | firstLevel => simp [Served.isFirstMiss]
  | lastLevel => simp [Served.isFirstMiss, missesIn, Event.severity, Event.message]
  | memory => simp [Served.isFirstMiss, missesIn, Event.severity, Event.message]

theorem missesIn_loggedAll (hexact : ∀ x ∈ steps, x.Exact) : missesIn (loggedAll steps log) =
    missesIn log ++ (steps.filter fun x => x.served ≠ .firstLevel).map missEvent := by
  induction steps generalizing log with
  | nil => simp [loggedAll]
  | cons x steps ih =>
    have hrest := @ih (x.logged log) fun y hy => hexact y (List.mem_cons_of_mem x hy)
    change missesIn (loggedAll steps (x.logged log)) = _
    rw [hrest, missesIn_logged (hexact x List.mem_cons_self), List.append_assoc, List.filter_cons]
    split_ifs <;> simp_all

theorem missesAt_logged (hx : x.Exact) (level : Level) : missesAt level (x.logged log) =
    missesAt level log ++
      if x.served ≠ .firstLevel ∧ x.reference.kind.firstLevel = level then [x.missEvent]
      else [] := by
  have hcache : x.missEvent.cache? = some x.reference.kind.firstLevel := rfl
  rw [missesAt, missesIn_logged hx, List.filter_append, ← missesAt]
  by_cases hserved : x.served = .firstLevel
  · simp [hserved]
  · by_cases hlevel : x.reference.kind.firstLevel = level
    · simp [hserved, hlevel, hcache]
    · simp [hserved, hlevel, hcache]

end Step

/-- The logged misses of each first-level cache are those that its counters have, with the same
words in the last level. -/
structure Stats.ToldBy (log : Log) (s : Stats) : Prop where
  firstMisses : ∀ level, (s.startingAt level).firstMisses = (missesAt level log).length
  lastWords : ∀ level, (s.startingAt level).lastWords =
    ((missesAt level log).map Event.lastUsed).sum

namespace Stats

variable {s : Stats} {log : Log} {x : Step} {steps : List Step}

theorem ToldBy.tally (h : s.ToldBy log) (hx : x.Exact) : (s.tally x).ToldBy (x.logged log) := by
  have hlast : x.lastWords = x.missEvent.lastUsed := hx .ll
  refine ⟨fun level => ?_, fun level => ?_⟩
  · have hbefore := h.firstMisses level
    rw [startingAt_tally, Step.missesAt_logged hx, List.length_append, ← hbefore]
    by_cases hlevel : x.reference.kind.firstLevel = level
    · cases hserved : x.served <;> simp [hlevel, hserved, Served.isFirstMiss, Counters.tally]
    · simp [hlevel]
  · have hbefore := h.lastWords level
    rw [startingAt_tally, Step.missesAt_logged hx, List.map_append, List.sum_append, ← hbefore]
    by_cases hlevel : x.reference.kind.firstLevel = level
    · cases hserved : x.served <;> simp [hlevel, hserved, hlast, Served.isFirstMiss, Counters.tally]
    · simp [hlevel]

theorem ToldBy.tallyAll (h : s.ToldBy log) (hexact : ∀ x ∈ steps, x.Exact) :
    (s.tallyAll steps).ToldBy (Step.loggedAll steps log) := by
  induction steps generalizing s log with
  | nil => exact h
  | cons x steps ih =>
    obtain ⟨hhead, hrest⟩ := List.forall_mem_cons.mp hexact
    exact ih (h.tally hhead) hrest

end Stats

namespace Simulation

variable {g : HierarchyGeometry} {refs : List Reference}

structure LogTells (last : Simulation) (steps : List Step) : Prop where
  events : missesIn last.log = (steps.filter fun x => x.served ≠ .firstLevel).map Step.missEvent
  fetch : last.stats.fetch.firstMisses = (missesAt .i1 last.log).length ∧
    last.stats.fetch.lastWords = ((missesAt .i1 last.log).map Event.lastUsed).sum
  readWrite : last.stats.read.firstMisses + last.stats.write.firstMisses =
      (missesAt .d1 last.log).length ∧
    last.stats.read.lastWords + last.stats.write.lastWords =
      ((missesAt .d1 last.log).map Event.lastUsed).sum
  data : ∀ c, last.stats.data = .ok c → c.firstMisses = (missesAt .d1 last.log).length ∧
    c.lastWords = ((missesAt .d1 last.log).map Event.lastUsed).sum

/-- A run whose counters fit 64 bits logs its first-level misses in order, one event for each, with
the words that are in use right after it. -/
theorem serveAll_logs (hg : g.Sound) (hr : ∀ r ∈ refs, r.toSpan.Fits) :
    ∃ new sim, Hierarchy.empty g = .ok new ∧ start g = .ok sim ∧
      ((∀ kind, (Counters.recounted kind (new.steps refs)).InRange) → ∃ last,
        serveAll refs sim = .ok ((new.steps refs).map Step.served) last ∧
        observe refs sim = .ok (new.steps refs) last ∧
        (new.steps refs).map Step.reference = refs ∧ last.LogTells (new.steps refs)) := by
  obtain ⟨new, hempty, hstart, hsound⟩ := start_of_sound hg
  have hcaches : (Simulation.mk new .zero #[new.built]).caches.SoundFor g := hsound
  have hexact := hsound.exact_of_mem_steps hr
  have hlog : missesIn #[new.built] = [] := by simp [missesIn, Hierarchy.built, Event.severity]
  have hnone : ∀ level, missesAt level #[new.built] = [] := fun level => by
    rw [missesAt, hlog, List.filter_nil]
  have hzero : Stats.zero.ToldBy #[new.built] := by
    refine ⟨fun level => ?_, fun level => ?_⟩ <;> rw [hnone] <;> cases level <;> rfl
  have htold := hzero.tallyAll hexact
  refine ⟨new, _, hempty, hstart, fun hall => ?_⟩
  have hin := (hsound.inRange_tallyAll_iff hr).mpr hall
  refine ⟨_, (serveAll_yields hcaches hr).eq_ok hin, (observe_yields hcaches hr).eq_ok hin,
    Hierarchy.map_reference_steps, ?_, ⟨htold.firstMisses .i1, htold.lastWords .i1⟩,
    ⟨htold.firstMisses .d1, htold.lastWords .d1⟩, ?_⟩
  · have hevents : missesIn (Step.loggedAll (new.steps refs) #[new.built]) = _ :=
      Step.missesIn_loggedAll hexact
    rwa [hlog, List.nil_append] at hevents
  · intro c hc
    obtain ⟨rfl, _⟩ := Counters.add_eq_ok.mp hc
    exact ⟨htold.firstMisses .d1, htold.lastWords .d1⟩

theorem serveAll_logs_three_misses :
    HierarchyGeometry.Sound ⟨⟨64, 2, 16⟩, ⟨64, 1, 32⟩, ⟨128, 4, 16⟩⟩ ∧
    (∀ r : Reference, r ∈ [⟨⟨0x14, 8⟩, .fetch⟩, ⟨⟨0x1C, 8⟩, .read⟩, ⟨⟨0x1C, 8⟩, .fetch⟩,
      ⟨⟨0x1C, 8⟩, .write⟩] → r.toSpan.Fits) ∧
    ∃ new sim last, Hierarchy.empty ⟨⟨64, 2, 16⟩, ⟨64, 1, 32⟩, ⟨128, 4, 16⟩⟩ = .ok new ∧
      start ⟨⟨64, 2, 16⟩, ⟨64, 1, 32⟩, ⟨128, 4, 16⟩⟩ = .ok sim ∧
      (∀ kind, (Counters.recounted kind (new.steps [⟨⟨0x14, 8⟩, .fetch⟩, ⟨⟨0x1C, 8⟩, .read⟩,
        ⟨⟨0x1C, 8⟩, .fetch⟩, ⟨⟨0x1C, 8⟩, .write⟩])).InRange) ∧
      serveAll [⟨⟨0x14, 8⟩, .fetch⟩, ⟨⟨0x1C, 8⟩, .read⟩, ⟨⟨0x1C, 8⟩, .fetch⟩,
        ⟨⟨0x1C, 8⟩, .write⟩] sim = .ok [.memory, .memory, .lastLevel, .firstLevel] last ∧
      (missesIn last.log).length = 3 ∧
      last.LogTells (new.steps [⟨⟨0x14, 8⟩, .fetch⟩, ⟨⟨0x1C, 8⟩, .read⟩, ⟨⟨0x1C, 8⟩, .fetch⟩,
        ⟨⟨0x1C, 8⟩, .write⟩]) := by
  -- Fetches on both paths, a read that misses both levels and a write that hits.
  have hg : HierarchyGeometry.Sound ⟨⟨64, 2, 16⟩, ⟨64, 1, 32⟩, ⟨128, 4, 16⟩⟩ := by decide
  have hr : ∀ r : Reference, r ∈ [⟨⟨0x14, 8⟩, .fetch⟩, ⟨⟨0x1C, 8⟩, .read⟩, ⟨⟨0x1C, 8⟩, .fetch⟩,
      ⟨⟨0x1C, 8⟩, .write⟩] → r.toSpan.Fits := by decide
  obtain ⟨new, sim, hempty, hstart, hall⟩ := serveAll_logs hg hr
  have hnew : new = ⟨.blank ⟨64, 2, 16⟩ 2, .blank ⟨64, 1, 32⟩ 2, .blank ⟨128, 4, 16⟩ 2⟩ :=
    Except.ok.inj (hempty.symm.trans rfl)
  subst hnew
  have hin : ∀ kind, (Counters.recounted kind (Hierarchy.steps
      ⟨.blank ⟨64, 2, 16⟩ 2, .blank ⟨64, 1, 32⟩ 2, .blank ⟨128, 4, 16⟩ 2⟩
      [⟨⟨0x14, 8⟩, .fetch⟩, ⟨⟨0x1C, 8⟩, .read⟩, ⟨⟨0x1C, 8⟩, .fetch⟩,
        ⟨⟨0x1C, 8⟩, .write⟩])).InRange := by
    intro kind
    cases kind <;> decide +kernel
  have hserved : (Hierarchy.steps
      ⟨.blank ⟨64, 2, 16⟩ 2, .blank ⟨64, 1, 32⟩ 2, .blank ⟨128, 4, 16⟩ 2⟩
      [⟨⟨0x14, 8⟩, .fetch⟩, ⟨⟨0x1C, 8⟩, .read⟩, ⟨⟨0x1C, 8⟩, .fetch⟩,
        ⟨⟨0x1C, 8⟩, .write⟩]).map Step.served = [.memory, .memory, .lastLevel, .firstLevel] := by
    decide +kernel
  obtain ⟨last, hserve, _, _, htells⟩ := hall hin
  rw [hserved] at hserve
  refine ⟨hg, hr, _, sim, last, hempty, hstart, hin, hserve, ?_, htells⟩
  rw [htells.events, List.length_map, ← List.countP_eq_length_filter]
  decide +kernel

end Simulation

end CacheUsage
