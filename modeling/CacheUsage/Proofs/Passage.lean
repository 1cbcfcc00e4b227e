import CacheUsage.Proofs.Tally

namespace CacheUsage

namespace Station

variable {st : Station} {α β : Type}

def InRange (st : Station) : Prop := st.counters.InRange

theorem count_yields {read : Counters → Nat} {write : Counters → Nat → Counters} {n : Nat}
    (hwrite : (write st.counters (read st.counters + n)).InRange ↔
      st.counters.InRange ∧ read st.counters + n < Checked.limit) :
    Yields InRange .arithmeticOverflow (count read write n) st ()
      { st with counters := write st.counters (read st.counters + n) } := by
  refine ⟨fun h => (hwrite.mp h).1, ?_⟩
  by_cases hfit : read st.counters + n < Checked.limit
  · refine Or.inl ⟨?_, fun h => hwrite.mpr ⟨h, hfit⟩⟩
    rw [count, Checked.sum_eq_ok.mpr ⟨rfl, hfit⟩]
  · refine Or.inr ⟨st, ?_, fun h => hfit (hwrite.mp h).2⟩
    rw [count, Checked.sum, if_neg hfit]

theorem inCache_yields {level : Level} {op : CacheM α} {a : α} {cache : Cache}
    (h : op (st.caches.get level) = .ok a cache) :
    Yields InRange .arithmeticOverflow (inCache level op) st a
      { st with caches := st.caches.set level cache } := by
  refine Yields.of_ok ?_ Iff.rfl
  rw [inCache, h]

end Station

namespace Hierarchy

def SoundFor (g : HierarchyGeometry) (h : Hierarchy) : Prop :=
  ∀ level, (h.get level).SoundFor (g.get level)

variable {g : HierarchyGeometry} {h : Hierarchy} {r : Reference} {refs : List Reference}
  {counters : Counters} {log : Log} {level : Level} {s : Span}

theorem SoundFor.set {c : Cache} (hsound : SoundFor g h) (hc : c.SoundFor (g.get level)) :
    SoundFor g (Levels.set h level c) := by
  intro other
  by_cases heq : other = level
  · subst heq
    rwa [Levels.get_set_self]
  · rw [Levels.get_set_of_ne h c heq]
    exact hsound other

theorem SoundFor.stepOf {hit hit' : Bool} {first last : Cache} (hsound : SoundFor g h)
    (hfirst : first.SoundFor (g.get r.kind.firstLevel)) (hlast : last.SoundFor g.ll) :
    SoundFor g (h.stepOf r hit hit' first last).caches := by
  have hset : SoundFor g (h.set r.kind.firstLevel first) := hsound.set hfirst
  cases hit with
  | true => exact hset
  | false => exact hset.set hlast

theorem SoundFor.passed (hsound : SoundFor g h) (hr : r.toSpan.Fits) : SoundFor g (h.passed r) := by
  have hlast : (h.ll.accessed r.toSpan).SoundFor g.ll := (hsound .ll).accessed hr
  change SoundFor g (h.step r).caches
  rw [step_eq_stepOf]
  exact hsound.stepOf ((hsound r.kind.firstLevel).accessed hr) hlast

theorem passOn_yields {last : Except Fault (List Touch)} {hit : Bool} {cache : Cache}
    (hlast : Cache.perform last h.ll = .ok hit cache) :
    Yields Station.InRange .arithmeticOverflow (passOn level s last) ⟨h, counters, log⟩
      (if hit then .lastLevel else .memory)
      ⟨h.set .ll cache, { counters with
        firstMisses := counters.firstMisses + 1
        lastMisses := counters.lastMisses + if hit then 0 else 1
        lastWords := counters.lastWords + cache.wordsInUse },
        log.push (.firstLevelMiss level s ((h.set .ll cache).get level).wordsInUse
          cache.wordsInUse)⟩ := by
  refine Yields.bind (Station.count_yields ?_) ?_
  · simp only [Counters.inRange_iff]
    omega
  refine Yields.bind (Station.inCache_yields hlast) ?_
  have hrest : ∀ (c : Counters), Yields Station.InRange .arithmeticOverflow
      (do
        Station.addLastWords (← Station.wordsInUse .ll)
        Station.record (.firstLevelMiss level s (← Station.wordsInUse level)
          (← Station.wordsInUse .ll))
        return if hit then Served.lastLevel else .memory)
      ⟨h.set .ll cache, c, log⟩ (if hit then .lastLevel else .memory)
      ⟨h.set .ll cache, { c with lastWords := c.lastWords + cache.wordsInUse },
        log.push (.firstLevelMiss level s ((h.set .ll cache).get level).wordsInUse
          cache.wordsInUse)⟩ := by
    intro c
    refine Yields.bind (Yields.of_ok rfl Iff.rfl) ?_
    refine Yields.bind (Station.count_yields ?_) (Yields.of_ok rfl Iff.rfl)
    simp only [Counters.inRange_iff]
    omega
  cases hit with
  | true => exact hrest _
  | false =>
    refine Yields.bind (Station.count_yields ?_) (hrest _)
    simp only [Counters.inRange_iff]
    omega

theorem addFirstWords_yields (caches : Hierarchy) (c : Counters) (log : Log) (level : Level)
    (served : Served) :
    Yields Station.InRange .arithmeticOverflow
      (do
        Station.addFirstWords (← Station.wordsInUse level)
        return served)
      ⟨caches, c, log⟩ served
      ⟨caches, { c with firstWords := c.firstWords + (caches.get level).wordsInUse }, log⟩ := by
  refine Yields.bind (Yields.of_ok rfl Iff.rfl) ?_
  refine Yields.bind (Station.count_yields ?_) (Yields.of_ok rfl Iff.rfl)
  simp only [Counters.inRange_iff]
  omega

/-- Touches that neither level refuses take the step of the two verdicts, unless a counter leaves 64
bits. -/
theorem pass_yields {first last : Except Fault (List Touch)} {hit hit' : Bool} {cache cache' : Cache}
    (hfirst : Cache.perform first (h.get r.kind.firstLevel) = .ok hit cache)
    (hlast : Cache.perform last h.ll = .ok hit' cache') (counters : Counters) (log : Log) :
    Yields Station.InRange .arithmeticOverflow (pass r.kind.firstLevel r.toSpan first last)
      ⟨h, counters, log⟩ (h.stepOf r hit hit' cache cache').served
      ⟨(h.stepOf r hit hit' cache cache').caches,
        counters.tally (h.stepOf r hit hit' cache cache'),
        (h.stepOf r hit hit' cache cache').logged log⟩ := by
  refine Yields.bind (Station.count_yields ?_) ?_
  · simp only [Counters.inRange_iff]
    omega
  refine Yields.bind (Station.inCache_yields hfirst) ?_
  -- A step counts zero for what a hit leaves out, which is no different from not counting.
  cases hit with
  | true => exact Yields.bind (Yields.of_ok rfl Iff.rfl) (addFirstWords_yields _ _ _ _ _)
  | false =>
    have hbehind : Cache.perform last (h.set r.kind.firstLevel cache).ll = .ok hit' cache' := by
      rw [ll_set_firstLevel]
      exact hlast
    refine Yields.bind (passOn_yields hbehind) ?_
    cases hit' with
    | true => exact addFirstWords_yields _ _ _ _ _
    | false => exact addFirstWords_yields _ _ _ _ _

theorem SoundFor.access_yields (hsound : SoundFor g h) (hr : r.toSpan.Fits) (counters : Counters)
    (log : Log) :
    Yields Station.InRange .arithmeticOverflow (access r.kind.firstLevel r.toSpan)
      ⟨h, counters, log⟩ (h.step r).served
      ⟨(h.step r).caches, counters.tally (h.step r), (h.step r).logged log⟩ := by
  have hfirst := (hsound r.kind.firstLevel).sound.access_eq_ok hr
  have hlast : Cache.perform (h.ll.geometry.touches r.toSpan) h.ll =
      .ok (h.ll.hits r.toSpan) (h.ll.accessed r.toSpan) := (hsound .ll).sound.access_eq_ok hr
  have hpass := pass_yields (r := r) hfirst hlast counters log
  rw [← step_eq_stepOf] at hpass
  exact ⟨hpass.before, hpass.run⟩

end Hierarchy

end CacheUsage
