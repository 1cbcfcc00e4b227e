import CacheUsage.Proofs.Start

namespace CacheUsage

namespace Cache

variable {g : Geometry} {ts : List Touch}

theorem touch_maintains {t : Touch} (ht : t.Regular g) : Maintains (SoundFor g) (touch t) := by
  intro c hc
  obtain ⟨hsound, rfl⟩ := hc
  rw [hsound.wellFormed.touch_eq_ok ht.below]
  exact ⟨⟨hsound.geometry, hsound.wellFormed.touched ht.below⟩, rfl⟩

theorem perform_maintains {split : Except Fault (List Touch)}
    (h : ∀ ts, split = .ok ts → ∀ t ∈ ts, t.Regular g) :
    Maintains (SoundFor g) (perform split) :=
  maintains_perform fun ts hts t ht => touch_maintains (h ts hts t ht)

theorem perform_eq_ok {c : Cache} (hc : c.SoundFor g) (ht : ∀ t ∈ ts, t.Regular g) :
    ∃ hit cache, perform (.ok ts) c = .ok hit cache ∧ cache.SoundFor g := by
  have hkeep := maintains_touchAll (fun t hmem => touch_maintains (ht t hmem)) c hc
  obtain ⟨hsound, rfl⟩ := hc
  have hok := hsound.wellFormed.touchAll_eq_ok fun t hmem => (ht t hmem).below
  rw [hok] at hkeep
  exact ⟨_, _, hok, hkeep⟩

inductive AccessReachable (new : Cache) : Cache → Prop where
  | start : AccessReachable new new
  | access {c : Cache} (s : Span) : AccessReachable new c →
      AccessReachable new (residue (access s c))

theorem access_maintains (s : Span) : Maintains (SoundFor g) (access s) := by
  intro c hc
  have hsplit : ∀ ts, c.geometry.touches s = .ok ts → ∀ t ∈ ts, t.Regular g := by
    rw [hc.geometry]
    exact fun ts hts => hc.sound_geometry.regular_of_touches hts
  exact perform_maintains hsplit c hc

theorem AccessReachable.soundFor {new c : Cache} (h : AccessReachable new c)
    (hnew : new.SoundFor g) : c.SoundFor g := by
  induction h with
  | start => exact hnew
  | access s _ ih => exact access_maintains s _ ih

end Cache

namespace Station

variable {g : HierarchyGeometry}

def SoundFor (g : HierarchyGeometry) (st : Station) : Prop := st.caches.SoundFor g

theorem count_maintains (read : Counters → Nat) (write : Counters → Nat → Counters) (n : Nat) :
    Maintains (SoundFor g) (count read write n) := by
  intro st hst
  unfold count
  split <;> exact hst

theorem wordsInUse_maintains (level : Level) : Maintains (SoundFor g) (wordsInUse level) :=
  fun _ hst => hst

theorem record_maintains (e : Event) : Maintains (SoundFor g) (record e) := fun _ hst => hst

theorem inCache_maintains {α : Type} (level : Level) {op : CacheM α}
    (hop : Maintains (Cache.SoundFor (g.get level)) op) :
    Maintains (SoundFor g) (inCache level op) := by
  intro st hst
  have hcache := hop (st.caches.get level) (hst level)
  unfold inCache
  cases hresult : op (st.caches.get level) with
  | ok a cache =>
    rw [hresult] at hcache
    exact Hierarchy.SoundFor.set hst hcache
  | error fault cache =>
    rw [hresult] at hcache
    exact Hierarchy.SoundFor.set hst hcache

end Station

namespace Hierarchy

variable {g : HierarchyGeometry} {h : Hierarchy} {level : Level} {s : Span}
  {first last : Except Fault (List Touch)}

theorem lineBytes_eq_of_holdsInOneLine (hsound : SoundFor g h) (hone : h.holdsInOneLine s = true) :
    g.i1.lineBytes = g.ll.lineBytes := by
  have hi1 : h.i1.geometry = g.i1 := (hsound .i1).geometry
  have hll : h.ll.geometry = g.ll := (hsound .ll).geometry
  have hbits : g.i1.lineBits = g.ll.lineBits := by
    simp only [holdsInOneLine, hi1, hll, Bool.and_eq_true, decide_eq_true_eq] at hone
    exact hone.1
  have hfirst : g.i1.lineBytes.toNat = 2 ^ g.i1.lineBits := (hsound .i1).sound_geometry.lineBytes_eq
  have hlast : g.ll.lineBytes.toNat = 2 ^ g.ll.lineBits := (hsound .ll).sound_geometry.lineBytes_eq
  apply UInt64.toNat_inj.mp
  rw [hfirst, hlast, hbits]

theorem passOn_maintains (hlast : ∀ ts, last = .ok ts → ∀ t ∈ ts, t.Regular g.ll) :
    Maintains (Station.SoundFor g) (passOn level s last) := by
  have hrest : ∀ served : Served, Maintains (Station.SoundFor g) (do
      Station.addLastWords (← Station.wordsInUse .ll)
      Station.record (.firstLevelMiss level s (← Station.wordsInUse level)
        (← Station.wordsInUse .ll))
      return served) := by
    intro served
    refine (Station.wordsInUse_maintains .ll).bind fun _ => ?_
    refine (Station.count_maintains _ _ _).bind fun _ => ?_
    refine (Station.wordsInUse_maintains level).bind fun _ => ?_
    refine (Station.wordsInUse_maintains .ll).bind fun _ => ?_
    exact (Station.record_maintains _).bind fun _ => Maintains.pure served
  refine (Station.count_maintains _ _ _).bind fun _ => ?_
  refine (Station.inCache_maintains .ll (Cache.perform_maintains hlast)).bind fun hit => ?_
  cases hit with
  | true => exact hrest .lastLevel
  | false => exact (Station.count_maintains _ _ _).bind fun _ => hrest .memory

theorem pass_maintains (hfirst : ∀ ts, first = .ok ts → ∀ t ∈ ts, t.Regular (g.get level))
    (hlast : ∀ ts, last = .ok ts → ∀ t ∈ ts, t.Regular g.ll) :
    Maintains (Station.SoundFor g) (pass level s first last) := by
  have hrest : ∀ served : Served, Maintains (Station.SoundFor g) (do
      Station.addFirstWords (← Station.wordsInUse level)
      return served) := by
    intro served
    refine (Station.wordsInUse_maintains level).bind fun _ => ?_
    exact (Station.count_maintains _ _ _).bind fun _ => Maintains.pure served
  refine (Station.count_maintains _ _ _).bind fun _ => ?_
  refine (Station.inCache_maintains level (Cache.perform_maintains hfirst)).bind fun hit => ?_
  cases hit with
  | true => exact (Maintains.pure Served.firstLevel).bind hrest
  | false => exact (passOn_maintains hlast).bind hrest

theorem access_maintains (level : Level) (s : Span) :
    Maintains (Station.SoundFor g) (access level s) := by
  intro st hst
  have hpass : Maintains (Station.SoundFor g)
      (pass level s ((g.get level).touches s) (g.ll.touches s)) :=
    pass_maintains (fun _ hts => (hst level).sound_geometry.regular_of_touches hts)
      fun _ hts => (hst .ll).sound_geometry.regular_of_touches hts
  have hll : st.caches.ll.geometry = g.ll := (hst .ll).geometry
  rw [access, (hst level).geometry, hll]
  exact hpass st hst

theorem fetchInOneLine_maintains (s : Span) :
    Maintains (Station.SoundFor g) (fetchInOneLine s) := by
  intro st hst
  unfold fetchInOneLine
  split_ifs with hone
  · -- The last level makes a touch found with the geometry of I1, in lines of the same size.
    have hline := lineBytes_eq_of_holdsInOneLine hst hone
    have hfirst : ∀ ts, (g.i1.firstTouch s).map ([·]) = .ok ts → ∀ t ∈ ts, t.Regular g.i1 := by
      intro ts hts t ht
      cases htouch : g.i1.firstTouch s with
      | error fault =>
        rw [htouch] at hts
        cases hts
      | ok u =>
        rw [htouch] at hts
        cases hts
        rw [List.mem_singleton.mp ht]
        exact (hst .i1).sound_geometry.regular_of_firstTouch htouch
    have hpass : Maintains (Station.SoundFor g)
        (pass .i1 s ((g.i1.firstTouch s).map ([·])) ((g.i1.firstTouch s).map ([·]))) :=
      pass_maintains hfirst fun ts hts t ht => (hfirst ts hts t ht).of_lineBytes_eq hline
    have hi1 : st.caches.i1.geometry = g.i1 := (hst .i1).geometry
    rw [hi1]
    exact hpass st hst
  · exact hst

inductive Call where
  | fetch (s : Span)
  | data (s : Span)
  | fetchInOneLine (s : Span)

def Call.run : Call → StationM Served
  | .fetch s => access .i1 s
  | .data s => access .d1 s
  | .fetchInOneLine s => Hierarchy.fetchInOneLine s

/-- What calls lead to from empty caches, each call made for any counters. A call that fails leaves
its caches too. -/
inductive Reachable (g : HierarchyGeometry) : Hierarchy → Prop where
  | start {h : Hierarchy} : ofSound g = .ok h → Reachable g h
  | call {h : Hierarchy} (c : Call) (counters : Counters) (log : Log) : Reachable g h →
      Reachable g (residue (c.run ⟨h, counters, log⟩)).caches

theorem Call.run_maintains (c : Call) : Maintains (Station.SoundFor g) c.run := by
  cases c with
  | fetch s => exact access_maintains .i1 s
  | data s => exact access_maintains .d1 s
  | fetchInOneLine s => exact fetchInOneLine_maintains s

theorem Reachable.soundFor (hreach : Reachable g h) : SoundFor g h := by
  induction hreach with
  | start hstart =>
    obtain ⟨hg, hempty⟩ := ofSound_eq_ok.mp hstart
    exact soundFor_of_empty hg hempty
  | call c counters log _ ih => exact c.run_maintains ⟨_, counters, log⟩ ih

end Hierarchy

end CacheUsage
