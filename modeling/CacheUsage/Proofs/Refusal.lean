import CacheUsage.Levels.Json
import CacheUsage.Proofs.Serving

namespace CacheUsage

namespace Span

/-- Where the last byte of a span would be if addresses had no top. An empty span counts as one
byte. -/
def top (s : Span) : Nat := s.addr.toNat + max s.size.toNat 1 - 1

end Span

namespace Geometry

variable {g : Geometry} {s : Span}

theorem Sound.holdsInOneLine_iff (h : g.Sound) : g.holdsInOneLine s = true ↔ s.top < 2 ^ 64 ∧
    s.addr.toNat / g.lineBytes.toNat = s.top / g.lineBytes.toNat := by
  have hend := h.usableLine.lineEnd_le s.addr
  have hoff := Nat.mod_lt s.addr.toNat h.lineBytes_pos
  have hsplit := Nat.div_add_mod s.addr.toNat g.lineBytes.toNat
  rw [holdsInOneLine, decide_eq_true_iff, h.usableLine.block_eq_last_iff, Span.top]
  constructor
  · intro hin
    refine ⟨by omega, ?_⟩
    symm
    refine Nat.div_eq_of_lt_le ?_ ?_
    · rw [Nat.mul_comm]
      omega
    · rw [Nat.mul_comm, Nat.mul_succ]
      omega
  · intro h'
    have hoff' := Nat.mod_lt (s.addr.toNat + max s.size.toNat 1 - 1) h.lineBytes_pos
    have hsplit' := Nat.div_add_mod (s.addr.toNat + max s.size.toNat 1 - 1) g.lineBytes.toNat
    rw [← h'.2] at hsplit'
    omega

def refusal (g : Geometry) (s : Span) : Fault :=
  if maxReferenceBytes < s.size then .precondition (.width s.size)
  else .shape (.beyondNextLine s (g.block s.addr) (g.block s.last))

theorem Sound.touches_eq_refusal (h : g.Sound) (hs : ¬ s.Fits) :
    g.touches s = .error (g.refusal s) := by
  by_cases hwide : maxReferenceBytes < s.size
  · rw [touches_of_wide hwide, refusal, if_pos hwide]
  · have hnarrow : s.size ≤ maxReferenceBytes := UInt8.not_lt.mp hwide
    have hover : 2 ^ 64 ≤ s.addr.toNat + max s.size.toNat 1 - 1 := by
      by_contra hin
      exact hs ⟨hnarrow, by omega⟩
    rw [h.touches_of_wrap hnarrow hover, refusal, if_neg hwide]

end Geometry

theorem HierarchyGeometry.sound_of_ofJson {text : String} {g : HierarchyGeometry}
    (h : ofJson text = .ok g) : g.Sound := by
  unfold ofJson at h
  split at h
  next read _ =>
    obtain ⟨hsound, rfl⟩ := checked_eq_ok.mp h
    exact hsound
  next => cases h

namespace Hierarchy

variable {g : HierarchyGeometry} {h : Hierarchy} {r : Reference} {level : Level} {s : Span}
  {counters : Counters} {log : Log}

theorem SoundFor.holdsInOneLine_iff (hsound : SoundFor g h) : h.holdsInOneLine s = true ↔
    g.i1.lineBytes = g.ll.lineBytes ∧ s.top < 2 ^ 64 ∧
      s.addr.toNat / g.i1.lineBytes.toNat = s.top / g.i1.lineBytes.toNat := by
  have hi1 : h.i1.geometry = g.i1 := (hsound .i1).geometry
  have hll : h.ll.geometry = g.ll := (hsound .ll).geometry
  have hinside : g.i1.holdsInOneLine s = true ↔ _ := (hsound .i1).sound_geometry.holdsInOneLine_iff
  constructor
  · intro hone
    refine ⟨lineBytes_eq_of_holdsInOneLine hsound hone, hinside.mp ?_⟩
    rw [holdsInOneLine, Bool.and_eq_true, hi1] at hone
    exact hone.2
  · intro h'
    obtain ⟨hline, hsame⟩ := h'
    have hbits : g.i1.lineBits = g.ll.lineBits := by rw [Geometry.lineBits, hline, Geometry.lineBits]
    rw [holdsInOneLine, hi1, hll, hbits, Bool.and_eq_true, decide_eq_true_eq]
    exact ⟨rfl, hinside.mpr hsame⟩

/-- The reference does not take the path for one line, and is too wide or runs past the top of the
address space. -/
def Refuses (h : Hierarchy) (r : Reference) : Prop :=
  ¬ (r.kind = .fetch ∧ h.holdsInOneLine r.toSpan = true) ∧
    (maxReferenceBytes < r.size ∨ r.size ≤ maxReferenceBytes ∧ 2 ^ 64 ≤ r.toSpan.top)

theorem refuses_iff : h.Refuses r ↔
    ¬ (r.kind = .fetch ∧ h.holdsInOneLine r.toSpan = true) ∧ ¬ r.toSpan.Fits := by
  refine and_congr_right fun _ => ?_
  constructor
  · intro hcause hfit
    rcases hcause with hwide | ⟨_, htop⟩
    · exact UInt8.not_lt.mpr hfit.narrow hwide
    · have hinside : r.toSpan.top < 2 ^ 64 := hfit.inside
      omega
  · intro hnot
    by_cases hwide : maxReferenceBytes < r.size
    · exact Or.inl hwide
    · refine Or.inr ⟨UInt8.not_lt.mp hwide, ?_⟩
      by_contra htop
      exact hnot ⟨UInt8.not_lt.mp hwide, by simpa [Span.top] using htop⟩

theorem pass_eq_error {fault : Fault} {last : Except Fault (List Touch)}
    (hroom : counters.references + 1 < Checked.limit) :
    pass level s (.error fault) last ⟨h, counters, log⟩ =
      .error fault ⟨h, { counters with references := counters.references + 1 }, log⟩ := by
  have hcount : Station.countReference ⟨h, counters, log⟩ =
      .ok () ⟨h, { counters with references := counters.references + 1 }, log⟩ := by
    rw [Station.countReference, Station.count, Checked.sum_eq_ok.mpr ⟨rfl, hroom⟩]
  have hfirst : Station.inCache level (Cache.perform (.error fault))
      ⟨h, { counters with references := counters.references + 1 }, log⟩ =
        .error fault ⟨h, { counters with references := counters.references + 1 }, log⟩ := by
    change EStateM.Result.error fault (Station.mk (Levels.set h level (Levels.get h level)) _ _) = _
    rw [Levels.set_get_self]
  rw [pass, bind_eq_of_ok hcount, bind_eq_of_error hfirst]

theorem pass_of_full {first last : Except Fault (List Touch)}
    (hfull : ¬ counters.references + 1 < Checked.limit) :
    pass level s first last ⟨h, counters, log⟩ =
      .error .arithmeticOverflow ⟨h, counters, log⟩ := by
  have hcount : Station.countReference ⟨h, counters, log⟩ =
      .error .arithmeticOverflow ⟨h, counters, log⟩ := by
    rw [Station.countReference, Station.count, Checked.sum, if_neg hfull]
  rw [pass, bind_eq_of_error hcount]

theorem SoundFor.path_of_refuses (hsound : SoundFor g h) (hr : h.Refuses r)
    (hroom : counters.references + 1 < Checked.limit) :
    Simulation.path h r ⟨h, counters, log⟩ =
      .error ((g.get r.kind.firstLevel).refusal r.toSpan)
        ⟨h, { counters with references := counters.references + 1 }, log⟩ := by
  obtain ⟨hgeneral, hnot⟩ := refuses_iff.mp hr
  have hfirst := hsound r.kind.firstLevel
  have htouches := hfirst.sound_geometry.touches_eq_refusal hnot
  rw [Simulation.path, if_neg hgeneral, access]
  change pass _ _ ((Levels.get h r.kind.firstLevel).geometry.touches r.toSpan) _ _ = _
  rw [hfirst.geometry, htouches]
  exact pass_eq_error hroom

theorem SoundFor.inRange_tally_zero {x : Step} (hx : SoundFor g x.caches) :
    (Counters.zero.tally x).InRange := by
  have hfirst : x.firstWords < Checked.limit :=
    (hx x.reference.kind.firstLevel).sound.wellFormed.wordsInUse_lt
  have hlast : x.lastWords < Checked.limit := (hx .ll).sound.wellFormed.wordsInUse_lt
  have hlimit : 1 < Checked.limit := by decide
  rw [Counters.inRange_iff]
  simp only [Counters.tally, Counters.zero]
  split_ifs <;> omega

theorem SoundFor.exists_fetchInOneLine_yields (hsound : SoundFor g h)
    (hone : h.holdsInOneLine s = true) :
    ∃ x : Step, SoundFor g x.caches ∧ ∀ counters log,
      Yields Station.InRange .arithmeticOverflow (fetchInOneLine s) ⟨h, counters, log⟩ x.served
        ⟨x.caches, counters.tally x, x.logged log⟩ := by
  have hi1 := hsound .i1
  have hgeometry : h.i1.geometry = g.i1 := hi1.geometry
  -- The span may be of any width here, so the split of narrow spans does not apply.
  obtain ⟨t, ht⟩ := hi1.sound_geometry.exists_firstTouch s
  have htouch : g.i1.firstTouch s = .ok t := ht
  have hregular := hi1.sound_geometry.regular_of_firstTouch ht
  have hline := lineBytes_eq_of_holdsInOneLine hsound hone
  have hregular' : t.Regular (g.get .ll) := hregular.of_lineBytes_eq hline
  obtain ⟨hit, first, hfirst, hfirst'⟩ :=
    Cache.perform_eq_ok hi1 (List.forall_mem_singleton.mpr hregular)
  obtain ⟨hit', last, hlast, hlast'⟩ :=
    Cache.perform_eq_ok (hsound .ll) (List.forall_mem_singleton.mpr hregular')
  refine ⟨h.stepOf ⟨s, .fetch⟩ hit hit' first last, hsound.stepOf hfirst' hlast', ?_⟩
  intro counters log
  have hpass := pass_yields (r := ⟨s, .fetch⟩) hfirst hlast counters log
  have hfetch : fetchInOneLine s ⟨h, counters, log⟩ =
      pass .i1 s (.ok [t]) (.ok [t]) ⟨h, counters, log⟩ := by
    rw [fetchInOneLine, if_pos hone, hgeometry, htouch]
    rfl
  refine ⟨hpass.before, ?_⟩
  rw [hfetch]
  exact hpass.run

/-- What is not refused takes a step, unless a counter leaves 64 bits. -/
theorem SoundFor.exists_path_yields (hsound : SoundFor g h) (hr : ¬ h.Refuses r) :
    ∃ x : Step, SoundFor g x.caches ∧ ∀ counters log,
      Yields Station.InRange .arithmeticOverflow (Simulation.path h r) ⟨h, counters, log⟩ x.served
        ⟨x.caches, counters.tally x, x.logged log⟩ := by
  unfold Simulation.path
  split_ifs with hone
  · exact hsound.exists_fetchInOneLine_yields hone.2
  · have hfit : r.toSpan.Fits := by
      by_contra hnot
      exact hr (refuses_iff.mpr ⟨hone, hnot⟩)
    exact ⟨h.step r, hsound.passed hfit, hsound.access_yields hfit⟩

end Hierarchy

namespace Simulation

variable {g : HierarchyGeometry} {new sim : Simulation} {r : Reference}

theorem serve_maintains (r : Reference) :
    Maintains (fun sim : Simulation => sim.caches.SoundFor g) (serve r) :=
  atStation_maintains r.kind fun h => path_maintains h r

theorem serveAll_maintains (refs : List Reference) :
    Maintains (fun sim : Simulation => sim.caches.SoundFor g) (serveAll refs) := by
  induction refs with
  | nil => exact Maintains.pure []
  | cons r refs ih =>
    refine (serve_maintains r).bind fun _ => ?_
    exact ih.bind fun _ => Maintains.pure _

inductive Reachable (new : Simulation) : Simulation → Prop where
  | start : Reachable new new
  | serve {sim : Simulation} (r : Reference) : Reachable new sim →
      Reachable new (residue (serve r sim))

theorem Reachable.soundFor (h : Reachable new sim) (hnew : new.caches.SoundFor g) :
    sim.caches.SoundFor g := by
  induction h with
  | start => exact hnew
  | serve r _ ih => exact serve_maintains r _ ih

def uncounted (sim : Simulation) : Simulation := { sim with stats := .zero }

/-- The counters fit 64 bits with what the reference adds, which counters that start at zero show. -/
def HasRoom (sim : Simulation) (r : Reference) : Prop :=
  ((sim.stats.get r.kind).plus ((residue (serve r sim.uncounted)).stats.get r.kind)).InRange

theorem serve_of_refuses (hsim : sim.caches.SoundFor g) (hr : sim.caches.Refuses r)
    (hroom : (sim.stats.get r.kind).references + 1 < Checked.limit) :
    serve r sim = .error ((g.get r.kind.firstLevel).refusal r.toSpan)
      ⟨sim.caches, sim.stats.set r.kind { sim.stats.get r.kind with
        references := (sim.stats.get r.kind).references + 1 }, sim.log⟩ := by
  rw [serve, atStation, hsim.path_of_refuses hr hroom]

theorem hasRoom_of_refuses (hsim : sim.caches.SoundFor g) (hr : sim.caches.Refuses r) :
    HasRoom sim r ↔ ((sim.stats.get r.kind).plus { Counters.zero with references := 1 }).InRange := by
  have hzero : (Stats.zero.get r.kind).references + 1 < Checked.limit := by
    rw [Stats.get_zero]
    decide
  have hcaches : sim.uncounted.caches.SoundFor g := hsim
  have hserve := serve_of_refuses hcaches hr hzero
  rw [HasRoom, hserve]
  simp only [residue, Stats.get_set_self, uncounted, Stats.get_zero]
  rfl

theorem hasRoom_of_yields {x : Step} (hx : x.caches.SoundFor g)
    (hyields : ∀ counters log, Yields Station.InRange .arithmeticOverflow (path sim.caches r)
      ⟨sim.caches, counters, log⟩ x.served ⟨x.caches, counters.tally x, x.logged log⟩) :
    HasRoom sim r ↔ ((sim.stats.get r.kind).tally x).InRange := by
  have hzero := (hyields .zero sim.log).eq_ok hx.inRange_tally_zero
  have hserve : serve r sim.uncounted =
      .ok x.served ⟨x.caches, Stats.zero.set r.kind (Counters.zero.tally x), x.logged sim.log⟩ := by
    rw [serve, atStation, uncounted, Stats.get_zero, hzero]
  rw [HasRoom, hserve, Counters.tally_eq_plus (sim.stats.get r.kind)]
  simp only [residue, Stats.get_set_self]

theorem HasRoom.references_lt (hroom : HasRoom sim r) (hsim : sim.caches.SoundFor g)
    (hr : sim.caches.Refuses r) : (sim.stats.get r.kind).references + 1 < Checked.limit :=
  ((hasRoom_of_refuses hsim hr).mp hroom).references

theorem exists_serve_eq_ok (hsim : sim.caches.SoundFor g) (hr : ¬ sim.caches.Refuses r)
    (hroom : HasRoom sim r) : ∃ served last, serve r sim = .ok served last := by
  obtain ⟨x, hx, hyields⟩ := hsim.exists_path_yields hr
  have hin := (hasRoom_of_yields hx hyields).mp hroom
  have hpath := (hyields (sim.stats.get r.kind) sim.log).eq_ok hin
  exact ⟨x.served, _, by rw [serve, atStation, hpath]⟩

theorem serve_of_full (hsim : sim.caches.SoundFor g) (hcounters : (sim.stats.get r.kind).InRange)
    (hfull : ¬ HasRoom sim r) : ∃ last, serve r sim = .error .arithmeticOverflow last := by
  by_cases hr : sim.caches.Refuses r
  · have hlast : ¬ (sim.stats.get r.kind).references + 1 < Checked.limit := by
      intro hroom
      refine hfull ((hasRoom_of_refuses hsim hr).mpr ?_)
      rw [Counters.inRange_iff] at hcounters ⊢
      simp only [Counters.plus, Counters.zero]
      omega
    exact ⟨_, by
      rw [serve, atStation, path, if_neg hr.1, Hierarchy.access, Hierarchy.pass_of_full hlast]⟩
  · obtain ⟨x, hx, hyields⟩ := hsim.exists_path_yields hr
    have hout := mt (hasRoom_of_yields hx hyields).mpr hfull
    obtain ⟨st, hpath⟩ := (hyields (sim.stats.get r.kind) sim.log).eq_error hcounters hout
    exact ⟨_, by rw [serve, atStation, hpath]⟩

/-- The first level refuses the reference, which leaves its mark in the count of references only. -/
structure FailsFirst (g : HierarchyGeometry) (sim : Simulation) (r : Reference) (fault : Fault)
    (last : Simulation) : Prop where
  cause : fault = (g.get r.kind.firstLevel).refusal r.toSpan
  first : Cache.access r.toSpan (sim.caches.get r.kind.firstLevel) =
    .error fault (sim.caches.get r.kind.firstLevel)
  unchanged : last = { sim with stats := sim.stats.set r.kind { sim.stats.get r.kind with
    references := (sim.stats.get r.kind).references + 1 } }

structure Answers (g : HierarchyGeometry) (sim : Simulation) (r : Reference) : Prop where
  oneLine : sim.caches.holdsInOneLine r.toSpan = true ↔ g.i1.lineBytes = g.ll.lineBytes ∧
    r.toSpan.top < 2 ^ 64 ∧
    r.addr.toNat / g.i1.lineBytes.toNat = r.toSpan.top / g.i1.lineBytes.toNat
  fails : HasRoom sim r →
    ((∃ fault last, serve r sim = .error fault last) ↔ sim.caches.Refuses r)
  failure : HasRoom sim r → ∀ fault last, serve r sim = .error fault last →
    FailsFirst g sim r fault last
  overflow : (sim.stats.get r.kind).InRange → ¬ HasRoom sim r →
    ∃ last, serve r sim = .error .arithmeticOverflow last
  behind : ∀ hit cache, Cache.access r.toSpan (sim.caches.get r.kind.firstLevel) = .ok hit cache →
    ∃ hit' cache', Cache.access r.toSpan sim.caches.ll = .ok hit' cache'

theorem failsFirst_of_refuses (hsim : sim.caches.SoundFor g) (hr : sim.caches.Refuses r)
    (hroom : HasRoom sim r) {fault : Fault} {last : Simulation}
    (herror : serve r sim = .error fault last) : FailsFirst g sim r fault last := by
  have hserve := serve_of_refuses hsim hr (hroom.references_lt hsim hr)
  obtain ⟨hfault, hlast⟩ := EStateM.Result.error.inj (herror.symm.trans hserve)
  have hfirst := hsim r.kind.firstLevel
  have htouches := hfirst.sound_geometry.touches_eq_refusal (Hierarchy.refuses_iff.mp hr).2
  refine ⟨hfault, ?_, hlast⟩
  rw [Cache.access, hfirst.geometry, htouches, hfault]
  rfl

theorem serve_eq_error_iff (hsim : sim.caches.SoundFor g) (hroom : HasRoom sim r) {fault : Fault}
    {last : Simulation} : serve r sim = .error fault last ↔
      sim.caches.Refuses r ∧ FailsFirst g sim r fault last := by
  constructor
  · intro herror
    have hr : sim.caches.Refuses r := by
      by_contra hnot
      obtain ⟨served, last', hok⟩ := exists_serve_eq_ok hsim hnot hroom
      cases herror.symm.trans hok
    exact ⟨hr, failsFirst_of_refuses hsim hr hroom herror⟩
  · intro h
    obtain ⟨hr, hfirst⟩ := h
    rw [hfirst.cause, hfirst.unchanged]
    exact serve_of_refuses hsim hr (hroom.references_lt hsim hr)

/-- Without an overflow of the counters a reference fails exactly where its first level refuses it,
and then no cache changes. -/
theorem answers_of_reachable (hg : g.Sound ∨ ∃ text, HierarchyGeometry.ofJson text = .ok g) :
    ∃ new, start g = .ok new ∧ ∀ sim, Reachable new sim → ∀ r, Answers g sim r := by
  have hsound : g.Sound := by
    rcases hg with hsound | ⟨text, hread⟩
    · exact hsound
    · exact HierarchyGeometry.sound_of_ofJson hread
  obtain ⟨new, _, hstart, hnew⟩ := start_of_sound hsound
  refine ⟨_, hstart, fun sim hreach r => ?_⟩
  have hsim := hreach.soundFor (g := g) hnew
  refine ⟨hsim.holdsInOneLine_iff, ?_, ?_, serve_of_full hsim, ?_⟩
  · intro hroom
    constructor
    · intro hfail
      obtain ⟨fault, last, herror⟩ := hfail
      exact ((serve_eq_error_iff hsim hroom).mp herror).1
    · intro hr
      exact ⟨_, _, serve_of_refuses hsim hr (hroom.references_lt hsim hr)⟩
  · intro hroom fault last herror
    exact ((serve_eq_error_iff hsim hroom).mp herror).2
  · intro hit cache hok
    have hfirst := hsim r.kind.firstLevel
    by_cases hfit : r.toSpan.Fits
    · exact ⟨_, _, (hsim .ll).sound.access_eq_ok hfit⟩
    · have htouches := hfirst.sound_geometry.touches_eq_refusal hfit
      rw [Cache.access, hfirst.geometry, htouches] at hok
      cases hok

theorem answers_of_reachable_top :
    HierarchyGeometry.Sound ⟨⟨128, 1, 64⟩, ⟨64, 2, 16⟩, ⟨256, 2, 64⟩⟩ ∧
    ∃ new, start ⟨⟨128, 1, 64⟩, ⟨64, 2, 16⟩, ⟨256, 2, 64⟩⟩ = .ok new ∧
      Reachable new (residue (serve ⟨⟨0x10, 40⟩, .fetch⟩ new)) ∧
      HasRoom (residue (serve ⟨⟨0x10, 40⟩, .fetch⟩ new)) ⟨⟨0xFFFFFFFFFFFFFFF8, 16⟩, .read⟩ ∧
      Answers ⟨⟨128, 1, 64⟩, ⟨64, 2, 16⟩, ⟨256, 2, 64⟩⟩
        (residue (serve ⟨⟨0x10, 40⟩, .fetch⟩ new)) ⟨⟨0xFFFFFFFFFFFFFFF8, 16⟩, .read⟩ := by
  have hg : HierarchyGeometry.Sound ⟨⟨128, 1, 64⟩, ⟨64, 2, 16⟩, ⟨256, 2, 64⟩⟩ := by decide
  obtain ⟨new, hstart, hanswers⟩ := answers_of_reachable (Or.inl hg)
  have hreach : Reachable new (residue (serve ⟨⟨0x10, 40⟩, .fetch⟩ new)) := .serve _ .start
  have hnew : new =
      ⟨⟨.blank ⟨128, 1, 64⟩ 2, .blank ⟨64, 2, 16⟩ 2, .blank ⟨256, 2, 64⟩ 2⟩, .zero, #[Hierarchy.built
        ⟨.blank ⟨128, 1, 64⟩ 2, .blank ⟨64, 2, 16⟩ 2, .blank ⟨256, 2, 64⟩ 2⟩]⟩ :=
    Except.ok.inj (hstart.symm.trans rfl)
  have hroom : HasRoom (residue (serve ⟨⟨0x10, 40⟩, .fetch⟩ new))
      ⟨⟨0xFFFFFFFFFFFFFFF8, 16⟩, .read⟩ := by
    rw [hnew]
    unfold HasRoom
    decide +kernel
  exact ⟨hg, new, hstart, hreach, hroom, hanswers _ hreach _⟩

end Simulation

end CacheUsage
