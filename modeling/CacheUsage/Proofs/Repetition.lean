import CacheUsage.Proofs.Independence
import CacheUsage.Proofs.Recency
import CacheUsage.Proofs.Refusal
import Mathlib.Data.Nat.ModEq

namespace CacheUsage

namespace Slot

variable {a b : UInt64} {v w : WordMap} {slots : List Slot}

theorem exists_visit_eq (tag : UInt64) (words : WordMap) (slots : List Slot) :
    ∃ used rest, (visit tag words slots).slots = ⟨tag, used ||| words⟩ :: rest := by
  cases hs : take? tag slots with
  | none => exact ⟨0, slots.dropLast, by simp [visit, hs]⟩
  | some found => exact ⟨found.1.used, found.2, by simp [visit, hs]⟩

theorem visit_of_alone (hne : a ≠ b) (used : WordMap) :
    (visit b w [⟨a, used⟩]).slots = [⟨b, w⟩] := by
  simp [visit, take?, hne]

theorem exists_visit_singleton (tag : UInt64) (words : WordMap) (slot : Slot) :
    ∃ used, (visit tag words [slot]).slots = [⟨tag, used⟩] := by
  by_cases hslot : slot.tag = tag
  · exact ⟨slot.used ||| words, by simp [visit, take?, hslot]⟩
  · exact ⟨words, by simp [visit, take?, hslot]⟩

theorem exists_visit_visit_eq (hne : a ≠ b) (hroom : 2 ≤ slots.length) (v w : WordMap) :
    ∃ x y rest, (visit b w (visit a v slots).slots).slots =
      ⟨b, y ||| w⟩ :: ⟨a, x ||| v⟩ :: rest := by
  obtain ⟨x, rest, hfirst⟩ := exists_visit_eq a v slots
  have hpos : slots ≠ [] := List.ne_nil_of_length_pos (by omega)
  have hlength : (visit a v slots).slots.length = slots.length := length_visit hpos
  rw [hfirst, List.length_cons] at hlength
  have hrest : rest ≠ [] := List.ne_nil_of_length_pos (by omega)
  rw [hfirst]
  cases hs : take? b rest with
  | none =>
    refine ⟨x, 0, rest.dropLast, ?_⟩
    simp [visit, take?, hne, hs, List.dropLast_cons_of_ne_nil hrest]
  | some found =>
    exact ⟨x, found.1.used, found.2, by simp [visit, take?, hne, hs]⟩

theorem visit_pair_again (hne : a ≠ b) (hslots : slots ≠ []) :
    (visit b w (visit a v (visit b w (visit a v slots).slots).slots).slots).slots =
      (visit b w (visit a v slots).slots).slots := by
  -- With room for two, the third visit finds `a` right behind `b`, and the fourth `b` right behind
  -- `a`. A single slot forgets the block before the last.
  rcases Nat.lt_or_ge 1 slots.length with hroom | hone
  · obtain ⟨x, y, rest, htwice⟩ := exists_visit_visit_eq hne hroom v w
    rw [htwice]
    simp [visit, take?, hne, hne.symm, BitVec.or_assoc]
  · have hpos := List.length_pos_iff.mpr hslots
    obtain ⟨slot, rfl⟩ := List.length_eq_one_iff.mp (show slots.length = 1 by omega)
    obtain ⟨used, hfirst⟩ := exists_visit_singleton a v slot
    rw [hfirst, visit_of_alone hne, visit_of_alone hne.symm, visit_of_alone hne]

end Slot

theorem Geometry.Sound.split_cases {g : Geometry} {s : Span} (h : g.Sound) (hs : s.Fits) :
    (g.block s.addr = g.block s.last ∧ ∃ t, g.split s = [t]) ∨
      (g.block s.addr ≠ g.block s.last ∧ ∃ t u, g.split s = [t, u] ∧ t.block ≠ u.block ∧
        u.block.toNat = t.block.toNat + 1) := by
  have hblocks := h.map_block_split hs
  unfold blocks at hblocks
  split_ifs at hblocks with hone
  · obtain ⟨t, ht, _⟩ := List.map_eq_singleton_iff.mp hblocks
    exact Or.inl ⟨hone, t, ht⟩
  · obtain ⟨t, rest, ht, htblock, hrest⟩ := List.map_eq_cons_iff.mp hblocks
    obtain ⟨u, rfl, hublock⟩ := List.map_eq_singleton_iff.mp hrest
    refine Or.inr ⟨hone, t, u, ht, ?_⟩
    rw [htblock, hublock]
    exact ⟨hone, h.toNat_block_last_of_ne hs hone⟩

namespace Cache

variable {c : Cache} {width : Nat} {s : Span} {t u : Touch} {g : Geometry}

def OneSlot (c : Cache) : Prop := c.sets.size * c.geometry.ways.toNat = 1

@[simp] theorem oneSlot_accessed : (c.accessed s).OneSlot ↔ c.OneSlot := by
  simp [OneSlot, Cache.accessed]

namespace WellFormed

theorem eq_of_slotsAt {d : Cache} (h : c.WellFormed width) (hd : d.WellFormed width)
    (hgeometry : c.geometry = d.geometry) (hsize : c.sets.size = d.sets.size)
    (hslots : ∀ set, c.slotsAt set = d.slotsAt set) : c = d := by
  refine h.eq_of_sets hd hgeometry (Array.toList_inj.mp ?_)
  rw [toList_sets, toList_sets, hsize, funext hslots]

theorem touched_pair_again (h : c.WellFormed width) (ht : t.words.Below width)
    (hu : u.words.Below width) (hne : t.block ≠ u.block) :
    (((c.touched t).touched u).touched t).touched u = (c.touched t).touched u := by
  have hself : ∀ {d : Cache} {x : Touch}, d.WellFormed width → x.words.Below width →
      (d.touched x).touched x = d.touched x := by
    intro d x hd hx
    rw [hd.touched_touched hx hx rfl, BitVec.or_self]
  have ht' := h.touched ht
  by_cases hsets : c.setOf t.block = c.setOf u.block
  · -- Within one set the order is decided by the slots of that set.
    refine (((ht'.touched hu).touched ht).touched hu).eq_of_slotsAt (ht'.touched hu) rfl
      (by simp) fun set => ?_
    by_cases hset : set = c.setOf t.block
    · subst hset
      have hlt := h.setOf_lt t.block
      rw [slotsAt_touched (by simpa) (by simp [hsets]), slotsAt_touched (by simpa) (by simp),
        slotsAt_touched (by simpa) (by simp [hsets]), slotsAt_touched hlt rfl]
      exact Slot.visit_pair_again hne (h.slotsAt_ne_nil hlt)
    · have hother : set ≠ c.setOf u.block := hsets ▸ hset
      simp only [slotsAt_touched_of_ne, setOf_touched, ne_eq, hset, hother, not_false_eq_true]
  · have hback : ((c.touched t).touched u).touched t = (c.touched t).touched u := by
      rw [h.touched_comm ht hu hsets, hself (h.touched hu) ht]
    rw [hback, hself ht' hu]

/-- The first of two touched blocks stays, if the second has another slot to go to. -/
theorem holds_touched_touched (h : c.WellFormed width) (hne : t.block ≠ u.block)
    (hroom : c.setOf t.block = c.setOf u.block → 2 ≤ c.geometry.ways.toNat) :
    ((c.touched t).touched u).holds t.block = true := by
  by_cases hsets : c.setOf t.block = c.setOf u.block
  · have hset := h.setOf_lt t.block
    have hlength := h.length_slotsAt _ hset
    have hmany : 2 ≤ (c.slotsAt (c.setOf t.block)).length := by
      rw [hlength]
      exact hroom hsets
    obtain ⟨x, y, rest, htwice⟩ := Slot.exists_visit_visit_eq hne hmany t.words u.words
    rw [holds, tagsAt, setOf_touched, setOf_touched, slotsAt_touched (by simpa) (by simp [hsets]),
      slotsAt_touched hset rfl, htwice]
    simp
  · rw [holds_touched_of_ne (by simpa using Ne.symm hsets)]
    exact h.holds_touched rfl

theorem holds_touched_of_oneSlot (h : c.WellFormed width) (hone : c.OneSlot)
    (hne : t.block ≠ u.block) : (c.touched t).holds u.block = false := by
  have hsize : c.sets.size = 1 := Nat.eq_one_of_mul_eq_one_right hone
  have hways : c.geometry.ways.toNat = 1 := Nat.eq_one_of_mul_eq_one_left hone
  have hset := h.setOf_lt t.block
  have hset' := h.setOf_lt u.block
  have hsame : c.setOf u.block = c.setOf t.block := by omega
  have hlength := h.length_slotsAt _ hset
  rw [hways] at hlength
  obtain ⟨slot, hslot⟩ := List.length_eq_one_iff.mp hlength
  obtain ⟨used, hvisit⟩ := Slot.exists_visit_singleton t.block t.words slot
  rw [holds, tagsAt, setOf_touched, hsame, slotsAt_touched hset rfl, hslot, hvisit]
  simpa using hne.symm

end WellFormed

namespace Sound

/-- Blocks that are next to each other share a set only if there is just one. -/
theorem size_eq_one (h : c.Sound) (hnext : u.block.toNat = t.block.toNat + 1)
    (hsets : c.setOf t.block = c.setOf u.block) : c.sets.size = 1 := by
  obtain ⟨m, hsize⟩ := h.exists_size_eq
  rw [setOf_eq_mod hsize, setOf_eq_mod hsize, hnext] at hsets
  have hdvd := (Nat.modEq_iff_dvd' (Nat.le_succ t.block.toNat)).mp hsets
  rw [hsize]
  exact Nat.dvd_one.mp (by simpa using hdvd)

theorem accessed_accessed (h : c.Sound) (hs : s.Fits) :
    (c.accessed s).accessed s = c.accessed s := by
  have hbelow := h.below_split hs
  simp only [Cache.accessed, geometry_afterTouches]
  rcases h.geometry.split_cases hs with ⟨_, t, hsplit⟩ | ⟨_, t, u, hsplit, hne, _⟩
  · rw [hsplit] at hbelow ⊢
    have ht := hbelow t (by simp)
    simp only [afterTouches_cons, afterTouches_nil, h.wellFormed.touched_touched ht ht rfl,
      BitVec.or_self]
  · rw [hsplit] at hbelow ⊢
    exact h.wellFormed.touched_pair_again (hbelow t (by simp)) (hbelow u (by simp)) hne

theorem hits_of_oneSlot (h : c.Sound) (hs : s.Fits) (hone : c.OneSlot)
    (htwo : c.geometry.block s.addr ≠ c.geometry.block s.last) : c.hits s = false := by
  rcases h.geometry.split_cases hs with ⟨hsame, _⟩ | ⟨_, t, u, hsplit, hne, _⟩
  · exact absurd hsame htwo
  · simp [hits, hsplit, verdicts, h.wellFormed.holds_touched_of_oneSlot hone hne]

theorem hits_accessed (h : c.Sound) (hs : s.Fits) : (c.accessed s).hits s = false ↔
    c.OneSlot ∧ c.geometry.block s.addr ≠ c.geometry.block s.last := by
  constructor
  · intro hmiss
    by_contra hnot
    have hbelow := h.below_split hs
    simp only [hits, Cache.accessed, geometry_afterTouches] at hmiss
    rcases h.geometry.split_cases hs with ⟨_, t, hsplit⟩ | ⟨htwo, t, u, hsplit, hne, hnext⟩
    · rw [hsplit] at hmiss
      simp [verdicts, h.wellFormed.holds_touched (t := t) rfl] at hmiss
    · have hroom : c.setOf t.block = c.setOf u.block → 2 ≤ c.geometry.ways.toNat := by
        intro hsets
        have hways := h.wellFormed.ways_pos
        have hmany : c.geometry.ways.toNat ≠ 1 := fun heq =>
          hnot ⟨by rw [OneSlot, h.size_eq_one hnext hsets, heq], htwo⟩
        omega
      rw [hsplit] at hbelow hmiss
      have ht := hbelow t (by simp)
      have hfirst := h.wellFormed.holds_touched_touched hne hroom
      have hlast := (h.wellFormed.touched ht).holds_touched_touched hne.symm
        (by simpa using fun heq => hroom heq.symm)
      simp [verdicts, hfirst, hlast] at hmiss
  · intro h'
    obtain ⟨hone, htwo⟩ := h'
    exact (h.accessed hs).hits_of_oneSlot hs (by simpa using hone) (by simpa using htwo)

theorem hits_accessed_of_hits (h : c.Sound) (hs : s.Fits) (hhit : c.hits s = true) :
    (c.accessed s).hits s = true := by
  by_contra hmiss
  obtain ⟨hone, htwo⟩ := (h.hits_accessed hs).mp (by simpa using hmiss)
  rw [h.hits_of_oneSlot hs hone htwo] at hhit
  cases hhit

end Sound

theorem SoundFor.access_access (h : c.SoundFor g) (hs : s.Fits) {sets : Nat}
    (hsets : g.setCount = .ok sets) : ∃ hit hit' d, access s c = .ok hit d ∧
      access s d = .ok hit' d ∧
      (hit' = false ↔ sets * g.ways.toNat = 1 ∧ g.block s.addr ≠ g.block s.last) := by
  have hagain := (h.sound.accessed hs).access_eq_ok hs
  have hverdict := h.sound.hits_accessed hs
  have hcount := h.sound.wellFormed.setCount_eq
  rw [h.geometry, hsets] at hcount
  rw [h.sound.accessed_accessed hs] at hagain
  rw [OneSlot, h.geometry, ← Except.ok.inj hcount] at hverdict
  exact ⟨_, _, _, h.sound.access_eq_ok hs, hagain, hverdict⟩

end Cache

namespace Hierarchy

variable {g : HierarchyGeometry} {h : Hierarchy} {r : Reference} {level : Level}

/-- The last level is asked again only if it was asked before. -/
theorem SoundFor.reaches_of_passed (hsound : SoundFor g h) (hr : r.toSpan.Fits)
    (hagain : (h.passed r).Reaches r level) : h.Reaches r level := by
  rcases hagain with hfirst | ⟨hlast, hmiss⟩
  · exact Or.inl hfirst
  · refine Or.inr ⟨hlast, ?_⟩
    rw [isFirstMiss_outcome, get_firstLevel_passed] at hmiss
    rw [isFirstMiss_outcome]
    by_contra hhit
    rw [(hsound _).sound.hits_accessed_of_hits hr (by simpa using hhit)] at hmiss
    cases hmiss

theorem SoundFor.passed_passed (hsound : SoundFor g h) (hr : r.toSpan.Fits) :
    (h.passed r).passed r = h.passed r := by
  apply Levels.eq_of_get
  intro level
  by_cases hagain : (h.passed r).Reaches r level
  · rw [get_passed (h.passed r), if_pos hagain, get_passed h,
      if_pos (hsound.reaches_of_passed hr hagain)]
    exact (hsound level).sound.accessed_accessed hr
  · rw [get_passed (h.passed r), if_neg hagain]

end Hierarchy

namespace Simulation

variable {g : HierarchyGeometry} {sim : Simulation} {r : Reference}

theorem serve_eq_ok (hsim : sim.caches.SoundFor g) (hr : r.toSpan.Fits) (hroom : HasRoom sim r) :
    serve r sim = .ok (sim.caches.step r).served (sim.after [sim.caches.step r]) := by
  have hyields : ∀ counters log, Yields Station.InRange .arithmeticOverflow (path sim.caches r)
      ⟨sim.caches, counters, log⟩ (sim.caches.step r).served
      ⟨(sim.caches.step r).caches, counters.tally (sim.caches.step r),
        (sim.caches.step r).logged log⟩ := by
    intro counters log
    have haccess := hsim.access_yields hr counters log
    have hpath := path_eq_access hsim hr.narrow counters log
    exact ⟨haccess.before, hpath ▸ haccess.run⟩
  have hnext : (sim.caches.step r).caches.SoundFor g := hsim.passed hr
  have hin := (hasRoom_of_yields hnext hyields).mp hroom
  have hpath := (hyields (sim.stats.get r.kind) sim.log).eq_ok hin
  rw [serve, atStation, hpath]
  rfl

/-- A reference made twice in a row changes no cache the second time. In a cache it then hits, but
for the only slot of a cache, which the second of two lines has taken from the first. -/
theorem serve_repeated {g : Geometry} {k : HierarchyGeometry} (hg : g.Sound) (hk : k.Sound) :
    (∃ sets new, g.setCount = .ok sets ∧ Cache.empty g = .ok new ∧
      ∀ c, Cache.AccessReachable new c → ∀ s : Span, s.Fits → ∃ hit hit' d,
        Cache.access s c = .ok hit d ∧ Cache.access s d = .ok hit' d ∧
        (hit' = false ↔ sets * g.ways.toNat = 1 ∧ g.block s.addr ≠ g.block s.last)) ∧
    ∃ new, start k = .ok new ∧ ∀ sim, Reachable new sim → ∀ r : Reference, r.toSpan.Fits →
      HasRoom sim r → ∃ served next, serve r sim = .ok served next ∧
        (HasRoom next r → ∃ served' last, serve r next = .ok served' last ∧
          last.caches = next.caches) := by
  refine ⟨?_, ?_⟩
  · obtain ⟨m, hm, hnew, hsound⟩ := Cache.empty_of_sound hg
    refine ⟨_, _, hm, hnew, fun c hreach s hs => ?_⟩
    exact (hreach.soundFor ⟨hsound, rfl⟩).access_access hs hm
  · obtain ⟨new, _, hstart, hnew⟩ := start_of_sound hk
    refine ⟨_, hstart, fun sim hreach r hr hroom => ?_⟩
    have hsim := hreach.soundFor (g := k) hnew
    have hnext : (sim.after [sim.caches.step r]).caches.SoundFor k := hsim.passed hr
    refine ⟨_, _, serve_eq_ok hsim hr hroom, fun hroom' => ?_⟩
    exact ⟨_, _, serve_eq_ok hnext hr hroom', hsim.passed_passed hr⟩

theorem serve_repeated_one_slot :
    (⟨16, 1, 16⟩ : Geometry).Sound ∧
    HierarchyGeometry.Sound ⟨⟨16, 1, 16⟩, ⟨64, 2, 16⟩, ⟨64, 2, 32⟩⟩ ∧
    Span.Fits ⟨0x1C, 8⟩ ∧
    (∃ new hit d, Cache.empty ⟨16, 1, 16⟩ = .ok new ∧ Cache.AccessReachable new new ∧
      Cache.access ⟨0x1C, 8⟩ new = .ok hit d ∧ Cache.access ⟨0x1C, 8⟩ d = .ok false d) ∧
    ∃ new served next served' last,
      start ⟨⟨16, 1, 16⟩, ⟨64, 2, 16⟩, ⟨64, 2, 32⟩⟩ = .ok new ∧ Reachable new new ∧
      HasRoom new ⟨⟨0x1C, 8⟩, .fetch⟩ ∧ HasRoom next ⟨⟨0x1C, 8⟩, .fetch⟩ ∧
      serve ⟨⟨0x1C, 8⟩, .fetch⟩ new = .ok served next ∧
      serve ⟨⟨0x1C, 8⟩, .fetch⟩ next = .ok served' last ∧ last.caches = next.caches := by
  -- A fetch across two lines of 16 bytes, where I1 has a single one.
  have hg : Geometry.Sound ⟨16, 1, 16⟩ := by decide
  have hk : HierarchyGeometry.Sound ⟨⟨16, 1, 16⟩, ⟨64, 2, 16⟩, ⟨64, 2, 32⟩⟩ := by decide
  have hs : Span.Fits ⟨0x1C, 8⟩ := by decide
  obtain ⟨⟨sets, new, hsets, hnew, hcache⟩, sim, hstart, hrun⟩ := serve_repeated hg hk
  refine ⟨hg, hk, hs, ?_, ?_⟩
  · obtain ⟨hit, hit', d, hfirst, hagain, hverdict⟩ := hcache new .start _ hs
    obtain rfl : sets = 1 := Except.ok.inj (hsets.symm.trans rfl)
    obtain rfl : hit' = false := hverdict.mpr ⟨rfl, by decide⟩
    exact ⟨new, hit, d, hnew, .start, hfirst, hagain⟩
  · have hsim : sim = ⟨⟨.blank ⟨16, 1, 16⟩ 1, .blank ⟨64, 2, 16⟩ 2, .blank ⟨64, 2, 32⟩ 1⟩, .zero,
        #[Hierarchy.built
          ⟨.blank ⟨16, 1, 16⟩ 1, .blank ⟨64, 2, 16⟩ 2, .blank ⟨64, 2, 32⟩ 1⟩]⟩ :=
      Except.ok.inj (hstart.symm.trans rfl)
    have hroom : HasRoom sim ⟨⟨0x1C, 8⟩, .fetch⟩ := by
      rw [hsim]
      unfold HasRoom
      decide +kernel
    obtain ⟨served, next, hserve, hagain⟩ := hrun sim .start ⟨⟨0x1C, 8⟩, .fetch⟩ hs hroom
    have hnext : next = residue (serve ⟨⟨0x1C, 8⟩, .fetch⟩ sim) := by rw [hserve]; rfl
    have hroom' : HasRoom next ⟨⟨0x1C, 8⟩, .fetch⟩ := by
      rw [hnext, hsim]
      unfold HasRoom
      decide +kernel
    obtain ⟨served', last, hserve', hsame⟩ := hagain hroom'
    exact ⟨sim, served, next, served', last, hstart, .start, hroom, hroom', hserve, hserve', hsame⟩

end Simulation

end CacheUsage
