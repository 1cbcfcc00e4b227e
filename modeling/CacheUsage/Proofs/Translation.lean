import CacheUsage.Proofs.Recency
import CacheUsage.Proofs.Recount
import Mathlib.Data.Nat.ModEq

namespace CacheUsage

namespace Span

def shift (d : UInt64) (s : Span) : Span := ⟨s.addr + d, s.size⟩

structure FitsAbove (d : UInt64) (s : Span) : Prop where
  narrow : s.size ≤ maxReferenceBytes
  inside : s.addr.toNat + d.toNat + max s.size.toNat 1 - 1 < 2 ^ 64

instance (d : UInt64) (s : Span) : Decidable (s.FitsAbove d) :=
  decidable_of_iff
    (s.size ≤ maxReferenceBytes ∧ s.addr.toNat + d.toNat + max s.size.toNat 1 - 1 < 2 ^ 64)
    ⟨fun h => ⟨h.1, h.2⟩, fun h => ⟨h.narrow, h.inside⟩⟩

variable {d : UInt64} {s : Span}

theorem last_shift (d : UInt64) (s : Span) : (s.shift d).last = s.last + d := by
  simp only [last, shift]
  ac_rfl

theorem FitsAbove.fits (h : s.FitsAbove d) : s.Fits := by
  have hinside := h.inside
  exact ⟨h.narrow, by omega⟩

theorem FitsAbove.toNat_addr_shift (h : s.FitsAbove d) :
    (s.shift d).addr.toNat = s.addr.toNat + d.toNat := by
  have hinside := h.inside
  rw [shift, UInt64.toNat_add]
  exact Nat.mod_eq_of_lt (by omega)

theorem FitsAbove.fits_shift (h : s.FitsAbove d) : (s.shift d).Fits := by
  refine ⟨h.narrow, ?_⟩
  rw [h.toNat_addr_shift]
  exact h.inside

theorem FitsAbove.toNat_last_add_lt (h : s.FitsAbove d) : s.last.toNat + d.toNat < 2 ^ 64 := by
  have hinside := h.inside
  rw [h.fits.toNat_last]
  omega

end Span

def Reference.shift (d : UInt64) (r : Reference) : Reference := ⟨r.toSpan.shift d, r.kind⟩

structure Touch.Moved (n : Nat) (t t' : Touch) : Prop where
  block : t'.block.toNat = t.block.toNat + n
  words : t'.words = t.words
  real : t.block ≠ Slot.vacantTag
  real' : t'.block ≠ Slot.vacantTag

namespace Geometry

variable {g : Geometry} {d : UInt64} {s : Span} {addr : UInt64}

/-- Addresses that are `d` apart lie at the same place of lines of the same set. -/
def Repeats (g : Geometry) (d : UInt64) : Prop :=
  ∃ sets, g.setCount = .ok sets ∧ sets * g.lineBytes.toNat ∣ d.toNat

theorem Repeats.dvd (h : g.Repeats d) : g.lineBytes.toNat ∣ d.toNat := by
  obtain ⟨sets, _, hdvd⟩ := h
  exact Nat.dvd_trans (Nat.dvd_mul_left _ _) hdvd

/-- Blocks are far below 64 bits, so their sums do not wrap. -/
theorem Sound.toNat_add_block (h : g.Sound) {block : UInt64} (hlow : block.toNat < 2 ^ 60)
    (d : UInt64) : (block + g.block d).toNat = block.toNat + (g.block d).toNat := by
  have hmove := h.block_lt d
  rw [UInt64.toNat_add]
  exact Nat.mod_eq_of_lt (by omega)

theorem Sound.block_add (h : g.Sound) (hd : g.Repeats d) (hin : addr.toNat + d.toNat < 2 ^ 64) :
    g.block (addr + d) = g.block addr + g.block d := by
  apply UInt64.toNat_inj.mp
  rw [h.toNat_add_block (h.block_lt addr), h.toNat_block, h.toNat_block, h.toNat_block,
    UInt64.toNat_add, Nat.mod_eq_of_lt hin, Nat.add_div_of_dvd_left hd.dvd]

theorem Sound.blocks_shift (h : g.Sound) (hd : g.Repeats d) (hs : s.FitsAbove d) :
    g.blocks (s.shift d) = (g.blocks s).map (· + g.block d) := by
  have hfirst : g.block (s.shift d).addr = g.block s.addr + g.block d := by
    refine h.block_add hd ?_
    have hinside := hs.inside
    omega
  have hlast : g.block (s.shift d).last = g.block s.last + g.block d := by
    rw [Span.last_shift]
    exact h.block_add hd hs.toNat_last_add_lt
  rw [blocks, blocks, hfirst, hlast]
  by_cases hone : g.block s.addr = g.block s.last
  · simp [hone]
  · have htwo : g.block s.addr + g.block d ≠ g.block s.last + g.block d :=
      fun heq => hone ((UInt64.add_left_inj _).mp heq)
    simp [hone, htwo]

theorem coversWord_shift {block block' : UInt64} (hs : s.FitsAbove d)
    (hblock : block'.toNat * g.lineBytes.toNat = block.toNat * g.lineBytes.toNat + d.toNat)
    (w : Nat) : g.CoversWord (s.shift d) block' w ↔ g.CoversWord s block w := by
  have hsize : (s.shift d).size = s.size := rfl
  simp only [CoversWord, hs.toNat_addr_shift, hsize, hblock]
  constructor
  · intro h'
    obtain ⟨a, ha, hstop, hlow, hhigh⟩ := h'
    exact ⟨a - d.toNat, by omega, by omega, by omega, by omega⟩
  · intro h'
    obtain ⟨a, ha, hstop, hlow, hhigh⟩ := h'
    exact ⟨a + d.toNat, by omega, by omega, by omega, by omega⟩

theorem Sound.split_shift (h : g.Sound) (hd : g.Repeats d) (hs : s.FitsAbove d) :
    List.Forall₂ (Touch.Moved (d.toNat / g.lineBytes.toNat)) (g.split s) (g.split (s.shift d)) := by
  have hsum : ∀ t ∈ g.split s, (t.block + g.block d).toNat = t.block.toNat + (g.block d).toNat :=
    fun _ ht => h.toNat_add_block (h.lt_of_mem_blocks (h.block_mem_blocks hs.fits ht)) d
  have hsplit : g.split (s.shift d) =
      (g.split s).map fun t => ⟨t.block + g.block d, t.words⟩ := by
    refine h.split_eq hs.fits_shift ?_ ?_
    · rw [h.blocks_shift hd hs, ← h.map_block_split hs.fits, List.map_map, List.map_map]
      rfl
    · intro t' ht' w
      obtain ⟨t, ht, rfl⟩ := List.mem_map.mp ht'
      have hblock : (t.block + g.block d).toNat * g.lineBytes.toNat =
          t.block.toNat * g.lineBytes.toNat + d.toNat := by
        rw [hsum t ht, Nat.add_mul, h.toNat_block d, Nat.div_mul_cancel hd.dvd]
      rw [coversWord_shift hs hblock]
      exact h.getLsbD_of_mem_split hs.fits ht w
  have hreal := h.regular_of_mem_split hs.fits_shift
  rw [hsplit] at hreal ⊢
  rw [List.forall₂_map_right_iff, List.forall₂_same]
  intro t ht
  refine ⟨?_, rfl, (h.regular_of_mem_split hs.fits t ht).real,
    (hreal _ (List.mem_map_of_mem ht)).real⟩
  rw [← h.toNat_block d]
  exact hsum t ht

end Geometry

namespace Slot

variable {n : Nat} {a b : Slot} {t t' : Touch} {xs ys : List Slot}

/-- The same words, of the block `n` blocks further up or of none. -/
structure Moved (n : Nat) (a b : Slot) : Prop where
  used : b.used = a.used
  vacant : a.tag = vacantTag ↔ b.tag = vacantTag
  tag : a.tag ≠ vacantTag → b.tag.toNat = a.tag.toNat + n

theorem Moved.tag_eq_iff (h : Moved n a b) (ht : t.Moved n t') :
    a.tag = t.block ↔ b.tag = t'.block := by
  -- The mark for vacancy does not move, and no touched block is or becomes that mark.
  by_cases hvacant : a.tag = vacantTag
  · have hvacant' := h.vacant.mp hvacant
    rw [hvacant, hvacant']
    exact iff_of_false ht.real.symm ht.real'.symm
  · have htag := h.tag hvacant
    have hblock := ht.block
    rw [← UInt64.toNat_inj, ← UInt64.toNat_inj]
    omega

theorem moved_mark (ht : t.Moved n t') {used used' : WordMap} (hused : used' = used) :
    Moved n ⟨t.block, used⟩ ⟨t'.block, used'⟩ :=
  ⟨hused, iff_of_false ht.real ht.real', fun _ => ht.block⟩

theorem take?_moved (h : List.Forall₂ (Moved n) xs ys) (ht : t.Moved n t') :
    (take? t.block xs = none ∧ take? t'.block ys = none) ∨
      ∃ x others y others', take? t.block xs = some (x, others) ∧
        take? t'.block ys = some (y, others') ∧ Moved n x y ∧
        List.Forall₂ (Moved n) others others' := by
  induction h with
  | nil => exact Or.inl ⟨rfl, rfl⟩
  | @cons x y xs ys hxy hrest ih =>
    have htag := hxy.tag_eq_iff ht
    by_cases hx : x.tag = t.block
    · have hy := htag.mp hx
      exact Or.inr ⟨x, xs, y, ys, by simp [take?, hx], by simp [take?, hy], hxy, hrest⟩
    · have hy := mt htag.mpr hx
      rcases ih with ⟨hnone, hnone'⟩ | ⟨found, others, found', others', hsome, hsome', hmoved, htail⟩
      · exact Or.inl ⟨by simp [take?, hx, hnone], by simp [take?, hy, hnone']⟩
      · exact Or.inr ⟨found, x :: others, found', y :: others', by simp [take?, hx, hsome],
          by simp [take?, hy, hsome'], hmoved, .cons hxy htail⟩

theorem forall₂_dropLast (h : List.Forall₂ (Moved n) xs ys) :
    List.Forall₂ (Moved n) xs.dropLast ys.dropLast := by
  rw [List.dropLast_eq_take, List.dropLast_eq_take, h.length_eq]
  exact List.forall₂_take _ h

theorem visit_moved (h : List.Forall₂ (Moved n) xs ys) (ht : t.Moved n t') :
    List.Forall₂ (Moved n) (visit t.block t.words xs).slots (visit t'.block t'.words ys).slots ∧
      (visit t'.block t'.words ys).hit = (visit t.block t.words xs).hit := by
  rcases take?_moved h ht with ⟨hx, hy⟩ | ⟨x, others, y, others', hx, hy, hxy, hothers⟩
  · simp only [visit, hx, hy]
    exact ⟨.cons (moved_mark ht ht.words) (forall₂_dropLast h), trivial⟩
  · simp only [visit, hx, hy]
    exact ⟨.cons (moved_mark ht (by rw [hxy.used, ht.words])) hothers, trivial⟩

theorem usedCount_moved (h : List.Forall₂ (Moved n) xs ys) : usedCount ys = usedCount xs := by
  induction h with
  | nil => rfl
  | cons hxy _ ih => rw [usedCount_cons, usedCount_cons, hxy.used, ih]

end Slot

namespace Cache

variable {c c' : Cache} {g : Geometry} {d : UInt64} {m n : Nat} {s : Span} {t t' : Touch}
  {ts ts' : List Touch}

structure Moved (n : Nat) (c c' : Cache) : Prop where
  geometry : c'.geometry = c.geometry
  size : c'.sets.size = c.sets.size
  slots : ∀ set < c.sets.size, List.Forall₂ (Slot.Moved n) (c.slotsAt set) (c'.slotsAt set)

namespace Moved

theorem recount_eq (h : c.Moved n c') : c'.recount = c.recount := by
  rw [Cache.recount_eq, Cache.recount_eq, toList_sets, toList_sets, h.size, List.map_map,
    List.map_map]
  congr 1
  apply List.map_congr_left
  intro set hset
  exact Slot.usedCount_moved (h.slots set (List.mem_range.mp hset))

theorem setOf_eq (h : c.Moved n c') (hsize : c.sets.size = 2 ^ m) (hn : 2 ^ m ∣ n)
    (ht : t.Moved n t') : c'.setOf t'.block = c.setOf t.block := by
  obtain ⟨k, rfl⟩ := hn
  rw [setOf_eq_mod (h.size.trans hsize), setOf_eq_mod hsize, ht.block, Nat.add_mul_mod_self_left]

theorem touched (h : c.Moved n c') (hsize : c.sets.size = 2 ^ m) (hn : 2 ^ m ∣ n)
    (ht : t.Moved n t') :
    (c.touched t).Moved n (c'.touched t') ∧ c'.holds t'.block = c.holds t.block := by
  have hsame := h.setOf_eq hsize hn ht
  have hset : c.setOf t.block < c.sets.size := by
    rw [setOf_eq_mod hsize, hsize]
    exact Nat.mod_lt _ (Nat.two_pow_pos m)
  have hset' : c.setOf t.block < c'.sets.size := h.size ▸ hset
  obtain ⟨hslots, hhit⟩ := Slot.visit_moved (h.slots _ hset) ht
  refine ⟨⟨h.geometry, by simpa using h.size, ?_⟩, ?_⟩
  · intro set hlt
    rw [size_touched] at hlt
    by_cases heq : set = c.setOf t.block
    · subst heq
      rw [slotsAt_touched hset rfl, slotsAt_touched hset' hsame]
      exact hslots
    · rw [slotsAt_touched_of_ne heq, slotsAt_touched_of_ne (hsame ▸ heq)]
      exact h.slots set hlt
  · rw [Slot.hit_visit, Slot.hit_visit] at hhit
    rw [holds, holds, hsame]
    exact hhit

theorem afterTouches (h : c.Moved n c') (hsize : c.sets.size = 2 ^ m) (hn : 2 ^ m ∣ n)
    (hts : List.Forall₂ (Touch.Moved n) ts ts') :
    (c.afterTouches ts).Moved n (c'.afterTouches ts') ∧ c'.verdicts ts' = c.verdicts ts := by
  induction hts generalizing c c' with
  | nil => exact ⟨h, rfl⟩
  | cons ht _ ih =>
    obtain ⟨hnext, hholds⟩ := h.touched hsize hn ht
    obtain ⟨hlast, hverdicts⟩ := ih hnext (by simpa using hsize)
    exact ⟨hlast, by rw [verdicts, verdicts, hholds, hverdicts]⟩

theorem accessed (hc : c.SoundFor g) (h : c.Moved (d.toNat / g.lineBytes.toNat) c')
    (hd : g.Repeats d) (hs : s.FitsAbove d) :
    (c.accessed s).Moved (d.toNat / g.lineBytes.toNat) (c'.accessed (s.shift d)) ∧
      c'.hits (s.shift d) = c.hits s := by
  obtain ⟨m, hsize⟩ := hc.sound.exists_size_eq
  have hline := hd.dvd
  have hn : 2 ^ m ∣ d.toNat / g.lineBytes.toNat := by
    obtain ⟨sets, hsets, hdvd⟩ := hd
    have hcount := hc.sound.wellFormed.setCount_eq
    rw [hc.geometry, hsets] at hcount
    rw [← hsize, ← Except.ok.inj hcount]
    exact (Nat.dvd_div_iff_mul_dvd hline).mpr (by rwa [Nat.mul_comm])
  have hsplit := hc.sound_geometry.split_shift hd hs
  have hgeometry : c'.geometry = g := h.geometry.trans hc.geometry
  obtain ⟨hlast, hverdicts⟩ := h.afterTouches hsize hn hsplit
  refine ⟨?_, ?_⟩
  · rw [Cache.accessed, Cache.accessed, hgeometry, hc.geometry]
    exact hlast
  · rw [hits, hits, hgeometry, hc.geometry, hverdicts]

end Moved

theorem moved_blank (g : Geometry) (k n : Nat) : (blank g k).Moved n (blank g k) := by
  refine ⟨rfl, rfl, ?_⟩
  intro set hset
  rw [size_blank] at hset
  rw [slotsAt_blank hset, List.forall₂_same]
  intro slot hslot
  rw [List.eq_of_mem_replicate hslot]
  exact ⟨rfl, Iff.rfl, fun hreal => absurd rfl hreal⟩

def stride (c : Cache) : Nat := c.sets.size * c.geometry.lineBytes.toNat

theorem Sound.exists_stride_eq (h : c.Sound) : ∃ k, c.stride = 2 ^ k := by
  obtain ⟨m, hm⟩ := h.exists_size_eq
  exact ⟨m + c.geometry.lineBits, by rw [stride, hm, h.geometry.lineBytes_eq, Nat.pow_add]⟩

theorem SoundFor.repeats (hc : c.SoundFor g) (hd : c.stride ∣ d.toNat) : g.Repeats d := by
  have hcount := hc.sound.wellFormed.setCount_eq
  rw [stride, hc.geometry] at hd
  rw [hc.geometry] at hcount
  exact ⟨c.sets.size, hcount, hd⟩

end Cache

namespace Hierarchy

variable {g : HierarchyGeometry} {h h' : Hierarchy} {d : UInt64} {s : Span} {r : Reference}
  {refs : List Reference}

/-- The largest number of bytes after which the sets of a cache repeat. -/
def stride (h : Hierarchy) : Nat := max (max h.i1.stride h.d1.stride) h.ll.stride

theorem stride_get_le (h : Hierarchy) (level : Level) : (h.get level).stride ≤ h.stride := by
  cases level <;> simp [Levels.get, stride]

theorem exists_stride_get_eq (h : Hierarchy) : ∃ level, (h.get level).stride = h.stride := by
  rcases max_choice h.i1.stride h.d1.stride with hfirst | hfirst
  · rcases max_choice h.i1.stride h.ll.stride with hlast | hlast
    · exact ⟨.i1, by rw [stride, hfirst, hlast]; rfl⟩
    · exact ⟨.ll, by rw [stride, hfirst, hlast]; rfl⟩
  · rcases max_choice h.d1.stride h.ll.stride with hlast | hlast
    · exact ⟨.d1, by rw [stride, hfirst, hlast]; rfl⟩
    · exact ⟨.ll, by rw [stride, hfirst, hlast]; rfl⟩

/-- The largest stride is a multiple of the others, for all are powers of two. -/
theorem SoundFor.stride_get_dvd (hsound : SoundFor g h) (level : Level) :
    (h.get level).stride ∣ h.stride := by
  obtain ⟨most, hmost⟩ := h.exists_stride_get_eq
  obtain ⟨k, hk⟩ := (hsound most).sound.exists_stride_eq
  obtain ⟨j, hj⟩ := (hsound level).sound.exists_stride_eq
  have hle := h.stride_get_le level
  rw [← hmost, hj, hk] at hle
  rw [← hmost, hj, hk]
  exact Nat.pow_dvd_pow 2 ((Nat.pow_le_pow_iff_right (by omega)).mp hle)

theorem SoundFor.repeats (hsound : SoundFor g h) (hd : h.stride ∣ d.toNat) (level : Level) :
    (g.get level).Repeats d :=
  (hsound level).repeats (Nat.dvd_trans (hsound.stride_get_dvd level) hd)

structure Moved (g : HierarchyGeometry) (d : UInt64) (h h' : Hierarchy) : Prop where
  caches : ∀ level,
    (h.get level).Moved (d.toNat / (g.get level).lineBytes.toNat) (h'.get level)
  totals : h'.wordsInUse = h.wordsInUse

theorem Moved.of_caches (hsound : SoundFor g h) (hsound' : SoundFor g h')
    (hcaches : ∀ level,
      (h.get level).Moved (d.toNat / (g.get level).lineBytes.toNat) (h'.get level)) :
    Moved g d h h' := by
  refine ⟨hcaches, Levels.eq_of_get fun level => ?_⟩
  rw [wordsInUse, wordsInUse, Levels.get_map, Levels.get_map, hsound.exact, hsound'.exact]
  exact (hcaches level).recount_eq

theorem Moved.total (hm : Moved g d h h') (level : Level) :
    (h'.get level).wordsInUse = (h.get level).wordsInUse := by
  have htotals := congrArg (fun totals : Levels Nat => totals.get level) hm.totals
  simpa [wordsInUse] using htotals

theorem moved_of_empty (hg : g.Sound) (hempty : empty g = .ok h) (d : UInt64) :
    Moved g d h h := by
  have hsound := soundFor_of_empty hg hempty
  refine .of_caches hsound hsound fun level => ?_
  obtain ⟨m, _, hblank, _⟩ := Cache.empty_of_sound (HierarchyGeometry.sound_iff.mp hg level)
  rw [← Except.ok.inj (hblank.symm.trans (empty_eq_ok.mp hempty level))]
  exact Cache.moved_blank _ _ _

theorem Moved.hits (hm : Moved g d h h') (hsound : SoundFor g h)
    (hd : ∀ level, (g.get level).Repeats d) (hs : s.FitsAbove d) (level : Level) :
    (h'.get level).hits (s.shift d) = (h.get level).hits s :=
  ((hm.caches level).accessed (hsound level) (hd level) hs).2

theorem Moved.outcome (hm : Moved g d h h') (hsound : SoundFor g h)
    (hd : ∀ level, (g.get level).Repeats d) (hr : r.toSpan.FitsAbove d) :
    h'.outcome (r.shift d) = h.outcome r := by
  have hfirst := hm.hits hsound hd hr r.kind.firstLevel
  have hlast : h'.ll.hits (r.toSpan.shift d) = h.ll.hits r.toSpan := hm.hits hsound hd hr .ll
  simp only [Hierarchy.outcome, Reference.shift, hfirst, hlast]

theorem Moved.passed (hm : Moved g d h h') (hsound : SoundFor g h) (hsound' : SoundFor g h')
    (hd : ∀ level, (g.get level).Repeats d) (hr : r.toSpan.FitsAbove d) :
    Moved g d (h.passed r) (h'.passed (r.shift d)) := by
  refine .of_caches (hsound.passed hr.fits) (hsound'.passed hr.fits_shift) fun level => ?_
  have hreaches : h'.Reaches (r.shift d) level ↔ h.Reaches r level := by
    rw [Reaches, Reaches, hm.outcome hsound hd hr, Reference.shift]
  simp only [get_passed, hreaches]
  split_ifs
  · exact ((hm.caches level).accessed (hsound level) (hd level) hr).1
  · exact hm.caches level

end Hierarchy

structure Step.Moved (g : HierarchyGeometry) (d : UInt64) (x x' : Step) : Prop where
  reference : x'.reference = x.reference.shift d
  served : x'.served = x.served
  caches : x.caches.Moved g d x'.caches

namespace Stats

variable {g : HierarchyGeometry} {d : UInt64} {s : Stats} {x x' : Step} {steps steps' : List Step}

theorem tally_moved (hx : x.Moved g d x') : s.tally x' = s.tally x := by
  have hkind : x'.reference.kind = x.reference.kind := by rw [hx.reference, Reference.shift]
  have hfirst : x'.firstWords = x.firstWords := by
    rw [Step.firstWords, Step.firstWords, hkind]
    exact hx.caches.total _
  have hlast : x'.lastWords = x.lastWords := hx.caches.total .ll
  simp only [tally, Counters.tally, hkind, hx.served, hfirst, hlast]

theorem tallyAll_moved (hsteps : List.Forall₂ (Step.Moved g d) steps steps') :
    s.tallyAll steps' = s.tallyAll steps := by
  induction hsteps generalizing s with
  | nil => rfl
  | @cons x x' steps steps' hx _ ih =>
    change (s.tally x').tallyAll steps' = (s.tally x).tallyAll steps
    rw [tally_moved hx, ih]

end Stats

namespace Hierarchy

variable {g : HierarchyGeometry} {h h' : Hierarchy} {d : UInt64} {refs : List Reference}

theorem Moved.steps (hm : Moved g d h h') (hsound : SoundFor g h) (hsound' : SoundFor g h')
    (hd : ∀ level, (g.get level).Repeats d) (hr : ∀ r ∈ refs, r.toSpan.FitsAbove d) :
    List.Forall₂ (Step.Moved g d) (h.steps refs) (h'.steps (refs.map (Reference.shift d))) ∧
      Moved g d (h.after (h.steps refs))
        (h'.after (h'.steps (refs.map (Reference.shift d)))) := by
  induction refs generalizing h h' with
  | nil => exact ⟨.nil, hm⟩
  | cons r refs ih =>
    have hfit := hr r List.mem_cons_self
    have hnext := hm.passed hsound hsound' hd hfit
    have hrest := ih hnext (hsound.passed hfit.fits) (hsound'.passed hfit.fits_shift)
      fun u hu => hr u (List.mem_cons_of_mem r hu)
    exact ⟨.cons ⟨rfl, hm.outcome hsound hd hfit, hnext⟩ hrest.1, hrest.2⟩

end Hierarchy

namespace Simulation

variable {g : HierarchyGeometry}

structure Moved (g : HierarchyGeometry) (d : UInt64) (sim sim' : Simulation) : Prop where
  stats : sim'.stats = sim.stats
  caches : sim.caches.Moved g d sim'.caches

/-- A run further up by a multiple of the largest stride is the same run after every reference, or
leaves 64 bits as the lower one does. -/
theorem serveAll_shift (hg : g.Sound) :
    ∃ new sim, Hierarchy.empty g = .ok new ∧ start g = .ok sim ∧
      ∀ (d : UInt64) (refs : List Reference), new.stride ∣ d.toNat →
        (∀ r ∈ refs, r.toSpan.FitsAbove d) → ∀ past, past <+: refs →
        ((∀ kind, (Counters.recounted kind (new.steps past)).InRange) →
          ∃ served last last', serveAll past sim = .ok served last ∧
            serveAll (past.map (Reference.shift d)) sim = .ok served last' ∧
            last.Moved g d last') ∧
        ((¬ ∀ kind, (Counters.recounted kind (new.steps past)).InRange) →
          ∃ last last', serveAll past sim = .error .arithmeticOverflow last ∧
            serveAll (past.map (Reference.shift d)) sim = .error .arithmeticOverflow last') := by
  obtain ⟨new, hempty, hstart, hsound⟩ := start_of_sound hg
  refine ⟨new, _, hempty, hstart, fun d refs hd hr past hpast => ?_⟩
  have habove : ∀ r ∈ past, r.toSpan.FitsAbove d := fun r hmem => hr r (hpast.subset hmem)
  have hfit : ∀ r ∈ past, r.toSpan.Fits := fun r hmem => (habove r hmem).fits
  have hfit' : ∀ r ∈ past.map (Reference.shift d), r.toSpan.Fits := by
    intro r hmem
    obtain ⟨u, hu, rfl⟩ := List.mem_map.mp hmem
    exact (habove u hu).fits_shift
  obtain ⟨hsteps, hafter⟩ := (Hierarchy.moved_of_empty hg hempty d).steps hsound hsound
    (hsound.repeats hd) habove
  have hcaches : (Simulation.mk new .zero #[new.built]).caches.SoundFor g := hsound
  have hrun := serveAll_yields hcaches hfit
  have hrun' := serveAll_yields hcaches hfit'
  have hserved : (new.steps (past.map (Reference.shift d))).map Step.served =
      (new.steps past).map Step.served := by
    rw [← List.forall₂_eq_eq_eq, List.forall₂_map_left_iff, List.forall₂_map_right_iff]
    exact hsteps.flip.imp fun _ _ hx => hx.served
  -- The counters are the same whatever their size, so both runs leave 64 bits or neither does.
  have hstats := Stats.tallyAll_moved (s := .zero) hsteps
  have hrange := hsound.inRange_tallyAll_iff hfit
  refine ⟨fun hall => ?_, fun hout => ?_⟩
  · have hin := hrange.mpr hall
    have hin' : (Stats.zero.tallyAll (new.steps (past.map (Reference.shift d)))).InRange :=
      hstats ▸ hin
    have hlast := hrun'.eq_ok hin'
    rw [hserved] at hlast
    exact ⟨_, _, _, hrun.eq_ok hin, hlast, hstats, hafter⟩
  · have hnot := mt hrange.mp hout
    have hnot' : ¬ (Stats.zero.tallyAll (new.steps (past.map (Reference.shift d)))).InRange :=
      hstats ▸ hnot
    obtain ⟨last, hlast⟩ := hrun.eq_error Stats.inRange_zero hnot
    obtain ⟨last', hlast'⟩ := hrun'.eq_error Stats.inRange_zero hnot'
    exact ⟨last, last', hlast, hlast'⟩

theorem serveAll_shift_one_page :
    HierarchyGeometry.Sound ⟨⟨16, 1, 16⟩, ⟨64, 2, 16⟩, ⟨128, 2, 32⟩⟩ ∧
    (∀ r : Reference, r ∈ [⟨⟨0x1C, 8⟩, .fetch⟩, ⟨⟨0x3C, 8⟩, .read⟩, ⟨⟨0x24, 4⟩, .fetch⟩] →
      r.toSpan.FitsAbove 0x1000) ∧
    ∃ new sim last last', Hierarchy.empty ⟨⟨16, 1, 16⟩, ⟨64, 2, 16⟩, ⟨128, 2, 32⟩⟩ = .ok new ∧
      start ⟨⟨16, 1, 16⟩, ⟨64, 2, 16⟩, ⟨128, 2, 32⟩⟩ = .ok sim ∧ new.stride = 64 ∧
      serveAll [⟨⟨0x1C, 8⟩, .fetch⟩, ⟨⟨0x3C, 8⟩, .read⟩, ⟨⟨0x24, 4⟩, .fetch⟩] sim =
        .ok [.memory, .memory, .firstLevel] last ∧
      serveAll [⟨⟨0x101C, 8⟩, .fetch⟩, ⟨⟨0x103C, 8⟩, .read⟩, ⟨⟨0x1024, 4⟩, .fetch⟩] sim =
        .ok [.memory, .memory, .firstLevel] last' ∧
      last.Moved ⟨⟨16, 1, 16⟩, ⟨64, 2, 16⟩, ⟨128, 2, 32⟩⟩ 0x1000 last' := by
  -- Three lines of LL, two sets of D1 and a fetch across two lines of I1, 4096 bytes further up.
  have hg : HierarchyGeometry.Sound ⟨⟨16, 1, 16⟩, ⟨64, 2, 16⟩, ⟨128, 2, 32⟩⟩ := by decide
  have hr : ∀ r : Reference, r ∈ [⟨⟨0x1C, 8⟩, .fetch⟩, ⟨⟨0x3C, 8⟩, .read⟩, ⟨⟨0x24, 4⟩, .fetch⟩] →
      r.toSpan.FitsAbove 0x1000 := by decide
  obtain ⟨new, sim, hempty, hstart, hall⟩ := serveAll_shift hg
  have hnew : new = ⟨.blank ⟨16, 1, 16⟩ 1, .blank ⟨64, 2, 16⟩ 2, .blank ⟨128, 2, 32⟩ 2⟩ :=
    Except.ok.inj (hempty.symm.trans rfl)
  have hstride : new.stride = 64 := by
    rw [hnew]
    rfl
  have hdvd : new.stride ∣ UInt64.toNat 0x1000 := by
    rw [hstride]
    decide
  obtain ⟨hfits, _⟩ := hall 0x1000 _ hdvd hr _ List.prefix_rfl
  obtain ⟨sim', last, hsim, hserve⟩ := outcomes?_eq_some.mp (show outcomes?
    ⟨⟨16, 1, 16⟩, ⟨64, 2, 16⟩, ⟨128, 2, 32⟩⟩
    [⟨⟨0x1C, 8⟩, .fetch⟩, ⟨⟨0x3C, 8⟩, .read⟩, ⟨⟨0x24, 4⟩, .fetch⟩] =
      some [.memory, .memory, .firstLevel] by decide +kernel)
  have hsame := Except.ok.inj (hsim.symm.trans hstart)
  subst hsame
  have hin := inRange_of_serveAll_eq_ok hg (fun r hmem => (hr r hmem).fits) hempty hstart hserve
  obtain ⟨served, _, last', hrun, hrun', hmoved⟩ := hfits hin
  cases hserve.symm.trans hrun
  exact ⟨hg, hr, new, sim', last, last', hempty, hstart, hstride, hserve, hrun', hmoved⟩

end Simulation

end CacheUsage
