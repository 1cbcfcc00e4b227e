import CacheUsage.Proofs.Calls
import CacheUsage.Proofs.Recency

namespace CacheUsage

/-- A history touches at least `ways` distinct blocks of a set. -/
def Crowds (ways sets : Nat) (history : List UInt64) (set : Nat) : Prop :=
  ways ≤ (recency sets set history).length

instance (ways sets : Nat) (history : List UInt64) (set : Nat) :
    Decidable (Crowds ways sets history set) := by unfold Crowds; infer_instance

namespace Cache

variable {g : Geometry} {c d : Cache} {set m : Nat} {s : Span} {spans : List Span}
  {ts : List Touch}

theorem SoundFor.tagsAt_afterTouches (h : c.SoundFor g) (ht : ∀ t ∈ ts, t.Regular g)
    (hset : set < c.sets.size) : (c.afterTouches ts).tagsAt set =
      (promoteAll ((ts.map Touch.block).filter fun block => c.setOf block = set)
        (c.tagsAt set)).take g.ways.toNat := by
  rw [h.sound.wellFormed.tagsAt_afterTouches (h.below ht) hset, h.geometry]

/-- A crowded set holds the last blocks of the history, whatever it held before. -/
theorem SoundFor.tagsAt_of_crowds (h : c.SoundFor g) (hsize : c.sets.size = 2 ^ m)
    (ht : ∀ t ∈ ts, t.Regular g) (hset : set < 2 ^ m)
    (hcrowd : Crowds g.ways.toNat (2 ^ m) (ts.map Touch.block) set) :
    (c.afterTouches ts).tagsAt set =
      (recency (2 ^ m) set (ts.map Touch.block)).take g.ways.toNat := by
  have hhistory : ((ts.map Touch.block).filter fun block => c.setOf block = set).reverse.eraseDups =
      recency (2 ^ m) set (ts.map Touch.block) := by
    simp only [setOf_eq_mod hsize, recency, List.filter_reverse]
  have hfull := hcrowd
  rw [Crowds, ← hhistory] at hfull
  rw [h.tagsAt_afterTouches ht (by omega), take_promoteAll hfull, hhistory]

structure AlikeAt (g : Geometry) (set : Nat) (c d : Cache) : Prop where
  left : c.SoundFor g
  right : d.SoundFor g
  inside : set < c.sets.size
  tags : c.tagsAt set = d.tagsAt set

namespace AlikeAt

theorem tagsAt_afterTouches (h : AlikeAt g set c d) (ht : ∀ t ∈ ts, t.Regular g) :
    (c.afterTouches ts).tagsAt set = (d.afterTouches ts).tagsAt set := by
  have hsize := h.left.size_eq h.right
  have hright := h.right.tagsAt_afterTouches ht (hsize ▸ h.inside)
  rw [h.left.tagsAt_afterTouches ht h.inside, hright, h.tags]
  simp only [setOf_eq_of_size hsize]

theorem access (h : AlikeAt g set c d) (s : Span) :
    AlikeAt g set (residue (access s c)) (residue (access s d)) := by
  have hleft := access_maintains s c h.left
  refine ⟨hleft, access_maintains s d h.right, h.left.size_eq hleft ▸ h.inside, ?_⟩
  rw [h.left.access_eq, h.right.access_eq]
  cases hsplit : g.touches s with
  | ok ts => exact h.tagsAt_afterTouches (h.left.sound_geometry.regular_of_touches hsplit)
  | error fault => exact h.tags

end AlikeAt

theorem verdicts_eq (ht : ∀ t ∈ ts, t.Regular g)
    (h : ∀ t ∈ ts, AlikeAt g (c.setOf t.block) c d) : c.verdicts ts = d.verdicts ts := by
  apply List.ext_getElem?
  intro k
  rw [getElem?_verdicts, getElem?_verdicts]
  cases hk : ts[k]? with
  | none => rfl
  | some t =>
    have halike := h t (List.mem_of_getElem? hk)
    have hsize := halike.left.size_eq halike.right
    have hpast : ∀ u ∈ ts.take k, u.Regular g := fun u hu => ht u (List.mem_of_mem_take hu)
    have htags := halike.tagsAt_afterTouches hpast
    simp only [Option.map_some, holds, setOf_afterTouches, ← setOf_eq_of_size hsize, htags]

theorem answer_access_eq (h : ∀ block ∈ g.blocks s, AlikeAt g (c.setOf block) c d) :
    answer (access s c) = answer (access s d) := by
  have hfirst := h (g.block s.addr) (Geometry.mem_blocks.mpr (Or.inl rfl))
  rw [hfirst.left.access_eq, hfirst.right.access_eq]
  cases hsplit : g.touches s with
  | error fault => rfl
  | ok ts =>
    have hg := hfirst.left.sound_geometry
    have hs := hg.fits_of_touches hsplit
    have hsame := Except.ok.inj (hsplit.symm.trans (hg.touches_eq_split hs))
    have hverdicts : c.verdicts ts = d.verdicts ts := by
      refine verdicts_eq (hg.regular_of_touches hsplit) fun t ht => h t.block ?_
      exact hg.block_mem_blocks hs (hsame ▸ ht)
    simp only [answer, hverdicts]

def afterAll (c : Cache) (spans : List Span) : Cache :=
  spans.foldl (fun c s => residue (access s c)) c

theorem AlikeAt.afterAll (h : AlikeAt g set c d) (spans : List Span) :
    AlikeAt g set (c.afterAll spans) (d.afterAll spans) := by
  induction spans generalizing c d with
  | nil => exact h
  | cons s spans ih => exact ih (h.access s)

theorem SoundFor.foldl_accessed (h : c.SoundFor g) (hs : ∀ s ∈ spans, s.Fits) :
    (spans.foldl (fun c s => c.accessed s) c).SoundFor g := by
  refine ⟨h.sound.foldl_accessed hs, ?_⟩
  rw [Cache.foldl_accessed, geometry_afterTouches, h.geometry]

theorem alikeAt_of_crowds (hc : c.SoundFor g) (hd : d.SoundFor g) (hsize : c.sets.size = 2 ^ m)
    (hs : ∀ s ∈ spans, s.Fits) (hset : set < 2 ^ m)
    (hcrowd : Crowds g.ways.toNat (2 ^ m) (spans.flatMap g.blocks) set) :
    AlikeAt g set (spans.foldl (fun c s => c.accessed s) c)
      (spans.foldl (fun c s => c.accessed s) d) := by
  have hg := hc.sound_geometry
  have hregular := hg.regular_of_mem_flatMap_split hs
  have hleft := hc.foldl_accessed hs
  rw [← hg.map_block_flatMap_split hs] at hcrowd
  refine ⟨hleft, hd.foldl_accessed hs, by rw [hleft.size_eq hc, hsize]; exact hset, ?_⟩
  rw [Cache.foldl_accessed, Cache.foldl_accessed, hc.geometry, hd.geometry,
    hc.tagsAt_of_crowds hsize hregular hset hcrowd,
    hd.tagsAt_of_crowds (hd.size_eq hc ▸ hsize) hregular hset hcrowd]

/-- In the sets that a history crowds two caches hold the same blocks in the same order, and go on to
do so. References that keep to these sets are answered alike. -/
structure Merged (g : Geometry) (sets : Nat) (history : List UInt64) (c d : Cache) : Prop where
  tags : ∀ more set, set < sets → Crowds g.ways.toNat sets history set →
    ∃ slots slots', (c.afterAll more).slotsOf set = .ok slots ∧
      (d.afterAll more).slotsOf set = .ok slots' ∧ slots.map Slot.tag = slots'.map Slot.tag
  verdict : ∀ more s, (∀ block ∈ g.blocks s,
    Crowds g.ways.toNat sets history (block.toNat % sets)) →
      answer (access s (c.afterAll more)) = answer (access s (d.afterAll more))

/-- Whatever led to two caches of a sound geometry, a run that both make merges them. -/
theorem accessAll_merges (hg : g.Sound) :
    ∃ sets new, g.setCount = .ok sets ∧ empty g = .ok new ∧ ∀ c d, AccessReachable new c →
      AccessReachable new d → ∀ spans, (∀ s ∈ spans, s.Fits) →
        ∃ verdicts verdicts' c' d', accessAll spans c = .ok verdicts c' ∧
          accessAll spans d = .ok verdicts' d' ∧ Merged g sets (spans.flatMap g.blocks) c' d' := by
  obtain ⟨m, hsets, hnew, hsound⟩ := empty_of_sound hg
  refine ⟨2 ^ m, _, hsets, hnew, fun c d hreach hreach' spans hs => ?_⟩
  have hblank : (blank g (2 ^ m)).SoundFor g := ⟨hsound, rfl⟩
  have hc := hreach.soundFor hblank
  have hd := hreach'.soundFor hblank
  have hsize : c.sets.size = 2 ^ m := (hc.size_eq hblank).trans (size_blank g (2 ^ m))
  have halike : ∀ more set, set < 2 ^ m →
      Crowds g.ways.toNat (2 ^ m) (spans.flatMap g.blocks) set → AlikeAt g set
        ((spans.foldl (fun c s => c.accessed s) c).afterAll more)
        ((spans.foldl (fun c s => c.accessed s) d).afterAll more) :=
    fun more set hset hcrowd => (alikeAt_of_crowds hc hd hsize hs hset hcrowd).afterAll more
  refine ⟨_, _, _, _, hc.sound.accessAll_eq_ok hs, hd.sound.accessAll_eq_ok hs, ?_, ?_⟩
  · intro more set hset hcrowd
    have h := halike more set hset hcrowd
    exact ⟨_, _, h.left.sound.wellFormed.slotsOf_eq_ok h.inside,
      h.right.sound.wellFormed.slotsOf_eq_ok (h.left.size_eq h.right ▸ h.inside), h.tags⟩
  · intro more s hblocks
    refine answer_access_eq (g := g) fun block hblock => ?_
    have h := halike more _ (Nat.mod_lt _ (Nat.two_pow_pos m)) (hblocks block hblock)
    rwa [setOf_eq_mod ((h.left.size_eq hblank).trans (size_blank g (2 ^ m)))]

theorem accessAll_merges_two_ways :
    (⟨64, 2, 16⟩ : Geometry).Sound ∧
    ∃ sets new, Geometry.setCount ⟨64, 2, 16⟩ = .ok sets ∧ empty ⟨64, 2, 16⟩ = .ok new ∧
      ∃ c d, c = residue (access ⟨0x28, 16⟩ new) ∧
        d = residue (access ⟨0x60, 4⟩ (residue (access ⟨0x20, 1⟩ new))) ∧
        AccessReachable new c ∧ AccessReachable new d ∧
        (∀ s ∈ [⟨0x20, 4⟩, ⟨0x38, 16⟩], Span.Fits s) ∧
        Crowds 2 sets ([⟨0x20, 4⟩, ⟨0x38, 16⟩].flatMap (Geometry.blocks ⟨64, 2, 16⟩)) 0 ∧
        ∃ verdicts verdicts' c' d', accessAll [⟨0x20, 4⟩, ⟨0x38, 16⟩] c = .ok verdicts c' ∧
          accessAll [⟨0x20, 4⟩, ⟨0x38, 16⟩] d = .ok verdicts' d' ∧
          Merged ⟨64, 2, 16⟩ sets
            ([⟨0x20, 4⟩, ⟨0x38, 16⟩].flatMap (Geometry.blocks ⟨64, 2, 16⟩)) c' d' := by
  -- Set 0 starts with block 2 in one cache and with blocks 6 and 2 in the other; the run brings
  -- blocks 2 and 4 into it.
  have hg : (⟨64, 2, 16⟩ : Geometry).Sound := by decide
  obtain ⟨sets, new, hsets, hnew, hmerge⟩ := accessAll_merges hg
  have htwo : sets = 2 := Except.ok.inj (hsets.symm.trans rfl)
  subst htwo
  have hleft : AccessReachable new (residue (access ⟨0x28, 16⟩ new)) := .access _ .start
  have hright : AccessReachable new
      (residue (access ⟨0x60, 4⟩ (residue (access ⟨0x20, 1⟩ new)))) := .access _ (.access _ .start)
  exact ⟨hg, _, new, hsets, hnew, _, _, rfl, rfl, hleft, hright, by decide, by decide,
    hmerge _ _ hleft hright _ (by decide)⟩

end Cache

end CacheUsage
