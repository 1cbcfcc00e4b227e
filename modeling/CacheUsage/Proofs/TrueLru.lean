import CacheUsage.Proofs.Recency

namespace CacheUsage

namespace Cache

variable {c : Cache} {s : Span} {spans : List Span} {g : Geometry} {m : Nat}

/-- The sets and verdicts of a cache of `sets` sets after a run, read off the blocks that the run
touches. -/
structure RunsAsLru (g : Geometry) (sets : Nat) (spans : List Span) (verdicts : List Bool)
    (c : Cache) : Prop where
  tags : ∀ set < sets, ∃ slots, c.slotsOf set = .ok slots ∧ slots.map Slot.tag =
    ((recency sets set (spans.flatMap g.blocks)).take g.ways.toNat).rightpad g.ways.toNat
      Slot.vacantTag
  length_verdicts : verdicts.length = spans.length
  verdict : ∀ i s hit, spans[i]? = some s → verdicts[i]? = some hit → (hit = true ↔
    ∀ j block, (g.blocks s)[j]? = some block → Retained g.ways.toNat sets
      ((spans.take i).flatMap g.blocks ++ (g.blocks s).take j) block)

theorem accessAll_empty_runsAsLru (hg : g.Sound) (hs : ∀ s ∈ spans, s.Fits) :
    ∃ sets new verdicts c, g.setCount = .ok sets ∧ empty g = .ok new ∧
      accessAll spans new = .ok verdicts c ∧ RunsAsLru g sets spans verdicts c := by
  obtain ⟨m, hsets, hnew, hsound⟩ := empty_of_sound hg
  refine ⟨2 ^ m, _, _, _, hsets, hnew, hsound.accessAll_eq_ok hs, ?_, length_hitsAll, ?_⟩
  · intro set hset
    have hregular := hg.regular_of_mem_flatMap_split hs
    have hw := hsound.wellFormed.afterTouches fun t ht => (hregular t ht).below
    have htags := tagsAt_afterTouches_blank hsound hregular hset
    rw [take_append_replicate, hg.map_block_flatMap_split hs] at htags
    rw [foldl_accessed]
    exact ⟨_, hw.slotsOf_eq_ok (by rwa [size_afterTouches, size_blank]), htags⟩
  · intro i s hit hspan hverdict
    have hpast : ∀ r ∈ spans.take i, r.Fits := fun r hr => hs r (List.mem_of_mem_take hr)
    have hhits := hits_afterTouches_blank hsound (hg.regular_of_mem_flatMap_split hpast)
      (hs s (List.mem_of_getElem? hspan))
    rw [getElem?_hitsAll, hspan, foldl_accessed] at hverdict
    rw [← Option.some.inj hverdict, ← hg.map_block_flatMap_split hpast]
    exact hhits

theorem accessAll_empty_runsAsLru_evicting :
    (⟨64, 2, 16⟩ : Geometry).Sound ∧
    (∀ s ∈ [⟨0x18, 16⟩, ⟨0x30, 4⟩, ⟨0x58, 1⟩, ⟨0x10, 8⟩], Span.Fits s) ∧
    ∃ sets new verdicts c, Geometry.setCount ⟨64, 2, 16⟩ = .ok sets ∧
      empty ⟨64, 2, 16⟩ = .ok new ∧
      accessAll [⟨0x18, 16⟩, ⟨0x30, 4⟩, ⟨0x58, 1⟩, ⟨0x10, 8⟩] new = .ok verdicts c ∧
      RunsAsLru ⟨64, 2, 16⟩ sets [⟨0x18, 16⟩, ⟨0x30, 4⟩, ⟨0x58, 1⟩, ⟨0x10, 8⟩] verdicts c :=
  ⟨by decide, by decide, accessAll_empty_runsAsLru (by decide) (by decide)⟩

end Cache

end CacheUsage
