import CacheUsage.Proofs.Promotion
import CacheUsage.Proofs.Run

namespace CacheUsage

/-- The distinct blocks of one set that a history touches, the last touched first. -/
def recency (sets set : Nat) (history : List UInt64) : List UInt64 :=
  (history.reverse.filter fun block => block.toNat % sets = set).eraseDups

/-- The block was touched, and since its last touch fewer than `ways` distinct other blocks of its
set were. -/
def Retained (ways sets : Nat) (past : List UInt64) (block : UInt64) : Prop :=
  block ∈ past ∧ ((past.reverse.takeWhile fun other => other ≠ block).filter
    fun other => other.toNat % sets = block.toNat % sets).eraseDups.length < ways

theorem mem_take_recency {ways sets : Nat} {past : List UInt64} {block : UInt64} :
    block ∈ (recency sets (block.toNat % sets) past).take ways ↔ Retained ways sets past block := by
  rw [recency, mem_take_eraseDups, takeWhile_filter_ne (by simp), List.mem_filter,
    List.mem_reverse, Retained]
  simp

namespace Cache

variable {c : Cache} {width set : Nat} {s : Span} {spans : List Span} {t : Touch} {ts : List Touch}
  {g : Geometry} {m : Nat}

theorem WellFormed.length_tagsAt (h : c.WellFormed width) (hset : set < c.sets.size) :
    (c.tagsAt set).length = c.geometry.ways.toNat := by
  rw [tagsAt, List.length_map, h.length_slotsAt set hset]

theorem WellFormed.tagsAt_touched (h : c.WellFormed width) (t : Touch)
    (hset : set < c.sets.size) :
    (c.touched t).tagsAt set =
      if c.setOf t.block = set then (promote t.block (c.tagsAt set)).take c.geometry.ways.toNat
      else c.tagsAt set := by
  have hlen := h.length_tagsAt hset
  have hfull : (c.tagsAt set).take c.geometry.ways.toNat = c.tagsAt set :=
    List.take_of_length_le (by omega)
  split_ifs with heq
  · subst heq
    rw [take_promote h.ways_pos (by omega), hfull, tagsAt, slotsAt_touched hset rfl,
      Slot.map_tag_visit, tagsAt]
  · rw [tagsAt, slotsAt_touched_of_ne (Ne.symm heq), tagsAt]

/-- A run brings the blocks of a set forward, one after the other, and keeps the first ones. -/
theorem WellFormed.tagsAt_afterTouches (h : c.WellFormed width)
    (ht : ∀ t ∈ ts, t.words.Below width) (hset : set < c.sets.size) :
    (c.afterTouches ts).tagsAt set =
      (promoteAll ((ts.map Touch.block).filter fun block => c.setOf block = set)
        (c.tagsAt set)).take c.geometry.ways.toNat := by
  -- From the end of the run, for the last touch acts on the set that the others leave; that this
  -- was cut to the ways of the cache does not matter for what one more touch brings forward.
  induction ts using List.reverseRecOn with
  | nil =>
    have hlen := h.length_tagsAt hset
    exact (List.take_of_length_le (Nat.le_of_eq hlen)).symm
  | append_singleton ts t ih =>
    have hpast := ih fun u hu => ht u (List.mem_append_left [t] hu)
    have hw := h.afterTouches fun u hu => ht u (List.mem_append_left [t] hu)
    have hstep := hw.tagsAt_touched t (show set < _ by simpa using hset)
    have hlen := length_promoteAll
      ((ts.map Touch.block).filter fun block => c.setOf block = set) (c.tagsAt set)
    rw [h.length_tagsAt hset] at hlen
    rw [afterTouches_append, afterTouches_cons, afterTouches_nil, hstep, hpast,
      setOf_eq_of_size size_afterTouches, geometry_afterTouches, List.map_append,
      List.filter_append, promoteAll_append]
    split_ifs with heq
    · rw [take_promote_take h.ways_pos hlen]
      simp [promoteAll, heq]
    · simp [promoteAll, heq]

theorem setOf_eq_mod (hsize : c.sets.size = 2 ^ m) (block : UInt64) :
    c.setOf block = block.toNat % 2 ^ m := by
  rw [setOf, setMask, hsize, Nat.and_two_pow_sub_one_eq_mod]

theorem Sound.exists_size_eq (h : c.Sound) : ∃ m, c.sets.size = 2 ^ m := by
  obtain ⟨m, hm, _⟩ := h.geometry.setCount_eq
  exact ⟨m, Except.ok.inj (h.wellFormed.setCount_eq.symm.trans hm)⟩

theorem tagsAt_afterTouches_blank (h : (blank g (2 ^ m)).Sound) (ht : ∀ t ∈ ts, t.Regular g)
    (hset : set < 2 ^ m) :
    ((blank g (2 ^ m)).afterTouches ts).tagsAt set =
      (recency (2 ^ m) set (ts.map Touch.block) ++
        List.replicate g.ways.toNat Slot.vacantTag).take g.ways.toNat := by
  rw [h.wellFormed.tagsAt_afterTouches (fun t hmem => (ht t hmem).below) (by rwa [size_blank]),
    tagsAt_blank hset, promoteAll_eq]
  · simp only [setOf_eq_mod (size_blank g (2 ^ m)), recency, List.filter_reverse]
    rfl
  · intro block hblock hvacant
    obtain ⟨t, hmem, heq⟩ := List.mem_map.mp (List.mem_of_mem_filter hblock)
    exact (ht t hmem).real (heq.trans (List.eq_of_mem_replicate hvacant))

theorem holds_afterTouches_blank (h : (blank g (2 ^ m)).Sound) (ht : ∀ t ∈ ts, t.Regular g)
    {block : UInt64} (hblock : block ≠ Slot.vacantTag) :
    ((blank g (2 ^ m)).afterTouches ts).holds block = true ↔
      Retained g.ways.toNat (2 ^ m) (ts.map Touch.block) block := by
  have hsize : ((blank g (2 ^ m)).afterTouches ts).sets.size = 2 ^ m := by
    rw [size_afterTouches, size_blank]
  have hmod := Nat.mod_lt block.toNat (Nat.two_pow_pos m)
  have hrest : block ∉ List.replicate g.ways.toNat Slot.vacantTag := fun hmem =>
    hblock (List.eq_of_mem_replicate hmem)
  rw [holds, decide_eq_true_iff, setOf_eq_mod hsize, tagsAt_afterTouches_blank h ht hmod,
    mem_take_append hrest, mem_take_recency]

theorem hits_afterTouches_blank (h : (blank g (2 ^ m)).Sound) (ht : ∀ t ∈ ts, t.Regular g)
    (hs : s.Fits) : ((blank g (2 ^ m)).afterTouches ts).hits s = true ↔
      ∀ j block, (g.blocks s)[j]? = some block →
        Retained g.ways.toNat (2 ^ m) (ts.map Touch.block ++ (g.blocks s).take j) block := by
  have hg : g.Sound := h.geometry
  have hregular := hg.regular_of_mem_split hs
  have hgeometry : ((blank g (2 ^ m)).afterTouches ts).geometry = g := geometry_afterTouches
  have hlookup : ∀ j t, (g.split s)[j]? = some t →
      ((((blank g (2 ^ m)).afterTouches ts).afterTouches ((g.split s).take j)).holds t.block = true ↔
        Retained g.ways.toNat (2 ^ m) (ts.map Touch.block ++ (g.blocks s).take j) t.block) := by
    intro j t hj
    have hall : ∀ u ∈ ts ++ (g.split s).take j, u.Regular g := by
      intro u hu
      rcases List.mem_append.mp hu with hpast | hhere
      · exact ht u hpast
      · exact hregular u (List.mem_of_mem_take hhere)
    have hholds := holds_afterTouches_blank h hall (hregular t (List.mem_of_getElem? hj)).real
    rwa [afterTouches_append, List.map_append, List.map_take, hg.map_block_split hs]
      at hholds
  rw [hits_eq_true_iff, hgeometry]
  constructor
  · intro hall j block hj
    rw [← hg.map_block_split hs, List.getElem?_map, Option.map_eq_some_iff] at hj
    obtain ⟨t, hget, rfl⟩ := hj
    exact (hlookup j t hget).mp (hall j t hget)
  · intro hall j t hget
    refine (hlookup j t hget).mpr (hall j t.block ?_)
    rw [← hg.map_block_split hs, List.getElem?_map, hget]
    rfl

end Cache

end CacheUsage
