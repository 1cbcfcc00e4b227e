import CacheUsage.Proofs.Lookup
import Mathlib.Data.Finset.Card

namespace CacheUsage

variable {g : Geometry} {log : List Lookup} {l : Lookup} {slot : Slot} {slots : List Slot}
  {words : WordMap}

/-- A vacant slot has no words in use, any other the words marked since it was installed. -/
structure Slot.Agrees (g : Geometry) (log : List Lookup) (slot : Slot) : Prop where
  vacant : slot.tag = Slot.vacantTag → slot.used = 0
  resident : slot.tag ≠ Slot.vacantTag → ∃ k, Installs log slot.tag k ∧
    ∀ w, slot.used.getLsbD w = true ↔ w < g.lineWords ∧ MarkedSince g log slot.tag k w

def Marks (g : Geometry) (s : Span) (t : Touch) : Prop :=
  ∀ w, t.words.getLsbD w = true ↔ w < g.lineWords ∧ g.CoversWord s t.block w

namespace Slot

theorem Agrees.append_of_ne (h : slot.Agrees g log) (hne : l.block ≠ slot.tag) :
    slot.Agrees g (log ++ [l]) := by
  refine ⟨h.vacant, fun hreal => ?_⟩
  obtain ⟨k, hk, hwords⟩ := h.resident hreal
  refine ⟨k, hk.append fun heq => absurd heq hne, fun w => (hwords w).trans ?_⟩
  rw [markedSince_append (Nat.le_of_lt hk.lt_length)]
  simp [hne]

theorem Agrees.append_of_hit (h : slot.Agrees g log) (htag : l.block = slot.tag)
    (hreal : slot.tag ≠ vacantTag) (hhit : l.hit = true)
    (hw : ∀ w, words.getLsbD w = true ↔ w < g.lineWords ∧ g.CoversWord l.span l.block w) :
    Agrees g (log ++ [l]) ⟨l.block, slot.used ||| words⟩ := by
  obtain ⟨k, hk, hwords⟩ := h.resident hreal
  refine ⟨fun hvacant => absurd (htag.symm.trans hvacant) hreal, fun _ => ⟨k, ?_, fun w => ?_⟩⟩
  · rw [htag]
    exact hk.append fun _ => hhit
  · rw [BitVec.getLsbD_or, Bool.or_eq_true, hwords w, hw w, htag,
      markedSince_append (Nat.le_of_lt hk.lt_length)]
    constructor
    · intro hor
      rcases hor with ⟨hlt, hm⟩ | ⟨hlt, hc⟩
      · exact ⟨hlt, Or.inl hm⟩
      · exact ⟨hlt, Or.inr ⟨htag, hc⟩⟩
    · intro hand
      rcases hand with ⟨hlt, hm | ⟨_, hc⟩⟩
      · exact Or.inl ⟨hlt, hm⟩
      · exact Or.inr ⟨hlt, hc⟩

theorem agrees_of_miss (hreal : l.block ≠ vacantTag) (hmiss : l.hit = false)
    (hw : ∀ w, words.getLsbD w = true ↔ w < g.lineWords ∧ g.CoversWord l.span l.block w) :
    Agrees g (log ++ [l]) ⟨l.block, words⟩ := by
  refine ⟨fun hvacant => absurd hvacant hreal,
    fun _ => ⟨log.length, installs_of_miss hmiss, fun w => ?_⟩⟩
  rw [hw w, markedSince_append (Nat.le_refl _)]
  simp [not_markedSince_length]

theorem agrees_visit (hd : DistinctTags (slots.map Slot.tag)) (h : ∀ slot ∈ slots, slot.Agrees g log)
    (hreal : l.block ≠ vacantTag) (hhit : l.hit = decide (l.block ∈ slots.map Slot.tag))
    (hw : ∀ w, words.getLsbD w = true ↔ w < g.lineWords ∧ g.CoversWord l.span l.block w) :
    ∀ slot ∈ (visit l.block words slots).slots, slot.Agrees g (log ++ [l]) := by
  have hmem : (take? l.block slots).isSome ↔ l.block ∈ slots.map Slot.tag := take?_isSome_iff
  unfold visit
  intro slot hslot
  split at hslot
  next found others hs =>
    obtain ⟨htag, hfound⟩ := tag_eq_of_take? hs
    rw [hs] at hmem
    rcases List.mem_cons.mp hslot with rfl | hother
    · exact (h found hfound).append_of_hit htag.symm (htag ▸ hreal)
        (hhit.trans (decide_eq_true (hmem.mp rfl))) hw
    · refine (h slot ((sublist_of_take? hs).subset hother)).append_of_ne ?_
      -- The slot taken out was the only one of its block.
      intro heq
      refine hd.not_mem_erase hreal ?_
      rw [← map_tag_of_take? hs, heq]
      exact List.mem_map_of_mem hother
  next hs =>
    rw [hs] at hmem
    have hout : l.block ∉ slots.map Slot.tag := fun hin => by simpa using hmem.mpr hin
    rcases List.mem_cons.mp hslot with rfl | hother
    · exact agrees_of_miss hreal (hhit.trans (decide_eq_false hout)) hw
    · have hold := List.dropLast_subset slots hother
      refine (h slot hold).append_of_ne ?_
      intro heq
      exact hout (heq ▸ List.mem_map_of_mem hold)

def pairs (width : Nat) (slot : Slot) : List (UInt64 × Nat) :=
  ((List.range width).filter slot.used.getLsbD).map (slot.tag, ·)

theorem mem_pairs {width : Nat} (h : slot.used.Below width) {x : UInt64 × Nat} :
    x ∈ slot.pairs width ↔ slot.tag = x.1 ∧ slot.used.getLsbD x.2 = true := by
  simp only [pairs, List.mem_map, List.mem_filter, List.mem_range]
  constructor
  · intro hin
    obtain ⟨w, ⟨_, hw⟩, rfl⟩ := hin
    exact ⟨rfl, hw⟩
  · intro hin
    exact ⟨x.2, ⟨h x.2 hin.2, hin.2⟩, Prod.ext hin.1 rfl⟩

theorem nodup_pairs (width : Nat) (slot : Slot) : (slot.pairs width).Nodup :=
  (List.nodup_range.filter _).map fun _ _ h => (Prod.mk.inj h).2

theorem length_pairs {width : Nat} (h : slot.used.Below width) (hcap : width ≤ WordMap.capacity) :
    (slot.pairs width).length = slot.used.count := by
  rw [h.count_eq hcap, pairs, List.length_map, List.countP_eq_length_filter]

end Slot

namespace Cache

variable {c : Cache} {width n : Nat} {s : Span} {t : Touch} {spans : List Span}
  {xs : List (Span × Touch)}

theorem agrees_touched (hp : c.Placed)
    (h : ∀ set < c.sets.size, ∀ slot ∈ c.slotsAt set, slot.Agrees g log)
    (hreal : t.block ≠ Slot.vacantTag) (hmarks : Marks g s t) :
    ∀ set < c.sets.size, ∀ slot ∈ (c.touched t).slotsAt set,
      slot.Agrees g (log ++ [⟨s, t.block, c.holds t.block⟩]) := by
  intro set hset slot hslot
  by_cases heq : set = c.setOf t.block
  · subst heq
    rw [slotsAt_touched hset rfl] at hslot
    exact Slot.agrees_visit (l := ⟨s, t.block, c.holds t.block⟩) (hp.distinct _ hset) (h _ hset)
      hreal rfl hmarks slot hslot
  · rw [slotsAt_touched_of_ne heq] at hslot
    by_cases hvacant : slot.tag = Slot.vacantTag
    · exact (h set hset slot hslot).append_of_ne fun htag => hreal (htag.trans hvacant)
    · refine (h set hset slot hslot).append_of_ne fun htag => heq ?_
      have hhome := hp.home set hset slot.tag (List.mem_map_of_mem hslot) hvacant
      change t.block = slot.tag at htag
      rw [htag, hhome]

theorem agrees_afterTouches_blank (h : (blank g n).Sound)
    (hx : ∀ x ∈ xs, x.2.Regular g ∧ Marks g x.1 x.2) :
    ∀ set < n, ∀ slot ∈ ((blank g n).afterTouches (xs.map Prod.snd)).slotsAt set,
      slot.Agrees g ((blank g n).lookupsOf xs) := by
  -- From the end, since what a log says of a block changes with each lookup put after it.
  induction xs using List.reverseRecOn with
  | nil =>
    intro set hset slot hslot
    rw [List.map_nil, afterTouches_nil, slotsAt_blank hset] at hslot
    rw [List.eq_of_mem_replicate hslot]
    exact ⟨fun _ => rfl, fun hreal => absurd rfl hreal⟩
  | append_singleton xs x ih =>
    have hpast : ∀ y ∈ xs, y.2.Regular g ∧ Marks g y.1 y.2 := fun y hy =>
      hx y (List.mem_append_left [x] hy)
    obtain ⟨hregular, hmarks⟩ := hx x (by simp)
    have hbelow : ∀ t ∈ xs.map Prod.snd, t.words.Below g.lineWords := by
      intro t ht
      obtain ⟨y, hy, rfl⟩ := List.mem_map.mp ht
      exact (hpast y hy).1.below
    have hp := (placed_blank g n).afterTouches h.wellFormed hbelow
    have hstep := agrees_touched hp (by simpa [size_blank] using ih hpast) hregular.real hmarks
    rw [List.map_append, afterTouches_append, lookupsOf_append]
    simpa [size_blank, lookupsOf] using hstep

theorem nodup_flatMap_pairs (hp : c.Placed) (hbelow : ∀ slot ∈ c.slots, slot.used.Below width)
    (hvacant : ∀ slot ∈ c.slots, slot.tag = Slot.vacantTag → slot.used = 0) :
    (c.slots.flatMap fun slot => slot.pairs width).Nodup := by
  refine List.pairwise_flatMap.mpr ⟨fun slot _ => slot.nodup_pairs width, ?_⟩
  refine hp.pairwise_slots.imp_of_mem ?_
  intro a b ha hb htags x hx y hy heq
  subst heq
  obtain ⟨hxa, hbit⟩ := (Slot.mem_pairs (hbelow a ha)).mp hx
  obtain ⟨hxb, _⟩ := (Slot.mem_pairs (hbelow b hb)).mp hy
  rw [hvacant a ha (htags (hxa.trans hxb.symm))] at hbit
  exact absurd (WordMap.below_zero 0 x.2 hbit) (Nat.not_lt_zero _)

/-- The recount is the number of words in use, each taken with its block. -/
theorem exists_pairs (hp : c.Placed) (hcap : width ≤ WordMap.capacity)
    (hbelow : ∀ slot ∈ c.slots, slot.used.Below width)
    (hvacant : ∀ slot ∈ c.slots, slot.tag = Slot.vacantTag → slot.used = 0) :
    ∃ pairs : Finset (UInt64 × Nat), pairs.card = c.recount ∧ ∀ block w,
      (block, w) ∈ pairs ↔ ∃ slot ∈ c.slots, slot.tag = block ∧ slot.used.getLsbD w = true := by
  refine ⟨(c.slots.flatMap fun slot => slot.pairs width).toFinset, ?_, ?_⟩
  · rw [List.toFinset_card_of_nodup (nodup_flatMap_pairs hp hbelow hvacant), List.length_flatMap,
      recount_eq_usedCount, Slot.usedCount]
    congr 1
    apply List.map_congr_left
    intro slot hslot
    exact Slot.length_pairs (hbelow slot hslot) hcap
  · intro block w
    rw [List.mem_toFinset, List.mem_flatMap]
    constructor
    · intro h
      obtain ⟨slot, hslot, hin⟩ := h
      exact ⟨slot, hslot, (Slot.mem_pairs (hbelow slot hslot)).mp hin⟩
    · intro h
      obtain ⟨slot, hslot, hin⟩ := h
      exact ⟨slot, hslot, (Slot.mem_pairs (x := (block, w)) (hbelow slot hslot)).mpr hin⟩

/-- The word maps of a cache after a run with this log. A word is marked when a reference covers a
byte of it whose lookup of the block installed the block last, or came later. -/
structure HoldsTouchedWords (g : Geometry) (log : List Lookup) (c : Cache) : Prop where
  vacant : ∀ slot ∈ c.slots, slot.tag = Slot.vacantTag → slot.used = 0
  below : ∀ slot ∈ c.slots, slot.used.Below g.lineWords
  marked : ∀ slot ∈ c.slots, slot.tag ≠ Slot.vacantTag → ∃ k, Installs log slot.tag k ∧
    ∀ w < g.lineWords, slot.used.getLsbD w = true ↔ MarkedSince g log slot.tag k w
  total : ∃ pairs : Finset (UInt64 × Nat), c.wordsInUse = pairs.card ∧ ∀ block w,
    (block, w) ∈ pairs ↔ block ≠ Slot.vacantTag ∧ (∃ slot ∈ c.slots, slot.tag = block) ∧
      w < g.lineWords ∧ ∃ k, Installs log block k ∧ MarkedSince g log block k w

theorem Sound.holdsTouchedWords (log : List Lookup) (h : c.Sound) (hp : c.Placed)
    (ha : ∀ set < c.sets.size, ∀ slot ∈ c.slotsAt set, slot.Agrees c.geometry log) :
    HoldsTouchedWords c.geometry log c := by
  have hagrees : ∀ slot ∈ c.slots, slot.Agrees c.geometry log := by
    intro slot hslot
    obtain ⟨set, hset, hin⟩ := mem_slots.mp hslot
    exact ha set hset slot hin
  have hbelow : ∀ slot ∈ c.slots, slot.used.Below c.geometry.lineWords := by
    intro slot hslot
    obtain ⟨set, hset, hin⟩ := mem_slots.mp hslot
    exact h.wellFormed.below set hset slot hin
  have hvacant : ∀ slot ∈ c.slots, slot.tag = Slot.vacantTag → slot.used = 0 :=
    fun slot hslot => (hagrees slot hslot).vacant
  obtain ⟨pairs, hcard, hpairs⟩ := exists_pairs hp h.wellFormed.width_le hbelow hvacant
  refine ⟨hvacant, hbelow, ?_, pairs, ?_, ?_⟩
  · intro slot hslot hreal
    obtain ⟨k, hk, hwords⟩ := (hagrees slot hslot).resident hreal
    exact ⟨k, hk, fun w hw => (hwords w).trans (and_iff_right hw)⟩
  · rw [hcard, h.wellFormed.wordsInUse_eq]
  · intro block w
    rw [hpairs]
    constructor
    · intro hin
      obtain ⟨slot, hslot, rfl, hbit⟩ := hin
      have hreal : slot.tag ≠ Slot.vacantTag := by
        intro htag
        rw [hvacant slot hslot htag] at hbit
        exact absurd (WordMap.below_zero 0 w hbit) (Nat.not_lt_zero _)
      obtain ⟨k, hk, hwords⟩ := (hagrees slot hslot).resident hreal
      obtain ⟨hlt, hmarked⟩ := (hwords w).mp hbit
      exact ⟨hreal, ⟨slot, hslot, rfl⟩, hlt, k, hk, hmarked⟩
    · intro hin
      obtain ⟨hreal, ⟨slot, hslot, rfl⟩, hlt, j, hj, hmarked⟩ := hin
      obtain ⟨k, hk, hwords⟩ := (hagrees slot hslot).resident hreal
      rw [hj.unique hk] at hmarked
      exact ⟨slot, hslot, rfl, (hwords w).mpr ⟨hlt, hmarked⟩⟩

theorem trace_empty_holdsTouchedWords (hg : g.Sound) (hs : ∀ s ∈ spans, s.Fits) :
    ∃ new verdicts c logs, empty g = .ok new ∧ accessAll spans new = .ok verdicts c ∧
      trace spans new = .ok logs c ∧ verdicts = logs.map (fun here => here.all Lookup.hit) ∧
      logs.map (fun here => here.map fun l => (l.span, l.block)) =
        spans.map (fun s => (g.blocks s).map (s, ·)) ∧
      HoldsTouchedWords g logs.flatten c := by
  obtain ⟨m, _, hnew, hsound⟩ := empty_of_sound hg
  refine ⟨_, _, _, _, hnew, hsound.accessAll_eq_ok hs, hsound.trace_eq_ok hs,
    map_all_hit_traceOf.symm, hsound.map_block_traceOf hs, ?_⟩
  have hsteps : ∀ x ∈ g.steps spans, x.2.Regular g ∧ Marks g x.1 x.2 := by
    intro x hx
    obtain ⟨hspan, hsplit⟩ := Geometry.mem_steps hx
    exact ⟨hg.regular_of_mem_split (hs _ hspan) _ hsplit,
      fun w => hg.getLsbD_of_mem_split (hs _ hspan) hsplit w⟩
  have hagrees := agrees_afterTouches_blank hsound hsteps
  have hplaced := (placed_blank g (2 ^ m)).afterTouches hsound.wellFormed
    fun t ht => (hg.regular_of_mem_flatMap_split hs t ht).below
  have hend := hsound.foldl_accessed hs
  rw [Geometry.map_snd_steps] at hagrees
  rw [foldl_accessed] at hend ⊢
  rw [flatten_traceOf]
  have hresult := Sound.holdsTouchedWords ((blank g (2 ^ m)).lookupsOf (g.steps spans)) hend
    hplaced (by simpa [size_blank] using hagrees)
  simpa using hresult

theorem trace_empty_holdsTouchedWords_reinstalled :
    (⟨64, 2, 16⟩ : Geometry).Sound ∧
    (∀ s ∈ [⟨0x18, 16⟩, ⟨0x30, 4⟩, ⟨0x58, 1⟩, ⟨0x10, 8⟩], Span.Fits s) ∧
    ∃ new verdicts c logs, empty ⟨64, 2, 16⟩ = .ok new ∧
      accessAll [⟨0x18, 16⟩, ⟨0x30, 4⟩, ⟨0x58, 1⟩, ⟨0x10, 8⟩] new = .ok verdicts c ∧
      trace [⟨0x18, 16⟩, ⟨0x30, 4⟩, ⟨0x58, 1⟩, ⟨0x10, 8⟩] new = .ok logs c ∧
      verdicts = logs.map (fun here => here.all Lookup.hit) ∧
      logs.map (fun here => here.map fun l => (l.span, l.block)) =
        [⟨0x18, 16⟩, ⟨0x30, 4⟩, ⟨0x58, 1⟩, ⟨0x10, 8⟩].map
          (fun s => (Geometry.blocks ⟨64, 2, 16⟩ s).map (s, ·)) ∧
      HoldsTouchedWords ⟨64, 2, 16⟩ logs.flatten c :=
  ⟨by decide, by decide, trace_empty_holdsTouchedWords (by decide) (by decide)⟩

end Cache

end CacheUsage
