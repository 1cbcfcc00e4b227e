import CacheUsage.Proofs.Placement

namespace CacheUsage

namespace Slot

structure Within (a b : Slot) : Prop where
  tag : a.tag = b.tag
  used : ∀ w, a.used.getLsbD w = true → b.used.getLsbD w = true

/-- The slots of a set lie within the first ones of another, in their order. -/
inductive Begins : List Slot → List Slot → Prop where
  | nil {ys : List Slot} : Begins [] ys
  | cons {x y : Slot} {xs ys : List Slot} : Within x y → Begins xs ys → Begins (x :: xs) (y :: ys)

variable {a b x y slot : Slot} {xs ys others : List Slot} {tag : UInt64} {words : WordMap}

theorem Within.count_le (h : Within a b) : a.used.count ≤ b.used.count :=
  List.countP_mono_left fun w _ hw => h.used w hw

theorem Within.mark (h : Within a b) (tag : UInt64) (words : WordMap) :
    Within ⟨tag, a.used ||| words⟩ ⟨tag, b.used ||| words⟩ := by
  refine ⟨rfl, fun w hw => ?_⟩
  rw [BitVec.getLsbD_or, Bool.or_eq_true] at hw ⊢
  exact hw.imp_left (h.used w)

theorem within_mark (slot : Slot) (tag : UInt64) (words : WordMap) :
    Within ⟨tag, words⟩ ⟨tag, slot.used ||| words⟩ := by
  refine ⟨rfl, fun w hw => ?_⟩
  rw [BitVec.getLsbD_or, Bool.or_eq_true]
  exact Or.inr hw

namespace Begins

theorem map_tag (h : Begins xs ys) : xs.map Slot.tag = (ys.map Slot.tag).take xs.length := by
  induction h with
  | nil => rfl
  | cons hxy _ ih => simp only [List.map_cons, List.length_cons, List.take_succ_cons, hxy.tag, ih]

theorem usedCount_le (h : Begins xs ys) : usedCount xs ≤ usedCount ys := by
  induction h with
  | nil => exact Nat.zero_le _
  | cons hxy _ ih =>
    have hcount := hxy.count_le
    rw [usedCount_cons, usedCount_cons]
    omega

theorem exists_within (h : Begins xs ys) (hx : x ∈ xs) : ∃ y ∈ ys, Within x y := by
  induction h with
  | nil => cases hx
  | cons hxy _ ih =>
    rcases List.mem_cons.mp hx with rfl | hrest
    · exact ⟨_, List.mem_cons_self, hxy⟩
    · obtain ⟨y, hy, hwithin⟩ := ih hrest
      exact ⟨y, List.mem_cons_of_mem _ hy, hwithin⟩

theorem dropLast_left (h : Begins xs ys) : Begins xs.dropLast ys := by
  induction h with
  | nil => exact .nil
  | cons hxy hrest ih =>
    cases hrest with
    | nil => exact .nil
    | cons => exact .cons hxy ih

theorem dropLast (h : Begins xs ys) : Begins xs.dropLast ys.dropLast := by
  induction h with
  | nil => exact .nil
  | cons hxy hrest ih =>
    cases hrest with
    | nil => exact .nil
    | cons => exact .cons hxy ih

theorem replicate {m n : Nat} (hle : m ≤ n) (slot : Slot) :
    Begins (List.replicate m slot) (List.replicate n slot) := by
  induction m generalizing n with
  | zero => exact .nil
  | succ m ih =>
    obtain ⟨k, rfl⟩ : ∃ k, n = k + 1 := ⟨n - 1, by omega⟩
    exact .cons ⟨rfl, fun _ hw => hw⟩ (ih (by omega))

theorem take?_of_some (h : Begins xs ys) (hx : take? tag xs = some (slot, others)) :
    ∃ slot' others', take? tag ys = some (slot', others') ∧ Within slot slot' ∧
      Begins others others' := by
  induction h generalizing slot others with
  | nil => cases hx
  | @cons x y xs ys hxy hrest ih =>
    by_cases htag : x.tag = tag
    · have hy : y.tag = tag := hxy.tag.symm.trans htag
      simp only [take?, htag, ↓reduceIte, Option.some.injEq, Prod.mk.injEq] at hx
      obtain ⟨rfl, rfl⟩ := hx
      exact ⟨y, ys, by simp only [take?, hy, ↓reduceIte], hxy, hrest⟩
    · have hy : y.tag ≠ tag := fun heq => htag (hxy.tag.trans heq)
      simp only [take?, htag, ↓reduceIte, Option.map_eq_some_iff, Prod.mk.injEq, Prod.exists] at hx
      obtain ⟨found, others, hfound, rfl, rfl⟩ := hx
      obtain ⟨slot', others', htake, hwithin, hbegins⟩ := ih hfound
      exact ⟨slot', y :: others', by simp only [take?, hy, ↓reduceIte, htake, Option.map_some],
        hwithin, .cons hxy hbegins⟩

theorem of_take? (h : Begins xs ys) (hx : take? tag xs = none)
    (hy : take? tag ys = some (slot, others)) : Begins xs others := by
  induction h generalizing slot others with
  | nil => exact .nil
  | @cons x y xs ys hxy _ ih =>
    have htag : x.tag ≠ tag := by
      intro heq
      simp [take?, heq] at hx
    have hy' : y.tag ≠ tag := fun heq => htag (hxy.tag.trans heq)
    simp only [take?, htag, ↓reduceIte, Option.map_eq_none_iff] at hx
    simp only [take?, hy', ↓reduceIte, Option.map_eq_some_iff, Prod.mk.injEq, Prod.exists] at hy
    obtain ⟨found, others, hfound, rfl, rfl⟩ := hy
    exact .cons hxy (ih hx hfound)

theorem visit (h : Begins xs ys) (tag : UInt64) (words : WordMap) :
    Begins (visit tag words xs).slots (visit tag words ys).slots := by
  cases hx : take? tag xs with
  | some found =>
    obtain ⟨slot', others', hy, hwithin, hbegins⟩ := h.take?_of_some hx
    simp only [Slot.visit, hx, hy]
    exact .cons (hwithin.mark tag words) hbegins
  | none =>
    cases hy : take? tag ys with
    | some found =>
      simp only [Slot.visit, hx, hy]
      exact .cons (within_mark found.1 tag words) (h.of_take? hx hy).dropLast_left
    | none =>
      simp only [Slot.visit, hx, hy]
      exact .cons ⟨rfl, fun _ hw => hw⟩ h.dropLast

end Begins

end Slot

namespace Cache

variable {c d : Cache} {width set : Nat} {s : Span} {spans : List Span} {t : Touch} {ts : List Touch}
  {g g' : Geometry}

structure Within (c d : Cache) : Prop where
  lineBytes : c.geometry.lineBytes = d.geometry.lineBytes
  size : c.sets.size = d.sets.size
  slots : ∀ set < c.sets.size, Slot.Begins (c.slotsAt set) (d.slotsAt set)

namespace Within

theorem tagsAt (h : c.Within d) (hw : c.WellFormed width) (hset : set < c.sets.size) :
    c.tagsAt set = (d.tagsAt set).take c.geometry.ways.toNat := by
  have htags := (h.slots set hset).map_tag
  rwa [hw.length_slotsAt set hset] at htags

theorem holds (h : c.Within d) (hw : c.WellFormed width) {block : UInt64}
    (hin : c.holds block = true) : d.holds block = true := by
  have htags := h.tagsAt hw (hw.setOf_lt block)
  rw [Cache.holds, decide_eq_true_iff] at hin ⊢
  rw [htags] at hin
  rw [← setOf_eq_of_size h.size]
  exact List.mem_of_mem_take hin

theorem touched (h : c.Within d) (t : Touch) : (c.touched t).Within (d.touched t) := by
  refine ⟨h.lineBytes, by simpa using h.size, ?_⟩
  intro set hset
  rw [size_touched] at hset
  have hsame : d.setOf t.block = c.setOf t.block := (setOf_eq_of_size h.size t.block).symm
  have hset' : set < d.sets.size := h.size ▸ hset
  by_cases heq : set = c.setOf t.block
  · subst heq
    rw [slotsAt_touched hset rfl, slotsAt_touched hset' hsame]
    exact (h.slots _ hset).visit t.block t.words
  · rw [slotsAt_touched_of_ne heq, slotsAt_touched_of_ne (hsame ▸ heq)]
    exact h.slots set hset

theorem afterTouches (h : c.Within d) (ts : List Touch) :
    (c.afterTouches ts).Within (d.afterTouches ts) := by
  induction ts generalizing c d with
  | nil => exact h
  | cons t ts ih => exact ih (h.touched t)

theorem verdicts (h : c.Within d) (hw : c.WellFormed width) (ht : ∀ t ∈ ts, t.words.Below width)
    (hall : (c.verdicts ts).all id = true) : (d.verdicts ts).all id = true := by
  induction ts generalizing c d with
  | nil => rfl
  | cons t ts ih =>
    simp only [Cache.verdicts, List.all_cons, Bool.and_eq_true, id] at hall ⊢
    have hnext := hw.touched (ht t List.mem_cons_self)
    exact ⟨h.holds hw hall.1,
      ih (h.touched t) hnext (fun u hu => ht u (List.mem_cons_of_mem t hu)) hall.2⟩

theorem split_eq (h : c.Within d) (s : Span) : d.geometry.split s = c.geometry.split s := by
  rw [Geometry.split, Geometry.split, Geometry.touches_eq_of_lineBytes_eq h.lineBytes]

theorem accessed (h : c.Within d) (s : Span) : (c.accessed s).Within (d.accessed s) := by
  rw [Cache.accessed, Cache.accessed, h.split_eq s]
  exact h.afterTouches (c.geometry.split s)

theorem hits (h : c.Within d) (hc : c.Sound) (hs : s.Fits) (hhit : c.hits s = true) :
    d.hits s = true := by
  rw [Cache.hits, h.split_eq s]
  exact h.verdicts hc.wellFormed (hc.below_split hs) hhit

theorem hitsAll (h : c.Within d) (hc : c.Sound) (hs : ∀ s ∈ spans, s.Fits) :
    List.Forall₂ (fun hit hit' => hit = true → hit' = true) (c.hitsAll spans) (d.hitsAll spans) := by
  induction spans generalizing c d with
  | nil => exact .nil
  | cons s spans ih =>
    have hfit := hs s List.mem_cons_self
    have hrest := ih (h.accessed s) (hc.accessed hfit)
      fun r hr => hs r (List.mem_cons_of_mem s hr)
    exact .cons (h.hits hc hfit) hrest

theorem foldl_accessed (h : c.Within d) (spans : List Span) :
    (spans.foldl (fun c s => c.accessed s) c).Within
      (spans.foldl (fun c s => c.accessed s) d) := by
  induction spans generalizing c d with
  | nil => exact h
  | cons s spans ih => exact ih (h.accessed s)

theorem recount_le (h : c.Within d) : c.recount ≤ d.recount := by
  rw [recount_eq, recount_eq, toList_sets, toList_sets, ← h.size, List.map_map, List.map_map]
  apply List.sum_le_sum
  intro set hset
  exact (h.slots set (List.mem_range.mp hset)).usedCount_le

end Within

theorem within_blank {n : Nat} (hline : g.lineBytes = g'.lineBytes) (hways : g.ways ≤ g'.ways) :
    (blank g n).Within (blank g' n) := by
  refine ⟨hline, by rw [size_blank, size_blank], ?_⟩
  intro set hset
  rw [size_blank] at hset
  rw [slotsAt_blank hset, slotsAt_blank hset]
  exact Slot.Begins.replicate (UInt64.le_iff_toNat_le.mp hways) Slot.vacant

/-- In every set the tags of `c`, which has `ways` of them, are the first tags of `d`. A block that
is in both has all its words of `c` also in `d`, and `d` has no fewer words in use. -/
structure Includes (sets ways : Nat) (c d : Cache) : Prop where
  tags : ∀ set < sets, ∃ slots slots', c.slotsOf set = .ok slots ∧ d.slotsOf set = .ok slots' ∧
    slots.map Slot.tag = (slots'.map Slot.tag).take ways
  words : ∀ slot ∈ c.slots, ∀ slot' ∈ d.slots, slot.tag = slot'.tag → slot.tag ≠ Slot.vacantTag →
    ∀ w, slot.used.getLsbD w = true → slot'.used.getLsbD w = true
  total : c.wordsInUse ≤ d.wordsInUse

theorem Within.includes {width' : Nat} (h : c.Within d) (hc : c.WellFormed width)
    (hd : d.WellFormed width') (hplaced : d.Placed) :
    Includes c.sets.size c.geometry.ways.toNat c d := by
  refine ⟨?_, ?_, ?_⟩
  · intro set hset
    have hset' : set < d.sets.size := h.size ▸ hset
    exact ⟨_, _, hc.slotsOf_eq_ok hset, hd.slotsOf_eq_ok hset', h.tagsAt hc hset⟩
  · intro slot hslot slot' hslot' htag hreal w hw
    obtain ⟨set, hset, hin⟩ := mem_slots.mp hslot
    obtain ⟨other, hother, hwithin⟩ := (h.slots set hset).exists_within hin
    have hmem : other ∈ d.slots := mem_slots.mpr ⟨set, h.size ▸ hset, hother⟩
    -- The larger cache has a single slot for the block, so it is the one that answers to `slot`.
    have heq : other = slot' := by
      by_contra hne
      exact hreal (hwithin.tag.trans (hplaced.tag_eq_vacantTag hmem hslot' hne
        (hwithin.tag.symm.trans htag)))
    rw [← heq]
    exact hwithin.used w hw
  · rw [hc.wordsInUse_eq, hd.wordsInUse_eq]
    exact h.recount_le

/-- With more ways, a run hits wherever it hits with fewer, and all along keeps what these keep. -/
theorem accessAll_empty_includes (hg : g.Sound) (hg' : g'.Sound)
    (hline : g.lineBytes = g'.lineBytes) (hsets : g.setCount = g'.setCount)
    (hways : g.ways ≤ g'.ways) (hs : ∀ s ∈ spans, s.Fits) :
    ∃ sets new new', g.setCount = .ok sets ∧ empty g = .ok new ∧ empty g' = .ok new' ∧
      ∀ past, past <+: spans → ∃ verdicts verdicts' c c',
        accessAll past new = .ok verdicts c ∧ accessAll past new' = .ok verdicts' c' ∧
        List.Forall₂ (fun hit hit' => hit = true → hit' = true) verdicts verdicts' ∧
        Includes sets g.ways.toNat c c' := by
  obtain ⟨m, hm, hnew, hsound⟩ := empty_of_sound hg
  obtain ⟨m', hm', hnew', hsound'⟩ := empty_of_sound hg'
  have hsame : 2 ^ m' = 2 ^ m := Except.ok.inj (hm'.symm.trans (hsets.symm.trans hm))
  rw [hsame] at hnew' hsound'
  have hstart : (blank g (2 ^ m)).Within (blank g' (2 ^ m)) := within_blank hline hways
  refine ⟨_, _, _, hm, hnew, hnew', fun past hpast => ?_⟩
  have hfit : ∀ s ∈ past, s.Fits := fun s hmem => hs s (hpast.subset hmem)
  refine ⟨_, _, _, _, hsound.accessAll_eq_ok hfit, hsound'.accessAll_eq_ok hfit,
    hstart.hitsAll hsound hfit, ?_⟩
  have hend := hsound.foldl_accessed hfit
  have hend' := hsound'.foldl_accessed hfit
  have hwithin := hstart.foldl_accessed past
  have hplaced := (placed_blank g' (2 ^ m)).afterTouches hsound'.wellFormed
    fun t ht => (hg'.regular_of_mem_flatMap_split hfit t ht).below
  have hincludes := hwithin.includes hend.wellFormed hend'.wellFormed (by rwa [foldl_accessed])
  rw [foldl_accessed] at hincludes
  simpa [foldl_accessed, size_blank] using hincludes

theorem accessAll_empty_includes_four_ways :
    (⟨64, 2, 16⟩ : Geometry).Sound ∧ (⟨128, 4, 16⟩ : Geometry).Sound ∧
    Geometry.setCount ⟨64, 2, 16⟩ = Geometry.setCount ⟨128, 4, 16⟩ ∧
    (∀ s ∈ [⟨0x00, 4⟩, ⟨0x1C, 8⟩, ⟨0x40, 16⟩, ⟨0x00, 8⟩], Span.Fits s) ∧
    ∃ sets new new', Geometry.setCount ⟨64, 2, 16⟩ = .ok sets ∧ empty ⟨64, 2, 16⟩ = .ok new ∧
      empty ⟨128, 4, 16⟩ = .ok new' ∧
      ∀ past, past <+: [⟨0x00, 4⟩, ⟨0x1C, 8⟩, ⟨0x40, 16⟩, ⟨0x00, 8⟩] →
        ∃ verdicts verdicts' c c', accessAll past new = .ok verdicts c ∧
          accessAll past new' = .ok verdicts' c' ∧
          List.Forall₂ (fun hit hit' => hit = true → hit' = true) verdicts verdicts' ∧
          Includes sets 2 c c' :=
  ⟨by decide, by decide, rfl, by decide,
    accessAll_empty_includes (by decide) (by decide) rfl rfl (by decide) (by decide)⟩

end Cache

end CacheUsage
