import CacheUsage.Proofs.Indexing
import CacheUsage.Proofs.Rotation

namespace CacheUsage

namespace Cache

variable {c : Cache} {set : Nat} {tag : UInt64} {words : WordMap}

theorem rows_blank (g : Geometry) (n : Nat) :
    (blank g n).rows = ⟨g, n, n - 1, g.lineBits, g.lineBits + trailingZeros n,
      List.replicate (n * g.ways.toNat) Slot.vacantTag,
      List.replicate (n * g.ways.toNat) 0, 0⟩ := by
  simp [rows, setMask, tagShift, Cache.slots, blank, Slot.vacant]

theorem rows_empty (g : Geometry) : Rows.empty g = rows <$> empty g := by
  simp only [Rows.empty, empty, map_bind]
  refine except_bind_congr fun n hn => except_bind_congr fun slots hslots => ?_
  refine except_bind_congr fun mask hmask => ?_
  obtain ⟨rfl, _⟩ := Checked.product_eq_ok.mp hslots
  obtain rfl : n = mask + 1 := Checked.difference_eq_ok.mp hmask
  exact congrArg Except.ok (rows_blank g (mask + 1)).symm

theorem rows_withTotal_visited (total : Nat) :
    ({ c.visited set tag words with wordsInUse := total } : Cache).rows =
      { c.rows.holding (c.visited set tag words).slots with total } := by
  simp only [rows, Rows.holding, setMask, tagShift, size_visited]
  rfl

theorem rows_visited : (c.visited set tag words).rows =
    { c.rows.holding (c.visited set tag words).slots with
      total := (c.visited set tag words).wordsInUse } :=
  rows_withTotal_visited _

namespace Shaped

theorem length_map_slots {α : Type} (h : c.Shaped) (f : Slot → α) :
    (c.slots.map f).length = c.sets.size * c.geometry.ways.toNat := by
  rw [List.length_map, h.length_slots]

theorem length_tags_rows (h : c.Shaped) :
    c.rows.tags.length = c.sets.size * c.geometry.ways.toNat := h.length_map_slots Slot.tag

theorem length_used_rows (h : c.Shaped) :
    c.rows.used.length = c.sets.size * c.geometry.ways.toNat := h.length_map_slots Slot.used

theorem bounds_rows (h : c.Shaped) (set : Nat) :
    c.rows.bounds set = (fun _ => (set * c.geometry.ways.toNat,
      set * c.geometry.ways.toNat + c.geometry.ways.toNat)) <$> c.slotsOf set := by
  simp only [Rows.bounds, slotsOf, map_bind, h.length_tags_rows, h.length_used_rows]
  refine except_bind_congr fun start hstart => except_bind_congr fun stop hstop => ?_
  obtain ⟨rfl, _⟩ := Checked.product_eq_ok.mp hstart
  obtain ⟨rfl, _⟩ := Checked.sum_eq_ok.mp hstop
  rcases Nat.lt_or_ge set c.sets.size with hset | hset
  · rw [getElem?_sets hset]
    exact if_pos ⟨stop_le hset, stop_le hset⟩
  · -- A set past the last one would start where the rows end, or later.
    have hpast := Nat.mul_le_mul_right c.geometry.ways.toNat hset
    have hpos := h.ways_pos
    have hout : ¬ set * c.geometry.ways.toNat + c.geometry.ways.toNat ≤
        c.sets.size * c.geometry.ways.toNat := by omega
    rw [Array.getElem?_eq_none hset]
    exact if_neg fun hin => hout hin.1

/-- On its rows a cache is looked up just as it is visited, failures included. -/
theorem lookup_rows (h : c.Shaped) (set : Nat) (tag : UInt64) (words : WordMap) :
    Rows.lookup set tag words c.rows = shown rows (visit set tag words c) := by
  rcases Nat.lt_or_ge set c.sets.size with hset | hset
  · -- Both rows are cut before the set and behind it.
    obtain ⟨left, right, hstart, hrow, hvisited⟩ := h.row_visited tag words hset
    have hstop := congrArg (set * c.geometry.ways.toNat + ·) (h.length_slotsAt set hset)
    have hholding : c.rows = c.rows.holding (left ++ c.slotsAt set ++ right) := by
      rw [← hrow]
      rfl
    rw [Rows.lookup, h.bounds_rows set, h.slotsOf_eq_ok hset, h.visit_eq tag words hset]
    change Rows.visit _ _ tag words c.rows = _
    have htotal : (c.rows.holding (c.visited set tag words).slots).total = c.wordsInUse := rfl
    rw [hholding, Rows.visit_holding hstart hstop (h.slotsAt_ne_nil hset), ← hvisited,
      Rows.recountSlot_bind_pure, htotal]
    cases updatedTotal c.wordsInUse (Slot.visit tag words (c.slotsAt set)).before
        (Slot.visit tag words (c.slotsAt set)).after with
    | error fault =>
      exact congrArg (EStateM.Result.error fault) (rows_withTotal_visited c.wordsInUse).symm
    | ok total => exact congrArg (EStateM.Result.ok _) (rows_withTotal_visited total).symm
  · -- Where there is no set, neither reads a slot.
    obtain ⟨fault, herror⟩ := exists_slotsOf_eq_error hset
    rw [Rows.lookup, h.bounds_rows set, visit, herror]
    rfl

theorem residue_lookup_rows (h : c.Shaped) (set : Nat) (tag : UInt64) (words : WordMap) :
    residue (Rows.lookup set tag words c.rows) = (residue (visit set tag words c)).rows := by
  rw [h.lookup_rows, residue_shown]

theorem extract_map_slots {α : Type} (h : c.Shaped) (f : Slot → α) (set : Nat) :
    (c.slots.map f).extract (set * c.geometry.ways.toNat)
      (set * c.geometry.ways.toNat + c.geometry.ways.toNat) = (c.slotsAt set).map f := by
  rw [List.extract_eq_take_drop, Nat.add_sub_cancel_left, ← List.map_drop, ← List.map_take]
  rcases Nat.lt_or_ge set c.sets.size with hset | hset
  · rw [h.slotsAt_eq hset]
  · have hpast := Nat.mul_le_mul_right c.geometry.ways.toNat hset
    rw [slotsAt, Array.getElem?_eq_none hset, List.drop_eq_nil_of_le (h.length_slots ▸ hpast),
      List.take_nil]
    rfl

theorem setTags_rows (h : c.Shaped) (set : Nat) :
    c.rows.setTags set = (c.slotsAt set).map Slot.tag := h.extract_map_slots Slot.tag set

theorem setUsed_rows (h : c.Shaped) (set : Nat) :
    c.rows.setUsed set = (c.slotsAt set).map Slot.used := h.extract_map_slots Slot.used set

theorem slotsAt_rows (h : c.Shaped) (set : Nat) : c.rows.slotsAt set = c.slotsAt set := by
  rw [Rows.slotsAt, h.setTags_rows set, h.setUsed_rows set, List.zipWith_map, List.zipWith_self]
  exact List.map_id _

end Shaped

end Cache

namespace Rows

variable {first c : Cache} {new r d : Rows} {g : Geometry} {set : Nat} {tag : UInt64}
  {words : WordMap}

/-- What lookups in the sets of the rows lead to, those that fail included. -/
inductive Reachable (new : Rows) : Rows → Prop where
  | start : Reachable new new
  | lookup {r : Rows} (set : Nat) (tag : UInt64) (words : WordMap) : Reachable new r →
      set < r.sets → Reachable new (residue (lookup set tag words r))

theorem Reachable.exists_cache (hfirst : first.Shaped) (h : Reachable first.rows r) :
    ∃ c, Cache.Reachable first c ∧ r = c.rows := by
  induction h with
  | start => exact ⟨first, .start, rfl⟩
  | lookup set tag words _ hset ih =>
    obtain ⟨c, hc, rfl⟩ := ih
    exact ⟨_, hc.visit set tag words hset, (hc.shapedAs hfirst).shaped.residue_lookup_rows ..⟩

theorem touch_maintains_reachable (t : Touch) :
    Maintains (fun c => Cache.ShapedAs first c ∧ Reachable first.rows c.rows) (Cache.touch t) := by
  intro c ⟨hshape, hreach⟩
  refine ⟨Cache.visit_maintains_shape _ _ _ c hshape, ?_⟩
  have hnext := hreach.lookup (c.setOf t.block) t.block t.words (hshape.shaped.setOf_lt t.block)
  rwa [hshape.shaped.residue_lookup_rows] at hnext

theorem reachable_rows (hfirst : first.Shaped) (h : Cache.Reachable first c) :
    Reachable first.rows c.rows := by
  induction h with
  | start => exact .start
  | visit set tag words hc hset ih =>
    rw [← (hc.shapedAs hfirst).shaped.residue_lookup_rows]
    exact ih.lookup set tag words hset
  | access s hc ih =>
    have hkeep (split : Except Fault (List Touch)) :
        Maintains (fun c => Cache.ShapedAs first c ∧ Reachable first.rows c.rows)
          (Cache.perform split) :=
      Cache.maintains_perform fun _ _ t _ => touch_maintains_reachable t
    exact (hkeep _ _ ⟨hc.shapedAs hfirst, ih⟩).2

/-- Lookups lead to the rows of the caches that visits and references lead to, and to no others. -/
theorem reachable_rows_iff (hfirst : first.Shaped) :
    Reachable first.rows r ↔ ∃ c, Cache.Reachable first c ∧ r = c.rows := by
  constructor
  · exact fun h => h.exists_cache hfirst
  · intro h
    obtain ⟨c, hc, rfl⟩ := h
    exact reachable_rows hfirst hc

/-- A lookup of a tag in a set turned the rows `r` into `d`. -/
structure Replaces (set : Nat) (tag : UInt64) (words : WordMap) (r : Rows) (hit : Bool) (d : Rows) :
    Prop where
  run : lookup set tag words r = .ok hit d
  inside : set * r.geometry.ways.toNat + r.geometry.ways.toNat ≤ r.tags.length
  aligned : r.used.length = r.tags.length
  hit_iff : hit = true ↔ ∃ slot ∈ r.slotsAt set, slot.tag = tag
  visits : Slot.Visits tag words (r.slotsAt set) hit (d.slotsAt set)
  tags : d.tags = r.tags.take (set * r.geometry.ways.toNat) ++ d.setTags set ++
    r.tags.drop (set * r.geometry.ways.toNat + r.geometry.ways.toNat)
  used : d.used = r.used.take (set * r.geometry.ways.toNat) ++ d.setUsed set ++
    r.used.drop (set * r.geometry.ways.toNat + r.geometry.ways.toNat)
  others : ∀ other ≠ set, d.setTags other = r.setTags other ∧ d.setUsed other = r.setUsed other
  geometry : d = { r with tags := d.tags, used := d.used, total := d.total }
  total : (d.total : Int) - r.total =
    (Slot.usedCount (d.slotsAt set) : Int) - Slot.usedCount (r.slotsAt set)

theorem replaces_rows (h : Cache.Kept first c) (tag : UInt64) (words : WordMap)
    (hset : set < c.sets.size) :
    Replaces set tag words c.rows (Slot.visit tag words (c.slotsAt set)).hit
      (c.visited set tag words).rows := by
  have hc := h.wellFormed.shaped
  have hd := (h.visited tag words hset).wellFormed.shaped
  have hvisits := Slot.visits_visit tag words (hc.slotsAt_ne_nil hset)
  have hslots := hc.slots_visited tag words hset
  have hhit : (Slot.visit tag words (c.slotsAt set)).hit = _ := Slot.hit_visit
  refine {
    run := ?run
    inside := hc.length_tags_rows ▸ Cache.stop_le hset
    aligned := hc.length_used_rows.trans hc.length_tags_rows.symm
    hit_iff := hc.slotsAt_rows set ▸ hvisits.hit_iff
    visits := ?visits
    tags := ?tags
    used := ?used
    others := ?others
    geometry := ?geometry
    total := ?total }
  case run =>
    rw [hc.lookup_rows, h.visit_eq_ok tag words hset, hhit]
    rfl
  case visits =>
    rw [hc.slotsAt_rows, hd.slotsAt_rows, Cache.slotsAt_visited hset]
    exact hvisits
  case tags =>
    rw [hd.setTags_rows, Cache.slotsAt_visited hset]
    simp only [Cache.rows, hslots, List.map_append, List.map_take, List.map_drop]
  case used =>
    rw [hd.setUsed_rows, Cache.slotsAt_visited hset]
    simp only [Cache.rows, hslots, List.map_append, List.map_take, List.map_drop]
  case others =>
    intro other hne
    rw [hd.setTags_rows, hd.setUsed_rows, Cache.slotsAt_visited_of_ne hne, hc.setTags_rows,
      hc.setUsed_rows]
    exact ⟨rfl, rfl⟩
  case geometry =>
    rw [Cache.rows_visited]
    rfl
  case total =>
    rw [hc.slotsAt_rows, hd.slotsAt_rows, Cache.slotsAt_visited hset]
    exact h.total_visited tag words hset

/-- A lookup in a set of any rows that lookups lead to puts the tag in front of the set, with its
words, and keeps all else. The rows are those of a cache, and the lookup is a visit of it. -/
theorem lookup_replaces (hnew : empty g = .ok new)
    (hroom : new.tags.length * 64 + 64 < Checked.limit) (h : Reachable new r)
    (hset : set < new.sets) (tag : UInt64) (words : WordMap) :
    (∃ hit d, Replaces set tag words r hit d) ∧
      ∃ first c, Cache.empty g = .ok first ∧ Cache.Reachable first c ∧ r = c.rows ∧
        lookup set tag words r = shown Cache.rows (Cache.visit set tag words c) := by
  rw [Cache.rows_empty] at hnew
  obtain ⟨first, hfirst, rfl⟩ := except_map_eq_ok.mp hnew
  have hshaped := Cache.shaped_of_empty hfirst
  obtain ⟨c, hc, rfl⟩ := (reachable_rows_iff hshaped).mp h
  have hshape := hc.shapedAs hshaped
  have hslots : first.slots.length * 64 + 64 < Checked.limit := by
    rwa [Cache.rows, List.length_map] at hroom
  have hkept := hc.kept (Cache.kept_of_empty hfirst hslots)
  refine ⟨⟨_, _, replaces_rows hkept tag words (hshape.size ▸ hset)⟩, first, c, hfirst, hc, rfl, ?_⟩
  exact hshape.shaped.lookup_rows set tag words

theorem lookup_replaces_vacantTag :
    ∃ new, empty ⟨9, 3, 1⟩ = .ok new ∧ new.tags.length * 64 + 64 < Checked.limit ∧
      Reachable new (residue (lookup 2 7 3 new)) ∧ 2 < new.sets ∧
      (∃ hit d, Replaces 2 Slot.vacantTag 5 (residue (lookup 2 7 3 new)) hit d ∧ hit = true ∧
        d.slotsAt 2 = [⟨Slot.vacantTag, 5⟩, ⟨7, 3⟩, .vacant]) ∧
      ∃ first c, Cache.empty ⟨9, 3, 1⟩ = .ok first ∧ Cache.Reachable first c ∧
        residue (lookup 2 7 3 new) = c.rows := by
  -- Behind a block the mark of a vacant slot is found, so that both rows turn up to it.
  have hnew : empty ⟨9, 3, 1⟩ = .ok (Cache.blank ⟨9, 3, 1⟩ 3).rows := rfl
  have hroom : (Cache.blank ⟨9, 3, 1⟩ 3).rows.tags.length * 64 + 64 < Checked.limit := by decide
  have hset : 2 < (Cache.blank ⟨9, 3, 1⟩ 3).rows.sets := by decide
  have hreach : Reachable (Cache.blank ⟨9, 3, 1⟩ 3).rows
      (residue (lookup 2 7 3 (Cache.blank ⟨9, 3, 1⟩ 3).rows)) := .lookup 2 7 3 .start hset
  obtain ⟨⟨hit, d, h⟩, first, c, hfirst, hc, hrows, _⟩ :=
    lookup_replaces hnew hroom hreach hset Slot.vacantTag 5
  obtain ⟨rfl, rfl⟩ := EStateM.Result.ok.inj (h.run.symm.trans rfl)
  exact ⟨_, hnew, hroom, hreach, hset, ⟨_, _, h, rfl, rfl⟩, first, c, hfirst, hc, hrows⟩

end Rows

end CacheUsage
