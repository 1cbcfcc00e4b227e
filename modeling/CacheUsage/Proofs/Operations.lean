import CacheUsage.Proofs.Placement

namespace CacheUsage

namespace Cache

variable {new c : Cache} {g : Geometry} {set : Nat} {tag : UInt64} {words : WordMap} {t : Touch}
  {ts : List Touch} {s : Span}

/-- What visits of the sets of a cache and references lead to, those that fail included. -/
inductive Reachable (new : Cache) : Cache → Prop where
  | start : Reachable new new
  | visit {c : Cache} (set : Nat) (tag : UInt64) (words : WordMap) : Reachable new c →
      set < c.sets.size → Reachable new (residue (visit set tag words c))
  | access {c : Cache} (s : Span) : Reachable new c → Reachable new (residue (access s c))

/-- What operations keep of a cache, whatever its geometry. -/
structure Kept (new c : Cache) : Prop where
  wellFormed : c.WellFormed WordMap.capacity
  distinct : ∀ set < c.sets.size, DistinctTags (c.tagsAt set)
  geometry : c.geometry = new.geometry
  size : c.sets.size = new.sets.size

namespace Kept

theorem visited (h : Kept new c) (tag : UInt64) (words : WordMap) (hset : set < c.sets.size) :
    Kept new (c.visited set tag words) := by
  refine ⟨h.wellFormed.visited hset words.below_capacity, ?_, h.geometry, ?_⟩
  · intro other hother
    rw [size_visited] at hother
    exact distinctTags_visited tag words hset (h.distinct other hother)
  · rw [size_visited]
    exact h.size

theorem afterTouches (h : Kept new c) (ts : List Touch) : Kept new (c.afterTouches ts) := by
  induction ts generalizing c with
  | nil => exact h
  | cons t ts ih => exact ih (h.visited t.block t.words (h.wellFormed.setOf_lt t.block))

theorem visit_eq_ok (h : Kept new c) (tag : UInt64) (words : WordMap) (hset : set < c.sets.size) :
    visit set tag words c = .ok (decide (tag ∈ c.tagsAt set)) (c.visited set tag words) :=
  h.wellFormed.visit_eq_ok hset words.below_capacity

theorem access_eq (h : Kept new c) (s : Span) :
    access s c = match c.geometry.touches s with
      | .ok ts => .ok ((c.verdicts ts).all id) (c.afterTouches ts)
      | .error fault => .error fault c :=
  h.wellFormed.access_eq fun _ _ t _ => t.words.below_capacity

theorem access (h : Kept new c) (s : Span) : Kept new (residue (access s c)) := by
  rw [h.access_eq s]
  cases c.geometry.touches s with
  | ok ts => exact h.afterTouches ts
  | error fault => exact h

end Kept

theorem kept_of_empty (hnew : empty g = .ok new)
    (hroom : new.slots.length * 64 + 64 < Checked.limit) : Kept new new := by
  obtain ⟨n, hn, hpos, hfit, rfl⟩ := empty_eq_ok.mp hnew
  have hways : 0 < g.ways.toNat := Nat.pos_of_ne_zero (Geometry.setCount_eq_ok.mp hn).2.1
  have hslots : (blank g n).slots.length = n * g.ways.toNat := by
    simp [slots, blank]
  rw [hslots] at hroom
  refine ⟨wellFormed_blank hn hpos hways (by decide) (Nat.le_refl _) hroom, ?_, rfl, rfl⟩
  exact (placed_blank g n).distinct

theorem Reachable.kept (h : Reachable new c) (hstart : Kept new new) : Kept new c := by
  induction h with
  | start => exact hstart
  | visit set tag words _ hset ih =>
    rw [ih.visit_eq_ok tag words hset]
    exact ih.visited tag words hset
  | access s _ ih => exact ih.access s

/-- The total of a cache of `sets` sets is that of all its slots, no visit takes it out of 64 bits,
and an access fails only where its reference cannot be split. -/
structure Accounts (sets ways : Nat) (c : Cache) : Prop where
  total : c.wordsInUse = c.recount
  size : c.sets.size = sets
  length : c.slots.length = sets * ways
  distinct : ∀ set < sets, ∃ slots, c.slotsOf set = .ok slots ∧ slots.length = ways ∧
    DistinctTags (slots.map Slot.tag)
  update : ∀ set < sets, ∀ tag words, ∃ slots sum total d, c.slotsOf set = .ok slots ∧
    Checked.sum c.wordsInUse (Slot.visit tag words slots).after.count = .ok sum ∧
    Checked.difference sum (Slot.visit tag words slots).before.count = .ok total ∧
    Cache.visit set tag words c = .ok (Slot.visit tag words slots).hit d ∧ d.wordsInUse = total
  refusal : ∀ s fault d, Cache.access s c = .error fault d →
    c.geometry.touches s = .error fault ∧ d = c

theorem Kept.update (h : Kept new c) (tag : UInt64) (words : WordMap) (hset : set < c.sets.size) :
    ∃ sum, Checked.sum c.wordsInUse (Slot.visit tag words (c.slotsAt set)).after.count = .ok sum ∧
      Checked.difference sum (Slot.visit tag words (c.slotsAt set)).before.count =
        .ok (c.visited set tag words).wordsInUse :=
  except_bind_eq_ok.mp (h.wellFormed.updatedTotal_eq_ok tag hset words.below_capacity)

/-- After any operations the total is right and can be updated, in a cache so small that the words of
all its slots and of one more can be counted in 64 bits. -/
theorem accounts_of_reachable (hnew : empty g = .ok new)
    (hroom : new.slots.length * 64 + 64 < Checked.limit) (h : Reachable new c) :
    Accounts new.sets.size g.ways.toNat c := by
  have hkept := h.kept (kept_of_empty hnew hroom)
  obtain ⟨n, _, _, _, rfl⟩ := empty_eq_ok.mp hnew
  have hways : c.geometry.ways = g.ways := by rw [hkept.geometry, geometry_blank]
  have hw := hkept.wellFormed
  rw [← hkept.size, ← hways]
  refine ⟨hw.wordsInUse_eq, rfl, hw.length_slots, ?_, ?_, ?_⟩
  · intro set hset
    exact ⟨_, hw.slotsOf_eq_ok hset, hw.length_slotsAt set hset, hkept.distinct set hset⟩
  · intro set hset tag words
    obtain ⟨sum, hsum, htotal⟩ := hkept.update tag words hset
    have hhit : (Slot.visit tag words (c.slotsAt set)).hit = _ := Slot.hit_visit
    refine ⟨_, sum, _, _, hw.slotsOf_eq_ok hset, hsum, htotal, ?_, rfl⟩
    rw [hhit]
    exact hkept.visit_eq_ok tag words hset
  · intro s fault d herror
    rw [hkept.access_eq s] at herror
    cases htouches : c.geometry.touches s with
    | ok ts =>
      rw [htouches] at herror
      cases herror
    | error cause =>
      rw [htouches] at herror
      cases herror
      exact ⟨rfl, rfl⟩

theorem accounts_of_reachable_vacantTag :
    ∃ new, empty ⟨6, 2, 1⟩ = .ok new ∧ new.slots.length * 64 + 64 < Checked.limit ∧
      Reachable new (residue (visit 2 Slot.vacantTag 5 (residue
        (access ⟨0xFFFFFFFFFFFFFFFF, 1⟩ (residue (visit 2 7 3 new)))))) ∧
      Accounts new.sets.size 2 (residue (visit 2 Slot.vacantTag 5 (residue
        (access ⟨0xFFFFFFFFFFFFFFFF, 1⟩ (residue (visit 2 7 3 new)))))) := by
  -- In lines of one byte the last block is the mark of a vacant slot.
  have hnew : empty ⟨6, 2, 1⟩ = .ok (blank ⟨6, 2, 1⟩ 3) := rfl
  have hroom : (blank ⟨6, 2, 1⟩ 3).slots.length * 64 + 64 < Checked.limit := by decide
  have hfirst : Reachable (blank ⟨6, 2, 1⟩ 3) (residue (visit 2 7 3 (blank ⟨6, 2, 1⟩ 3))) :=
    .visit 2 7 3 .start (by decide)
  have hreach := Reachable.visit 2 Slot.vacantTag 5 (hfirst.access ⟨0xFFFFFFFFFFFFFFFF, 1⟩)
    (by decide +kernel)
  exact ⟨_, hnew, hroom, hreach, accounts_of_reachable hnew hroom hreach⟩

end Cache

end CacheUsage
