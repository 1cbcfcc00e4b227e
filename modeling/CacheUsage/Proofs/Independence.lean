import CacheUsage.Proofs.Calls

namespace CacheUsage

/-- The second list comes from the first by exchanges of neighbours, each of which has to be allowed
to pass the other. -/
inductive Reordered {α : Type} (passes : α → α → Prop) : List α → List α → Prop where
  | refl (l : List α) : Reordered passes l l
  | exchange {a b : α} {l : List α} (before after : List α) : passes a b →
      Reordered passes (before ++ b :: a :: after) l →
      Reordered passes (before ++ a :: b :: after) l

namespace Cache

variable {c : Cache} {width : Nat} {block : UInt64} {s r : Span} {spans spans' : List Span}
  {t u : Touch} {ts us : List Touch} {g : Geometry}

theorem holds_touched_of_ne (h : c.setOf t.block ≠ c.setOf block) :
    (c.touched t).holds block = c.holds block := by
  rw [holds, holds, setOf_touched, tagsAt, tagsAt, slotsAt_touched_of_ne h.symm]

namespace WellFormed

theorem touched_comm (h : c.WellFormed width) (ht : t.words.Below width)
    (hu : u.words.Below width) (hne : c.setOf t.block ≠ c.setOf u.block) :
    (c.touched t).touched u = (c.touched u).touched t := by
  refine ((h.touched ht).touched hu).eq_of_sets ((h.touched hu).touched ht) rfl ?_
  have hfirst := slotsAt_touched_of_ne hne
  have hlast := slotsAt_touched_of_ne hne.symm
  change (c.sets.setIfInBounds _ _).setIfInBounds ((c.touched t).setOf u.block) _ =
    (c.sets.setIfInBounds _ _).setIfInBounds ((c.touched u).setOf t.block) _
  rw [setOf_touched, setOf_touched, hfirst, hlast]
  exact Array.setIfInBounds_comm _ _ hne

theorem afterTouches_touched (h : c.WellFormed width) (ht : t.words.Below width)
    (hu : ∀ u ∈ us, u.words.Below width) (hne : ∀ u ∈ us, c.setOf t.block ≠ c.setOf u.block) :
    (c.touched t).afterTouches us = (c.afterTouches us).touched t ∧
      (c.touched t).verdicts us = c.verdicts us := by
  induction us generalizing c with
  | nil => exact ⟨rfl, rfl⟩
  | cons u us ih =>
    obtain ⟨hufirst, hurest⟩ := List.forall_mem_cons.mp hu
    obtain ⟨hfirst, hrest⟩ := List.forall_mem_cons.mp hne
    obtain ⟨hcache, hverdicts⟩ := ih (h.touched hufirst) hurest (by simpa using hrest)
    have hcomm := h.touched_comm ht hufirst hfirst
    refine ⟨?_, ?_⟩
    · rw [afterTouches_cons, hcomm, hcache, afterTouches_cons]
    · rw [verdicts, hcomm, hverdicts, holds_touched_of_ne hfirst, verdicts]

/-- Touches of other sets change neither what touches do nor what they find. -/
theorem afterTouches_comm (h : c.WellFormed width) (ht : ∀ t ∈ ts, t.words.Below width)
    (hu : ∀ u ∈ us, u.words.Below width)
    (hne : ∀ t ∈ ts, ∀ u ∈ us, c.setOf t.block ≠ c.setOf u.block) :
    (c.afterTouches ts).afterTouches us = (c.afterTouches us).afterTouches ts ∧
      (c.afterTouches ts).verdicts us = c.verdicts us := by
  induction ts generalizing c with
  | nil => exact ⟨rfl, rfl⟩
  | cons t ts ih =>
    obtain ⟨htfirst, htrest⟩ := List.forall_mem_cons.mp ht
    obtain ⟨hfirst, hrest⟩ := List.forall_mem_cons.mp hne
    obtain ⟨hcache, hverdicts⟩ := ih (h.touched htfirst) htrest (by simpa using hrest)
    obtain ⟨hcache', hverdicts'⟩ := h.afterTouches_touched htfirst hu hfirst
    refine ⟨?_, ?_⟩
    · rw [afterTouches_cons, hcache, hcache', afterTouches_cons]
    · rw [afterTouches_cons, hverdicts, hverdicts']

end WellFormed

def Apart (c : Cache) (s r : Span) : Prop :=
  ∀ a ∈ c.geometry.blocks s, ∀ b ∈ c.geometry.blocks r, c.setOf a ≠ c.setOf b

-- Written out, for otherwise all addresses are gone through where `UInt64` is known to be finite.
instance (c : Cache) (s r : Span) : Decidable (c.Apart s r) :=
  @List.decidableBAll _ _ (fun _ => List.decidableBAll _ _) _

theorem Apart.symm (h : c.Apart s r) : c.Apart r s := fun b hb a ha => (h a ha b hb).symm

theorem apart_eq {d : Cache} (hgeometry : c.geometry = d.geometry)
    (hsize : c.sets.size = d.sets.size) : c.Apart = d.Apart := by
  funext s r
  simp only [Apart, hgeometry, setOf_eq_of_size hsize]

namespace Sound

theorem accessed_of_apart (h : c.Sound) (hs : s.Fits) (hr : r.Fits) (hne : c.Apart s r) :
    (c.accessed s).accessed r = (c.accessed r).accessed s ∧
      (c.accessed s).hits r = c.hits r := by
  have hblocks : ∀ t ∈ c.geometry.split s, ∀ u ∈ c.geometry.split r,
      c.setOf t.block ≠ c.setOf u.block := fun _ ht _ hu =>
    hne _ (h.geometry.block_mem_blocks hs ht) _ (h.geometry.block_mem_blocks hr hu)
  obtain ⟨hcache, hverdicts⟩ :=
    h.wellFormed.afterTouches_comm (h.below_split hs) (h.below_split hr) hblocks
  refine ⟨?_, ?_⟩
  · simpa [Cache.accessed] using hcache
  · simp only [hits, geometry_accessed]
    rw [Cache.accessed, hverdicts]

theorem exchange (h : c.Sound) {a b : Span} {before after : List Span}
    (hfit : ∀ s ∈ before ++ a :: b :: after, s.Fits) (hne : c.Apart a b) :
    (before ++ a :: b :: after).foldl (fun c s => c.accessed s) c =
        (before ++ b :: a :: after).foldl (fun c s => c.accessed s) c ∧
      ∃ past x y later, past.length = before.length ∧
        c.hitsAll (before ++ a :: b :: after) = past ++ x :: y :: later ∧
        c.hitsAll (before ++ b :: a :: after) = past ++ y :: x :: later := by
  have hbefore : ∀ s ∈ before, s.Fits := fun s hs => hfit s (List.mem_append_left _ hs)
  have ha : a.Fits := hfit a (by simp)
  have hb : b.Fits := hfit b (by simp)
  have hmid := h.foldl_accessed hbefore
  have hgeometry : (before.foldl (fun c s => c.accessed s) c).geometry = c.geometry := by
    rw [Cache.foldl_accessed, geometry_afterTouches]
  have hsize : (before.foldl (fun c s => c.accessed s) c).sets.size = c.sets.size := by
    rw [Cache.foldl_accessed, size_afterTouches]
  have hmidne : (before.foldl (fun c s => c.accessed s) c).Apart a b := by
    rwa [apart_eq hgeometry hsize]
  obtain ⟨hcache, hhits⟩ := hmid.accessed_of_apart ha hb hmidne
  obtain ⟨_, hhits'⟩ := hmid.accessed_of_apart hb ha hmidne.symm
  refine ⟨?_, c.hitsAll before, _, _, _, length_hitsAll, hitsAll_append, ?_⟩
  · simp only [List.foldl_append, List.foldl_cons, hcache]
  · rw [hitsAll_append, hitsAll, hitsAll, hhits, hhits', hcache]

theorem reordered (h : c.Sound) (hfit : ∀ s ∈ spans, s.Fits)
    (hswaps : Reordered c.Apart spans spans') :
    (∀ s ∈ spans', s.Fits) ∧
      spans.foldl (fun c s => c.accessed s) c = spans'.foldl (fun c s => c.accessed s) c ∧
      Reordered (fun x y => c.Apart x.1 y.1) (spans.zip (c.hitsAll spans))
        (spans'.zip (c.hitsAll spans')) := by
  induction hswaps with
  | refl l => exact ⟨hfit, rfl, .refl _⟩
  | @exchange a b l before after hne _ ih =>
    obtain ⟨hcache, past, x, y, later, hlength, hold, hnew⟩ := h.exchange hfit hne
    have hfit' : ∀ s ∈ before ++ b :: a :: after, s.Fits := by
      intro s hs
      apply hfit
      simp only [List.mem_append, List.mem_cons] at hs ⊢
      tauto
    obtain ⟨hlast, hcache', hzip⟩ := ih hfit'
    refine ⟨hlast, hcache.trans hcache', ?_⟩
    rw [hnew, List.zip_append hlength.symm] at hzip
    rw [hold, List.zip_append hlength.symm]
    exact .exchange (before.zip past) (after.zip later) (a := (a, x)) (b := (b, y)) hne hzip

end Sound

/-- A run may be reordered by such exchanges wherever it starts. No reference passes another that is
equal to it, so a reference and its verdict determine their places together. -/
theorem accessAll_reordered (hg : g.Sound) :
    ∃ new, empty g = .ok new ∧ ∀ c, AccessReachable new c → ∀ spans spans' : List Span,
      (∀ s ∈ spans, s.Fits) → Reordered new.Apart spans spans' →
      ∃ verdicts verdicts' d, accessAll spans c = .ok verdicts d ∧
        accessAll spans' c = .ok verdicts' d ∧ verdicts.length = spans.length ∧
        verdicts'.length = spans'.length ∧
        Reordered (fun x y => new.Apart x.1 y.1) (spans.zip verdicts) (spans'.zip verdicts') := by
  obtain ⟨m, _, hnew, hsound⟩ := empty_of_sound hg
  have hstart : (blank g (2 ^ m)).SoundFor g := ⟨hsound, rfl⟩
  refine ⟨_, hnew, ?_⟩
  intro c hreach spans spans' hfit hswaps
  have hc := hreach.soundFor hstart
  have hapart : (blank g (2 ^ m)).Apart = c.Apart :=
    apart_eq (hstart.geometry.trans hc.geometry.symm) (hstart.size_eq hc)
  rw [hapart] at hswaps ⊢
  obtain ⟨hfit', hcache, hzip⟩ := hc.sound.reordered hfit hswaps
  have hrun := hc.sound.accessAll_eq_ok hfit
  rw [hcache] at hrun
  exact ⟨_, _, _, hrun, hc.sound.accessAll_eq_ok hfit', length_hitsAll, length_hitsAll, hzip⟩

theorem accessAll_reordered_last_to_first :
    (⟨128, 2, 16⟩ : Geometry).Sound ∧ ∃ new, empty ⟨128, 2, 16⟩ = .ok new ∧
      AccessReachable new (residue (access ⟨0x1C, 8⟩ new)) ∧
      (∀ s ∈ [⟨0x18, 16⟩, ⟨0x3C, 8⟩, ⟨0x7C, 8⟩], Span.Fits s) ∧
      Reordered new.Apart [⟨0x18, 16⟩, ⟨0x3C, 8⟩, ⟨0x7C, 8⟩]
        [⟨0x3C, 8⟩, ⟨0x7C, 8⟩, ⟨0x18, 16⟩] ∧
      ∃ verdicts verdicts' d,
        accessAll [⟨0x18, 16⟩, ⟨0x3C, 8⟩, ⟨0x7C, 8⟩] (residue (access ⟨0x1C, 8⟩ new)) =
          .ok verdicts d ∧
        accessAll [⟨0x3C, 8⟩, ⟨0x7C, 8⟩, ⟨0x18, 16⟩] (residue (access ⟨0x1C, 8⟩ new)) =
          .ok verdicts' d ∧
        verdicts.length = 3 ∧ verdicts'.length = 3 ∧
        Reordered (fun x y => new.Apart x.1 y.1)
          ([⟨0x18, 16⟩, ⟨0x3C, 8⟩, ⟨0x7C, 8⟩].zip verdicts)
          ([⟨0x3C, 8⟩, ⟨0x7C, 8⟩, ⟨0x18, 16⟩].zip verdicts') := by
  -- The references across blocks 3 and 4, and 7 and 8, lie in the last set and in the first. The
  -- one across blocks 1 and 2 passes both of them.
  have hg : Geometry.Sound ⟨128, 2, 16⟩ := by decide
  have hfit : ∀ s ∈ [⟨0x18, 16⟩, ⟨0x3C, 8⟩, ⟨0x7C, 8⟩], Span.Fits s := by decide
  obtain ⟨new, hnew, hrun⟩ := accessAll_reordered hg
  have hblank : new = blank ⟨128, 2, 16⟩ 4 := Except.ok.inj (hnew.symm.trans rfl)
  have hreach : AccessReachable new (residue (access ⟨0x1C, 8⟩ new)) := .access _ .start
  have hfirst : new.Apart ⟨0x18, 16⟩ ⟨0x3C, 8⟩ := by
    rw [hblank]
    decide
  have hlast : new.Apart ⟨0x18, 16⟩ ⟨0x7C, 8⟩ := by
    rw [hblank]
    decide
  have hswaps : Reordered new.Apart [⟨0x18, 16⟩, ⟨0x3C, 8⟩, ⟨0x7C, 8⟩]
      [⟨0x3C, 8⟩, ⟨0x7C, 8⟩, ⟨0x18, 16⟩] :=
    .exchange [] [(⟨0x7C, 8⟩ : Span)] hfirst
      (.exchange [(⟨0x3C, 8⟩ : Span)] [] hlast (.refl _))
  exact ⟨hg, new, hnew, hreach, hfit, hswaps, hrun _ hreach _ _ hfit hswaps⟩

end Cache

end CacheUsage
