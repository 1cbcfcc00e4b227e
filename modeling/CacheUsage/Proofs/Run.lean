import CacheUsage.Proofs.Effects
import CacheUsage.Proofs.WellFormed

namespace CacheUsage

namespace Cache

variable {c : Cache} {width : Nat} {s : Span} {spans : List Span} {t : Touch} {ts : List Touch}

def tagsAt (c : Cache) (set : Nat) : List UInt64 := (c.slotsAt set).map Slot.tag

def holds (c : Cache) (block : UInt64) : Bool := decide (block ∈ c.tagsAt (c.setOf block))

def touched (t : Touch) (c : Cache) : Cache := c.visited (c.setOf t.block) t.block t.words

def afterTouches (c : Cache) (ts : List Touch) : Cache := ts.foldl (fun c t => c.touched t) c

def verdicts (c : Cache) : List Touch → List Bool
  | [] => []
  | t :: rest => c.holds t.block :: (c.touched t).verdicts rest

def accessed (s : Span) (c : Cache) : Cache := c.afterTouches (c.geometry.split s)

def hits (c : Cache) (s : Span) : Bool := (c.verdicts (c.geometry.split s)).all id

def hitsAll (c : Cache) : List Span → List Bool
  | [] => []
  | s :: rest => c.hits s :: (c.accessed s).hitsAll rest

/-- A well-formed cache of a sound geometry, whose word maps stay inside its lines. -/
structure Sound (c : Cache) : Prop where
  geometry : c.geometry.Sound
  wellFormed : c.WellFormed c.geometry.lineWords

structure SoundFor (g : Geometry) (c : Cache) : Prop where
  sound : c.Sound
  geometry : c.geometry = g

@[simp] theorem geometry_touched : (c.touched t).geometry = c.geometry := rfl

@[simp] theorem size_touched : (c.touched t).sets.size = c.sets.size := size_visited

@[simp] theorem afterTouches_nil : c.afterTouches [] = c := rfl

@[simp] theorem afterTouches_cons :
    c.afterTouches (t :: ts) = (c.touched t).afterTouches ts := rfl

theorem afterTouches_append {us : List Touch} :
    c.afterTouches (ts ++ us) = (c.afterTouches ts).afterTouches us := List.foldl_append

@[simp] theorem geometry_afterTouches : (c.afterTouches ts).geometry = c.geometry := by
  induction ts generalizing c with
  | nil => rfl
  | cons t ts ih => rw [afterTouches_cons, ih, geometry_touched]

@[simp] theorem size_afterTouches : (c.afterTouches ts).sets.size = c.sets.size := by
  induction ts generalizing c with
  | nil => rfl
  | cons t ts ih => rw [afterTouches_cons, ih, size_touched]

@[simp] theorem geometry_accessed : (c.accessed s).geometry = c.geometry := geometry_afterTouches

theorem length_hitsAll : (c.hitsAll spans).length = spans.length := by
  induction spans generalizing c with
  | nil => rfl
  | cons s spans ih => rw [hitsAll, List.length_cons, ih, List.length_cons]

theorem setOf_eq_of_size {c d : Cache} (h : c.sets.size = d.sets.size) (block : UInt64) :
    c.setOf block = d.setOf block := by
  simp only [setOf, setMask, h]

@[simp] theorem setOf_touched {block : UInt64} : (c.touched t).setOf block = c.setOf block :=
  setOf_eq_of_size size_touched block

@[simp] theorem setOf_afterTouches {block : UInt64} :
    (c.afterTouches ts).setOf block = c.setOf block :=
  setOf_eq_of_size size_afterTouches block

theorem slotsAt_touched {set : Nat} (hset : set < c.sets.size) (hown : c.setOf t.block = set) :
    (c.touched t).slotsAt set = (Slot.visit t.block t.words (c.slotsAt set)).slots := by
  subst hown
  exact slotsAt_visited hset

theorem slotsAt_touched_of_ne {set : Nat} (h : set ≠ c.setOf t.block) :
    (c.touched t).slotsAt set = c.slotsAt set := slotsAt_visited_of_ne h

theorem getElem?_verdicts (c : Cache) (ts : List Touch) (k : Nat) :
    (c.verdicts ts)[k]? = ts[k]?.map fun t => (c.afterTouches (ts.take k)).holds t.block := by
  induction ts generalizing c k with
  | nil => simp [verdicts]
  | cons t ts ih =>
    cases k with
    | zero => simp [verdicts]
    | succ k => simp [verdicts, ih]

theorem verdicts_append {us : List Touch} :
    c.verdicts (ts ++ us) = c.verdicts ts ++ (c.afterTouches ts).verdicts us := by
  induction ts generalizing c with
  | nil => rfl
  | cons t ts ih =>
    rw [List.cons_append, verdicts, ih, verdicts, afterTouches_cons, List.cons_append]

theorem foldl_accessed (c : Cache) (spans : List Span) :
    spans.foldl (fun c s => c.accessed s) c = c.afterTouches (spans.flatMap c.geometry.split) := by
  induction spans generalizing c with
  | nil => rfl
  | cons s spans ih =>
    rw [List.foldl_cons, ih, List.flatMap_cons, afterTouches_append, geometry_accessed]
    rfl

theorem hitsAll_append {rest : List Span} : c.hitsAll (spans ++ rest) =
    c.hitsAll spans ++ (spans.foldl (fun c s => c.accessed s) c).hitsAll rest := by
  induction spans generalizing c with
  | nil => rfl
  | cons s spans ih =>
    rw [List.cons_append, hitsAll, ih, hitsAll, List.foldl_cons, List.cons_append]

theorem getElem?_hitsAll (i : Nat) :
    (c.hitsAll spans)[i]? =
      spans[i]?.map fun s => ((spans.take i).foldl (fun c s => c.accessed s) c).hits s := by
  induction spans generalizing c i with
  | nil => simp [hitsAll]
  | cons s spans ih =>
    cases i with
    | zero => simp [hitsAll]
    | succ i => simp [hitsAll, ih]

theorem hits_eq_true_iff : c.hits s = true ↔ ∀ j t, (c.geometry.split s)[j]? = some t →
    (c.afterTouches ((c.geometry.split s).take j)).holds t.block = true := by
  rw [hits, List.all_eq_true]
  constructor
  · intro h j t hj
    have hverdict := getElem?_verdicts c (c.geometry.split s) j
    rw [hj] at hverdict
    exact h _ (List.mem_of_getElem? hverdict)
  · intro h hit hmem
    obtain ⟨j, hj⟩ := List.mem_iff_getElem?.mp hmem
    rw [getElem?_verdicts, Option.map_eq_some_iff] at hj
    obtain ⟨t, ht, rfl⟩ := hj
    exact h j t ht

theorem maintains_touchAll {P : Cache → Prop} (h : ∀ t ∈ ts, Maintains P (touch t)) :
    Maintains P (touchAll ts) := by
  induction ts with
  | nil => exact Maintains.pure true
  | cons t ts ih =>
    refine (h t List.mem_cons_self).bind fun _ => ?_
    refine (ih fun u hu => h u (List.mem_cons_of_mem t hu)).bind fun _ => ?_
    exact Maintains.pure _

theorem maintains_perform {P : Cache → Prop} {split : Except Fault (List Touch)}
    (h : ∀ ts, split = .ok ts → ∀ t ∈ ts, Maintains P (touch t)) :
    Maintains P (perform split) := by
  cases split with
  | ok ts => exact maintains_touchAll (h ts rfl)
  | error fault => exact Maintains.throw fault

namespace WellFormed

theorem touched (h : c.WellFormed width) (ht : t.words.Below width) :
    (c.touched t).WellFormed width :=
  h.visited (h.setOf_lt t.block) ht

theorem holds_touched {u : Touch} (h : c.WellFormed width) (hblock : u.block = t.block) :
    (c.touched t).holds u.block = true := by
  rw [holds, tagsAt, hblock, setOf_touched, slotsAt_touched (h.setOf_lt t.block) rfl]
  exact decide_eq_true (Slot.mem_map_tag_visit t.words)

/-- Two touches of a block in turn are one touch of the words of both. -/
theorem touched_touched {u : Touch} (h : c.WellFormed width) (ht : t.words.Below width)
    (hu : u.words.Below width) (hblock : u.block = t.block) :
    (c.touched t).touched u = c.touched ⟨t.block, t.words ||| u.words⟩ := by
  refine ((h.touched ht).touched hu).eq_of_sets (h.touched (ht.or hu)) rfl ?_
  have hslots := slotsAt_touched (h.setOf_lt t.block) rfl
  have hsame : (c.touched t).setOf u.block = c.setOf t.block := by rw [hblock, setOf_touched]
  change (c.touched t).sets.setIfInBounds _ _ = c.sets.setIfInBounds _ _
  rw [hsame, hslots, hblock, Slot.visit_visit]
  exact Array.setIfInBounds_setIfInBounds ..

theorem touch_eq_ok (h : c.WellFormed width) (ht : t.words.Below width) :
    touch t c = .ok (c.holds t.block) (c.touched t) :=
  h.visit_eq_ok (h.setOf_lt t.block) ht

theorem afterTouches (h : c.WellFormed width) (ht : ∀ t ∈ ts, t.words.Below width) :
    (c.afterTouches ts).WellFormed width := by
  induction ts generalizing c with
  | nil => exact h
  | cons t ts ih =>
    exact ih (h.touched (ht t List.mem_cons_self)) fun u hu => ht u (List.mem_cons_of_mem t hu)

theorem touchAll_eq_ok (h : c.WellFormed width) (ht : ∀ t ∈ ts, t.words.Below width) :
    touchAll ts c = .ok ((c.verdicts ts).all id) (c.afterTouches ts) := by
  induction ts generalizing c with
  | nil => rfl
  | cons t ts ih =>
    have hhead := h.touch_eq_ok (ht t List.mem_cons_self)
    have hrest := ih (h.touched (ht t List.mem_cons_self))
      fun u hu => ht u (List.mem_cons_of_mem t hu)
    rw [touchAll, bind_eq_of_ok hhead, bind_eq_of_ok hrest]
    rfl

/-- Only the split of a reference can fail, which is made before the cache changes. -/
theorem access_eq (h : c.WellFormed width)
    (hbelow : ∀ ts, c.geometry.touches s = .ok ts → ∀ t ∈ ts, t.words.Below width) :
    access s c = match c.geometry.touches s with
      | .ok ts => .ok ((c.verdicts ts).all id) (c.afterTouches ts)
      | .error fault => .error fault c := by
  unfold access
  cases hsplit : c.geometry.touches s with
  | ok ts => exact h.touchAll_eq_ok (hbelow ts hsplit)
  | error fault => rfl

end WellFormed

namespace Sound

theorem below_split (h : c.Sound) (hs : s.Fits) :
    ∀ t ∈ c.geometry.split s, t.words.Below c.geometry.lineWords :=
  fun t ht => (h.geometry.regular_of_mem_split hs t ht).below

theorem accessed (h : c.Sound) (hs : s.Fits) : (c.accessed s).Sound := by
  refine ⟨by simpa using h.geometry, ?_⟩
  rw [geometry_accessed]
  exact h.wellFormed.afterTouches (h.below_split hs)

theorem access_eq_ok (h : c.Sound) (hs : s.Fits) :
    access s c = .ok (c.hits s) (c.accessed s) := by
  rw [access, h.geometry.touches_eq_split hs]
  exact h.wellFormed.touchAll_eq_ok (h.below_split hs)

theorem foldl_accessed (h : c.Sound) (hs : ∀ s ∈ spans, s.Fits) :
    (spans.foldl (fun c s => c.accessed s) c).Sound := by
  induction spans generalizing c with
  | nil => exact h
  | cons s spans ih =>
    exact ih (h.accessed (hs s List.mem_cons_self)) fun r hr => hs r (List.mem_cons_of_mem s hr)

theorem accessAll_eq_ok (h : c.Sound) (hs : ∀ s ∈ spans, s.Fits) :
    accessAll spans c = .ok (c.hitsAll spans) (spans.foldl (fun c s => c.accessed s) c) := by
  induction spans generalizing c with
  | nil => rfl
  | cons s spans ih =>
    have hhead := h.access_eq_ok (hs s List.mem_cons_self)
    have hrest := ih (h.accessed (hs s List.mem_cons_self))
      fun r hr => hs r (List.mem_cons_of_mem s hr)
    rw [accessAll, bind_eq_of_ok hhead, bind_eq_of_ok hrest]
    rfl

end Sound

theorem SoundFor.sound_geometry {g : Geometry} (h : c.SoundFor g) : g.Sound :=
  h.geometry ▸ h.sound.geometry

theorem SoundFor.accessed {g : Geometry} (h : c.SoundFor g) (hs : s.Fits) :
    (c.accessed s).SoundFor g :=
  ⟨h.sound.accessed hs, geometry_accessed.trans h.geometry⟩

theorem SoundFor.size_eq {d : Cache} {g : Geometry} (hc : c.SoundFor g) (hd : d.SoundFor g) :
    c.sets.size = d.sets.size := by
  have hcount := hc.sound.wellFormed.setCount_eq
  have hcount' := hd.sound.wellFormed.setCount_eq
  rw [hc.geometry] at hcount
  rw [hd.geometry] at hcount'
  exact Except.ok.inj (hcount.symm.trans hcount')

theorem SoundFor.below {g : Geometry} (h : c.SoundFor g) (ht : ∀ t ∈ ts, t.Regular g) :
    ∀ t ∈ ts, t.words.Below c.geometry.lineWords := by
  rw [h.geometry]
  exact fun t hmem => (ht t hmem).below

theorem SoundFor.access_eq {g : Geometry} (h : c.SoundFor g) (s : Span) :
    access s c = match g.touches s with
      | .ok ts => .ok ((c.verdicts ts).all id) (c.afterTouches ts)
      | .error fault => .error fault c := by
  have hbelow : ∀ ts, c.geometry.touches s = .ok ts → ∀ t ∈ ts, t.words.Below c.geometry.lineWords := by
    intro ts hts
    rw [h.geometry] at hts
    exact h.below (h.sound_geometry.regular_of_touches hts)
  rw [h.sound.wellFormed.access_eq hbelow, h.geometry]

def blank (g : Geometry) (n : Nat) : Cache :=
  ⟨g, Array.replicate n (List.replicate g.ways.toNat .vacant), 0⟩

@[simp] theorem geometry_blank (g : Geometry) (n : Nat) : (blank g n).geometry = g := rfl

theorem empty_eq_ok {g : Geometry} : empty g = .ok c ↔
    ∃ n, g.setCount = .ok n ∧ 0 < n ∧ n * g.ways.toNat < Checked.limit ∧ c = blank g n := by
  simp only [empty, except_bind_eq_ok, Checked.product_eq_ok, Checked.difference_eq_ok]
  constructor
  · intro h'
    obtain ⟨n, hn, _, ⟨rfl, hfit⟩, m, hpos, hc⟩ := h'
    exact ⟨n, hn, by omega, hfit, (Except.ok.inj hc).symm⟩
  · intro h'
    obtain ⟨n, hn, hpos, hfit, rfl⟩ := h'
    exact ⟨n, hn, _, ⟨rfl, hfit⟩, n - 1, by omega, rfl⟩

theorem geometry_of_empty {g : Geometry} (h : empty g = .ok c) : c.geometry = g := by
  obtain ⟨n, _, _, _, rfl⟩ := empty_eq_ok.mp h
  rfl

theorem slotsAt_blank {g : Geometry} {n set : Nat} (hset : set < n) :
    (blank g n).slotsAt set = List.replicate g.ways.toNat .vacant := by
  simp [slotsAt, blank, hset]

theorem size_blank (g : Geometry) (n : Nat) : (blank g n).sets.size = n := by
  simp [blank]

theorem tagsAt_blank {g : Geometry} {n set : Nat} (hset : set < n) :
    (blank g n).tagsAt set = List.replicate g.ways.toNat Slot.vacantTag := by
  rw [tagsAt, slotsAt_blank hset, List.map_replicate]
  rfl

theorem shaped_blank {g : Geometry} {n : Nat} (hpos : 0 < n) (hways : 0 < g.ways.toNat)
    (hnumbered : n * g.ways.toNat < Checked.limit) : (blank g n).Shaped := by
  have hsize := size_blank g n
  refine ⟨by rwa [hsize], hways, by rwa [hsize], ?_⟩
  intro set hset
  rw [slotsAt_blank (by omega), List.length_replicate]
  rfl

theorem wellFormed_blank {g : Geometry} {n : Nat} (hn : g.setCount = .ok n) (hpos : 0 < n)
    (hways : 0 < g.ways.toNat) (hwidth : 0 < width) (hcap : width ≤ WordMap.capacity)
    (hroom : n * g.ways.toNat * width + width < Checked.limit) :
    (blank g n).WellFormed width := by
  have hsize := size_blank g n
  have hslots : n * g.ways.toNat ≤ n * g.ways.toNat * width := Nat.le_mul_of_pos_right _ hwidth
  have hshaped := shaped_blank hpos hways (show n * g.ways.toNat < Checked.limit by omega)
  refine ⟨hwidth, hcap, by rwa [hsize], hways, by rwa [hsize], by rwa [hsize],
    hshaped.length_slotsAt, ?_, ?_⟩
  · intro set hset slot hslot
    rw [slotsAt_blank (by omega)] at hslot
    rw [List.eq_of_mem_replicate hslot]
    exact WordMap.below_zero width
  · have hvacant : Slot.usedCount (List.replicate g.ways.toNat .vacant) = 0 := by
      simp [Slot.usedCount, Slot.vacant, WordMap.count_zero]
    simp [recount_eq, blank, hvacant]

theorem empty_of_sound {g : Geometry} (h : g.Sound) :
    ∃ m, g.setCount = .ok (2 ^ m) ∧ empty g = .ok (blank g (2 ^ m)) ∧ (blank g (2 ^ m)).Sound := by
  obtain ⟨m, hm, hsize⟩ := h.setCount_eq
  have hwords := h.lineWords_mul
  have hline := h.lineBytes_pos
  have hmost := h.lineWords_le
  have hcap := g.sizeBytes.toNat_lt
  have hbytes : 4 * (2 ^ m * g.ways.toNat * g.lineWords) = g.sizeBytes.toNat := by
    rw [hsize, ← hwords]
    ac_rfl
  have hslots : 2 ^ m * g.ways.toNat ≤ 2 ^ m * g.ways.toNat * g.lineWords :=
    Nat.le_mul_of_pos_right _ h.lineWords_pos
  simp only [WordMap.capacity] at hmost
  refine ⟨m, hm, empty_eq_ok.mpr ⟨_, hm, Nat.two_pow_pos m, ?_, rfl⟩, h, ?_⟩
  · rw [Checked.limit]
    omega
  · refine wellFormed_blank hm (Nat.two_pow_pos m) h.ways_pos h.lineWords_pos h.lineWords_le ?_
    change 2 ^ m * g.ways.toNat * g.lineWords + g.lineWords < 2 ^ 64
    omega

end Cache

end CacheUsage
