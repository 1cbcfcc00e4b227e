import CacheUsage.Proofs.Placement

namespace CacheUsage

/-- A visit of a run to a block, with the span that made it and whether the block was there. -/
structure Lookup where
  span : Span
  block : UInt64
  hit : Bool
deriving DecidableEq

namespace Geometry

variable {g : Geometry} {spans : List Span}

def steps (g : Geometry) (spans : List Span) : List (Span × Touch) :=
  spans.flatMap fun s => (g.split s).map (s, ·)

theorem steps_cons (g : Geometry) (s : Span) (spans : List Span) :
    g.steps (s :: spans) = (g.split s).map (s, ·) ++ g.steps spans := List.flatMap_cons

theorem map_snd_steps : (g.steps spans).map Prod.snd = spans.flatMap g.split := by
  simp [steps, List.map_flatMap, Function.comp_def]

theorem mem_steps {p : Span × Touch} (h : p ∈ g.steps spans) : p.1 ∈ spans ∧ p.2 ∈ g.split p.1 := by
  obtain ⟨s, hs, hp⟩ := List.mem_flatMap.mp h
  obtain ⟨t, ht, rfl⟩ := List.mem_map.mp hp
  exact ⟨hs, ht⟩

end Geometry

namespace Cache

/-- Makes the touches of a span, as `touchAll` does, and logs each of them. -/
def lookupAll (s : Span) : List Touch → CacheM (List Lookup)
  | [] => pure []
  | t :: rest => do
    let hit ← touch t
    let later ← lookupAll s rest
    return ⟨s, t.block, hit⟩ :: later

def lookup (s : Span) : CacheM (List Lookup) := fun c =>
  match c.geometry.touches s with
  | .ok touches => lookupAll s touches c
  | .error fault => .error fault c

def trace : List Span → CacheM (List (List Lookup))
  | [] => pure []
  | s :: rest => do
    let here ← lookup s
    let later ← trace rest
    return here :: later

variable {c : Cache} {width : Nat} {s : Span} {spans : List Span} {t : Touch} {ts : List Touch}
  {xs ys : List (Span × Touch)}

def lookupsOf (c : Cache) : List (Span × Touch) → List Lookup
  | [] => []
  | (s, t) :: rest => ⟨s, t.block, c.holds t.block⟩ :: (c.touched t).lookupsOf rest

def traceOf (c : Cache) : List Span → List (List Lookup)
  | [] => []
  | s :: rest => c.lookupsOf ((c.geometry.split s).map (s, ·)) :: (c.accessed s).traceOf rest

theorem lookupsOf_append : c.lookupsOf (xs ++ ys) =
    c.lookupsOf xs ++ (c.afterTouches (xs.map Prod.snd)).lookupsOf ys := by
  induction xs generalizing c with
  | nil => rfl
  | cons x xs ih => simp only [List.cons_append, lookupsOf, ih, List.map_cons, afterTouches_cons]

theorem map_lookupsOf : (c.lookupsOf xs).map (fun l => (l.span, l.block)) =
    xs.map fun x => (x.1, x.2.block) := by
  induction xs generalizing c with
  | nil => rfl
  | cons x xs ih => simp only [lookupsOf, List.map_cons, ih]

theorem WellFormed.lookupAll_eq_ok (h : c.WellFormed width) (ht : ∀ t ∈ ts, t.words.Below width) :
    lookupAll s ts c = .ok (c.lookupsOf (ts.map (s, ·))) (c.afterTouches ts) := by
  induction ts generalizing c with
  | nil => rfl
  | cons t ts ih =>
    have hhead := h.touch_eq_ok (ht t List.mem_cons_self)
    have hrest := ih (h.touched (ht t List.mem_cons_self))
      fun u hu => ht u (List.mem_cons_of_mem t hu)
    rw [lookupAll, bind_eq_of_ok hhead, bind_eq_of_ok hrest]
    rfl

theorem Sound.lookup_eq_ok (h : c.Sound) (hs : s.Fits) :
    lookup s c = .ok (c.lookupsOf ((c.geometry.split s).map (s, ·))) (c.accessed s) := by
  simp only [lookup, h.geometry.touches_eq_split hs]
  exact h.wellFormed.lookupAll_eq_ok (h.below_split hs)

theorem flatten_traceOf : (c.traceOf spans).flatten = c.lookupsOf (c.geometry.steps spans) := by
  induction spans generalizing c with
  | nil => rfl
  | cons s spans ih =>
    have hsnd : ((c.geometry.split s).map (s, ·)).map Prod.snd = c.geometry.split s := by simp
    rw [traceOf, List.flatten_cons, ih, Geometry.steps_cons, lookupsOf_append, hsnd,
      geometry_accessed]
    rfl

theorem all_hit_lookupsOf :
    (c.lookupsOf (ts.map (s, ·))).all Lookup.hit = (c.verdicts ts).all id := by
  induction ts generalizing c with
  | nil => rfl
  | cons t ts ih => simp only [List.map_cons, lookupsOf, verdicts, List.all_cons, ih, id]

theorem map_all_hit_traceOf :
    (c.traceOf spans).map (fun here => here.all Lookup.hit) = c.hitsAll spans := by
  induction spans generalizing c with
  | nil => rfl
  | cons s spans ih => rw [traceOf, List.map_cons, all_hit_lookupsOf, ih, hitsAll, hits]

theorem Sound.map_block_traceOf (h : c.Sound) (hs : ∀ s ∈ spans, s.Fits) :
    (c.traceOf spans).map (fun here => here.map fun l => (l.span, l.block)) =
      spans.map fun s => (c.geometry.blocks s).map (s, ·) := by
  induction spans generalizing c with
  | nil => rfl
  | cons s spans ih =>
    have hfit := hs s List.mem_cons_self
    have hrest := ih (h.accessed hfit) fun r hr => hs r (List.mem_cons_of_mem s hr)
    rw [traceOf, List.map_cons, hrest, map_lookupsOf, List.map_cons, geometry_accessed,
      ← h.geometry.map_block_split hfit]
    simp

theorem Sound.trace_eq_ok (h : c.Sound) (hs : ∀ s ∈ spans, s.Fits) :
    trace spans c = .ok (c.traceOf spans) (spans.foldl (fun c s => c.accessed s) c) := by
  induction spans generalizing c with
  | nil => rfl
  | cons s spans ih =>
    have hhead := h.lookup_eq_ok (hs s List.mem_cons_self)
    have hrest := ih (h.accessed (hs s List.mem_cons_self))
      fun r hr => hs r (List.mem_cons_of_mem s hr)
    rw [trace, bind_eq_of_ok hhead, bind_eq_of_ok hrest]
    rfl

end Cache

section Log

variable {g : Geometry} {log : List Lookup} {l : Lookup} {block : UInt64} {k w : Nat}

/-- The lookup of the log at `k` brought the block in, and no later one did. -/
def Installs (log : List Lookup) (block : UInt64) (k : Nat) : Prop :=
  (∃ l, log[k]? = some l ∧ l.block = block ∧ l.hit = false) ∧
    ∀ i l, k < i → log[i]? = some l → l.block = block → l.hit = true

/-- From `k` on, a span that looked the block up has a byte of the word. -/
def MarkedSince (g : Geometry) (log : List Lookup) (block : UInt64) (k w : Nat) : Prop :=
  ∃ i l, k ≤ i ∧ log[i]? = some l ∧ l.block = block ∧ g.CoversWord l.span block w

theorem getElem?_concat_eq_some {i : Nat} {m : Lookup} :
    (log ++ [l])[i]? = some m ↔ log[i]? = some m ∨ i = log.length ∧ l = m := by
  rcases Nat.lt_trichotomy i log.length with hlt | rfl | hgt
  · simp [List.getElem?_append_left hlt, Nat.ne_of_lt hlt]
  · simp
  · have hnone : (log ++ [l])[i]? = none := List.getElem?_eq_none (by simp; omega)
    have hlog : log[i]? = none := List.getElem?_eq_none (by omega)
    simp [hnone, hlog, Nat.ne_of_gt hgt]

theorem Installs.lt_length (h : Installs log block k) : k < log.length := by
  obtain ⟨⟨l, hl, _⟩, _⟩ := h
  exact (List.getElem?_eq_some_iff.mp hl).1

theorem Installs.unique {j : Nat} (hj : Installs log block j) (hk : Installs log block k) :
    j = k := by
  obtain ⟨⟨a, ha, hab, hamiss⟩, hafter⟩ := hj
  obtain ⟨⟨b, hb, hbb, hbmiss⟩, hbfter⟩ := hk
  rcases Nat.lt_trichotomy j k with hlt | heq | hgt
  · rw [hafter k b hlt hb hbb] at hbmiss
    cases hbmiss
  · exact heq
  · rw [hbfter j a hgt ha hab] at hamiss
    cases hamiss

theorem Installs.append (h : Installs log block k) (hl : l.block = block → l.hit = true) :
    Installs (log ++ [l]) block k := by
  obtain ⟨⟨m, hm, hblock, hmiss⟩, hafter⟩ := h
  refine ⟨⟨m, getElem?_concat_eq_some.mpr (Or.inl hm), hblock, hmiss⟩, ?_⟩
  intro i n hi hn hnb
  rcases getElem?_concat_eq_some.mp hn with hold | ⟨_, rfl⟩
  · exact hafter i n hi hold hnb
  · exact hl hnb

theorem installs_of_miss (hmiss : l.hit = false) : Installs (log ++ [l]) l.block log.length := by
  refine ⟨⟨l, by simp, rfl, hmiss⟩, ?_⟩
  intro i n hi hn _
  have hlt := (List.getElem?_eq_some_iff.mp hn).1
  rw [List.length_append, List.length_singleton] at hlt
  omega

theorem markedSince_append (hk : k ≤ log.length) : MarkedSince g (log ++ [l]) block k w ↔
    MarkedSince g log block k w ∨ l.block = block ∧ g.CoversWord l.span block w := by
  constructor
  · intro h
    obtain ⟨i, m, hi, hm, hb, hc⟩ := h
    rcases getElem?_concat_eq_some.mp hm with hold | ⟨_, rfl⟩
    · exact Or.inl ⟨i, m, hi, hold, hb, hc⟩
    · exact Or.inr ⟨hb, hc⟩
  · intro h
    rcases h with ⟨i, m, hi, hm, hb, hc⟩ | ⟨hb, hc⟩
    · exact ⟨i, m, hi, getElem?_concat_eq_some.mpr (Or.inl hm), hb, hc⟩
    · exact ⟨log.length, l, hk, by simp, hb, hc⟩

theorem not_markedSince_length : ¬ MarkedSince g log block log.length w := by
  intro h
  obtain ⟨i, m, hi, hm, _⟩ := h
  have hlt := (List.getElem?_eq_some_iff.mp hm).1
  omega

end Log

end CacheUsage
