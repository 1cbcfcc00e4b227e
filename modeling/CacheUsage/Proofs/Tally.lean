import CacheUsage.Proofs.Run
import CacheUsage.Simulation

namespace CacheUsage

structure Step where
  reference : Reference
  served : Served
  caches : Hierarchy

namespace Step

variable {x : Step}

def firstWords (x : Step) : Nat := (x.caches.get x.reference.kind.firstLevel).wordsInUse

def lastWords (x : Step) : Nat := x.caches.ll.wordsInUse

def logged (x : Step) (log : Log) : Log :=
  if x.served.isFirstMiss then
    log.push (.firstLevelMiss x.reference.kind.firstLevel x.reference.toSpan x.firstWords
      x.lastWords)
  else log

def loggedAll (steps : List Step) (log : Log) : Log := steps.foldl (fun log x => x.logged log) log

end Step

namespace Counters

variable {a b c : Counters} {x : Step}

structure InRange (c : Counters) : Prop where
  references : c.references < Checked.limit
  firstMisses : c.firstMisses < Checked.limit
  lastMisses : c.lastMisses < Checked.limit
  firstWords : c.firstWords < Checked.limit
  lastWords : c.lastWords < Checked.limit

def tally (c : Counters) (x : Step) : Counters where
  references := c.references + 1
  firstMisses := c.firstMisses + if x.served.isFirstMiss then 1 else 0
  lastMisses := c.lastMisses + if x.served = .memory then 1 else 0
  firstWords := c.firstWords + x.firstWords
  lastWords := c.lastWords + if x.served.isFirstMiss then x.lastWords else 0

theorem inRange_iff : c.InRange ↔ c.references < Checked.limit ∧ c.firstMisses < Checked.limit ∧
    c.lastMisses < Checked.limit ∧ c.firstWords < Checked.limit ∧ c.lastWords < Checked.limit :=
  ⟨fun ⟨h1, h2, h3, h4, h5⟩ => ⟨h1, h2, h3, h4, h5⟩,
    fun ⟨h1, h2, h3, h4, h5⟩ => ⟨h1, h2, h3, h4, h5⟩⟩

instance (c : Counters) : Decidable c.InRange := decidable_of_iff _ inRange_iff.symm

theorem inRange_zero : zero.InRange := by decide

theorem InRange.of_tally (h : (c.tally x).InRange) : c.InRange := by
  rw [inRange_iff] at h ⊢
  simp only [tally] at h
  omega

def plus (a b : Counters) : Counters where
  references := a.references + b.references
  firstMisses := a.firstMisses + b.firstMisses
  lastMisses := a.lastMisses + b.lastMisses
  firstWords := a.firstWords + b.firstWords
  lastWords := a.lastWords + b.lastWords

@[simp] theorem zero_plus (c : Counters) : zero.plus c = c := by
  simp [plus, zero]

@[simp] theorem plus_zero (c : Counters) : c.plus zero = c := by
  simp [plus, zero]

theorem tally_eq_plus (c : Counters) (x : Step) : c.tally x = c.plus (zero.tally x) := by
  simp [plus, tally, zero]

theorem plus_assoc (a b c : Counters) : (a.plus b).plus c = a.plus (b.plus c) := by
  simp [plus, Nat.add_assoc]

theorem plus_comm (a b : Counters) : a.plus b = b.plus a := by
  simp [plus, Nat.add_comm]

theorem InRange.of_plus (h : (a.plus b).InRange) : a.InRange ∧ b.InRange := by
  simp only [inRange_iff, plus] at h ⊢
  omega

theorem add_eq_ok : a.add b = .ok c ↔ a.plus b = c ∧ c.InRange := by
  simp only [add, except_bind_eq_ok, Checked.sum_eq_ok]
  constructor
  · intro h
    obtain ⟨_, ⟨rfl, h1⟩, _, ⟨rfl, h2⟩, _, ⟨rfl, h3⟩, _, ⟨rfl, h4⟩, _, ⟨rfl, h5⟩, hc⟩ := h
    cases hc
    exact ⟨rfl, h1, h2, h3, h4, h5⟩
  · intro h
    obtain ⟨rfl, h1, h2, h3, h4, h5⟩ := h
    exact ⟨_, ⟨rfl, h1⟩, _, ⟨rfl, h2⟩, _, ⟨rfl, h3⟩, _, ⟨rfl, h4⟩, _, ⟨rfl, h5⟩, rfl⟩

def checked (c : Counters) : Except Fault Counters :=
  if c.InRange then .ok c else .error .arithmeticOverflow

theorem checked_eq_ok : a.checked = .ok c ↔ a = c ∧ c.InRange := by
  unfold checked
  split_ifs with h
  · constructor
    · intro heq
      cases heq
      exact ⟨rfl, h⟩
    · rintro ⟨rfl, _⟩
      rfl
  · constructor
    · intro heq
      cases heq
    · rintro ⟨rfl, hin⟩
      exact absurd hin h

theorem eq_overflow_of_add {e : Fault} (h : a.add b = .error e) : e = .arithmeticOverflow := by
  have hsum : ∀ m n, Checked.sum m n = .error e → e = .arithmeticOverflow := by
    intro m n hmn
    unfold Checked.sum at hmn
    split_ifs at hmn
    exact (Except.error.inj hmn).symm
  simp only [add, except_bind_eq_error] at h
  rcases h with h | ⟨_, _, h | ⟨_, _, h | ⟨_, _, h | ⟨_, _, h | ⟨_, _, h⟩⟩⟩⟩⟩
  · exact hsum _ _ h
  · exact hsum _ _ h
  · exact hsum _ _ h
  · exact hsum _ _ h
  · exact hsum _ _ h
  · cases h

theorem add_eq_checked (a b : Counters) : a.add b = (a.plus b).checked := by
  cases hadd : a.add b with
  | ok c => exact (checked_eq_ok.mpr (add_eq_ok.mp hadd)).symm
  | error e =>
    have hout : ¬ (a.plus b).InRange := by
      intro hin
      cases hadd.symm.trans (add_eq_ok.mpr ⟨rfl, hin⟩)
    rw [checked, if_neg hout, eq_overflow_of_add hadd]

theorem checked_of_not (h : ¬ a.InRange) : a.checked = .error .arithmeticOverflow := if_neg h

theorem checked_eq_overflow : a.checked = .error .arithmeticOverflow ↔ ¬ a.InRange := by
  refine ⟨fun herror hin => ?_, checked_of_not⟩
  cases (checked_eq_ok.mpr ⟨rfl, hin⟩).symm.trans herror

/-- A part that leaves 64 bits does so in every sum. -/
theorem add_checked (a b : Counters) : (do a.add (← b.checked)) = (a.plus b).checked := by
  by_cases hb : b.InRange
  · rw [checked_eq_ok.mpr ⟨rfl, hb⟩]
    exact add_eq_checked a b
  · rw [checked_of_not hb, checked_of_not fun h => hb h.of_plus.2]
    rfl

theorem checked_add_checked (a b : Counters) :
    (do (← a.checked).add (← b.checked)) = (a.plus b).checked := by
  by_cases ha : a.InRange
  · rw [checked_eq_ok.mpr ⟨rfl, ha⟩]
    exact add_checked a b
  · rw [checked_of_not ha, checked_of_not fun h => ha h.of_plus.1]
    rfl

end Counters

namespace Stats

variable {s : Stats} {x : Step}

def InRange (s : Stats) : Prop := ∀ kind, (s.get kind).InRange

def tally (s : Stats) (x : Step) : Stats :=
  s.set x.reference.kind ((s.get x.reference.kind).tally x)

def tallyAll (s : Stats) (steps : List Step) : Stats := steps.foldl tally s

def startingAt (s : Stats) : Level → Counters
  | .i1 => s.fetch
  | .d1 => s.read.plus s.write
  | .ll => .zero

theorem startingAt_tally (s : Stats) (x : Step) (level : Level) : (s.tally x).startingAt level =
    if x.reference.kind.firstLevel = level then (s.startingAt level).tally x
    else s.startingAt level := by
  have hread : (s.read.tally x).plus s.write = (s.read.plus s.write).tally x := by
    rw [Counters.tally_eq_plus, Counters.plus_assoc, Counters.plus_comm _ s.write,
      ← Counters.plus_assoc, ← Counters.tally_eq_plus]
  have hwrite : s.read.plus (s.write.tally x) = (s.read.plus s.write).tally x := by
    rw [Counters.tally_eq_plus, ← Counters.plus_assoc, ← Counters.tally_eq_plus]
  cases hkind : x.reference.kind with
  | fetch => cases level <;> simp [tally, hkind, startingAt, get, set, AccessKind.firstLevel]
  | read => cases level <;> simp [tally, hkind, startingAt, get, set, AccessKind.firstLevel, hread]
  | write =>
    cases level <;> simp [tally, hkind, startingAt, get, set, AccessKind.firstLevel, hwrite]

theorem data_eq_checked (s : Stats) : s.data = (s.startingAt .d1).checked :=
  Counters.add_eq_checked s.read s.write

theorem total_eq_checked (s : Stats) :
    s.total = ((s.startingAt .i1).plus (s.startingAt .d1)).checked := by
  rw [total, data_eq_checked]
  exact Counters.add_checked s.fetch (s.startingAt .d1)

theorem inRange_zero : zero.InRange := by
  intro kind
  cases kind <;> exact Counters.inRange_zero

theorem inRange_tally (h : s.InRange) :
    (s.tally x).InRange ↔ ((s.get x.reference.kind).tally x).InRange := by
  constructor
  · intro hall
    have hkind := hall x.reference.kind
    rwa [tally, get_set_self] at hkind
  · intro hkind kind
    by_cases heq : kind = x.reference.kind
    · rw [heq, tally, get_set_self]
      exact hkind
    · rw [tally, get_set_of_ne s _ heq]
      exact h kind

theorem InRange.of_tally (h : (s.tally x).InRange) : s.InRange := by
  intro kind
  have hkind := h kind
  by_cases heq : kind = x.reference.kind
  · subst heq
    rw [tally, get_set_self] at hkind
    exact hkind.of_tally
  · rwa [tally, get_set_of_ne s _ heq] at hkind

theorem total_eq_ok {c : Counters} :
    s.total = .ok c ↔ s.fetch.plus (s.read.plus s.write) = c ∧ c.InRange := by
  rw [total_eq_checked]
  exact Counters.checked_eq_ok

end Stats

namespace Hierarchy

variable {h : Hierarchy} {r : Reference} {refs : List Reference}

/-- Where a reference is served: at the first level if that holds it, else at the last level if
that does. -/
def outcome (h : Hierarchy) (r : Reference) : Served :=
  if (h.get r.kind.firstLevel).hits r.toSpan then .firstLevel
  else if h.ll.hits r.toSpan then .lastLevel
  else .memory

def passedFirst (h : Hierarchy) (r : Reference) : Hierarchy :=
  h.set r.kind.firstLevel ((h.get r.kind.firstLevel).accessed r.toSpan)

/-- The caches after a reference: the last level makes it only after a miss. -/
def passed (h : Hierarchy) (r : Reference) : Hierarchy :=
  if (h.get r.kind.firstLevel).hits r.toSpan then h.passedFirst r
  else (h.passedFirst r).set .ll (h.ll.accessed r.toSpan)

def step (h : Hierarchy) (r : Reference) : Step := ⟨r, h.outcome r, h.passed r⟩

/-- The step in which a first level answers `hit` and becomes `first`, and the last level, if it is
asked, answers `hit'` and becomes `last`. -/
def stepOf (h : Hierarchy) (r : Reference) (hit hit' : Bool) (first last : Cache) : Step where
  reference := r
  served := if hit then .firstLevel else if hit' then .lastLevel else .memory
  caches := if hit then h.set r.kind.firstLevel first
    else (h.set r.kind.firstLevel first).set .ll last

def steps (h : Hierarchy) : List Reference → List Step
  | [] => []
  | r :: rest => h.step r :: (h.passed r).steps rest

def after (h : Hierarchy) (steps : List Step) : Hierarchy := steps.foldl (fun _ x => x.caches) h

theorem step_eq_stepOf (h : Hierarchy) (r : Reference) : h.step r =
    h.stepOf r ((h.get r.kind.firstLevel).hits r.toSpan) (h.ll.hits r.toSpan)
      ((h.get r.kind.firstLevel).accessed r.toSpan) (h.ll.accessed r.toSpan) := rfl

theorem steps_append (h : Hierarchy) (refs rest : List Reference) :
    h.steps (refs ++ rest) = h.steps refs ++ (h.after (h.steps refs)).steps rest := by
  induction refs generalizing h with
  | nil => rfl
  | cons r refs ih =>
    rw [List.cons_append, steps, ih, steps, List.cons_append]
    rfl

theorem after_append (h : Hierarchy) (steps later : List Step) :
    h.after (steps ++ later) = (h.after steps).after later := List.foldl_append

theorem map_reference_steps : (h.steps refs).map Step.reference = refs := by
  induction refs generalizing h with
  | nil => rfl
  | cons r refs ih => rw [steps, List.map_cons, ih, step]

theorem take_steps (n : Nat) : (h.steps refs).take n = h.steps (refs.take n) := by
  induction refs generalizing h n with
  | nil => simp [steps]
  | cons r refs ih =>
    cases n with
    | zero => rfl
    | succ n => rw [steps, List.take_succ_cons, List.take_succ_cons, steps, ih]

theorem firstLevel_ne_ll (kind : AccessKind) : kind.firstLevel ≠ .ll := by
  cases kind <;> decide

theorem isFirstMiss_outcome :
    (h.outcome r).isFirstMiss = !(h.get r.kind.firstLevel).hits r.toSpan := by
  unfold outcome
  cases (h.get r.kind.firstLevel).hits r.toSpan with
  | true => rfl
  | false => cases h.ll.hits r.toSpan <;> rfl

theorem hits_first_eq :
    (h.get r.kind.firstLevel).hits r.toSpan = decide (h.outcome r = .firstLevel) := by
  unfold outcome
  cases (h.get r.kind.firstLevel).hits r.toSpan with
  | true => rfl
  | false => cases h.ll.hits r.toSpan <;> rfl

theorem hits_last_eq (hmiss : (h.outcome r).isFirstMiss = true) :
    h.ll.hits r.toSpan = decide (h.outcome r = .lastLevel) := by
  rw [isFirstMiss_outcome, Bool.not_eq_true'] at hmiss
  unfold outcome
  rw [hmiss]
  cases h.ll.hits r.toSpan <;> rfl

theorem ll_set_firstLevel (h : Hierarchy) (kind : AccessKind) (c : Cache) :
    (h.set kind.firstLevel c).ll = h.ll :=
  Levels.get_set_of_ne h c (firstLevel_ne_ll kind).symm

theorem get_firstLevel_passed :
    (h.passed r).get r.kind.firstLevel = (h.get r.kind.firstLevel).accessed r.toSpan := by
  unfold passed
  split
  · exact Levels.get_set_self _ _ _
  · rw [Levels.get_set_of_ne _ _ (firstLevel_ne_ll r.kind), passedFirst, Levels.get_set_self]

theorem get_passed_of_ne {level : Level} (hfirst : level ≠ r.kind.firstLevel) (hlast : level ≠ .ll) :
    (h.passed r).get level = h.get level := by
  unfold passed
  split
  · exact Levels.get_set_of_ne _ _ hfirst
  · rw [Levels.get_set_of_ne _ _ hlast, passedFirst, Levels.get_set_of_ne _ _ hfirst]

theorem ll_passed : (h.passed r).ll =
    if (h.outcome r).isFirstMiss then h.ll.accessed r.toSpan else h.ll := by
  rw [isFirstMiss_outcome]
  unfold passed
  cases (h.get r.kind.firstLevel).hits r.toSpan with
  | true => exact ll_set_firstLevel h r.kind _
  | false => rfl

def Reaches (h : Hierarchy) (r : Reference) (level : Level) : Prop :=
  level = r.kind.firstLevel ∨ level = .ll ∧ (h.outcome r).isFirstMiss = true

instance (h : Hierarchy) (r : Reference) (level : Level) : Decidable (h.Reaches r level) := by
  unfold Reaches
  infer_instance

/-- Each cache makes the references that come to it, and no others. -/
theorem get_passed (h : Hierarchy) (r : Reference) (level : Level) : (h.passed r).get level =
    if h.Reaches r level then (h.get level).accessed r.toSpan else h.get level := by
  by_cases hfirst : level = r.kind.firstLevel
  · subst hfirst
    have hreaches : h.Reaches r r.kind.firstLevel := Or.inl rfl
    rw [if_pos hreaches, get_firstLevel_passed]
  · by_cases hlast : level = .ll
    · subst hlast
      have hreaches : h.Reaches r .ll ↔ (h.outcome r).isFirstMiss = true := by
        simp [Reaches, hfirst]
      simp only [hreaches]
      exact ll_passed
    · have hreaches : ¬ h.Reaches r level := by simp [Reaches, hfirst, hlast]
      rw [if_neg hreaches, get_passed_of_ne hfirst hlast]

end Hierarchy

end CacheUsage
