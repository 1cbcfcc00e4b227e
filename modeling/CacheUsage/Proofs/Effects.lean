namespace CacheUsage

theorem bind_eq_of_ok {ε σ α β : Type} {x : EStateM ε σ α} {f : α → EStateM ε σ β} {s s' : σ}
    {a : α} (h : x s = .ok a s') : (x >>= f) s = f a s' := by
  change EStateM.bind x f s = f a s'
  rw [EStateM.bind, h]

theorem bind_eq_of_error {ε σ α β : Type} {x : EStateM ε σ α} {f : α → EStateM ε σ β} {s s' : σ}
    {e : ε} (h : x s = .error e s') : (x >>= f) s = .error e s' := by
  change EStateM.bind x f s = _
  rw [EStateM.bind, h]

theorem bind_congr_run {ε σ α β : Type} {x y : EStateM ε σ α} {f : α → EStateM ε σ β} {s s' : σ}
    (h : x s = y s') : (x >>= f) s = (y >>= f) s' := by
  change EStateM.bind x f s = EStateM.bind y f s'
  rw [EStateM.bind, EStateM.bind, h]

theorem except_bind_eq_ok {ε α β : Type} {x : Except ε α} {f : α → Except ε β} {b : β} :
    (x >>= f) = .ok b ↔ ∃ a, x = .ok a ∧ f a = .ok b := by
  cases x with
  | error e =>
    constructor
    · intro h
      cases h
    · intro h
      obtain ⟨a, ha, _⟩ := h
      cases ha
  | ok a => exact ⟨fun h => ⟨a, rfl, h⟩, fun ⟨_, ha, h⟩ => Except.ok.inj ha ▸ h⟩

theorem except_bind_eq_error {ε α β : Type} {x : Except ε α} {f : α → Except ε β} {e : ε} :
    (x >>= f) = .error e ↔ x = .error e ∨ ∃ a, x = .ok a ∧ f a = .error e := by
  cases x with
  | error e' => simp [bind, Except.bind]
  | ok a => simp [bind, Except.bind]

theorem except_bind_congr {ε α β : Type} {x : Except ε α} {f g : α → Except ε β}
    (h : ∀ a, x = .ok a → f a = g a) : (x >>= f) = (x >>= g) := by
  cases x with
  | error e => rfl
  | ok a => exact h a rfl

theorem except_map_eq_ok {ε α β : Type} {x : Except ε α} {f : α → β} {b : β} :
    f <$> x = .ok b ↔ ∃ a, x = .ok a ∧ f a = b := by
  cases x <;> simp [Functor.map, Except.map]

section Causes

variable {ε α : Type} {x : Except ε α} {cause : ε → Prop}

/-- Where each cause makes a computation fail, and there is a result or a cause, it fails for the
causes and for nothing else. -/
theorem except_eq_error_iff_of_cause {e : ε} (hfail : ∀ e, cause e → x = .error e)
    (hall : (∃ a, x = .ok a) ∨ ∃ e, cause e) : x = .error e ↔ cause e := by
  refine ⟨fun h => ?_, hfail e⟩
  rcases hall with ⟨a, hok⟩ | ⟨e', he'⟩
  · cases h.symm.trans hok
  · exact Except.error.inj ((hfail e' he').symm.trans h) ▸ he'

theorem exists_except_eq_ok_iff_of_cause (hfail : ∀ e, cause e → x = .error e)
    (hall : (∃ a, x = .ok a) ∨ ∃ e, cause e) : (∃ a, x = .ok a) ↔ ∀ e, ¬ cause e := by
  constructor
  · intro h e he
    obtain ⟨a, hok⟩ := h
    cases hok.symm.trans (hfail e he)
  · exact fun hnone => hall.resolve_right fun h => h.elim hnone

end Causes

def residue {ε σ α : Type} : EStateM.Result ε σ α → σ
  | .ok _ s => s
  | .error _ s => s

def answer {ε σ α : Type} : EStateM.Result ε σ α → Except ε α
  | .ok a _ => .ok a
  | .error e _ => .error e

def shown {ε σ τ α : Type} (f : σ → τ) : EStateM.Result ε σ α → EStateM.Result ε τ α
  | .ok a s => .ok a (f s)
  | .error e s => .error e (f s)

theorem residue_shown {ε σ τ α : Type} (f : σ → τ) (x : EStateM.Result ε σ α) :
    residue (shown f x) = f (residue x) := by
  cases x <;> rfl

/-- An operation keeps a property of the state, also where it fails. -/
def Maintains {ε σ α : Type} (P : σ → Prop) (x : EStateM ε σ α) : Prop :=
  ∀ s, P s → P (residue (x s))

namespace Maintains

variable {ε σ α β : Type} {P : σ → Prop} {x : EStateM ε σ α} {f : α → EStateM ε σ β}

theorem pure (a : α) : Maintains P (pure a : EStateM ε σ α) := fun _ hs => hs

theorem throw (e : ε) : Maintains P (throw e : EStateM ε σ α) := fun _ hs => hs

theorem bind (hx : Maintains P x) (hf : ∀ a, Maintains P (f a)) : Maintains P (x >>= f) := by
  intro s hs
  have hstate := hx s hs
  cases hresult : x s with
  | ok a s' =>
    rw [hresult] at hstate
    rw [bind_eq_of_ok hresult]
    exact hf a s' hstate
  | error e s' =>
    rw [hresult] at hstate
    rw [bind_eq_of_error hresult]
    exact hstate

end Maintains

/-- An operation has a result, unless it fails with `e` since the result would be out of bounds. The
bounds hold before the operation if they hold after it. -/
structure Yields {ε σ α : Type} (bounds : σ → Prop) (e : ε) (x : EStateM ε σ α) (s : σ) (a : α)
    (s' : σ) : Prop where
  before : bounds s' → bounds s
  run : x s = .ok a s' ∧ (bounds s → bounds s') ∨ ∃ t, x s = .error e t ∧ ¬ bounds s'

namespace Yields

variable {ε σ α β : Type} {bounds : σ → Prop} {e : ε} {x : EStateM ε σ α}
  {f : α → EStateM ε σ β} {s s' s'' : σ} {a : α} {b : β}

theorem of_ok (h : x s = .ok a s') (hbounds : bounds s ↔ bounds s') : Yields bounds e x s a s' :=
  ⟨hbounds.mpr, Or.inl ⟨h, hbounds.mp⟩⟩

theorem bind (hx : Yields bounds e x s a s') (hf : Yields bounds e (f a) s' b s'') :
    Yields bounds e (x >>= f) s b s'' := by
  refine ⟨fun h => hx.before (hf.before h), ?_⟩
  rcases hx.run with ⟨hok, hkeep⟩ | ⟨t, herror, hout⟩
  · rw [bind_eq_of_ok hok]
    exact hf.run.imp_left fun h => ⟨h.1, fun hs => h.2 (hkeep hs)⟩
  · exact Or.inr ⟨t, bind_eq_of_error herror, fun h => hout (hf.before h)⟩

theorem eq_ok (h : Yields bounds e x s a s') (hbounds : bounds s') : x s = .ok a s' := by
  rcases h.run with ⟨hok, _⟩ | ⟨t, _, hout⟩
  · exact hok
  · exact absurd hbounds hout

theorem eq_of_ok {a' : α} {t : σ} (h : Yields bounds e x s a s') (hok : x s = .ok a' t) :
    a' = a ∧ t = s' := by
  rcases h.run with ⟨hrun, _⟩ | ⟨t', herror, _⟩
  · exact EStateM.Result.ok.inj (hok.symm.trans hrun)
  · cases hok.symm.trans herror

theorem eq_error (h : Yields bounds e x s a s') (hbefore : bounds s) (hbounds : ¬ bounds s') :
    ∃ t, x s = .error e t := by
  rcases h.run with ⟨_, hkeep⟩ | ⟨t, herror, _⟩
  · exact absurd (hkeep hbefore) hbounds
  · exact ⟨t, herror⟩

end Yields

end CacheUsage
