import CacheUsage.Proofs.Operations

namespace CacheUsage

variable {g : Geometry} {s : Span}

namespace Geometry

/-- What a cache objects to in a span: that it is too wide, that it ends neither in the block where it
starts nor in the next one, or that words cannot be marked in lines of this size. -/
inductive Objection (g : Geometry) (s : Span) : Fault → Prop where
  | width : maxReferenceBytes < s.size → Objection g s (.precondition (.width s.size))
  | distance : s.size ≤ maxReferenceBytes → g.block s.last ≠ g.block s.addr →
      g.block s.last ≠ g.block s.addr + 1 →
      Objection g s (.shape (.beyondNextLine s (g.block s.addr) (g.block s.last)))
  | line : s.size ≤ maxReferenceBytes →
      (g.block s.last = g.block s.addr ∨ g.block s.last = g.block s.addr + 1) →
      ¬ (g.lineBytes.toNat.isPowerOfTwo ∧ g.lineBytes.toNat ≤ 256) →
      Objection g s (.precondition .line)

theorem exists_coverage (hline : UsableLine g.lineBytes) (addr len : UInt64)
    (hlen : len.toNat ≤ 255) : ∃ c, coverage addr len g.lineBytes = .ok c ∧
      c.excess = addr.toNat % g.lineBytes.toNat + len.toNat - g.lineBytes.toNat := by
  have hoff := Nat.mod_lt addr.toNat hline.pos
  have hmost : g.lineBytes.toNat ≤ 256 := hline.2
  have hsum : addr.toNat % g.lineBytes.toNat + len.toNat < Checked.limit := by
    rw [Checked.limit]
    omega
  obtain ⟨c, hc, hexcess, _⟩ := coverage_eq_ok hline hsum
  exact ⟨c, hc, hexcess⟩

theorem exists_touches (hline : UsableLine g.lineBytes) (hsize : s.size ≤ maxReferenceBytes)
    (hnear : g.block s.last = g.block s.addr ∨ g.block s.last = g.block s.addr + 1) :
    ∃ ts, g.touches s = .ok ts := by
  have hwide : ¬ maxReferenceBytes < s.size := UInt8.not_lt.mpr hsize
  have hbytes := s.size.toNat_lt
  have hoff := Nat.mod_lt s.addr.toNat hline.pos
  have hlen : s.size.toUInt64.toNat = s.size.toNat := by simp
  have hone := hline.block_eq_last_iff s
  obtain ⟨here, hhere, hexcess⟩ := exists_coverage hline s.addr s.size.toUInt64 (by omega)
  rw [hlen] at hexcess
  by_cases hsame : g.block s.addr = g.block s.last
  · have hin := hone.mp hsame
    refine ⟨[⟨g.block s.addr, here.words⟩], ?_⟩
    simp only [touches, if_neg hwide, if_pos hsame, hhere]
    exact if_pos (by omega)
  · have hout := mt hone.mpr hsame
    have hnext : g.block s.addr + 1 = g.block s.last :=
      (hnear.resolve_left fun heq => hsame heq.symm).symm
    have hrest : here.excess.toUInt64.toNat ≤ 255 := by
      rw [Nat.toUInt64_eq, UInt64.toNat_ofNat']
      omega
    obtain ⟨next, hover, _⟩ := exists_coverage hline (g.blockStart (g.block s.last)) _ hrest
    refine ⟨[⟨g.block s.addr, here.words⟩, ⟨g.block s.last, next.words⟩], ?_⟩
    simp only [touches, if_neg hwide, if_neg hsame, if_pos hnext, hhere]
    change (if here.excess = 0 then _ else _) = _
    rw [if_neg (by omega), hover]
    rfl

theorem Objection.touches_eq {fault : Fault} (h : g.Objection s fault) :
    g.touches s = .error fault := by
  cases h with
  | width hwide => exact touches_of_wide hwide
  | distance hsize hsame hnext =>
    simp only [touches, if_neg (UInt8.not_lt.mpr hsize), if_neg (Ne.symm hsame),
      if_neg (Ne.symm hnext)]
  | line hsize hnear hline =>
    have hcoverage : ∀ addr len, coverage addr len g.lineBytes = .error (.precondition .line) :=
      fun _ _ => if_pos hline
    simp only [touches, if_neg (UInt8.not_lt.mpr hsize), hcoverage]
    split_ifs with hsame hnext
    · rfl
    · rfl
    · rcases hnear with heq | heq
      · exact absurd heq.symm hsame
      · exact absurd heq.symm hnext

theorem exists_touches_or_objection (g : Geometry) (s : Span) :
    (∃ ts, g.touches s = .ok ts) ∨ ∃ fault, g.Objection s fault := by
  by_cases hwide : maxReferenceBytes < s.size
  · exact Or.inr ⟨_, .width hwide⟩
  have hsize : s.size ≤ maxReferenceBytes := UInt8.not_lt.mp hwide
  by_cases hnear : g.block s.last = g.block s.addr ∨ g.block s.last = g.block s.addr + 1
  · by_cases hline : UsableLine g.lineBytes
    · exact Or.inl (exists_touches hline hsize hnear)
    · exact Or.inr ⟨_, .line hsize hnear hline⟩
  · rw [not_or] at hnear
    exact Or.inr ⟨_, .distance hsize hnear.1 hnear.2⟩

theorem touches_eq_error_iff {fault : Fault} :
    g.touches s = .error fault ↔ g.Objection s fault :=
  except_eq_error_iff_of_cause (fun _ => Objection.touches_eq) (exists_touches_or_objection g s)

end Geometry

namespace Cache

variable {new c : Cache}

/-- A cache fails on a span for an objection to it and for no other cause, and is then as before. -/
structure Responds (g : Geometry) (c : Cache) (s : Span) : Prop where
  error_iff : ∀ fault d, access s c = .error fault d ↔ g.Objection s fault ∧ d = c
  ok_iff : (∃ hit d, access s c = .ok hit d) ↔ ∀ fault, ¬ g.Objection s fault
  wide : maxReferenceBytes < s.size → ∃ broken, access s c = .error (.precondition broken) c ∧
    broken.message = s!"reference of {s.size} bytes"
  agreement : ∀ fault d, access s c = .error fault d → ∀ span,
    (∀ excess, fault ≠ .shape (.pastOnlyLine span excess)) ∧ fault ≠ .shape (.shortOfNextLine span)

theorem Kept.access_eq_error_iff (h : Kept new c) {fault : Fault} {d : Cache} :
    Cache.access s c = .error fault d ↔ c.geometry.Objection s fault ∧ d = c := by
  rw [h.access_eq, ← Geometry.touches_eq_error_iff]
  cases c.geometry.touches s with
  | ok ts => simp
  | error cause => simp [eq_comm]

theorem responds_of_reachable (hnew : empty g = .ok new)
    (hroom : new.slots.length * 64 + 64 < Checked.limit) (h : Reachable new c) (s : Span) :
    Responds g c s := by
  have hkept := h.kept (kept_of_empty hnew hroom)
  have hgeometry : c.geometry = g := hkept.geometry.trans (geometry_of_empty hnew)
  have herror : ∀ fault d, access s c = .error fault d ↔ g.Objection s fault ∧ d = c := by
    intro fault d
    rw [hkept.access_eq_error_iff, hgeometry]
  refine ⟨herror, ?_, ?_, ?_⟩
  · constructor
    · intro hok fault hobjection
      obtain ⟨hit, d, hok⟩ := hok
      cases hok.symm.trans ((herror fault c).mpr ⟨hobjection, rfl⟩)
    · intro hnone
      cases hresult : access s c with
      | ok hit d => exact ⟨hit, d, rfl⟩
      | error fault d => exact absurd ((herror fault d).mp hresult).1 (hnone fault)
  · intro hwide
    exact ⟨_, (herror _ c).mpr ⟨.width hwide, rfl⟩, rfl⟩
  · intro fault d hfail span
    cases ((herror fault d).mp hfail).1 with
    | width => exact ⟨fun _ => by simp, by simp⟩
    | distance => exact ⟨fun _ => by simp, by simp⟩
    | line => exact ⟨fun _ => by simp, by simp⟩

theorem responds_of_reachable_around :
    ∃ new, empty ⟨6, 2, 1⟩ = .ok new ∧ new.slots.length * 64 + 64 < Checked.limit ∧
      Reachable new (residue (access ⟨0xFFFFFFFFFFFFFFFF, 1⟩ new)) ∧
      Responds ⟨6, 2, 1⟩ (residue (access ⟨0xFFFFFFFFFFFFFFFF, 1⟩ new)) ⟨0xFFFFFFFFFFFFFFFF, 2⟩ ∧
      ∃ d, access ⟨0xFFFFFFFFFFFFFFFF, 2⟩ (residue (access ⟨0xFFFFFFFFFFFFFFFF, 1⟩ new)) =
        .ok false d := by
  -- In lines of one byte the last block bears the mark of a vacant slot, and two bytes go on from
  -- there to block 0.
  have hnew : empty ⟨6, 2, 1⟩ = .ok (blank ⟨6, 2, 1⟩ 3) := rfl
  have hroom : (blank ⟨6, 2, 1⟩ 3).slots.length * 64 + 64 < Checked.limit := by decide
  have hreach : Reachable (blank ⟨6, 2, 1⟩ 3)
      (residue (access ⟨0xFFFFFFFFFFFFFFFF, 1⟩ (blank ⟨6, 2, 1⟩ 3))) := .access _ .start
  exact ⟨_, hnew, hroom, hreach, responds_of_reachable hnew hroom hreach _, _, rfl⟩

end Cache

end CacheUsage
