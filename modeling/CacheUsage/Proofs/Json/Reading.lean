import CacheUsage.Json.Text

namespace CacheUsage.Json

def Blank (b : List Char) : Prop := ∀ c ∈ b, isBlank c = true

instance (b : List Char) : Decidable (Blank b) :=
  List.decidableBAll (isBlank · = true) b

/-- No part of a number comes next. -/
def EndsNumber (s : List Char) : Prop :=
  ∀ c ∈ s.head?, c.isDigit = false ∧ c ≠ '.' ∧ c ≠ 'e' ∧ c ≠ 'E'

theorem blank_nil : Blank [] := fun _ hc => absurd hc List.not_mem_nil

theorem endsNumber_nil : EndsNumber [] := by
  intro c hc
  cases hc

theorem endsNumber_cons {c : Char} (s : List Char)
    (hc : c.isDigit = false ∧ c ≠ '.' ∧ c ≠ 'e' ∧ c ≠ 'E') : EndsNumber (c :: s) := by
  intro d hd
  cases hd
  exact hc

theorem isBlank_iff {c : Char} :
    isBlank c = true ↔ ((c = ' ' ∨ c = '\t') ∨ c = '\n') ∨ c = '\r' := by
  simp [isBlank]

theorem Blank.endsNumber_append {b s : List Char} (hb : Blank b) (hs : EndsNumber s) :
    EndsNumber (b ++ s) := by
  cases b with
  | nil => exact hs
  | cons c b =>
    refine endsNumber_cons _ ?_
    rcases isBlank_iff.mp (hb c List.mem_cons_self) with ((rfl | rfl) | rfl) | rfl <;> decide

theorem Blank.endsNumber {b : List Char} (hb : Blank b) : EndsNumber b := by
  simpa using hb.endsNumber_append endsNumber_nil

namespace Reader

variable {α β σ : Type} {r : Reader α} {f : α → Reader β} {a : α} {b s t : List Char} {c : Char}

theorem run_bind (h : r s = .ok (a, t)) : (r >>= f) s = f a t := by
  change (r s >>= fun p => f p.1 p.2) = _
  rw [h]
  rfl

/-- The reader takes a text off, with the blanks before it, unless the text could be the start of a
longer number. -/
def Reads (r : Reader α) (text : List Char) (a : α) : Prop :=
  ∀ b rest, Blank b → EndsNumber rest → r (b ++ (text ++ rest)) = .ok (a, rest)

theorem Reads.map (h : Reads r t a) (g : α → β) : Reads (g <$> r) t (g a) := by
  intro b rest hb hrest
  change (r (b ++ (t ++ rest)) >>= fun p => _) = _
  rw [h b rest hb hrest]
  rfl

theorem Reads.readAll_eq {before value after : List Char} {text : String} (h : Reads r value a)
    (hbefore : Blank before) (hafter : Blank after)
    (htext : text.toList = before ++ (value ++ after)) : r.readAll text = .ok a := by
  have hread := h before after hbefore hafter.endsNumber
  have hblank : after.all isBlank = true := List.all_eq_true.mpr hafter
  rw [readAll, htext, hread]
  exact if_pos hblank

theorem dropWhile_isBlank (hb : Blank b) (hc : isBlank c = false) :
    (b ++ c :: s).dropWhile isBlank = c :: s := by
  rw [List.dropWhile_append_of_pos hb]
  simp [hc]

theorem peekToken_eq (hb : Blank b) (hc : isBlank c = false) :
    peekToken (b ++ c :: s) = .ok (c, c :: s) := by
  have hblanks : blanks (b ++ c :: s) = .ok ((), c :: s) := by
    rw [blanks, dropWhile_isBlank hb hc]
  rw [peekToken, run_bind hblanks]
  rfl

theorem token_eq (hb : Blank b) (hc : isBlank c = false) :
    token c (b ++ c :: s) = .ok ((), s) := by
  have hblanks : blanks (b ++ c :: s) = .ok ((), c :: s) := by
    rw [blanks, dropWhile_isBlank hb hc]
  have hexactly : exactly c (c :: s) = .ok ((), s) := by
    have hnext : next (c :: s) = .ok (c, s) := rfl
    rw [exactly, run_bind hnext, if_pos rfl]
    rfl
  rw [token, run_bind hblanks, hexactly]

variable {step : σ → Reader (σ ⊕ α)} {x : σ}

/-- Steps from a state on a text up to one that finishes, each of which takes a character. -/
inductive Runs (step : σ → Reader (σ ⊕ α)) (a : α) (rest : List Char) : σ → List Char → Prop where
  | finish {x : σ} {s : List Char} : step x s = .ok (.inr a, rest) → Runs step a rest x s
  | advance {x y : σ} {s t : List Char} : step x s = .ok (.inl y, t) → t.length < s.length →
      Runs step a rest y t → Runs step a rest x s

theorem Runs.iterateFor_eq_ok (h : Runs step a t x s) {n : Nat} (hn : s.length < n) :
    iterateFor step n x s = .ok (a, t) := by
  induction h generalizing n with
  | finish hstep =>
    obtain ⟨m, rfl⟩ := Nat.exists_eq_add_of_lt hn
    rw [iterateFor, run_bind hstep]
    rfl
  | advance hstep hshort _ ih =>
    obtain ⟨m, rfl⟩ := Nat.exists_eq_add_of_lt hn
    rw [iterateFor, run_bind hstep]
    exact ih (by omega)

theorem Runs.iterate_eq_ok (h : Runs step a t x s) : iterate step x s = .ok (a, t) :=
  h.iterateFor_eq_ok (Nat.lt_succ_self _)

end Reader

inductive HexUnit : List Char → Nat → Prop where
  | intro {a b c d : Char} {p q r s : Nat} : hexDigit? a = some p → hexDigit? b = some q →
      hexDigit? c = some r → hexDigit? d = some s →
      HexUnit [a, b, c, d] (((p * 16 + q) * 16 + r) * 16 + s)

def isPlain (c : Char) : Bool := c ≠ '"' && c ≠ '\\' && 0x20 ≤ c.toNat

/-- The characters between the quotes of a string, and those that they stand for. -/
inductive Spells : List Char → List Char → Prop where
  | nil : Spells [] []
  | plain {c : Char} {raw cs : List Char} : isPlain c = true → Spells raw cs →
      Spells (c :: raw) (c :: cs)
  | escaped {e c : Char} {raw cs : List Char} : escapedChar? e = some c → Spells raw cs →
      Spells ('\\' :: e :: raw) (c :: cs)
  | unit {hex raw cs : List Char} {n : Nat} : HexUnit hex n → isHighSurrogate n = false →
      isLowSurrogate n = false → Spells raw cs →
      Spells ('\\' :: 'u' :: (hex ++ raw)) (Char.ofNat n :: cs)
  | pair {hex hex' raw cs : List Char} {high low : Nat} : HexUnit hex high → HexUnit hex' low →
      isHighSurrogate high = true → isLowSurrogate low = true → Spells raw cs →
      Spells ('\\' :: 'u' :: (hex ++ '\\' :: 'u' :: (hex' ++ raw))) (ofSurrogates high low :: cs)

theorem spells_self {cs : List Char} (h : cs.all isPlain = true) : Spells cs cs := by
  induction cs with
  | nil => exact .nil
  | cons c cs ih =>
    rw [List.all_cons, Bool.and_eq_true] at h
    exact .plain h.1 (ih h.2)

section Strings

variable {c e : Char} {cs hex raw s t : List Char} {d d' : Draft} {n : Nat} {p : Piece}

theorem hexUnit_eq (h : HexUnit hex n) : hexUnit (hex ++ s) = .ok (n, s) := by
  cases h with
  | intro ha hb hc hd =>
    simp [hexUnit, ha, hb, hc, hd]

theorem piece_plain (hc : isPlain c = true) : piece (c :: s) = .ok (.char c, s) := by
  have hnext : Reader.next (c :: s) = .ok (c, s) := rfl
  simp only [isPlain, Bool.and_eq_true, decide_eq_true_eq] at hc
  obtain ⟨⟨hquote, hescape⟩, hlow⟩ := hc
  have hprint : ¬ c.toNat < 0x20 := by omega
  rw [piece, Reader.run_bind hnext]
  simp only [hquote, hescape, hprint, ↓reduceIte]
  rfl

theorem piece_escaped (h : escapedChar? e = some c) :
    piece ('\\' :: e :: s) = .ok (.char c, s) := by
  have hnext : Reader.next ('\\' :: e :: s) = .ok ('\\', e :: s) := rfl
  have hnext' : Reader.next (e :: s) = .ok (e, s) := rfl
  have hunit : e ≠ 'u' := by
    rintro rfl
    cases h
  rw [piece, Reader.run_bind hnext, if_neg (by decide), if_pos rfl, Reader.run_bind hnext']
  simp only [hunit, ↓reduceIte, h]
  rfl

theorem piece_unit (h : HexUnit hex n) :
    piece ('\\' :: 'u' :: (hex ++ s)) = .ok (.unit n, s) := by
  have hnext : Reader.next ('\\' :: 'u' :: (hex ++ s)) = .ok ('\\', 'u' :: (hex ++ s)) := rfl
  have hnext' : Reader.next ('u' :: (hex ++ s)) = .ok ('u', hex ++ s) := rfl
  rw [piece, Reader.run_bind hnext, if_neg (by decide), if_pos rfl, Reader.run_bind hnext',
    if_pos rfl, Reader.run_bind (hexUnit_eq h)]
  rfl

theorem runs_textStep_cons {a : String} {rest : List Char} (hpiece : piece s = .ok (p, t))
    (hadd : d.add p = some d') (hshort : t.length < s.length)
    (hrest : Reader.Runs textStep a rest d' t) : Reader.Runs textStep a rest d s := by
  have hp : p ≠ .quote := by
    rintro rfl
    cases hadd
  refine .advance ?_ hshort hrest
  rw [textStep, Reader.run_bind hpiece, if_neg fun h => hp h.1, hadd]
  rfl

theorem draft_add_unit (hhigh : isHighSurrogate n = false) (hlow : isLowSurrogate n = false) :
    Draft.add ⟨cs, none⟩ (.unit n) = some ⟨Char.ofNat n :: cs, none⟩ := by
  simp [Draft.add, hhigh, hlow]

theorem draft_add_high (hhigh : isHighSurrogate n = true) :
    Draft.add ⟨cs, none⟩ (.unit n) = some ⟨cs, some n⟩ := if_pos hhigh

theorem draft_add_low {high : Nat} (hlow : isLowSurrogate n = true) :
    Draft.add ⟨cs, some high⟩ (.unit n) = some ⟨ofSurrogates high n :: cs, none⟩ := if_pos hlow

theorem runs_textStep (h : Spells raw cs) (done : List Char) :
    Reader.Runs textStep (String.ofList (done.reverse ++ cs)) s ⟨done, none⟩ (raw ++ '"' :: s) := by
  -- The induction is on the spelling. Between two characters no surrogate waits.
  induction h generalizing done with
  | nil =>
    rw [List.append_nil]
    exact .finish rfl
  | plain hc _ ih =>
    rw [List.append_cons, ← List.reverse_cons]
    exact runs_textStep_cons (piece_plain hc) rfl (Nat.lt_succ_self _) (ih _)
  | escaped he _ ih =>
    rw [List.append_cons, ← List.reverse_cons]
    exact runs_textStep_cons (piece_escaped he) rfl (by simp +arith) (ih _)
  | unit hhex hhigh hlow _ ih =>
    rw [List.append_cons, ← List.reverse_cons]
    simp only [List.cons_append, List.append_assoc]
    exact runs_textStep_cons (piece_unit hhex) (draft_add_unit hhigh hlow) (by simp +arith) (ih _)
  | pair hhex hhex' hhigh hlow _ ih =>
    rw [List.append_cons, ← List.reverse_cons]
    simp only [List.cons_append, List.append_assoc]
    refine runs_textStep_cons (piece_unit hhex) (draft_add_high hhigh) (by simp +arith) ?_
    exact runs_textStep_cons (piece_unit hhex') (draft_add_low hlow) (by simp +arith) (ih _)

theorem text_eq (h : Spells raw cs) : text (raw ++ '"' :: s) = .ok (String.ofList cs, s) :=
  (runs_textStep h []).iterate_eq_ok

end Strings

end CacheUsage.Json
