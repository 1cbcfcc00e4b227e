import CacheUsage.Json.Value
import CacheUsage.Proofs.Json.Reading

namespace CacheUsage.Json

def decimal (n : Nat) : List Char := Nat.toDigits 10 n

theorem isDigit_of_mem_decimal {n : Nat} {c : Char} (hc : c ∈ decimal n) : c.isDigit = true :=
  Nat.isDigit_of_mem_toDigits (by omega) (Nat.le_refl 10) hc

theorem decimal_ne_nil (n : Nat) : decimal n ≠ [] := Nat.toDigits_ne_nil

theorem exists_decimal_eq_cons (n : Nat) : ∃ d ds, decimal n = d :: ds ∧ d.isDigit = true := by
  obtain ⟨d, ds, h⟩ := List.exists_cons_of_ne_nil (decimal_ne_nil n)
  exact ⟨d, ds, h, isDigit_of_mem_decimal (h ▸ List.mem_cons_self)⟩

theorem head?_decimal_ne_zero {n : Nat} (hn : 0 < n) : (decimal n).head? ≠ some '0' := by
  induction n using Nat.strongRecOn with
  | ind n ih =>
    rw [decimal, Nat.toDigits_eq_if (by omega)]
    split
    next hsmall =>
      have hdigit : ∀ d < 10, 0 < d → d.digitChar ≠ '0' := by decide
      simpa using hdigit n hsmall hn
    next =>
      have hhead := ih (n / 10) (by omega) (by omega)
      obtain ⟨d, ds, hd, _⟩ := exists_decimal_eq_cons (n / 10)
      rw [hd] at hhead
      rw [← decimal, hd]
      exact hhead

theorem length_decimal_of_head? {n : Nat} (h : (decimal n).head? = some '0') :
    (decimal n).length = 1 := by
  rcases Nat.eq_zero_or_pos n with rfl | hn
  · rfl
  · exact absurd h (head?_decimal_ne_zero hn)

theorem isBlank_eq_false_of_isDigit {c : Char} (hc : c.isDigit = true) : isBlank c = false := by
  cases hblank : isBlank c with
  | false => rfl
  | true =>
    rcases isBlank_iff.mp hblank with ((rfl | rfl) | rfl) | rfl <;> exact absurd hc (by decide)

namespace Numeral

theorem le_foldl_digits (ds : List Char) (significand : Nat) :
    significand ≤ ds.foldl (fun n c => n * 10 + digit c) significand := by
  induction ds generalizing significand with
  | nil => exact Nat.le_refl _
  | cons c ds ih =>
    have hrest := ih (significand * 10 + digit c)
    rw [List.foldl_cons]
    omega

/-- A significand takes all digits if it fits with the last of them. -/
theorem absorb_eq {ds : List Char} {significand : Nat}
    (h : ds.foldl (fun n c => n * 10 + digit c) significand < significandLimit) :
    absorb significand ds = (ds.foldl (fun n c => n * 10 + digit c) significand, ds.length) := by
  induction ds generalizing significand with
  | nil => rfl
  | cons c ds ih =>
    rw [List.foldl_cons] at h ⊢
    have hnext := le_foldl_digits ds (significand * 10 + digit c)
    have hfits : significand * 10 + digit c < significandLimit := by omega
    simp only [absorb, if_pos hfits, ih h]
    rfl

theorem natOfDigits_decimal (n : Nat) : natOfDigits (decimal n) = n := by
  have hvalue : natOfDigits (decimal n) = Nat.ofDigitChars 10 (decimal n) 0 := by
    rw [natOfDigits, Nat.ofDigitChars]
    simp only [digit, Nat.mul_comm]
  rw [hvalue]
  exact Nat.ofDigitChars_ten_toDigits

theorem value?_decimal {n : Nat} (hn : n < significandLimit) :
    value? ⟨false, decimal n, [], none⟩ = some (.integer n) := by
  have hdigits : (decimal n).foldl (fun n c => n * 10 + digit c) 0 = n := natOfDigits_decimal n
  have habsorb : absorb 0 (decimal n) = (n, (decimal n).length) := by
    rw [absorb_eq (by rwa [hdigits]), hdigits]
  simp [value?, habsorb]

end Numeral

section Numbers

variable {n limit : Nat} {expected : String} {s : List Char}

theorem optional_eq_none {p : Char → Bool} (h : ∀ c ∈ s.head?, p c = false) :
    optional p s = .ok (none, s) := by
  cases s with
  | nil => rfl
  | cons c s =>
    have hpeek : Reader.peek? (c :: s) = .ok (some c, c :: s) := rfl
    simp only [optional, Reader.run_bind hpeek, h c rfl, Bool.false_eq_true, if_false]
    rfl

theorem digits_decimal (hs : EndsNumber s) : digits (decimal n ++ s) = .ok (decimal n, s) := by
  have hstop : s.takeWhile Char.isDigit = [] ∧ s.dropWhile Char.isDigit = s := by
    cases s with
    | nil => exact ⟨rfl, rfl⟩
    | cons c s => simp [(hs c rfl).1]
  have htake : Reader.takeWhile Char.isDigit (decimal n ++ s) = .ok (decimal n, s) := by
    rw [Reader.takeWhile, List.takeWhile_append_of_pos fun _ => isDigit_of_mem_decimal,
      List.dropWhile_append_of_pos fun _ => isDigit_of_mem_decimal, hstop.1, hstop.2,
      List.append_nil]
  rw [digits, Reader.run_bind htake, List.isEmpty_eq_false_iff.mpr (decimal_ne_nil n)]
  rfl

theorem numeral_decimal (hs : EndsNumber s) :
    numeral (decimal n ++ s) = .ok (⟨false, decimal n, [], none⟩, s) := by
  have hminus : optional (· = '-') (decimal n ++ s) = .ok (none, decimal n ++ s) := by
    obtain ⟨d, ds, hd, hdigit⟩ := exists_decimal_eq_cons n
    rw [hd]
    refine optional_eq_none fun c hc => decide_eq_false ?_
    cases hc
    rintro rfl
    exact absurd hdigit (by decide)
  have hzero : ¬ ((decimal n).head? = some '0' ∧ (decimal n).length ≠ 1) :=
    fun h => h.2 (length_decimal_of_head? h.1)
  have hpoint : optional (· = '.') s = .ok (none, s) :=
    optional_eq_none fun c hc => decide_eq_false (hs c hc).2.1
  have hexponent : optional (fun c => c = 'e' || c = 'E') s = .ok (none, s) :=
    optional_eq_none fun c hc => by simp [(hs c hc).2.2]
  rw [numeral, Reader.run_bind hminus, Reader.run_bind (digits_decimal hs), if_neg hzero]
  change (optional (· = '.') >>= _) s = _
  rw [Reader.run_bind hpoint]
  simp only [pure_bind]
  rw [Reader.run_bind hexponent]
  rfl

theorem number_decimal (hn : n < UInt64.size) (hs : EndsNumber s) :
    number (decimal n ++ s) = .ok (.integer n, s) := by
  rw [number, Reader.run_bind (numeral_decimal hs), Numeral.value?_decimal hn]
  rfl

theorem reads_natural (hn : n < limit) (hlimit : limit ≤ UInt64.size) :
    Reader.Reads (Reader.natural limit expected) (decimal n) n := by
  intro b rest hb hrest
  obtain ⟨d, ds, hd, hdigit⟩ := exists_decimal_eq_cons n
  have htoken : Reader.peekToken (b ++ (decimal n ++ rest)) = .ok (d, decimal n ++ rest) := by
    rw [hd]
    exact Reader.peekToken_eq hb (isBlank_eq_false_of_isDigit hdigit)
  have hstart : startsNumber d = true := by simp [startsNumber, hdigit]
  have hnumber := number_decimal (by omega : n < UInt64.size) hrest
  rw [Reader.natural, Reader.run_bind htoken, if_pos hstart, Reader.run_bind hnumber]
  simp only
  rw [if_pos (by omega)]
  rfl

end Numbers

end CacheUsage.Json
