import Mathlib.Algebra.Order.Ring.Nat
import Mathlib.Data.List.Induction
import Mathlib.Tactic.Common

namespace CacheUsage

variable {α : Type} {l : List α} {a : α} {n : Nat}

theorem take_append_replicate (l : List α) (n : Nat) (a : α) :
    (l ++ List.replicate n a).take n = (l.take n).rightpad n a := by
  rw [List.rightpad, List.take_append, List.take_replicate, List.length_take]
  congr 2
  omega

theorem mem_take_append {l rest : List α} (ha : a ∉ rest) :
    a ∈ (l ++ rest).take n ↔ a ∈ l.take n := by
  rw [List.take_append, List.mem_append]
  constructor
  · intro h
    exact h.resolve_right fun hr => ha (List.mem_of_mem_take hr)
  · exact Or.inl

variable [DecidableEq α]

theorem eraseDups_filter (p : α → Bool) (l : List α) :
    (l.filter p).eraseDups = l.eraseDups.filter p := by
  match l with
  | [] => rfl
  | a :: l =>
    have ih := eraseDups_filter p (l.filter fun b => !b == a)
    rw [List.eraseDups_cons, List.filter_cons, List.filter_cons, ← ih]
    by_cases hp : p a = true
    · rw [if_pos hp, if_pos hp, List.eraseDups_cons, List.filter_filter, List.filter_filter]
      simp only [Bool.and_comm]
    · rw [if_neg hp, if_neg hp, List.filter_filter]
      -- Whatever satisfies `p` differs from `a` anyway.
      congr 1
      apply List.filter_congr
      intro b _
      by_cases hb : b = a
      · simp [hb, hp]
      · simp [hb]
termination_by l.length
decreasing_by exact Nat.lt_succ_of_le (List.length_filter_le _ _)

theorem eraseDups_cons_filter (a : α) (l : List α) :
    (a :: l).eraseDups = a :: l.eraseDups.filter fun b => !b == a := by
  rw [List.eraseDups_cons, eraseDups_filter]

theorem nodup_eraseDups (l : List α) : l.eraseDups.Nodup := by
  induction l with
  | nil => exact List.nodup_nil
  | cons a l ih =>
    rw [eraseDups_cons_filter]
    exact List.nodup_cons.mpr ⟨by simp, ih.filter _⟩

def promote (a : α) (l : List α) : List α := a :: l.erase a

def promoteAll (history l : List α) : List α := history.foldl (fun l a => promote a l) l

theorem promoteAll_append (past next l : List α) :
    promoteAll (past ++ next) l = promoteAll next (promoteAll past l) := List.foldl_append

theorem length_promoteAll (history l : List α) : l.length ≤ (promoteAll history l).length := by
  induction history generalizing l with
  | nil => exact Nat.le_refl _
  | cons a history ih =>
    have hstep : l.length ≤ (promote a l).length := by
      rw [promote, List.length_cons, List.length_erase]
      split <;> omega
    exact Nat.le_trans hstep (ih (promote a l))

theorem eraseDups_cons_eq_promote (a : α) (l : List α) :
    (a :: l).eraseDups = promote a l.eraseDups := by
  rw [eraseDups_cons_filter, promote, (nodup_eraseDups l).erase_eq_filter]
  rfl

theorem promote_append (a : α) (front rest : List α) : promote a (front ++ rest) =
    promote a front ++ if a ∈ front then rest else rest.erase a := by
  rw [promote, promote, List.cons_append]
  split_ifs with hmem
  · rw [List.erase_append_left rest hmem]
  · rw [List.erase_append_right rest hmem, List.erase_of_not_mem hmem]

/-- Over values that it never brings forward, a history leaves its distinct values, the last one
first. -/
theorem promoteAll_eq {history rest : List α} (h : ∀ a ∈ history, a ∉ rest) :
    promoteAll history rest = history.reverse.eraseDups ++ rest := by
  induction history using List.reverseRecOn with
  | nil => rfl
  | append_singleton history a ih =>
    have hpast := ih fun b hb => h b (List.mem_append_left [a] hb)
    have ha : a ∉ rest := h a (by simp)
    rw [promoteAll_append, hpast, List.reverse_append, List.reverse_singleton,
      List.singleton_append, eraseDups_cons_eq_promote]
    change promote a (history.reverse.eraseDups ++ rest) = _
    rw [promote_append, List.erase_of_not_mem ha, ite_self]

theorem exists_promoteAll_eq (history l : List α) :
    ∃ rest, promoteAll history l = history.reverse.eraseDups ++ rest := by
  induction history using List.reverseRecOn with
  | nil => exact ⟨l, rfl⟩
  | append_singleton history a ih =>
    obtain ⟨rest, hpast⟩ := ih
    refine ⟨if a ∈ history.reverse.eraseDups then rest else rest.erase a, ?_⟩
    rw [promoteAll_append, hpast, List.reverse_append, List.reverse_singleton,
      List.singleton_append, eraseDups_cons_eq_promote]
    exact promote_append a history.reverse.eraseDups rest

theorem take_promoteAll {history : List α} (h : n ≤ history.reverse.eraseDups.length)
    (l : List α) : (promoteAll history l).take n = history.reverse.eraseDups.take n := by
  obtain ⟨rest, heq⟩ := exists_promoteAll_eq history l
  rw [heq, List.take_append_of_le_length h]

/-- Bringing a value into the first `n` of a list displaces the last of them, unless it was one of
them. -/
theorem take_promote (hn : 0 < n) (hlen : n ≤ l.length) :
    (promote a l).take n =
      a :: if a ∈ l.take n then (l.take n).erase a else (l.take n).dropLast := by
  obtain ⟨k, rfl⟩ : ∃ k, n = k + 1 := ⟨n - 1, by omega⟩
  have htake : (l.take (k + 1)).length = k + 1 := List.length_take_of_le hlen
  rw [promote, List.take_succ_cons]
  congr 1
  conv_lhs => rw [← List.take_append_drop (k + 1) l]
  by_cases hmem : a ∈ l.take (k + 1)
  · rw [if_pos hmem, List.erase_append_left _ hmem]
    exact List.take_left' (by rw [List.length_erase_of_mem hmem, htake]; rfl)
  · rw [if_neg hmem, List.erase_append_right _ hmem, List.dropLast_eq_take, htake]
    exact List.take_append_of_le_length (by omega)

theorem take_promote_take (hn : 0 < n) (hlen : n ≤ l.length) :
    (promote a (l.take n)).take n = (promote a l).take n := by
  have hshort : n ≤ (l.take n).length := Nat.le_of_eq (List.length_take_of_le hlen).symm
  rw [take_promote hn hshort, take_promote hn hlen, List.take_take, Nat.min_self]

theorem takeWhile_filter_ne {p : α → Bool} (hp : p a = true) :
    (l.filter p).takeWhile (fun b => b ≠ a) = (l.takeWhile fun b => b ≠ a).filter p := by
  induction l with
  | nil => rfl
  | cons b l ih =>
    by_cases hb : b = a
    · subst hb
      simp [hp]
    · by_cases hpb : p b = true
      · simpa [hpb, hb] using ih
      · simpa [hpb, hb] using ih

/-- A value is among the first `n` distinct ones when it occurs after fewer than `n` others. -/
theorem mem_take_eraseDups : a ∈ l.eraseDups.take n ↔
    a ∈ l ∧ (l.takeWhile fun b => b ≠ a).eraseDups.length < n := by
  by_cases ha : a ∈ l
  · obtain ⟨before, after, rfl, hnot⟩ := List.eq_append_cons_of_mem ha
    have hwhile : (before ++ a :: after).takeWhile (fun b => b ≠ a) = before := by
      rw [List.takeWhile_append_of_pos (by simpa using fun b hb => ne_of_mem_of_not_mem hb hnot)]
      simp
    have hfront : a ∉ before.eraseDups := fun h => hnot (List.mem_eraseDups.mp h)
    rw [hwhile, List.eraseDups_append, List.cons_removeAll, List.take_append]
    constructor
    · intro hmem
      refine ⟨ha, ?_⟩
      by_contra hge
      have hzero : n - before.eraseDups.length = 0 := by omega
      rw [hzero, List.take_zero, List.append_nil] at hmem
      exact hfront (List.mem_of_mem_take hmem)
    · intro h
      obtain ⟨k, hk⟩ : ∃ k, n - before.eraseDups.length = k + 1 :=
        ⟨n - before.eraseDups.length - 1, by omega⟩
      rw [hk]
      simp [hnot, List.eraseDups_cons]
  · constructor
    · intro h
      exact absurd (List.mem_eraseDups.mp (List.mem_of_mem_take h)) ha
    · intro h
      exact absurd h.1 ha

end CacheUsage
