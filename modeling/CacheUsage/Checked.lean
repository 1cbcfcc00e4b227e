import CacheUsage.Fault

namespace CacheUsage.Checked

def limit : Nat := 0x10000000000000000

def sum (a b : Nat) : Except Fault Nat :=
  if a + b < limit then .ok (a + b) else .error .arithmeticOverflow

def difference (a b : Nat) : Except Fault Nat :=
  if b ≤ a then .ok (a - b) else .error .arithmeticOverflow

def product (a b : Nat) : Except Fault Nat :=
  if a * b < limit then .ok (a * b) else .error .arithmeticOverflow

def quotient (a b : Nat) : Except Fault Nat :=
  if b = 0 then .error .divideByZero else .ok (a / b)

theorem sum_eq_ok {a b n : Nat} : sum a b = .ok n ↔ a + b = n ∧ n < limit := by
  unfold sum
  split <;> simp <;> omega

theorem sum_eq_error {a b : Nat} {fault : Fault} :
    sum a b = .error fault ↔ limit ≤ a + b ∧ fault = .arithmeticOverflow := by
  unfold sum
  split <;> simp [eq_comm] <;> omega

theorem difference_eq_ok {a b n : Nat} : difference a b = .ok n ↔ a = n + b := by
  unfold difference
  split <;> simp <;> omega

theorem difference_eq_error {a b : Nat} {fault : Fault} :
    difference a b = .error fault ↔ a < b ∧ fault = .arithmeticOverflow := by
  unfold difference
  split <;> simp [eq_comm] <;> omega

theorem product_eq_ok {a b n : Nat} : product a b = .ok n ↔ a * b = n ∧ n < limit := by
  unfold product
  split <;> simp <;> omega

theorem quotient_eq_ok {a b n : Nat} : quotient a b = .ok n ↔ b ≠ 0 ∧ a / b = n := by
  unfold quotient
  split <;> simp_all

theorem quotient_eq_error {a b : Nat} {fault : Fault} :
    quotient a b = .error fault ↔ b = 0 ∧ fault = .divideByZero := by
  unfold quotient
  split <;> simp [*, eq_comm]

end CacheUsage.Checked
