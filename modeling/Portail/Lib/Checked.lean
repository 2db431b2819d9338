import Portail.Lib.Checks

/-!
# Checked 64-bit arithmetic

Unsigned 64-bit operations that fail where the exact result does not fit, or does
not exist.
-/

namespace Portail.Lib

inductive Fault
  | overflow
  | divideByZero
  deriving DecidableEq

def addU64 (a b : ℕ) : Except Fault ℕ := if a + b < 2 ^ 64 then .ok (a + b) else .error .overflow

def subU64 (a b : ℕ) : Except Fault ℕ := if b ≤ a then .ok (a - b) else .error .overflow

def mulU64 (a b : ℕ) : Except Fault ℕ := if a * b < 2 ^ 64 then .ok (a * b) else .error .overflow

def divU64 (a b : ℕ) : Except Fault ℕ := if b = 0 then .error .divideByZero else .ok (a / b)

def remU64 (a b : ℕ) : Except Fault ℕ := if b = 0 then .error .divideByZero else .ok (a % b)

theorem addU64_ok {a b : ℕ} (h : a + b < 2 ^ 64) : addU64 a b = .ok (a + b) := if_pos h

theorem subU64_ok {a b : ℕ} (h : b ≤ a) : subU64 a b = .ok (a - b) := if_pos h

theorem mulU64_ok {a b : ℕ} (h : a * b < 2 ^ 64) : mulU64 a b = .ok (a * b) := if_pos h

theorem divU64_ok {a b : ℕ} (h : 0 < b) : divU64 a b = .ok (a / b) := if_neg h.ne'

theorem remU64_ok {a b : ℕ} (h : 0 < b) : remU64 a b = .ok (a % b) := if_neg h.ne'

theorem ok_bind {α β ε : Type} (a : α) (f : α → Except ε β) : (Except.ok a >>= f) = f a := rfl

/-- A loop that adds up weights below the bound ends with their sum. -/
theorem foldlM_sum {α : Type} {step : ℕ → α → Except Fault ℕ} (weight : α → ℕ)
    (hstep : ∀ acc x, acc + weight x < 2 ^ 64 → step acc x = .ok (acc + weight x)) (xs : List α)
    (acc : ℕ) (h : acc + (xs.map weight).sum < 2 ^ 64) :
    xs.foldlM step acc = .ok (acc + (xs.map weight).sum) := by
  induction xs generalizing acc with
  | nil => rfl
  | cons x xs ih =>
    rw [List.map_cons, List.sum_cons] at h ⊢
    rw [List.foldlM_cons, hstep acc x (by omega), ok_bind, ih _ (by omega), add_assoc]

end Portail.Lib
