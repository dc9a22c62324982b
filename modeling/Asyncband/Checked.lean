import Mathlib.Data.Nat.Basic

/-! Unsigned machine arithmetic that panics on overflow. -/
namespace Asyncband
namespace Checked

def add (max a b : ℕ) : Except String ℕ :=
  if a+b ≤ max then .ok (a+b) else .error "attempt to add with overflow"

def sub (a b : ℕ) : Except String ℕ :=
  if b ≤ a then .ok (a-b) else .error "attempt to subtract with overflow"

variable {max a b : ℕ}

theorem add_ok (h : a+b ≤ max) : add max a b = .ok (a+b) := if_pos h

theorem add_overflow (h : ¬ a+b ≤ max) :
    add max a b = .error "attempt to add with overflow" := if_neg h

theorem add_cases (max a b : ℕ) :
    add max a b = .ok (a+b) ∨ add max a b = .error "attempt to add with overflow" :=
  (em _).imp add_ok add_overflow

theorem add_eq {c : ℕ} (h : add max a b = .ok c) : c = a+b := by
  unfold add at h
  split at h <;> cases h
  rfl

theorem sub_ok (h : b ≤ a) : sub a b = .ok (a-b) := if_pos h

end Checked
end Asyncband
