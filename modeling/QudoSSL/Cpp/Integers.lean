import Mathlib.Algebra.Order.Ring.Int
import Mathlib.Tactic.Linarith

/-!
# Integers of a fixed width

Signed integers are exact, with `n` bits besides the sign, and an expression whose value is out of
range is undefined.  Unsigned ones of `w` bits are taken modulo `2 ^ w`.  Operands narrower than
`int`, which has 32 bits, are promoted to it.
-/

namespace Cpp

/-! ## Signed -/

section Signed

variable (n : ℕ)

def minS : ℤ := -2 ^ n

def maxS : ℤ := 2 ^ n - 1

def Fits (x : ℤ) : Prop := minS n ≤ x ∧ x ≤ maxS n

instance (x : ℤ) : Decidable (Fits n x) := inferInstanceAs (Decidable (_ ∧ _))

/-- A signed expression of exact value `x`. -/
def valueS (x : ℤ) : Option ℤ := if Fits n x then some x else none

/-- The type in which the operators compute. -/
def promoted : ℕ := max n 31

/-- Conversion to the type. -/
def convertS (x : ℤ) : ℤ := x.bmod (2 ^ (n + 1))

variable {n}

theorem valueS_of_fits {x : ℤ} (h : Fits n x) : valueS n x = some x := if_pos h

theorem fits_iff {x : ℤ} : Fits n x ↔ -2 ^ n ≤ x ∧ x < 2 ^ n := by
  unfold Fits minS maxS
  omega

theorem one_le_two_pow (n : ℕ) : (1 : ℤ) ≤ 2 ^ n := one_le_pow₀ (by norm_num)

theorem fits_minS (n : ℕ) : Fits n (minS n) := by
  have hpow := one_le_two_pow n
  rw [fits_iff, minS]
  omega

theorem fits_maxS (n : ℕ) : Fits n (maxS n) := by
  have hpow := one_le_two_pow n
  rw [fits_iff, maxS]
  omega

theorem promoted_of_le (h : 31 ≤ n) : promoted n = n := max_eq_left h

theorem convertS_of_fits {x : ℤ} (h : Fits n x) : convertS n x = x := by
  rw [fits_iff] at h
  have hwidth : ((2 ^ (n + 1) : ℕ) : ℤ) = 2 * 2 ^ n := by rw [pow_succ', Nat.cast_mul]; simp
  apply Int.bmod_eq_of_le
  · rw [hwidth]
    omega
  · rw [hwidth]
    omega

theorem convertS_two_pow (n : ℕ) : convertS n (2 ^ n) = minS n := by
  have hpow := one_le_two_pow n
  have hwidth : ((2 ^ (n + 1) : ℕ) : ℤ) = 2 * 2 ^ n := by rw [pow_succ', Nat.cast_mul]; simp
  rw [convertS, Int.bmod_eq_iff (Nat.two_pow_pos _), hwidth, minS]
  exact ⟨by omega, by omega, -1, by omega⟩

end Signed

/-! ## Conditions -/

/-- `a || b`: the second operand is evaluated only if the first is false. -/
def lazyOr (a b : Option Bool) : Option Bool := do if ← a then some true else b

/-- `a && b`. -/
def lazyAnd (a b : Option Bool) : Option Bool := do if ← a then b else some false

@[simp] theorem lazyOr_true (b : Option Bool) : lazyOr (some true) b = some true := rfl

@[simp] theorem lazyOr_false (b : Option Bool) : lazyOr (some false) b = b := rfl

@[simp] theorem lazyOr_none (b : Option Bool) : lazyOr none b = none := rfl

@[simp] theorem lazyOr_some_false (a : Option Bool) : lazyOr a (some false) = a := by
  cases a with
  | none => rfl
  | some a => cases a <;> rfl

@[simp] theorem lazyOr_some (a b : Bool) : lazyOr (some a) (some b) = some (a || b) := by
  cases a <;> rfl

@[simp] theorem lazyAnd_true (b : Option Bool) : lazyAnd (some true) b = b := rfl

@[simp] theorem lazyAnd_false (b : Option Bool) : lazyAnd (some false) b = some false := rfl

end Cpp
