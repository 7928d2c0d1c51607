import QudoSSL.Cpp.Integers
import Mathlib.Algebra.Order.Floor.Div
import Mathlib.Algebra.Order.Ring.Abs
import Mathlib.Tactic.Ring

/-!
# `perflib/safe_math.h` and `perflib/time.h`

Arithmetic that reports overflow.  There are two versions of most functions, one with the compiler's
checked operations and one without, and which is used depends on the compiler.  `err` is the flag
that the functions set and never clear.  The bounds of a type are expressions too, and those of the
signed types shift a bit into the sign, which the C standard leaves undefined.
-/

namespace QudoSSL.Perf

open Cpp

/-! ## Signed types -/

section Signed

-- `wraps`: the compiler defines the shift into the sign, as gcc and clang do
variable (wraps : Bool) (n : ℕ)

/-- `OSSL_SAFE_MATH_MINS(type)`, `(type)1 << (sizeof(type) * 8 - 1)`. -/
def mins : Option ℤ :=
  if Fits (promoted n) (2 ^ n) then some (2 ^ n)
  else if wraps then some (convertS (promoted n) (2 ^ n)) else none

/-- `OSSL_SAFE_MATH_MAXS(type)`, `~OSSL_SAFE_MATH_MINS(type)`. -/
def maxs : Option ℤ := (mins wraps n).map fun x => -x - 1

/-- `return low ? min : max`, with the flag. -/
def outOfRange (low : Bool) : Option (ℤ × Bool) :=
  (if low then mins wraps n else maxs wraps n).map fun r => (convertS n r, true)

/-- With `__builtin_add_overflow`. -/
def safeAddSBuiltin (a b : ℤ) (err : Bool) : Option (ℤ × Bool) :=
  if Fits n (a + b) then some (a + b, err) else outOfRange wraps n (a < 0)

/-- The condition of the portable version. -/
def addTest (a b : ℤ) : Option Bool :=
  lazyOr (some (decide (a < 0) != decide (b < 0)))
    (lazyOr (lazyAnd (some (0 < a)) do
        let d ← valueS (promoted n) ((← maxs wraps n) - a)
        some (b ≤ d))
      (lazyOr (lazyAnd (some (a < 0)) do
          let d ← valueS (promoted n) ((← mins wraps n) - a)
          some (d ≤ b))
        (some (a = 0))))

def safeAddS (a b : ℤ) (err : Bool) : Option (ℤ × Bool) := do
  if ← addTest wraps n a b then (valueS (promoted n) (a + b)).map fun r => (convertS n r, err)
  else outOfRange wraps n (a < 0)

/-- With `__builtin_sub_overflow`. -/
def safeSubSBuiltin (a b : ℤ) (err : Bool) : Option (ℤ × Bool) :=
  if Fits n (a - b) then some (a - b, err) else outOfRange wraps n (a < 0)

def subTest (a b : ℤ) : Option Bool :=
  lazyOr (some (!(decide (a < 0) != decide (b < 0))))
    (lazyOr (lazyAnd (some (0 < b)) do
        let d ← valueS (promoted n) ((← mins wraps n) + b)
        some (d ≤ a))
      (lazyOr (lazyAnd (some (b < 0)) do
          let d ← valueS (promoted n) ((← maxs wraps n) + b)
          some (a ≤ d))
        (some (b = 0))))

def safeSubS (a b : ℤ) (err : Bool) : Option (ℤ × Bool) := do
  if ← subTest wraps n a b then (valueS (promoted n) (a - b)).map fun r => (convertS n r, err)
  else outOfRange wraps n (a < 0)

/-- With `__builtin_mul_overflow`. -/
def safeMulSBuiltin (a b : ℤ) (err : Bool) : Option (ℤ × Bool) :=
  if Fits n (a * b) then some (a * b, err)
  else outOfRange wraps n (decide (a < 0) != decide (b < 0))

/-- `const type x = a < 0 ? -a : a`. -/
def magnitude (a : ℤ) : Option ℤ :=
  (if a < 0 then valueS (promoted n) (-a) else some a).map (convertS n)

def mulTest (a b : ℤ) : Option Bool := do
  let least ← mins wraps n
  if a ≠ least ∧ b ≠ least then do
    let x ← magnitude n a
    let y ← magnitude n b
    some (decide (x ≤ (← maxs wraps n).tdiv y))
  else some false

def safeMulS (a b : ℤ) (err : Bool) : Option (ℤ × Bool) :=
  if a = 0 ∨ b = 0 then some (0, err)
  else if a = 1 then some (b, err)
  else if b = 1 then some (a, err)
  else do
    if ← mulTest wraps n a b then (valueS (promoted n) (a * b)).map fun r => (convertS n r, err)
    else outOfRange wraps n (decide (a < 0) != decide (b < 0))

variable {n}

/-! ### The bounds -/

section Bounds

variable (hn : 31 ≤ n)

include hn

theorem not_fits_two_pow : ¬ Fits (promoted n) (2 ^ n) := by
  rw [promoted_of_le hn, fits_iff]
  omega

theorem mins_eq : mins true n = some (minS n) := by
  rw [mins, if_neg (not_fits_two_pow hn), if_pos rfl, promoted_of_le hn, convertS_two_pow]

theorem maxs_eq : maxs true n = some (maxS n) := by
  rw [maxs, mins_eq hn, Option.map_some, minS, maxS, neg_neg]

-- By the standard there are no bounds.
theorem mins_strict : mins false n = none := by
  rw [mins, if_neg (not_fits_two_pow hn)]
  rfl

theorem maxs_strict : maxs false n = none := by
  rw [maxs, mins_strict hn]
  rfl

theorem outOfRange_eq (low : Bool) :
    outOfRange true n low = some (if low then minS n else maxS n, true) := by
  rw [outOfRange, mins_eq hn, maxs_eq hn]
  cases low with
  | true => simp [convertS_of_fits (fits_minS n)]
  | false => simp [convertS_of_fits (fits_maxS n)]

theorem convertS_valueS {x : ℤ} (h : Fits n x) :
    (valueS (promoted n) x).map (convertS n) = some x := by
  rw [promoted_of_le hn, valueS_of_fits h, Option.map_some, convertS_of_fits h]

end Bounds

/-- The exact result `x`, or the bound on its side with the flag set. -/
def limited (n : ℕ) (x : ℤ) (low err : Bool) : ℤ × Bool :=
  if Fits n x then (x, err) else (if low then minS n else maxS n, true)

theorem builtin_eq_limited (hn : 31 ≤ n) (x : ℤ) (low err : Bool) :
    (if Fits n x then some (x, err) else outOfRange true n low) = some (limited n x low err) := by
  rw [limited, outOfRange_eq hn]
  split <;> rfl

-- The portable versions decide whether the result fits, and then form it.
theorem portable_eq_limited (hn : 31 ≤ n) (x : ℤ) (low err : Bool) :
    (do if ← some (decide (Fits n x)) then
          (valueS (promoted n) x).map fun r => (convertS n r, err)
        else outOfRange true n low) = some (limited n x low err) := by
  rw [limited, outOfRange_eq hn, promoted_of_le hn]
  by_cases h : Fits n x
  · simp [h, valueS_of_fits h, convertS_of_fits h]
  · simp [h]

/-! ### Sums and differences -/

section Tests

variable {wraps : Bool} {a b : ℤ}

-- A bound is looked at only for a sum of two numbers of one sign.
theorem addTest_of_settled (h : a = 0 ∨ (a < 0 ∧ 0 ≤ b) ∨ (0 < a ∧ b < 0)) :
    addTest wraps n a b = some true := by
  unfold addTest
  rcases h with rfl | ⟨ha, hb⟩ | ⟨ha, hb⟩
  · by_cases hb : b < 0 <;> simp [hb]
  · simp [ha, not_lt.mpr hb]
  · simp [hb, not_lt_of_gt ha]

theorem addTest_of_pos (ha : 0 < a) (hb : 0 ≤ b) :
    addTest wraps n a b = (maxs wraps n).bind fun m =>
      (valueS (promoted n) (m - a)).bind fun d => some (decide (b ≤ d)) := by
  simp [addTest, ha, ha.ne', not_lt_of_gt ha, not_lt.mpr hb]

theorem addTest_of_neg (ha : a < 0) (hb : b < 0) :
    addTest wraps n a b = (mins wraps n).bind fun m =>
      (valueS (promoted n) (m - a)).bind fun d => some (decide (d ≤ b)) := by
  simp [addTest, ha, hb, ha.ne, not_lt_of_gt ha]

-- A difference needs a bound if the signs are not the same.
theorem subTest_of_settled (h : b = 0 ∨ (a < 0 ∧ b < 0) ∨ (0 ≤ a ∧ 0 < b)) :
    subTest wraps n a b = some true := by
  unfold subTest
  rcases h with rfl | ⟨ha, hb⟩ | ⟨ha, hb⟩
  · by_cases ha : a < 0 <;> simp [ha]
  · simp [ha, hb]
  · simp [not_lt.mpr ha, not_lt_of_gt hb]

theorem subTest_of_pos (ha : a < 0) (hb : 0 < b) :
    subTest wraps n a b = (mins wraps n).bind fun m =>
      (valueS (promoted n) (m + b)).bind fun d => some (decide (d ≤ a)) := by
  simp [subTest, ha, hb, hb.ne', not_lt_of_gt hb]

theorem subTest_of_neg (ha : 0 ≤ a) (hb : b < 0) :
    subTest wraps n a b = (maxs wraps n).bind fun m =>
      (valueS (promoted n) (m + b)).bind fun d => some (decide (a ≤ d)) := by
  simp [subTest, hb, hb.ne, not_lt_of_gt hb, not_lt.mpr ha]

theorem add_cases (a b : ℤ) :
    (a = 0 ∨ (a < 0 ∧ 0 ≤ b) ∨ (0 < a ∧ b < 0)) ∨ (0 < a ∧ 0 ≤ b) ∨ (a < 0 ∧ b < 0) := by
  omega

theorem sub_cases (a b : ℤ) :
    (b = 0 ∨ (a < 0 ∧ b < 0) ∨ (0 ≤ a ∧ 0 < b)) ∨ (0 ≤ a ∧ b < 0) ∨ (a < 0 ∧ 0 < b) := by
  omega

end Tests

section Sums

variable (hn : 31 ≤ n) {a b : ℤ} (ha : Fits n a) (hb : Fits n b)

include hn ha hb

theorem addTest_eq : addTest true n a b = some (decide (Fits n (a + b))) := by
  rw [fits_iff] at ha hb
  have hpow := one_le_two_pow n
  rcases add_cases a b with h | ⟨hpos, hb0⟩ | ⟨hneg, hb0⟩
  · have hfits : Fits n (a + b) := by
      rw [fits_iff]
      omega
    rw [addTest_of_settled h, decide_eq_true hfits]
  · have hdiff : valueS n (maxS n - a) = some (maxS n - a) := by
      apply valueS_of_fits
      rw [fits_iff, maxS]
      omega
    have htest : (b ≤ maxS n - a) ↔ Fits n (a + b) := by
      rw [fits_iff, maxS]
      omega
    rw [addTest_of_pos hpos hb0, maxs_eq hn, promoted_of_le hn]
    simp [hdiff, htest]
  · have hdiff : valueS n (minS n - a) = some (minS n - a) := by
      apply valueS_of_fits
      rw [fits_iff, minS]
      omega
    have htest : (minS n - a ≤ b) ↔ Fits n (a + b) := by
      rw [fits_iff, minS]
      omega
    rw [addTest_of_neg hneg hb0, mins_eq hn, promoted_of_le hn]
    simp [hdiff, htest]

theorem subTest_eq : subTest true n a b = some (decide (Fits n (a - b))) := by
  rw [fits_iff] at ha hb
  have hpow := one_le_two_pow n
  rcases sub_cases a b with h | ⟨ha0, hneg⟩ | ⟨ha0, hpos⟩
  · have hfits : Fits n (a - b) := by
      rw [fits_iff]
      omega
    rw [subTest_of_settled h, decide_eq_true hfits]
  · have hsum : valueS n (maxS n + b) = some (maxS n + b) := by
      apply valueS_of_fits
      rw [fits_iff, maxS]
      omega
    have htest : (a ≤ maxS n + b) ↔ Fits n (a - b) := by
      rw [fits_iff, maxS]
      omega
    rw [subTest_of_neg ha0 hneg, maxs_eq hn, promoted_of_le hn]
    simp [hsum, htest]
  · have hsum : valueS n (minS n + b) = some (minS n + b) := by
      apply valueS_of_fits
      rw [fits_iff, minS]
      omega
    have htest : (minS n + b ≤ a) ↔ Fits n (a - b) := by
      rw [fits_iff, minS]
      omega
    rw [subTest_of_pos ha0 hpos, mins_eq hn, promoted_of_le hn]
    simp [hsum, htest]

theorem safeAddS_strict (err : Bool) :
    safeAddS false n a b err = none ↔ (0 < a ∧ 0 ≤ b) ∨ (a < 0 ∧ b < 0) := by
  rcases add_cases a b with h | ⟨hpos, hb0⟩ | ⟨hneg, hb0⟩
  · have hfits : Fits n (a + b) := by
      rw [fits_iff] at ha hb ⊢
      omega
    rw [safeAddS, addTest_of_settled h, promoted_of_le hn]
    refine iff_of_false ?_ (by omega)
    simp [valueS_of_fits hfits]
  · rw [safeAddS, addTest_of_pos hpos hb0, maxs_strict hn]
    exact iff_of_true rfl (.inl ⟨hpos, hb0⟩)
  · rw [safeAddS, addTest_of_neg hneg hb0, mins_strict hn]
    exact iff_of_true rfl (.inr ⟨hneg, hb0⟩)

theorem safeSubS_strict (err : Bool) :
    safeSubS false n a b err = none ↔ (0 ≤ a ∧ b < 0) ∨ (a < 0 ∧ 0 < b) := by
  rcases sub_cases a b with h | ⟨ha0, hneg⟩ | ⟨ha0, hpos⟩
  · have hfits : Fits n (a - b) := by
      rw [fits_iff] at ha hb ⊢
      omega
    rw [safeSubS, subTest_of_settled h, promoted_of_le hn]
    refine iff_of_false ?_ (by omega)
    simp [valueS_of_fits hfits]
  · rw [safeSubS, subTest_of_neg ha0 hneg, maxs_strict hn]
    exact iff_of_true rfl (.inl ⟨ha0, hneg⟩)
  · rw [safeSubS, subTest_of_pos ha0 hpos, mins_strict hn]
    exact iff_of_true rfl (.inr ⟨ha0, hpos⟩)

end Sums

/-- Sums and differences in `int` and wider types.  Where the compiler defines the shift in the
bounds, both versions give the exact result if it fits and otherwise the bound on the side of the
first operand, and nothing but that shift overflows.  By the standard the shift is undefined, and
with it the portable sum of two numbers of one sign and difference of two of different sign. -/
theorem safeAddS_safeSubS_eq (hn : 31 ≤ n) {a b : ℤ} (ha : Fits n a) (hb : Fits n b) (err : Bool) :
    (safeAddS true n a b err = some (limited n (a + b) (a < 0) err) ∧
        safeAddSBuiltin true n a b err = some (limited n (a + b) (a < 0) err)) ∧
      (safeSubS true n a b err = some (limited n (a - b) (a < 0) err) ∧
        safeSubSBuiltin true n a b err = some (limited n (a - b) (a < 0) err)) ∧
      (safeAddS false n a b err = none ↔ (0 < a ∧ 0 ≤ b) ∨ (a < 0 ∧ b < 0)) ∧
      (safeSubS false n a b err = none ↔ (0 ≤ a ∧ b < 0) ∨ (a < 0 ∧ 0 < b)) := by
  refine ⟨⟨?_, builtin_eq_limited hn _ _ _⟩, ⟨?_, builtin_eq_limited hn _ _ _⟩,
    safeAddS_strict hn ha hb err, safeSubS_strict hn ha hb err⟩
  · rw [safeAddS, addTest_eq hn ha hb]
    exact portable_eq_limited hn _ _ _
  · rw [safeSubS, subTest_eq hn ha hb]
    exact portable_eq_limited hn _ _ _

theorem safeAddS_safeSubS_eq_largest :
    safeAddS true 63 (2 ^ 63 - 1) 1 false = some (2 ^ 63 - 1, true) ∧
      safeSubS true 63 (2 ^ 63 - 1) 1 false = some (2 ^ 63 - 2, false) ∧
      safeAddS false 63 1 1 false = none := by
  have hone : Fits 63 1 := by decide
  have hlarge : Fits 63 (2 ^ 63 - 1) := by decide
  have h := safeAddS_safeSubS_eq (by decide) hlarge hone false
  have hstrict := safeAddS_safeSubS_eq (by decide) hone hone false
  exact ⟨h.1.1.trans (by decide +kernel), h.2.1.1.trans (by decide +kernel),
    hstrict.2.2.1.mpr (.inl ⟨by decide, by decide⟩)⟩

-- For `int8_t` the bounds are 128 and -129, and every sum of positive numbers is reported.
example : mins true 7 = some 128 ∧ maxs true 7 = some (-129) ∧
    safeAddS true 7 1 1 false = some (127, true) := by
  decide

/-! ### Products -/

-- The absolute value of anything but the least number can be formed.
theorem magnitude_eq (hn : 31 ≤ n) {a : ℤ} (ha : Fits n a) (hmin : a ≠ minS n) :
    magnitude n a = some |a| := by
  unfold magnitude
  by_cases h : a < 0
  · have hfits : Fits n (-a) := by
      rw [fits_iff] at ha ⊢
      rw [minS] at hmin
      omega
    rw [if_pos h, convertS_valueS hn hfits, abs_of_neg h]
  · rw [if_neg h, Option.map_some, convertS_of_fits ha, abs_of_nonneg (not_lt.mp h)]

theorem mulTest_eq (hn : 31 ≤ n) {a b : ℤ} (ha : Fits n a) (hb : Fits n b) (hb0 : b ≠ 0) :
    mulTest true n a b = some (decide (a ≠ minS n ∧ b ≠ minS n ∧ |a * b| ≤ maxS n)) := by
  unfold mulTest
  rw [mins_eq hn, maxs_eq hn]
  simp only [Option.bind_eq_bind, Option.bind_some]
  by_cases hmin : a ≠ minS n ∧ b ≠ minS n
  · have hdiv : |a| ≤ (maxS n).tdiv |b| ↔ |a * b| ≤ maxS n := by
      have hmax : 0 ≤ maxS n := by
        have hpow := one_le_two_pow n
        rw [maxS]
        omega
      rw [Int.tdiv_eq_ediv_of_nonneg hmax, Int.le_ediv_iff_mul_le (abs_pos.mpr hb0), abs_mul]
    rw [if_pos hmin, magnitude_eq hn ha hmin.1, magnitude_eq hn hb hmin.2]
    simp [hmin, hdiv]
  · rw [if_neg hmin]
    simp only [Option.some.injEq, Bool.false_eq, decide_eq_false_iff_not]
    exact fun h => hmin ⟨h.1, h.2.1⟩

theorem fits_iff_abs {x : ℤ} : Fits n x ↔ |x| ≤ maxS n ∨ x = minS n := by
  have hpow := one_le_two_pow n
  rw [fits_iff, abs_le, maxS, minS]
  omega

-- With the least number as a factor only a product with one is small enough, or zero.
theorem maxS_lt_abs_mul {a b : ℤ} (h : a = minS n ∨ b = minS n) (ha : a ≠ 0) (hb : b ≠ 0) :
    maxS n < |a * b| := by
  have hmin : |minS n| = 2 ^ n := by rw [minS, abs_neg, abs_of_nonneg (by positivity)]
  have ha1 := Int.one_le_abs ha
  have hb1 := Int.one_le_abs hb
  have hmul : (2 : ℤ) ^ n ≤ |a * b| := by
    rw [abs_mul]
    rcases h with rfl | rfl
    · rw [hmin]
      exact le_mul_of_one_le_right (by positivity) hb1
    · rw [hmin]
      exact le_mul_of_one_le_left (by positivity) ha1
  rw [maxS]
  omega

theorem sign_mul {a b : ℤ} (ha : a ≠ 0) (hb : b ≠ 0) :
    (decide (a < 0) != decide (b < 0)) = decide (a * b < 0) := by
  rcases lt_or_gt_of_ne ha with ha | ha
  · rcases lt_or_gt_of_ne hb with hb | hb
    · simp [ha, hb, not_lt_of_gt (mul_pos_of_neg_of_neg ha hb)]
    · simp [ha, not_lt_of_gt hb, mul_neg_of_neg_of_pos ha hb]
  · rcases lt_or_gt_of_ne hb with hb | hb
    · simp [hb, not_lt_of_gt ha, mul_neg_of_pos_of_neg ha hb]
    · simp [not_lt_of_gt ha, not_lt_of_gt hb, not_lt_of_gt (mul_pos ha hb)]

/-- A product that is the least number, but not because a factor is one. -/
def LeastProduct (n : ℕ) (a b : ℤ) : Prop := a * b = minS n ∧ a ≠ 1 ∧ b ≠ 1

instance (n : ℕ) (a b : ℤ) : Decidable (LeastProduct n a b) := inferInstanceAs (Decidable (_ ∧ _))

theorem limited_of_fits {x : ℤ} (h : Fits n x) (low err : Bool) :
    limited n x low err = (x, err) := if_pos h

section Settled

variable {a b : ℤ}

-- A factor that is zero or one settles the product before any test.
theorem safeMulS_of_settled {wraps : Bool} (h : a ∈ [0, 1] ∨ b ∈ [0, 1]) (err : Bool) :
    safeMulS wraps n a b err = some (a * b, err) := by
  unfold safeMulS
  by_cases hzero : a = 0 ∨ b = 0
  · rw [if_pos hzero, mul_eq_zero.mpr hzero]
  rw [if_neg hzero]
  by_cases hone : a = 1
  · rw [if_pos hone, hone, one_mul]
  rw [if_neg hone]
  rw [not_or] at hzero
  have hone' : b = 1 := by simpa [hzero, hone] using h
  rw [if_pos hone', hone', mul_one]

theorem safeMulS_of_unsettled {wraps : Bool} (ha : a ∉ [0, 1]) (hb : b ∉ [0, 1]) (err : Bool) :
    safeMulS wraps n a b err = (mulTest wraps n a b).bind fun t =>
      if t then (valueS (promoted n) (a * b)).map fun r => (convertS n r, err)
      else outOfRange wraps n (decide (a < 0) != decide (b < 0)) := by
  simp only [List.mem_cons, List.not_mem_nil, or_false, not_or] at ha hb
  simp [safeMulS, ha, hb]

theorem fits_mul_of_settled (h : a ∈ [0, 1] ∨ b ∈ [0, 1]) (ha : Fits n a) (hb : Fits n b) :
    Fits n (a * b) := by
  have hpow := one_le_two_pow n
  rw [fits_iff] at ha hb ⊢
  simp only [List.mem_cons, List.not_mem_nil, or_false] at h
  rcases h with (rfl | rfl) | (rfl | rfl) <;> omega

theorem not_leastProduct_of_settled (h : a ∈ [0, 1] ∨ b ∈ [0, 1]) : ¬ LeastProduct n a b := by
  rintro ⟨hmul, hone, hone'⟩
  have hpow := one_le_two_pow n
  rw [minS] at hmul
  simp only [List.mem_cons, List.not_mem_nil, or_false, hone, hone'] at h
  rw [mul_eq_zero.mpr h] at hmul
  omega

end Settled

theorem safeMulS_eq_limited (hn : 31 ≤ n) {a b : ℤ} (ha : Fits n a) (hb : Fits n b) (err : Bool) :
    safeMulS true n a b err =
      some ((limited n (a * b) (decide (a < 0) != decide (b < 0)) err).1,
        (limited n (a * b) (decide (a < 0) != decide (b < 0)) err).2 ||
          decide (LeastProduct n a b)) := by
  by_cases hset : a ∈ [0, 1] ∨ b ∈ [0, 1]
  · rw [safeMulS_of_settled hset, limited_of_fits (fits_mul_of_settled hset ha hb),
      decide_eq_false (not_leastProduct_of_settled hset), Bool.or_false]
  rw [not_or] at hset
  rw [safeMulS_of_unsettled hset.1 hset.2]
  simp only [List.mem_cons, List.not_mem_nil, or_false, not_or] at hset
  obtain ⟨⟨ha0, ha1⟩, hb0, hb1⟩ := hset
  rw [mulTest_eq hn ha hb hb0]
  by_cases htest : a ≠ minS n ∧ b ≠ minS n ∧ |a * b| ≤ maxS n
  · have hfits : Fits n (a * b) := fits_iff_abs.mpr (.inl htest.2.2)
    have hno : ¬ LeastProduct n a b := by
      intro h
      have habs := htest.2.2
      rw [h.1, minS, abs_neg, abs_of_nonneg (by positivity), maxS] at habs
      omega
    rw [limited_of_fits hfits, decide_eq_false hno, Bool.or_false, decide_eq_true htest]
    show (valueS (promoted n) (a * b)).map _ = _
    rw [promoted_of_le hn, valueS_of_fits hfits, Option.map_some, convertS_of_fits hfits]
  · have hlarge : maxS n < |a * b| := by
      by_contra hle
      have hmin : a = minS n ∨ b = minS n := by
        by_contra hnot
        rw [not_or] at hnot
        exact htest ⟨hnot.1, hnot.2, not_lt.mp hle⟩
      exact hle (maxS_lt_abs_mul hmin ha0 hb0)
    rw [decide_eq_false htest]
    show outOfRange true n (decide (a < 0) != decide (b < 0)) = _
    rw [outOfRange_eq hn]
    by_cases hfits : Fits n (a * b)
    · -- the one number that fits although its absolute value does not
      have hmin : a * b = minS n := (fits_iff_abs.mp hfits).resolve_left (not_le_of_gt hlarge)
      have hyes : LeastProduct n a b := ⟨hmin, ha1, hb1⟩
      have hneg : a * b < 0 := by
        have hpow := one_le_two_pow n
        rw [hmin, minS]
        omega
      rw [limited_of_fits hfits, sign_mul ha0 hb0, decide_eq_true hyes, Bool.or_true,
        if_pos (decide_eq_true hneg), hmin]
    · rw [limited, if_neg hfits, Bool.true_or]

theorem safeMulS_strict (hn : 31 ≤ n) (a b : ℤ) (err : Bool) :
    safeMulS false n a b err = none ↔ a ∉ [0, 1] ∧ b ∉ [0, 1] := by
  by_cases hset : a ∈ [0, 1] ∨ b ∈ [0, 1]
  · rw [safeMulS_of_settled hset, ← not_or]
    exact iff_of_false (Option.some_ne_none _) (not_not_intro hset)
  · rw [not_or] at hset
    rw [safeMulS_of_unsettled hset.1 hset.2, mulTest, mins_strict hn]
    exact iff_of_true rfl hset

/-- Products in `int` and wider types, where the compiler defines the shift in the bounds.  They are
the same with and without the compiler's checked operation.  The flag is too, except that the
portable version also sets it where the product is the least number, which it returns.  By the
standard the portable version is undefined unless a factor is zero or one. -/
theorem safeMulS_eq (hn : 31 ≤ n) {a b : ℤ} (ha : Fits n a) (hb : Fits n b) (err : Bool) :
    ∃ r, safeMulSBuiltin true n a b err = some r ∧
      r = limited n (a * b) (decide (a < 0) != decide (b < 0)) err ∧
      safeMulS true n a b err = some (r.1, r.2 || decide (LeastProduct n a b)) ∧
      (safeMulS false n a b err = none ↔ a ∉ [0, 1] ∧ b ∉ [0, 1]) :=
  ⟨_, builtin_eq_limited hn _ _ _, rfl, safeMulS_eq_limited hn ha hb err,
    safeMulS_strict hn a b err⟩

theorem safeMulS_eq_halves :
    safeMulSBuiltin true 63 (-2 ^ 62) 2 false = some (-2 ^ 63, false) ∧
      safeMulS true 63 (-2 ^ 62) 2 false = some (-2 ^ 63, true) ∧
      safeMulS false 63 (-2 ^ 62) 2 false = none := by
  have ha : Fits 63 (-2 ^ 62) := by decide
  have hb : Fits 63 2 := by decide
  obtain ⟨r, hbuiltin, hr, hportable, hstrict⟩ := safeMulS_eq (by decide) ha hb false
  have hvalue : r = (-2 ^ 63, false) := hr.trans (by decide +kernel)
  have hleast : LeastProduct 63 (-2 ^ 62) 2 := by decide
  rw [hvalue] at hbuiltin hportable
  rw [decide_eq_true hleast] at hportable
  exact ⟨hbuiltin, hportable, hstrict.mpr (by decide)⟩

end Signed

/-! ## Unsigned types -/

section Unsigned

variable (w : ℕ)

/-- `OSSL_SAFE_MATH_MAXU(type)`, `~(type)0`: of a type narrower than `int` all bits of an `int`. -/
def maxU : ℤ := if w < 32 then -1 else 2 ^ w - 1

/-- Conversion to the type. -/
def convertU (x : ℤ) : ℕ := (x % 2 ^ w).toNat

def safeAddUBuiltin (a b : ℕ) (err : Bool) : ℕ × Bool :=
  if a + b < 2 ^ w then (a + b, err) else ((a + b) % 2 ^ w, true)

def safeAddU (a b : ℕ) (err : Bool) : ℕ × Bool :=
  ((a + b) % 2 ^ w, err || decide (maxU w - a < b))

def safeSubU (a b : ℕ) (err : Bool) : ℕ × Bool :=
  ((a + (2 ^ w - b)) % 2 ^ w, err || decide (a < b))

def safeMulUBuiltin (a b : ℕ) (err : Bool) : ℕ × Bool :=
  if a * b < 2 ^ w then (a * b, err) else (a * b % 2 ^ w, true)

/-- For a type that is not promoted: the product of two numbers of 16 bits may overflow an `int`. -/
def safeMulU (a b : ℕ) (err : Bool) : ℕ × Bool :=
  (a * b % 2 ^ w, err || decide (b ≠ 0 ∧ (maxU w).tdiv b < a))

/-- The larger of two numerators is divided first. -/
def safeMuldivU (a b c : ℕ) (err : Bool) : ℕ × Bool :=
  if c = 0 then (if a = 0 ∨ b = 0 then 0 else convertU w (maxU w), true)
  else
    let x := safeMulU w a b false
    if x.2 = false then (x.1 / c, err)
    else
      let (a, b) := if a < b then (b, a) else (a, b)
      let x := safeMulU w (a % c) b err
      let y := safeMulU w (a / c) b x.2
      safeAddU w y.1 (x.1 / c) y.2

def safeDivRoundUpU (a b : ℕ) (err : Bool) : ℕ × Bool :=
  if 0 < b ∧ 0 < a then
    if a < maxU w - b then ((a + b - 1) % 2 ^ w / b, err)
    else ((a / b + if a % b ≠ 0 then 1 else 0) % 2 ^ w, err)
  else if b = 0 then (if a = 0 then 0 else convertU w (maxU w), true)
  else (0, err)

variable {w}

/-- The exact result `x` modulo the width, with the flag set if it does not fit. -/
def wrapped (w x : ℕ) (err : Bool) : ℕ × Bool := (x % 2 ^ w, err || decide (2 ^ w ≤ x))

theorem wrapped_of_lt {x : ℕ} (h : x < 2 ^ w) (err : Bool) : wrapped w x err = (x, err) := by
  rw [wrapped, Nat.mod_eq_of_lt h, decide_eq_false (by omega), Bool.or_false]

theorem builtin_eq_wrapped (x : ℕ) (err : Bool) :
    (if x < 2 ^ w then (x, err) else (x % 2 ^ w, true)) = wrapped w x err := by
  split
  · rename_i h
    exact (wrapped_of_lt h err).symm
  · rename_i h
    rw [wrapped, decide_eq_true (by omega), Bool.or_true]

theorem maxU_of_le (hw : 32 ≤ w) : maxU w = 2 ^ w - 1 := if_neg (not_lt_of_ge hw)

theorem maxU_le (w : ℕ) : maxU w ≤ 2 ^ w - 1 := by
  have hpow := one_le_two_pow w
  unfold maxU
  split <;> omega

theorem safeAddU_eq (hw : 32 ≤ w) (a b : ℕ) (err : Bool) :
    safeAddU w a b err = wrapped w (a + b) err := by
  have htest : maxU w - a < b ↔ 2 ^ w ≤ a + b := by
    have hcast : ((2 ^ w : ℕ) : ℤ) = 2 ^ w := Nat.cast_pow 2 w
    rw [maxU_of_le hw]
    omega
  rw [safeAddU, wrapped]
  simp only [htest]

theorem safeMulU_eq (hw : 32 ≤ w) (a b : ℕ) (err : Bool) :
    safeMulU w a b err = wrapped w (a * b) err := by
  have hpos : 0 < 2 ^ w := Nat.two_pow_pos w
  have hmax : maxU w = ((2 ^ w - 1 : ℕ) : ℤ) := by
    rw [maxU_of_le hw, Nat.cast_sub hpos]
    simp
  have htest : (b ≠ 0 ∧ (maxU w).tdiv b < a) ↔ 2 ^ w ≤ a * b := by
    rw [hmax, ← Int.ofNat_tdiv, Int.ofNat_lt]
    by_cases hb : b = 0
    · simp [hb]
    · rw [and_iff_right hb, Nat.div_lt_iff_lt_mul (Nat.pos_of_ne_zero hb)]
      omega
  rw [safeMulU, wrapped]
  simp only [htest]

/-- The helpers that exist twice agree for a type that is not promoted, and the flag is set exactly
if the exact result does not fit. -/
theorem safeU_builtin_agree (hw : 32 ≤ w) (a b : ℕ) (err : Bool) :
    safeAddU w a b err = safeAddUBuiltin w a b err ∧
      safeMulU w a b err = safeMulUBuiltin w a b err ∧
      safeAddU w a b err = wrapped w (a + b) err ∧ safeMulU w a b err = wrapped w (a * b) err := by
  refine ⟨?_, ?_, safeAddU_eq hw a b err, safeMulU_eq hw a b err⟩
  · rw [safeAddU_eq hw, safeAddUBuiltin, builtin_eq_wrapped]
  · rw [safeMulU_eq hw, safeMulUBuiltin, builtin_eq_wrapped]

theorem safeU_builtin_agree_largest :
    safeAddU 64 (2 ^ 64 - 1) 2 false = safeAddUBuiltin 64 (2 ^ 64 - 1) 2 false ∧
      safeMulU 64 (2 ^ 32) (2 ^ 32) false = safeMulUBuiltin 64 (2 ^ 32) (2 ^ 32) false :=
  ⟨(safeU_builtin_agree (by decide) (2 ^ 64 - 1) 2 false).1,
    (safeU_builtin_agree (by decide) (2 ^ 32) (2 ^ 32) false).2.1⟩

-- For `uint8_t` every sum is reported.
example : safeAddU 8 1 1 false = (2, true) ∧ safeAddUBuiltin 8 1 1 false = (2, false) := by decide

/-! ### The fused operation -/

/-- The product is too large, and so is what is formed instead of it, or the quotient itself. -/
def MuldivOverflows (w a b c : ℕ) : Prop :=
  2 ^ w ≤ a * b ∧ (2 ^ w ≤ max a b % c * min a b ∨ 2 ^ w ≤ a * b / c)

theorem muldiv_identity (a b c : ℕ) (hc : c ≠ 0) :
    a * b / c = max a b / c * min a b + max a b % c * min a b / c := by
  have hsplit : a * b = c * (max a b / c * min a b) + max a b % c * min a b := by
    rw [← max_mul_min a b]
    conv_lhs => rw [← Nat.div_add_mod (max a b) c]
    ring
  rw [hsplit, Nat.mul_add_div (Nat.pos_of_ne_zero hc)]

theorem swap_eq (a b : ℕ) : (if a < b then (b, a) else (a, b)) = (max a b, min a b) := by
  split
  · rename_i h
    rw [max_eq_right h.le, min_eq_left h.le]
  · rename_i h
    rw [max_eq_left (not_lt.mp h), min_eq_right (not_lt.mp h)]

section Muldiv

variable (hw : 32 ≤ w)

include hw

theorem safeMuldivU_of_lt {a b c : ℕ} (hc : c ≠ 0) (h : a * b < 2 ^ w) (err : Bool) :
    safeMuldivU w a b c err = (a * b / c, err) := by
  rw [safeMuldivU, if_neg hc]
  simp only [safeMulU_eq hw, wrapped_of_lt h, if_true]

theorem safeMuldivU_of_le {a b c : ℕ} (hc : c ≠ 0) (h : 2 ^ w ≤ a * b) (err : Bool) :
    safeMuldivU w a b c err =
      let x := wrapped w (max a b % c * min a b) err
      let y := wrapped w (max a b / c * min a b) x.2
      wrapped w (y.1 + x.1 / c) y.2 := by
  have hflag : (wrapped w (a * b) false).2 = true := by
    rw [wrapped, decide_eq_true h]
    rfl
  rw [safeMuldivU, if_neg hc]
  simp only [safeMulU_eq hw, hflag, Bool.true_eq_false, if_false, swap_eq, safeAddU_eq hw]

-- What is returned without an error is the exact quotient.
theorem safeMuldivU_spec (a b : ℕ) {c : ℕ} (hc : c ≠ 0) :
    ((safeMuldivU w a b c false).2 = false ↔ ¬ MuldivOverflows w a b c) ∧
      ((safeMuldivU w a b c false).2 = false → (safeMuldivU w a b c false).1 = a * b / c) := by
  by_cases hmul : a * b < 2 ^ w
  · have hno : ¬ MuldivOverflows w a b c := fun h => absurd h.1 (not_le_of_gt hmul)
    rw [safeMuldivU_of_lt hw hc hmul]
    exact ⟨iff_of_true rfl hno, fun _ => rfl⟩
  have hle := not_lt.mp hmul
  have hid := muldiv_identity a b c hc
  rw [safeMuldivU_of_le hw hc hle]
  unfold MuldivOverflows
  rw [and_iff_right hle]
  by_cases hrest : 2 ^ w ≤ max a b % c * min a b
  · -- the flag that this sets is never cleared
    simp [wrapped, hrest]
  rw [wrapped_of_lt (not_le.mp hrest)]
  by_cases hquot : 2 ^ w ≤ max a b / c * min a b
  · have hlarge : 2 ^ w ≤ a * b / c := by
      rw [hid]
      exact le_trans hquot (Nat.le_add_right _ _)
    simp [wrapped, hquot, hlarge]
  dsimp only
  rw [wrapped_of_lt (not_le.mp hquot), ← hid]
  by_cases hlarge : 2 ^ w ≤ a * b / c
  · simp [wrapped, hlarge]
  · rw [wrapped_of_lt (not_le.mp hlarge)]
    simp [hrest, not_le.mp hlarge]

end Muldiv

/-! ### Rounding up -/

theorem div_add_one_eq_ceilDiv (a : ℕ) {b : ℕ} (hb : 0 < b) :
    a / b + (if a % b ≠ 0 then 1 else 0) = a ⌈/⌉ b := by
  have hdiv := Nat.div_add_mod a b
  have hmod := Nat.mod_lt a hb
  rw [Nat.ceilDiv_eq_add_pred_div]
  by_cases hr : a % b = 0
  · have hsum : a + b - 1 = b * (a / b) + (b - 1) := by omega
    have hlast : (b - 1) / b = 0 := Nat.div_eq_of_lt (by omega)
    rw [if_neg (not_not.mpr hr), hsum, Nat.mul_add_div hb, hlast]
  · have hsum : a + b - 1 = b * (a / b + 1) + (a % b - 1) := by
      rw [Nat.mul_add, Nat.mul_one]
      omega
    have hlast : (a % b - 1) / b = 0 := Nat.div_eq_of_lt (by omega)
    rw [if_pos hr, hsum, Nat.mul_add_div hb, hlast]

theorem ceilDiv_le_self (a : ℕ) {b : ℕ} (hb : 0 < b) : a ⌈/⌉ b ≤ a := by
  rw [ceilDiv_le_iff_le_mul hb]
  exact Nat.le_mul_of_pos_left a hb

/-- The quotient is rounded up on both of the paths, and on none of them does it overflow. -/
theorem safeDivRoundUpU_eq {a b : ℕ} (ha : a < 2 ^ w) (hb : b ≠ 0) (err : Bool) :
    safeDivRoundUpU w a b err = (a ⌈/⌉ b, err) := by
  have hpos : 0 < b := Nat.pos_of_ne_zero hb
  unfold safeDivRoundUpU
  by_cases ha0 : a = 0
  · rw [if_neg (by omega), if_neg hb, ha0, zero_ceilDiv]
  rw [if_pos ⟨hpos, Nat.pos_of_ne_zero ha0⟩]
  by_cases hfast : a < maxU w - b
  · have hfits : a + b - 1 < 2 ^ w := by
      have hle := maxU_le w
      have hcast : ((2 ^ w : ℕ) : ℤ) = 2 ^ w := Nat.cast_pow 2 w
      omega
    rw [if_pos hfast, Nat.mod_eq_of_lt hfits, Nat.ceilDiv_eq_add_pred_div]
  · have hfits : a ⌈/⌉ b < 2 ^ w := (ceilDiv_le_self a hpos).trans_lt ha
    rw [if_neg hfast, div_add_one_eq_ceilDiv a hpos, Nat.mod_eq_of_lt hfits]

theorem safeDivRoundUpU_eq_largest :
    safeDivRoundUpU 64 (2 ^ 64 - 1) 2 false = (2 ^ 63, false) :=
  (safeDivRoundUpU_eq (by decide) (by decide) false).trans (by decide +kernel)

end Unsigned

/-! ## Times -/

section Time

def second : ℕ := 1000000000

def microsecond : ℕ := 1000

def timeInfinite : ℕ := 2 ^ 64 - 1

def timeAdd (a b : ℕ) : ℕ :=
  let r := safeAddU 64 a b false
  if r.2 then timeInfinite else r.1

def timeSubtract (a b : ℕ) : ℕ :=
  let r := safeSubU 64 a b false
  if r.2 then 0 else r.1

def timeAbsDifference (a b : ℕ) : ℕ := if b < a then timeSubtract a b else timeSubtract b a

def timeMultiply (a b : ℕ) : ℕ :=
  let r := safeMulU 64 a b false
  if r.2 then timeInfinite else r.1

def timeMuldiv (a b c : ℕ) : ℕ :=
  let r := safeMuldivU 64 a b c false
  if r.2 then 0 else r.1

/-- `struct timeval`. -/
structure Timeval where
  sec : ℤ
  usec : ℤ
  deriving DecidableEq

def timeToTimeval (t : ℕ) : Timeval := ⟨(t / second : ℕ), (t % second / microsecond : ℕ)⟩

def timeFromTimeval (tv : Timeval) : ℕ :=
  if tv.sec < 0 then 0 else ((tv.sec * second + tv.usec * microsecond) % 2 ^ 64).toNat

/-- `ossl_time_now`, given what `gettimeofday` says. -/
def timeNow (tv : Timeval) : ℕ :=
  if tv.sec ≤ 0 then if tv.usec ≤ 0 then 0 else (tv.usec * microsecond % 2 ^ 64).toNat
  else ((tv.sec * 1000000 + tv.usec) * microsecond % 2 ^ 64).toNat

theorem saturated (x : ℕ) :
    (if (wrapped 64 x false).2 = true then timeInfinite else (wrapped 64 x false).1) =
      min x timeInfinite := by
  by_cases h : x < 2 ^ 64
  · rw [wrapped_of_lt h, timeInfinite]
    simp only [Bool.false_eq_true, if_false]
    omega
  · have hflag : (wrapped 64 x false).2 = true := by
      rw [wrapped, decide_eq_true (by omega)]
      rfl
    rw [if_pos hflag, timeInfinite]
    omega

theorem timeSubtract_eq {a b : ℕ} (ha : a < 2 ^ 64) : timeSubtract a b = a - b := by
  unfold timeSubtract safeSubU
  by_cases h : a < b
  · simp only [decide_eq_true h, Bool.or_true, if_true]
    omega
  · simp only [decide_eq_false h, Bool.or_false, Bool.false_eq_true, if_false]
    omega

/-- Sums, differences and products of times saturate, as `time.h` says they do. -/
theorem time_saturates {a b : ℕ} (ha : a < 2 ^ 64) (hb : b < 2 ^ 64) :
    timeAdd a b = min (a + b) timeInfinite ∧ timeSubtract a b = a - b ∧
      timeAbsDifference a b = max a b - min a b ∧ timeMultiply a b = min (a * b) timeInfinite := by
  refine ⟨?_, timeSubtract_eq ha, ?_, ?_⟩
  · unfold timeAdd
    rw [safeAddU_eq (by decide)]
    exact saturated (a + b)
  · unfold timeAbsDifference
    rw [timeSubtract_eq ha, timeSubtract_eq hb]
    split <;> omega
  · unfold timeMultiply
    rw [safeMulU_eq (by decide)]
    exact saturated (a * b)

theorem time_saturates_infinite :
    timeAdd timeInfinite timeInfinite = timeInfinite ∧
      timeMultiply timeInfinite 2 = timeInfinite := by
  have hsum := time_saturates (a := timeInfinite) (b := timeInfinite) (by decide) (by decide)
  have hmul := time_saturates (a := timeInfinite) (b := 2) (by decide) (by decide)
  exact ⟨hsum.1.trans (by decide), hmul.2.2.2.trans (by decide)⟩

/-- Multiplying and dividing without room for the product.  The result is the exact quotient, or
zero, not the largest time, where the quotient does not fit or the remainder of the larger factor is
too large to be multiplied by the smaller one. -/
theorem timeMuldiv_eq (a b : ℕ) {c : ℕ} (hc : c ≠ 0) :
    (MuldivOverflows 64 a b c → timeMuldiv a b c = 0) ∧
      (¬ MuldivOverflows 64 a b c → timeMuldiv a b c = a * b / c) := by
  obtain ⟨hflag, hvalue⟩ := safeMuldivU_spec (w := 64) (by decide) a b hc
  unfold timeMuldiv
  constructor
  · intro h
    have hset : (safeMuldivU 64 a b c false).2 = true := by
      rw [← Bool.not_eq_false, hflag]
      exact not_not.mpr h
    exact if_pos hset
  · intro h
    have hclear := hflag.mpr h
    rw [if_neg (by simp [hclear]), hvalue hclear]

theorem timeMuldiv_eq_spurious :
    timeMuldiv (2 ^ 63) (2 ^ 63) (2 ^ 63 + 1) = 0 ∧
      2 ^ 63 * 2 ^ 63 / (2 ^ 63 + 1) < 2 ^ 64 := by
  have hover : MuldivOverflows 64 (2 ^ 63) (2 ^ 63) (2 ^ 63 + 1) := by
    unfold MuldivOverflows
    decide
  exact ⟨(timeMuldiv_eq (2 ^ 63) (2 ^ 63) (by decide)).1 hover, by decide⟩

theorem toNat_mod_of_lt {x : ℕ} (h : x < 2 ^ 64) : ((x : ℤ) % 2 ^ 64).toNat = x := by
  rw [Int.emod_eq_of_lt (Int.natCast_nonneg x) (by omega), Int.toNat_natCast]

theorem timeFromTimeval_of_lt {s u : ℕ} (h : s * second + u * microsecond < 2 ^ 64) :
    timeFromTimeval ⟨s, u⟩ = s * second + u * microsecond := by
  have hcast : ((s : ℤ) * second + (u : ℤ) * microsecond) = (s * second + u * microsecond : ℕ) := by
    push_cast
    rfl
  unfold timeFromTimeval
  rw [if_neg (by simp), hcast, toNat_mod_of_lt h]

-- At the epoch only the microseconds are looked at.
theorem timeNow_of_lt {s u : ℕ} (h : s * second + u * microsecond < 2 ^ 64) :
    timeNow ⟨s, u⟩ = s * second + u * microsecond := by
  unfold timeNow
  dsimp only
  by_cases hs : s = 0
  · subst hs
    have hcast : ((u : ℤ) * microsecond) = (u * microsecond : ℕ) := by push_cast; rfl
    rw [Nat.zero_mul, Nat.zero_add] at h ⊢
    rw [if_pos (by simp), hcast, toNat_mod_of_lt h]
    split
    · rename_i hu
      rw [show u = 0 by omega, Nat.zero_mul]
    · rfl
  · have hsum : (s * 1000000 + u) * microsecond = s * second + u * microsecond := by
      unfold second microsecond
      omega
    have hcast : (((s : ℤ) * 1000000 + u) * microsecond) =
        ((s * 1000000 + u) * microsecond : ℕ) := by
      push_cast
      rfl
    rw [if_neg (by omega), hcast, hsum, toNat_mod_of_lt h]

/-- Times survive the way through `struct timeval` up to the microseconds it holds, and times of
day within the range come back as they were, however they are read. -/
theorem timeval_roundTrip :
    (∀ t < 2 ^ 64, timeFromTimeval (timeToTimeval t) = t - t % microsecond) ∧
    ∀ s u : ℕ, u < 1000000 → s * second + u * microsecond < 2 ^ 64 →
      timeToTimeval (timeFromTimeval ⟨s, u⟩) = ⟨s, u⟩ ∧
        timeNow ⟨s, u⟩ = timeFromTimeval ⟨s, u⟩ := by
  constructor
  · intro t ht
    have hsum : t / second * second + t % second / microsecond * microsecond =
        t - t % microsecond := by
      unfold second microsecond
      omega
    unfold timeToTimeval
    rw [timeFromTimeval_of_lt (by rw [hsum]; omega), hsum]
  · intro s u hu hlt
    rw [timeFromTimeval_of_lt hlt]
    constructor
    · have hsec : (s * second + u * microsecond) / second = s := by
        unfold second microsecond
        omega
      have husec : (s * second + u * microsecond) % second / microsecond = u := by
        unfold second microsecond
        omega
      rw [timeToTimeval, hsec, husec]
    · exact timeNow_of_lt hlt

end Time

end QudoSSL.Perf
