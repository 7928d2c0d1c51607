import Mathlib.Algebra.BigOperators.Field
import Mathlib.Algebra.BigOperators.Fin
import Mathlib.Algebra.Order.BigOperators.Ring.Finset
import Mathlib.Data.Fintype.Pi
import Mathlib.Data.Rat.Cast.Order
import Mathlib.Tactic.FieldSimp
import Mathlib.Tactic.Linarith
import Mathlib.Tactic.Ring

/-!
# Samples

The two-sided sign test, and inequalities between the sums of a sample and the sums of its values
transformed: inverted, or shrunk the more the larger they are.
-/

namespace Stats

open Finset

/-! ## The sign test -/

/-- The number of repetitions that go one way. -/
def favoured {n : ℕ} (b : Fin n → Bool) : ℕ := (univ.filter fun i => b i = true).card

/-- The larger side of an outcome in which `k` of `n` repetitions go one way. -/
def majority (n k : ℕ) : ℕ := max k (n - k)

/-- The share, among the `2 ^ n` ways in which `n` repetitions can go, of those with at least the
majority that was observed. -/
def signTest (n k : ℕ) : ℚ :=
  (univ.filter fun b : Fin n → Bool => majority n k ≤ majority n (favoured b)).card / 2 ^ n

theorem le_majority_iff {n k : ℕ} (hk : k ≤ n) : n ≤ majority n k ↔ k = n ∨ k = 0 := by
  unfold majority
  omega

theorem favoured_le {n : ℕ} (b : Fin n → Bool) : favoured b ≤ n := by
  have hle := card_filter_le univ fun i => b i = true
  rwa [card_univ, Fintype.card_fin] at hle

theorem favoured_eq_iff {n : ℕ} (b : Fin n → Bool) : favoured b = n ↔ b = fun _ => true := by
  have huniv :
      favoured b = n ↔ (univ.filter fun i => b i = true).card = (univ : Finset (Fin n)).card := by
    rw [card_univ, Fintype.card_fin, favoured]
  rw [huniv, card_filter_eq_iff, funext_iff]
  exact ⟨fun h i => h i (mem_univ i), fun h i _ => h i⟩

theorem favoured_eq_zero_iff {n : ℕ} (b : Fin n → Bool) :
    favoured b = 0 ↔ b = fun _ => false := by
  rw [favoured, card_eq_zero, filter_eq_empty_iff, funext_iff]
  exact ⟨fun h i => Bool.not_eq_true _ ▸ h (mem_univ i), fun h i _ => Bool.not_eq_true _ ▸ h i⟩

theorem signTest_unanimous {n k : ℕ} (hn : 0 < n) (hk : k = n ∨ k = 0) :
    signTest n k = 2 / 2 ^ n := by
  have hmax : majority n k = n := by
    unfold majority
    omega
  have hset : univ.filter (fun b : Fin n → Bool => majority n k ≤ majority n (favoured b)) =
      {fun _ => true, fun _ => false} := by
    ext b
    rw [mem_filter_univ, hmax, le_majority_iff (favoured_le b), favoured_eq_iff,
      favoured_eq_zero_iff, mem_insert, mem_singleton]
  have hne : (fun _ : Fin n => true) ≠ fun _ => false :=
    fun h => Bool.noConfusion (congrFun h ⟨0, hn⟩)
  rw [signTest, hset, card_pair hne, Nat.cast_ofNat]

/-! ## Sums -/

section Sums

variable {ι K : Type*} {s : Finset ι}

-- Every pair of indices is met twice, once from either side.
theorem two_mul_sum_sum [CommRing K] (F : ι → ι → K) :
    2 * ∑ i ∈ s, ∑ j ∈ s, F i j = ∑ i ∈ s, ∑ j ∈ s, (F i j + F j i) := by
  have hswap : ∑ i ∈ s, ∑ j ∈ s, F j i = ∑ i ∈ s, ∑ j ∈ s, F i j := sum_comm
  simp only [sum_add_distrib]
  rw [hswap, two_mul]

variable [Field K] [LinearOrder K] [IsStrictOrderedRing K]

-- Where `x` is large, `u` is small compared with `v`; so `x` weighs `u` less than it weighs `v`.
theorem sum_mul_sum_le {x u v : ι → K}
    (h : ∀ i ∈ s, ∀ j ∈ s, (x i - x j) * (u i * v j - v i * u j) ≤ 0) :
    (∑ i ∈ s, x i * u i) * ∑ i ∈ s, v i ≤ (∑ i ∈ s, x i * v i) * ∑ i ∈ s, u i := by
  have hdiff : (∑ i ∈ s, x i * u i) * ∑ i ∈ s, v i - (∑ i ∈ s, x i * v i) * ∑ i ∈ s, u i =
      ∑ i ∈ s, ∑ j ∈ s, x i * (u i * v j - v i * u j) := by
    rw [sum_mul_sum, sum_mul_sum, ← sum_sub_distrib]
    refine sum_congr rfl fun i _ => ?_
    rw [← sum_sub_distrib]
    exact sum_congr rfl fun j _ => by ring
  have htwice : 2 * ∑ i ∈ s, ∑ j ∈ s, x i * (u i * v j - v i * u j) ≤ 0 := by
    rw [two_mul_sum_sum]
    refine sum_nonpos fun i hi => sum_nonpos fun j hj => ?_
    have hij : x i * (u i * v j - v i * u j) + x j * (u j * v i - v j * u i) =
        (x i - x j) * (u i * v j - v i * u j) := by ring
    rw [hij]
    exact h i hi j hj
  linarith

/-- A transformation that shrinks large values by more than small ones brings the values of a sample
closer together, relative to their sum. -/
theorem sum_sq_mul_sq_sum_le {d e : ι → K} (hd : ∀ i ∈ s, 0 ≤ d i) (he : ∀ i ∈ s, 0 ≤ e i)
    (hshrink : ∀ i ∈ s, ∀ j ∈ s, (d i - d j) * (e i * d j - d i * e j) ≤ 0)
    (hmono : ∀ i ∈ s, ∀ j ∈ s, (e i - e j) * (e i * d j - d i * e j) ≤ 0) :
    (∑ i ∈ s, e i ^ 2) * (∑ i ∈ s, d i) ^ 2 ≤ (∑ i ∈ s, d i ^ 2) * (∑ i ∈ s, e i) ^ 2 := by
  have hd' : 0 ≤ ∑ i ∈ s, d i := sum_nonneg hd
  have he' : 0 ≤ ∑ i ∈ s, e i := sum_nonneg he
  have hfirst := sum_mul_sum_le hmono
  have hsecond := sum_mul_sum_le hshrink
  have hcomm : ∑ i ∈ s, e i * d i = ∑ i ∈ s, d i * e i := sum_congr rfl fun i _ => mul_comm _ _
  calc (∑ i ∈ s, e i ^ 2) * (∑ i ∈ s, d i) ^ 2
      = ((∑ i ∈ s, e i * e i) * ∑ i ∈ s, d i) * ∑ i ∈ s, d i := by simp only [sq]; ring
    _ ≤ ((∑ i ∈ s, e i * d i) * ∑ i ∈ s, e i) * ∑ i ∈ s, d i :=
        mul_le_mul_of_nonneg_right hfirst hd'
    _ = ((∑ i ∈ s, d i * e i) * ∑ i ∈ s, d i) * ∑ i ∈ s, e i := by rw [hcomm]; ring
    _ ≤ ((∑ i ∈ s, d i * d i) * ∑ i ∈ s, e i) * ∑ i ∈ s, e i :=
        mul_le_mul_of_nonneg_right hsecond he'
    _ = (∑ i ∈ s, d i ^ 2) * (∑ i ∈ s, e i) ^ 2 := by simp only [sq]; ring

-- The mean of the inverses is at least the inverse of the mean.
theorem card_sq_le_sum_mul_sum_inv {r : ι → K} (hr : ∀ i ∈ s, 0 < r i) :
    (s.card : K) ^ 2 ≤ (∑ i ∈ s, r i) * ∑ i ∈ s, (r i)⁻¹ := by
  have hcs := sum_sq_le_sum_mul_sum_of_sq_le_mul s (r := fun _ => (1 : K))
    (fun i hi => (hr i hi).le) (fun i hi => (inv_pos.mpr (hr i hi)).le)
    (fun i hi => by rw [mul_inv_cancel₀ (hr i hi).ne', one_pow])
  simpa using hcs

-- Sums that are ordered term by term differ when some term does.
theorem sum_lt_sum_iff_of_le {u v : ι → K} (h : ∀ i ∈ s, u i ≤ v i) :
    ∑ i ∈ s, u i < ∑ i ∈ s, v i ↔ ∃ i ∈ s, u i ≠ v i := by
  rw [lt_iff_le_and_ne, and_iff_right (sum_le_sum h), ne_eq, sum_eq_sum_iff_of_le h]
  push Not
  rfl

/-- Where no ratio of a sample contradicts another, the mean ratio and the two means name the same
side. -/
theorem card_lt_sum_div_iff {u v : ι → K} (hv : ∀ i ∈ s, 0 < v i)
    (h : (∀ i ∈ s, u i ≤ v i) ∨ ∀ i ∈ s, v i ≤ u i) :
    (s.card : K) < ∑ i ∈ s, u i / v i ↔ ∑ i ∈ s, v i < ∑ i ∈ s, u i := by
  have hone : (s.card : K) = ∑ _i ∈ s, 1 := by rw [sum_const, nsmul_one]
  rw [hone]
  rcases h with hle | hge
  · have hratio : ∀ i ∈ s, u i / v i ≤ 1 := fun i hi => (div_le_one₀ (hv i hi)).mpr (hle i hi)
    exact iff_of_false (not_lt.mpr (sum_le_sum hratio)) (not_lt.mpr (sum_le_sum hle))
  · have hratio : ∀ i ∈ s, 1 ≤ u i / v i := fun i hi => (one_le_div₀ (hv i hi)).mpr (hge i hi)
    rw [sum_lt_sum_iff_of_le hratio, sum_lt_sum_iff_of_le hge]
    refine exists_congr fun i => and_congr_right fun hi => ?_
    rw [ne_eq, eq_comm, div_eq_one_iff_eq (hv i hi).ne', ne_eq, eq_comm]

/-! ## Samples as lists -/

variable (l : List ι)

theorem list_sum_sq_mul_sq_sum_le {d e : ι → K} (hd : ∀ i ∈ l, 0 ≤ d i) (he : ∀ i ∈ l, 0 ≤ e i)
    (hshrink : ∀ i ∈ l, ∀ j ∈ l, (d i - d j) * (e i * d j - d i * e j) ≤ 0)
    (hmono : ∀ i ∈ l, ∀ j ∈ l, (e i - e j) * (e i * d j - d i * e j) ≤ 0) :
    (l.map fun i => e i ^ 2).sum * (l.map d).sum ^ 2 ≤
      (l.map fun i => d i ^ 2).sum * (l.map e).sum ^ 2 := by
  have hmem : ∀ i : Fin l.length, l[i.1] ∈ l := fun i => List.getElem_mem i.2
  have h := sum_sq_mul_sq_sum_le (s := (univ : Finset (Fin l.length)))
    (d := fun i => d l[i.1]) (e := fun i => e l[i.1]) (fun i _ => hd _ (hmem i))
    (fun i _ => he _ (hmem i)) (fun i _ j _ => hshrink _ (hmem i) _ (hmem j))
    (fun i _ j _ => hmono _ (hmem i) _ (hmem j))
  rwa [Fin.sum_univ_fun_getElem l fun i => e i ^ 2, Fin.sum_univ_fun_getElem l d,
    Fin.sum_univ_fun_getElem l fun i => d i ^ 2, Fin.sum_univ_fun_getElem l e] at h

theorem list_length_sq_le_sum_mul_sum_inv {r : ι → K} (hr : ∀ i ∈ l, 0 < r i) :
    (l.length : K) ^ 2 ≤ (l.map r).sum * (l.map fun i => (r i)⁻¹).sum := by
  have h := card_sq_le_sum_mul_sum_inv (s := (univ : Finset (Fin l.length)))
    (r := fun i => r l[i.1]) fun i _ => hr _ (List.getElem_mem i.2)
  rwa [card_univ, Fintype.card_fin, Fin.sum_univ_fun_getElem l r,
    Fin.sum_univ_fun_getElem l fun i => (r i)⁻¹] at h

theorem one_lt_mean_div_iff {u v : ι → K} (hl : l ≠ []) (hv : ∀ i ∈ l, 0 < v i)
    (h : (∀ i ∈ l, u i ≤ v i) ∨ ∀ i ∈ l, v i ≤ u i) :
    1 < (l.map fun i => u i / v i).sum / l.length ↔
      (l.map v).sum / l.length < (l.map u).sum / l.length := by
  have hlen : (0 : K) < l.length := by exact_mod_cast List.length_pos_iff.mpr hl
  have hmem : ∀ i : Fin l.length, l[i.1] ∈ l := fun i => List.getElem_mem i.2
  have hiff := card_lt_sum_div_iff (s := (univ : Finset (Fin l.length)))
    (u := fun i => u l[i.1]) (v := fun i => v l[i.1]) (fun i _ => hv _ (hmem i))
    (h.imp (fun h i _ => h _ (hmem i)) fun h i _ => h _ (hmem i))
  rw [card_univ, Fintype.card_fin, Fin.sum_univ_fun_getElem l fun i => u i / v i,
    Fin.sum_univ_fun_getElem l u, Fin.sum_univ_fun_getElem l v] at hiff
  rw [lt_div_iff₀ hlen, one_mul, div_lt_div_iff_of_pos_right hlen]
  exact hiff

end Sums

end Stats
