import QudoSSL.Bench.Analyze
import QudoSSL.Stats.Sample
import Mathlib.Analysis.Real.Sqrt

/-!
# The verdict on a cell

`verdict` decides from the ratios of one cell whether the two builds are separated.  Here are the
rules it enforces, the probability it shows, and what becomes of both when the builds change places.
-/

namespace QudoSSL

open Posix Python

/-- `wilcoxon_all_same(rs)`, where `none` is not-a-number. -/
def wilcoxonAllSame (rs : List ℚ) : Option ℚ :=
  if rs.length ≠ 0 ∧ (signs rs = 0 ∨ signs rs = rs.length) then some (2 / 2 ^ rs.length) else none

/-- The `p` in the detail of a verdict; only SEPARATED has one. -/
def shownP (rs : List ℚ) : Option ℚ :=
  match verdict rs with
  | .separated => wilcoxonAllSame rs
  | _ => none

/-! ## The tests -/

def ZRule (rs : List ℚ) : Prop :=
  4 * sampleVariance rs ≤ rs.length * (average rs - 1) ^ 2

instance (rs : List ℚ) : Decidable (ZRule rs) := inferInstanceAs (Decidable (_ ≤ _))

def FloorRule (rs : List ℚ) : Prop := 1 / 10 ≤ |average rs - 1|

instance (rs : List ℚ) : Decidable (FloorRule rs) := inferInstanceAs (Decidable (_ ≤ _))

theorem zBelow_eq_false_iff (rs : List ℚ) : zBelow rs = false ↔ ZRule rs := by
  unfold zBelow ZRule zMin
  rw [decide_eq_false_iff_not, not_and_or, not_not, not_lt]
  constructor
  · rintro (hzero | h)
    · rw [hzero, mul_zero]
      positivity
    · linarith
  · intro h
    right
    linarith

theorem sampleVariance_nonneg {rs : List ℚ} (hn : 0 < rs.length) : 0 ≤ sampleVariance rs := by
  have hlen : (1 : ℚ) ≤ rs.length := by exact_mod_cast hn
  refine div_nonneg (List.sum_nonneg fun x hx => ?_) (by linarith)
  obtain ⟨r, _, rfl⟩ := List.mem_map.mp hx
  exact sq_nonneg _

/-- `zstat(rs)` of a sample with spread, over the reals. -/
noncomputable def zstat (rs : List ℚ) : ℝ :=
  |(average rs : ℝ) - 1| / (√(sampleVariance rs) / √rs.length)

-- The squared comparison is the one the script makes.
theorem zBelow_iff_zstat_lt {rs : List ℚ} (hn : 0 < rs.length) (hspread : sampleVariance rs ≠ 0) :
    zBelow rs = true ↔ zstat rs < zMin := by
  have hvar : (0 : ℝ) < sampleVariance rs := by
    exact_mod_cast lt_of_le_of_ne (sampleVariance_nonneg hn) hspread.symm
  have hlen : (0 : ℝ) < rs.length := by exact_mod_cast hn
  have hdev : 0 < √(sampleVariance rs : ℝ) / √(rs.length : ℝ) :=
    div_pos (Real.sqrt_pos.mpr hvar) (Real.sqrt_pos.mpr hlen)
  have hsq : (zMin * (√(sampleVariance rs : ℝ) / √(rs.length : ℝ)) : ℝ) ^ 2 =
      zMin ^ 2 * sampleVariance rs / rs.length := by
    rw [mul_pow, div_pow, Real.sq_sqrt hvar.le, Real.sq_sqrt hlen.le, mul_div_assoc]
  have hz : (0 : ℝ) ≤ zMin := by norm_num [zMin]
  have hiff : zstat rs < zMin ↔
      (rs.length : ℝ) * ((average rs : ℝ) - 1) ^ 2 < zMin ^ 2 * sampleVariance rs := by
    rw [zstat, div_lt_iff₀ hdev, ← sq_lt_sq₀ (abs_nonneg _) (mul_nonneg hz hdev.le), hsq, sq_abs,
      lt_div_iff₀ hlen, mul_comm]
  rw [hiff, zBelow, decide_eq_true_eq, and_iff_right hspread]
  exact_mod_cast Iff.rfl

theorem signs_eq_length_iff (rs : List ℚ) : signs rs = rs.length ↔ ∀ r ∈ rs, 1 < r := by
  rw [signs, List.countP_eq_length]
  simp only [decide_eq_true_eq]

theorem signs_eq_zero_iff (rs : List ℚ) : signs rs = 0 ↔ ∀ r ∈ rs, r ≤ 1 := by
  rw [signs, List.countP_eq_zero]
  simp only [decide_eq_true_eq, not_lt]

theorem verdict_eq_separated_iff (rs : List ℚ) :
    verdict rs = .separated ↔
      6 ≤ rs.length ∧ (signs rs = 0 ∨ signs rs = rs.length) ∧ FloorRule rs ∧ ZRule rs := by
  rw [← zBelow_eq_false_iff, FloorRule, ← not_lt, ← not_lt]
  unfold verdict floor
  by_cases hn : rs.length < 6
  · -- whichever test comes first, the verdict is not SEPARATED
    refine iff_of_false ?_ fun h => h.1 hn
    split_ifs <;> exact not_false
  · rw [if_neg (by omega : ¬ rs.length < 2)]
    by_cases hfloor : |average rs - 1| < 1 / 10
    · rw [if_pos hfloor]
      exact iff_of_false Verdict.noConfusion fun h => h.2.2.1 hfloor
    · rw [if_neg hfloor]
      by_cases hsign : signs rs ≠ 0 ∧ signs rs ≠ rs.length
      · rw [if_pos hsign]
        exact iff_of_false Verdict.noConfusion fun h => h.2.1.elim hsign.1 hsign.2
      · rw [if_neg hsign]
        have hsame : signs rs = 0 ∨ signs rs = rs.length := by omega
        cases hz : zBelow rs with
        | true => simp
        | false =>
            rw [if_neg Bool.false_ne_true, if_neg hn]
            exact iff_of_true rfl ⟨hn, hsame, hfloor, rfl⟩

/-- What `verdict` is documented to ask of a separated cell. -/
def Rules (rs : List ℚ) : Prop :=
  6 ≤ rs.length ∧ ((∀ r ∈ rs, 1 < r) ∨ ∀ r ∈ rs, r < 1) ∧ FloorRule rs ∧ ZRule rs

theorem shownP_of_separated {rs : List ℚ} (h : verdict rs = .separated) :
    shownP rs = some (2 / 2 ^ rs.length) := by
  obtain ⟨hn, hsign, _⟩ := (verdict_eq_separated_iff rs).mp h
  rw [shownP, h]
  exact if_pos ⟨by omega, hsign⟩

theorem two_div_two_pow_lt {n : ℕ} (hn : 6 ≤ n) : (2 : ℚ) / 2 ^ n < 1 / 20 := by
  have hpow : (2 : ℚ) ^ 6 ≤ 2 ^ n := pow_le_pow_right₀ (by norm_num) hn
  rw [div_lt_div_iff₀ (by positivity) (by norm_num)]
  norm_num at hpow
  linarith

/-- SEPARATED means that the rules hold, and the `p` shown with it is the sign test's. -/
def DecidesByRules (rs : List ℚ) : Prop :=
  (verdict rs = .separated ↔ Rules rs) ∧
    (verdict rs = .separated →
      shownP rs = some (Stats.signTest rs.length (signs rs)) ∧
        Stats.signTest rs.length (signs rs) = 2 / 2 ^ rs.length ∧
        Stats.signTest rs.length (signs rs) < 1 / 20)

theorem shownP_eq_signTest {rs : List ℚ} (h : verdict rs = .separated) :
    shownP rs = some (Stats.signTest rs.length (signs rs)) ∧
      Stats.signTest rs.length (signs rs) = 2 / 2 ^ rs.length ∧
      Stats.signTest rs.length (signs rs) < 1 / 20 := by
  obtain ⟨hn, hsign, _⟩ := (verdict_eq_separated_iff rs).mp h
  have hp : Stats.signTest rs.length (signs rs) = 2 / 2 ^ rs.length :=
    Stats.signTest_unanimous (by omega) hsign.symm
  rw [hp]
  exact ⟨shownP_of_separated h, rfl, two_div_two_pow_lt hn⟩

theorem separated_iff_of_unanimous {rs : List ℚ} (hn : 6 ≤ rs.length)
    (hsame : (∀ r ∈ rs, 1 < r) ∨ ∀ r ∈ rs, r < 1) :
    verdict rs = .separated ↔ FloorRule rs ∧ ZRule rs := by
  have hsign : signs rs = 0 ∨ signs rs = rs.length := by
    rw [signs_eq_zero_iff, signs_eq_length_iff]
    exact hsame.symm.imp_left fun h r hr => (h r hr).le
  rw [verdict_eq_separated_iff, and_iff_right hn, and_iff_right hsign]

theorem separated_of_rules {rs : List ℚ} (h : Rules rs) : verdict rs = .separated := by
  obtain ⟨hn, hsame, hfloor, hz⟩ := h
  exact (separated_iff_of_unanimous hn hsame).mpr ⟨hfloor, hz⟩

/-- The verdict follows the rules, and shows the exact two-sided probability, except on lists that
pass the other tests with some ratio equal to 1 and none above. -/
theorem verdict_decidesByRules_iff (rs : List ℚ) :
    DecidesByRules rs ↔
      (∀ r ∈ rs, r ≠ 1) ∨ (∃ r ∈ rs, 1 < r) ∨ rs.length < 6 ∨ ¬ FloorRule rs ∨ ¬ ZRule rs := by
  have hrules : DecidesByRules rs ↔ (verdict rs = .separated → Rules rs) :=
    ⟨fun h => h.1.mp, fun h => ⟨⟨h, separated_of_rules⟩, shownP_eq_signTest⟩⟩
  rw [hrules, verdict_eq_separated_iff, signs_eq_zero_iff, signs_eq_length_iff]
  constructor
  · intro h
    by_contra hnot
    push Not at hnot
    obtain ⟨⟨r, hr, hone⟩, hle, hn, hfloor, hz⟩ := hnot
    obtain ⟨_, hsame, _⟩ := h ⟨hn, .inl hle, hfloor, hz⟩
    -- the ratio equal to 1 favours neither build
    rcases hsame with hsame | hsame
    · exact absurd (hsame r hr) (by rw [hone]; exact lt_irrefl 1)
    · exact absurd (hsame r hr) (by rw [hone]; exact lt_irrefl 1)
  · rintro hcond ⟨hn, hsign, hfloor, hz⟩
    refine ⟨hn, ?_, hfloor, hz⟩
    rcases hsign with hle | hgt
    · rcases hcond with hne | ⟨r, hr, hlt⟩ | hshort | hfloor' | hz'
      · exact .inr fun r hr => lt_of_le_of_ne (hle r hr) (hne r hr)
      · exact absurd (hle r hr) (not_le.mpr hlt)
      · exact absurd hshort (by omega)
      · exact absurd hfloor hfloor'
      · exact absurd hz hz'
    · exact .inl hgt

/-- A tie and five repetitions won by OpenSSL. -/
def tiedRatios : List ℚ := [1, 1 / 2, 1 / 2, 1 / 2, 1 / 2, 1 / 2]

/-- SEPARATED, although one repetition favours neither build. -/
theorem verdict_separates_tie : verdict tiedRatios = .separated ∧ ¬ DecidesByRules tiedRatios := by
  have hsep : verdict tiedRatios = .separated := by decide +kernel
  refine ⟨hsep, fun h => ?_⟩
  obtain ⟨_, hsame, _⟩ := h.1.mp hsep
  have htie : (1 : ℚ) ∈ tiedRatios := List.mem_cons_self
  rcases hsame with hsame | hsame
  · exact lt_irrefl 1 (hsame 1 htie)
  · exact lt_irrefl 1 (hsame 1 htie)

/-! ## The z rule in sums -/

/-- The sum of the deviations from 1, and of their squares. -/
def excess (rs : List ℚ) : ℚ := (rs.map (· - 1)).sum

def squares (rs : List ℚ) : ℚ := (rs.map fun r => (r - 1) ^ 2).sum

theorem excess_eq_sub (rs : List ℚ) : excess rs = rs.sum - rs.length := by
  unfold excess
  induction rs with
  | nil => simp
  | cons r rs ih =>
      rw [List.map_cons, List.sum_cons, List.sum_cons, List.length_cons, ih]
      push_cast
      ring

theorem excess_eq {rs : List ℚ} (hn : 0 < rs.length) :
    excess rs = rs.length * (average rs - 1) := by
  have hlen : (rs.length : ℚ) ≠ 0 := by exact_mod_cast hn.ne'
  rw [excess_eq_sub, average]
  field_simp

-- The squares about `c`, from those about 1.
theorem sum_map_sub_sq (rs : List ℚ) (c : ℚ) :
    (rs.map fun r => (r - c) ^ 2).sum =
      squares rs - 2 * (c - 1) * excess rs + rs.length * (c - 1) ^ 2 := by
  unfold squares excess
  induction rs with
  | nil => simp
  | cons r rs ih =>
      simp only [List.map_cons, List.sum_cons, List.length_cons, ih]
      push_cast
      ring

theorem zRule_iff_sums {rs : List ℚ} (hn : 2 ≤ rs.length) :
    ZRule rs ↔ 4 * (rs.length : ℚ) * squares rs ≤ (rs.length + 3) * excess rs ^ 2 := by
  have hlen : (2 : ℚ) ≤ rs.length := by exact_mod_cast hn
  have hpos : (0 : ℚ) < rs.length - 1 := by linarith
  have hsum : excess rs = rs.length * (average rs - 1) := excess_eq (by omega)
  have hdev : (rs.map fun r => (r - average rs) ^ 2).sum =
      squares rs - rs.length * (average rs - 1) ^ 2 := by
    rw [sum_map_sub_sq, hsum]
    ring
  rw [ZRule, sampleVariance, hdev, hsum, mul_div_assoc', div_le_iff₀ hpos]
  -- the right side is the left one times the number of repetitions
  rw [← mul_le_mul_iff_right₀ (show (0 : ℚ) < rs.length by linarith), ← sub_nonneg,
    ← @sub_nonneg ℚ _ _ _ _ (4 * (rs.length : ℚ) * squares rs)]
  refine Eq.to_iff (congrArg (0 ≤ ·) ?_)
  ring

/-! ## The builds exchanged -/

theorem excess_map_inv (rs : List ℚ) :
    excess (rs.map (·⁻¹)) = -(rs.map fun r => 1 - r⁻¹).sum := by
  unfold excess
  induction rs with
  | nil => simp
  | cons r rs ih =>
      simp only [List.map_cons, List.sum_cons, ih]
      ring

theorem squares_map_inv (rs : List ℚ) :
    squares (rs.map (·⁻¹)) = (rs.map fun r => (1 - r⁻¹) ^ 2).sum := by
  rw [squares, List.map_map]
  refine congrArg List.sum (List.map_congr_left fun r _ => ?_)
  show (r⁻¹ - 1) ^ 2 = (1 - r⁻¹) ^ 2
  ring

-- Inverting draws ratios above 1 closer together: `1 - 1 / r` shrinks `r - 1` by the factor `r`.
theorem squares_map_inv_le {rs : List ℚ} (hgt : ∀ r ∈ rs, 1 < r) :
    squares (rs.map (·⁻¹)) * excess rs ^ 2 ≤ squares rs * excess (rs.map (·⁻¹)) ^ 2 := by
  have hcross : ∀ r ∈ rs, ∀ t ∈ rs,
      (1 - r⁻¹) * (t - 1) - (r - 1) * (1 - t⁻¹) = -((r - 1) * (t - 1) * (r * t)⁻¹) * (r - t) := by
    intro r hr t ht
    have hr' : r ≠ 0 := by linarith [hgt r hr]
    have ht' : t ≠ 0 := by linarith [hgt t ht]
    field_simp
    ring
  have hfactor : ∀ r ∈ rs, ∀ t ∈ rs, 0 ≤ (r - 1) * (t - 1) * (r * t)⁻¹ := by
    intro r hr t ht
    have hr' := hgt r hr
    have ht' := hgt t ht
    have hpos : 0 ≤ (r * t)⁻¹ := inv_nonneg.mpr (by positivity)
    exact mul_nonneg (mul_nonneg (by linarith) (by linarith)) hpos
  rw [squares_map_inv, excess_map_inv, neg_sq]
  refine Stats.list_sum_sq_mul_sq_sum_le rs (d := fun r => r - 1) (e := fun r => 1 - r⁻¹)
    ?_ ?_ ?_ ?_
  · intro r hr
    linarith [hgt r hr]
  · intro r hr
    exact sub_nonneg.mpr (inv_le_one_of_one_le₀ (hgt r hr).le)
  · intro r hr t ht
    have hprod := mul_nonneg (hfactor r hr t ht) (sq_nonneg (r - t))
    rw [hcross r hr t ht]
    linarith
  · intro r hr t ht
    have hr' : 0 < r := by linarith [hgt r hr]
    have ht' : 0 < t := by linarith [hgt t ht]
    have hdiff : 1 - r⁻¹ - (1 - t⁻¹) = (r * t)⁻¹ * (r - t) := by
      field_simp
      ring
    have hprod := mul_nonneg (mul_nonneg (hfactor r hr t ht) (sq_nonneg (r - t)))
      (inv_nonneg.mpr (mul_pos hr' ht').le)
    rw [hcross r hr t ht, hdiff]
    linarith

theorem excess_pos {rs : List ℚ} (hn : 0 < rs.length) (hgt : ∀ r ∈ rs, 1 < r) : 0 < excess rs := by
  refine List.sum_pos _ (fun x hx => ?_) (by simpa [← List.length_pos_iff] using hn)
  obtain ⟨r, hr, rfl⟩ := List.mem_map.mp hx
  linarith [hgt r hr]

-- Ratios above 1 that pass the z rule pass it inverted.
theorem ZRule.map_inv {rs : List ℚ} (hn : 2 ≤ rs.length) (hgt : ∀ r ∈ rs, 1 < r) (hz : ZRule rs) :
    ZRule (rs.map (·⁻¹)) := by
  have hn' : 2 ≤ (rs.map (·⁻¹)).length := by rwa [List.length_map]
  rw [zRule_iff_sums hn] at hz
  rw [zRule_iff_sums hn', List.length_map]
  have hpos : 0 < excess rs ^ 2 := pow_pos (excess_pos (by omega) hgt) 2
  refine le_of_mul_le_mul_right ?_ hpos
  calc 4 * (rs.length : ℚ) * squares (rs.map (·⁻¹)) * excess rs ^ 2
      = 4 * (rs.length : ℚ) * (squares (rs.map (·⁻¹)) * excess rs ^ 2) := by ring
    _ ≤ 4 * (rs.length : ℚ) * (squares rs * excess (rs.map (·⁻¹)) ^ 2) :=
        mul_le_mul_of_nonneg_left (squares_map_inv_le hgt) (by positivity)
    _ = 4 * (rs.length : ℚ) * squares rs * excess (rs.map (·⁻¹)) ^ 2 := by ring
    _ ≤ (rs.length + 3) * excess rs ^ 2 * excess (rs.map (·⁻¹)) ^ 2 :=
        mul_le_mul_of_nonneg_right hz (sq_nonneg _)
    _ = (rs.length + 3) * excess (rs.map (·⁻¹)) ^ 2 * excess rs ^ 2 := by ring

theorem average_pos {rs : List ℚ} (hn : 0 < rs.length) (hpos : ∀ r ∈ rs, 0 < r) :
    0 < average rs := by
  have hlen : (0 : ℚ) < rs.length := by exact_mod_cast hn
  exact div_pos (List.sum_pos _ hpos (List.length_pos_iff.mp hn)) hlen

theorem average_le_one {rs : List ℚ} (hn : 0 < rs.length) (hlt : ∀ r ∈ rs, r < 1) :
    average rs ≤ 1 := by
  have hlen : (0 : ℚ) < rs.length := by exact_mod_cast hn
  have hsum := List.sum_le_card_nsmul rs 1 fun r hr => (hlt r hr).le
  rw [nsmul_one] at hsum
  rwa [average, div_le_one hlen]

theorem one_le_average_mul_average_inv {rs : List ℚ} (hn : 0 < rs.length)
    (hpos : ∀ r ∈ rs, 0 < r) : 1 ≤ average rs * average (rs.map (·⁻¹)) := by
  have hlen : (0 : ℚ) < rs.length := by exact_mod_cast hn
  have hmeans := Stats.list_length_sq_le_sum_mul_sum_inv rs (r := id) hpos
  rw [List.map_id] at hmeans
  have havg : average rs * average (rs.map (·⁻¹)) =
      rs.sum * (rs.map (·⁻¹)).sum / (rs.length : ℚ) ^ 2 := by
    unfold average
    rw [List.length_map, sq, div_mul_div_comm]
  rw [havg, le_div_iff₀ (by positivity), one_mul]
  exact hmeans

-- Ratios below 1 that pass the floor pass it inverted.
theorem FloorRule.map_inv {rs : List ℚ} (hn : 0 < rs.length) (hpos : ∀ r ∈ rs, 0 < r)
    (hlt : ∀ r ∈ rs, r < 1) (hfloor : FloorRule rs) : FloorRule (rs.map (·⁻¹)) := by
  have hmeans := one_le_average_mul_average_inv hn hpos
  have havg := average_pos hn hpos
  have hle := average_le_one hn hlt
  unfold FloorRule at *
  have hsmall : average rs ≤ 9 / 10 := by
    rw [abs_of_nonpos (by linarith)] at hfloor
    linarith
  have hlarge : 10 / 9 ≤ average (rs.map (·⁻¹)) := by
    rw [← mul_le_mul_iff_right₀ havg]
    linarith
  rw [abs_of_nonneg (by linarith)]
  linarith

/-- A build's positive measurements by repetition number. -/
structure Measurements where
  reps : Dict ℕ ℚ
  pos : ∀ k v, reps.lookup k = some v → 0 < v

namespace Measurements

variable (a b : Measurements)

def value (k : ℕ) : ℚ := (a.reps.lookup k).getD 0

theorem value_pos {k : ℕ} (hk : k ∈ a.reps) : 0 < a.value k := by
  obtain ⟨v, hv⟩ := Option.isSome_iff_exists.mp (AList.lookup_isSome.mpr hk)
  rw [value, hv]
  exact a.pos k v hv

/-- The ratios of `a` to `b` over their common repetitions. -/
def ratios : List ℚ := (Dict.commonKeys a.reps b.reps).map fun k => a.value k / b.value k

theorem paired_eq : Dict.paired a.reps b.reps = .ok (a.ratios b) := by
  refine Dict.ratios_eq fun k hk => ?_
  exact (b.value_pos ((Dict.mem_commonKeys _ _ _).mp hk).2).ne'

theorem ratios_swap : b.ratios a = (a.ratios b).map (·⁻¹) := by
  rw [ratios, ratios, Dict.commonKeys_comm, List.map_map]
  exact List.map_congr_left fun k _ => (inv_div _ _).symm

theorem ratios_pos : ∀ r ∈ a.ratios b, 0 < r := by
  intro r hr
  obtain ⟨k, hk, rfl⟩ := List.mem_map.mp hr
  obtain ⟨ha, hb⟩ := (Dict.mem_commonKeys _ _ _).mp hk
  exact div_pos (a.value_pos ha) (b.value_pos hb)

/-- No repetition gives both builds the same measurement. -/
def NoTie : Prop := ∀ k v, a.reps.lookup k = some v → b.reps.lookup k ≠ some v

theorem ratios_ne_one (h : a.NoTie b) : ∀ r ∈ a.ratios b, r ≠ 1 := by
  intro r hr
  obtain ⟨k, hk, rfl⟩ := List.mem_map.mp hr
  obtain ⟨ha, hb⟩ := (Dict.mem_commonKeys _ _ _).mp hk
  rw [ne_eq, div_eq_one_iff_eq (b.value_pos hb).ne']
  obtain ⟨v, hv⟩ := Option.isSome_iff_exists.mp (AList.lookup_isSome.mpr ha)
  obtain ⟨w, hw⟩ := Option.isSome_iff_exists.mp (AList.lookup_isSome.mpr hb)
  rw [value, value, hv, hw, Option.getD_some, Option.getD_some]
  rintro rfl
  exact h k v hv hw

end Measurements

theorem separated_map_inv_of_above {rs : List ℚ} (hgt : ∀ r ∈ rs, 1 < r)
    (hsep : verdict rs = .separated) :
    verdict (rs.map (·⁻¹)) = .separated ↔ FloorRule (rs.map (·⁻¹)) := by
  obtain ⟨hn, _, _, hz⟩ := (verdict_eq_separated_iff rs).mp hsep
  have hn' : 6 ≤ (rs.map (·⁻¹)).length := by rwa [List.length_map]
  have hlt : ∀ r ∈ rs.map (·⁻¹), r < 1 := by
    intro r hr
    obtain ⟨t, ht, rfl⟩ := List.mem_map.mp hr
    exact inv_lt_one_of_one_lt₀ (hgt t ht)
  rw [separated_iff_of_unanimous hn' (.inr hlt)]
  exact and_iff_left (hz.map_inv (by omega) hgt)

theorem separated_map_inv_of_below {rs : List ℚ} (hpos : ∀ r ∈ rs, 0 < r) (hlt : ∀ r ∈ rs, r < 1)
    (hsep : verdict rs = .separated) :
    verdict (rs.map (·⁻¹)) = .separated ↔ ZRule (rs.map (·⁻¹)) := by
  obtain ⟨hn, _, hfloor, _⟩ := (verdict_eq_separated_iff rs).mp hsep
  have hn' : 6 ≤ (rs.map (·⁻¹)).length := by rwa [List.length_map]
  have hgt : ∀ r ∈ rs.map (·⁻¹), 1 < r := by
    intro r hr
    obtain ⟨t, ht, rfl⟩ := List.mem_map.mp hr
    exact (one_lt_inv₀ (hpos t ht)).mpr (hlt t ht)
  rw [separated_iff_of_unanimous hn' (.inl hgt)]
  exact and_iff_right (hfloor.map_inv (by omega) hpos hlt)

/-- Between builds without a tie, SEPARATED in one order fails in the other only at the floor, if
the ratios were above 1, or only at the z rule, if they were below. -/
theorem verdict_exchange (a b : Measurements) (hties : a.NoTie b) :
    ∃ rs rs', Dict.paired a.reps b.reps = .ok rs ∧ Dict.paired b.reps a.reps = .ok rs' ∧
      (verdict rs = .separated →
        ((∀ r ∈ rs, 1 < r) ∧ (verdict rs' = .separated ↔ FloorRule rs')) ∨
          ((∀ r ∈ rs, r < 1) ∧ (verdict rs' = .separated ↔ ZRule rs'))) := by
  refine ⟨_, _, a.paired_eq b, b.paired_eq a, fun hsep => ?_⟩
  rw [a.ratios_swap b]
  have hpos := a.ratios_pos b
  obtain ⟨_, hsign, _⟩ := (verdict_eq_separated_iff _).mp hsep
  rw [signs_eq_zero_iff, signs_eq_length_iff] at hsign
  rcases hsign with hle | hgt
  · have hlt : ∀ r ∈ a.ratios b, r < 1 :=
      fun r hr => lt_of_le_of_ne (hle r hr) (a.ratios_ne_one b hties r hr)
    exact .inr ⟨hlt, separated_map_inv_of_below hpos hlt hsep⟩
  · exact .inl ⟨hgt, separated_map_inv_of_above hgt hsep⟩

def sixReps (v : ℕ → ℚ) : Dict ℕ ℚ :=
  ⟨[1, 2, 3, 4, 5, 6].map fun k => ⟨k, v k⟩, by simp [List.NodupKeys, List.keys]⟩

theorem eq_of_lookup_sixReps {v : ℕ → ℚ} {k : ℕ} {x : ℚ} (h : (sixReps v).lookup k = some x) :
    x = v k := by
  obtain ⟨i, _, hi⟩ := List.mem_map.mp (List.of_mem_dlookup (Option.mem_def.mpr h))
  cases hi
  rfl

/-- Six repetitions. -/
def sixRuns (v : ℕ → ℚ) (hv : ∀ k, 0 < v k) : Measurements :=
  ⟨sixReps v, fun k _ h => eq_of_lookup_sixReps h ▸ hv k⟩

def baseline : Measurements := sixRuns (fun _ => 1) fun _ => one_pos

def tenthFaster : Measurements := sixRuns (fun _ => 11 / 10) fun _ => by norm_num

/-- A tenth slower five times, and half as fast once. -/
def unevenlySlower : Measurements :=
  sixRuns (fun k => if k = 6 then 1 / 2 else 10 / 11) fun k => by split <;> norm_num

theorem verdict_exchange_tenthFaster :
    tenthFaster.NoTie baseline ∧
      ∃ rs rs', Dict.paired tenthFaster.reps baseline.reps = .ok rs ∧
        Dict.paired baseline.reps tenthFaster.reps = .ok rs' ∧
        (verdict rs = .separated →
          ((∀ r ∈ rs, 1 < r) ∧ (verdict rs' = .separated ↔ FloorRule rs')) ∨
            ((∀ r ∈ rs, r < 1) ∧ (verdict rs' = .separated ↔ ZRule rs'))) := by
  have hties : tenthFaster.NoTie baseline := by
    intro k v ha hb
    have heq : (11 / 10 : ℚ) = 1 := (eq_of_lookup_sixReps ha).symm.trans (eq_of_lookup_sixReps hb)
    norm_num at heq
  exact ⟨hties, verdict_exchange _ _ hties⟩

/-- A constant lead of a tenth is SEPARATED, and parity the other way; an uneven lag is SEPARATED,
and too uneven the other way. -/
theorem verdict_exchange_differs :
    ((Dict.paired tenthFaster.reps baseline.reps).map verdict = .ok .separated ∧
        (Dict.paired baseline.reps tenthFaster.reps).map verdict = .ok .parity) ∧
      (Dict.paired unevenlySlower.reps baseline.reps).map verdict = .ok .separated ∧
        (Dict.paired baseline.reps unevenlySlower.reps).map verdict = .ok .weak := by
  decide +kernel

end QudoSSL
