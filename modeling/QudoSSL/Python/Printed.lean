import QudoSSL.Posix.Sort
import QudoSSL.Python.Values
import Mathlib.Tactic.FieldSimp

/-!
# Numbers printed by C, read by Python

`printf "%.*f"` on a quotient of two natural numbers, correctly rounded, and what `float` makes of
the text.
-/

namespace Python

open Posix

/-! ## Rounding -/

/-- The integer nearest to `a / b`, the even one of two. -/
def nearest (a b : ℕ) : ℕ :=
  if 2 * (a % b) < b then a / b
  else if b < 2 * (a % b) then a / b + 1
  else a / b + a / b % 2

theorem nearest_eq_of_dvd {a b : ℕ} (hb : 0 < b) (h : b ∣ a) : nearest a b = a / b := by
  rw [nearest, Nat.mod_eq_zero_of_dvd h, if_pos (by omega)]

theorem nearest_mul_self (n : ℕ) {b : ℕ} (hb : 0 < b) : nearest (n * b) b = n := by
  rw [nearest_eq_of_dvd hb (Nat.dvd_mul_left b n), Nat.mul_div_cancel n hb]

theorem nearest_one (a : ℕ) : nearest a 1 = a := by
  rw [nearest_eq_of_dvd Nat.one_pos (Nat.one_dvd a), Nat.div_one]

/-! ## Texts -/

/-- `printf "%.{places}f"` of `a / b`. -/
def printRatio (places a b : ℕ) : Text :=
  let n := nearest (a * 10 ^ places) b
  if places = 0 then decimal n
  else decimal (n / 10 ^ places) ++ '.' :: zeroPad places (n % 10 ^ places)

theorem exists_cons_decimal (n : ℕ) : ∃ c t, decimal n = c :: t ∧ c.isDigit = true := by
  obtain ⟨c, t, h⟩ := List.exists_cons_of_ne_nil (decimal_ne_nil n)
  exact ⟨c, t, h, isDigit_of_mem_decimal (n := n) (by rw [h]; exact List.mem_cons_self)⟩

theorem sign_of_isDigit {c : Char} (h : c.isDigit = true) (t : Text) :
    sign (c :: t) = (false, c :: t) := by
  have hminus : c ≠ '-' := by rintro rfl; exact absurd h (by decide)
  have hplus : c ≠ '+' := by rintro rfl; exact absurd h (by decide)
  unfold sign
  split
  · next heq => exact absurd (List.cons.inj heq).1 hminus
  · next heq => exact absurd (List.cons.inj heq).1 hplus
  · rfl

theorem sign_decimal_append (n : ℕ) (t : Text) :
    sign (decimal n ++ t) = (false, decimal n ++ t) := by
  obtain ⟨c, s, h, hc⟩ := exists_cons_decimal n
  rw [h, List.cons_append]
  exact sign_of_isDigit hc _

theorem numeral_decimal (n : ℕ) : numeral (decimal n) = some (n : ℚ) := by
  have hdigits : ∀ c ∈ decimal n, c.isDigit = true := fun c hc => isDigit_of_mem_decimal hc
  have hsign : sign (decimal n) = (false, decimal n) := by
    simpa using sign_decimal_append n []
  have htake : (decimal n).takeWhile Char.isDigit = decimal n :=
    List.takeWhile_eq_self_iff.mpr hdigits
  have hdrop : (decimal n).dropWhile Char.isDigit = [] := List.dropWhile_eq_nil_iff.mpr hdigits
  simp [numeral, hsign, htake, hdrop, decimal_ne_nil, exponent, scale, ofDigitChars_decimal]

/-- A whole number and a fraction of fixed width. -/
theorem numeral_point (w : ℕ) {f : Text} (hf : AllDigits f) (hne : f ≠ []) :
    numeral (decimal w ++ '.' :: f) =
      some (((w * 10 ^ f.length + digitsValue f : ℕ) : ℚ) / 10 ^ f.length) := by
  have hdigits : ∀ c ∈ decimal w, c.isDigit = true := fun c hc => isDigit_of_mem_decimal hc
  have htake : (decimal w ++ '.' :: f).takeWhile Char.isDigit = decimal w := by
    rw [List.takeWhile_append_of_pos hdigits, List.takeWhile_cons_of_neg (by decide),
      List.append_nil]
  have hdrop : (decimal w ++ '.' :: f).dropWhile Char.isDigit = '.' :: f := by
    rw [List.dropWhile_append_of_pos hdigits, List.dropWhile_cons_of_neg (by decide)]
  have htake' : f.takeWhile Char.isDigit = f := List.takeWhile_eq_self_iff.mpr hf
  have hdrop' : f.dropWhile Char.isDigit = [] := List.dropWhile_eq_nil_iff.mpr hf
  have hvalue : Nat.ofDigitChars 10 (decimal w ++ f) 0 = w * 10 ^ f.length + digitsValue f := by
    show digitsValue (decimal w ++ f) = _
    rw [digitsValue_append, Nat.mul_comm]
    exact congrArg (· * 10 ^ f.length + digitsValue f) (ofDigitChars_decimal w)
  obtain ⟨k, hk⟩ : ∃ k, f.length = k + 1 := Nat.exists_eq_succ_of_ne_zero (by simpa using hne)
  have hscale : ∀ m : ℚ, scale m (0 - (f.length : ℤ)) = m / 10 ^ f.length := by
    intro m
    rw [hk, show (0 : ℤ) - ((k + 1 : ℕ) : ℤ) = Int.negSucc k by omega]
    rfl
  simp [numeral, sign_decimal_append, htake, hdrop, htake', hdrop', hne, exponent, hvalue]
  simpa using hscale _

theorem numeral_printRatio (places a b : ℕ) :
    numeral (printRatio places a b) =
      some ((nearest (a * 10 ^ places) b : ℚ) / 10 ^ places) := by
  unfold printRatio
  by_cases h : places = 0
  · subst h
    simpa using numeral_decimal (nearest a b)
  · have hpos : 0 < places := Nat.pos_of_ne_zero h
    have hmod : nearest (a * 10 ^ places) b % 10 ^ places < 10 ^ places :=
      Nat.mod_lt _ (Nat.pow_pos (by decide))
    have hlen := length_zeroPad hpos hmod
    have hne : zeroPad places (nearest (a * 10 ^ places) b % 10 ^ places) ≠ [] := by
      rw [← List.length_pos_iff, hlen]
      exact hpos
    simp only [if_neg h]
    rw [numeral_point _ (allDigits_zeroPad _ _) hne, digitsValue_zeroPad, hlen,
      Nat.div_add_mod']

theorem mem_printRatio {places a b : ℕ} {c : Char} (h : c ∈ printRatio places a b) :
    c.isDigit = true ∨ c = '.' := by
  unfold printRatio at h
  by_cases hp : places = 0
  · rw [if_pos hp] at h
    exact .inl (isDigit_of_mem_decimal h)
  · rw [if_neg hp] at h
    rcases List.mem_append.mp h with h | h
    · exact .inl (isDigit_of_mem_decimal h)
    · rcases List.mem_cons.mp h with h | h
      · exact .inr h
      · exact .inl (allDigits_zeroPad _ _ c h)

theorem notMem_printRatio {c : Char} (hc : c.isDigit = false) (hdot : c ≠ '.') (places a b : ℕ) :
    c ∉ printRatio places a b := by
  intro h
  rcases mem_printRatio h with hd | hd
  · rw [hc] at hd
    cases hd
  · exact hdot hd

/-- The printed quotient as a number that `float` reads. -/
def printed (places a b : ℕ) : Numeral where
  text := printRatio places a b
  value := (nearest (a * 10 ^ places) b : ℚ) / 10 ^ places
  reads := numeral_printRatio places a b
  plain := by
    intro c hc hmem
    rcases mem_printRatio hc with h | h
    · simp only [List.mem_cons, List.not_mem_nil, or_false] at hmem
      rcases hmem with rfl | rfl | rfl | rfl <;> exact absurd h (by decide)
    · subst h
      exact absurd hmem (by decide)

example : printRatio 6 5000000 12345 = txt "405.022276" := by decide +kernel

/-- A text that starts neither with a sign, a digit nor a point is no number. -/
theorem numeral_eq_none {c : Char} {t : Text} (hdigit : c.isDigit = false)
    (hother : c ∉ ['-', '+', '.']) : numeral (c :: t) = none := by
  have hminus : c ≠ '-' := by rintro rfl; exact hother (by decide)
  have hplus : c ≠ '+' := by rintro rfl; exact hother (by decide)
  have hdot : c ≠ '.' := by rintro rfl; exact hother (by decide)
  have hsign : sign (c :: t) = (false, c :: t) := by
    unfold sign
    split
    · next heq => exact absurd (List.cons.inj heq).1 hminus
    · next heq => exact absurd (List.cons.inj heq).1 hplus
    · rfl
  simp [numeral, hsign, hdigit, hdot]

end Python
