import Mathlib.Algebra.Group.Nat.Defs
import Mathlib.Data.List.Sort
import QudoSSL.Posix.Text

/-!
# `sort` on numeric keys

A line that starts with a number of fixed width, padded with zeros, is sorted by that number.  What
is needed of the locale is only that it orders digits.  The file also has the pieces of `awk` and
`cut` that put such a key in front of a line and take it away again.
-/

namespace Posix

/-! ## Digits -/

/-- The number a string of digits denotes, 0 for the empty one: `awk` reads its fields so. -/
def digitsValue (t : Text) : Nat := Nat.ofDigitChars 10 t 0

/-- `printf "%0wd"`. -/
def zeroPad (w n : Nat) : Text := List.replicate (w - (decimal n).length) '0' ++ decimal n

def AllDigits (t : Text) : Prop := ∀ c ∈ t, c.isDigit = true

theorem AllDigits.append {a b : Text} (ha : AllDigits a) (hb : AllDigits b) :
    AllDigits (a ++ b) := by
  intro c hc
  rcases List.mem_append.mp hc with hc | hc
  · exact ha c hc
  · exact hb c hc

theorem digitsValue_cons (c : Char) (t : Text) :
    digitsValue (c :: t) = 10 ^ t.length * (c.toNat - '0'.toNat) + digitsValue t := by
  unfold digitsValue
  rw [Nat.ofDigitChars_cons, Nat.ofDigitChars_eq_ofDigitChars_zero, Nat.mul_zero, Nat.zero_add]

theorem digitsValue_append (a b : Text) :
    digitsValue (a ++ b) = 10 ^ b.length * digitsValue a + digitsValue b := by
  unfold digitsValue
  rw [Nat.ofDigitChars_append, Nat.ofDigitChars_eq_ofDigitChars_zero]

-- A digit is a character between '0' and '9'.
theorem isDigit_bounds {c : Char} (h : c.isDigit = true) : 48 ≤ c.toNat ∧ c.toNat ≤ 57 := by
  simp only [Char.isDigit, Bool.and_eq_true, decide_eq_true_eq] at h
  exact ⟨UInt32.le_iff_toNat_le.mp h.1, UInt32.le_iff_toNat_le.mp h.2⟩

theorem digitsValue_lt {t : Text} (h : AllDigits t) : digitsValue t < 10 ^ t.length := by
  induction t with
  | nil => decide
  | cons c t ih =>
      have htail := ih fun d hd => h d (List.mem_cons_of_mem _ hd)
      have hc := isDigit_bounds (h c List.mem_cons_self)
      have hdigit : c.toNat - '0'.toNat ≤ 9 := by
        show c.toNat - 48 ≤ 9
        omega
      have hmul := Nat.mul_le_mul_left (10 ^ t.length) hdigit
      rw [digitsValue_cons, List.length_cons, Nat.pow_succ]
      omega

/-- Digits that follow matter only between numbers that begin alike. -/
theorem digitsValue_append_lt_iff {a b a' b' : Text} (hb : AllDigits b) (hb' : AllDigits b')
    (hlen : b.length = b'.length) :
    digitsValue (a ++ b) < digitsValue (a' ++ b') ↔
      digitsValue a < digitsValue a' ∨
        (digitsValue a = digitsValue a' ∧ digitsValue b < digitsValue b') := by
  have hlt := digitsValue_lt hb
  have hlt' := digitsValue_lt hb'
  rw [hlen] at hlt
  rw [digitsValue_append, digitsValue_append, hlen]
  rcases Nat.lt_trichotomy (digitsValue a) (digitsValue a') with h | h | h
  · have hmul := Nat.mul_le_mul_left (10 ^ b'.length) (Nat.succ_le_of_lt h)
    rw [Nat.mul_succ] at hmul
    omega
  · rw [h]
    omega
  · have hmul := Nat.mul_le_mul_left (10 ^ b'.length) (Nat.succ_le_of_lt h)
    rw [Nat.mul_succ] at hmul
    omega

theorem allDigits_zeroPad (w n : Nat) : AllDigits (zeroPad w n) := by
  intro c hc
  rcases List.mem_append.mp hc with hc | hc
  · rw [List.eq_of_mem_replicate hc]
    rfl
  · exact isDigit_of_mem_decimal hc

theorem digitsValue_zeroPad (w n : Nat) : digitsValue (zeroPad w n) = n := by
  unfold zeroPad
  rw [digitsValue_append]
  have hzeros : digitsValue (List.replicate (w - (decimal n).length) '0') = 0 := by
    simp [digitsValue]
  rw [hzeros, Nat.mul_zero, Nat.zero_add]
  exact ofDigitChars_decimal n

theorem length_zeroPad {w n : Nat} (hw : 0 < w) (hn : n < 10 ^ w) : (zeroPad w n).length = w := by
  have hlen : (decimal n).length ≤ w := (Nat.length_toDigits_le_iff (by decide) hw).mpr hn
  unfold zeroPad
  rw [List.length_append, List.length_replicate]
  omega

/-- Of two numbers of the same width the smaller has the smaller digit where they first differ. -/
theorem exists_first_difference {a b : Text} (ha : AllDigits a) (hb : AllDigits b)
    (hlen : a.length = b.length) (hlt : digitsValue a < digitsValue b) :
    ∃ p x y r r', a = p ++ x :: r ∧ b = p ++ y :: r' ∧ x < y := by
  induction a generalizing b with
  | nil =>
      rw [List.length_eq_zero_iff.mp hlen.symm] at hlt
      exact absurd hlt (Nat.lt_irrefl _)
  | cons c a ih =>
      cases b with
      | nil => cases hlen
      | cons d b =>
          have hlen' : a.length = b.length := Nat.succ.inj hlen
          have htail : ∀ e ∈ b, e.isDigit = true := fun e he => hb e (List.mem_cons_of_mem _ he)
          have hc := isDigit_bounds (ha c List.mem_cons_self)
          have hd := isDigit_bounds (hb d List.mem_cons_self)
          rw [digitsValue_cons, digitsValue_cons, hlen'] at hlt
          rcases Nat.lt_trichotomy c.toNat d.toNat with hcd | hcd | hcd
          · exact ⟨[], c, d, a, b, rfl, rfl, UInt32.lt_iff_toNat_lt.mpr hcd⟩
          · -- equal leading digits: the difference is further right
            have hsame : c = d := Char.toNat_inj.mp hcd
            subst hsame
            obtain ⟨p, x, y, r, r', h1, h2, hxy⟩ :=
              ih (fun e he => ha e (List.mem_cons_of_mem _ he)) htail hlen' (by omega)
            exact ⟨c :: p, x, y, r, r', by rw [h1]; rfl, by rw [h2]; rfl, hxy⟩
          · -- a greater leading digit outweighs all the others
            have hbound := digitsValue_lt htail
            have hstep : d.toNat - '0'.toNat + 1 ≤ c.toNat - '0'.toNat := by
              show d.toNat - 48 + 1 ≤ c.toNat - 48
              omega
            have hmul := Nat.mul_le_mul_left (10 ^ b.length) hstep
            rw [Nat.mul_add, Nat.mul_one] at hmul
            omega

/-! ## Collation -/

/-- The order `sort` uses.  Locales differ in much, but lines that first differ in a digit, with
only digits before it, come in the order of those digits. -/
structure Collation where
  le : Text → Text → Bool
  digits : ∀ {p : Text} {x y : Char} (r r' : Text), AllDigits p → x.isDigit = true →
    y.isDigit = true → x < y →
      le (p ++ x :: r) (p ++ y :: r') = true ∧ le (p ++ y :: r') (p ++ x :: r) = false

namespace Collation

def sort (C : Collation) (ls : List Text) : List Text :=
  ls.insertionSort fun a b => C.le a b = true

/-- Keys of the same width decide the order, whatever follows them. -/
theorem le_of_digitsValue_lt (C : Collation) {a b : Text} (ha : AllDigits a) (hb : AllDigits b)
    (hlen : a.length = b.length) (hlt : digitsValue a < digitsValue b) (r r' : Text) :
    C.le (a ++ r) (b ++ r') = true ∧ C.le (b ++ r') (a ++ r) = false := by
  obtain ⟨p, x, y, s, s', rfl, rfl, hxy⟩ := exists_first_difference ha hb hlen hlt
  have hp : AllDigits p := fun c hc => ha c (List.mem_append_left _ hc)
  have hx : x.isDigit = true := ha x (by simp)
  have hy : y.isDigit = true := hb y (by simp)
  rw [List.append_assoc, List.append_assoc]
  exact C.digits (s ++ r) (s' ++ r') hp hx hy hxy

/-- `sort | tail -1` on two lines. -/
theorem getLast_sort_pair (C : Collation) (a b : Text) :
    (C.sort [a, b]).getLast? = some (if C.le a b then b else a) := by
  unfold sort
  by_cases h : C.le a b = true <;> simp [List.insertionSort, List.orderedInsert, h]

end Collation

/-! ## Fields -/

/-- `split(s, v, /[sep]+/)` of `awk`: the pieces between maximal runs of separators.  A run at
either end has an empty piece beside it. -/
def splitRuns (sep : Char → Bool) : Text → List Text
  | [] => [[]]
  | c :: cs =>
      if sep c then
        if cs.head?.any sep then splitRuns sep cs else [] :: splitRuns sep cs
      else (splitRuns sep cs).modifyHead (c :: ·)

/-- `cut -f2-`: a line without a tab is printed whole. -/
def cutAfterTab (l : Text) : Text :=
  if '\t' ∈ l then (l.dropWhile (· != '\t')).tail else l

theorem splitRuns_append_piece {sep : Char → Bool} {f : Text} (hf : ∀ c ∈ f, sep c = false)
    (t : Text) : splitRuns sep (f ++ t) = (splitRuns sep t).modifyHead (f ++ ·) := by
  induction f with
  | nil => exact (List.modifyHead_id ▸ rfl)
  | cons c f ih =>
      have hc : ¬ sep c = true := by simp [hf c List.mem_cons_self]
      rw [List.cons_append, splitRuns, if_neg hc, ih fun d hd => hf d (List.mem_cons_of_mem _ hd),
        List.modifyHead_modifyHead]
      rfl

theorem splitRuns_append_run {sep : Char → Bool} {w t : Text} (hw : ∀ c ∈ w, sep c = true)
    (hne : w ≠ []) (ht : t.head?.any sep = false) :
    splitRuns sep (w ++ t) = [] :: splitRuns sep t := by
  induction w with
  | nil => exact absurd rfl hne
  | cons c w ih =>
      have hc : sep c = true := hw c List.mem_cons_self
      rw [List.cons_append, splitRuns, if_pos hc]
      cases w with
      | nil =>
          rw [List.nil_append, if_neg (by rw [ht]; exact Bool.false_ne_true)]
      | cons d w =>
          have hd : sep d = true := hw d (by simp)
          rw [List.cons_append, List.head?_cons, Option.any_some, if_pos hd]
          exact ih (fun e he => hw e (List.mem_cons_of_mem _ he)) (List.cons_ne_nil d w)

theorem cutAfterTab_append {k : Text} (hk : '\t' ∉ k) (r : Text) :
    cutAfterTab (k ++ '\t' :: r) = r := by
  have hall : ∀ c ∈ k, (c != '\t') = true := by
    intro c hc
    have hne : c ≠ '\t' := fun heq => hk (heq ▸ hc)
    simp [hne]
  unfold cutAfterTab
  rw [if_pos (by simp), List.dropWhile_append_of_pos hall]
  simp

end Posix
