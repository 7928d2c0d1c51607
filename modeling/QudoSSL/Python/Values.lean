import QudoSSL.Posix.Checked
import QudoSSL.Posix.Text
import Mathlib.Algebra.Field.Rat

/-!
# Python values read from a CSV file

The part of Python that turns text into numbers: `int` and `float` on the text of a field, and
`csv.DictReader` on the lines of a file.  Floats are exact rationals here.
-/

namespace Python

open Posix

inductive Exn where
  | valueError
  | typeError
  | zeroDivision
  | statisticsError
  /-- `sys.exit` after a complaint about these missing columns. -/
  | exit (missing : List Text)
  deriving DecidableEq

abbrev Py := Except Exn

def div (x y : ℚ) : Py ℚ := if y = 0 then .error .zeroDivision else .ok (x / y)

/-! ## Numbers -/

def natural (t : Text) : Option Nat :=
  if t ≠ [] ∧ t.all Char.isDigit then some (Nat.ofDigitChars 10 t 0) else none

/-- `int` on an unsigned numeral, the only kind of text that reaches it here. -/
def int (t : Option Text) : Py Nat :=
  match t with
  | none => .error .typeError
  | some t => (natural t).elim (.error .valueError) .ok

theorem natural_decimal (n : Nat) : natural (decimal n) = some n := by
  have hall : (decimal n).all Char.isDigit = true := by
    rw [List.all_eq_true]
    exact fun c hc => isDigit_of_mem_decimal hc
  rw [natural, if_pos ⟨decimal_ne_nil n, hall⟩, ofDigitChars_decimal]

@[simp] theorem int_decimal (n : Nat) : int (some (decimal n)) = .ok n := by
  simp [int, natural_decimal]

def sign : Text → Bool × Text
  | '-' :: t => (true, t)
  | '+' :: t => (false, t)
  | t => (false, t)

def exponent : Text → Option Int
  | [] => some 0
  | c :: t =>
      if c = 'e' ∨ c = 'E' then
        (natural (sign t).2).map fun (n : Nat) => if (sign t).1 then -(n : Int) else n
      else none

def scale (m : ℚ) : Int → ℚ
  | .ofNat k => m * 10 ^ k
  | .negSucc k => m / 10 ^ (k + 1)

/-- A decimal numeral: sign, digits, fraction, exponent. -/
def numeral (t : Text) : Option ℚ :=
  let neg := (sign t).1
  let whole := (sign t).2.takeWhile Char.isDigit
  let rest := (sign t).2.dropWhile Char.isDigit
  let frac := if rest.head? = some '.' then rest.tail.takeWhile Char.isDigit else []
  let rest := if rest.head? = some '.' then rest.tail.dropWhile Char.isDigit else rest
  if whole ++ frac = [] then none
  else
    (exponent rest).map fun e =>
      let m : ℚ := Nat.ofDigitChars 10 (whole ++ frac) 0
      scale (if neg then -m else m) (e - frac.length)

/-- The text without blanks at its ends and without underscores, which `float` allows between
digits. -/
def loose (t : Text) : Text :=
  ((t.dropWhile (·.val ≤ 32)).rdropWhile (·.val ≤ 32)).filter (· ≠ '_')

/-- The infinities and the texts that are not a number. -/
def nonFinite (t : Text) : Bool :=
  (sign t).2.map Char.toLower ∈ [txt "inf", txt "infinity", txt "nan"]

/-- A text that `float` takes for no number of any kind. -/
def refused (t : Text) : Bool :=
  t.all (·.val < 128) && (numeral t).isNone && (numeral (loose t)).isNone && !nonFinite (loose t)

example : refused (txt "No progress made") = true := by decide +kernel

def float (t : Option Text) : Py ℚ :=
  match t with
  | none => .error .typeError
  | some t => (numeral t).elim (.error .valueError) .ok

/-- A text that `float` reads, as a measurement tool prints it. -/
structure Numeral where
  text : Text
  value : ℚ
  reads : numeral text = some value
  plain : ∀ c ∈ text, c ∉ [',', '"', '\n', '\r']

example : numeral (txt "1234.500000") = some (2469 / 2) := by decide +kernel

example : numeral (txt "1.5e+06") = some 1500000 := by decide +kernel

namespace Numeral

theorem text_ne_nil (n : Numeral) : n.text ≠ [] := by
  intro h
  have hreads := n.reads
  rw [h, show numeral [] = none from rfl] at hreads
  cases hreads

theorem float_text (n : Numeral) : float (some n.text) = .ok n.value := by
  simp [float, n.reads]

theorem comma_notMem (n : Numeral) : ',' ∉ n.text := fun h => n.plain _ h (by decide)

theorem newline_notMem (n : Numeral) : '\n' ∉ n.text := fun h => n.plain _ h (by decide)

end Numeral

/-! ## `csv.DictReader` -/

/-- The fields of a line without quotes. -/
def csvFields (l : Text) : List Text := l.splitOn ','

def csvLine (fields : List Text) : Text := [','].intercalate fields

theorem csvFields_append {f : Text} (h : ',' ∉ f) (t : Text) :
    csvFields (f ++ ',' :: t) = f :: csvFields t := by
  unfold csvFields
  rw [List.splitOn_append_cons_self, List.splitOn_eq_singleton h]
  rfl

theorem csvFields_csvLine {fields : List Text} (hne : fields ≠ [])
    (hcomma : ∀ f ∈ fields, ',' ∉ f) : csvFields (csvLine fields) = fields :=
  List.splitOn_intercalate ',' hcomma hne

/-- A row by column name; a field that the line lacks is `None`. -/
abbrev Row := Text → Option Text

def dictRow (header fields : List Text) : Row := fun name => (header.zip fields).lookup name

/-- `None` and the empty text are false. -/
def truthy (t : Option Text) : Bool := t.any (· ≠ [])

theorem Numeral.truthy_text (n : Numeral) : truthy (some n.text) = true := by
  simp [truthy, n.text_ne_nil]

/-- The columns that are required and missing, or the rows; no file, no rows. -/
def readTable (file : Option (List Text)) (required : List Text) : Py (Option (List Row)) :=
  match file with
  | none => .ok none
  | some ls =>
      let header := csvFields (ls.headD [])
      let missing := required.filter (· ∉ header)
      if missing ≠ [] then .error (.exit missing)
      else .ok (some (ls.tail.map fun l => dictRow header (csvFields l)))

theorem readTable_of_columns {required : List Text} {header : Text}
    (h : ∀ c ∈ required, c ∈ csvFields header) (ls : List Text) :
    readTable (some (header :: ls)) required =
      .ok (some (ls.map fun l => dictRow (csvFields header) (csvFields l))) := by
  refine if_neg ?_
  simpa using h

end Python
