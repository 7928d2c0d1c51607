import QudoSSL.Python.Dict
import Mathlib.Data.List.ReduceOption

/-!
# `benchmark/scripts/analyze.py`

The three sections that compare the two builds repetition by repetition.  A section reads its CSV
file into a dictionary of dictionaries, pairs the builds' values over the repetitions both have, and
prints a row per cell.  Two more sections compare one value with one.  Arithmetic is exact, and
rounding for display is left out.
-/

namespace QudoSSL

open Posix Python

def qudoName : Text := txt "QUDOSSL"

def stockName : Text := txt "OPENSSL"

/-! ## Verdicts -/

/-- `FLOOR` and `Z_MIN`. -/
def floor : ℚ := 1 / 10

def zMin : ℚ := 2

inductive Verdict where
  | insufficient
  | parity
  | signs (above n : Nat)
  | weak
  | short (n : Nat)
  | separated
  deriving DecidableEq

def Verdict.label : Verdict → Text
  | .insufficient => txt "n<2"
  | .parity => txt "parity"
  | .signs _ _ | .weak | .short _ => txt "no"
  | .separated => txt "SEPARATED"

def signs (rs : List ℚ) : Nat := rs.countP (1 < ·)

def average (rs : List ℚ) : ℚ := rs.sum / rs.length

/-- The square of `statistics.stdev`. -/
def sampleVariance (rs : List ℚ) : ℚ :=
  (rs.map fun r => (r - average rs) ^ 2).sum / (rs.length - 1)

/-- `zstat(rs) < Z_MIN`, with both sides squared; without spread `zstat` is infinite. -/
def zBelow (rs : List ℚ) : Bool :=
  sampleVariance rs ≠ 0 ∧
    rs.length * (average rs - 1) ^ 2 < zMin ^ 2 * sampleVariance rs

def verdict (rs : List ℚ) : Verdict :=
  if rs.length < 2 then .insufficient
  else if |average rs - 1| < floor then .parity
  else if signs rs ≠ 0 ∧ signs rs ≠ rs.length then .signs (signs rs) rs.length
  else if zBelow rs then .weak
  else if rs.length < 6 then .short rs.length
  else .separated

/-! ## Cells -/

section Cells

variable {κ : Type} [DecidableEq κ]

abbrev Cells (κ : Type) := Dict (κ × Text) (Dict ℕ ℚ)

/-- A row of a table: the cell, the two means and the mean ratio. -/
structure TableRow (κ : Type) where
  cell : κ
  qudossl : ℚ
  openssl : ℚ
  ratio : ℚ
  deriving DecidableEq

def field (r : Row) (column : Text) : Text := (r column).getD []

def entry (cell : Row → κ) (value : Text) (r : Row) : Py (List ((κ × Text) × ℕ × ℚ)) :=
  -- if r[value]: c[(cell, r["build"])][int(r["rep"])] = float(r[value])
  if truthy (r value) then do
    let v ← float (r value)
    let rep ← int (r (txt "rep"))
    pure [((cell r, field r (txt "build")), rep, v)]
  else pure []

/-- One cell of a table.  Nothing is printed unless both builds have values, but the repetitions
they have in common may still be none. -/
def pairRow (ratio : Dict ℕ ℚ → Dict ℕ ℚ → Py (List ℚ)) (c : Cells κ) (cell : κ) :
    Py (Option (TableRow κ)) :=
  let q := c.sub (cell, qudoName)
  let s := c.sub (cell, stockName)
  if q.entries.isEmpty || s.entries.isEmpty then pure none
  else do
    let rs ← ratio q s
    let mq ← mean q.values
    let ms ← mean s.values
    let mr ← mean rs
    pure (some ⟨cell, mq, ms, mr⟩)

end Cells

/-- Python's order on texts and on pairs of them. -/
def textLe (a b : Text) : Prop := ¬ b < a

instance : DecidableRel textLe := fun _ _ => inferInstanceAs (Decidable (¬ _))

def pairLe (a b : Text × Text) : Prop := a.1 < b.1 ∨ (a.1 = b.1 ∧ textLe a.2 b.2)

instance : DecidableRel pairLe := fun _ _ => inferInstanceAs (Decidable (_ ∨ _))

/-- The cells of a table, each of them once. -/
def cellKeys (c : Cells (Text × Text)) : List (Text × Text) :=
  sortedSet pairLe (c.keys.map Prod.fst)

/-- A section: read the file, fill the dictionaries, print the rows.  It prints nothing when the
file is absent or has no rows. -/
def tableSection {κ ρ : Type} [DecidableEq κ] (required : List Text)
    (entry : Row → Py (List ((κ × Text) × ℕ × ℚ))) (cells : Cells κ → List κ)
    (row : Cells κ → κ → Py (Option ρ)) (file : Option (List Text)) :
    Py (Option (List ρ)) := do
  match ← readTable file required with
  | none | some [] => pure none
  | some rows =>
      let es ← rows.mapM entry
      let c := Dict.collect es.flatten
      let out ← (cells c).mapM (row c)
      pure (some out.reduceOption)

def handshakeColumns : List Text :=
  [txt "rep", txt "build", txt "mode", txt "group", txt "us_per_handshake"]

def handshakeEntry : Row → Py (List (((Text × Text) × Text) × ℕ × ℚ)) :=
  entry (fun r => (field r (txt "mode"), field r (txt "group"))) (txt "us_per_handshake")

/-- Inverted: microseconds, lower is better. -/
def handshakeRatios (q s : Dict ℕ ℚ) : Py (List ℚ) := Dict.ratios (Dict.commonKeys q s) s q

def secHandshake : Option (List Text) → Py (Option (List (TableRow (Text × Text)))) :=
  tableSection handshakeColumns handshakeEntry cellKeys (pairRow handshakeRatios)

def resumptionColumns : List Text :=
  [txt "rep", txt "build", txt "test", txt "side", txt "handshakes_per_s"]

def resumptionEntry : Row → Py (List (((Text × Text) × Text) × ℕ × ℚ)) :=
  entry (fun r => (field r (txt "test"), field r (txt "side"))) (txt "handshakes_per_s")

def secResumption : Option (List Text) → Py (Option (List (TableRow (Text × Text)))) :=
  tableSection resumptionColumns resumptionEntry cellKeys (pairRow Dict.paired)

/-! ## Primitives -/

/-- Mode, algorithm and number of the operation. -/
abbrev PrimitiveCell := Text × Text × ℕ

def opColumn (i : ℕ) : Text := txt "op" ++ decimal i

def primitiveEntry (r : Row) : Py (List ((PrimitiveCell × Text) × ℕ × ℚ)) :=
  if truthy (r (txt "op1")) then
    [1, 2, 3].mapM fun i => do
      let v ← float (r (opColumn i))
      let rep ← int (r (txt "rep"))
      pure (((field r (txt "mode"), field r (txt "alg"), i), field r (txt "build")), rep, v)
  else pure []

/-- Here a cell without a common repetition is passed over. -/
def primitiveRow (c : Cells PrimitiveCell) (cell : PrimitiveCell) :
    Py (Option (TableRow PrimitiveCell × Verdict)) :=
  let q := c.sub (cell, qudoName)
  let s := c.sub (cell, stockName)
  if q.entries.isEmpty || s.entries.isEmpty then pure none
  else do
    let rs ← Dict.paired q s
    if rs = [] then pure none
    else do
      let mq ← mean q.values
      let ms ← mean s.values
      let mr ← mean rs
      pure (some (⟨cell, mq, ms, mr⟩, verdict rs))

def isDsa (a : Text) : Bool := txt "DSA" <:+: a

def algLe (a b : Text) : Prop :=
  -- key=lambda a: ("DSA" in a, a)
  (!isDsa a && isDsa b) = true ∨ (isDsa a = isDsa b ∧ textLe a b)

instance : DecidableRel algLe := fun _ _ => inferInstanceAs (Decidable (_ ∨ _))

def primitiveCells (c : Cells PrimitiveCell) : List PrimitiveCell :=
  let modes := sortedSet textLe (c.keys.map fun k => k.1.1)
  let algs := sortedSet algLe (c.keys.map fun k => k.1.2.1)
  modes.flatMap fun m => algs.flatMap fun a => [1, 2, 3].map fun i => (m, a, i)

def primitiveColumns : List Text :=
  [txt "rep", txt "build", txt "mode", txt "alg", txt "op1", txt "op2", txt "op3"]

def secPrimitives : Option (List Text) → Py (Option (List (TableRow PrimitiveCell × Verdict))) :=
  tableSection primitiveColumns primitiveEntry primitiveCells primitiveRow

/-! ## When a section completes -/

/-- The ratios can be averaged if there is a common repetition and no divisor is zero in one. -/
def DividesBy (divisor : ℚ → ℚ → ℚ) (ratio : Dict ℕ ℚ → Dict ℕ ℚ → Py (List ℚ)) : Prop :=
  ∀ q s, (∃ rs, ratio q s = .ok rs ∧ rs ≠ []) ↔ Dict.commonKeys q s ≠ [] ∧
    ∀ k ∈ Dict.commonKeys q s, divisor ((q.lookup k).getD 0) ((s.lookup k).getD 0) ≠ 0

theorem dividesBy_handshakeRatios : DividesBy (fun v _ => v) handshakeRatios :=
  fun q s => Dict.exists_ratios_ne_nil_iff (Dict.commonKeys q s) s q

theorem dividesBy_paired : DividesBy (fun _ w => w) Dict.paired :=
  fun q s => Dict.exists_ratios_ne_nil_iff (Dict.commonKeys q s) q s

section Completes

variable {κ : Type}

def Measured (es : List ((κ × Text) × ℕ × ℚ)) (cell : κ) (build : Text) : Prop :=
  ∃ k v, ((cell, build), k, v) ∈ es

/-- Both builds have a value in repetition `k`. -/
def Both (es : List ((κ × Text) × ℕ × ℚ)) (cell : κ) (k : ℕ) (v w : ℚ) : Prop :=
  ((cell, qudoName), k, v) ∈ es ∧ ((cell, stockName), k, w) ∈ es

/-- No quotient of the cell divides by zero. -/
def Divides (divisor : ℚ → ℚ → ℚ) (es : List ((κ × Text) × ℕ × ℚ)) (cell : κ) : Prop :=
  ∀ k v w, Both es cell k v w → divisor v w ≠ 0

/-- If both builds have values, they have a repetition in common. -/
def Overlaps (es : List ((κ × Text) × ℕ × ℚ)) (cell : κ) : Prop :=
  Measured es cell qudoName → Measured es cell stockName → ∃ k v w, Both es cell k v w

variable {es : List ((κ × Text) × ℕ × ℚ)}

theorem overlaps_divides_of_not_measured (divisor : ℚ → ℚ → ℚ) {cell : κ}
    (h : ¬ (Measured es cell qudoName ∧ Measured es cell stockName)) :
    Overlaps es cell ∧ Divides divisor es cell := by
  refine ⟨fun hq hs => absurd ⟨hq, hs⟩ h, fun k v w hvw => ?_⟩
  exact absurd ⟨⟨k, v, hvw.1⟩, k, w, hvw.2⟩ h

variable [DecidableEq κ]

theorem entries_sub_ne_nil_iff (hfun : Dict.Functional es) (cell : κ) (build : Text) :
    ((Dict.collect es).sub (cell, build)).entries ≠ [] ↔ Measured es cell build := by
  rw [Dict.entries_ne_nil_iff]
  exact exists_congr fun k => Dict.mem_sub_collect hfun (cell, build) k

-- `not q or not s`.
theorem isEmpty_or_iff (hfun : Dict.Functional es) (cell : κ) :
    (((Dict.collect es).sub (cell, qudoName)).entries.isEmpty ||
        ((Dict.collect es).sub (cell, stockName)).entries.isEmpty) = false ↔
      Measured es cell qudoName ∧ Measured es cell stockName := by
  rw [Bool.or_eq_false_iff, List.isEmpty_eq_false_iff, List.isEmpty_eq_false_iff,
    entries_sub_ne_nil_iff hfun, entries_sub_ne_nil_iff hfun]

theorem mem_commonKeys_collect (hfun : Dict.Functional es) (cell : κ) (k : ℕ) :
    k ∈ Dict.commonKeys ((Dict.collect es).sub (cell, qudoName))
        ((Dict.collect es).sub (cell, stockName)) ↔ ∃ v w, Both es cell k v w := by
  rw [Dict.mem_commonKeys, Dict.mem_sub_collect hfun, Dict.mem_sub_collect hfun]
  constructor
  · rintro ⟨⟨v, hv⟩, w, hw⟩
    exact ⟨v, w, hv, hw⟩
  · rintro ⟨v, w, hv, hw⟩
    exact ⟨⟨v, hv⟩, w, hw⟩

-- A condition on the values at every common key, in terms of the entries.
theorem forall_commonKeys_iff (hfun : Dict.Functional es) (cell : κ) (P : ℚ → ℚ → Prop) :
    (∀ k ∈ Dict.commonKeys ((Dict.collect es).sub (cell, qudoName))
        ((Dict.collect es).sub (cell, stockName)),
        P ((((Dict.collect es).sub (cell, qudoName)).lookup k).getD 0)
          ((((Dict.collect es).sub (cell, stockName)).lookup k).getD 0)) ↔
      ∀ k v w, Both es cell k v w → P v w := by
  have hval : ∀ k v w, Both es cell k v w →
      (((Dict.collect es).sub (cell, qudoName)).lookup k).getD 0 = v ∧
        (((Dict.collect es).sub (cell, stockName)).lookup k).getD 0 = w := by
    rintro k v w ⟨hv, hw⟩
    rw [(Dict.lookup_sub_collect hfun _ _ _).mpr hv, (Dict.lookup_sub_collect hfun _ _ _).mpr hw]
    exact ⟨rfl, rfl⟩
  constructor
  · intro h k v w hboth
    have hk := h k ((mem_commonKeys_collect hfun cell k).mpr ⟨v, w, hboth⟩)
    rwa [(hval k v w hboth).1, (hval k v w hboth).2] at hk
  · intro h k hk
    obtain ⟨v, w, hboth⟩ := (mem_commonKeys_collect hfun cell k).mp hk
    rw [(hval k v w hboth).1, (hval k v w hboth).2]
    exact h k v w hboth

theorem commonKeys_ne_nil_iff (hfun : Dict.Functional es) (cell : κ) :
    Dict.commonKeys ((Dict.collect es).sub (cell, qudoName))
        ((Dict.collect es).sub (cell, stockName)) ≠ [] ↔ ∃ k v w, Both es cell k v w := by
  rw [ne_eq, List.eq_nil_iff_forall_not_mem]
  push Not
  exact exists_congr fun k => mem_commonKeys_collect hfun cell k

-- Neither of the two means in a row fails.
theorem exists_means (hfun : Dict.Functional es) {cell : κ} {build : Text}
    (h : Measured es cell build) :
    ∃ m, mean ((Dict.collect es).sub (cell, build)).values = .ok m := by
  rw [exists_mean_iff, Dict.values, ne_eq, List.map_eq_nil_iff]
  exact (entries_sub_ne_nil_iff hfun cell build).mpr h

theorem exists_pairRow_iff (hfun : Dict.Functional es)
    {ratio : Dict ℕ ℚ → Dict ℕ ℚ → Py (List ℚ)} {divisor : ℚ → ℚ → ℚ}
    (hratio : DividesBy divisor ratio) (cell : κ) :
    (∃ row, pairRow ratio (Dict.collect es) cell = .ok row) ↔
      Overlaps es cell ∧ Divides divisor es cell := by
  unfold pairRow
  by_cases hboth : Measured es cell qudoName ∧ Measured es cell stockName
  · have hpair : (∃ rs, ratio ((Dict.collect es).sub (cell, qudoName))
        ((Dict.collect es).sub (cell, stockName)) = .ok rs ∧ rs ≠ []) ↔
          Overlaps es cell ∧ Divides divisor es cell := by
      rw [hratio, commonKeys_ne_nil_iff hfun, forall_commonKeys_iff hfun cell
        fun v w => divisor v w ≠ 0]
      exact and_congr_left' ⟨fun h _ _ => h, fun h => h hboth.1 hboth.2⟩
    rw [← hpair]
    simp only [(isEmpty_or_iff hfun cell).mpr hboth, Bool.false_eq_true, if_false, bind_ok_iff]
    constructor
    · rintro ⟨row, rs, hrs, -, -, -, -, mr, hmr, -⟩
      exact ⟨rs, hrs, (exists_mean_iff rs).mp ⟨mr, hmr⟩⟩
    · rintro ⟨rs, hrs, hne⟩
      obtain ⟨mq, hmq⟩ := exists_means hfun hboth.1
      obtain ⟨ms, hms⟩ := exists_means hfun hboth.2
      obtain ⟨mr, hmr⟩ := (exists_mean_iff rs).mpr hne
      exact ⟨_, rs, hrs, mq, hmq, ms, hms, mr, hmr, rfl⟩
  · have hempty := (isEmpty_or_iff hfun cell).not.mpr hboth
    rw [Bool.not_eq_false] at hempty
    simp only [hempty, if_true]
    exact iff_of_true ⟨none, rfl⟩ (overlaps_divides_of_not_measured divisor hboth)

/-- The cell's row: the mean of each build's values, and the mean of the ratios. -/
structure IsRow (ratio : Dict ℕ ℚ → Dict ℕ ℚ → Py (List ℚ)) (c : Cells κ) (cell : κ)
    (r : TableRow κ) : Prop where
  cell_eq : r.cell = cell
  qudossl_eq : mean (c.sub (cell, qudoName)).values = .ok r.qudossl
  openssl_eq : mean (c.sub (cell, stockName)).values = .ok r.openssl
  ratio_eq : ∃ rs, ratio (c.sub (cell, qudoName)) (c.sub (cell, stockName)) = .ok rs ∧
    mean rs = .ok r.ratio

theorem isRow_of_pairRow {ratio : Dict ℕ ℚ → Dict ℕ ℚ → Py (List ℚ)} {c : Cells κ} {cell : κ}
    {r : TableRow κ} (h : pairRow ratio c cell = .ok (some r)) : IsRow ratio c cell r := by
  simp only [pairRow] at h
  split at h
  case isTrue => cases h
  case isFalse =>
    simp only [bind_ok_iff] at h
    obtain ⟨rs, hrs, mq, hmq, ms, hms, mr, hmr, heq⟩ := h
    cases heq
    exact ⟨rfl, hmq, hms, rs, hrs, hmr⟩

-- If the row can be made, it is left out exactly for a cell without a pair.
theorem exists_some_pairRow_iff (hfun : Dict.Functional es)
    {ratio : Dict ℕ ℚ → Dict ℕ ℚ → Py (List ℚ)} {divisor : ℚ → ℚ → ℚ}
    (hratio : DividesBy divisor ratio) {cell : κ}
    (hok : ∃ row, pairRow ratio (Dict.collect es) cell = .ok row) :
    (∃ r, pairRow ratio (Dict.collect es) cell = .ok (some r)) ↔
      ∃ k v w, Both es cell k v w := by
  have hoverlaps := ((exists_pairRow_iff hfun hratio cell).mp hok).1
  obtain ⟨row, hrow⟩ := hok
  by_cases hboth : Measured es cell qudoName ∧ Measured es cell stockName
  · refine iff_of_true ?_ (hoverlaps hboth.1 hboth.2)
    have hmade := hrow
    simp only [pairRow, (isEmpty_or_iff hfun cell).mpr hboth, Bool.false_eq_true, if_false,
      bind_ok_iff] at hmade
    obtain ⟨rs, _, mq, _, ms, _, mr, _, heq⟩ := hmade
    cases heq
    exact ⟨_, hrow⟩
  · have hempty := (isEmpty_or_iff hfun cell).not.mpr hboth
    rw [Bool.not_eq_false] at hempty
    simp only [pairRow, hempty, if_true]
    refine iff_of_false (by rintro ⟨r, hr⟩; cases hr) ?_
    rintro ⟨k, v, w, hvw⟩
    exact hboth ⟨⟨k, v, hvw.1⟩, k, w, hvw.2⟩

end Completes

theorem exists_primitiveRow_iff {es : List ((PrimitiveCell × Text) × ℕ × ℚ)}
    (hfun : Dict.Functional es) (cell : PrimitiveCell) :
    (∃ row, primitiveRow (Dict.collect es) cell = .ok row) ↔
      Divides (fun _ w => w) es cell := by
  unfold primitiveRow
  by_cases hboth : Measured es cell qudoName ∧ Measured es cell stockName
  · have hpair : (∃ rs, Dict.paired ((Dict.collect es).sub (cell, qudoName))
        ((Dict.collect es).sub (cell, stockName)) = .ok rs) ↔
          Divides (fun _ w => w) es cell := by
      rw [Dict.paired, Dict.exists_ratios_iff]
      exact forall_commonKeys_iff hfun cell fun _ w => w ≠ 0
    rw [← hpair]
    simp only [(isEmpty_or_iff hfun cell).mpr hboth, Bool.false_eq_true, if_false, bind_ok_iff]
    constructor
    · rintro ⟨row, rs, hrs, -⟩
      exact ⟨rs, hrs⟩
    · rintro ⟨rs, hrs⟩
      by_cases hnil : rs = []
      · -- the guard the other two sections lack
        exact ⟨none, rs, hrs, by simp [hnil]; rfl⟩
      · obtain ⟨mq, hmq⟩ := exists_means hfun hboth.1
        obtain ⟨ms, hms⟩ := exists_means hfun hboth.2
        obtain ⟨mr, hmr⟩ := (exists_mean_iff rs).mpr hnil
        refine ⟨some (⟨cell, mq, ms, mr⟩, verdict rs), rs, hrs, ?_⟩
        rw [if_neg hnil, hmq, hms, hmr]
        rfl
  · have hempty := (isEmpty_or_iff hfun cell).not.mpr hboth
    rw [Bool.not_eq_false] at hempty
    simp only [hempty, if_true]
    exact iff_of_true ⟨none, rfl⟩ (overlaps_divides_of_not_measured _ hboth).2

theorem isRow_of_primitiveRow {c : Cells PrimitiveCell} {cell : PrimitiveCell}
    {r : TableRow PrimitiveCell × Verdict} (h : primitiveRow c cell = .ok (some r)) :
    IsRow Dict.paired c cell r.1 := by
  simp only [primitiveRow] at h
  split at h
  case isTrue => cases h
  case isFalse =>
    obtain ⟨rs, hrs, h⟩ := bind_ok_iff.mp h
    split at h
    case isTrue => cases h
    case isFalse =>
      simp only [bind_ok_iff] at h
      obtain ⟨mq, hmq, ms, hms, mr, hmr, heq⟩ := h
      cases heq
      exact ⟨rfl, hmq, hms, rs, hrs, hmr⟩

theorem exists_some_primitiveRow_iff {es : List ((PrimitiveCell × Text) × ℕ × ℚ)}
    (hfun : Dict.Functional es) {cell : PrimitiveCell}
    (hok : ∃ row, primitiveRow (Dict.collect es) cell = .ok row) :
    (∃ r, primitiveRow (Dict.collect es) cell = .ok (some r)) ↔
      ∃ k v w, Both es cell k v w := by
  obtain ⟨row, hrow⟩ := hok
  by_cases hboth : Measured es cell qudoName ∧ Measured es cell stockName
  · have hmade := hrow
    simp only [primitiveRow, (isEmpty_or_iff hfun cell).mpr hboth, Bool.false_eq_true,
      if_false] at hmade
    obtain ⟨rs, hrs, hmade⟩ := bind_ok_iff.mp hmade
    have hpair : rs ≠ [] ↔ ∃ k v w, Both es cell k v w := by
      rw [← commonKeys_ne_nil_iff hfun]
      exact (Dict.ratios_eq_nil_iff hrs).not
    rw [← hpair]
    split at hmade
    case isTrue hnil =>
      cases hmade
      refine iff_of_false ?_ (not_not.mpr hnil)
      rintro ⟨r, hr⟩
      cases hrow.symm.trans hr
    case isFalse hne =>
      simp only [bind_ok_iff] at hmade
      obtain ⟨mq, _, ms, _, mr, _, heq⟩ := hmade
      cases heq
      exact iff_of_true ⟨_, hrow⟩ hne
  · have hempty := (isEmpty_or_iff hfun cell).not.mpr hboth
    rw [Bool.not_eq_false] at hempty
    simp only [primitiveRow, hempty, if_true]
    refine iff_of_false (by rintro ⟨r, hr⟩; cases hr) ?_
    rintro ⟨k, v, w, hvw⟩
    exact hboth ⟨⟨k, v, hvw.1⟩, k, w, hvw.2⟩

/-- The cells that are printed are those with a pair. -/
def Shows {κ : Type} (es : List ((κ × Text) × ℕ × ℚ)) (shown : List κ) : Prop :=
  ∀ c, c ∈ shown ↔ ∃ k v w, Both es c k v w

/-! ## Sections on rows -/

section Rows

variable {κ ρ : Type} [DecidableEq κ]

/-- The dictionaries of a section. -/
def gather (entry : Row → Py (List ((κ × Text) × ℕ × ℚ))) (rows : List Row) : Py (Cells κ) := do
  let es ← rows.mapM entry
  pure (Dict.collect es.flatten)

/-- A section from the rows of its file on. -/
def tableRows (entry : Row → Py (List ((κ × Text) × ℕ × ℚ))) (cells : Cells κ → List κ)
    (row : Cells κ → κ → Py (Option ρ)) (rows : List Row) : Py (Option (List ρ)) :=
  if rows = [] then pure none
  else do
    let c ← gather entry rows
    let out ← (cells c).mapM (row c)
    pure (some out.reduceOption)

theorem tableSection_eq (required : List Text) (entry : Row → Py (List ((κ × Text) × ℕ × ℚ)))
    (cells : Cells κ → List κ) (row : Cells κ → κ → Py (Option ρ)) (file : Option (List Text)) :
    tableSection required entry cells row file = (do
      match ← readTable file required with
      | none => pure none
      | some rows => tableRows entry cells row rows) := by
  unfold tableSection
  cases readTable file required with
  | error e => rfl
  | ok table =>
      match table with
      | none => rfl
      | some [] => rfl
      | some (r :: rows) =>
          show (do
            let es ← (r :: rows).mapM entry
            let out ← (cells (Dict.collect es.flatten)).mapM (row (Dict.collect es.flatten))
            pure (some out.reduceOption)) = tableRows entry cells row (r :: rows)
          rw [tableRows, if_neg (List.cons_ne_nil r rows), gather]
          simp only [bind_assoc, pure_bind]

theorem gather_ok_iff {entry : Row → Py (List ((κ × Text) × ℕ × ℚ))} {rows : List Row}
    {c : Cells κ} :
    gather entry rows = .ok c ↔ ∃ es, rows.mapM entry = .ok es ∧ c = Dict.collect es.flatten := by
  unfold gather
  rw [bind_ok_iff]
  refine exists_congr fun es => and_congr_right fun _ => ?_
  exact ⟨fun h => (Except.ok.inj h).symm, fun h => h ▸ rfl⟩

-- A section of no rows is a section without cells.
theorem tableRows_ok {entry : Row → Py (List ((κ × Text) × ℕ × ℚ))} {cells : Cells κ → List κ}
    {row : Cells κ → κ → Py (Option ρ)} (hcells : cells ∅ = []) {rows : List Row}
    {out : Option (List ρ)} (h : tableRows entry cells row rows = .ok out) :
    ∃ c outs, gather entry rows = .ok c ∧ (cells c).mapM (row c) = .ok outs ∧
      out.getD [] = outs.reduceOption := by
  unfold tableRows at h
  by_cases hnil : rows = []
  · rw [if_pos hnil] at h
    cases h
    subst hnil
    exact ⟨∅, [], rfl, by rw [hcells]; rfl, rfl⟩
  · rw [if_neg hnil, bind_ok_iff] at h
    obtain ⟨c, hc, h⟩ := h
    obtain ⟨outs, houts, heq⟩ := bind_ok_iff.mp h
    cases heq
    exact ⟨c, outs, hc, houts, rfl⟩

-- Two lists of rows that fill dictionaries alike give the same table.
theorem tableRows_congr {entry : Row → Py (List ((κ × Text) × ℕ × ℚ))} {cells : Cells κ → List κ}
    {row : Cells κ → κ → Py (Option ρ)} {rows rows' : List Row} {c c' : Cells κ}
    (hnil : rows = [] ↔ rows' = []) (hc : gather entry rows = .ok c)
    (hc' : gather entry rows' = .ok c') (hcells : cells c = cells c') (hrow : row c = row c') :
    tableRows entry cells row rows = tableRows entry cells row rows' := by
  unfold tableRows
  rw [hc, hc']
  refine if_congr hnil rfl ?_
  show (do
    let out ← (cells c).mapM (row c)
    pure (some out.reduceOption)) = _
  rw [hcells, hrow]
  rfl

section Gathered

variable {entry : Row → Py (List ((κ × Text) × ℕ × ℚ))} {cells : Cells κ → List κ}
  {row : Cells κ → κ → Py (Option ρ)} {rows : List Row} {c : Cells κ} (hcells : cells ∅ = [])
  (hc : gather entry rows = .ok c)

include hcells hc

-- Once every row has been read, the section completes if every cell's row can be made.
theorem exists_tableRows_iff :
    (∃ out, tableRows entry cells row rows = .ok out) ↔ ∀ k ∈ cells c, ∃ r, row c k = .ok r := by
  rw [← exists_mapM_ok_iff]
  constructor
  · rintro ⟨out, h⟩
    obtain ⟨c', outs, hc', houts, _⟩ := tableRows_ok hcells h
    rw [hc] at hc'
    cases hc'
    exact ⟨outs, houts⟩
  · rintro ⟨outs, houts⟩
    unfold tableRows
    by_cases hnil : rows = []
    · rw [if_pos hnil]
      exact ⟨none, rfl⟩
    · rw [if_neg hnil, hc]
      exact ⟨_, bind_ok_iff.mpr ⟨c, rfl, bind_ok_iff.mpr ⟨outs, houts, rfl⟩⟩⟩

-- The rows that are printed, in terms of the cells.
theorem mem_tableRows_iff {out : Option (List ρ)} (h : tableRows entry cells row rows = .ok out)
    (r : ρ) : r ∈ out.getD [] ↔ ∃ k ∈ cells c, row c k = .ok (some r) := by
  obtain ⟨c', outs, hc', houts, hout⟩ := tableRows_ok hcells h
  rw [hc] at hc'
  cases hc'
  rw [hout, List.reduceOption_mem_iff, mem_iff_of_mapM_ok houts]

end Gathered

end Rows

section Lines

variable {A κ ρ : Type} [DecidableEq κ] {required : List Text}
  {entry : Row → Py (List ((κ × Text) × ℕ × ℚ))} {cells : Cells κ → List κ}
  {row : Cells κ → κ → Py (Option ρ)} {header : Text} {as : List A} {line : A → Text}
  {g : A → List ((κ × Text) × ℕ × ℚ)}

theorem gather_lines
    (hg : ∀ a ∈ as, entry (dictRow (csvFields header) (csvFields (line a))) = .ok (g a)) :
    gather entry (as.map fun a => dictRow (csvFields header) (csvFields (line a))) =
      .ok (Dict.collect (as.map g).flatten) := by
  apply gather_ok_iff.mpr
  refine ⟨as.map g, ?_, rfl⟩
  rw [List.mapM_map]
  exact mapM_ok_of_forall hg

variable (hcols : ∀ c ∈ required, c ∈ csvFields header)

include hcols

theorem tableSection_lines :
    tableSection required entry cells row (some (header :: as.map line)) =
      tableRows entry cells row
        (as.map fun a => dictRow (csvFields header) (csvFields (line a))) := by
  rw [tableSection_eq, readTable_of_columns hcols, List.map_map]
  rfl

theorem not_exists_tableSection {a : A} {e : Exn} (ha : a ∈ as)
    (he : entry (dictRow (csvFields header) (csvFields (line a))) = .error e) :
    ¬ ∃ out, tableSection required entry cells row (some (header :: as.map line)) = .ok out := by
  rw [tableSection_lines hcols]
  have hmem := List.mem_map_of_mem
    (f := fun a => dictRow (csvFields header) (csvFields (line a))) ha
  rintro ⟨out, hout⟩
  rw [tableRows, if_neg (List.ne_nil_of_mem hmem), bind_ok_iff] at hout
  obtain ⟨c, hc, -⟩ := hout
  obtain ⟨es, hes, -⟩ := gather_ok_iff.mp hc
  obtain ⟨es', hes'⟩ := exists_mapM_ok_iff.mp ⟨es, hes⟩ _ hmem
  rw [he] at hes'
  cases hes'

variable (hcells : cells ∅ = [])
  (hg : ∀ a ∈ as, entry (dictRow (csvFields header) (csvFields (line a))) = .ok (g a))

include hcells hg

-- If a row that can be made is left out exactly for a cell without a pair, the section shows the
-- cells with one.
theorem exists_shows_iff {name : ρ → κ}
    (hname : ∀ c k r, row c k = .ok (some r) → name r = k)
    (hsome : ∀ k, (∃ r, row (Dict.collect (as.map g).flatten) k = .ok r) →
      ((∃ r, row (Dict.collect (as.map g).flatten) k = .ok (some r)) ↔
        ∃ n v w, Both (as.map g).flatten k n v w))
    (hkeys : ∀ k, Measured (as.map g).flatten k qudoName →
      k ∈ cells (Dict.collect (as.map g).flatten)) :
    (∃ out, tableSection required entry cells row (some (header :: as.map line)) = .ok out ∧
        Shows (as.map g).flatten ((out.getD []).map name)) ↔
      ∀ k ∈ cells (Dict.collect (as.map g).flatten),
        ∃ r, row (Dict.collect (as.map g).flatten) k = .ok r := by
  have hgather := gather_lines hg
  rw [tableSection_lines hcols, ← exists_tableRows_iff hcells hgather]
  refine ⟨fun ⟨out, hout, _⟩ => ⟨out, hout⟩, fun ⟨out, hout⟩ => ⟨out, hout, fun c => ?_⟩⟩
  have hrows := (exists_tableRows_iff hcells hgather).mp ⟨out, hout⟩
  simp only [List.mem_map, mem_tableRows_iff hcells hgather hout]
  constructor
  · rintro ⟨r, ⟨k, hk, hr⟩, rfl⟩
    rw [hname _ _ _ hr]
    exact (hsome k (hrows k hk)).mp ⟨r, hr⟩
  · rintro ⟨n, v, w, hvw⟩
    have hkey := hkeys c ⟨n, v, hvw.1⟩
    obtain ⟨r, hr⟩ := (hsome c (hrows c hkey)).mpr ⟨n, v, w, hvw⟩
    exact ⟨r, ⟨c, hkey, hr⟩, hname _ _ _ hr⟩

end Lines

theorem mem_cellKeys_of_measured {es : List (((Text × Text) × Text) × ℕ × ℚ)}
    {c : Text × Text} {build : Text} (h : Measured es c build) :
    c ∈ cellKeys (Dict.collect es) := by
  rw [cellKeys, mem_sortedSet, List.mem_map]
  exact ⟨(c, build), (Dict.mem_keys_collect es _).mpr h, rfl⟩

-- The rows that are made are those of all cells: any other cell has nothing to pair.
theorem forall_pairRow_iff {es : List (((Text × Text) × Text) × ℕ × ℚ)}
    (hfun : Dict.Functional es) {ratio : Dict ℕ ℚ → Dict ℕ ℚ → Py (List ℚ)}
    {divisor : ℚ → ℚ → ℚ} (hratio : DividesBy divisor ratio) :
    (∀ c ∈ cellKeys (Dict.collect es), ∃ r, pairRow ratio (Dict.collect es) c = .ok r) ↔
      (∀ c, Overlaps es c) ∧ ∀ c, Divides divisor es c := by
  simp only [exists_pairRow_iff hfun hratio, ← forall_and]
  refine ⟨fun h c => ?_, fun h c _ => h c⟩
  by_cases hboth : Measured es c qudoName ∧ Measured es c stockName
  · exact h c (mem_cellKeys_of_measured hboth.1)
  · exact overlaps_divides_of_not_measured divisor hboth

theorem mem_primitiveCells_of_measured {es : List ((PrimitiveCell × Text) × ℕ × ℚ)}
    (hops : ∀ c b k v, ((c, b), k, v) ∈ es → c.2.2 ∈ [1, 2, 3]) {c : PrimitiveCell} {build : Text}
    (h : Measured es c build) : c ∈ primitiveCells (Dict.collect es) := by
  have hkey : (c, build) ∈ (Dict.collect es).keys := (Dict.mem_keys_collect es _).mpr h
  obtain ⟨k, v, hv⟩ := h
  have hi := hops _ _ _ _ hv
  simp only [primitiveCells, List.mem_flatMap, List.mem_map, mem_sortedSet]
  exact ⟨c.1, ⟨_, hkey, rfl⟩, c.2.1, ⟨_, hkey, rfl⟩, c.2.2, hi, rfl⟩

theorem forall_primitiveRow_iff {es : List ((PrimitiveCell × Text) × ℕ × ℚ)}
    (hfun : Dict.Functional es)
    (hops : ∀ c b k v, ((c, b), k, v) ∈ es → c.2.2 ∈ [1, 2, 3]) :
    (∀ c ∈ primitiveCells (Dict.collect es), ∃ r, primitiveRow (Dict.collect es) c = .ok r) ↔
      ∀ c, Divides (fun _ w => w) es c := by
  simp only [exists_primitiveRow_iff hfun]
  refine ⟨fun h c k v w hvw => h c ?_ k v w hvw, fun h c _ => h c⟩
  exact mem_primitiveCells_of_measured hops ⟨k, v, hvw.1⟩

section Tables

variable {A : Type} {required : List Text} {header : Text} {as : List A} {line : A → Text}
  (hcols : ∀ c ∈ required, c ∈ csvFields header)

include hcols

theorem exists_pairSection_iff {entry : Row → Py (List (((Text × Text) × Text) × ℕ × ℚ))}
    {g : A → List (((Text × Text) × Text) × ℕ × ℚ)}
    (hg : ∀ a ∈ as, entry (dictRow (csvFields header) (csvFields (line a))) = .ok (g a))
    (hfun : Dict.Functional (as.map g).flatten)
    {ratio : Dict ℕ ℚ → Dict ℕ ℚ → Py (List ℚ)} {divisor : ℚ → ℚ → ℚ}
    (hratio : DividesBy divisor ratio) :
    (∃ out, tableSection required entry cellKeys (pairRow ratio)
        (some (header :: as.map line)) = .ok out ∧
          Shows (as.map g).flatten ((out.getD []).map TableRow.cell)) ↔
      (∀ c, Overlaps (as.map g).flatten c) ∧ ∀ c, Divides divisor (as.map g).flatten c := by
  rw [← forall_pairRow_iff hfun hratio]
  exact exists_shows_iff hcols (by decide) hg (fun _ _ _ h => (isRow_of_pairRow h).cell_eq)
    (fun _ => exists_some_pairRow_iff hfun hratio) fun _ => mem_cellKeys_of_measured

theorem exists_primitiveSection_iff {g : A → List ((PrimitiveCell × Text) × ℕ × ℚ)}
    (hg : ∀ a ∈ as, primitiveEntry (dictRow (csvFields header) (csvFields (line a))) = .ok (g a))
    (hfun : Dict.Functional (as.map g).flatten)
    (hops : ∀ c b k v, ((c, b), k, v) ∈ (as.map g).flatten → c.2.2 ∈ [1, 2, 3]) :
    (∃ out, tableSection required primitiveEntry primitiveCells primitiveRow
        (some (header :: as.map line)) = .ok out ∧
          Shows (as.map g).flatten ((out.getD []).map fun r => r.1.cell)) ↔
      ∀ c, Divides (fun _ w => w) (as.map g).flatten c := by
  rw [← forall_primitiveRow_iff hfun hops]
  exact exists_shows_iff hcols (by decide) hg (fun _ _ _ h => (isRow_of_primitiveRow h).cell_eq)
    (fun _ => exists_some_primitiveRow_iff hfun) fun _ => mem_primitiveCells_of_measured hops

end Tables

/-! ## Sections without repetitions

`sec_instructions` and `sec_memory` have one value for each build and key.
-/

section Compared

variable {κ α ρ : Type} [DecidableEq κ] (le : κ → κ → Prop) [DecidableRel le]

/-- The loop over `sorted(by)`: a key for which a build has no value is passed over. -/
def compared (row : κ → α → α → Option ρ) (by_ : Dict κ (Dict Text α)) : List ρ :=
  (sortedSet le by_.keys).filterMap fun k =>
    match (by_.sub k).lookup qudoName, (by_.sub k).lookup stockName with
    | some q, some s => row k q s
    | _, _ => none

/-- A section that fills `by` from its file and compares the builds key by key. -/
def comparedSection (required : List Text) (entry : Row → Py (List (κ × Text × α)))
    (row : κ → α → α → Option ρ) (file : Option (List Text)) : Py (Option (List ρ)) := do
  match ← readTable file required with
  | none | some [] => pure none
  | some rows =>
      let es ← rows.mapM entry
      pure (some (compared le row (Dict.collect es.flatten)))

variable {row : κ → α → α → Option ρ}

theorem comparedSection_of_entries {required : List Text} {header : Text}
    (hcols : ∀ c ∈ required, c ∈ csvFields header) {A : Type} {as : List A} (hne : as ≠ [])
    {line : A → Text} {entry : Row → Py (List (κ × Text × α))} {entries : A → List (κ × Text × α)}
    (h : ∀ a ∈ as, entry (dictRow (csvFields header) (csvFields (line a))) = .ok (entries a)) :
    comparedSection le required entry row (some (header :: as.map line)) =
      .ok (some (compared le row (Dict.collect (as.map entries).flatten))) := by
  have hread : (as.map fun a => dictRow (csvFields header) (csvFields (line a))).mapM entry =
      .ok (as.map entries) := by
    rw [List.mapM_map]
    exact mapM_ok_of_forall h
  unfold comparedSection
  rw [readTable_of_columns hcols, List.map_map]
  obtain ⟨a, as, rfl⟩ := List.exists_cons_of_ne_nil hne
  show (List.mapM entry ((a :: as).map _) >>= _) = _
  rw [show ((a :: as).map ((fun l => dictRow (csvFields header) (csvFields l)) ∘ line)).mapM entry =
    .ok ((a :: as).map entries) from hread]
  rfl

theorem comparedSection_eq_error {required : List Text} {header : Text}
    (hcols : ∀ c ∈ required, c ∈ csvFields header) {ls : List Text}
    {entry : Row → Py (List (κ × Text × α))} {e : Exn}
    (h : (ls.map fun l => dictRow (csvFields header) (csvFields l)).mapM entry = .error e) :
    comparedSection le required entry row (some (header :: ls)) = .error e := by
  unfold comparedSection
  rw [readTable_of_columns hcols]
  cases ls with
  | nil => cases h
  | cons l ls =>
      show (List.mapM entry ((l :: ls).map _) >>= _) = _
      rw [h]
      rfl

theorem mem_compared {es : List (κ × Text × α)} (hfun : Dict.Functional es) (x : ρ) :
    x ∈ compared le row (Dict.collect es) ↔
      ∃ k q s, (k, qudoName, q) ∈ es ∧ (k, stockName, s) ∈ es ∧ row k q s = some x := by
  unfold compared
  rw [List.mem_filterMap]
  constructor
  · rintro ⟨k, -, hrow⟩
    cases hq : ((Dict.collect es).sub k).lookup qudoName with
    | none => simp [hq] at hrow
    | some q =>
        cases hs : ((Dict.collect es).sub k).lookup stockName with
        | none => simp [hq, hs] at hrow
        | some s =>
            rw [hq, hs] at hrow
            rw [Dict.lookup_sub_collect hfun] at hq hs
            exact ⟨k, q, s, hq, hs, hrow⟩
  · rintro ⟨k, q, s, hq, hs, hrow⟩
    have hkey : k ∈ sortedSet le (Dict.collect es).keys := by
      rw [mem_sortedSet, Dict.mem_keys_collect]
      exact ⟨qudoName, q, hq⟩
    rw [← Dict.lookup_sub_collect hfun] at hq hs
    refine ⟨k, hkey, ?_⟩
    rw [hq, hs]
    exact hrow

-- The rows come in the order of their keys.
theorem compared_sublist {key : ρ → κ} (hkey : ∀ k q s x, row k q s = some x → key x = k)
    (by_ : Dict κ (Dict Text α)) :
    ((compared le row by_).map key).Sublist (sortedSet le by_.keys) := by
  unfold compared
  induction sortedSet le by_.keys with
  | nil => exact List.nil_sublist _
  | cons k ks ih =>
      rw [List.filterMap_cons]
      split
      · exact ih.cons k
      · rename_i x hx
        rw [List.map_cons]
        split at hx
        · rw [hkey k _ _ x hx]
          exact ih.cons_cons k
        · cases hx

end Compared

/-- The rows of the three tables. -/
structure Tables where
  primitives : List (TableRow PrimitiveCell × Verdict)
  handshake : List (TableRow (Text × Text))
  resumption : List (TableRow (Text × Text))
  deriving DecidableEq

/-- The three files, in the order of `main`. -/
def analyze (primitives handshake resumption : Option (List Text)) : Py Tables := do
  let p ← secPrimitives primitives
  let h ← secHandshake handshake
  let r ← secResumption resumption
  pure ⟨p.getD [], h.getD [], r.getD []⟩

theorem analyze_ok_iff {primitives handshake resumption : Option (List Text)} {out : Tables} :
    analyze primitives handshake resumption = .ok out ↔
      ∃ p h r, secPrimitives primitives = .ok p ∧ secHandshake handshake = .ok h ∧
        secResumption resumption = .ok r ∧ out = ⟨p.getD [], h.getD [], r.getD []⟩ := by
  simp only [analyze, bind_ok_iff]
  constructor
  · rintro ⟨p, hp, h, hh, r, hr, ⟨⟩⟩
    exact ⟨p, h, r, hp, hh, hr, rfl⟩
  · rintro ⟨p, h, r, hp, hh, hr, rfl⟩
    exact ⟨p, hp, h, hh, r, hr, rfl⟩

end QudoSSL
