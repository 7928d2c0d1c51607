import QudoSSL.Bench.Robust
import QudoSSL.Python.Printed
import Mathlib.Data.Rat.Floor

/-!
# Peak memory

The last loop of `run.sh` and `sec_memory`.  The figure comes from `/usr/bin/time`, which is not the
same program on the two systems: on Linux it is the last line of standard error, whatever that line
is, and on macOS it is looked up by its label.
-/

namespace QudoSSL

open Posix Python

/-! ## `peak_rss_kb` -/

inductive BenchOs where
  | linux
  | macos
  deriving DecidableEq

def rssLabel : Text := txt "maximum resident set size"

/-- A run of `/usr/bin/time`: what the command itself writes to standard error, the figure, and what
BSD `time` reports after it. -/
structure Timed where
  before : List Text
  pad : ℕ
  figure : ℕ
  after : List Text
  quiet : ∀ l ∈ before, ¬ rssLabel <:+: l

/-- The shell's complaint that there is no `/usr/bin/time`; it starts with the path of `lib.sh`. -/
structure Complaint where
  rest : Text
  quiet : ¬ rssLabel <:+: '/' :: rest

inductive TimeRun where
  | measured (m : Timed)
  | missing (c : Complaint)

def timeErr : BenchOs → TimeRun → List Text
  | .linux, .measured m => m.before ++ [decimal m.figure]
  | .macos, .measured m =>
      m.before ++
        (List.replicate m.pad ' ' ++ (decimal m.figure ++ txt "  " ++ rssLabel)) :: m.after
  | _, .missing c => ['/' :: c.rest]

def peakRssKb (os : BenchOs) (err : List Text) : Text :=
  match os with
  | .linux => err.getLast?.getD []
  | .macos =>
      -- awk '/maximum resident set size/{printf "%d", $1/1024; exit}'
      match err.find? (rssLabel <:+: ·) with
      | none => []
      | some l => decimal ⌊(numeral ((fields l).headD [])).getD 0 / 1024⌋.toNat

/-- The figure in kilobytes. -/
def peakKb : BenchOs → TimeRun → Option ℕ
  | .linux, .measured m => some m.figure
  | .macos, .measured m => some (m.figure / 1024)
  | _, .missing _ => none

theorem fields_blank (l : Text) : fields (' ' :: l) = fields l := by
  have hsplit := List.splitOn_append_cons_self (a := ' ') []
    (l.map fun c => if c = '\t' then ' ' else c)
  rw [List.nil_append] at hsplit
  unfold fields
  rw [List.map_cons, if_neg (by decide), hsplit, List.filter_append]
  rfl

theorem headD_fields {w : Text} (hne : w ≠ []) (hspace : ' ' ∉ w) (htab : '\t' ∉ w) (k : ℕ)
    (t : Text) : (fields (List.replicate k ' ' ++ (w ++ ' ' :: t))).headD [] = w := by
  induction k with
  | zero =>
      unfold fields
      rw [List.replicate_zero, List.nil_append, List.map_append, List.map_cons,
        map_tab_eq_self htab, if_neg (by decide), List.splitOn_append_cons_self,
        List.splitOn_eq_singleton hspace, List.filter_append]
      simp [hne]
  | succ k ih => rw [List.replicate_succ, List.cons_append, fields_blank, ih]

theorem floor_kb (n : ℕ) : ⌊(n : ℚ) / 1024⌋.toNat = n / 1024 := by
  have h : ⌊(n : ℚ) / ((1024 : ℕ) : ℚ)⌋ = ((n / 1024 : ℕ) : ℤ) :=
    Rat.floor_natCast_div_natCast n 1024
  rw [show (1024 : ℚ) = ((1024 : ℕ) : ℚ) by norm_num, h, Int.toNat_natCast]

theorem peakRssKb_measured (os : BenchOs) (m : Timed) :
    peakRssKb os (timeErr os (.measured m)) = (peakKb os (.measured m)).elim [] decimal := by
  cases os with
  | linux => simp [peakRssKb, timeErr, peakKb]
  | macos =>
      have hbefore : m.before.find? (rssLabel <:+: ·) = none := by
        rw [List.find?_eq_none]
        intro l hl
        simpa using m.quiet l hl
      have hlabel : rssLabel <:+: List.replicate m.pad ' ' ++
          (decimal m.figure ++ txt "  " ++ rssLabel) := by
        rw [← List.append_assoc]
        exact (List.suffix_append _ _).isInfix
      have hfirst : (fields (List.replicate m.pad ' ' ++
          (decimal m.figure ++ txt "  " ++ rssLabel))).headD [] = decimal m.figure := by
        rw [List.append_assoc (decimal m.figure)]
        exact headD_fields (decimal_ne_nil _) (notMem_decimal (by decide) _)
          (notMem_decimal (by decide) _) m.pad _
      have hfind : (timeErr .macos (.measured m)).find? (rssLabel <:+: ·) =
          some (List.replicate m.pad ' ' ++ (decimal m.figure ++ txt "  " ++ rssLabel)) := by
        rw [timeErr, List.find?_append, hbefore, Option.none_or]
        exact List.find?_cons_of_pos (by simpa using hlabel)
      rw [peakRssKb, hfind]
      dsimp only
      rw [hfirst, numeral_decimal, Option.getD_some, floor_kb]
      rfl

theorem peakRssKb_missing_macos (c : Complaint) :
    peakRssKb .macos (timeErr .macos (.missing c)) = [] := by
  have hfind : (timeErr .macos (.missing c)).find? (rssLabel <:+: ·) = none := by
    rw [List.find?_eq_none]
    intro l hl
    rw [List.mem_singleton.mp hl]
    simpa using c.quiet
  rw [peakRssKb, hfind]

/-! ## The loop of `run.sh` -/

structure MemoryOutcomes where
  os : BenchOs
  run : Which → ℕ → TimeRun

def connections : List ℕ := [100, 1000, 5000]

def memoryCalls : List (Which × ℕ) :=
  [Which.qudo, .stock].flatMap fun t => connections.map fun n => (t, n)

def memoryLine (o : MemoryOutcomes) (r : Which × ℕ) : Text :=
  csvLine [bname r.1, decimal r.2, peakRssKb o.os (timeErr o.os (o.run r.1 r.2))]

def memoryHeader : Text := txt "build,connections,peak_rss_kb"

def memoryCsv (o : MemoryOutcomes) : List Text := memoryHeader :: memoryCalls.map (memoryLine o)

/-! ## The section -/

structure MemoryRow where
  connections : ℕ
  qudossl : ℕ
  openssl : ℕ
  delta : ℤ
  ratio : ℚ
  deriving DecidableEq

def memoryEntry (r : Row) : Py (List (ℕ × Text × ℕ)) :=
  if truthy (r (txt "peak_rss_kb")) then do
    let v ← int (r (txt "peak_rss_kb"))
    let n ← int (r (txt "connections"))
    pure [(n, field r (txt "build"), v)]
  else pure []

def memoryRow (n q s : ℕ) : Option MemoryRow :=
  -- inverted: kilobytes, lower is better
  if q = 0 ∨ s = 0 then none else some ⟨n, q, s, (q : ℤ) - s, (s : ℚ) / q⟩

def memoryColumns : List Text := [txt "build", txt "connections", txt "peak_rss_kb"]

def secMemory : Option (List Text) → Py (Option (List MemoryRow)) :=
  comparedSection (· ≤ ·) memoryColumns memoryEntry memoryRow

/-! ## What the section makes of a run -/

def memoryKb (o : MemoryOutcomes) (r : Which × ℕ) : Option ℕ := peakKb o.os (o.run r.1 r.2)

def memoryEntries (o : MemoryOutcomes) (r : Which × ℕ) : List (ℕ × Text × ℕ) :=
  (memoryKb o r).toList.map fun v => (r.2, bname r.1, v)

/-- On Linux the complaint itself is recorded as the figure. -/
def Complains (o : MemoryOutcomes) (r : Which × ℕ) : Prop :=
  o.os = .linux ∧ ∃ c, o.run r.1 r.2 = .missing c

theorem memoryHeader_fields : csvFields memoryHeader = memoryColumns := by decide

theorem peakRssKb_run {o : MemoryOutcomes} {r : Which × ℕ} (h : ¬ Complains o r) :
    peakRssKb o.os (timeErr o.os (o.run r.1 r.2)) = (memoryKb o r).elim [] decimal := by
  unfold memoryKb
  cases hrun : o.run r.1 r.2 with
  | measured m => exact peakRssKb_measured o.os m
  | missing c =>
      cases hos : o.os with
      | linux => exact absurd ⟨hos, c, hrun⟩ h
      | macos => exact peakRssKb_missing_macos c

theorem memoryEntry_line {o : MemoryOutcomes} {r : Which × ℕ} (h : ¬ Complains o r) :
    memoryEntry (dictRow (csvFields memoryHeader) (csvFields (memoryLine o r))) =
      .ok (memoryEntries o r) := by
  have hfields : csvFields (memoryLine o r) =
      [bname r.1, decimal r.2, (memoryKb o r).elim [] decimal] := by
    rw [memoryLine, peakRssKb_run h]
    apply csvFields_csvLine (by simp)
    simp [comma_notMem_bname, comma_notMem_decimal, comma_notMem_count]
  rw [memoryHeader_fields, hfields, memoryEntries]
  cases memoryKb o r with
  | none => rfl
  | some v =>
      have htruthy : truthy (some (decimal v)) = true := by simp [truthy, decimal_ne_nil]
      show (if truthy (some (decimal v)) then _ else _) = _
      rw [if_pos htruthy]
      show (int (some (decimal v)) >>= fun v => int (some (decimal r.2)) >>= _) = _
      rw [int_decimal, int_decimal]
      rfl

-- A comma may cut the complaint, but what is left of it starts with the path.
theorem csvFields_complaint (rest : Text) :
    ∃ w ws, csvFields ('/' :: rest) = ('/' :: w) :: ws := by
  obtain ⟨w, ws, h⟩ := List.exists_cons_of_ne_nil (List.splitOn_ne_nil ',' rest)
  unfold csvFields
  rw [List.splitOn_cons_eq_if_modifyHead, h]
  exact ⟨w, ws, rfl⟩

theorem memoryEntry_complaint {o : MemoryOutcomes} {r : Which × ℕ} (h : Complains o r) :
    memoryEntry (dictRow (csvFields memoryHeader) (csvFields (memoryLine o r))) =
      .error .valueError := by
  obtain ⟨hos, c, hrun⟩ := h
  obtain ⟨w, ws, hw⟩ := csvFields_complaint c.rest
  have hline : memoryLine o r = bname r.1 ++ ',' :: (decimal r.2 ++ ',' :: ('/' :: c.rest)) := by
    rw [memoryLine, hos, hrun]
    simp [csvLine, List.intercalate, peakRssKb, timeErr]
  have hfields : csvFields (memoryLine o r) = bname r.1 :: decimal r.2 :: ('/' :: w) :: ws := by
    rw [hline, csvFields_append (comma_notMem_bname r.1),
      csvFields_append (comma_notMem_decimal r.2), hw]
  have hint : int (some ('/' :: w)) = .error .valueError := by
    have hnatural : natural ('/' :: w) = none := if_neg fun h => absurd h.2 (by simp)
    rw [int, hnatural]
    rfl
  rw [memoryHeader_fields, hfields]
  show (int (some ('/' :: w)) >>= _) = _
  rw [hint]
  rfl

theorem mem_memoryCalls (t : Which) (n : ℕ) : (t, n) ∈ memoryCalls ↔ n ∈ connections := by
  have ht : t ∈ [Which.qudo, .stock] := by cases t <;> decide
  simp only [memoryCalls, List.mem_flatMap, List.mem_map, Prod.mk.injEq]
  constructor
  · rintro ⟨_, -, m, hm, -, rfl⟩
    exact hm
  · exact fun hn => ⟨t, ht, n, hn, rfl, rfl⟩

theorem mem_memoryEntries (o : MemoryOutcomes) (n : ℕ) (b : Text) (v : ℕ) :
    (n, b, v) ∈ (memoryCalls.map (memoryEntries o)).flatten ↔
      n ∈ connections ∧ ∃ t, bname t = b ∧ memoryKb o (t, n) = some v := by
  simp only [List.mem_flatten, List.mem_map, exists_exists_and_eq_and, memoryEntries,
    Option.mem_toList, Prod.mk.injEq]
  constructor
  · rintro ⟨⟨t, n⟩, hr, v, hv, rfl, hb, rfl⟩
    exact ⟨(mem_memoryCalls t n).mp hr, t, hb, hv⟩
  · rintro ⟨hn, t, hb, hv⟩
    exact ⟨(t, n), (mem_memoryCalls t n).mpr hn, v, hv, rfl, hb, rfl⟩

theorem functional_memoryEntries (o : MemoryOutcomes) :
    Dict.Functional (memoryCalls.map (memoryEntries o)).flatten := by
  intro n b v w hv hw
  rw [mem_memoryEntries] at hv hw
  obtain ⟨-, t, ht, hv⟩ := hv
  obtain ⟨-, u, hu, hw⟩ := hw
  rw [bname_injective (ht.trans hu.symm), hw] at hv
  exact (Option.some.inj hv).symm

-- The two figures that are derived from a pair say the same about it.
theorem one_lt_ratio_iff {n q s : ℕ} {x : MemoryRow} (h : memoryRow n q s = some x) :
    1 < x.ratio ↔ x.delta < 0 := by
  rw [memoryRow, Option.ite_none_left_eq_some, not_or, Option.some.injEq] at h
  obtain ⟨⟨hq, -⟩, rfl⟩ := h
  have hpos : (0 : ℚ) < q := by exact_mod_cast Nat.pos_of_ne_zero hq
  rw [one_lt_div hpos, Nat.cast_lt]
  show q < s ↔ (q : ℤ) - s < 0
  omega

/-- The section completes unless Linux has no `/usr/bin/time`, and then the whole analysis ends in
an exception.  Where it completes it shows, in order and once, the numbers of connections with a
figure for both builds, and the ratio is above one exactly where the difference favours QudoSSL. -/
theorem secMemory_memoryCsv (o : MemoryOutcomes) :
    ((∃ r ∈ memoryCalls, Complains o r) → secMemory (some (memoryCsv o)) = .error .valueError) ∧
    ((∀ r ∈ memoryCalls, ¬ Complains o r) →
      ∃ out, secMemory (some (memoryCsv o)) = .ok (some out) ∧
        (out.map MemoryRow.connections).Pairwise (· < ·) ∧
        (∀ x ∈ out, 1 < x.ratio ↔ x.delta < 0) ∧
        ∀ x, x ∈ out ↔ ∃ n ∈ connections, ∃ q s, memoryKb o (.qudo, n) = some q ∧
          memoryKb o (.stock, n) = some s ∧ memoryRow n q s = some x) := by
  have hcols : ∀ c ∈ memoryColumns, c ∈ csvFields memoryHeader := by
    rw [memoryHeader_fields]
    exact fun c hc => hc
  constructor
  · rintro ⟨r, hr, hcomplains⟩
    apply comparedSection_eq_error _ hcols
    rw [List.map_map, List.mapM_map]
    apply mapM_eq_error
    · intro a _
      by_cases ha : Complains o a
      · exact .inl (memoryEntry_complaint ha)
      · exact .inr ⟨_, memoryEntry_line ha⟩
    · exact ⟨r, hr, memoryEntry_complaint hcomplains⟩
  · intro hquiet
    have hmem : ∀ x, x ∈ compared (· ≤ ·) memoryRow _ ↔ _ :=
      mem_compared (· ≤ ·) (functional_memoryEntries o)
    refine ⟨compared (· ≤ ·) memoryRow (Dict.collect (memoryCalls.map (memoryEntries o)).flatten),
      comparedSection_of_entries _ hcols (by decide) fun r hr => memoryEntry_line (hquiet r hr),
      ?_, fun x hx => ?_, fun x => ?_⟩
    · have hkey : ∀ n q s x, memoryRow n q s = some x → x.connections = n := by
        intro n q s x hx
        rw [memoryRow, Option.ite_none_left_eq_some, Option.some.injEq] at hx
        rw [← hx.2]
      have hsorted := (pairwise_sortedSet (· ≤ ·) (Dict.collect
        (memoryCalls.map (memoryEntries o)).flatten).keys).imp fun h => lt_of_le_of_ne h.1 h.2
      exact hsorted.sublist (compared_sublist _ hkey _)
    · obtain ⟨n, q, s, -, -, hrow⟩ := (hmem x).mp hx
      exact one_lt_ratio_iff hrow
    · rw [hmem x]
      simp only [mem_memoryEntries]
      constructor
      · rintro ⟨n, q, s, ⟨hn, t, ht, hq⟩, ⟨-, u, hu, hs⟩, hrow⟩
        rw [show t = .qudo from bname_injective ht] at hq
        rw [show u = .stock from bname_injective hu] at hs
        exact ⟨n, hn, q, s, hq, hs, hrow⟩
      · rintro ⟨n, hn, q, s, hq, hs, hrow⟩
        exact ⟨n, q, s, ⟨hn, .qudo, rfl, hq⟩, ⟨hn, .stock, rfl, hs⟩, hrow⟩

end QudoSSL
