import QudoSSL.Bench.Analyze
import QudoSSL.Bench.Run

/-!
# The analysis of what a run has written

Which failures of the measurement tools `analyze.py` survives.  The lines that `run.sh` writes are
read back, and the condition for the three sections to complete is stated on the tools' outcomes.
-/

namespace QudoSSL

open Posix Python

/-! ## Measurements behind the entries -/

section Measurements

variable {X κ : Type} {label : X → κ} {m : X → Which → ℕ → Option ℚ}
  {es : List ((κ × Text) × ℕ × ℚ)}

/-- The entries are the values of the measurements, under the labels of their cells. -/
def Records (label : X → κ) (m : X → Which → ℕ → Option ℚ) (es : List ((κ × Text) × ℕ × ℚ)) :
    Prop :=
  ∀ c b k v, ((c, b), k, v) ∈ es ↔ ∃ x t, label x = c ∧ bname t = b ∧ m x t k = some v

/-- Both builds have a value in some repetition. -/
def Pairs (m : Which → ℕ → Option ℚ) : Prop :=
  ∃ k v w, m .qudo k = some v ∧ m .stock k = some w

/-- If both builds have values at all, they have some in one repetition. -/
def Overlapping (m : Which → ℕ → Option ℚ) : Prop :=
  (∃ k v, m .qudo k = some v) → (∃ k w, m .stock k = some w) → Pairs m

/-- A table shows the cells that have a pair, and no others. -/
def ShowsPairs (label : X → κ) (m : X → Which → ℕ → Option ℚ) (shown : List κ) : Prop :=
  ∀ c, c ∈ shown ↔ ∃ x, label x = c ∧ Pairs (m x)

-- The entries of the calls' lines, call by call.
theorem records_of_calls {A : Type} {as : List A} {entries : A → List ((κ × Text) × ℕ × ℚ)}
    (hsound : ∀ a ∈ as, ∀ e ∈ entries a,
      ∃ x t k v, e = ((label x, bname t), k, v) ∧ m x t k = some v)
    (hcomplete : ∀ x t k v, m x t k = some v → ∃ a ∈ as, ((label x, bname t), k, v) ∈ entries a) :
    Records label m (as.map entries).flatten := by
  intro c b k v
  simp only [List.mem_flatten, List.mem_map, exists_exists_and_eq_and]
  constructor
  · rintro ⟨a, ha, he⟩
    obtain ⟨x, t, k, v, heq, hv⟩ := hsound a ha _ he
    obtain ⟨⟨rfl, rfl⟩, rfl, rfl⟩ := by simpa only [Prod.mk.injEq] using heq
    exact ⟨x, t, rfl, rfl, hv⟩
  · rintro ⟨x, t, rfl, rfl, hv⟩
    exact hcomplete x t k v hv

def NonzeroDivisors (divisor : ℚ → ℚ → ℚ) (m : Which → ℕ → Option ℚ) : Prop :=
  ∀ k v w, m .qudo k = some v → m .stock k = some w → divisor v w ≠ 0

variable (hinj : Function.Injective label) (hes : Records label m es)

include hinj hes

theorem mem_entries_iff (x : X) (t : Which) (k : ℕ) (v : ℚ) :
    ((label x, bname t), k, v) ∈ es ↔ m x t k = some v := by
  rw [hes]
  constructor
  · rintro ⟨y, u, hy, hu, hv⟩
    rwa [hinj hy, bname_injective hu] at hv
  · exact fun hv => ⟨x, t, rfl, rfl, hv⟩

theorem functional_entries : Dict.Functional es := by
  rintro ⟨c, b⟩ k v w hv hw
  obtain ⟨x, t, rfl, rfl, hx⟩ := (hes c b k v).mp hv
  rw [mem_entries_iff hinj hes] at hw
  exact Option.some.inj (hx.symm.trans hw)

theorem both_iff (x : X) (k : ℕ) (v w : ℚ) :
    Both es (label x) k v w ↔ m x .qudo k = some v ∧ m x .stock k = some w :=
  and_congr (mem_entries_iff hinj hes x .qudo k v) (mem_entries_iff hinj hes x .stock k w)

theorem measured_iff (x : X) (t : Which) :
    Measured es (label x) (bname t) ↔ ∃ k v, m x t k = some v :=
  exists_congr fun k => exists_congr fun v => mem_entries_iff hinj hes x t k v

theorem exists_both_iff (x : X) : (∃ k v w, Both es (label x) k v w) ↔ Pairs (m x) :=
  exists_congr fun k => exists_congr fun v => exists_congr fun w => both_iff hinj hes x k v w

theorem shows_iff (shown : List κ) : Shows es shown ↔ ShowsPairs label m shown := by
  refine forall_congr' fun c => iff_congr Iff.rfl ?_
  constructor
  · rintro ⟨k, v, w, hvw⟩
    obtain ⟨x, t, rfl, -, -⟩ := (hes c qudoName k v).mp hvw.1
    exact ⟨x, rfl, (exists_both_iff hinj hes x).mp ⟨k, v, w, hvw⟩⟩
  · rintro ⟨x, rfl, hpairs⟩
    exact (exists_both_iff hinj hes x).mpr hpairs

theorem forall_overlaps_iff : (∀ c, Overlaps es c) ↔ ∀ x, Overlapping (m x) := by
  have hcell : ∀ x, Overlaps es (label x) ↔ Overlapping (m x) := fun x =>
    imp_congr (measured_iff hinj hes x .qudo)
      (imp_congr (measured_iff hinj hes x .stock) (exists_both_iff hinj hes x))
  refine ⟨fun h x => (hcell x).mp (h _), fun h c hq => ?_⟩
  -- a cell with an entry is the label of a measurement
  obtain ⟨k, v, hv⟩ := id hq
  obtain ⟨x, t, rfl, -, -⟩ := (hes c qudoName k v).mp hv
  exact (hcell x).mpr (h x) hq

theorem forall_divides_iff (divisor : ℚ → ℚ → ℚ) :
    (∀ c, Divides divisor es c) ↔ ∀ x, NonzeroDivisors divisor (m x) := by
  constructor
  · intro h x k v w hv hw
    exact h (label x) k v w ((both_iff hinj hes x k v w).mpr ⟨hv, hw⟩)
  · intro h c k v w hvw
    obtain ⟨x, t, rfl, -, -⟩ := (hes c qudoName k v).mp hvw.1
    obtain ⟨hv, hw⟩ := (both_iff hinj hes x k v w).mp hvw
    exact h x k v w hv hw

end Measurements

/-! ## Lines that are read back -/

theorem comma_notMem_decimal (n : ℕ) : ',' ∉ decimal n := notMem_decimal (by decide) n

-- A column that may be empty.
theorem comma_notMem_count (n : Option ℕ) : ',' ∉ n.elim [] decimal := by
  cases n with
  | none => exact List.not_mem_nil
  | some n => exact comma_notMem_decimal n

theorem comma_notMem_bname (t : Which) : ',' ∉ bname t := by
  cases t <;> decide

/-- What a tool has printed, or nothing. -/
def numeralField (n : Option Numeral) : Text := n.elim [] Numeral.text

theorem comma_notMem_numeralField (n : Option Numeral) : ',' ∉ numeralField n := by
  cases n with
  | none => exact List.not_mem_nil
  | some n => exact n.comma_notMem

-- A row with a value becomes one entry, a row without becomes none.
theorem entry_numeralField {κ : Type} (cell : Row → κ) {value : Text} {r : Row}
    {n : Option Numeral} {k : ℕ} (hvalue : r value = some (numeralField n))
    (hrep : r (txt "rep") = some (decimal k)) :
    entry cell value r =
      .ok (n.toList.map fun n => ((cell r, field r (txt "build")), k, n.value)) := by
  cases n with
  | none => simp [entry, hvalue, numeralField, truthy]; rfl
  | some n =>
      have htext : r value = some n.text := hvalue
      simp only [entry, htext, hrep, Numeral.truthy_text, if_true, n.float_text, int_decimal]
      rfl

/-! ## Handshakes -/

def HandshakeRun.microseconds : HandshakeRun → Option Numeral
  | .time us => some us
  | _ => none

def handshakeLabel (c : HandshakeCell) : Text × Text := (c.mode, c.group)

theorem handshakeLabel_injective : Function.Injective handshakeLabel := by
  intro c d h
  cases c <;> cases d <;> first | rfl | exact absurd h (by decide)

/-- The time that is recorded for a cell, if it is measured at all and the tool prints one. -/
def handshakeTime (o : Outcomes) (c : HandshakeCell) (t : Which) (rep : ℕ) : Option ℚ :=
  if rep ∈ repetitions o.reps ∧ c ∈ handshakeCells o t then
    (o.handshake rep t c).microseconds.map Numeral.value
  else none

/-- No call of `handshake` ends in a diagnostic. -/
def Quiet (o : Outcomes) : Prop :=
  ∀ r ∈ handshakeCalls o, ∀ d, o.handshake r.rep r.tree r.cell ≠ .diagnostic d

theorem mem_handshakeCalls (o : Outcomes) (r : HandshakeCall) :
    r ∈ handshakeCalls o ↔ r.rep ∈ repetitions o.reps ∧ r.cell ∈ handshakeCells o r.tree := by
  obtain ⟨rep, tree, cell⟩ := r
  simp only [handshakeCalls, List.mem_flatMap, List.mem_map, HandshakeCall.mk.injEq]
  constructor
  · rintro ⟨k, hk, t, -, c, hc, rfl, rfl, rfl⟩
    exact ⟨hk, hc⟩
  · rintro ⟨hk, hc⟩
    exact ⟨rep, hk, tree, mem_order rep tree, cell, hc, rfl, rfl, rfl⟩

-- A comma in what the tool prints makes a field of its own.
theorem csvFields_handshakeLine (o : Outcomes) (r : HandshakeCall) :
    csvFields (handshakeLine o r) = [decimal r.rep, bname r.tree, r.cell.mode, r.cell.group] ++
      csvFields (headOne (handshakeOut (o.handshake r.rep r.tree r.cell))) := by
  have hmode : ',' ∉ r.cell.mode := by cases r.cell <;> decide
  have hgroup : ',' ∉ r.cell.group := by cases r.cell <;> decide
  have hline : handshakeLine o r = decimal r.rep ++ ',' :: (bname r.tree ++ ',' ::
      (r.cell.mode ++ ',' :: (r.cell.group ++ ',' ::
        headOne (handshakeOut (o.handshake r.rep r.tree r.cell))))) := by
    simp [handshakeLine, csvLine, List.intercalate_cons_cons]
  rw [hline, csvFields_append (comma_notMem_decimal r.rep),
    csvFields_append (comma_notMem_bname r.tree), csvFields_append hmode, csvFields_append hgroup]
  rfl

-- The analysis reads the first field of the line, and fails on it.
theorem handshakeEntry_diagnostic (d : Diagnostic) (rep build mode group : Text) :
    handshakeEntry (dictRow handshakeColumns ([rep, build, mode, group] ++ csvFields d.line)) =
      .error .valueError := by
  obtain ⟨w, ws, hfields⟩ := List.exists_cons_of_ne_nil (List.splitOn_ne_nil ',' d.line)
  have hfields : csvFields d.line = w :: ws := hfields
  have hrefused := d.noNumber
  have hne := d.field_ne_nil
  rw [hfields, List.headD_cons] at hrefused hne
  have hnumeral : numeral w = none := by
    simp only [refused, Bool.and_eq_true, Option.isNone_iff_eq_none] at hrefused
    exact hrefused.1.1.2
  have hvalue : dictRow handshakeColumns ([rep, build, mode, group] ++ csvFields d.line)
      (txt "us_per_handshake") = some w := by
    rw [hfields]
    rfl
  have htruthy : truthy (some w) = true := by simp [truthy, hne]
  have hfloat : float (some w) = .error .valueError := by rw [float, hnumeral]; rfl
  rw [handshakeEntry, entry, hvalue, if_pos htruthy, hfloat]
  rfl

/-- What a line adds to the dictionary when the tool prints no diagnostic. -/
def handshakeEntries (o : Outcomes) (r : HandshakeCall) :
    List (((Text × Text) × Text) × ℕ × ℚ) :=
  (o.handshake r.rep r.tree r.cell).microseconds.toList.map fun us =>
    ((handshakeLabel r.cell, bname r.tree), r.rep, us.value)

theorem handshakeEntry_line (o : Outcomes) (r : HandshakeCall) :
    handshakeEntry (dictRow handshakeColumns (csvFields (handshakeLine o r))) =
      match o.handshake r.rep r.tree r.cell with
      | .diagnostic _ => .error .valueError
      | _ => .ok (handshakeEntries o r) := by
  rw [csvFields_handshakeLine, headOne_out, handshakeEntries]
  cases o.handshake r.rep r.tree r.cell with
  | time us =>
      have hfield : csvFields us.text = [us.text] := List.splitOn_eq_singleton us.comma_notMem
      show handshakeEntry (dictRow _ ([_, _, _, _] ++ csvFields us.text)) = _
      rw [hfield]
      exact entry_numeralField (n := some us) _ rfl rfl
  | silent => exact entry_numeralField (n := none) _ rfl rfl
  | diagnostic d => exact handshakeEntry_diagnostic d _ _ _ _

theorem records_handshakeEntries (o : Outcomes) :
    Records handshakeLabel (handshakeTime o)
      ((handshakeCalls o).map (handshakeEntries o)).flatten := by
  apply records_of_calls
  · intro r hr e he
    obtain ⟨us, hus, rfl⟩ := List.mem_map.mp he
    have hrun := Option.mem_toList.mp hus
    refine ⟨r.cell, r.tree, r.rep, us.value, rfl, ?_⟩
    rw [handshakeTime, if_pos ((mem_handshakeCalls o r).mp hr), hrun]
    rfl
  · intro c t k v hv
    rw [handshakeTime, Option.ite_none_right_eq_some, Option.map_eq_some_iff] at hv
    obtain ⟨hmade, us, hus, rfl⟩ := hv
    refine ⟨⟨k, t, c⟩, (mem_handshakeCalls o _).mpr hmade, ?_⟩
    exact List.mem_map.mpr ⟨us, Option.mem_toList.mpr hus, rfl⟩

theorem exists_secHandshake_iff (o : Outcomes) :
    (∃ out, secHandshake (some (handshakeCsv o)) = .ok out ∧
        ShowsPairs handshakeLabel (handshakeTime o) ((out.getD []).map TableRow.cell)) ↔
      Quiet o ∧ (∀ c, Overlapping (handshakeTime o c)) ∧
        ∀ c, NonzeroDivisors (fun v _ => v) (handshakeTime o c) := by
  have hheader : csvFields (txt "rep,build,mode,group,us_per_handshake") = handshakeColumns := by
    decide
  have hcols : ∀ c ∈ handshakeColumns,
      c ∈ csvFields (txt "rep,build,mode,group,us_per_handshake") := by
    rw [hheader]
    exact fun c hc => hc
  have hline := handshakeEntry_line o
  rw [← hheader] at hline
  unfold secHandshake handshakeCsv
  by_cases hquiet : Quiet o
  · have hreads : ∀ r ∈ handshakeCalls o, handshakeEntry (dictRow
        (csvFields (txt "rep,build,mode,group,us_per_handshake")) (csvFields (handshakeLine o r))) =
          .ok (handshakeEntries o r) := by
      intro r hr
      rw [hline]
      cases hrun : o.handshake r.rep r.tree r.cell with
      | time us => rfl
      | silent => rfl
      | diagnostic d => exact absurd hrun (hquiet r hr d)
    have hinj := handshakeLabel_injective
    have hrecords := records_handshakeEntries o
    simp only [← shows_iff hinj hrecords]
    rw [exists_pairSection_iff hcols hreads (functional_entries hinj hrecords)
      dividesBy_handshakeRatios, forall_overlaps_iff hinj hrecords,
      forall_divides_iff hinj hrecords, and_iff_right hquiet]
  · -- the analysis stops at the first diagnostic, whatever else was measured
    refine iff_of_false ?_ fun h => hquiet h.1
    unfold Quiet at hquiet
    push Not at hquiet
    obtain ⟨r, hr, d, hd⟩ := hquiet
    have herror := hline r
    rw [hd] at herror
    rintro ⟨out, hout, -⟩
    exact not_exists_tableSection hcols hr herror ⟨out, hout⟩

/-! ## Resumption -/

def benchLabel (c : BenchTest × Side) : Text × Text := (c.1.text, c.2.text)

theorem benchLabel_injective : Function.Injective benchLabel := by
  rintro ⟨t, s⟩ ⟨u, r⟩ h
  cases t <;> cases s <;> cases u <;> cases r <;> first | rfl | exact absurd h (by decide)

def benchRate (o : Outcomes) (c : BenchTest × Side) (t : Which) (rep : ℕ) : Option ℚ :=
  if o.benchBuilt = true ∧ rep ∈ repetitions o.reps then
    ((o.bench rep t c.1).rate c.2).map Numeral.value
  else none

theorem mem_benchCalls (o : Outcomes) (r : BenchCall) :
    r ∈ benchCalls o ↔ r.rep ∈ repetitions o.reps := by
  obtain ⟨rep, tree, test, side⟩ := r
  simp only [benchCalls, List.mem_flatMap, List.mem_map, BenchCall.mk.injEq]
  constructor
  · rintro ⟨k, hk, t, -, u, -, s, -, rfl, -⟩
    exact hk
  · intro hk
    exact ⟨rep, hk, tree, mem_order rep tree, test, by cases test <;> decide, side,
      by cases side <;> decide, rfl, rfl, rfl, rfl⟩

theorem csvFields_resumptionLine (o : Outcomes) (r : BenchCall) :
    csvFields (resumptionLine o r) = [decimal r.rep, bname r.tree, r.test.text, r.side.text,
      numeralField ((o.bench r.rep r.tree r.test).rate r.side)] := by
  unfold resumptionLine
  rw [benchValue_out]
  apply csvFields_csvLine (by simp)
  have htest : ',' ∉ r.test.text := by cases r.test <;> decide
  have hside : ',' ∉ r.side.text := by cases r.side <;> decide
  have hrate := comma_notMem_numeralField ((o.bench r.rep r.tree r.test).rate r.side)
  unfold numeralField at hrate
  simp [comma_notMem_decimal, comma_notMem_bname, htest, hside, hrate]

def resumptionEntries (o : Outcomes) (r : BenchCall) : List (((Text × Text) × Text) × ℕ × ℚ) :=
  ((o.bench r.rep r.tree r.test).rate r.side).toList.map fun n =>
    ((benchLabel (r.test, r.side), bname r.tree), r.rep, n.value)

theorem resumptionEntry_line (o : Outcomes) (r : BenchCall) :
    resumptionEntry (dictRow resumptionColumns (csvFields (resumptionLine o r))) =
      .ok (resumptionEntries o r) := by
  rw [csvFields_resumptionLine]
  exact entry_numeralField _ rfl rfl

theorem records_resumptionEntries {o : Outcomes} (hbuilt : o.benchBuilt = true) :
    Records benchLabel (benchRate o) ((benchCalls o).map (resumptionEntries o)).flatten := by
  apply records_of_calls
  · intro r hr e he
    obtain ⟨n, hn, rfl⟩ := List.mem_map.mp he
    have hrate := Option.mem_toList.mp hn
    refine ⟨(r.test, r.side), r.tree, r.rep, n.value, rfl, ?_⟩
    rw [benchRate, if_pos ⟨hbuilt, (mem_benchCalls o r).mp hr⟩, hrate]
    rfl
  · rintro ⟨test, side⟩ t k v hv
    rw [benchRate, Option.ite_none_right_eq_some, Option.map_eq_some_iff] at hv
    obtain ⟨hmade, n, hn, rfl⟩ := hv
    refine ⟨⟨k, t, test, side⟩, (mem_benchCalls o _).mpr hmade.2, ?_⟩
    exact List.mem_map.mpr ⟨n, Option.mem_toList.mpr hn, rfl⟩

theorem benchRate_of_not_built {o : Outcomes} (hbuilt : o.benchBuilt = false)
    (c : BenchTest × Side) (t : Which) (rep : ℕ) : benchRate o c t rep = none := by
  simp [benchRate, hbuilt]

theorem exists_secResumption_iff (o : Outcomes) :
    (∃ out, secResumption (resumptionCsv o) = .ok out ∧
        ShowsPairs benchLabel (benchRate o) ((out.getD []).map TableRow.cell)) ↔
      (∀ c, Overlapping (benchRate o c)) ∧
        ∀ c, NonzeroDivisors (fun _ w => w) (benchRate o c) := by
  have hheader : csvFields (txt "rep,build,test,side,handshakes_per_s") = resumptionColumns := by
    decide
  have hcols : ∀ c ∈ resumptionColumns,
      c ∈ csvFields (txt "rep,build,test,side,handshakes_per_s") := by
    rw [hheader]
    exact fun c hc => hc
  unfold secResumption resumptionCsv
  cases hbuilt : o.benchBuilt with
  | false =>
      -- there is no file, and nothing in it
      have hnone := benchRate_of_not_built hbuilt
      refine iff_of_true ⟨none, rfl, fun c => ?_⟩ ⟨fun c => ?_, fun c => ?_⟩
      · simp [Pairs, hnone]
      · simp [Overlapping, hnone]
      · simp [NonzeroDivisors, hnone]
  | true =>
      have hreads : ∀ r ∈ benchCalls o, resumptionEntry (dictRow
          (csvFields (txt "rep,build,test,side,handshakes_per_s"))
          (csvFields (resumptionLine o r))) = .ok (resumptionEntries o r) := by
        intro r _
        rw [hheader, resumptionEntry_line]
      have hinj := benchLabel_injective
      have hrecords := records_resumptionEntries hbuilt
      simp only [← shows_iff hinj hrecords, if_true]
      rw [exists_pairSection_iff hcols hreads (functional_entries hinj hrecords)
        dividesBy_paired, forall_overlaps_iff hinj hrecords, forall_divides_iff hinj hrecords]

/-! ## Primitives -/

def primitiveLabel (c : Mode × Text × ℕ) : PrimitiveCell := (c.1.text, c.2.1, c.2.2)

theorem primitiveLabel_injective : Function.Injective primitiveLabel := by
  rintro ⟨m, a, i⟩ ⟨n, b, j⟩ h
  obtain ⟨hm, rfl, rfl⟩ : m.text = n.text ∧ a = b ∧ i = j := by simpa [primitiveLabel] using h
  rw [Mode.text_injective hm]

def SpeedLine.op (l : SpeedLine) : ℕ → Option Numeral
  | 1 => some l.op1
  | 2 => some l.op2
  | 3 => some l.op3
  | _ => none

def SpeedLine.ops (l : SpeedLine) : List (ℕ × Numeral) := [(1, l.op1), (2, l.op2), (3, l.op3)]

theorem SpeedLine.mem_ops_iff (l : SpeedLine) (i : ℕ) (n : Numeral) :
    (i, n) ∈ l.ops ↔ l.op i = some n := by
  unfold SpeedLine.op
  split <;> simp_all [ops, eq_comm]

theorem SpeedLine.op_eq_some {l : SpeedLine} {i : ℕ} {n : Numeral} (h : l.op i = some n) :
    i ∈ [1, 2, 3] :=
  List.mem_map_of_mem (f := Prod.fst) ((l.mem_ops_iff i n).mpr h)

/-- The FIPS mode is measured for the trees that have the configuration. -/
def Speeds (o : Outcomes) (mode : Mode) (alg : Text) (t : Which) (rep : ℕ) : Prop :=
  rep ∈ repetitions o.reps ∧ (mode = .fips → o.fipsConf t = true) ∧ alg ∈ kems ++ sigs

instance (o : Outcomes) (mode : Mode) (alg : Text) (t : Which) (rep : ℕ) :
    Decidable (Speeds o mode alg t rep) :=
  inferInstanceAs (Decidable (_ ∧ _))

def speedRate (o : Outcomes) (c : Mode × Text × ℕ) (t : Which) (rep : ℕ) : Option ℚ :=
  if Speeds o c.1 c.2.1 t rep then
    (o.speed rep c.1 t c.2.1).bind fun l => (l.op c.2.2).map Numeral.value
  else none

theorem speedRate_eq_some_iff {o : Outcomes} {c : Mode × Text × ℕ} {t : Which} {rep : ℕ} {v : ℚ} :
    speedRate o c t rep = some v ↔ Speeds o c.1 c.2.1 t rep ∧
      ∃ l n, o.speed rep c.1 t c.2.1 = some l ∧ l.op c.2.2 = some n ∧ n.value = v := by
  simp only [speedRate, Option.ite_none_right_eq_some, Option.bind_eq_some_iff,
    Option.map_eq_some_iff]
  refine and_congr_right fun _ => exists_congr fun l => ?_
  exact ⟨fun ⟨hl, n, hn, hv⟩ => ⟨n, hl, hn, hv⟩, fun ⟨n, hl, hn, hv⟩ => ⟨hl, n, hn, hv⟩⟩

theorem mem_primitiveRuns (o : Outcomes) (r : PrimitiveRun) :
    r ∈ primitiveRuns o ↔ r.rep ∈ repetitions o.reps ∧
      (r.mode = .fips → o.fipsConf r.tree = true) ∧
        ((r.family = txt "KEM" ∧ r.alg ∈ kems) ∨ (r.family = txt "SIG" ∧ r.alg ∈ sigs)) := by
  obtain ⟨rep, mode, tree, family, alg⟩ := r
  simp only [primitiveRuns, List.mem_flatMap]
  constructor
  · rintro ⟨k, hk, m, -, t, -, hmem⟩
    split at hmem
    case isTrue => exact absurd hmem List.not_mem_nil
    case isFalse hconf =>
      rw [List.mem_append, List.mem_map, List.mem_map] at hmem
      obtain ⟨a, ha, heq⟩ | ⟨a, ha, heq⟩ := hmem
      all_goals
        obtain ⟨rfl, rfl, rfl, rfl, rfl⟩ := by simpa only [PrimitiveRun.mk.injEq] using heq
        refine ⟨hk, fun hm => ?_, ?_⟩
        · simpa [hm] using hconf
        · simp [ha]
  · rintro ⟨hk, hconf, halg⟩
    refine ⟨rep, hk, mode, by cases mode <;> decide, tree, mem_order rep tree, ?_⟩
    rw [if_neg (by rintro ⟨hm, hf⟩; simp [hconf hm] at hf), List.mem_append, List.mem_map,
      List.mem_map]
    obtain ⟨rfl, ha⟩ | ⟨rfl, ha⟩ := halg
    · exact .inl ⟨alg, ha, rfl⟩
    · exact .inr ⟨alg, ha, rfl⟩

def primitiveHeader : List Text :=
  [txt "rep", txt "build", txt "mode", txt "family", txt "alg", txt "op1", txt "op2", txt "op3"]

-- The three rates are one value for the shell and three fields for the analysis.
theorem csvFields_primitiveLine {o : Outcomes} {r : PrimitiveRun} (hr : r ∈ primitiveRuns o) :
    csvFields (primitiveLine o r) =
      [decimal r.rep, bname r.tree, r.mode.text, r.family, r.alg] ++
        (o.speed r.rep r.mode r.tree r.alg).elim [[]]
          fun l => [l.op1.text, l.op2.text, l.op3.text] := by
  have hmode : ',' ∉ r.mode.text := by cases r.mode <;> decide
  have hfamily : ',' ∉ r.family ∧ ',' ∉ r.alg := by
    have hnames : ∀ a ∈ kems ++ sigs, ',' ∉ a := by decide
    obtain ⟨-, -, ⟨hf, ha⟩ | ⟨hf, ha⟩⟩ := (mem_primitiveRuns o r).mp hr
    · exact ⟨hf ▸ by decide, hnames _ (List.mem_append_left _ ha)⟩
    · exact ⟨hf ▸ by decide, hnames _ (List.mem_append_right _ ha)⟩
  unfold primitiveLine
  rw [speedValue_out]
  cases o.speed r.rep r.mode r.tree r.alg with
  | none =>
      apply csvFields_csvLine (by simp)
      simp [comma_notMem_decimal, comma_notMem_bname, hmode, hfamily]
  | some l =>
      have hjoin : csvLine [decimal r.rep, bname r.tree, r.mode.text, r.family, r.alg,
          csvLine [l.op1.text, l.op2.text, l.op3.text]] =
        csvLine [decimal r.rep, bname r.tree, r.mode.text, r.family, r.alg,
          l.op1.text, l.op2.text, l.op3.text] := by
        simp [csvLine, List.intercalate_cons_cons]
      change csvFields (csvLine [_, _, _, _, _, csvLine _]) = _
      rw [hjoin]
      apply csvFields_csvLine (by simp)
      simp [comma_notMem_decimal, comma_notMem_bname, hmode, hfamily, Numeral.comma_notMem]

def primitiveEntries (o : Outcomes) (r : PrimitiveRun) :
    List ((PrimitiveCell × Text) × ℕ × ℚ) :=
  (o.speed r.rep r.mode r.tree r.alg).elim [] fun l =>
    l.ops.map fun (i, n) =>
      ((primitiveLabel (r.mode, r.alg, i), bname r.tree), r.rep, n.value)

theorem primitiveEntry_line {o : Outcomes} {r : PrimitiveRun} (hr : r ∈ primitiveRuns o) :
    primitiveEntry (dictRow primitiveHeader (csvFields (primitiveLine o r))) =
      .ok (primitiveEntries o r) := by
  rw [csvFields_primitiveLine hr, primitiveEntries]
  cases o.speed r.rep r.mode r.tree r.alg with
  | none => rfl
  | some l =>
      -- all three rates are read when the first of them is there
      generalize hrow : dictRow primitiveHeader ([decimal r.rep, bname r.tree, r.mode.text,
        r.family, r.alg] ++ [l.op1.text, l.op2.text, l.op3.text]) = row
      have hrep : row (txt "rep") = some (decimal r.rep) := hrow ▸ rfl
      have hbuild : field row (txt "build") = bname r.tree := hrow ▸ rfl
      have hcell : (field row (txt "mode"), field row (txt "alg")) = (r.mode.text, r.alg) :=
        hrow ▸ rfl
      have hop : row (txt "op1") = some l.op1.text := hrow ▸ rfl
      have hop1 : row (opColumn 1) = some l.op1.text := hrow ▸ rfl
      have hop2 : row (opColumn 2) = some l.op2.text := hrow ▸ rfl
      have hop3 : row (opColumn 3) = some l.op3.text := hrow ▸ rfl
      obtain ⟨hmode, halg⟩ := Prod.mk.inj hcell
      change primitiveEntry (dictRow primitiveHeader ([decimal r.rep, bname r.tree, r.mode.text,
        r.family, r.alg] ++ [l.op1.text, l.op2.text, l.op3.text])) = _
      rw [hrow]
      simp only [primitiveEntry, hop, Numeral.truthy_text, if_true, List.mapM_cons, List.mapM_nil,
        hop1, hop2, hop3, Numeral.float_text, hrep, int_decimal, hmode, halg, hbuild]
      rfl

theorem records_primitiveEntries (o : Outcomes) :
    Records primitiveLabel (speedRate o)
      ((primitiveRuns o).map (primitiveEntries o)).flatten := by
  apply records_of_calls
  · intro r hr e he
    obtain ⟨hrep, hconf, halg⟩ := (mem_primitiveRuns o r).mp hr
    have hspeeds : Speeds o r.mode r.alg r.tree r.rep := by
      refine ⟨hrep, hconf, List.mem_append.mpr ?_⟩
      exact halg.imp And.right And.right
    unfold primitiveEntries at he
    cases hline : o.speed r.rep r.mode r.tree r.alg with
    | none =>
        rw [hline] at he
        exact absurd he List.not_mem_nil
    | some l =>
        rw [hline] at he
        obtain ⟨⟨i, n⟩, hi, rfl⟩ := List.mem_map.mp he
        refine ⟨(r.mode, r.alg, i), r.tree, r.rep, n.value, rfl, ?_⟩
        exact speedRate_eq_some_iff.mpr ⟨hspeeds, l, n, hline, (l.mem_ops_iff i n).mp hi, rfl⟩
  · rintro ⟨mode, alg, i⟩ t k v hv
    obtain ⟨⟨hrep, hconf, halg⟩, l, n, hline, hn, rfl⟩ := speedRate_eq_some_iff.mp hv
    have hentry : ∀ family, ((primitiveLabel (mode, alg, i), bname t), k, n.value) ∈
        primitiveEntries o ⟨k, mode, t, family, alg⟩ := by
      intro family
      rw [primitiveEntries, hline]
      exact List.mem_map.mpr ⟨(i, n), (l.mem_ops_iff i n).mpr hn, rfl⟩
    -- which of the two loops made the call decides its family
    obtain ha | ha := List.mem_append.mp halg
    · exact ⟨⟨k, mode, t, txt "KEM", alg⟩,
        (mem_primitiveRuns o _).mpr ⟨hrep, hconf, .inl ⟨rfl, ha⟩⟩, hentry _⟩
    · exact ⟨⟨k, mode, t, txt "SIG", alg⟩,
        (mem_primitiveRuns o _).mpr ⟨hrep, hconf, .inr ⟨rfl, ha⟩⟩, hentry _⟩

theorem exists_secPrimitives_iff (o : Outcomes) :
    (∃ out, secPrimitives (some (primitivesCsv o)) = .ok out ∧
        ShowsPairs primitiveLabel (speedRate o) ((out.getD []).map fun r => r.1.cell)) ↔
      ∀ c, NonzeroDivisors (fun _ w => w) (speedRate o c) := by
  have hheader : csvFields (txt "rep,build,mode,family,alg,op1,op2,op3") = primitiveHeader := by
    decide
  have hcols : ∀ c ∈ primitiveColumns,
      c ∈ csvFields (txt "rep,build,mode,family,alg,op1,op2,op3") := by
    rw [hheader]
    decide
  have hreads : ∀ r ∈ primitiveRuns o, primitiveEntry (dictRow
      (csvFields (txt "rep,build,mode,family,alg,op1,op2,op3"))
      (csvFields (primitiveLine o r))) = .ok (primitiveEntries o r) := by
    intro r hr
    rw [hheader, primitiveEntry_line hr]
  have hinj := primitiveLabel_injective
  have hrecords := records_primitiveEntries o
  have hops : ∀ c b k v, ((c, b), k, v) ∈
      ((primitiveRuns o).map (primitiveEntries o)).flatten → c.2.2 ∈ [1, 2, 3] := by
    intro c b k v hmem
    obtain ⟨x, t, rfl, -, hv⟩ := (hrecords c b k v).mp hmem
    obtain ⟨-, l, n, -, hn, -⟩ := speedRate_eq_some_iff.mp hv
    exact SpeedLine.op_eq_some hn
  unfold secPrimitives primitivesCsv
  simp only [← shows_iff hinj hrecords]
  rw [exists_primitiveSection_iff hcols hreads (functional_entries hinj hrecords) hops,
    forall_divides_iff hinj hrecords]

/-! ## The whole analysis -/

structure ShowsAll (o : Outcomes) (out : Tables) : Prop where
  primitives : ShowsPairs primitiveLabel (speedRate o) (out.primitives.map fun r => r.1.cell)
  handshake : ShowsPairs handshakeLabel (handshakeTime o) (out.handshake.map TableRow.cell)
  resumption : ShowsPairs benchLabel (benchRate o) (out.resumption.map TableRow.cell)

/-- What the tools have to do for the analysis to complete.  Only the primitives may be measured in
repetitions that the two builds do not share. -/
structure Usable (o : Outcomes) : Prop where
  quiet : Quiet o
  handshake_overlapping : ∀ c, Overlapping (handshakeTime o c)
  resumption_overlapping : ∀ c, Overlapping (benchRate o c)
  handshake_nonzero : ∀ c, NonzeroDivisors (fun v _ => v) (handshakeTime o c)
  resumption_nonzero : ∀ c, NonzeroDivisors (fun _ w => w) (benchRate o c)
  primitives_nonzero : ∀ c, NonzeroDivisors (fun _ w => w) (speedRate o c)

/-- Whatever the tools come to, the analysis of what `run.sh` has written completes, with tables
that show exactly the cells with a pair, if and only if no call of `handshake` prints a diagnostic,
the cells of handshakes and resumptions that both builds have values for have a pair, and no divisor
is zero. -/
theorem analyze_completes_iff (o : Outcomes) :
    (∃ out, analyze (some (primitivesCsv o)) (some (handshakeCsv o)) (resumptionCsv o) = .ok out ∧
        ShowsAll o out) ↔ Usable o := by
  constructor
  · rintro ⟨out, hout, hshows⟩
    obtain ⟨p, h, r, hp, hh, hr, rfl⟩ := analyze_ok_iff.mp hout
    have hprimitives := (exists_secPrimitives_iff o).mp ⟨p, hp, hshows.primitives⟩
    have hhandshake := (exists_secHandshake_iff o).mp ⟨h, hh, hshows.handshake⟩
    have hresumption := (exists_secResumption_iff o).mp ⟨r, hr, hshows.resumption⟩
    exact ⟨hhandshake.1, hhandshake.2.1, hresumption.1, hhandshake.2.2, hresumption.2,
      hprimitives⟩
  · intro h
    obtain ⟨p, hp, hshowsP⟩ := (exists_secPrimitives_iff o).mpr h.primitives_nonzero
    obtain ⟨t, ht, hshowsT⟩ := (exists_secHandshake_iff o).mpr
      ⟨h.quiet, h.handshake_overlapping, h.handshake_nonzero⟩
    obtain ⟨r, hr, hshowsR⟩ := (exists_secResumption_iff o).mpr
      ⟨h.resumption_overlapping, h.resumption_nonzero⟩
    exact ⟨_, analyze_ok_iff.mpr ⟨p, t, r, hp, ht, hr, rfl⟩, hshowsP, hshowsT, hshowsR⟩

/-- Two repetitions in which only the hybrid handshake is set up.  Every tool is silent, but for
`handshake` with the one build in the first repetition and with the other in the second. -/
def disturbed (first second : HandshakeRun) : Outcomes where
  reps := 2
  fipsConf := fun _ => false
  groupConf := fun c => c = .hybrid
  certsEc := false
  benchBuilt := false
  speed := fun _ _ _ _ => none
  handshake := fun rep t _ =>
    if rep = 1 ∧ t = .qudo then first else if rep = 2 ∧ t = .stock then second else .silent
  bench := fun _ _ _ => ⟨[], [], [], none, none, by simp⟩

def hundred : Numeral :=
  ⟨txt "100.000000", 100, by decide +kernel, by simp [txt]⟩

def failedToRun : Diagnostic :=
  ⟨txt "Failed to run the test", ['\n'], by simp [txt], by decide, by decide +kernel, by decide⟩

/-- A time for each build, but in different repetitions; and a diagnostic in place of a time. -/
theorem analyze_raises :
    analyze (some (primitivesCsv (disturbed (.time hundred) (.time hundred))))
        (some (handshakeCsv (disturbed (.time hundred) (.time hundred))))
        (resumptionCsv (disturbed (.time hundred) (.time hundred))) =
          .error .statisticsError ∧
      analyze (some (primitivesCsv (disturbed (.time hundred) (.diagnostic failedToRun))))
        (some (handshakeCsv (disturbed (.time hundred) (.diagnostic failedToRun))))
        (resumptionCsv (disturbed (.time hundred) (.diagnostic failedToRun))) =
          .error .valueError := by
  decide +kernel

end QudoSSL
