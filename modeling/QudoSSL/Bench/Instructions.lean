import QudoSSL.Bench.Robust
import QudoSSL.Bench.Tables
import QudoSSL.Perf.Handshake
import Mathlib.Tactic.Ring

/-!
# `benchmark/scripts/run-instr.sh` and `sec_instructions`

Instruction counts, from the logs of callgrind and of the measured tools to the rows of the table.
Both tools run for a fixed time, so the script recovers from what they print how many operations
they have completed, and divides by that.
-/

namespace QudoSSL

open Posix Python

/-! ## Callgrind's log -/

/-- `sed -n 's/.*I *refs: *\([0-9,]*\).*/\1/p'`, if what follows the first `.*` starts here. -/
def refsAt : Text → Option Text
  | [] => none
  | c :: rest =>
      let rest := rest.dropWhile (· = ' ')
      if c = 'I' ∧ txt "refs:" <+: rest then
        some (((rest.drop 5).dropWhile (· = ' ')).takeWhile fun c => c.isDigit || c = ',')
      else none

def refsLine (l : Text) : Option Text :=
  -- the first .* is greedy, so the last occurrence counts
  (l.tails.filterMap refsAt).getLast?

def irefs (log : List Text) : Text :=
  -- | tail -1 | tr -d ','
  (((log.filterMap refsLine).getLast?).getD []).filter (· ≠ ',')

/-- A comma after every three digits; on the digits in reverse. -/
def groups : Text → Text
  | a :: b :: c :: d :: ds => a :: b :: c :: ',' :: groups (d :: ds)
  | ds => ds

/-- A number as valgrind prints it. -/
def grouped (n : ℕ) : Text := (groups (decimal n).reverse).reverse

example : grouped 2216255085 = txt "2,216,255,085" := by decide +kernel

/-- What callgrind writes to standard error; there is no total if the run was cut short. -/
structure CallgrindLog where
  before : List Text
  mark : Text
  refs : Option ℕ
  after : List Text
  quiet : ∀ l ∈ before ++ after, refsLine l = none

def CallgrindLog.text (log : CallgrindLog) : List Text :=
  log.before ++ (log.refs.map fun n => log.mark ++ (txt "I   refs:      " ++ grouped n)).toList ++
    log.after

theorem filter_groups (ds : Text) : (groups ds).filter (· ≠ ',') = ds.filter (· ≠ ',') := by
  fun_induction groups ds with
  | case1 a b c d ds ih => simp only [List.filter_cons, ih]; simp
  | case2 ds => rfl

theorem filter_grouped (n : ℕ) : (grouped n).filter (· ≠ ',') = decimal n := by
  have hself : (decimal n).filter (· ≠ ',') = decimal n := by
    rw [List.filter_eq_self]
    intro c hc
    simpa using fun h : c = ',' => notMem_decimal (by decide) n (h ▸ hc)
  rw [grouped, List.filter_reverse, filter_groups, List.filter_reverse, hself,
    List.reverse_reverse]

theorem mem_groups {c : Char} {ds : Text} (h : c ∈ groups ds) : c ∈ ds ∨ c = ',' := by
  fun_induction groups ds with
  | case1 a b d e ds ih =>
      simp only [List.mem_cons] at h ih ⊢
      rcases h with h | h | h | h | h
      · exact .inl (.inl h)
      · exact .inl (.inr (.inl h))
      · exact .inl (.inr (.inr (.inl h)))
      · exact .inr h
      · rcases ih h with h | h
        · exact .inl (.inr (.inr (.inr h)))
        · exact .inr h
  | case2 ds => exact .inl h

theorem mem_grouped {c : Char} {n : ℕ} (h : c ∈ grouped n) : c.isDigit = true ∨ c = ',' := by
  rw [grouped, List.mem_reverse] at h
  rcases mem_groups h with h | h
  · exact .inl (isDigit_of_mem_decimal (List.mem_reverse.mp h))
  · exact .inr h

theorem refsLine_cons (c : Char) (l : Text) :
    refsLine (c :: l) = (refsLine l).or (refsAt (c :: l)) := by
  unfold refsLine
  rw [List.tails_cons, List.filterMap_cons]
  cases refsAt (c :: l) with
  | none => simp
  | some v => cases h : (l.tails.filterMap refsAt).getLast? <;> simp [List.getLast?_cons, h]

theorem refsLine_append {l v : Text} (h : refsLine l = some v) (mark : Text) :
    refsLine (mark ++ l) = some v := by
  induction mark with
  | nil => exact h
  | cons c mark ih => rw [List.cons_append, refsLine_cons, ih, Option.some_or]

theorem refsLine_eq_none {l : Text} (h : 'I' ∉ l) : refsLine l = none := by
  induction l with
  | nil => rfl
  | cons c l ih =>
      rw [List.mem_cons, not_or] at h
      rw [refsLine_cons, ih h.2, Option.none_or, refsAt, if_neg fun hc => h.1 hc.1.symm]

-- The total is the last match in its line, whatever valgrind puts before it.
theorem refsLine_total (mark : Text) (n : ℕ) :
    refsLine (mark ++ (txt "I   refs:      " ++ grouped n)) = some (grouped n) := by
  apply refsLine_append
  have hgrouped : ∀ c ∈ grouped n, (c.isDigit || c = ',') = true := by
    intro c hc
    simpa using mem_grouped hc
  have hspace : (grouped n).dropWhile (· = ' ') = grouped n := by
    cases hg : grouped n with
    | nil => rfl
    | cons c ds =>
        have hc := mem_grouped (c := c) (n := n) (by rw [hg]; exact List.mem_cons_self)
        have hne : c ≠ ' ' := by
          rintro rfl
          revert hc
          decide
        simp [hne]
  have hat : refsAt (txt "I   refs:      " ++ grouped n) = some (grouped n) := by
    show refsAt ('I' :: (txt "   refs:      " ++ grouped n)) = _
    have hrest : (txt "   refs:      " ++ grouped n).dropWhile (· = ' ') =
        txt "refs:" ++ (txt "      " ++ grouped n) := rfl
    rw [refsAt, hrest, if_pos ⟨rfl, List.prefix_append _ _⟩]
    show some ((((txt "      " ++ grouped n).dropWhile (· = ' ')).takeWhile _)) = _
    rw [show (txt "      " ++ grouped n).dropWhile (· = ' ') =
      (grouped n).dropWhile (· = ' ') from rfl, hspace, List.takeWhile_eq_self_iff.mpr hgrouped]
  have htail : 'I' ∉ txt "   refs:      " ++ grouped n := by
    rw [List.mem_append, not_or]
    refine ⟨by decide, fun hc => ?_⟩
    have hI := mem_grouped hc
    revert hI
    decide
  show refsLine ('I' :: (txt "   refs:      " ++ grouped n)) = _
  rw [refsLine_cons, refsLine_eq_none htail, Option.none_or]
  exact hat

theorem irefs_text (log : CallgrindLog) : irefs log.text = log.refs.elim [] decimal := by
  have hbefore : log.before.filterMap refsLine = [] := by
    rw [List.filterMap_eq_nil_iff]
    exact fun l hl => log.quiet l (List.mem_append_left _ hl)
  have hafter : log.after.filterMap refsLine = [] := by
    rw [List.filterMap_eq_nil_iff]
    exact fun l hl => log.quiet l (List.mem_append_right _ hl)
  unfold irefs CallgrindLog.text
  rw [List.filterMap_append, List.filterMap_append, hbefore, hafter]
  cases log.refs with
  | none => rfl
  | some n => simpa [refsLine_total] using filter_grouped n

/-! ## Operations -/

/-- `printf "%.0f"` of a number that is not negative. -/
def nearestQ (q : ℚ) : ℕ := nearest q.num.toNat q.den

/-- `awk '/Handshakes per second/{print $NF}'`. -/
def handshakesPerSecond (log : List Text) : Text :=
  substitute ((log.filter (txt "Handshakes per second" <:+: ·)).map fun l =>
    terminate ((fields l).getLastD [])).flatten

def handshakeOps (hps : Text) : Text :=
  -- ops=$(awk "BEGIN{printf \"%.0f\", ${hps:-0}*5}")
  decimal (nearestQ ((numeral hps).getD 0 * 5))

/-- `grep "^ *$a " | awk '{printf "%.0f", $(NF-2)+$(NF-1)+$NF}'`, on lines split into fields. -/
def speedOps (alg : Text) (out : List (List Text)) : Text :=
  ((out.filter fun l => l.head? = some alg ∧ 1 < l.length).map fun l =>
    decimal (nearestQ ((l.drop (l.length - 3)).map fun f => (numeral f).getD 0).sum)).flatten

theorem nearestQ_natCast (n : ℕ) : nearestQ (n : ℚ) = n := by
  unfold nearestQ
  rw [Rat.num_natCast, Rat.den_natCast, Int.toNat_natCast, nearest_one]

theorem speedOps_out (alg : Text) (l : Option SpeedLine) :
    speedOps alg (speedOut alg l) =
      l.elim [] fun l => decimal (nearestQ (l.op1.value + (l.op2.value + l.op3.value))) := by
  cases l with
  | none => rfl
  | some l =>
      simp [speedOps, speedOut, l.op1.reads, l.op2.reads, l.op3.reads]

/-- The rate printed for `total` handshakes in five seconds gives back their number. -/
theorem handshakeOps_printRatio (total : ℕ) :
    handshakeOps (printRatio 6 total Perf.runTime) = decimal total := by
  have hnearest : nearest (total * 10 ^ 6) Perf.runTime = total * 200000 := by
    rw [show total * 10 ^ 6 = total * 200000 * Perf.runTime by rw [Perf.runTime]; omega]
    exact nearest_mul_self _ (by decide)
  have hvalue : ((total * 200000 : ℕ) : ℚ) / 10 ^ 6 * 5 = (total : ℚ) := by
    push_cast
    ring
  rw [handshakeOps, numeral_printRatio, hnearest, Option.getD_some, hvalue, nearestQ_natCast]

/-- What the measured `handshake` prints: the rate last, unless it fails. -/
structure HandshakeLog where
  other : List Text
  total : Option ℕ
  quiet : ∀ l ∈ other, ¬ txt "Handshakes per second" <:+: l

def HandshakeLog.text (log : HandshakeLog) : List Text :=
  log.other ++ (log.total.map fun n =>
    txt "Handshakes per second: " ++ printRatio 6 n Perf.runTime).toList

-- The fields of the line are cut at blanks, and the command substitution at newlines.
theorem notMem_rate {c : Char} (hc : c ∈ [' ', '\t', '\n']) (total : ℕ) :
    c ∉ printRatio 6 total Perf.runTime := by
  simp only [List.mem_cons, List.not_mem_nil, or_false] at hc
  rcases hc with rfl | rfl | rfl <;> exact notMem_printRatio (by decide) (by decide) _ _ _

theorem handshakesPerSecond_append {log : List Text}
    (hlog : ∀ l ∈ log, ¬ txt "Handshakes per second" <:+: l) {w : Text} (hne : w ≠ [])
    (hw : ∀ c ∈ [' ', '\t', '\n'], c ∉ w) :
    handshakesPerSecond (log ++ [txt "Handshakes per second: " ++ w]) = w := by
  have hquiet : log.filter (txt "Handshakes per second" <:+: ·) = [] := by
    rw [List.filter_eq_nil_iff]
    intro l hl
    simpa using hlog l hl
  have hmatch : txt "Handshakes per second" <:+: txt "Handshakes per second: " ++ w := by
    have hwords : txt "Handshakes per second" <+: txt "Handshakes per second: " := by decide
    exact (hwords.trans (List.prefix_append _ w)).isInfix
  have hblank : txt "Handshakes per second: " = txt "Handshakes per second:" ++ [' '] := by decide
  have hlast : (fields (txt "Handshakes per second: " ++ w)).getLastD [] = w := by
    rw [hblank, List.append_assoc]
    exact getLastD_fields hne (hw ' ' (by decide)) (hw '\t' (by decide)) _
  have hfilter : [txt "Handshakes per second: " ++ w].filter (txt "Handshakes per second" <:+: ·) =
      [txt "Handshakes per second: " ++ w] := by
    rw [List.filter_eq_self]
    intro l hl
    rw [List.mem_singleton.mp hl]
    exact decide_eq_true hmatch
  unfold handshakesPerSecond
  rw [List.filter_append, hquiet, hfilter, List.nil_append, List.map_singleton, hlast,
    List.flatten_singleton, substitute_terminate (hw '\n' (by decide))]

theorem handshakesPerSecond_text (log : HandshakeLog) :
    handshakesPerSecond log.text =
      log.total.elim [] fun n => printRatio 6 n Perf.runTime := by
  unfold HandshakeLog.text
  cases log.total with
  | none =>
      have hquiet : log.other.filter (txt "Handshakes per second" <:+: ·) = [] := by
        rw [List.filter_eq_nil_iff]
        intro l hl
        simpa using log.quiet l hl
      rw [Option.map_none, Option.toList_none, List.append_nil, handshakesPerSecond, hquiet]
      rfl
  | some n =>
      rw [Option.map_some, Option.toList_some, Option.elim_some]
      exact handshakesPerSecond_append log.quiet (printed 6 n Perf.runTime).text_ne_nil
        fun c hc => notMem_rate hc n

theorem handshakeOps_text (log : HandshakeLog) :
    handshakeOps (handshakesPerSecond log.text) = decimal (log.total.getD 0) := by
  rw [handshakesPerSecond_text]
  cases log.total with
  | none =>
      rw [Option.elim_none, Option.getD_none, handshakeOps, show numeral [] = none from rfl,
        Option.getD_none, zero_mul, ← Nat.cast_zero, nearestQ_natCast]
  | some n => rw [Option.elim_some, Option.getD_some, handshakeOps_printRatio]

section Main

open Perf

def averageLine (n total : ℕ) : Text :=
  txt "Average time per handshake: " ++
    (if total = 0 then txt "inf" else printRatio 6 (runTime * 10 ^ 6 * n) total) ++ txt "us"

-- The first of the two lines that are printed has nothing of the second.
theorem notMem_averageLine {c : Char} (hc : c ∈ ['H', '\n']) (n total : ℕ) :
    c ∉ averageLine n total := by
  have hdigit : c.isDigit = false ∧ c ≠ '.' := by
    simp only [List.mem_cons, List.not_mem_nil, or_false] at hc
    rcases hc with rfl | rfl <;> decide
  have hwords : c ∉ txt "Average time per handshake: " ∧ c ∉ txt "inf" ∧ c ∉ txt "us" := by
    simp only [List.mem_cons, List.not_mem_nil, or_false] at hc
    rcases hc with rfl | rfl <;> decide
  simp only [averageLine, List.mem_append, not_or]
  refine ⟨⟨hwords.1, ?_⟩, hwords.2.2⟩
  split
  · exact hwords.2.1
  · exact notMem_printRatio hdigit.1 hdigit.2 _ _ _

/-- The log of a run that has counted `total` handshakes on `n` threads.  What the threads have
printed `before` need not end its last line. -/
def mainLog (before : Text) (n total : ℕ) (h : ¬ txt "Handshakes per second" <:+: before) :
    HandshakeLog where
  other := lines (terminate (before ++ averageLine n total))
  total := some total
  quiet := by
    intro l hl hin
    have hall := hin.trans (infix_of_mem_lines hl)
    rw [terminate, List.append_assoc, ← terminate] at hall
    apply h
    refine infix_of_infix_append hall (fun c hc => ?_) fun c hc => ?_
    · obtain rfl : 'H' = c := Option.some.inj hc
      rw [terminate, List.mem_append, not_or]
      exact ⟨notMem_averageLine (by decide) n total, by decide⟩
    · obtain rfl : 'A' = c := Option.some.inj hc
      decide

theorem lines_mainOut {n : ℕ} {g : Conc.Memory (Fin n) Thread} (h : g.flag = false) {before : Text}
    (hbefore : ¬ txt "Handshakes per second" <:+: before) :
    lines (before ++ mainOut false g) = (mainLog before n (totalCount g) hbefore).text := by
  have hrate : '\n' ∉ txt "Handshakes per second: " ++ printRatio 6 (totalCount g) runTime := by
    rw [List.mem_append, not_or]
    exact ⟨by decide, notMem_rate (by decide) _⟩
  have hlast : before ++ mainOut false g = terminate (before ++ averageLine n (totalCount g)) ++
      terminate (txt "Handshakes per second: " ++ printRatio 6 (totalCount g) runTime) := by
    rw [mainOut, h]
    simp only [Bool.false_eq_true, if_false, terminate, averageLine, List.append_assoc]
  rw [hlast, lines_append_newline, lines_terminate hrate]
  rfl

theorem handshakeOps_mainOut {n : ℕ} {g : Conc.Memory (Fin n) Thread} (h : g.flag = false)
    {before : Text} (hbefore : ¬ txt "Handshakes per second" <:+: before) :
    handshakeOps (handshakesPerSecond (lines (before ++ mainOut false g))) =
      decimal (totalCount g) := by
  rw [lines_mainOut h hbefore, handshakeOps_text]
  rfl

/-- The operations of a handshake cell: the script recovers, from the rate that is printed with six
places, exactly how many handshakes the threads have made, however they were scheduled and whatever
they have printed before the rate, unless it looks like one. -/
theorem handshakeOps_joined {shareCtx : Bool} {maxTime n : ℕ} {env : Fin n → Perf.Env}
    {σ : List (Fin n)} {before : Text}
    (h : Perf.Joined ((threads (doHandshake shareCtx) maxTime env).run (created n) σ))
    (hflag : ((threads (doHandshake shareCtx) maxTime env).run (created n) σ).flag = false)
    (hbefore : ¬ txt "Handshakes per second" <:+: before) :
    ∃ count : Fin n → ℕ, (∀ i, Perf.Stops (doHandshake shareCtx) maxTime (env i) (count i)) ∧
      handshakeOps (handshakesPerSecond (lines (before ++ mainOut false
        ((threads (doHandshake shareCtx) maxTime env).run (created n) σ)))) =
          decimal (∑ i, count i) := by
  choose count hstops hown using doHandshake_own h
  refine ⟨count, hstops, ?_⟩
  rw [handshakeOps_mainOut hflag hbefore, totalCount]
  simp only [hown, Option.getD_some]

/-- Two threads, `i` before `j`, each of whose first handshake fails. -/
def recoveringRun (i j : Fin 2) : Conc.Memory (Fin 2) Thread :=
  (threads (doHandshake true) 1 fun _ => recovering).run (created 2) [i, j, i, j, j, i, j, i, j, i]

theorem handshakeOps_joined_two :
    ∃ count : Fin 2 → ℕ, (∀ i, Perf.Stops (doHandshake true) 1 recovering (count i)) ∧
      handshakeOps (handshakesPerSecond (lines ((((recoveringRun 1 0).own 1).out ++
        ((recoveringRun 1 0).own 0).out) ++ mainOut false (recoveringRun 1 0)))) =
          decimal (∑ i, count i) := by
  refine handshakeOps_joined ?_ (by decide) (by decide +kernel)
  unfold Perf.Joined
  decide

end Main

/-! ## The script -/

inductive InstrCell where
  | handshake (c : HandshakeCell)
  | primitive (alg : Text)
  deriving DecidableEq

/-- The columns `target` and `detail`. -/
def InstrCell.label : InstrCell → Text × Text
  | .handshake c => (txt "handshake", c.group)
  | .primitive alg => (txt "primitive", alg)

/-- `KEX`, where it is not set by the caller. -/
def kex : List HandshakeCell := [.control, .classical, .hybrid, .hybridP256]

/-- `ALGS`, where it is not set by the caller. -/
def instrAlgs : List Text :=
  [txt "ML-KEM-512", txt "ML-KEM-768", txt "ML-KEM-1024", txt "ML-DSA-44", txt "ML-DSA-65",
    txt "ML-DSA-87"]

/-- The setting of a run of the script, and what every call of a tool under callgrind leaves. -/
structure InstrOutcomes where
  conf : HandshakeCell → Bool
  certs : Bool
  certsEc : Bool
  handshake : Which → HandshakeCell → CallgrindLog × HandshakeLog
  speed : Which → Text → CallgrindLog × Option SpeedLine

def hasCert (o : InstrOutcomes) : HandshakeCell → Bool
  | .control => o.certsEc
  | _ => o.certs

structure InstrCall where
  tree : Which
  cell : InstrCell
  deriving DecidableEq

def kexCells (o : InstrOutcomes) : List HandshakeCell := kex.filter fun c => o.conf c && hasCert o c

def instrCalls (o : InstrOutcomes) : List InstrCall :=
  ([Which.qudo, .stock].flatMap fun t => (kexCells o).map fun c => ⟨t, .handshake c⟩) ++
    [Which.qudo, .stock].flatMap fun t => instrAlgs.map fun alg => ⟨t, .primitive alg⟩

def instructions (o : InstrOutcomes) (r : InstrCall) : Text :=
  match r.cell with
  | .handshake c => irefs (o.handshake r.tree c).1.text
  | .primitive alg => irefs (o.speed r.tree alg).1.text

def operations (o : InstrOutcomes) (r : InstrCall) : Text :=
  match r.cell with
  | .handshake c => handshakeOps (handshakesPerSecond (o.handshake r.tree c).2.text)
  | .primitive alg => speedOps alg (speedOut alg (o.speed r.tree alg).2)

def emit (build target detail ins ops : Text) : Text :=
  -- per stays empty unless both counts are there and the second is not 0
  let per :=
    if ins ≠ [] ∧ ops ≠ [] ∧ ops ≠ txt "0" then
      decimal (nearest (digitsValue ins) (digitsValue ops))
    else []
  csvLine [build, target, detail, ins, ops, per]

def instrLine (o : InstrOutcomes) (r : InstrCall) : Text :=
  emit (bname r.tree) r.cell.label.1 r.cell.label.2 (instructions o r) (operations o r)

def instrHeader : Text := txt "build,target,detail,instructions,operations,instr_per_op"

def instructionsCsv (o : InstrOutcomes) : List Text :=
  instrHeader :: (instrCalls o).map (instrLine o)

/-! ## The section -/

structure InstrRow where
  cell : Text × Text
  qudossl : ℕ
  qudosslOps : Text
  openssl : ℕ
  opensslOps : Text
  ratio : ℚ
  deriving DecidableEq

def instrEntry (r : Row) : Py (List ((Text × Text) × Text × ℕ × Text)) :=
  if truthy (r (txt "instr_per_op")) then do
    let v ← int (r (txt "instr_per_op"))
    pure [((field r (txt "target"), field r (txt "detail")), field r (txt "build"), v,
      (r (txt "operations")).getD (txt "?"))]
  else pure []

def instrRow (k : Text × Text) (q s : ℕ × Text) : Option InstrRow :=
  -- if not q or not s: continue
  if q.1 = 0 ∨ s.1 = 0 then none else some ⟨k, q.1, q.2, s.1, s.2, (s.1 : ℚ) / q.1⟩

def instrColumns : List Text := [txt "build", txt "target", txt "detail", txt "instr_per_op"]

def secInstructions : Option (List Text) → Py (Option (List InstrRow)) :=
  -- `by` and `ops` in one: they are assigned together, under the same keys
  comparedSection pairLe instrColumns instrEntry instrRow

/-! ## What the section shows of a run -/

def instrRefs (o : InstrOutcomes) (r : InstrCall) : Option ℕ :=
  match r.cell with
  | .handshake c => (o.handshake r.tree c).1.refs
  | .primitive alg => (o.speed r.tree alg).1.refs

/-- The operations that the measured tool has completed. -/
def completed (o : InstrOutcomes) (r : InstrCall) : Option ℕ :=
  match r.cell with
  | .handshake c => some ((o.handshake r.tree c).2.total.getD 0)
  | .primitive alg =>
      (o.speed r.tree alg).2.map fun l => nearestQ (l.op1.value + (l.op2.value + l.op3.value))

/-- Instructions per operation, and the operations; for a call that has both numbers. -/
def perOp (i n : Option ℕ) : Option (ℕ × ℕ) := do
  let i ← i
  let n ← n
  if n = 0 then none else some (nearest i n, n)

theorem instructions_eq (o : InstrOutcomes) (r : InstrCall) :
    instructions o r = (instrRefs o r).elim [] decimal := by
  unfold instructions instrRefs
  cases r.cell with
  | handshake c => exact irefs_text _
  | primitive alg => exact irefs_text _

theorem operations_eq (o : InstrOutcomes) (r : InstrCall) :
    operations o r = (completed o r).elim [] decimal := by
  unfold operations completed
  cases r.cell with
  | handshake c => exact handshakeOps_text _
  | primitive alg =>
      dsimp only
      rw [speedOps_out]
      cases (o.speed r.tree alg).2 <;> rfl

theorem decimal_eq_zero_iff (n : ℕ) : decimal n = txt "0" ↔ n = 0 :=
  ⟨fun h => decimal_injective (h.trans (by decide : txt "0" = decimal 0)), by rintro rfl; decide⟩

theorem perOp_eq_some_iff {i n : Option ℕ} {p : ℕ × ℕ} :
    perOp i n = some p ↔ ∃ a, i = some a ∧ n = some p.2 ∧ p.2 ≠ 0 ∧ p.1 = nearest a p.2 := by
  obtain ⟨v, m⟩ := p
  cases i with
  | none => simp [perOp]
  | some i =>
      cases n with
      | none => simp [perOp]
      | some n =>
          by_cases hn : n = 0
          · simp only [perOp, Option.bind_eq_bind, Option.bind_some, hn, if_true]
            constructor
            · rintro ⟨⟩
            · rintro ⟨a, -, hm, hne, -⟩
              exact absurd (Option.some.inj hm).symm hne
          · simp only [perOp, Option.bind_eq_bind, Option.bind_some, hn, if_false,
              Option.some.injEq, Prod.mk.injEq, exists_eq_left']
            constructor
            · rintro ⟨rfl, rfl⟩
              exact ⟨rfl, hn, rfl⟩
            · rintro ⟨rfl, -, rfl⟩
              exact ⟨rfl, rfl⟩

theorem emit_counts (build target detail : Text) (i n : Option ℕ) :
    emit build target detail (i.elim [] decimal) (n.elim [] decimal) =
      csvLine [build, target, detail, i.elim [] decimal, n.elim [] decimal,
        (perOp i n).elim [] fun p => decimal p.1] := by
  have hvalue : ∀ k, digitsValue (decimal k) = k := ofDigitChars_decimal
  unfold emit perOp
  cases i with
  | none => rfl
  | some i =>
      cases n with
      | none => simp
      | some n =>
          by_cases hn : n = 0
          · simp [decimal_eq_zero_iff, hn]
          · simp [decimal_eq_zero_iff, hn, decimal_ne_nil, hvalue]

/-! ### Cells and their labels -/

def instrCells (o : InstrOutcomes) : List InstrCell :=
  (kexCells o).map .handshake ++ instrAlgs.map .primitive

-- Both trees are measured on the same cells.
theorem mem_instrCalls (o : InstrOutcomes) (r : InstrCall) :
    r ∈ instrCalls o ↔ r.cell ∈ instrCells o := by
  obtain ⟨tree, cell⟩ := r
  simp only [instrCalls, instrCells, List.mem_append, List.mem_flatMap, List.mem_map,
    InstrCall.mk.injEq]
  have htree : tree ∈ [Which.qudo, .stock] := by cases tree <;> decide
  constructor
  · rintro (⟨t, -, c, hc, rfl, rfl⟩ | ⟨t, -, alg, halg, rfl, rfl⟩)
    · exact .inl ⟨c, hc, rfl⟩
    · exact .inr ⟨alg, halg, rfl⟩
  · rintro (⟨c, hc, rfl⟩ | ⟨alg, halg, rfl⟩)
    · exact .inl ⟨tree, htree, c, hc, rfl, rfl⟩
    · exact .inr ⟨tree, htree, alg, halg, rfl, rfl⟩

theorem comma_notMem_label {o : InstrOutcomes} {c : InstrCell} (hc : c ∈ instrCells o) :
    ',' ∉ c.label.1 ∧ ',' ∉ c.label.2 := by
  simp only [instrCells, List.mem_append, List.mem_map] at hc
  rcases hc with ⟨c, -, rfl⟩ | ⟨alg, halg, rfl⟩
  · cases c <;> decide
  · have halgs : ∀ alg ∈ instrAlgs, ',' ∉ alg := by decide
    exact ⟨(by decide : ',' ∉ txt "primitive"), halgs alg halg⟩

-- Two modes share a group in the wall-clock tables, but only one of them is counted here.
theorem label_injective {o : InstrOutcomes} {c d : InstrCell} (hc : c ∈ instrCells o)
    (hd : d ∈ instrCells o) (h : c.label = d.label) : c = d := by
  have hkex : ∀ c ∈ kex, ∀ d ∈ kex, c.group = d.group → c = d := by decide
  simp only [instrCells, kexCells, List.mem_append, List.mem_map, List.mem_filter] at hc hd
  rcases hc with ⟨c, hc, rfl⟩ | ⟨a, -, rfl⟩
  · rcases hd with ⟨d, hd, rfl⟩ | ⟨b, -, rfl⟩
    · rw [hkex c hc.1 d hd.1 (congrArg Prod.snd h)]
    · exact absurd (congrArg Prod.fst h) (by decide : txt "handshake" ≠ txt "primitive")
  · rcases hd with ⟨d, -, rfl⟩ | ⟨b, -, rfl⟩
    · exact absurd (congrArg Prod.fst h) (by decide : txt "primitive" ≠ txt "handshake")
    · rw [show a = b from congrArg Prod.snd h]

/-! ### Entries -/

def instrPerOp (o : InstrOutcomes) (r : InstrCall) : Option (ℕ × ℕ) :=
  perOp (instrRefs o r) (completed o r)

/-- What the line of a call adds to the dictionaries. -/
def instrEntries (o : InstrOutcomes) (r : InstrCall) : List ((Text × Text) × Text × ℕ × Text) :=
  (instrPerOp o r).toList.map fun p => (r.cell.label, bname r.tree, p.1, decimal p.2)

theorem csvFields_instrLine {o : InstrOutcomes} {r : InstrCall} (hr : r ∈ instrCalls o) :
    csvFields (instrLine o r) = [bname r.tree, r.cell.label.1, r.cell.label.2,
      (instrRefs o r).elim [] decimal, (completed o r).elim [] decimal,
      (instrPerOp o r).elim [] fun p => decimal p.1] := by
  have hper : ',' ∉ (instrPerOp o r).elim [] fun p => decimal p.1 := by
    cases instrPerOp o r with
    | none => exact List.not_mem_nil
    | some p => exact comma_notMem_decimal p.1
  have hlabel := comma_notMem_label ((mem_instrCalls o r).mp hr)
  rw [instrLine, instructions_eq, operations_eq, emit_counts, ← instrPerOp]
  apply csvFields_csvLine (by simp)
  simp [comma_notMem_bname, comma_notMem_count, hper, hlabel.1, hlabel.2]

theorem instrEntry_line {o : InstrOutcomes} {r : InstrCall} (hr : r ∈ instrCalls o) :
    instrEntry (dictRow (csvFields instrHeader) (csvFields (instrLine o r))) =
      .ok (instrEntries o r) := by
  have hheader : csvFields instrHeader = [txt "build", txt "target", txt "detail",
      txt "instructions", txt "operations", txt "instr_per_op"] := by decide
  rw [hheader, csvFields_instrLine hr, instrEntries]
  cases hp : instrPerOp o r with
  | none => rfl
  | some p =>
      obtain ⟨a, -, hn, -, -⟩ := perOp_eq_some_iff.mp hp
      have htruthy : truthy (some (decimal p.1)) = true := by simp [truthy, decimal_ne_nil]
      rw [hn]
      show (if truthy (some (decimal p.1)) then _ else _) = _
      rw [if_pos htruthy]
      show (int (some (decimal p.1)) >>= _) = _
      rw [int_decimal]
      rfl

/-- The lines of the calls as assignments. -/
theorem mem_instrEntries (o : InstrOutcomes) (k : Text × Text) (b : Text) (v : ℕ × Text) :
    (k, b, v) ∈ ((instrCalls o).map (instrEntries o)).flatten ↔
      ∃ c ∈ instrCells o, ∃ t p, instrPerOp o ⟨t, c⟩ = some p ∧
        c.label = k ∧ bname t = b ∧ (p.1, decimal p.2) = v := by
  simp only [List.mem_flatten, List.mem_map, exists_exists_and_eq_and, instrEntries,
    Option.mem_toList, Prod.mk.injEq, mem_instrCalls]
  constructor
  · rintro ⟨⟨t, c⟩, hc, p, hp, h⟩
    exact ⟨c, hc, t, p, hp, h⟩
  · rintro ⟨c, hc, t, p, hp, h⟩
    exact ⟨⟨t, c⟩, hc, p, hp, h⟩

theorem functional_instrEntries (o : InstrOutcomes) :
    Dict.Functional ((instrCalls o).map (instrEntries o)).flatten := by
  intro k b v w hv hw
  rw [mem_instrEntries] at hv hw
  obtain ⟨c, hc, t, p, hp, hk, hb, rfl⟩ := hv
  obtain ⟨d, hd, u, p', hp', hk', hb', rfl⟩ := hw
  have hcd : c = d := label_injective hc hd (hk.trans hk'.symm)
  have htu : t = u := bname_injective (hb.trans hb'.symm)
  rw [hcd, htu, hp'] at hp
  rw [Option.some.inj hp]

/-- The section completes on whatever the script has written, and its table has, in order and once,
the cells for which both builds have a count of instructions per operation that is not zero. -/
theorem secInstructions_instructionsCsv (o : InstrOutcomes) :
    ∃ out, secInstructions (some (instructionsCsv o)) = .ok (some out) ∧
      (out.map InstrRow.cell).Pairwise (fun a b => pairLe a b ∧ a ≠ b) ∧
      ∀ x, x ∈ out ↔ ∃ c ∈ instrCells o, ∃ q s, instrPerOp o ⟨.qudo, c⟩ = some q ∧
        instrPerOp o ⟨.stock, c⟩ = some s ∧ q.1 ≠ 0 ∧ s.1 ≠ 0 ∧
          x = ⟨c.label, q.1, decimal q.2, s.1, decimal s.2, (s.1 : ℚ) / q.1⟩ := by
  have hcalls : instrCalls o ≠ [] :=
    List.ne_nil_of_mem ((mem_instrCalls o ⟨.qudo, .primitive (txt "ML-KEM-512")⟩).mpr
      (List.mem_append_right _ (List.mem_map_of_mem (by decide))))
  have hcols : ∀ c ∈ instrColumns, c ∈ csvFields instrHeader := by decide
  have hfun := functional_instrEntries o
  refine ⟨compared pairLe instrRow (Dict.collect ((instrCalls o).map (instrEntries o)).flatten),
    comparedSection_of_entries pairLe hcols hcalls fun r hr => instrEntry_line hr, ?_, fun x => ?_⟩
  · have hkey : ∀ k q s x, instrRow k q s = some x → x.cell = k := by
      intro k q s x hx
      rw [instrRow, Option.ite_none_left_eq_some, Option.some.injEq] at hx
      rw [← hx.2]
    have hsorted := pairwise_sortedSet pairLe
      (Dict.collect ((instrCalls o).map (instrEntries o)).flatten).keys
    exact hsorted.sublist (compared_sublist pairLe hkey _)
  · rw [mem_compared pairLe hfun]
    simp only [mem_instrEntries, instrRow, Option.ite_none_left_eq_some, Option.some.injEq, not_or]
    constructor
    · rintro ⟨k, q, s, ⟨c, hc, t, p, hp, hk, ht, rfl⟩, ⟨d, hd, u, p', hp', hk', hu, rfl⟩,
        ⟨hq, hs⟩, hx⟩
      have hcd : c = d := label_injective hc hd (hk.trans hk'.symm)
      have ht : t = .qudo := bname_injective ht
      have hu : u = .stock := bname_injective hu
      subst hcd ht hu hk
      exact ⟨c, hc, p, p', hp, hp', hq, hs, hx.symm⟩
    · rintro ⟨c, hc, q, s, hq, hs, hq0, hs0, hx⟩
      exact ⟨c.label, _, _, ⟨c, hc, .qudo, q, hq, rfl, rfl, rfl⟩,
        ⟨c, hc, .stock, s, hs, rfl, rfl, rfl⟩, ⟨hq0, hs0⟩, hx.symm⟩

end QudoSSL
