import QudoSSL.Python.Values

/-!
# `benchmark/scripts/run.sh`

The measurement loops, from what the tools print to the lines of the CSV files.  A run of a tool can
fail: `speed` and `bench` then print no rate, and `handshake` prints either nothing or diagnostics
on standard output, where the shell takes the measurement from.
-/

namespace QudoSSL

open Posix Python

inductive Which where
  | qudo
  | stock
  deriving DecidableEq

def bname : Which → Text
  | .qudo => txt "QUDOSSL"
  | .stock => txt "OPENSSL"

theorem bname_injective : Function.Injective bname := by
  intro t u h
  cases t <;> cases u <;> first | rfl | exact absurd h (by decide)

/-- Reversed on even repetitions. -/
def order (rep : ℕ) : List Which := if rep % 2 = 0 then [.stock, .qudo] else [.qudo, .stock]

theorem mem_order (rep : ℕ) (t : Which) : t ∈ order rep := by
  unfold order
  split <;> cases t <;> decide

def repetitions (reps : ℕ) : List ℕ :=
  -- seq 1 $REPS
  List.range' 1 reps

/-! ## The tools -/

/-- The line that `openssl speed` prints for its algorithm: three times and three rates. -/
structure SpeedLine where
  times : List Text
  op1 : Numeral
  op2 : Numeral
  op3 : Numeral

def speedOut (alg : Text) : Option SpeedLine → List (List Text)
  | none => []
  | some l => [alg :: (l.times ++ [l.op1.text, l.op2.text, l.op3.text])]

/-- `grep "^ *$A " | awk '{print $(NF-2)","$(NF-1)","$NF}'`, on lines split into fields. -/
def speedValue (alg : Text) (out : List (List Text)) : Text :=
  substitute ((out.filter fun l => l.head? = some alg ∧ 1 < l.length).map fun l =>
    terminate (csvLine (l.drop (l.length - 3)))).flatten

/-- What perftools' `handshake -t CERTS 1` prints on standard output when it fails.  The diagnostics
of failed connections have commas in them and end no line, so that they run together with what
follows; of the first line it is only known that what the analysis takes from it is no number. -/
structure Diagnostic where
  line : Text
  rest : Text
  plain : ∀ c ∈ line, c ∉ ['"', '\n', '\r']
  ends : rest.head?.all (· = '\n') = true
  noNumber : refused ((csvFields line).headD []) = true
  field_ne_nil : (csvFields line).headD [] ≠ []

inductive HandshakeRun where
  | time (us : Numeral)
  | silent
  | diagnostic (d : Diagnostic)

def handshakeOut : HandshakeRun → Text
  | .time us => terminate us.text
  | .silent => []
  | .diagnostic d => d.line ++ d.rest

def headOne (out : Text) : Text :=
  -- $(... | head -1)
  substitute (((lines out).take 1).map terminate).flatten

/-- What `bench` prints: lines of no interest, and a rate for each side unless it fails first. -/
structure BenchRun where
  noise : List (List Text)
  label : Text
  cipher : List Text
  server : Option Numeral
  client : Option Numeral
  quiet : ∀ l ∈ noise, l.getLast? ≠ some (txt "handshakes/s")

inductive Side where
  | server
  | client
  deriving DecidableEq

def Side.text : Side → Text
  | .server => txt "server"
  | .client => txt "client"

theorem Side.text_injective : Function.Injective Side.text := by
  intro s u h
  cases s <;> cases u <;> first | rfl | exact absurd h (by decide)

def BenchRun.rate (r : BenchRun) : Side → Option Numeral
  | .server => r.server
  | .client => r.client

def BenchRun.line (r : BenchRun) (side : Side) (n : Numeral) : List Text :=
  r.label :: side.text :: (r.cipher ++ [n.text, txt "handshakes/s"])

def benchOut (r : BenchRun) : List (List Text) :=
  r.noise ++ (r.server.map (r.line .server)).toList ++ (r.client.map (r.line .client)).toList

def benchValue (side : Side) (out : List (List Text)) : Text :=
  -- awk -v s=$side '$NF=="handshakes/s" && $2==s {print $(NF-1); exit}'
  match out.find? fun l => l.getLast? = some (txt "handshakes/s") ∧ l[1]? = some side.text with
  | none => []
  | some l => l.dropLast.getLastD []

/-! What the shell takes from each of them. -/

theorem newline_notMem_csvLine {fields : List Text} (h : ∀ f ∈ fields, '\n' ∉ f) :
    '\n' ∉ csvLine fields := by
  unfold csvLine
  induction fields with
  | nil => simp
  | cons f fs ih =>
      rw [List.forall_mem_cons] at h
      cases fs with
      | nil => simpa using h.1
      | cons g fs =>
          have hrest := ih h.2
          rw [List.intercalate_cons_cons]
          simp only [List.mem_append, not_or]
          exact ⟨⟨h.1, by decide⟩, hrest⟩

theorem speedValue_out (alg : Text) (l : Option SpeedLine) :
    speedValue alg (speedOut alg l) =
      l.elim [] fun l => csvLine [l.op1.text, l.op2.text, l.op3.text] := by
  cases l with
  | none => rfl
  | some l =>
      have hline : '\n' ∉ csvLine [l.op1.text, l.op2.text, l.op3.text] :=
        newline_notMem_csvLine (by simp [Numeral.newline_notMem])
      have hlast : (alg :: (l.times ++ [l.op1.text, l.op2.text, l.op3.text])).drop
          (l.times.length + 1) = [l.op1.text, l.op2.text, l.op3.text] := by
        simp
      simp [speedValue, speedOut, hlast, substitute_terminate hline]

theorem Diagnostic.newline_notMem (d : Diagnostic) : '\n' ∉ d.line :=
  fun h => d.plain _ h (by decide)

theorem headOne_terminate_append {l : Text} (h : '\n' ∉ l) (t : Text) :
    headOne (terminate l ++ t) = l := by
  simp [headOne, lines_terminate_append h, substitute_terminate h]

theorem headOne_line {l : Text} (h : '\n' ∉ l) : headOne l = l := by
  cases l with
  | nil => rfl
  | cons c cs => simp [headOne, lines_eq_singleton h, substitute_terminate h]

theorem headOne_out (r : HandshakeRun) :
    headOne (handshakeOut r) =
      match r with
      | .time us => us.text
      | .silent => []
      | .diagnostic d => d.line := by
  cases r with
  | time us =>
      have hone := headOne_terminate_append us.newline_notMem []
      rwa [List.append_nil] at hone
  | silent => rfl
  | diagnostic d =>
      show headOne (d.line ++ d.rest) = d.line
      have hends := d.ends
      cases hrest : d.rest with
      | nil =>
          rw [List.append_nil]
          exact headOne_line d.newline_notMem
      | cons c cs =>
          rw [hrest] at hends
          obtain rfl : c = '\n' := by simpa using hends
          have hone := headOne_terminate_append d.newline_notMem cs
          rwa [terminate, List.append_assoc] at hone

theorem benchValue_out (side : Side) (r : BenchRun) :
    benchValue side (benchOut r) = (r.rate side).elim [] Numeral.text := by
  have hline : ∀ u n, r.line u n =
      ([r.label, u.text] ++ r.cipher ++ [n.text]) ++ [txt "handshakes/s"] := by
    intro u n
    simp [BenchRun.line]
  have hlast : ∀ u n, (r.line u n).getLast? = some (txt "handshakes/s") := by
    intro u n
    rw [hline, List.getLast?_concat]
  have hsecond : ∀ u n, (r.line u n)[1]? = some u.text := fun u n => rfl
  have hrate : ∀ u n, (r.line u n).dropLast.getLast? = some n.text := by
    intro u n
    rw [hline, List.dropLast_concat, List.getLast?_concat]
  have hnoise : r.noise.find? (fun l =>
      l.getLast? = some (txt "handshakes/s") ∧ l[1]? = some side.text) = none := by
    rw [List.find?_eq_none]
    intro l hl
    simp [r.quiet l hl]
  have hother : Side.server.text ≠ Side.client.text := by decide
  unfold benchValue benchOut
  rw [List.append_assoc, List.find?_append, hnoise]
  cases side <;> cases hs : r.server <;> cases hc : r.client <;>
    simp [hlast, hsecond, hrate, BenchRun.rate, hs, hc, hother, hother.symm]

/-! ## The loops -/

inductive Mode where
  | default
  | fips
  deriving DecidableEq

def Mode.text : Mode → Text
  | .default => txt "default"
  | .fips => txt "fips"

theorem Mode.text_injective : Function.Injective Mode.text := by
  intro m n h
  cases m <;> cases n <;> first | rfl | exact absurd h (by decide)

def kems : List Text :=
  [txt "ML-KEM-512", txt "ML-KEM-768", txt "ML-KEM-1024", txt "X25519MLKEM768",
    txt "SecP256r1MLKEM768", txt "SecP384r1MLKEM1024"]

def sigs : List Text := [txt "ML-DSA-44", txt "ML-DSA-65", txt "ML-DSA-87"]

/-- The cells of the handshake loop: the classical control, three key exchanges with the ML-DSA
certificate, and the hybrid one under the FIPS configuration. -/
inductive HandshakeCell where
  | control
  | classical
  | hybrid
  | hybridP256
  | fips
  deriving DecidableEq

def HandshakeCell.mode : HandshakeCell → Text
  | .fips => txt "fips"
  | _ => txt "default"

def HandshakeCell.group : HandshakeCell → Text
  | .control => txt "X25519+ECDSA"
  | .classical => txt "X25519+ML-DSA-44"
  | .hybrid => txt "X25519MLKEM768+ML-DSA-44"
  | .hybridP256 => txt "SecP256r1MLKEM768+ML-DSA-44"
  | .fips => txt "X25519MLKEM768+ML-DSA-44"

inductive BenchTest where
  | handshake
  | resume
  | ticket
  deriving DecidableEq

def BenchTest.text : BenchTest → Text
  | .handshake => txt "handshake"
  | .resume => txt "handshake-resume"
  | .ticket => txt "handshake-ticket"

/-- The setting of a run of the script, and what every call of a tool comes to. -/
structure Outcomes where
  reps : ℕ
  fipsConf : Which → Bool
  groupConf : HandshakeCell → Bool
  certsEc : Bool
  benchBuilt : Bool
  speed : ℕ → Mode → Which → Text → Option SpeedLine
  handshake : ℕ → Which → HandshakeCell → HandshakeRun
  bench : ℕ → Which → BenchTest → BenchRun

structure PrimitiveRun where
  rep : ℕ
  mode : Mode
  tree : Which
  family : Text
  alg : Text

def primitiveRuns (o : Outcomes) : List PrimitiveRun :=
  (repetitions o.reps).flatMap fun rep => [Mode.default, .fips].flatMap fun mode =>
    (order rep).flatMap fun tree =>
      if mode = .fips ∧ o.fipsConf tree = false then []
      else
        kems.map (fun alg => ⟨rep, mode, tree, txt "KEM", alg⟩) ++
          sigs.map fun alg => ⟨rep, mode, tree, txt "SIG", alg⟩

def primitiveLine (o : Outcomes) (r : PrimitiveRun) : Text :=
  csvLine [decimal r.rep, bname r.tree, r.mode.text, r.family, r.alg,
    speedValue r.alg (speedOut r.alg (o.speed r.rep r.mode r.tree r.alg))]

def primitivesCsv (o : Outcomes) : List Text :=
  txt "rep,build,mode,family,alg,op1,op2,op3" :: (primitiveRuns o).map (primitiveLine o)

/-- The cells that are measured for a tree, in the script's order. -/
def handshakeCells (o : Outcomes) (tree : Which) : List HandshakeCell :=
  (if o.certsEc then [HandshakeCell.control] else []) ++
    [HandshakeCell.classical, .hybrid, .hybridP256].filter o.groupConf ++
      if o.fipsConf tree then [HandshakeCell.fips] else []

structure HandshakeCall where
  rep : ℕ
  tree : Which
  cell : HandshakeCell

def handshakeCalls (o : Outcomes) : List HandshakeCall :=
  (repetitions o.reps).flatMap fun rep => (order rep).flatMap fun tree =>
    (handshakeCells o tree).map fun cell => ⟨rep, tree, cell⟩

def handshakeLine (o : Outcomes) (r : HandshakeCall) : Text :=
  csvLine [decimal r.rep, bname r.tree, r.cell.mode, r.cell.group,
    headOne (handshakeOut (o.handshake r.rep r.tree r.cell))]

def handshakeCsv (o : Outcomes) : List Text :=
  txt "rep,build,mode,group,us_per_handshake" :: (handshakeCalls o).map (handshakeLine o)

structure BenchCall where
  rep : ℕ
  tree : Which
  test : BenchTest
  side : Side

def benchCalls (o : Outcomes) : List BenchCall :=
  (repetitions o.reps).flatMap fun rep => (order rep).flatMap fun tree =>
    [BenchTest.handshake, .resume, .ticket].flatMap fun test =>
      [Side.server, .client].map fun side => ⟨rep, tree, test, side⟩

def resumptionLine (o : Outcomes) (r : BenchCall) : Text :=
  csvLine [decimal r.rep, bname r.tree, r.test.text, r.side.text,
    benchValue r.side (benchOut (o.bench r.rep r.tree r.test))]

/-- Written only when both `bench` binaries have been built. -/
def resumptionCsv (o : Outcomes) : Option (List Text) :=
  if o.benchBuilt then
    some (txt "rep,build,test,side,handshakes_per_s" :: (benchCalls o).map (resumptionLine o))
  else none

end QudoSSL
