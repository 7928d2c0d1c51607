import QudoSSL.Posix.Recipe
import QudoSSL.Posix.Text

/-!
# `benchmark/scripts/report.sh`

The stage that writes `REPORT.md`: the analysis goes to a temporary file which then replaces the
report, and a table of the data files is appended to the report.  The failure of the first command
of an `&&` list does not end a script under `set -e`, so the table is appended either way.
-/

namespace QudoSSL

open Posix

/-! ## Checksums -/

/-- SHA-256, as the utilities print it. -/
structure Sha256 where
  hex : Text → Text
  hex_ne_nil : ∀ t, hex t ≠ []
  isDigit : ∀ t, ∀ c ∈ hex t, c ∈ txt "0123456789abcdef"

/-- `sha256sum` or `shasum -a 256`.  A line about a file whose name has one of these characters
begins with a backslash, and the name is printed in escaped form. -/
structure SumTool where
  escapes : List Char
  newline_mem : '\n' ∈ escapes

def SumTool.escaped (t : SumTool) (path : Text) : Bool := path.any (· ∈ t.escapes)

def SumTool.mark (t : SumTool) (path : Text) : Text := if t.escaped path then ['\\'] else []

def SumTool.escape (t : SumTool) (path : Text) : Text :=
  path.flatMap fun c =>
    if c ∈ t.escapes then ['\\', if c = '\n' then 'n' else if c = '\r' then 'r' else c] else [c]

structure SumTools where
  sha256sum : Option SumTool
  shasum : Option SumTool

/-- What a command prints, and whether it succeeds. -/
structure Output where
  text : Text
  ok : Bool

/-- A path that begins with a dash is taken for an option. -/
def isOption (path : Text) : Bool := path.head? = some '-'

def checksum (sha : Sha256) (tool : Option SumTool) (path content : Text) : Output :=
  match tool with
  | none => ⟨[], false⟩
  | some t =>
      if isOption path then ⟨[], false⟩
      else
        ⟨terminate (t.mark path ++ sha.hex content ++ txt "  " ++ t.escape path), true⟩

/-- `... | cut -d' ' -f1`.  The status of the pipeline is that of `cut`. -/
def cutFirst (o : Output) : Output :=
  ⟨((lines o.text).map fun l => terminate (l.takeWhile (· ≠ ' '))).flatten, true⟩

def orElse (o p : Output) : Output := if o.ok then o else ⟨o.text ++ p.text, p.ok⟩

def digest (sha : Sha256) (tools : SumTools) (path content : Text) : Text :=
  -- sha256sum "$f" | cut -d' ' -f1 || shasum -a 256 "$f" | cut -d' ' -f1
  substitute (orElse (cutFirst (checksum sha tools.sha256sum path content))
    (cutFirst (checksum sha tools.shasum path content))).text

/-! ## The table of data files -/

structure DataEntry where
  name : Text
  /-- Nothing if it is not a regular file. -/
  content : Option Text
  slash_notMem : '/' ∉ name

/-- The shell's pattern `*.csv`, which a hidden file does not match. -/
def isCsv (name : Text) : Bool := name.head? ≠ some '.' ∧ txt ".csv" <:+ name

/-- The regular files among the names that match, in the shell's order.  If none matches, the loop
runs for the pattern itself, which is no file. -/
def csvFiles (entries : List DataEntry) : List (Text × Text) :=
  (entries.filter fun e => isCsv e.name).filterMap fun e => e.content.map fun t => (e.name, t)

def baseName (path : Text) : Text :=
  if isOption path then [] else substitute (terminate (basename path))

def tableRow (name count digest : Text) : Text :=
  txt "| `" ++ name ++ txt "` | " ++ count ++ txt " | `" ++ digest ++ txt "` |\n"

def provenanceRow (sha : Sha256) (tools : SumTools) (ds : Text) (f : Text × Text) : Text :=
  tableRow (baseName (ds ++ '/' :: f.1)) (integer ((wcLines f.2 : Int) - 1))
    (digest sha tools (ds ++ '/' :: f.1) f.2)

/-- `when` is the date and the machine. -/
def provenance (rows : List Text) (when : Text) : Text :=
  txt "\n## Provenance\n\n| file | rows | sha256 |\n|---|---|---|\n" ++ rows.flatten ++
    txt "\nTools: OpenSSL perftools and ctz/openssl-bench, both vendored under\n" ++
    txt "`benchmark/`, each built once against each OpenSSL tree.\n\nGenerated " ++ when ++
    txt ".\n"

/-! ## The script -/

/-- How `analyze.py` ends, and what it has printed by then. -/
inductive Analysis where
  | completes (out : Text)
  | fails (out : Text)
  deriving DecidableEq

structure ReportRun where
  ds : Text
  /-- Nothing if `ds` is not a directory. -/
  entries : Option (List DataEntry)
  analysis : Analysis
  moves : Bool
  tools : SumTools
  when : Text

/-- `REPORT.md` and `REPORT.md.tmp`. -/
structure ReportFiles where
  md : Option Text
  tmp : Option Text
  deriving DecidableEq

namespace ReportRun

def checkDirectory (r : ReportRun) : Recipe ReportFiles Empty :=
  if r.entries.isSome then Recipe.skip else Recipe.fail

def analyse (r : ReportRun) : Recipe ReportFiles Empty := fun s =>
  match r.analysis with
  | .completes out => ⟨[], { s with tmp := some out }, true⟩
  | .fails out => ⟨[], { s with tmp := some out }, false⟩

def move (r : ReportRun) : Recipe ReportFiles Empty := fun s =>
  if r.moves then ⟨[], ⟨s.tmp, none⟩, true⟩ else ⟨[], s, false⟩

def rows (sha : Sha256) (r : ReportRun) : List Text :=
  (csvFiles (r.entries.getD [])).map (provenanceRow sha r.tools r.ds)

/-- `{ ... } >> "$MD"`. -/
def append (sha : Sha256) (r : ReportRun) : Recipe ReportFiles Empty := fun s =>
  ⟨[], { s with md := some (s.md.getD [] ++ provenance (r.rows sha) r.when) }, true⟩

end ReportRun

def report (sha : Sha256) (r : ReportRun) : Recipe ReportFiles Empty :=
  Recipe.seq [r.checkDirectory, Recipe.andList r.analyse r.move, r.append sha]

/-! ## What the report should be -/

/-- The lines after the header. -/
def dataRows (content : Text) : Nat := (lines content).length - 1

def trueRow (sha : Sha256) (f : Text × Text) : Text :=
  tableRow f.1 (decimal (dataRows f.2)) (sha.hex f.2)

/-- The report is as before and the script fails, or the report is the whole analysis with one
table, of the data files as they are. -/
def Sound (sha : Sha256) (s : ReportFiles) (r : ReportRun) : Prop :=
  ((report sha r s).ok = false ∧ (report sha r s).state.md = s.md) ∨
    ∃ out es, r.analysis = .completes out ∧ r.entries = some es ∧ (report sha r s).state.md =
      some (out ++ provenance ((csvFiles es).map (trueRow sha)) r.when)

/-- `wc -l` counts every line, and `sha256sum` prints the plain digest. -/
structure Tabulable (r : ReportRun) (f : Text × Text) : Prop where
  terminated : f.2.getLast? = some '\n'
  plain : isOption (r.ds ++ '/' :: f.1) = false ∧ ∃ t, r.tools.sha256sum = some t ∧
    t.escaped (r.ds ++ '/' :: f.1) = false

/-- There is no directory, or the analysis completes and either its output cannot be moved or every
data file can be tabulated. -/
def Reportable (r : ReportRun) : Prop :=
  ∀ es, r.entries = some es → (∃ out, r.analysis = .completes out) ∧
    (r.moves = true → ∀ f ∈ csvFiles es, Tabulable r f)

/-! ## Digests -/

theorem notMem_hex (sha : Sha256) (t : Text) {c : Char} (h : c ∉ txt "0123456789abcdef") :
    c ∉ sha.hex t := fun hc => h (sha.isDigit t c hc)

theorem newline_notMem_escape (t : SumTool) (path : Text) : '\n' ∉ t.escape path := by
  unfold SumTool.escape
  rw [List.mem_flatMap]
  rintro ⟨c, -, hc⟩
  split at hc
  · next hesc =>
    rw [List.mem_cons, List.mem_singleton] at hc
    obtain hc | hc := hc
    · exact absurd hc (by decide)
    · split at hc
      · exact absurd hc (by decide)
      · split at hc
        · exact absurd hc (by decide)
        · next hn _ => exact hn hc.symm
  · next hesc =>
    rw [List.mem_singleton] at hc
    exact hesc (hc ▸ t.newline_mem)

theorem cutFirst_line {w rest : Text} (hspace : ' ' ∉ w) (hline : '\n' ∉ w ++ ' ' :: rest)
    (ok : Bool) : cutFirst ⟨terminate (w ++ ' ' :: rest), ok⟩ = ⟨terminate w, true⟩ := by
  have hcut : (w ++ ' ' :: rest).takeWhile (· ≠ ' ') = w := by
    rw [List.takeWhile_append_of_pos]
    · simp
    · intro c hc
      rw [decide_eq_true_eq]
      rintro rfl
      exact hspace hc
  unfold cutFirst
  rw [lines_terminate hline, List.map_singleton, hcut, List.flatten_singleton]

theorem notMem_mark_hex (sha : Sha256) (t : SumTool) (path content : Text) {c : Char}
    (hc : c ∉ txt "\\0123456789abcdef") : c ∉ t.mark path ++ sha.hex content := by
  have hmark : c ∉ t.mark path := by
    unfold SumTool.mark
    split
    · rw [List.mem_singleton]
      rintro rfl
      exact hc (by decide)
    · exact List.not_mem_nil
  have hhex : c ∉ sha.hex content := notMem_hex sha content fun h => hc (List.mem_cons_of_mem _ h)
  simp [hmark, hhex]

-- `shasum` is never asked: what the cell holds is what `sha256sum` prints, if it does.
theorem digest_eq (sha : Sha256) (tools : SumTools) (path content : Text) :
    digest sha tools path content =
      match tools.sha256sum with
      | none => []
      | some t => if isOption path then [] else t.mark path ++ sha.hex content := by
  unfold digest
  cases tools.sha256sum with
  | none => rfl
  | some t =>
      cases hopt : isOption path with
      | true => simp only [checksum, hopt, if_true]; rfl
      | false =>
          have hword : ∀ c ∉ txt "\\0123456789abcdef", c ∉ t.mark path ++ sha.hex content :=
            fun c => notMem_mark_hex sha t path content
          have hline : '\n' ∉ (t.mark path ++ sha.hex content) ++ ' ' :: ' ' :: t.escape path := by
            have hname := newline_notMem_escape t path
            have hfirst := hword '\n' (by decide)
            simp only [List.mem_append, not_or] at hfirst
            simp [hfirst, hname]
          have hcut := cutFirst_line (hword ' ' (by decide)) hline true
          have hprinted : t.mark path ++ sha.hex content ++ txt "  " ++ t.escape path =
              (t.mark path ++ sha.hex content) ++ ' ' :: ' ' :: t.escape path :=
            List.append_assoc _ _ _
          simp only [checksum, hopt, Bool.false_eq_true, if_false, hprinted, hcut]
          exact substitute_terminate (hword '\n' (by decide))

theorem digest_eq_hex_iff (sha : Sha256) (tools : SumTools) (path content : Text) :
    digest sha tools path content = sha.hex content ↔
      isOption path = false ∧ ∃ t, tools.sha256sum = some t ∧ t.escaped path = false := by
  have hne := (sha.hex_ne_nil content).symm
  rw [digest_eq]
  cases tools.sha256sum with
  | none => simp [hne]
  | some t =>
      unfold SumTool.mark
      cases isOption path <;> cases t.escaped path <;> simp [hne]

theorem backtick_notMem_digest (sha : Sha256) (tools : SumTools) (path content : Text) :
    '`' ∉ digest sha tools path content := by
  rw [digest_eq]
  cases tools.sha256sum with
  | none => exact List.not_mem_nil
  | some t =>
      cases isOption path with
      | true => exact List.not_mem_nil
      | false => exact notMem_mark_hex sha t path content (by decide)

/-! ## Rows -/

theorem integer_pred (n : Nat) :
    integer ((n : Int) - 1) = if n = 0 then '-' :: decimal 1 else decimal (n - 1) := by
  cases n with
  | zero => rfl
  | succ n => rw [show ((n + 1 : Nat) : Int) - 1 = (n : Int) by omega, if_neg (by omega)]; rfl

theorem space_notMem_integer (n : Int) : ' ' ∉ integer n := by
  have hspace := fun m => notMem_decimal (c := ' ') (by decide) m
  cases n with
  | ofNat n => exact hspace n
  | negSucc n => simp [integer, hspace]

-- A row says `-1` of an empty file, and leaves an unterminated last line out.
theorem integer_eq_decimal_iff (content : Text) :
    integer ((wcLines content : Int) - 1) = decimal (dataRows content) ↔
      content.getLast? = some '\n' := by
  have hminus : ∀ m, '-' :: decimal 1 ≠ decimal m := by
    intro m h
    have hmem : '-' ∈ decimal m := h ▸ List.mem_cons_self
    exact notMem_decimal (by decide) m hmem
  rw [integer_pred, dataRows, length_lines]
  obtain rfl | ⟨body, c, rfl⟩ := content.eq_nil_or_concat
  · simp [hminus, wcLines]
  · rw [List.concat_eq_append, List.getLast?_concat, List.getLastD_concat, Option.some.injEq]
    by_cases hc : c = '\n'
    · subst hc
      have hpos : wcLines (body ++ ['\n']) ≠ 0 := by simp [wcLines]
      simp [hpos]
    · refine iff_of_false ?_ hc
      rw [if_neg hc, Nat.add_sub_cancel]
      split
      · exact hminus _
      · next hpos =>
        intro h
        have := decimal_injective h
        omega

-- A row that ends a text is determined but for the name.
theorem tableRow_cancel {x y n m c d e f : Text} (hc : ' ' ∉ c) (hd : ' ' ∉ d) (he : '`' ∉ e)
    (hf : '`' ∉ f) (h : x ++ tableRow n c e = y ++ tableRow m d f) :
    x ++ (txt "| `" ++ n) = y ++ (txt "| `" ++ m) ∧ c = d ∧ e = f := by
  have hform : ∀ x n c e, x ++ tableRow n c e =
      ((x ++ (txt "| `" ++ n) ++ txt "` |" ++ ' ' :: c) ++ txt " | " ++ '`' :: e) ++
        txt "` |\n" := by
    intro x n c e
    simp only [tableRow, show txt "` | " = txt "` |" ++ [' '] from rfl,
      show txt " | `" = txt " | " ++ ['`'] from rfl, List.append_assoc, List.cons_append,
      List.nil_append]
  rw [hform, hform] at h
  -- from the end: the digest, then the count
  obtain ⟨hleft, hdigest⟩ := append_cons_cancel he hf (List.append_cancel_right h)
  obtain ⟨hname, hcount⟩ := append_cons_cancel hc hd (List.append_cancel_right hleft)
  exact ⟨List.append_cancel_right hname, hcount, hdigest⟩

theorem name_of_mem_csvFiles {es : List DataEntry} {f : Text × Text} (h : f ∈ csvFiles es) :
    '/' ∉ f.1 ∧ txt ".csv" <:+ f.1 := by
  obtain ⟨e, he, hf⟩ := List.mem_filterMap.mp h
  obtain ⟨t, -, rfl⟩ := Option.map_eq_some_iff.mp hf
  have hcsv := (List.mem_filter.mp he).2
  rw [isCsv, decide_eq_true_eq] at hcsv
  exact ⟨e.slash_notMem, hcsv.2⟩

theorem baseName_append {ds : Text} {es : List DataEntry} {f : Text × Text} (h : f ∈ csvFiles es)
    (hopt : isOption (ds ++ '/' :: f.1) = false) : baseName (ds ++ '/' :: f.1) = f.1 := by
  obtain ⟨hslash, pre, hpre⟩ := name_of_mem_csvFiles h
  have hne : f.1 ≠ [] := by
    rw [← hpre]
    simp [txt]
  -- a name may have a newline in it, but not at its end
  have hlast : f.1.getLast? ≠ some '\n' := by
    rw [← hpre, show txt ".csv" = txt ".cs" ++ ['v'] from rfl, ← List.append_assoc,
      List.getLast?_concat]
    decide
  rw [baseName, hopt, if_neg (by decide), basename_append hslash hne,
    substitute_terminate_of_getLast hlast]

theorem provenanceRow_eq_iff {sha : Sha256} {r : ReportRun} {es : List DataEntry}
    {f : Text × Text} (h : f ∈ csvFiles es) {x y : Text} :
    x ++ provenanceRow sha r.tools r.ds f = y ++ trueRow sha f ↔ x = y ∧ Tabulable r f := by
  have hcell := digest_eq_hex_iff sha r.tools (r.ds ++ '/' :: f.1) f.2
  have hcount := integer_eq_decimal_iff f.2
  constructor
  · intro heq
    obtain ⟨hname, hc, hd⟩ := tableRow_cancel (space_notMem_integer _)
      (notMem_decimal (by decide) _) (backtick_notMem_digest sha _ _ _)
      (notMem_hex sha f.2 (by decide)) heq
    have hplain := hcell.mp hd
    rw [baseName_append h hplain.1] at hname
    exact ⟨List.append_cancel_right hname, hcount.mp hc, hplain⟩
  · rintro ⟨rfl, hterm, hplain⟩
    rw [provenanceRow, trueRow, baseName_append h hplain.1, hcell.mpr hplain, hcount.mpr hterm]

-- The table is as it should be exactly when every row is.
theorem rows_eq_iff {sha : Sha256} {r : ReportRun} {es : List DataEntry}
    {fs : List (Text × Text)} (h : ∀ f ∈ fs, f ∈ csvFiles es) {x y : Text} :
    x ++ (fs.map (provenanceRow sha r.tools r.ds)).flatten = y ++ (fs.map (trueRow sha)).flatten ↔
      x = y ∧ ∀ f ∈ fs, Tabulable r f := by
  -- from the end, as the rows can only be told apart from there
  induction fs using List.reverseRecOn generalizing x y with
  | nil => simp
  | append_singleton fs f ih =>
      rw [List.forall_mem_append, List.forall_mem_singleton] at h
      simp only [List.map_append, List.map_singleton, List.flatten_append, List.flatten_singleton,
        ← List.append_assoc]
      rw [provenanceRow_eq_iff h.2, ih h.1, List.forall_mem_append, List.forall_mem_singleton,
        and_assoc]

theorem table_eq_iff (sha : Sha256) (r : ReportRun) (es : List DataEntry) :
    provenance ((csvFiles es).map (provenanceRow sha r.tools r.ds)) r.when =
        provenance ((csvFiles es).map (trueRow sha)) r.when ↔
      ∀ f ∈ csvFiles es, Tabulable r f := by
  have hrows := @rows_eq_iff sha r es (csvFiles es) (fun f hf => hf) [] []
  rw [List.nil_append, List.nil_append, and_iff_right rfl] at hrows
  rw [← hrows]
  unfold provenance
  rw [List.append_left_inj, List.append_left_inj, List.append_left_inj, List.append_left_inj,
    List.append_right_inj]

/-! ## Runs -/

theorem report_of_no_directory {r : ReportRun} (h : r.entries = none) (sha : Sha256)
    (s : ReportFiles) : report sha r s = ⟨[], s, false⟩ := by
  simp [report, Recipe.seq, Recipe.andThen, ReportRun.checkDirectory, h, Recipe.fail]

theorem report_of_directory {r : ReportRun} {es : List DataEntry} (h : r.entries = some es)
    (sha : Sha256) (s : ReportFiles) :
    report sha r s =
      let table := provenance ((csvFiles es).map (provenanceRow sha r.tools r.ds)) r.when
      match r.analysis with
      | .fails out => ⟨[], ⟨some (s.md.getD [] ++ table), some out⟩, true⟩
      | .completes out =>
          if r.moves then ⟨[], ⟨some (out ++ table), none⟩, true⟩
          else ⟨[], ⟨s.md, some out⟩, false⟩ := by
  cases hanalysis : r.analysis <;> cases hmoves : r.moves <;>
    simp [report, Recipe.seq, Recipe.andThen, Recipe.andList, Recipe.skip,
      ReportRun.checkDirectory, ReportRun.analyse, ReportRun.move, ReportRun.append,
      ReportRun.rows, h, hanalysis, hmoves]

theorem sound_iff (sha : Sha256) (s : ReportFiles) (r : ReportRun) :
    Sound sha s r ↔ Reportable r := by
  unfold Sound Reportable
  cases hentries : r.entries with
  | none =>
      rw [report_of_no_directory hentries]
      exact iff_of_true (.inl ⟨rfl, rfl⟩) nofun
  | some es =>
      rw [report_of_directory hentries]
      cases hanalysis : r.analysis with
      | fails out => simp
      | completes out =>
          cases hmoves : r.moves with
          | false => simp
          | true => simp [table_eq_iff]

/-- Over a sequence of runs, every run leaves the old report and fails, or a whole new one, exactly
when each of them either has no directory to read, or completes the analysis and cannot move it or
can tabulate every data file. -/
theorem reports_sound_iff (sha : Sha256) (s : ReportFiles) (rs : List ReportRun) :
    AlongRun (fun s r => (report sha r s).state) (Sound sha) s rs ↔ ∀ r ∈ rs, Reportable r := by
  rw [alongRun_congr (sound_iff sha), alongRun_iff_forall_mem]

/-! Two runs over an empty directory, in the second of which the analysis fails. -/

def zeros : Sha256 where
  hex := fun _ => List.replicate 64 '0'
  hex_ne_nil := fun _ => by decide
  isDigit := fun _ c hc => by
    rw [List.eq_of_mem_replicate hc]
    decide

def coreutils : SumTools where
  sha256sum := some ⟨['\\', '\n', '\r'], by decide⟩
  shasum := none

def emptyRun (analysis : Analysis) : ReportRun where
  ds := txt "data"
  entries := some []
  analysis := analysis
  moves := true
  tools := coreutils
  when := txt "2026-01-01T00:00:00Z on Linux"

/-- The old analysis is left with a second table, and the script goes on. -/
theorem reports_append_to_old :
    ¬ AlongRun (fun s r => (report zeros r s).state) (Sound zeros) ⟨none, none⟩
        [emptyRun (.completes (txt "# old\n")), emptyRun (.fails [])] ∧
      report zeros (emptyRun (.fails []))
          (report zeros (emptyRun (.completes (txt "# old\n"))) ⟨none, none⟩).state =
        ⟨[], ⟨some (txt "# old\n" ++ provenance [] (txt "2026-01-01T00:00:00Z on Linux") ++
          provenance [] (txt "2026-01-01T00:00:00Z on Linux")), some []⟩, true⟩ := by
  refine ⟨fun h => ?_, rfl⟩
  obtain ⟨hok, -⟩ | ⟨out, es, hcompletes, -⟩ := h.2.1
  · exact absurd hok (by decide)
  · cases hcompletes

end QudoSSL
