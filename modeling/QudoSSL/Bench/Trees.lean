import QudoSSL.Posix.FileSystem
import QudoSSL.Posix.Grep

/-!
# The two trees of a comparison

`bench_verify` of `lib.sh` stands between the run scripts and their measurements.  It looks for an
`openssl` in both trees, compares the names `cd` gives them, and counts the qudo markers of each
tree's `libcrypto`.  The count of a tree without a `libcrypto` is `-1`.
-/

namespace QudoSSL

open Posix

/-- What `bench_verify` finds: the file system, the directory the scripts run in, the printable
strings of every file, the files that `strings` can read, and the values of `$ROOT`, `$Q` and
`$S`. -/
structure Trees where
  fs : FS
  cwd : Cwd
  printable : Nat → List Text
  reads : Nat → Bool
  root : Text
  q : Text
  s : Text

def libcryptoNames : List Text :=
  [txt "libcrypto.so.3", txt "libcrypto.dylib", txt "libcrypto.3.dylib"]

def opensslProgram : Text := txt "apps/openssl"

/-- `grep -i 'QUDO_\|qudo_pqc'`. -/
def hasMarker (l : Text) : Bool :=
  search (lit (txt "qudo_") ++ lit (txt "qudo_pqc")) (l.map Char.toLower)

namespace Trees

/-- The directory a tree's path leads to, with every link followed.  What lies below a tree is
looked up from there. -/
def dir (h : Trees) (d : Text) : Option Nat :=
  -- an unset `$Q` or `$S` makes the paths below it absolute
  h.fs.dirAt h.cwd.ino (d ++ ['/'])

/-- `[ -x "$d/apps/openssl" ]`. -/
def isExec (h : Trees) (d : Text) : Bool :=
  (h.dir d).any fun i => h.fs.isExec i opensslProgram

/-- The inode behind a name, if it is a regular file: `[ -f ... ]`. -/
def regular (h : Trees) (i : Nat) (name : Text) : Option Nat :=
  (h.fs.resolve true i name).bind fun loc =>
    match h.fs.nodes[loc.ino]? with
    | some (.file _) => some loc.ino
    | _ => none

/-- The library the loop of `qudo_symbols` stops at. -/
def libcrypto (h : Trees) (d : Text) : Option Nat :=
  (h.dir d).bind fun i => libcryptoNames.findSome? (h.regular i)

/-- `strings -a "$lib" 2>/dev/null`: a failure prints nothing. -/
def strings (h : Trees) (lib : Nat) : List Text :=
  if h.reads lib then h.printable lib else []

def qudoSymbols (h : Trees) (d : Text) : Text :=
  match h.libcrypto d with
  | some lib => decimal ((h.strings lib).countP hasMarker)
  | none => txt "-1"

/-- `$(cd "$d" && pwd)`. -/
def shellPath (h : Trees) (d : Text) : Text :=
  match h.fs.cd h.cwd d with
  | some v => substitute (terminate v.pwd)
  | none => []

def noOpenssl (h : Trees) (d : Text) : List Text :=
  [txt "FATAL: no openssl at " ++ (if d = [] then txt "<unset>" else d) ++ txt "/apps/openssl",
    txt "       The two trees are guessed relative to " ++ h.root ++ txt ". If this folder",
    txt "       has been copied elsewhere, point at them directly:",
    txt "         export QUDOSSL_DIR=/path/to/qudossl/openssl",
    txt "         export STOCK_DIR=/path/to/openssl-3.5.7"]

/-- The messages of `bench_verify` and its status.  A run script goes on only after status 0. -/
def benchVerify (h : Trees) : List Text × Nat :=
  let missing := [h.q, h.s].filter fun d => !h.isExec d
  if missing ≠ [] then (missing.flatMap h.noOpenssl, 1)
  else
    let nq := h.qudoSymbols h.q
    let ns := h.qudoSymbols h.s
    -- every message comes with rc=1
    let fatal :=
      (if h.shellPath h.q = h.shellPath h.s then
        [txt "FATAL: both trees are the same directory - nothing to compare"] else []) ++
      (if nq = txt "0" then
        [txt "FATAL: " ++ h.q ++ txt " has no qudo symbols; not a merged build"] else []) ++
      (if ns ≠ txt "0" ∧ ns ≠ txt "-1" then
        [txt "FATAL: " ++ h.s ++ txt " has " ++ ns ++ txt " qudo symbols; not a pristine tree"]
        else [])
    (fatal, if fatal = [] then 0 else 1)

/-! ## What a count says -/

-- The tree has a library, and nothing that `strings` prints of it has a marker.
def Unmarked (h : Trees) (d : Text) : Prop :=
  ∃ lib, h.libcrypto d = some lib ∧ ∀ l ∈ h.strings lib, hasMarker l = false

def Marked (h : Trees) (d : Text) : Prop :=
  ∃ lib, h.libcrypto d = some lib ∧ ∃ l ∈ h.strings lib, hasMarker l = true

theorem qudoSymbols_eq_zero_iff (h : Trees) (d : Text) :
    h.qudoSymbols d = txt "0" ↔ h.Unmarked d := by
  unfold qudoSymbols Unmarked
  cases h.libcrypto d with
  | none => simp [txt]
  | some lib =>
      have hzero : txt "0" = decimal 0 := rfl
      rw [hzero, decimal_injective.eq_iff, List.countP_eq_zero]
      simp

theorem qudoSymbols_eq_absent_iff (h : Trees) (d : Text) :
    h.qudoSymbols d = txt "-1" ↔ h.libcrypto d = none := by
  unfold qudoSymbols
  cases h.libcrypto d with
  | none => simp
  | some lib =>
      -- a number has no minus sign
      have hminus : '-' ∉ decimal ((h.strings lib).countP hasMarker) := notMem_decimal rfl _
      have hne : decimal ((h.strings lib).countP hasMarker) ≠ txt "-1" := by
        intro heq
        rw [heq] at hminus
        simp [txt] at hminus
      simp [hne]

theorem qudoSymbols_positive_iff (h : Trees) (d : Text) :
    h.qudoSymbols d ≠ txt "0" ∧ h.qudoSymbols d ≠ txt "-1" ↔ h.Marked d := by
  rw [Ne, Ne, qudoSymbols_eq_zero_iff, qudoSymbols_eq_absent_iff]
  unfold Unmarked Marked
  cases h.libcrypto d with
  | none => simp
  | some lib => simp

/-! ## What is refused -/

/-- Something of what is there is refused. -/
def Refused (h : Trees) : Prop :=
  h.isExec h.q = false ∨ h.isExec h.s = false ∨ h.shellPath h.q = h.shellPath h.s ∨
    h.Unmarked h.q ∨ h.Marked h.s

theorem missing_ne_nil_iff (h : Trees) :
    ([h.q, h.s].filter fun d => !h.isExec d) ≠ [] ↔
      h.isExec h.q = false ∨ h.isExec h.s = false := by
  rw [Ne, List.filter_eq_nil_iff, not_iff_comm]
  simp

-- One message and the test in front of it.
theorem message_eq_nil_iff (c : Prop) [Decidable c] (m : Text) :
    (if c then [m] else []) = [] ↔ ¬ c := by
  by_cases hc : c <;> simp [hc]

theorem benchVerify_eq_zero_iff (h : Trees) : h.benchVerify.2 = 0 ↔ ¬ h.Refused := by
  unfold benchVerify Refused
  rw [← or_assoc, ← missing_ne_nil_iff]
  by_cases hmissing : ([h.q, h.s].filter fun d => !h.isExec d) ≠ []
  · rw [if_pos hmissing]
    exact iff_of_false Nat.one_ne_zero fun hno => hno (.inl hmissing)
  · rw [if_neg hmissing, or_iff_right hmissing, ← qudoSymbols_eq_zero_iff,
      ← qudoSymbols_positive_iff, not_or, not_or]
    simp only [ite_eq_left_iff, Nat.one_ne_zero, imp_false, not_not, List.append_eq_nil_iff,
      message_eq_nil_iff, and_assoc]

/-! ## What a comparison needs -/

/-- `strings` read the tree's library. -/
def Inspected (h : Trees) (d : Text) : Prop :=
  ∃ lib, h.libcrypto d = some lib ∧ h.reads lib = true

/-- The tree's `apps/openssl` can be run. -/
def isProgram (h : Trees) (d : Text) : Bool :=
  (h.dir d).any fun i => h.fs.isProgram i opensslProgram

/-- The tree's `apps/openssl` is a directory, which `-x` takes for an executable. -/
def opensslIsDir (h : Trees) (d : Text) : Bool :=
  (h.dir d).any fun i => (h.fs.dirAt i opensslProgram).isSome

/-- Two builds whose identity is known: `$Q` a merged one, `$S` a pristine one. -/
structure Established (h : Trees) : Prop where
  programs : h.isProgram h.q = true ∧ h.isProgram h.s = true
  distinct : h.dir h.q ≠ h.dir h.s
  inspected : h.Inspected h.q ∧ h.Inspected h.s
  merged : ∃ lib, h.libcrypto h.q = some lib ∧ ∃ l ∈ h.printable lib, hasMarker l = true
  pristine : ∃ lib, h.libcrypto h.s = some lib ∧ ∀ l ∈ h.printable lib, hasMarker l = false

theorem isProgram_iff (h : Trees) (d : Text) :
    h.isProgram d = true ↔ h.isExec d = true ∧ h.opensslIsDir d = false := by
  unfold isProgram isExec opensslIsDir
  cases h.dir d with
  | none => simp
  | some i =>
      simp only [Option.any_some, FS.isProgram_iff]
      cases h.fs.dirAt i opensslProgram <;> simp

-- One directory has one library, so the two counts of a build compared with itself agree.
theorem dir_ne_of_marked {h : Trees} {d e : Text} (hd : h.Marked d) (he : h.Unmarked e) :
    h.dir d ≠ h.dir e := by
  intro hdir
  obtain ⟨lib, hlib, l, hl, hmarker⟩ := hd
  obtain ⟨lib', hlib', hnone⟩ := he
  have hsame : h.libcrypto d = h.libcrypto e := by
    unfold libcrypto
    rw [hdir]
  rw [hsame, hlib'] at hlib
  cases hlib
  rw [hnone l hl] at hmarker
  cases hmarker

theorem strings_of_reads {h : Trees} {lib : Nat} (hreads : h.reads lib = true) :
    h.strings lib = h.printable lib := if_pos hreads

-- An inspected library was counted, so it is on one side or the other.
theorem marked_iff_of_inspected {h : Trees} {d : Text} (hd : h.Inspected d) :
    h.Marked d ↔ ¬ h.Unmarked d := by
  obtain ⟨lib, hlib, _⟩ := hd
  simp [Marked, Unmarked, hlib]

theorem established_of_not_refused {h : Trees} (hok : ¬ h.Refused)
    (hdir : h.opensslIsDir h.q = false ∧ h.opensslIsDir h.s = false)
    (hq : h.Inspected h.q) (hs : h.Inspected h.s) : h.Established := by
  simp only [Refused, not_or, Bool.not_eq_false] at hok
  obtain ⟨hexecq, hexecs, _, hmq, hms⟩ := hok
  have hmarked : h.Marked h.q := (marked_iff_of_inspected hq).mpr hmq
  have hunmarked : h.Unmarked h.s := by
    by_contra hcon
    exact hms ((marked_iff_of_inspected hs).mpr hcon)
  refine ⟨⟨?_, ?_⟩, dir_ne_of_marked hmarked hunmarked, ⟨hq, hs⟩, ?_, ?_⟩
  · exact (h.isProgram_iff h.q).mpr ⟨hexecq, hdir.1⟩
  · exact (h.isProgram_iff h.s).mpr ⟨hexecs, hdir.2⟩
  · obtain ⟨lib, hlib, hreads⟩ := hq
    obtain ⟨lib', hlib', l, hl, hmarker⟩ := hmarked
    rw [hlib] at hlib'
    cases hlib'
    rw [strings_of_reads hreads] at hl
    exact ⟨lib, hlib, l, hl, hmarker⟩
  · obtain ⟨lib, hlib, hreads⟩ := hs
    obtain ⟨lib', hlib', hnone⟩ := hunmarked
    rw [hlib] at hlib'
    cases hlib'
    rw [strings_of_reads hreads] at hnone
    exact ⟨lib, hlib, hnone⟩

/-- A success of `bench_verify` establishes two different builds exactly when one of its checks
refuses what is there, or no `apps/openssl` is a directory and `strings` reads a `libcrypto` in each
tree. -/
theorem benchVerify_establishes_iff (h : Trees) :
    (h.benchVerify.2 = 0 → h.Established) ↔
      h.Refused ∨
        ((h.opensslIsDir h.q = false ∧ h.opensslIsDir h.s = false) ∧
          h.Inspected h.q ∧ h.Inspected h.s) := by
  rw [benchVerify_eq_zero_iff]
  constructor
  · intro himp
    by_cases hok : h.Refused
    · exact .inl hok
    · have hest := himp hok
      have hprogq := (h.isProgram_iff h.q).mp hest.programs.1
      have hprogs := (h.isProgram_iff h.s).mp hest.programs.2
      exact .inr ⟨⟨hprogq.2, hprogs.2⟩, hest.inspected⟩
  · intro hcond hok
    rcases hcond with href | ⟨hdir, hq, hs⟩
    · exact absurd href hok
    · exact established_of_not_refused hok hdir hq hs

/-- One build without shared libraries, at `/build`, and the link `/stock` to it. -/
def linkedBuild : Trees where
  fs :=
    { nodes :=
        [.dir 0 [(txt "build", 1), (txt "stock", 4)], .dir 0 [(txt "apps", 2)],
          .dir 1 [(txt "openssl", 3)], .file true, .link (txt "build")],
      symloopMax := 40 }
  cwd := ⟨0, txt "/"⟩
  printable := fun _ => []
  reads := fun _ => true
  root := txt "/"
  q := txt "/build"
  s := txt "/stock"

-- The build is compared with itself.
theorem benchVerify_passes_linkedBuild :
    linkedBuild.benchVerify = ([], 0) ∧
      linkedBuild.dir linkedBuild.q = linkedBuild.dir linkedBuild.s ∧
      ¬ linkedBuild.Established := by
  have hsame : linkedBuild.dir linkedBuild.q = linkedBuild.dir linkedBuild.s := by decide
  refine ⟨by decide, hsame, ?_⟩
  intro hest
  exact hest.distinct hsame

end Trees

end QudoSSL
