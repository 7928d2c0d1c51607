import Mathlib.Data.Prod.Lex
import QudoSSL.Posix.Shell
import QudoSSL.Posix.Sort

/-!
# The newest of the unpacked releases

`_newest` of `lib.sh` walks the directories a glob lists and keeps the best one in a variable.  Each
round prints the two directories it has, puts a key of three padded numbers in front of each
line, sorts the lines as text and takes the last.  The glob is expanded without quotes, so the shell
splits it into words before it looks for directories.
-/

namespace QudoSSL

open Posix

/-- The first three numbers of a path's last component, nine digits each: the `awk` program up to
the tab. -/
def releaseKey (l : Text) : Text :=
  -- awk -F/: $NF is the last component, and v[1] is what stands before the first separator
  let v := splitRuns (fun c => !c.isDigit) ((l.splitOn '/').getLastD [])
  zeroPad 9 (digitsValue (v.getD 1 [])) ++ zeroPad 9 (digitsValue (v.getD 2 [])) ++
    zeroPad 9 (digitsValue (v.getD 3 []))

/-- One round of the loop, for a directory that has the file. -/
def newer (C : Collation) (best d : Text) : Text :=
  let nonempty := (lines (terminate best ++ terminate d)).filter (· ≠ [])
  let keyed := nonempty.map fun l => releaseKey l ++ '\t' :: l
  let last := (C.sort keyed).getLast?
  substitute ((last.map fun l => terminate (cutAfterTab l)).getD [])

/-- The paths that a pattern matches, and `[ -e ... ]`. -/
structure Disk where
  glob : Text → List Text
  exist : Text → Bool

/-- What `for d in $1` goes through.  A word that matches nothing stays as it is. -/
def Disk.listed (k : Disk) (pattern : Text) : List Text :=
  (words pattern).flatMap fun w => if k.glob w = [] then [w] else k.glob w

/-- The loop of `_newest` over the directories `ds`. -/
def newestOf (C : Collation) (exist : Text → Bool) (file : Text) (ds : List Text) : Text :=
  ds.foldl (fun best d => if exist (d ++ '/' :: file) then newer C best d else best) []

/-- `_newest`, with `pattern` for `$1` and `file` for `$2`. -/
def newest (C : Collation) (k : Disk) (pattern file : Text) : Text :=
  newestOf C k.exist file (k.listed pattern)

def pattern35 (root : Text) : Text := root ++ txt "/openssl_source/openssl-3.5.*"

def pattern3 (root : Text) : Text := root ++ txt "/openssl_source/openssl-3.*"

/-- `$S`: the variable if it is set, or the newest 3.5 release that has been built, or the newest 3
release. -/
def stockTree (C : Collation) (k : Disk) (stockDir root : Text) : Text :=
  let s := if stockDir ≠ [] then stockDir
    else substitute (newest C k (pattern35 root) (txt "apps/openssl"))
  if s ≠ [] then s else substitute (newest C k (pattern3 root) (txt "apps/openssl"))

/-! ## Release directories -/

/-- A decimal number below 10^9 as it stands in a name, perhaps with leading zeros. -/
structure Component where
  text : Text
  ne_nil : text ≠ []
  digits : AllDigits text
  small : digitsValue text < 10 ^ 9

/-- A directory `openssl-a.b.c`, here or below another. -/
structure Candidate where
  parent : Option Text
  major : Component
  minor : Component
  patch : Component

namespace Candidate

def name (c : Candidate) : Text :=
  txt "openssl-" ++ (c.major.text ++ '.' :: (c.minor.text ++ '.' :: c.patch.text))

def path (c : Candidate) : Text :=
  match c.parent with
  | none => c.name
  | some p => p ++ '/' :: c.name

def version (c : Candidate) : ℕ ×ₗ ℕ ×ₗ ℕ :=
  toLex (digitsValue c.major.text, toLex (digitsValue c.minor.text, digitsValue c.patch.text))

end Candidate

theorem Component.notMem (n : Component) {c : Char} (hc : c.isDigit = false) : c ∉ n.text := by
  intro hmem
  rw [n.digits c hmem] at hc
  cases hc

theorem Component.not_separator (n : Component) : ∀ c ∈ n.text, (!c.isDigit) = false := by
  intro c hc
  rw [n.digits c hc]
  rfl

theorem Component.head_not_separator (n : Component) (t : Text) :
    (n.text ++ t).head?.any (fun c => !c.isDigit) = false := by
  obtain ⟨c, cs, hcs⟩ := List.exists_cons_of_ne_nil n.ne_nil
  have hc := n.not_separator c (by rw [hcs]; exact List.mem_cons_self)
  rw [hcs, List.cons_append, List.head?_cons, Option.any_some]
  exact hc

theorem Component.length_zeroPad (n : Component) : (zeroPad 9 (digitsValue n.text)).length = 9 :=
  Posix.length_zeroPad (by decide) n.small

namespace Candidate

theorem notMem_name (c : Candidate) {x : Char} (hx : x.isDigit = false) (hdot : x ≠ '.')
    (hname : x ∉ txt "openssl-") : x ∉ c.name := by
  unfold name
  simp only [List.mem_append, List.mem_cons, not_or]
  exact ⟨hname, c.major.notMem hx, hdot, c.minor.notMem hx, hdot, c.patch.notMem hx⟩

theorem path_ne_nil (c : Candidate) : c.path ≠ [] := by
  have hname : c.name ≠ [] := by simp [name, txt]
  unfold path
  cases c.parent with
  | none => exact hname
  | some p => simp

-- `$NF` is the name.
theorem getLast_splitOn_path (c : Candidate) : (c.path.splitOn '/').getLastD [] = c.name := by
  have hname : c.name.splitOn '/' = [c.name] :=
    List.splitOn_eq_singleton (c.notMem_name rfl (by decide) (by decide))
  unfold path
  cases c.parent with
  | none =>
      rw [hname]
      rfl
  | some p =>
      simp only
      rw [List.splitOn_append_cons_self, hname]
      simp

theorem splitRuns_name (c : Candidate) :
    splitRuns (fun x => !x.isDigit) c.name =
      [[], c.major.text, c.minor.text, c.patch.text] := by
  -- the last number ends the name, the other two a dot
  have hpatch : splitRuns (fun x => !x.isDigit) c.patch.text = [c.patch.text] := by
    have h := splitRuns_append_piece c.patch.not_separator []
    rw [List.append_nil] at h
    rw [h]
    simp [splitRuns]
  have hdot : ∀ (n : Component) (t : Text),
      splitRuns (fun x => !x.isDigit) ('.' :: (n.text ++ t)) =
        [] :: splitRuns (fun x => !x.isDigit) (n.text ++ t) := by
    intro n t
    apply splitRuns_append_run (w := ['.'])
    · simp
    · simp
    · exact n.head_not_separator t
  have hletters : ∀ x ∈ txt "openssl-", (!x.isDigit) = true := by simp [txt]
  unfold name
  rw [splitRuns_append_run hletters (List.cons_ne_nil _ _) (c.major.head_not_separator _),
    splitRuns_append_piece c.major.not_separator, hdot,
    splitRuns_append_piece c.minor.not_separator]
  have hlast := hdot c.patch []
  rw [List.append_nil] at hlast
  rw [hlast, hpatch]
  simp

theorem releaseKey_path (c : Candidate) :
    releaseKey c.path = zeroPad 9 (digitsValue c.major.text) ++
      (zeroPad 9 (digitsValue c.minor.text) ++ zeroPad 9 (digitsValue c.patch.text)) := by
  unfold releaseKey
  rw [c.getLast_splitOn_path, c.splitRuns_name, ← List.append_assoc]
  rfl

theorem allDigits_zeroPad_append (w m n : ℕ) : AllDigits (zeroPad w m ++ zeroPad w n) :=
  (allDigits_zeroPad w m).append (allDigits_zeroPad w n)

theorem length_minor_patch (c : Candidate) :
    (zeroPad 9 (digitsValue c.minor.text) ++ zeroPad 9 (digitsValue c.patch.text)).length = 18 := by
  rw [List.length_append, c.minor.length_zeroPad, c.patch.length_zeroPad]

theorem allDigits_releaseKey (c : Candidate) : AllDigits (releaseKey c.path) := by
  rw [releaseKey_path]
  exact (allDigits_zeroPad 9 _).append (allDigits_zeroPad_append 9 _ _)

theorem length_releaseKey (c : Candidate) : (releaseKey c.path).length = 27 := by
  rw [releaseKey_path, List.length_append, c.major.length_zeroPad, c.length_minor_patch]

/-- The key embeds the order of versions into the order of numbers of 27 digits. -/
theorem digitsValue_releaseKey_lt_iff (a b : Candidate) :
    digitsValue (releaseKey a.path) < digitsValue (releaseKey b.path) ↔ a.version < b.version := by
  have htail :
      (zeroPad 9 (digitsValue a.minor.text) ++ zeroPad 9 (digitsValue a.patch.text)).length =
        (zeroPad 9 (digitsValue b.minor.text) ++ zeroPad 9 (digitsValue b.patch.text)).length := by
    rw [a.length_minor_patch, b.length_minor_patch]
  have hpatch : (zeroPad 9 (digitsValue a.patch.text)).length =
      (zeroPad 9 (digitsValue b.patch.text)).length := by
    rw [a.patch.length_zeroPad, b.patch.length_zeroPad]
  rw [releaseKey_path, releaseKey_path,
    digitsValue_append_lt_iff (allDigits_zeroPad_append 9 _ _) (allDigits_zeroPad_append 9 _ _)
      htail,
    digitsValue_append_lt_iff (allDigits_zeroPad 9 _) (allDigits_zeroPad 9 _) hpatch]
  simp only [digitsValue_zeroPad]
  unfold version
  rw [Prod.Lex.toLex_lt_toLex, Prod.Lex.toLex_lt_toLex]

-- The line with the greater version sorts last.
theorem version_le_of_le (C : Collation) (a b : Candidate) :
    if C.le (releaseKey a.path ++ '\t' :: a.path) (releaseKey b.path ++ '\t' :: b.path) then
      a.version ≤ b.version
    else b.version ≤ a.version := by
  have hkey := fun (x y : Candidate) (hlt : x.version < y.version) =>
    C.le_of_digitsValue_lt x.allDigits_releaseKey y.allDigits_releaseKey
      (x.length_releaseKey.trans y.length_releaseKey.symm)
      ((digitsValue_releaseKey_lt_iff x y).mpr hlt) ('\t' :: x.path) ('\t' :: y.path)
  split
  · next hle =>
    apply not_lt.mp
    intro hlt
    rw [(hkey b a hlt).2] at hle
    cases hle
  · next hle =>
    apply not_lt.mp
    intro hlt
    exact hle (hkey a b hlt).1

end Candidate

/-! ## One round -/

theorem cutAfterTab_keyed (c : Candidate) :
    cutAfterTab (releaseKey c.path ++ '\t' :: c.path) = c.path := by
  apply cutAfterTab_append
  intro htab
  have hdigit := c.allDigits_releaseKey '\t' htab
  cases hdigit

theorem newer_nil (C : Collation) {c : Candidate} (hc : '\n' ∉ c.path) :
    newer C [] c.path = c.path := by
  have hlines : lines (terminate [] ++ terminate c.path) = [[], c.path] := by
    rw [lines_terminate_append List.not_mem_nil, lines_terminate hc]
  unfold newer
  simp only [hlines]
  have hfilter : [[], c.path].filter (· ≠ []) = [c.path] := by simp [c.path_ne_nil]
  rw [hfilter]
  show substitute (terminate (cutAfterTab (releaseKey c.path ++ '\t' :: c.path))) = c.path
  rw [cutAfterTab_keyed, substitute_terminate hc]

/-- A round keeps one of the two directories, and one whose version is at least the other's. -/
theorem newer_path (C : Collation) {a b : Candidate} (ha : '\n' ∉ a.path) (hb : '\n' ∉ b.path) :
    ∃ m, (m = a ∨ m = b) ∧ newer C a.path b.path = m.path ∧
      a.version ≤ m.version ∧ b.version ≤ m.version := by
  have hlines : lines (terminate a.path ++ terminate b.path) = [a.path, b.path] := by
    rw [lines_terminate_append ha, lines_terminate hb]
  have hfilter : [a.path, b.path].filter (· ≠ []) = [a.path, b.path] := by
    simp [a.path_ne_nil, b.path_ne_nil]
  have horder := Candidate.version_le_of_le C a b
  unfold newer
  simp only [hlines, hfilter, List.map_cons, List.map_nil, C.getLast_sort_pair, Option.map_some,
    Option.getD_some]
  by_cases hle : C.le (releaseKey a.path ++ '\t' :: a.path) (releaseKey b.path ++ '\t' :: b.path)
  · rw [if_pos hle] at horder ⊢
    rw [cutAfterTab_keyed, substitute_terminate hb]
    exact ⟨b, .inr rfl, rfl, horder, le_refl _⟩
  · rw [if_neg hle] at horder ⊢
    rw [cutAfterTab_keyed, substitute_terminate ha]
    exact ⟨a, .inl rfl, rfl, le_refl _, horder⟩

/-! ## The whole loop -/

section Loop

variable (C : Collation) (exist : Text → Bool) (file : Text)

/-- The directory contains the file. -/
def Candidate.Has (c : Candidate) : Prop := exist (c.path ++ '/' :: file) = true

/-- What the loop's variable holds after these directories. -/
def Best (cs : List Candidate) (best : Text) : Prop :=
  (best = [] ∧ ∀ c ∈ cs, ¬ c.Has exist file) ∨
    ∃ c ∈ cs, c.Has exist file ∧ best = c.path ∧
      ∀ c' ∈ cs, c'.Has exist file → c'.version ≤ c.version

variable {exist file}

theorem Best.skip {cs : List Candidate} {best : Text} (h : Best exist file cs best)
    {c : Candidate} (hc : ¬ c.Has exist file) : Best exist file (cs ++ [c]) best := by
  rcases h with ⟨hbest, hnone⟩ | ⟨m, hm, hhas, hbest, hmax⟩
  · refine .inl ⟨hbest, ?_⟩
    intro d hd
    rcases List.mem_append.mp hd with hd | hd
    · exact hnone d hd
    · rw [List.mem_singleton.mp hd]
      exact hc
  · refine .inr ⟨m, List.mem_append_left _ hm, hhas, hbest, ?_⟩
    intro d hd hdhas
    rcases List.mem_append.mp hd with hd | hd
    · exact hmax d hd hdhas
    · rw [List.mem_singleton.mp hd] at hdhas
      exact absurd hdhas hc

theorem Best.round {cs : List Candidate} {best : Text} (h : Best exist file cs best)
    {c : Candidate} (hlines : ∀ d ∈ cs ++ [c], '\n' ∉ d.path) (hc : c.Has exist file) :
    Best exist file (cs ++ [c]) (newer C best c.path) := by
  have hlast : c ∈ cs ++ [c] := List.mem_append_right _ (List.mem_singleton.mpr rfl)
  rcases h with ⟨rfl, hnone⟩ | ⟨m, hm, hhas, rfl, hmax⟩
  · refine .inr ⟨c, hlast, hc, newer_nil C (hlines c hlast), ?_⟩
    intro d hd hdhas
    rcases List.mem_append.mp hd with hd | hd
    · exact absurd hdhas (hnone d hd)
    · rw [List.mem_singleton.mp hd]
  · obtain ⟨n, hn, hnewer, hle, hle'⟩ :=
      newer_path C (hlines m (List.mem_append_left _ hm)) (hlines c hlast)
    refine .inr ⟨n, ?_, ?_, hnewer, ?_⟩
    · rcases hn with rfl | rfl
      · exact List.mem_append_left _ hm
      · exact hlast
    · rcases hn with rfl | rfl
      · exact hhas
      · exact hc
    · intro d hd hdhas
      rcases List.mem_append.mp hd with hd | hd
      · exact (hmax d hd hdhas).trans hle
      · rw [List.mem_singleton.mp hd]
        exact hle'

theorem newestOf_append_singleton (ds : List Text) (d : Text) :
    newestOf C exist file (ds ++ [d]) =
      if exist (d ++ '/' :: file) then newer C (newestOf C exist file ds) d
      else newestOf C exist file ds := by
  unfold newestOf
  rw [List.foldl_append]
  rfl

theorem best_newestOf (exist : Text → Bool) (file : Text) (cs : List Candidate)
    (hlines : ∀ c ∈ cs, '\n' ∉ c.path) :
    Best exist file cs (newestOf C exist file (cs.map Candidate.path)) := by
  induction cs using List.reverseRecOn with
  | nil => exact .inl ⟨rfl, fun _ hc => absurd hc List.not_mem_nil⟩
  | append_singleton cs c ih =>
      have hbest := ih fun d hd => hlines d (List.mem_append_left _ hd)
      rw [List.map_append, List.map_singleton, newestOf_append_singleton]
      split
      · next hc => exact hbest.round C hlines hc
      · next hc => exact hbest.skip hc

/-- The release directories `cs` are what the pattern matches.  Where it matches nothing, its own
text is no directory that has the file. -/
structure Disk.Lists (k : Disk) (pattern file : Text) (cs : List Candidate) : Prop where
  pattern_ne_nil : pattern ≠ []
  glob_eq : k.glob pattern = cs.map Candidate.path
  unmatched : cs = [] → k.exist (pattern ++ '/' :: file) = false

/-- The pattern is one word, and the path of each directory is one line. -/
structure Unsplit (pattern : Text) (cs : List Candidate) : Prop where
  word : ∀ c ∈ pattern, ifs c = false
  lines : ∀ c ∈ cs, '\n' ∉ c.path

theorem Disk.Lists.newest_eq {k : Disk} {pattern : Text} {cs : List Candidate}
    (h : k.Lists pattern file cs) (hword : ∀ c ∈ pattern, ifs c = false) :
    newest C k pattern file = newestOf C k.exist file (cs.map Candidate.path) := by
  unfold newest Disk.listed
  rw [words_eq_singleton h.pattern_ne_nil hword, List.flatMap_singleton, h.glob_eq]
  split
  · next hnil =>
    have hcs := List.map_eq_nil_iff.mp hnil
    rw [hcs]
    show (if k.exist (pattern ++ '/' :: file) then newer C [] pattern else []) = []
    rw [h.unmatched hcs]
    rfl
  · rfl

theorem Disk.Lists.best_newest {k : Disk} {pattern : Text} {cs : List Candidate}
    (h : k.Lists pattern file cs) (hu : Unsplit pattern cs) :
    Best k.exist file cs (newest C k pattern file) := by
  rw [h.newest_eq C hu.word]
  exact best_newestOf C k.exist file cs hu.lines

/-- A number of one or two digits. -/
def component (n : Fin 100) : Component where
  text := decimal n
  ne_nil := by revert n; decide
  digits _ hc := isDigit_of_mem_decimal hc
  small := by revert n; decide

/-- The release `openssl-3.5.n` below a directory. -/
def release35 (parent : Text) (n : Fin 100) : Candidate :=
  ⟨some parent, component 3, component 5, component n⟩

/-- Three releases, the last of which has not been built.  As text the first comes after the
second. -/
def unpacked : List Candidate :=
  [release35 (txt "/w/openssl_source") 9, release35 (txt "/w/openssl_source") 10,
    release35 (txt "/w/openssl_source") 11]

theorem Best.substitute_eq {cs : List Candidate} {best : Text} (h : Best exist file cs best)
    (hlines : ∀ c ∈ cs, '\n' ∉ c.path) : substitute best = best := by
  have hlast : '\n' ∉ best := by
    rcases h with ⟨rfl, _⟩ | ⟨c, hc, _, rfl, _⟩
    · exact List.not_mem_nil
    · exact hlines c hc
  apply List.rdropWhile_eq_self_iff.mpr
  intro hne heq
  have hmem := List.getLast_mem hne
  rw [beq_iff_eq.mp heq] at hmem
  exact hlast hmem

/-- Without `STOCK_DIR` the stock tree is the newest 3.5 release that has been built; the other
releases of version 3 count only where there is none. -/
theorem stockTree_newest {k : Disk} {root : Text} {cs35 cs3 : List Candidate}
    (h35 : k.Lists (pattern35 root) (txt "apps/openssl") cs35)
    (h3 : k.Lists (pattern3 root) (txt "apps/openssl") cs3)
    (hu35 : Unsplit (pattern35 root) cs35) (hu3 : Unsplit (pattern3 root) cs3) :
    ((∃ c ∈ cs35, c.Has k.exist (txt "apps/openssl")) →
        Best k.exist (txt "apps/openssl") cs35 (stockTree C k [] root)) ∧
      ((∀ c ∈ cs35, ¬ c.Has k.exist (txt "apps/openssl")) →
        Best k.exist (txt "apps/openssl") cs3 (stockTree C k [] root)) := by
  have hbest35 := h35.best_newest C hu35
  have hbest3 := h3.best_newest C hu3
  unfold stockTree
  rw [if_neg (not_not.mpr rfl), hbest35.substitute_eq hu35.lines, hbest3.substitute_eq hu3.lines]
  constructor
  · rintro ⟨c, hc, hhas⟩
    rcases id hbest35 with ⟨_, hnone⟩ | ⟨m, _, _, hpath, _⟩
    · exact absurd hhas (hnone c hc)
    · have hne : newest C k (pattern35 root) (txt "apps/openssl") ≠ [] := by
        rw [hpath]
        exact m.path_ne_nil
      simp only
      rw [if_pos hne]
      exact hbest35
  · intro hnone
    rcases hbest35 with ⟨hnil, _⟩ | ⟨m, hm, hhas, _⟩
    · simp only
      rw [if_neg (not_not.mpr hnil)]
      exact hbest3
    · exact absurd hhas (hnone m hm)

end Loop

end QudoSSL
