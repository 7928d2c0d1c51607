import QudoSSL.Posix.Grep
import QudoSSL.Posix.Tree

/-!
# `make verify-pristine`

The gate over the two vendored trees.  For each tree that has a `Configure` it counts `QUDO` in the
four files QudoSSL Community patches, looks for the delegation guard in every file and for build
metadata in `VERSION.dat`; for `openssl-fips/` it also asks git whether the working tree differs
from the submodule's index.
-/

namespace QudoSSL

open Posix

/-- What the recipe reads: the working trees, untracked files included, and the submodule's own
index where git answers inside `openssl-fips/`. -/
structure Checkout where
  openssl : Tree
  fips : Tree
  git : Option Tree

def configureFile : Text := txt "Configure"

def patchedFiles : List Text :=
  [configureFile, txt "crypto/ml_kem/ml_kem.c", txt "crypto/ml_dsa/ml_dsa_key.c",
    txt "crypto/ml_dsa/ml_dsa_sign.c"]

def versionDat : Text := txt "VERSION.dat"

def qudo : Text := txt "QUDO"
def delegateGuard : Text := txt "QUDO_PQC_DELEGATE"
def metadataKey : Text := txt "BUILD_METADATA="

/-- The extended expression `\+qudo|QudoSSL`. -/
def vendorStamp : Pattern := lit (txt "+qudo") ++ lit (txt "QudoSSL")

def fipsProvider : Text := txt "OpenSSL FIPS Provider"

def fipsVersion : Text := txt "3.5.4"

def qudoCount (t : Tree) (f : Text) : Nat :=
  -- n=$(grep -c QUDO "$tree/$f" 2>/dev/null || true); n=${n:-0}
  match t.lookup f with
  | none => 0
  | some c => grepCount (lit qudo) c

def delegateFiles (t : Tree) : Nat :=
  -- grep -rl QUDO_PQC_DELEGATE "$tree" | wc -l
  t.files.countP fun e => grepCount (lit delegateGuard) e.2 != 0

/-- `sed -n 's/^KEY//p'` on one line. -/
def sedStrip (key l : Text) : Option Text :=
  if key <+: l then some (l.drop key.length) else none

def buildMetadata (t : Tree) : Text :=
  -- bm=$(sed -n 's/^BUILD_METADATA=//p' "$tree/VERSION.dat")
  match t.lookup versionDat with
  | none => []
  | some c => substitute (((lines c).filterMap (sedStrip metadataKey)).map terminate).flatten

/-- The lines one tree adds to the report; each of them also sets `bad`. -/
def treeFails (path : Text) (t : Tree) : List Text :=
  (patchedFiles.filter fun f => qudoCount t f != 0).map
      (fun f => txt "  FAIL " ++ path ++ txt "/" ++ f ++ txt " carries " ++
        decimal (qudoCount t f) ++ txt " QUDO references") ++
    (if delegateFiles t ≠ 0 then
      [txt "  FAIL " ++ path ++ txt ": delegation guard present in " ++ decimal (delegateFiles t) ++
        txt " file(s)"]
    else []) ++
    (if buildMetadata t ≠ [] then
      [txt "  FAIL " ++ path ++ txt ": VERSION.dat BUILD_METADATA=" ++ buildMetadata t ++
        txt " (must be empty)"]
    else [])

/-- One round of the loop over the trees: a tree without `Configure` is passed over with a note. -/
def checkTree (acc : List Text × Bool) (tree : Text × Tree) : List Text × Bool :=
  if tree.2.lookup configureFile = none then
    (acc.1 ++ [txt "  note: " ++ basename tree.1 ++
      txt " not materialised — skipped (run 'make fips-src')"], acc.2)
  else (acc.1 ++ treeFails tree.1 tree.2, acc.2 || !(treeFails tree.1 tree.2).isEmpty)

/-- `git diff --quiet` inside the submodule: tracked files only, working tree against index. -/
def gitDiffQuiet (index worktree : Tree) : Bool :=
  index.files.all fun e => worktree.lookup e.1 == some e.2

def submoduleDiffers (s : Checkout) : Bool :=
  -- [ -f openssl-fips/Configure ] && git rev-parse ... && ! git diff --quiet
  (s.fips.lookup configureFile).isSome &&
    match s.git with
    | none => false
    | some index => !gitDiffQuiet index s.fips

/-- The recipe: what it prints and its exit status. -/
def verifyPristine (root : Text) (s : Checkout) : List Text × Nat :=
  let loop := [(root ++ txt "/openssl", s.openssl), (root ++ txt "/openssl-fips", s.fips)].foldl
    checkTree ([txt "==> checking vendored trees carry no vendor modifications"], false)
  let (out, bad) :=
    if submoduleDiffers s then
      (loop.1 ++ [txt "  FAIL openssl-fips: submodule working tree differs from its pinned commit"],
        true)
    else loop
  if bad then (out, 1) else (out ++ [txt "  OK — vendored trees are unmodified upstream"], 0)

/-! ## What the gate sees -/

def Materialised (t : Tree) : Prop := t.lookup configureFile ≠ none

/-- The tree carries one of the marks the gate looks for. -/
def Marked (t : Tree) : Prop :=
  (∃ f ∈ patchedFiles, ∃ c, t.lookup f = some c ∧ qudo <:+: c) ∨
    (∃ p c, t.lookup p = some c ∧ delegateGuard <:+: c) ∨
    ∃ c, t.lookup versionDat = some c ∧ ∃ l ∈ lines c, metadataKey <+: l ∧ l ≠ metadataKey

/-- A file the submodule tracks is not what its index says. -/
def TrackedDiffers (s : Checkout) : Prop :=
  ∃ index ∈ s.git, ∃ p, index.lookup p ≠ none ∧ s.fips.lookup p ≠ index.lookup p

/-- The gate has something to report. -/
def Trips (s : Checkout) : Prop :=
  (Materialised s.openssl ∧ Marked s.openssl) ∨
    (Materialised s.fips ∧ (Marked s.fips ∨ TrackedDiffers s))

theorem qudoCount_ne_zero_iff (t : Tree) (f : Text) :
    qudoCount t f ≠ 0 ↔ ∃ c, t.lookup f = some c ∧ qudo <:+: c := by
  unfold qudoCount
  cases h : t.lookup f with
  | none => simp
  | some c => simp [grepCount_lit_eq_zero_iff (by decide : qudo ≠ []) (by decide)]

theorem delegateFiles_ne_zero_iff (t : Tree) :
    delegateFiles t ≠ 0 ↔ ∃ p c, t.lookup p = some c ∧ delegateGuard <:+: c := by
  unfold delegateFiles
  rw [ne_eq, List.countP_eq_zero]
  simp only [t.lookup_eq_some_iff, bne_iff_ne, ne_eq, Prod.forall,
    grepCount_lit_eq_zero_iff (by decide : delegateGuard ≠ []) (by decide), not_not]
  push Not
  rfl

theorem buildMetadata_ne_nil_iff (t : Tree) :
    buildMetadata t ≠ [] ↔
      ∃ c, t.lookup versionDat = some c ∧ ∃ l ∈ lines c, metadataKey <+: l ∧ l ≠ metadataKey := by
  unfold buildMetadata
  cases h : t.lookup versionDat with
  | none => simp
  | some c =>
      rw [substitute_flatten_ne_nil_iff]
      · simp only [List.mem_filterMap, sedStrip, Option.ite_none_right_eq_some, Option.some.injEq,
          exists_eq_left']
        constructor
        · rintro ⟨m, ⟨l, hl, hpre, rfl⟩, hne⟩
          refine ⟨l, hl, hpre, ?_⟩
          rintro rfl
          simp at hne
        · rintro ⟨l, hl, hpre, hne⟩
          refine ⟨_, ⟨l, hl, hpre, rfl⟩, fun hd => hne ?_⟩
          obtain ⟨r, rfl⟩ := hpre
          simpa using hd
      · intro m hm
        obtain ⟨l, hl, hs⟩ := List.mem_filterMap.mp hm
        simp only [sedStrip, Option.ite_none_right_eq_some, Option.some.injEq] at hs
        rw [← hs.2]
        exact fun hn => newline_notMem_of_mem_lines hl (List.mem_of_mem_drop hn)

-- A tree adds a line to the report exactly when it is marked.
theorem treeFails_ne_nil_iff (path : Text) (t : Tree) : treeFails path t ≠ [] ↔ Marked t := by
  unfold treeFails Marked
  rw [← delegateFiles_ne_zero_iff, ← buildMetadata_ne_nil_iff]
  simp only [← qudoCount_ne_zero_iff, ne_eq, List.append_eq_nil_iff, List.map_eq_nil_iff,
    List.filter_eq_nil_iff, bne_iff_ne, not_and_or, not_not]
  by_cases h₂ : delegateFiles t = 0 <;> by_cases h₃ : buildMetadata t = [] <;> simp [h₂, h₃]

theorem gitDiffQuiet_iff (index worktree : Tree) :
    gitDiffQuiet index worktree = true ↔
      ∀ p, index.lookup p ≠ none → worktree.lookup p = index.lookup p := by
  rw [← Tree.forall_mem_lookup_iff]
  simp [gitDiffQuiet]

theorem submoduleDiffers_iff (s : Checkout) :
    submoduleDiffers s = true ↔ Materialised s.fips ∧ TrackedDiffers s := by
  unfold submoduleDiffers Materialised TrackedDiffers
  cases s.git with
  | none => simp
  | some index =>
      rw [Bool.and_eq_true, Option.isSome_iff_ne_none, Bool.not_eq_true', ← Bool.not_eq_true,
        gitDiffQuiet_iff]
      simp

theorem checkTree_bad_iff (acc : List Text × Bool) (path : Text) (t : Tree) :
    (checkTree acc (path, t)).2 = true ↔ acc.2 = true ∨ (Materialised t ∧ Marked t) := by
  unfold checkTree Materialised
  by_cases hc : t.lookup configureFile = none
  · simp [hc]
  · simp [hc, ← treeFails_ne_nil_iff path t]

-- The gate succeeds exactly when it has nothing to report.
theorem verifyPristine_status_iff (root : Text) (s : Checkout) :
    (verifyPristine root s).2 = 0 ↔ ¬ Trips s := by
  have hloop : ∀ acc : List Text × Bool, acc.2 = false →
      (([(root ++ txt "/openssl", s.openssl), (root ++ txt "/openssl-fips", s.fips)].foldl
        checkTree acc).2 = true ↔
        (Materialised s.openssl ∧ Marked s.openssl) ∨ (Materialised s.fips ∧ Marked s.fips)) := by
    intro acc hacc
    simp only [List.foldl_cons, List.foldl_nil, checkTree_bad_iff, hacc, Bool.false_eq_true,
      false_or]
  have hloop := hloop ([txt "==> checking vendored trees carry no vendor modifications"], false) rfl
  have hsub := submoduleDiffers_iff s
  unfold verifyPristine Trips
  by_cases hd : submoduleDiffers s = true
  · have htracked := hsub.mp hd
    simp [hd, htracked.1, htracked.2]
  · have hnot := fun h => hd (hsub.mpr h)
    rw [Bool.not_eq_true] at hd
    simp only [hd, Bool.false_eq_true, if_false]
    rw [and_or_left, ← or_assoc, ← hloop, or_iff_left hnot]
    split <;> simp_all

/-! ## The libraries' tree against its upstream release -/

/-- Success of the gate means that `openssl/` was examined and is the upstream release, exactly when
the gate has a mark to report or the tree is there and is that release: an edit, an addition or a
deletion that leaves no mark passes, and so does any tree without `Configure`. -/
theorem verifyPristine_upstream_iff (root : Text) (s : Checkout) (upstream : Tree) :
    ((verifyPristine root s).2 = 0 → Materialised s.openssl ∧ s.openssl.Same upstream) ↔
      (Trips s ∨ (Materialised s.openssl ∧ s.openssl.Same upstream)) := by
  rw [verifyPristine_status_iff]
  exact imp_iff_not_or.trans (by rw [not_not])

/-- An edit to `ssl/ssl_lib.c`, which is not among the four files. -/
def editedSource : Tree :=
  ⟨[(configureFile, txt "#! perl"), (txt "ssl/ssl_lib.c", txt "return 1;")], by decide⟩

def releasedSource : Tree :=
  ⟨[(configureFile, txt "#! perl"), (txt "ssl/ssl_lib.c", txt "return verify();")], by decide⟩

/-- The edited tree passes as unmodified upstream. -/
theorem verifyPristine_passes_edit :
    (verifyPristine (txt "/r") ⟨editedSource, releasedSource, none⟩).2 = 0 ∧
      ¬ editedSource.Same releasedSource := by
  refine ⟨by decide, fun h => ?_⟩
  exact absurd (h (txt "ssl/ssl_lib.c")) (by decide)

/-! ## The submodule against its pin -/

section Submodule

variable {Commit : Type}

/-- The checked-out commit, the index and the working tree of `openssl-fips/`. -/
structure Submodule (Commit : Type) where
  head : Commit
  index : Tree
  worktree : Tree

/-- The two places in which the superproject names a commit for `openssl-fips`. -/
structure Superproject (Commit : Type) where
  headLink : Commit
  indexLink : Commit

inductive PinRecord where
  | head
  | index

def Superproject.pin (sp : Superproject Commit) : PinRecord → Commit
  | .head => sp.headLink
  | .index => sp.indexLink

/-- What the gate reads of a checkout with this submodule. -/
def Submodule.checkout (sub : Submodule Commit) (openssl : Tree) (gitAnswers : Bool) : Checkout :=
  ⟨openssl, sub.worktree, if gitAnswers then some sub.index else none⟩

/-- The index records the pinned content for every file it tracks, and the paths it does not track
are as the pinned commit has them. -/
def IndexPinned (index worktree pinned : Tree) : Prop :=
  (∀ p, index.lookup p ≠ none → index.lookup p = pinned.lookup p) ∧
    ∀ p, index.lookup p = none → worktree.lookup p = pinned.lookup p

-- Over a working tree that `git diff` finds clean, being the pinned content is a matter of the
-- index and of the untracked paths.
theorem same_iff_indexPinned {index worktree : Tree} (pinned : Tree)
    (hclean : gitDiffQuiet index worktree = true) :
    worktree.Same pinned ↔ IndexPinned index worktree pinned := by
  rw [gitDiffQuiet_iff] at hclean
  constructor
  · intro h
    exact ⟨fun p hp => (hclean p hp).symm.trans (h p), fun p _ => h p⟩
  · rintro ⟨htracked, hother⟩ p
    by_cases hp : index.lookup p = none
    · exact hother p hp
    · exact (hclean p hp).trans (htracked p hp)

/-- Success of the gate means that the submodule's working tree is the pinned commit's, whichever of
the two records is taken for the pin, exactly when the gate trips or the index carries the pinned
content and nothing stands beside it.  The checked-out commit plays no part; and where `git diff`
is not consulted, the working tree has to be the pinned content by itself. -/
theorem verifyPristine_pinned_iff (root : Text) (openssl : Tree) (sp : Superproject Commit)
    (sub : Submodule Commit) (objects : Commit → Tree) (record : PinRecord) (gitAnswers : Bool) :
    ((verifyPristine root (sub.checkout openssl gitAnswers)).2 = 0 →
        sub.worktree.Same (objects (sp.pin record))) ↔
      (Trips (sub.checkout openssl gitAnswers) ∨
        (gitAnswers = true ∧ Materialised sub.worktree ∧
          IndexPinned sub.index sub.worktree (objects (sp.pin record))) ∨
        (¬ (gitAnswers = true ∧ Materialised sub.worktree) ∧
          sub.worktree.Same (objects (sp.pin record)))) := by
  rw [verifyPristine_status_iff, imp_iff_not_or, not_not]
  by_cases htrips : Trips (sub.checkout openssl gitAnswers)
  · simp only [htrips, true_or]
  simp only [htrips, false_or]
  by_cases hdiff : gitAnswers = true ∧ Materialised sub.worktree
  · obtain ⟨hgit, hmat⟩ := hdiff
    subst hgit
    have hclean : gitDiffQuiet sub.index sub.worktree = true := by
      by_contra hd
      rw [Bool.not_eq_true] at hd
      apply htrips
      refine Or.inr ⟨hmat, Or.inr ((submoduleDiffers_iff _).mp ?_).2⟩
      simp [submoduleDiffers, Submodule.checkout, Option.isSome_iff_ne_none.mpr hmat, hd]
    simp [same_iff_indexPinned _ hclean, hmat]
  · simp only [hdiff, not_false_eq_true, true_and]
    exact ⟨Or.inr, fun h => h.elim (fun h => absurd ⟨h.1, h.2.1⟩ hdiff) id⟩

end Submodule

/-- A submodule with another commit checked out, cleanly: index and working tree are that
commit's. -/
def otherCommit : Submodule Nat := ⟨354, editedSource, editedSource⟩

def gitObjects : Nat → Tree
  | 353 => releasedSource
  | _ => editedSource

/-- The superproject pins 353, the submodule has 354 checked out, and the gate succeeds. -/
theorem verifyPristine_passes_other_commit :
    (verifyPristine (txt "/r") (otherCommit.checkout releasedSource true)).2 = 0 ∧
      ¬ otherCommit.worktree.Same (gitObjects ((⟨353, 353⟩ : Superproject Nat).pin .head)) := by
  refine ⟨by decide, fun h => ?_⟩
  exact absurd (h (txt "ssl/ssl_lib.c")) (by decide)

end QudoSSL
