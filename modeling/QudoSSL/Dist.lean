import QudoSSL.Posix.Checked
import QudoSSL.Posix.Shell
import QudoSSL.Pristine

/-!
# `make dist`

The source tarball is `git archive HEAD` of the superproject with `git archive HEAD` of the
submodule put under `openssl-fips/`.  Two of its inputs are not commits: the version, which `sed`
takes from the wrapper in the working tree, and the gitlink in the index, against which
`git submodule status` measures the submodule.
-/

namespace QudoSSL

open Posix

/-! ## The version -/

def versionKey : Text := txt "QUDO_PRODUCT_VERSION=\""

/-- The text before and after the last `"`. -/
def splitLastQuote : Text → Option (Text × Text)
  | [] => none
  | c :: cs =>
      match splitLastQuote cs with
      | some (before, after) => some (c :: before, after)
      | none => if c = '"' then some ([], cs) else none

/-- `sed -n 's/^QUDO_PRODUCT_VERSION="\(.*\)"/\1/p'` on one line. -/
def sedVersion (l : Text) : Option Text :=
  -- the group is greedy, and what stands behind the last quote stays on the line
  (sedStrip versionKey l).bind fun rest =>
    (splitLastQuote rest).map fun (before, after) => before ++ after

def dropCarriageReturns : Text → Text
  | [] => []
  | '\r' :: '\n' :: cs => '\n' :: dropCarriageReturns cs
  | c :: cs => c :: dropCarriageReturns cs

/-- `$(shell ...)`: trailing newlines go, the others become blanks. -/
def makeShell (t : Text) : Text :=
  (substitute (dropCarriageReturns t)).map fun c => if c = '\n' then ' ' else c

/-- `DIST_VERSION`, from the wrapper in the working tree if there is one. -/
def distVersion : Option Text → Text
  | none => []
  | some wrapper => makeShell (((lines wrapper).filterMap sedVersion).map terminate).flatten

def distName (version : Text) : Text := txt "qudossl-" ++ version

def tarballSuffix : Text := txt "-src.tar.gz"

example : distVersion (some (txt "set -e\nQUDO_PRODUCT_VERSION=\"1.0.0\"\n")) = txt "1.0.0" := by
  decide

/-! ## The repository -/

section Dist

variable {Commit : Type}

def fipsDir : Text := txt "openssl-fips/"

/-- The superproject's HEAD commit: its files and the commit it pins for `openssl-fips`, which is a
gitlink, so that no file of the superproject lies below it. -/
structure Head (Commit : Type) where
  files : Tree
  pin : Commit
  apart : ∀ e ∈ files.files, ¬ fipsDir <+: e.1

/-- What is not committed: the working tree's wrapper, the index's gitlink, whether
`openssl-fips/Configure` is there, the submodule's HEAD if it is initialised, and whether
`git submodule update --init` and the commands that pack the tarball work. -/
structure Working (Commit : Type) where
  wrapper : Option Text
  indexLink : Option Commit
  configure : Bool
  submodule : Option Commit
  updates : Bool
  packs : Bool
  /-- What the shell makes of a text with special characters between double quotes; nothing if the
  command line with it cannot be read. -/
  expand : Text → Option Text

/-- A text that the recipe has between double quotes, as the shell reads it. -/
def Working.quoted (w : Working Commit) (t : Text) : Option Text :=
  if t.any specialQuoted then w.expand t else some t

/-- `"$(DIST_VERSION)"`. -/
def Working.version (w : Working Commit) : Option Text := w.quoted (distVersion w.wrapper)

/-- `"$(DIST_NAME)"`, the tarball's directory. -/
def Working.top (w : Working Commit) : Option Text := w.quoted (distName (distVersion w.wrapper))

/-- `"$(DIST_NAME)-src.tar.gz"`. -/
def Working.file (w : Working Commit) : Option Text :=
  w.quoted (distName (distVersion w.wrapper) ++ tarballSuffix)

/-- The shell has nothing to expand in the version. -/
def Working.Plain (w : Working Commit) : Prop :=
  ∀ c ∈ distVersion w.wrapper, specialQuoted c = false

theorem Working.quoted_of_plain (w : Working Commit) {t : Text}
    (h : ∀ c ∈ t, specialQuoted c = false) : w.quoted t = some t := by
  unfold Working.quoted
  rw [if_neg]
  simpa using h

theorem Working.Plain.distName {w : Working Commit} (h : w.Plain) :
    ∀ c ∈ distName (distVersion w.wrapper), specialQuoted c = false := by
  have hstart : ∀ c ∈ txt "qudossl-", specialQuoted c = false := by simp [txt, specialQuoted]
  intro c hc
  rcases List.mem_append.mp hc with hc | hc
  · exact hstart c hc
  · exact h c hc

theorem Working.Plain.top_eq {w : Working Commit} (h : w.Plain) :
    w.top = some (QudoSSL.distName (distVersion w.wrapper)) :=
  w.quoted_of_plain h.distName

theorem Working.Plain.file_eq {w : Working Commit} (h : w.Plain) :
    w.file = some (QudoSSL.distName (distVersion w.wrapper) ++ tarballSuffix) := by
  have hend : ∀ c ∈ tarballSuffix, specialQuoted c = false := by
    simp [tarballSuffix, txt, specialQuoted]
  apply w.quoted_of_plain
  intro c hc
  rcases List.mem_append.mp hc with hc | hc
  · exact h.distName c hc
  · exact hend c hc

/-- `git archive`, of which it is only known that it emits committed content: the attributes of a
commit can keep files of it out. -/
structure Archive where
  emit : Tree → Tree
  committed : ∀ t, ∀ e ∈ (emit t).files, e ∈ t.files

/-- `git describe --tags --exact-match`: some one tag on HEAD, if there is any. -/
structure Describe where
  pick : List Text → Option Text
  mem : ∀ tags tag, pick tags = some tag → tag ∈ tags
  total : ∀ tags, tags ≠ [] → pick tags ≠ none

/-! ## The tarball -/

structure Tarball where
  file : Text
  top : Text
  entries : List (Text × Text)

/-- `git archive HEAD` twice, staged and packed under the distribution's name. -/
def tarball (archive : Archive) (h : Head Commit) (fips : Tree) (file top : Text) : Tarball where
  file := file
  top := top
  entries := (archive.emit h.files).files ++
    (archive.emit fips).files.map fun e => (fipsDir ++ e.1, e.2)

def SameTarball (t u : Tarball) : Prop :=
  t.file = u.file ∧ t.top = u.top ∧ ∀ e, e ∈ t.entries ↔ e ∈ u.entries

/-- The tarball's `openssl-fips/` is the commit that HEAD pins. -/
def HoldsPin (objects : Commit → Tree) (h : Head Commit) (t : Tarball) : Prop :=
  ∀ p c, (fipsDir ++ p, c) ∈ t.entries ↔ (objects h.pin).lookup p = some c

theorem mem_tarball_fips (archive : Archive) (h : Head Commit) (fips : Tree)
    (file top p c : Text) :
    (fipsDir ++ p, c) ∈ (tarball archive h fips file top).entries ↔
      (archive.emit fips).lookup p = some c := by
  rw [(archive.emit fips).lookup_eq_some_iff]
  have hhead : (fipsDir ++ p, c) ∉ (archive.emit h.files).files := fun he =>
    h.apart _ (archive.committed _ _ he) (List.prefix_append fipsDir p)
  simp [tarball, hhead]

theorem holdsPin_tarball_iff (archive : Archive) (objects : Commit → Tree) (h : Head Commit)
    (fips : Tree) (file top : Text) :
    HoldsPin objects h (tarball archive h fips file top) ↔
      (archive.emit fips).Same (objects h.pin) := by
  unfold HoldsPin Tree.Same
  simp only [mem_tarball_fips]
  exact forall_congr' fun p => ⟨fun hp => Option.ext fun c => hp c, fun hp c => by rw [hp]⟩

theorem sameTarball_of_same (archive : Archive) (h : Head Commit) {fips fips' : Tree}
    (file top : Text) (hsame : (archive.emit fips).Same (archive.emit fips')) :
    SameTarball (tarball archive h fips file top) (tarball archive h fips' file top) := by
  refine ⟨rfl, rfl, fun e => ?_⟩
  simp only [tarball, List.mem_append, List.mem_map, hsame.mem_files_iff]

/-! ## The recipe -/

inductive DistError where
  | submoduleUpdate
  | commandLine
  | noVersion
  | tagMismatch (tag name : Text)
  | notAtPin
  | pack

/-- What the recipe itself prints on standard error. -/
def DistError.message : DistError → Option Text
  | .submoduleUpdate | .commandLine | .pack => none
  | .noVersion => some (txt "dist: cannot read QUDO_PRODUCT_VERSION from build/qudossl")
  | .tagMismatch tag name => some (txt "dist: HEAD tag '" ++ tag ++ txt "' != '" ++ name ++
      txt "' (from the wrapper's QUDO_PRODUCT_VERSION)")
  | .notAtPin => some (txt "dist: openssl-fips checkout is not at the pinned commit")

/-- The submodule's HEAD after the rule for `openssl-fips/Configure`. -/
def materialiseHead (w : Working Commit) : Except DistError (Option Commit) :=
  if w.configure then .ok w.submodule
  else if w.indexLink ≠ none ∧ w.updates then .ok w.indexLink
  else .error .submoduleUpdate

theorem materialiseHead_ok_iff (w : Working Commit) (c : Option Commit) :
    materialiseHead w = .ok c ↔
      if w.configure then w.submodule = c
      else w.indexLink ≠ none ∧ w.updates = true ∧ w.indexLink = c := by
  unfold materialiseHead
  split
  · simp
  · split <;> simp_all

/-- One of the recipe's checks stops it, or a command outside the repository fails. -/
def Stops (describe : Describe) (tags : List Text) (w : Working Commit) : Prop :=
  (∀ v ∈ w.version, v = []) ∨ w.top = none ∨ w.file = none ∨
    (∃ tag ∈ describe.pick tags, some tag ≠ w.top) ∨
    w.indexLink = none ∨
    (if w.configure then w.submodule ≠ w.indexLink else w.updates = false) ∨
    w.packs = false

theorem not_stops_iff (describe : Describe) (tags : List Text) (w : Working Commit) :
    ¬ Stops describe tags w ↔
      ∃ version top file c, (w.version = some version ∧ version ≠ []) ∧
        (w.top = some top ∧ ∀ tag ∈ describe.pick tags, tag = top) ∧ w.file = some file ∧
        (w.indexLink = some c ∧ if w.configure then w.submodule = some c else w.updates = true) ∧
        w.packs = true := by
  unfold Stops
  cases w.version with
  | none => simp
  | some version =>
      cases w.top with
      | none => simp
      | some top =>
          cases w.file with
          | none => simp
          | some file =>
              cases w.indexLink with
              | none => simp
              | some c => split <;> simp

variable [DecidableEq Commit]

/-- The first column of `git submodule status openssl-fips`, if it prints anything. -/
def submoduleStatus (indexLink submodule : Option Commit) : Option Char :=
  match indexLink, submodule with
  | none, _ => none
  | some _, none => some '-'
  | some link, some head => some (if head = link then ' ' else '+')

def checkVersion (version : Text) : Except DistError Unit :=
  if version = [] then .error .noVersion else .ok ()

def checkTag (describe : Describe) (tags : List Text) (name : Text) : Except DistError Unit :=
  match describe.pick tags with
  | none => .ok () -- HEAD is untagged: a snapshot
  | some tag => if tag ≠ name then .error (.tagMismatch tag name) else .ok ()

/-- `git submodule status openssl-fips | grep -q '^ '`, which leaves the commit to archive. -/
def checkPin (indexLink submodule : Option Commit) : Except DistError Commit :=
  match submoduleStatus indexLink submodule, submodule with
  | some ' ', some head => .ok head
  | _, _ => .error .notAtPin

/-- A text of the command line as the shell reads it. -/
def readable (t : Option Text) : Except DistError Text :=
  match t with
  | none => .error .commandLine
  | some t => .ok t

def dist (describe : Describe) (archive : Archive) (objects : Commit → Tree) (h : Head Commit)
    (tags : List Text) (w : Working Commit) : Except DistError Tarball := do
  let submodule ← materialiseHead w
  let version ← readable w.version
  checkVersion version
  let top ← readable w.top
  checkTag describe tags top
  -- a dirty working tree is only noted
  let head ← checkPin w.indexLink submodule
  let file ← readable w.file
  if w.packs then pure (tarball archive h (objects head) file top) else .error .pack

/-! ## When it succeeds -/

theorem checkVersion_ok_iff (version : Text) : checkVersion version = .ok () ↔ version ≠ [] := by
  unfold checkVersion
  split <;> simp [*]

theorem checkTag_ok_iff (describe : Describe) (tags : List Text) (name : Text) :
    checkTag describe tags name = .ok () ↔ ∀ tag ∈ describe.pick tags, tag = name := by
  unfold checkTag
  cases describe.pick tags with
  | none => simp
  | some tag => by_cases htag : tag = name <;> simp [htag]

theorem checkPin_ok_iff (indexLink submodule : Option Commit) (c : Commit) :
    checkPin indexLink submodule = .ok c ↔ indexLink = some c ∧ submodule = some c := by
  unfold checkPin submoduleStatus
  cases indexLink with
  | none => simp
  | some link =>
      cases submodule with
      | none => simp
      | some head =>
          by_cases hhead : head = link
          · subst hhead
            simp
          · simp only [hhead, if_false, Option.some.injEq]
            refine iff_of_false (by simp) ?_
            rintro ⟨rfl, rfl⟩
            exact hhead rfl

theorem readable_ok_iff (t : Option Text) (u : Text) : readable t = .ok u ↔ t = some u := by
  cases t <;> simp [readable]

-- The recipe's one result: the HEAD commit's files and the commit in the index's gitlink.
theorem dist_ok_iff (describe : Describe) (archive : Archive) (objects : Commit → Tree)
    (h : Head Commit) (tags : List Text) (w : Working Commit) (t : Tarball) :
    dist describe archive objects h tags w = .ok t ↔
      ¬ Stops describe tags w ∧
        ∃ c file top, w.indexLink = some c ∧ w.file = some file ∧ w.top = some top ∧
          t = tarball archive h (objects c) file top := by
  rw [not_stops_iff]
  simp only [dist, bind_ok_iff, materialiseHead_ok_iff, checkPin_ok_iff, readable_ok_iff]
  constructor
  · rintro ⟨sub, hsub, version, hv, ⟨⟩, hversion, top, htop, ⟨⟩, htag, c, ⟨hlink, rfl⟩, file,
      hfile, hpacks⟩
    rw [checkVersion_ok_iff] at hversion
    rw [checkTag_ok_iff] at htag
    split at hpacks
    · next hp =>
      refine ⟨⟨version, top, file, c, ⟨hv, hversion⟩, ⟨htop, htag⟩, hfile, ⟨hlink, ?_⟩, hp⟩,
        c, file, top, hlink, hfile, htop, (Except.ok.inj hpacks).symm⟩
      split at hsub
      · next hconf => rw [if_pos hconf, hsub]
      · next hconf =>
        rw [if_neg hconf]
        exact hsub.2.1
    · simp at hpacks
  · rintro ⟨⟨version, top, file, c, ⟨hv, hversion⟩, ⟨htop, htag⟩, hfile, ⟨hlink, hhead⟩, hp⟩,
      c', file', top', hlink', hfile', htop', rfl⟩
    rw [hlink] at hlink'
    rw [hfile] at hfile'
    rw [htop] at htop'
    cases hlink'
    cases hfile'
    cases htop'
    refine ⟨some c, ?_, version, hv, (), (checkVersion_ok_iff _).mpr hversion, top, htop, (),
      (checkTag_ok_iff _ _ _).mpr htag, c, ⟨hlink, rfl⟩, file, hfile, by rw [if_pos hp]; rfl⟩
    split at hhead
    · next hconf => rw [if_pos hconf, hhead]
    · next hconf =>
      rw [if_neg hconf, hlink]
      exact ⟨by simp, hhead, rfl⟩

/-! ## Two runs on one commit -/

/-- What is archived of the commit in the index's gitlink is the content of the one in HEAD. -/
def LinkPinned (archive : Archive) (objects : Commit → Tree) (h : Head Commit)
    (w : Working Commit) : Prop :=
  ∀ c, w.indexLink = some c → (archive.emit (objects c)).Same (objects h.pin)

/-- Two runs of `make dist` on one commit and its tags give the same tarball, holding the pinned
`openssl-fips`, exactly when one of them is stopped or the two working trees' wrappers give the
tarball the same names and what is archived of both indexes' links is the pinned content. -/
theorem dist_committed_iff (describe : Describe) (archive : Archive) (objects : Commit → Tree)
    (h : Head Commit) (tags : List Text) (w w' : Working Commit) :
    (∀ t t', dist describe archive objects h tags w = .ok t →
        dist describe archive objects h tags w' = .ok t' →
          SameTarball t t' ∧ HoldsPin objects h t ∧ HoldsPin objects h t') ↔
      Stops describe tags w ∨ Stops describe tags w' ∨
        (w.file = w'.file ∧ w.top = w'.top ∧
          LinkPinned archive objects h w ∧ LinkPinned archive objects h w') := by
  simp only [dist_ok_iff]
  by_cases hs : Stops describe tags w
  · simp [hs]
  by_cases hs' : Stops describe tags w'
  · simp [hs']
  obtain ⟨-, top, file, c, -, ⟨htop, -⟩, hfile, ⟨hc, -⟩, -⟩ := (not_stops_iff ..).mp hs
  obtain ⟨-, top', file', c', -, ⟨htop', -⟩, hfile', ⟨hc', -⟩, -⟩ := (not_stops_iff ..).mp hs'
  simp only [hs, hs', not_false_eq_true, true_and, false_or, hc, hc', htop, htop', hfile, hfile',
    Option.some.injEq, LinkPinned, forall_eq', exists_and_left, exists_eq_left']
  constructor
  · intro hruns
    obtain ⟨⟨hsfile, hstop, -⟩, hpin, hpin'⟩ := hruns _ _ rfl rfl
    exact ⟨hsfile, hstop, (holdsPin_tarball_iff ..).mp hpin, (holdsPin_tarball_iff ..).mp hpin'⟩
  · rintro ⟨rfl, rfl, hpin, hpin'⟩ t t' rfl rfl
    refine ⟨?_, (holdsPin_tarball_iff ..).mpr hpin, (holdsPin_tarball_iff ..).mpr hpin'⟩
    exact sameTarball_of_same archive h _ _ fun p => (hpin p).trans (hpin' p).symm

omit [DecidableEq Commit] in
-- Where the shell has nothing to expand, the names agree exactly when the versions do.
theorem names_eq_iff {w w' : Working Commit} (hw : w.Plain) (hw' : w'.Plain) :
    (w.file = w'.file ∧ w.top = w'.top) ↔ distVersion w.wrapper = distVersion w'.wrapper := by
  rw [hw.top_eq, hw'.top_eq, hw.file_eq, hw'.file_eq]
  constructor
  · rintro ⟨-, htop⟩
    exact List.append_cancel_left (Option.some.inj htop)
  · intro heq
    rw [heq]
    exact ⟨rfl, rfl⟩

end Dist

def firstTag : Describe where
  pick := List.head?
  mem _ _ := List.mem_of_head?
  total tags h := by simpa using h

/-- `git archive` where no attribute keeps anything out. -/
def wholeArchive : Archive := ⟨id, fun _ _ he => he⟩

/-- A commit that pins 353. -/
def releasedHead : Head Nat :=
  ⟨⟨[(txt "build/qudossl", txt "QUDO_PRODUCT_VERSION=\"1.0.0\"\n")], by decide⟩, 353, by decide⟩

def cleanTree : Working Nat where
  wrapper := some (txt "QUDO_PRODUCT_VERSION=\"1.0.0\"\n")
  indexLink := some 353
  configure := true
  submodule := some 353
  updates := true
  packs := true
  expand := some

/-- The wrapper's version is edited, and commit 354 is checked out in the submodule and staged. -/
def dirtyTree : Working Nat :=
  { cleanTree with
    wrapper := some (txt "QUDO_PRODUCT_VERSION=\"9.9.9\"\n")
    indexLink := some 354
    submodule := some 354 }

/-- Both runs succeed; the second tarball has the edited version in its name and does not hold the
pinned commit. -/
theorem dist_leaks :
    ∃ t t', dist firstTag wholeArchive gitObjects releasedHead [] cleanTree = .ok t ∧
      dist firstTag wholeArchive gitObjects releasedHead [] dirtyTree = .ok t' ∧
        t.file = txt "qudossl-1.0.0-src.tar.gz" ∧ t'.file = txt "qudossl-9.9.9-src.tar.gz" ∧
          ¬ HoldsPin gitObjects releasedHead t' := by
  refine ⟨_, _, rfl, rfl, by decide, by decide, fun hpin => ?_⟩
  have hsame := (holdsPin_tarball_iff ..).mp hpin
  exact absurd (hsame (txt "ssl/ssl_lib.c")) (by decide)

end QudoSSL
