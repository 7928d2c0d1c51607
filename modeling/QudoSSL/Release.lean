import QudoSSL.DistVerify

/-!
# The release workflow

A push of a tag `qudossl-*` checks the commit out afresh, runs `make dist` and `make dist-verify`,
and publishes what then lies in `dist/` under the pushed tag.  The pushed tag is never compared with
the one that `git describe` picks.
-/

namespace QudoSSL

open Posix

section Release

variable {Commit : Type}

/-- The pushed tag is `qudossl-VERSION`; the workflow's pattern matches no slash, and git allows no
newline in a tag. -/
structure Push (Commit : Type) where
  head : Head Commit
  tags : List Text
  version : Text
  noSlash : '/' ∉ version
  noNewline : '\n' ∉ version
  onHead : distName version ∈ tags

def Push.tag (push : Push Commit) : Text := distName push.version

/-- The machine: where the checkout is, how the commands outside the repository end, what the shell
expands texts to, and whether `gh release create` works. -/
structure Runner where
  root : Text
  updates : Bool
  packs : Bool
  expand : Text → Option Text
  host : Host
  publishes : Bool

structure Published where
  tag : Text
  tarballs : List Text
  archive : Tarball

/-- `actions/checkout` with submodules: index and working tree are the commit's. -/
def freshCheckout (objects : Commit → Tree) (h : Head Commit) (r : Runner) : Working Commit where
  wrapper := h.files.lookup (txt "build/qudossl")
  indexLink := some h.pin
  configure := (objects h.pin).lookup configureFile ≠ none
  submodule := some h.pin
  updates := r.updates
  packs := r.packs
  expand := r.expand

/-- `*-src.tar.gz`, as the shell expands it in `dist/`. -/
def globbed (n : Text) : Bool :=
  decide ('/' ∉ n ∧ tarballSuffix <:+ n ∧ n.head? ≠ some '.')

/-- The names in `dist/` that the commit itself brings. -/
def committedDist (h : Head Commit) : List Text :=
  h.files.files.filterMap fun e => sedStrip (txt "dist/") e.1

def uploads (h : Head Commit) (t : Tarball) : List Text :=
  (t.file :: committedDist h).filter globbed

def tarballPath (r : Runner) (t : Tarball) : Text := r.root ++ txt "/dist" ++ '/' :: t.file

/-- The tarball that a fresh checkout gives, under the names the shell makes of the version in the
commit's own wrapper. -/
def headTarball (archive : Archive) (objects : Commit → Tree) (h : Head Commit) (r : Runner) :
    Tarball :=
  tarball archive h (objects h.pin) ((freshCheckout objects h r).file.getD [])
    ((freshCheckout objects h r).top.getD [])

/-- The pushed commit passes `make dist` and `make dist-verify`, and `gh` works. -/
structure Publishes (describe : Describe) (archive : Archive) (objects : Commit → Tree)
    (push : Push Commit) (r : Runner) : Prop where
  dist : ¬ Stops describe push.tags (freshCheckout objects push.head r)
  fit : Fit (tarballPath r (headTarball archive objects push.head r))
    (headTarball archive objects push.head r) r.host
  found : uploads push.head (headTarball archive objects push.head r) ≠ []
  gh : r.publishes = true

/-- The release is the pushed tag's: its tarballs are named after it, the archive that was made
among them unpacks to it, and the wrapper installed from the archive reports its version. -/
structure Faithful (push : Push Commit) (r : Runner) (rel : Published) : Prop where
  names : ∀ n ∈ rel.tarballs, n = push.tag ++ tarballSuffix
  file : rel.archive.file = push.tag ++ tarballSuffix
  top : rel.archive.top = push.tag
  reports : r.host.probes.qudosslVersion.value = txt "QudoSSL " ++ push.version

/-- The version in the commit's wrapper names the tarball and its directory after the pushed tag,
and the commit brings no other tarball in `dist/`. -/
def CarriesVersion (objects : Commit → Tree) (push : Push Commit) (r : Runner) : Prop :=
  (freshCheckout objects push.head r).file = some (push.tag ++ tarballSuffix) ∧
    (freshCheckout objects push.head r).top = some push.tag ∧
    ∀ n ∈ committedDist push.head, globbed n = true → n = push.tag ++ tarballSuffix

-- Where the pushed tag is the only one on the commit, `git describe` can pick no other, and the
-- recipe's own check makes the wrapper carry its version.
theorem version_of_only_tag {describe : Describe} {objects : Commit → Tree}
    {push : Push Commit} {r : Runner} (honly : ∀ tag ∈ push.tags, tag = push.tag)
    (hplain : (freshCheckout objects push.head r).Plain)
    (hgo : ¬ Stops describe push.tags (freshCheckout objects push.head r)) :
    distVersion (freshCheckout objects push.head r).wrapper = push.version := by
  obtain ⟨-, top, -, -, -, ⟨htop, htags⟩, -⟩ := (not_stops_iff ..).mp hgo
  have hne : push.tags ≠ [] := List.ne_nil_of_mem push.onHead
  obtain ⟨tag, hpick⟩ := Option.ne_none_iff_exists'.mp (describe.total _ hne)
  have hname : push.tag = top := (honly tag (describe.mem _ _ hpick)).symm.trans (htags tag hpick)
  rw [hplain.top_eq, ← hname] at htop
  exact List.append_cancel_left (Option.some.inj htop)

variable [DecidableEq Commit]

def release (describe : Describe) (archive : Archive) (objects : Commit → Tree)
    (push : Push Commit) (r : Runner) : Option Published :=
  match dist describe archive objects push.head push.tags (freshCheckout objects push.head r) with
  | .error _ => none
  | .ok t =>
      match distVerify (tarballPath r t) (some t) r.host with
      | .error _ => none
      | .ok _ =>
          -- without a match the pattern itself is passed to `gh`, which finds no such file
          if uploads push.head t ≠ [] ∧ r.publishes then some ⟨push.tag, uploads push.head t, t⟩
          else none

/-! ## What is published -/

theorem dist_freshCheckout (describe : Describe) (archive : Archive) (objects : Commit → Tree)
    (h : Head Commit) (tags : List Text) (r : Runner) (t : Tarball) :
    dist describe archive objects h tags (freshCheckout objects h r) = .ok t ↔
      ¬ Stops describe tags (freshCheckout objects h r) ∧ t = headTarball archive objects h r := by
  rw [dist_ok_iff]
  refine and_congr_right fun hgo => ?_
  obtain ⟨-, top, file, c, -, ⟨htop, -⟩, hfile, ⟨hlink, -⟩, -⟩ := (not_stops_iff ..).mp hgo
  obtain rfl : h.pin = c := Option.some.inj hlink
  rw [headTarball, htop, hfile, hlink]
  simp

theorem release_eq_some_iff (describe : Describe) (archive : Archive) (objects : Commit → Tree)
    (push : Push Commit) (r : Runner) (rel : Published) :
    release describe archive objects push r = some rel ↔
      Publishes describe archive objects push r ∧
        rel = ⟨push.tag, uploads push.head (headTarball archive objects push.head r),
          headTarball archive objects push.head r⟩ := by
  unfold release
  have hdist := dist_freshCheckout describe archive objects push.head push.tags r
  cases hd : dist describe archive objects push.head push.tags
      (freshCheckout objects push.head r) with
  | error e =>
      -- nothing is made, so the recipe was stopped
      have hstop : Stops describe push.tags (freshCheckout objects push.head r) := by
        by_contra hgo
        have hok := (hdist _).mpr ⟨hgo, rfl⟩
        rw [hd] at hok
        exact absurd hok (by simp)
      exact iff_of_false (by simp) fun h => h.1.dist hstop
  | ok t =>
      obtain ⟨hgo, rfl⟩ := (hdist t).mp hd
      have hverify := distVerify_ok_iff (tarballPath r (headTarball archive objects push.head r))
        (headTarball archive objects push.head r) r.host
      cases hv : distVerify (tarballPath r (headTarball archive objects push.head r))
          (some (headTarball archive objects push.head r)) r.host with
      | error e =>
          have hunfit := hverify.not.mp (by simp [hv])
          exact iff_of_false (by simp [hv]) fun h => hunfit h.1.fit
      | ok _ =>
          have hfit := hverify.mp ⟨_, hv⟩
          by_cases hgh : uploads push.head (headTarball archive objects push.head r) ≠ [] ∧
              r.publishes = true
          · have hpub : Publishes describe archive objects push r := ⟨hgo, hfit, hgh.1, hgh.2⟩
            simp [hv, hgh, hpub, eq_comm]
          · exact iff_of_false (by simp [hv, hgh]) fun h => hgh ⟨h.1.found, h.1.gh⟩

/-- What is published under the pushed tag is that tag's release exactly when nothing is published
or the commit's wrapper carries the tag's version and no other tarball is committed. -/
theorem release_faithful_iff (describe : Describe) (archive : Archive) (objects : Commit → Tree)
    (push : Push Commit) (r : Runner) :
    (∀ rel, release describe archive objects push r = some rel → Faithful push r rel) ↔
      (¬ Publishes describe archive objects push r ∨ CarriesVersion objects push r) := by
  simp only [release_eq_some_iff]
  by_cases hpub : Publishes describe archive objects push r
  · simp only [hpub, true_and, forall_eq, not_true_eq_false, false_or]
    obtain ⟨-, top, file, -, -, ⟨htop, -⟩, hfile, -⟩ := (not_stops_iff ..).mp hpub.dist
    have hmade : (headTarball archive objects push.head r).file = file := by
      rw [headTarball, hfile]
      rfl
    have hdir : (headTarball archive objects push.head r).top = top := by
      rw [headTarball, htop]
      rfl
    unfold CarriesVersion
    rw [hfile, htop, Option.some_inj, Option.some_inj]
    constructor
    · rintro ⟨hnames, hname, hunpack, -⟩
      refine ⟨hmade.symm.trans hname, hdir.symm.trans hunpack, fun n hn hglob => hnames n ?_⟩
      exact List.mem_filter.mpr ⟨List.mem_cons_of_mem _ hn, hglob⟩
    · rintro ⟨rfl, rfl, hother⟩
      refine ⟨fun n hn => ?_, hmade, hdir, ?_⟩
      · obtain ⟨hmem, hglob⟩ := List.mem_filter.mp hn
        rcases List.mem_cons.mp hmem with rfl | hmem
        · exact hmade
        · exact hother n hmem hglob
      · -- the gate compares the wrapper's report with the version in the file name
        have hread : tarballVersion (tarballPath r (headTarball archive objects push.head r)) =
            push.version := by
          rw [tarballPath, hmade]
          exact tarballVersion_distName push.noSlash push.noNewline
        rw [← hread]
        exact hpub.fit.passes.product
  · simp [hpub]

end Release

/-- Two tags on one commit whose wrapper says 1.0.0; the second of them is pushed. -/
def retagged : Push Nat where
  head := releasedHead
  tags := [txt "qudossl-1.0.0", txt "qudossl-1.0.1"]
  version := txt "1.0.1"
  noSlash := by decide
  noNewline := by decide
  onHead := by decide

def goodRunner : Runner where
  root := txt "/w"
  updates := true
  packs := true
  expand := some
  host := ⟨true, true, true, true, true, goodProbes⟩
  publishes := true

/-- `git describe` picks the other tag, and 1.0.0 is published as 1.0.1. -/
theorem release_unfaithful :
    ∃ rel, release firstTag wholeArchive gitObjects retagged goodRunner = some rel ∧
      rel.tag = txt "qudossl-1.0.1" ∧ rel.tarballs = [txt "qudossl-1.0.0-src.tar.gz"] ∧
        ¬ Faithful retagged goodRunner rel := by
  have hsome : (release firstTag wholeArchive gitObjects retagged goodRunner).isSome = true := by
    decide +kernel
  obtain ⟨rel, hrel⟩ := Option.isSome_iff_exists.mp hsome
  obtain ⟨_, rfl⟩ := (release_eq_some_iff ..).mp hrel
  refine ⟨_, hrel, rfl, by decide +kernel, fun h => ?_⟩
  exact absurd h.top (by decide +kernel)

end QudoSSL
