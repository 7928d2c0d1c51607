import QudoSSL.MakeRuns

/-!
# What `install_fips` leaves in the prefix

The recipe again, this time over the two files it writes: the module in `$(MODULESDIR)` and
`$(PREFIX)/ssl/fipsmodule.cnf`.  It refines the recipe of the makefile's model, whose outcomes are
here computed from the module that was built.
-/

namespace QudoSSL

open Posix

/-- The working copy with the installed module and `fipsmodule.cnf`, where they exist. -/
structure Installation where
  build : Build
  fips : Option Text
  cnf : Option Text

/-- How `install -m 0755` ends.  It removes the old file before it writes, so a failure may leave
the old one, nothing, or a part of the new one. -/
inductive Copy where
  | done
  | failed (left : Option Text)

/-- One invocation: what the module was built into, how the copy and `openssl fipsinstall` end, what
`strings` prints of a module, and the `fipsmodule.cnf` with the MAC of a module. -/
structure Overlay where
  env : Env
  built : Text
  copy : Copy
  selfTests : Bool
  strings : Text → List Text
  fipsmoduleCnf : Text → Text

namespace Overlay

/-- A command of the makefile's model that does not touch the two files. -/
def onBuild (r : Recipe Build Event) : Recipe Installation Event :=
  Recipe.focus Installation.build (fun s b => { s with build := b }) r

def copyModule (o : Overlay) : Recipe Installation Event := fun s =>
  -- install -m 0755 openssl-fips/providers/fips.so $(MODULESDIR)/fips.so
  match o.copy with
  | .done => ⟨[.install .fips s.build], { s with fips := some o.built }, true⟩
  | .failed left => ⟨[.install .fips s.build], { s with fips := left }, false⟩

/-- `openssl fipsinstall -module ... -out ...`: it writes the output file only on success. -/
def fipsinstall (o : Overlay) : Recipe Installation Event := fun s =>
  match s.fips with
  | none => Recipe.fail s
  | some m =>
      if o.selfTests then ⟨[], { s with cnf := some (o.fipsmoduleCnf m) }, true⟩
      else Recipe.fail s

def moduleName (ls : List Text) : Bool :=
  -- grep -q '^OpenSSL FIPS Provider$'
  ls.any (search (litLine fipsProvider))

def moduleVersion (ls : List Text) : Bool :=
  -- grep -q '^3\.5\.4$'
  ls.any (search (litLine fipsVersion))

def moduleStamp (ls : List Text) : Bool :=
  -- ! grep -qE '\+qudo|QudoSSL'
  !ls.any (search vendorStamp)

/-- `strings $(MODULESDIR)/fips.so | grep ...`: an artefact assertion on the installed module. -/
def assertion (o : Overlay) (holds : List Text → Bool) : Recipe Installation Event := fun s =>
  ⟨[], s, holds ((s.fips.map o.strings).getD [])⟩

def installFips (o : Overlay) : Recipe Installation Event :=
  Recipe.seq [onBuild (fipsModule o.env), onBuild (installCli o.env),
    onBuild (run o.env .installDirs), o.copyModule, o.fipsinstall, o.assertion moduleName,
    o.assertion moduleVersion, o.assertion moduleStamp]

/-! ## Refinement of the makefile's recipe -/

/-- The invocation as the makefile's model sees it. -/
def outcomes (o : Overlay) : Env where
  pfx := o.env.pfx
  ok c :=
    match c with
    | .installModule => match o.copy with
      | .done => true
      | .failed _ => false
    | .fipsinstall => o.selfTests
    | .moduleName => moduleName (o.strings o.built)
    | .moduleVersion => moduleVersion (o.strings o.built)
    | .moduleStamp => moduleStamp (o.strings o.built)
    | c => o.env.ok c
  submodule := o.env.submodule
  written := o.env.written
  opensslInstalled := o.env.opensslInstalled
  globs := o.env.globs
  grep := o.env.grep
  line := o.env.line

def Copied (o : Overlay) (s : Installation) : Prop := s.fips = some o.built

theorem fipsinstall_done (o : Overlay) {s : Installation} (hs : o.Copied s)
    (ht : o.selfTests = true) :
    o.fipsinstall s = ⟨[], { s with cnf := some (o.fipsmoduleCnf o.built) }, true⟩ := by
  have hm : s.fips = some o.built := hs
  simp only [fipsinstall, hm, ht, if_true]

theorem fipsinstall_failed (o : Overlay) {s : Installation} (hs : o.Copied s)
    (ht : o.selfTests = false) : o.fipsinstall s = Recipe.fail s := by
  have hm : s.fips = some o.built := hs
  simp only [fipsinstall, hm, ht, Bool.false_eq_true, if_false]

theorem assertion_of_copied (o : Overlay) {s : Installation} (hs : o.Copied s)
    (holds : List Text → Bool) : o.assertion holds s = ⟨[], s, holds (o.strings o.built)⟩ := by
  have hm : s.fips = some o.built := hs
  simp only [assertion, hm, Option.map_some, Option.getD_some]

theorem onBuild_refines (r : Recipe Build Event) :
    Refines Installation.build (fun _ => True) (onBuild r) r fun _ => True :=
  refines_focus (fun _ _ => rfl) r

theorem copyModule_refines (o : Overlay) :
    Refines Installation.build (fun _ => True) o.copyModule
      (command o.outcomes .installModule (.install .fips)) o.Copied := by
  intro s _
  unfold copyModule command
  cases hc : o.copy with
  | done => exact ⟨by simp [outcomes, hc], fun _ => rfl⟩
  | failed left => exact ⟨by simp [outcomes, hc], Bool.noConfusion⟩

theorem fipsinstall_refines (o : Overlay) :
    Refines Installation.build o.Copied o.fipsinstall (run o.outcomes .fipsinstall) o.Copied := by
  intro s hs
  unfold run
  cases ht : o.selfTests with
  | true =>
      rw [o.fipsinstall_done hs ht]
      exact ⟨by simp [outcomes, ht], fun _ => hs⟩
  | false =>
      rw [o.fipsinstall_failed hs ht]
      exact ⟨by simp [outcomes, ht, Recipe.fail], Bool.noConfusion⟩

theorem assertion_refines (o : Overlay) {c : Command} {holds : List Text → Bool}
    (hc : o.outcomes.ok c = holds (o.strings o.built)) :
    Refines Installation.build o.Copied (o.assertion holds) (run o.outcomes c) o.Copied := by
  intro s hs
  unfold run
  rw [o.assertion_of_copied hs, hc]
  exact ⟨rfl, fun _ => hs⟩

/-- Over the two files, `install_fips` causes the events of the makefile's recipe, leaves its state
and ends as it does. -/
theorem installFips_refines (o : Overlay) :
    Refines Installation.build (fun _ => True) o.installFips (QudoSSL.installFips o.outcomes)
      o.Copied :=
  (onBuild_refines (fipsModule o.env)).seq_cons <|
    (onBuild_refines (installCli o.env)).seq_cons <|
      (onBuild_refines (run o.env .installDirs)).seq_cons <|
        o.copyModule_refines.seq_cons <| o.fipsinstall_refines.seq_cons <|
          (o.assertion_refines rfl).seq_cons <| (o.assertion_refines rfl).seq_cons <|
            (o.assertion_refines rfl).seq_cons .seq_nil

/-! ## Success, and the four ways to fail -/

/-- The goal gets as far as the copy. -/
def ReachesCopy (o : Overlay) (s : Installation) : Prop :=
  (fipsModule o.env s.build).ok = true ∧ o.env.opensslInstalled = true ∧
    o.env.ok .installDirs = true

/-- What the artefact assertions ask of the strings in a module. -/
def Identifies (ls : List Text) : Prop :=
  fipsProvider ∈ ls ∧ fipsVersion ∈ ls ∧ ∀ l ∈ ls, search vendorStamp l = false

/-- Module and `fipsmodule.cnf` belong together: they are the built module and its MAC. -/
def Matched (o : Overlay) (s : Installation) : Prop :=
  s.fips = some o.built ∧ s.cnf = some (o.fipsmoduleCnf o.built)

def Untouched (s s' : Installation) : Prop := s'.fips = s.fips ∧ s'.cnf = s.cnf

/-- What a failing goal leaves: everything as it was before the copy; what the failing copy left
beside the old `fipsmodule.cnf`; the new module beside the old `fipsmodule.cnf`; or the new module
and its MAC, where the module is not the one wanted. -/
def Interrupted (o : Overlay) (s s' : Installation) : Prop :=
  ¬ o.ReachesCopy s ∧ Untouched s s' ∨
    o.ReachesCopy s ∧
      ((∃ left, o.copy = .failed left ∧ s'.fips = left ∧ s'.cnf = s.cnf) ∨
        o.copy = .done ∧
          (o.selfTests = false ∧ s'.fips = some o.built ∧ s'.cnf = s.cnf ∨
            o.selfTests = true ∧ ¬ Identifies (o.strings o.built) ∧ o.Matched s'))

theorem moduleName_iff (ls : List Text) : moduleName ls = true ↔ fipsProvider ∈ ls := by
  simp [moduleName]

theorem moduleVersion_iff (ls : List Text) : moduleVersion ls = true ↔ fipsVersion ∈ ls := by
  simp [moduleVersion]

theorem moduleStamp_iff (ls : List Text) :
    moduleStamp ls = true ↔ ∀ l ∈ ls, search vendorStamp l = false := by
  simp [moduleStamp]

/-- The goal has run all commands before the assertions. -/
def Configured (o : Overlay) (s s' : Installation) : Prop :=
  o.ReachesCopy s ∧ o.copy = .done ∧ o.selfTests = true ∧ o.Matched s'

theorem assertion_ends (o : Overlay) (s : Installation) {P : Installation → Prop}
    {holds : List Text → Bool} {B : Prop} (hP : ∀ s', P s' → o.Configured s s')
    (hB : holds (o.strings o.built) = true ↔ B) (hid : Identifies (o.strings o.built) → B) :
    Ends P (o.assertion holds) (fun s' => P s' ∧ B) (o.Interrupted s) := by
  intro s' hs'
  obtain ⟨hreach, hcopy, htests, hm⟩ := hP s' hs'
  rw [o.assertion_of_copied hm.1]
  refine ⟨fun hok => ⟨hs', hB.mp hok⟩, fun hok => ?_⟩
  refine .inr ⟨hreach, .inr ⟨hcopy, .inr ⟨htests, fun h => ?_, hm⟩⟩⟩
  have htrue := hB.mpr (hid h)
  exact absurd (htrue.symm.trans hok) Bool.noConfusion

theorem copyModule_ends (o : Overlay) (s : Installation) :
    Ends (fun s' => Untouched s s' ∧ o.ReachesCopy s) o.copyModule
      (fun s' => o.ReachesCopy s ∧ o.copy = .done ∧ o.Copied s' ∧ s'.cnf = s.cnf)
      (o.Interrupted s) := by
  intro s' hs'
  obtain ⟨hsame, hreach⟩ := hs'
  unfold copyModule
  cases hcopy : o.copy with
  | done => exact ⟨fun _ => ⟨hreach, rfl, rfl, hsame.2⟩, Bool.noConfusion⟩
  | failed left =>
      exact ⟨Bool.noConfusion, fun _ => .inr ⟨hreach, .inl ⟨left, hcopy, rfl, hsame.2⟩⟩⟩

theorem fipsinstall_ends (o : Overlay) (s : Installation) :
    Ends (fun s' => o.ReachesCopy s ∧ o.copy = .done ∧ o.Copied s' ∧ s'.cnf = s.cnf) o.fipsinstall
      (o.Configured s) (o.Interrupted s) := by
  intro s' hs'
  obtain ⟨hreach, hcopy, hm, hcnf⟩ := hs'
  cases ht : o.selfTests with
  | true =>
      rw [o.fipsinstall_done hm ht]
      exact ⟨fun _ => ⟨hreach, hcopy, ht, hm, rfl⟩, Bool.noConfusion⟩
  | false =>
      rw [o.fipsinstall_failed hm ht]
      exact ⟨Bool.noConfusion,
        fun _ => .inr ⟨hreach, .inr ⟨hcopy, .inl ⟨ht, hm, hcnf⟩⟩⟩⟩

-- Before the copy: nothing is touched, and a failing command is one the copy waits for.
theorem onBuild_ends (o : Overlay) (s : Installation) {P : Installation → Prop}
    {r : Recipe Build Event} {B : Prop} (hP : ∀ s', P s' → Untouched s s')
    (hB : ∀ s', P s' → ((r s'.build).ok = true ↔ B)) (hreach : o.ReachesCopy s → B) :
    Ends P (onBuild r) (fun s' => Untouched s s' ∧ B) (o.Interrupted s) := by
  intro s' hs'
  have hsame : Untouched s (onBuild r s').state := hP s' hs'
  refine ⟨fun hok => ⟨hsame, (hB s' hs').mp hok⟩, fun hok => .inl ⟨fun h => ?_, hsame⟩⟩
  have htrue := (hB s' hs').mpr (hreach h)
  exact absurd (htrue.symm.trans hok) Bool.noConfusion

theorem installFips_ends (o : Overlay) (s : Installation) :
    Ends (· = s) o.installFips
      (fun s' => o.Matched s' ∧ Identifies (o.strings o.built)) (o.Interrupted s) := by
  have hmodule : Ends (· = s) (onBuild (fipsModule o.env))
      (fun s' => Untouched s s' ∧ (fipsModule o.env s.build).ok = true) (o.Interrupted s) :=
    o.onBuild_ends s (fun s' hs' => hs' ▸ ⟨rfl, rfl⟩) (fun s' hs' => hs' ▸ Iff.rfl) (·.1)
  have hopenssl : Ends (fun s' => Untouched s s' ∧ (fipsModule o.env s.build).ok = true)
      (onBuild (installCli o.env))
      (fun s' => Untouched s s' ∧ (fipsModule o.env s.build).ok = true ∧
        o.env.opensslInstalled = true) (o.Interrupted s) :=
    o.onBuild_ends s (fun _ hs' => hs'.1) (fun _ hs' => (and_iff_right hs'.2).symm)
      (fun h => ⟨h.1, h.2.1⟩)
  have hdirs : Ends (fun s' => Untouched s s' ∧ (fipsModule o.env s.build).ok = true ∧
      o.env.opensslInstalled = true) (onBuild (run o.env .installDirs))
      (fun s' => Untouched s s' ∧ o.ReachesCopy s) (o.Interrupted s) :=
    o.onBuild_ends s (fun _ hs' => hs'.1)
      (fun _ hs' => ⟨fun hok => ⟨hs'.2.1, hs'.2.2, hok⟩, fun h => h.2.2⟩) id
  have hname := o.assertion_ends s (P := o.Configured s) (fun _ h => h)
    (moduleName_iff (o.strings o.built)) (·.1)
  have hversion := o.assertion_ends s
    (P := fun s' => o.Configured s s' ∧ fipsProvider ∈ o.strings o.built) (fun _ h => h.1)
    (moduleVersion_iff (o.strings o.built)) (·.2.1)
  have hstamp := o.assertion_ends s
    (P := fun s' => (o.Configured s s' ∧ fipsProvider ∈ o.strings o.built) ∧
      fipsVersion ∈ o.strings o.built) (fun _ h => h.1.1)
    (moduleStamp_iff (o.strings o.built)) (·.2.2)
  have hall := hmodule.seq_cons <| hopenssl.seq_cons <| hdirs.seq_cons <|
    (o.copyModule_ends s).seq_cons <| (o.fipsinstall_ends s).seq_cons <|
      hname.seq_cons <| hversion.seq_cons <| hstamp.seq_cons .seq_nil
  intro s' hs'
  refine ⟨fun hok => ?_, (hall s' hs').2⟩
  obtain ⟨⟨⟨hc, hname⟩, hversion⟩, hstamp⟩ := (hall s' hs').1 hok
  exact ⟨hc.2.2.2, hname, hversion, hstamp⟩

/-- `install_fips` succeeds with the built module, its identity and its MAC in place, or it fails
and leaves the prefix as it was, the new module beside the old `fipsmodule.cnf`, or a module of the
wrong identity with its own MAC, according to how far it came. -/
theorem installFips_installs_or_interrupted (o : Overlay) (s : Installation) :
    ((o.installFips s).ok = true ∧ o.Matched (o.installFips s).state ∧
        Identifies (o.strings o.built)) ∨
      ((o.installFips s).ok = false ∧ o.Interrupted s (o.installFips s).state) := by
  obtain ⟨hdone, hfailed⟩ := o.installFips_ends s s rfl
  cases hok : (o.installFips s).ok with
  | true => exact .inl ⟨rfl, hdone hok⟩
  | false => exact .inr ⟨rfl, hfailed hok⟩

def AllOrNothing (o : Overlay) (s : Installation) : Prop :=
  ((o.installFips s).ok = true ∧ o.Matched (o.installFips s).state ∧
      Identifies (o.strings o.built)) ∨
    ((o.installFips s).ok = false ∧ Untouched s (o.installFips s).state)

/-- A new module over an older one, with the power-on self-tests failing; `strings` prints a module
whole, and the MAC of a module is its text. -/
def selfTestsFail : Overlay where
  env := smoothEnv
  built := txt "new module"
  copy := .done
  selfTests := false
  strings m := [m]
  fipsmoduleCnf m := m

/-- The self-tests pass, but the module is a stale one with the vendor's name in it. -/
def brandedModule : Overlay :=
  { selfTestsFail with built := txt "QudoSSL FIPS Provider", selfTests := true }

def olderInstall : Installation := ⟨freshBuild, some (txt "old module"), some (txt "old module")⟩

/-- Failing self-tests leave the new module beside the MAC of the old one; a failing assertion
leaves the branded module installed. -/
theorem installFips_half_changed :
    ¬ selfTestsFail.AllOrNothing olderInstall ∧ ¬ brandedModule.AllOrNothing olderInstall := by
  have hnot : ∀ o : Overlay, (o.installFips olderInstall).ok = false →
      (o.installFips olderInstall).state.fips ≠ some (txt "old module") →
      ¬ o.AllOrNothing olderInstall := by
    intro o hok hfips h
    rcases h with ⟨htrue, _⟩ | ⟨_, hsame⟩
    · exact absurd (htrue.symm.trans hok) Bool.noConfusion
    · exact hfips hsame.1
  exact ⟨hnot _ (by decide) (by decide), hnot _ (by decide) (by decide)⟩

end Overlay

end QudoSSL
