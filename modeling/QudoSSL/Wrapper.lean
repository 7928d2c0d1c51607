import QudoSSL.Posix.FileSystem

/-!
# The `qudossl` wrapper

`build/qudossl` looks for the `openssl` binary next to itself and delegates to it.  "Next to
itself" is computed from `BASH_SOURCE[0]`, the path the script was started by, with bash's textual
`cd`; no symbolic link is resolved on the way.
-/

namespace QudoSSL

open Posix

def qudoProductVersion : Text := txt "1.0.0"

inductive Final where
  | exit (status : Nat)
  | exec (bin : Text) (args : List Text)
  deriving DecidableEq

/-- What one start of the wrapper does: the programs it runs, as a child or by `exec`, what it
prints, and how it ends. -/
structure Outcome where
  ran : List (Text × List Text)
  stdout : List Text
  stderr : List Text
  final : Final

def selfDir (u : Utilities) (fs : FS) (w : Cwd) (source : Text) : Option Text :=
  -- self_dir="$(cd "$(dirname "${BASH_SOURCE[0]}")" && pwd)"
  (fs.cd w (substitute (u.dirname source))).map fun v => substitute (terminate v.pwd)

/-- The test of the candidate loop: executable, and not a symbolic link for whose own target
`basename` prints `qudossl`. -/
def usable (u : Utilities) (fs : FS) (w : Cwd) (c : Text) : Bool :=
  fs.isExec w.ino c &&
    match fs.readlink w.ino c with
    | none => true
    | some t => substitute (u.basename (substitute (terminate t))) != txt "qudossl"

def candidates (dir : Text) : List Text :=
  [dir ++ txt "/openssl", dir ++ txt "/../bin/openssl"]

def opensslBin (u : Utilities) (fs : FS) (w : Cwd) (dir : Text) : Option Text :=
  (candidates dir).find? (usable u fs w)

def versionFlags : List Text :=
  [txt "version", txt "-version", txt "--version", txt "-v"]

def banner (base : Text) : List Text :=
  [txt "QudoSSL " ++ qudoProductVersion ++ txt " (OpenSSL " ++ base ++ txt " base)",
    txt "Copyright (c) ZENV Quantum Private Limited. Apache License 2.0.",
    txt "Commercial build of unmodified upstream OpenSSL " ++ base ++ txt " LTS.",
    txt "Post-quantum TLS 1.3: ML-KEM (FIPS 203) hybrid key exchange.",
    txt "FIPS module: OpenSSL FIPS Provider  ·  https://zenv.ai/qudossl"]

/-- Starting `bin`.  When the kernel cannot start it, bash ends with status 126 and nothing has
run. -/
def start (fs : FS) (w : Cwd) (bin : Text) (args stdout : List Text) : Outcome :=
  if fs.isProgram w.ino bin then ⟨[(bin, args)], stdout, [], .exec bin args⟩
  else ⟨[], stdout, [], .exit 126⟩

/-- `awk '{print $2}'` over the output of `openssl version`. -/
def secondFields (t : Text) : Text :=
  substitute (((lines t).map fun l => terminate ((fields l).getD 1 [])).flatten)

/-- The script from its first line.  `version` is what `$openssl_bin version` would print, with the
pipeline's status; under `set -e` and `pipefail` a failing one ends a bare invocation inside
`banner`. -/
def qudossl (u : Utilities) (fs : FS) (w : Cwd) (source : Text) (args : List Text)
    (version : Text → Nat × Text) : Outcome :=
  match selfDir u fs w source with
  | none => ⟨[], [], [], .exit 1⟩
  | some dir =>
      match opensslBin u fs w dir with
      | none =>
          ⟨[], [],
            [txt "qudossl: cannot find the openssl binary next to " ++ dir,
              txt "qudossl: this wrapper never falls back to a system openssl."], .exit 1⟩
      | some bin =>
          match args with
          | [] =>
              if fs.isProgram w.ino bin then
                let (status, out) := version bin
                if status = 0 then
                  let o := start fs w bin [] (banner (secondFields out))
                  { o with ran := (bin, [txt "version"]) :: o.ran }
                else ⟨[(bin, [txt "version"])], [], [], .exit status⟩
              else ⟨[], [], [], .exit 126⟩
          | a :: _ =>
              if a ∈ versionFlags then
                ⟨[], [txt "QudoSSL " ++ qudoProductVersion], [], .exit 0⟩
              else start fs w bin args []

/-! ## Which binary runs -/

/-- The inode of `D/../bin`. -/
def siblingBin (fs : FS) (D : Nat) : Option Nat :=
  (fs.walk true D [txt "..", txt "bin"] fs.symloopMax).map Loc.ino

/-- The two directories whose `openssl` a wrapper installed in `D` may run. -/
def InstallDir (fs : FS) (D i : Nat) : Prop := i = D ∨ siblingBin fs D = some i

instance (fs : FS) (D i : Nat) : Decidable (InstallDir fs D i) :=
  inferInstanceAs (Decidable (_ ∨ _))

/-- The path is the name `openssl` in a directory the installation owns. -/
def InstalledOpenssl (fs : FS) (w : Cwd) (D : Nat) (bin : Text) : Prop :=
  ∃ dir i, bin = dir ++ txt "/openssl" ∧ fs.dirAt w.ino dir = some i ∧ InstallDir fs D i

/-- Nothing but the installation's own `openssl` runs. -/
def RunsOnlyInstalled (fs : FS) (w : Cwd) (D : Nat) (o : Outcome) : Prop :=
  ∀ r ∈ o.ran, InstalledOpenssl fs w D r.1

/-- A directory in which the wrapper would find a binary to run. -/
def Supplies (u : Utilities) (fs : FS) (w : Cwd) (dir : Text) : Prop :=
  usable u fs w (dir ++ txt "/openssl") = true ∧
    fs.isProgram w.ino (dir ++ txt "/openssl") = true

instance (u : Utilities) (fs : FS) (w : Cwd) (dir : Text) : Decidable (Supplies u fs w dir) :=
  inferInstanceAs (Decidable (_ ∧ _))

/-- The directory leads to one the installation owns. -/
def Owned (fs : FS) (w : Cwd) (D : Nat) (dir : Text) : Prop :=
  ∃ i, fs.dirAt w.ino dir = some i ∧ InstallDir fs D i

/-- Seen from the directory `dir` of the start path: if it supplies a binary it is the
installation's, and where it has no usable name `openssl` at all, the same goes for `../bin`. -/
def NoForeign (u : Utilities) (fs : FS) (w : Cwd) (D : Nat) (dir : Text) : Prop :=
  (Supplies u fs w dir → Owned fs w D dir) ∧
    (usable u fs w (dir ++ txt "/openssl") = false →
      Supplies u fs w (dir ++ txt "/../bin") → Owned fs w D (dir ++ txt "/../bin"))

theorem installedOpenssl_append (fs : FS) (w : Cwd) (D : Nat) (dir : Text) :
    InstalledOpenssl fs w D (dir ++ txt "/openssl") ↔ Owned fs w D dir := by
  constructor
  · rintro ⟨d, i, hd, hdir, hi⟩
    obtain rfl := List.append_cancel_right hd
    exact ⟨i, hdir, hi⟩
  · rintro ⟨i, hdir, hi⟩
    exact ⟨dir, i, rfl, hdir, hi⟩

theorem candidates_eq (dir : Text) :
    candidates dir = [dir ++ txt "/openssl", (dir ++ txt "/../bin") ++ txt "/openssl"] := by
  rw [List.append_assoc]
  rfl

-- The wrapper runs a program exactly when the loop settles on one the kernel can start and no
-- version flag stands first; it is then the only one.
theorem forall_ran_iff (u : Utilities) (fs : FS) (w : Cwd) (source : Text) (args : List Text)
    (version : Text → Nat × Text) (P : Text → Prop) :
    (∀ r ∈ (qudossl u fs w source args version).ran, P r.1) ↔
      ((∃ a ∈ args.head?, a ∈ versionFlags) ∨
        ∀ dir, selfDir u fs w source = some dir → ∀ bin, opensslBin u fs w dir = some bin →
          fs.isProgram w.ino bin = true → P bin) := by
  unfold qudossl
  cases hdir : selfDir u fs w source with
  | none => simp
  | some dir =>
      cases hbin : opensslBin u fs w dir with
      | none => simp [hbin]
      | some bin =>
          by_cases hprog : fs.isProgram w.ino bin = true
          · cases args with
            | nil => by_cases hst : (version bin).1 = 0 <;> simp [start, hbin, hprog, hst]
            | cons a as => by_cases hv : a ∈ versionFlags <;> simp [start, hbin, hprog, hv]
          · cases args with
            | nil => simp [hbin, hprog]
            | cons a as => by_cases hv : a ∈ versionFlags <;> simp [start, hbin, hprog, hv]

-- The candidate loop, read off the directory of the start path.
theorem forall_opensslBin_iff (u : Utilities) (fs : FS) (w : Cwd) (dir : Text) (P : Text → Prop) :
    (∀ bin, opensslBin u fs w dir = some bin → P bin) ↔
      (usable u fs w (dir ++ txt "/openssl") = true → P (dir ++ txt "/openssl")) ∧
        (usable u fs w (dir ++ txt "/openssl") = false →
          usable u fs w ((dir ++ txt "/../bin") ++ txt "/openssl") = true →
            P ((dir ++ txt "/../bin") ++ txt "/openssl")) := by
  unfold opensslBin
  rw [candidates_eq]
  by_cases h₁ : usable u fs w (dir ++ txt "/openssl") = true
  · rw [List.find?_cons_of_pos h₁]
    simp only [h₁, Option.some.injEq, forall_eq', true_implies, Bool.true_eq_false, false_implies,
      and_true]
  · rw [List.find?_cons_of_neg h₁]
    by_cases h₂ : usable u fs w ((dir ++ txt "/../bin") ++ txt "/openssl") = true
    · rw [List.find?_cons_of_pos h₂]
      simp only [h₁, h₂, Option.some.injEq, forall_eq', Bool.false_eq_true, false_implies,
        true_and, true_implies]
    · rw [List.find?_cons_of_neg h₂]
      simp only [h₁, h₂, List.find?_nil, reduceCtorEq, Bool.false_eq_true, false_implies,
        implies_true, and_self]

theorem noForeign_iff (u : Utilities) (fs : FS) (w : Cwd) (D : Nat) (dir : Text) :
    (∀ bin, opensslBin u fs w dir = some bin → fs.isProgram w.ino bin = true →
      InstalledOpenssl fs w D bin) ↔ NoForeign u fs w D dir := by
  rw [forall_opensslBin_iff]
  simp only [NoForeign, Supplies, installedOpenssl_append, and_imp]

/-- Started by a path that resolves to the wrapper installed in `loc.dir`, the wrapper runs nothing
but that installation's `openssl` exactly when a version flag stands first or the directory part of
the start path, as `cd` reads it, has no other installation's binary to offer. -/
theorem qudossl_runsOnlyInstalled_iff (u : Utilities) (fs : FS) (w : Cwd) (source : Text)
    (args : List Text) (version : Text → Nat × Text) (loc : Loc)
    (_hstart : fs.resolve true w.ino source = some loc) :
    RunsOnlyInstalled fs w loc.dir (qudossl u fs w source args version) ↔
      ((∃ a ∈ args.head?, a ∈ versionFlags) ∨
        ∀ v, fs.cd w (substitute (u.dirname source)) = some v →
          NoForeign u fs w loc.dir (substitute (terminate v.pwd))) := by
  refine (forall_ran_iff u fs w source args version (InstalledOpenssl fs w loc.dir)).trans ?_
  refine or_congr_right ?_
  simp only [noForeign_iff, selfDir, Option.map_eq_some_iff]
  constructor
  · intro h v hv
    exact h _ ⟨v, hv, rfl⟩
  · rintro h dir ⟨v, hv, rfl⟩
    exact h v hv

/-- A system `openssl` in `/usr/bin`, beside a symbolic link to the wrapper of `/opt/q/bin`. -/
def linkedFromUsrBin : FS where
  nodes :=
    [.dir 0 [(txt "usr", 1), (txt "opt", 4)], .dir 0 [(txt "bin", 2)],
      .dir 1 [(txt "openssl", 3), (txt "qudossl", 8)], .file true,
      .dir 0 [(txt "q", 5)], .dir 4 [(txt "bin", 6)],
      .dir 5 [(txt "openssl", 7), (txt "qudossl", 9)], .file true,
      .link (txt "/opt/q/bin/qudossl"), .file true]
  symloopMax := 40

/-- Started by its own name in `/opt/q/bin` the wrapper keeps to that directory. -/
theorem qudossl_in_place :
    RunsOnlyInstalled linkedFromUsrBin ⟨0, txt "/"⟩ 6
      (qudossl .silent linkedFromUsrBin ⟨0, txt "/"⟩ (txt "/opt/q/bin/qudossl") [txt "enc"]
        fun _ => (0, [])) := by
  refine (qudossl_runsOnlyInstalled_iff _ _ _ _ _ _ ⟨6, 9⟩ (by decide)).mpr (Or.inr ?_)
  intro v hv
  obtain rfl : ⟨6, txt "/opt/q/bin"⟩ = v := Option.some.inj (hv.symm.trans (by decide)).symm
  exact ⟨fun _ => ⟨6, by decide, Or.inl rfl⟩, fun h => absurd h (by decide)⟩

/-- Started through the link in `/usr/bin` it delegates to the system binary there. -/
theorem qudossl_runs_foreign :
    linkedFromUsrBin.resolve true 0 (txt "/usr/bin/qudossl") = some ⟨6, 9⟩ ∧
      ¬ RunsOnlyInstalled linkedFromUsrBin ⟨0, txt "/"⟩ 6
        (qudossl .silent linkedFromUsrBin ⟨0, txt "/"⟩ (txt "/usr/bin/qudossl") [txt "enc"]
          fun _ => (0, [])) := by
  refine ⟨by decide, fun h => ?_⟩
  have hran : (qudossl .silent linkedFromUsrBin ⟨0, txt "/"⟩ (txt "/usr/bin/qudossl") [txt "enc"]
      fun _ => (0, [])).ran = [(txt "/usr/bin" ++ txt "/openssl", [txt "enc"])] := by decide
  have hin := h _ (by rw [hran]; exact List.mem_singleton_self _)
  obtain ⟨i, hi, hdir⟩ := (installedOpenssl_append _ _ _ _).mp hin
  obtain rfl : 2 = i := Option.some.inj (hi.symm.trans (by decide)).symm
  exact absurd hdir (by decide)

end QudoSSL
