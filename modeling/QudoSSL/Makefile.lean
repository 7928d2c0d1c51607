import QudoSSL.Posix.Recipe
import QudoSSL.Posix.Shell
import QudoSSL.Pristine

/-!
# The goals of `build/Makefile`

The configure, build and install rules for the two vendored trees, over a state that has the trees
and the `configdata.pm` that `Configure` leaves in each.  What the commands outside this repository
do (Configure, the upstream makefiles, git) is the invocation's, in `Env`.
-/

namespace QudoSSL

open Posix

inductive Vendored where
  | openssl
  | fips
  deriving DecidableEq

/-- A `configdata.pm`: the recorded prefix, whatever else `Configure` wrote, and the file's
modification time. -/
structure ConfigData where
  pfx : Text
  other : List Text
  mtime : Nat
  deriving DecidableEq

def prefixFlag : Text := txt "--prefix="

/-- The file's lines.  `Configure` keeps its arguments verbatim in a Perl list. -/
def ConfigData.lines (d : ConfigData) : List Text :=
  (txt "            \"" ++ prefixFlag ++ d.pfx ++ txt "\",") :: d.other

def ConfigData.foreign (d : ConfigData) : Bool :=
  -- grep -qE '\+qudo|QudoSSL' configdata.pm
  d.lines.any (search vendorStamp)

structure Build where
  root : Text
  checkout : Checkout
  libConfig : Option ConfigData
  fipsConfig : Option ConfigData
  /-- Modification time of `openssl-fips/Configure`. -/
  configureMtime : Nat

inductive Command where
  | configureLib | reconfigureLib | makeLib | makeTest | makeInstall | makeInstallSw
  | makeInstallSsldirs | configureFips | makeGenerated | makeModule | installDirs | installModule
  | fipsinstall | moduleName | moduleVersion | moduleStamp | cleanLib | cleanFips
  deriving DecidableEq

/-- One invocation of make: the value of `PREFIX` as the shell sees it, which commands succeed, what
`git submodule update --init` brings (working tree, index, time of `Configure`), what `Configure`
writes beside the prefix, and whether `$(PREFIX)/bin/openssl` is there when it is asked for. -/
structure Env where
  pfx : Text
  ok : Command → Bool
  submodule : Option (Tree × Option Tree × Nat)
  written : Vendored → List Text × Nat
  opensslInstalled : Bool
  /-- `--prefix=$(PREFIX)` is a pathname pattern that some path matches. -/
  globs : Bool
  /-- Whether `grep` finds a pattern that is not read here. -/
  grep : Text → List Text → Bool
  /-- What comes of a recipe line in which the shell does not take `$(PREFIX)` as it stands: the
  `configdata.pm` it leaves in place of the one there was, and its status. -/
  line : Command → Option ConfigData → Option ConfigData × Bool

/-- The shell takes `$(PREFIX)` as it stands wherever the makefile has it. -/
def Env.verbatim (env : Env) : Bool :=
  env.pfx.all fun c => !special c && !(wildcard c && env.globs)

/-- The `configdata.pm` that `Configure` writes for this prefix argument. -/
def Env.config (env : Env) (tree : Vendored) (p : Text) : ConfigData :=
  ⟨p, (env.written tree).1, (env.written tree).2⟩

/-- Events carry the state in which they happen. -/
inductive Event where
  | gate (checkout : Checkout) (ok : Bool)
  | configure (tree : Vendored) (s : Build)
  | compile (tree : Vendored) (s : Build)
  | install (tree : Vendored) (s : Build)

/-- A recipe that calls `Configure`, if it gets that far, and leaves the sources alone. -/
def ConfiguresOnly (tree : Vendored) (r : Recipe Build Event) : Prop :=
  ∀ s, ∃ s' ok, r s = ⟨[.configure tree s], s', ok⟩ ∧ s'.checkout = s.checkout ∧ s'.root = s.root

/-- A command that leaves the modelled state alone. -/
def run (env : Env) (c : Command) : Recipe Build Event := fun s => ⟨[], s, env.ok c⟩

/-- A command that reads a vendored tree to compile or install from it.  Whether the upstream
makefile finds anything out of date is not modelled: the event stands for the call. -/
def command (env : Env) (c : Command) (event : Build → Event) : Recipe Build Event :=
  fun s => ⟨[event s], s, env.ok c⟩

def verifyPristineRule : Recipe Build Event := fun s =>
  let ok := (verifyPristine s.root s.checkout).2 == 0
  ⟨[.gate s.checkout ok], s, ok⟩

/-! ## The libraries -/

/-- `./Configure ... --prefix=$(PREFIX) ...`, with `$(PREFIX)` unquoted: the `configdata.pm` there
is afterwards, and whether the recipe goes on. -/
def configured (env : Env) (c : Command) (tree : Vendored) (old : Option ConfigData) :
    Option ConfigData × Bool :=
  if env.verbatim then
    if env.ok c then (some (env.config tree env.pfx), true) else (old, false)
  else env.line c old

def configureLib (env : Env) (c : Command) : Recipe Build Event := fun s =>
  let (config, ok) := configured env c .openssl s.libConfig
  ⟨[.configure .openssl s], { s with libConfig := config }, ok⟩

theorem configureLib_configuresOnly (env : Env) (c : Command) :
    ConfiguresOnly .openssl (configureLib env c) :=
  fun _ => ⟨_, _, rfl, rfl, rfl⟩

/-- `openssl/configdata.pm: | verify-pristine`.  The order-only phony prerequisite always runs; the
recipe runs when the file is missing. -/
def libConfigdata (env : Env) : Recipe Build Event :=
  Recipe.seq [verifyPristineRule,
    Recipe.onlyIf (fun s => s.libConfig.isNone) (configureLib env .configureLib)]

/-- `grep -q -- '--prefix=$(PREFIX)' configdata.pm`. -/
def grepPrefix (env : Env) (d : ConfigData) : Bool :=
  match bre (prefixFlag ++ env.pfx) with
  | none => env.grep (prefixFlag ++ env.pfx) d.lines
  | some p => d.lines.any (search p)

def prefixChanged (env : Env) (config : Option ConfigData) : Bool :=
  -- ! grep -q -- '--prefix=$(PREFIX)' configdata.pm || grep -qE '\+qudo|QudoSSL' configdata.pm
  match config with
  | none => true
  | some d => !grepPrefix env d || d.foreign

/-- The first recipe line of `openssl`.  Where the shell does not take `$(PREFIX)` as it stands, the
search is changed with the rest of the line. -/
def reconfigure (env : Env) : Recipe Build Event :=
  Recipe.onlyIf (fun s => !env.verbatim || prefixChanged env s.libConfig)
    (configureLib env .reconfigureLib)

def openssl (env : Env) : Recipe Build Event :=
  Recipe.seq [libConfigdata env, reconfigure env, command env .makeLib (.compile .openssl)]

def test (env : Env) : Recipe Build Event :=
  Recipe.seq [openssl env, command env .makeTest (.compile .openssl)]

def installCli (env : Env) : Recipe Build Event := fun s => ⟨[], s, env.opensslInstalled⟩

def install (env : Env) : Recipe Build Event :=
  Recipe.seq [openssl env, command env .makeInstall (.install .openssl), installCli env]

def installSw (env : Env) : Recipe Build Event :=
  Recipe.seq [openssl env, command env .makeInstallSw (.install .openssl), installCli env]

def installSsldirs (env : Env) : Recipe Build Event :=
  Recipe.seq [openssl env, command env .makeInstallSsldirs (.install .openssl)]

/-! ## The FIPS module -/

/-- The state with the submodule materialised: as it is when `openssl-fips/Configure` exists, else
with what `git submodule update --init` brings, if it succeeds. -/
def materialise (env : Env) (s : Build) : Option Build :=
  if s.checkout.fips.lookup configureFile ≠ none then some s
  else
    env.submodule.map fun (worktree, index, mtime) =>
      { s with
        checkout := { s.checkout with fips := worktree, git := index }, configureMtime := mtime }

/-- The rule for `openssl-fips/Configure`. -/
def fipsConfigure (env : Env) : Recipe Build Event := fun s =>
  match materialise env s with
  | none => Recipe.fail s
  | some s' => ⟨[], s', true⟩

/-- `openssl-fips/configdata.pm` is missing or older than `openssl-fips/Configure`; a prerequisite
that its own rule could not produce counts as newer. -/
def fipsStale (s : Build) : Bool :=
  match s.fipsConfig with
  | none => true
  | some d => s.checkout.fips.lookup configureFile = none || d.mtime < s.configureMtime

def configureFips (env : Env) : Recipe Build Event := fun s =>
  let (config, ok) := configured env .configureFips .fips s.fipsConfig
  ⟨[.configure .fips s], { s with fipsConfig := config }, ok⟩

theorem configureFips_configuresOnly (env : Env) : ConfiguresOnly .fips (configureFips env) :=
  fun _ => ⟨_, _, rfl, rfl, rfl⟩

/-- `openssl-fips/configdata.pm: openssl-fips/Configure`.  The gate is a line of this recipe. -/
def fipsConfigdata (env : Env) : Recipe Build Event :=
  Recipe.seq [fipsConfigure env,
    Recipe.onlyIf fipsStale (Recipe.seq [verifyPristineRule, configureFips env])]

/-- `rm -f openssl-fips/configdata.pm` when it carries foreign metadata. -/
def discardForeign : Recipe Build Event := fun s =>
  ⟨[], { s with fipsConfig := s.fipsConfig.filter (!·.foreign) }, true⟩

def fipsModule (env : Env) : Recipe Build Event :=
  Recipe.seq [fipsConfigure env, discardForeign, fipsConfigdata env,
    command env .makeGenerated (.compile .fips), command env .makeModule (.compile .fips)]

def installFips (env : Env) : Recipe Build Event :=
  Recipe.seq [fipsModule env, installCli env, run env .installDirs,
    command env .installModule (.install .fips), run env .fipsinstall, run env .moduleName,
    run env .moduleVersion, run env .moduleStamp]

/-! ## Cleaning -/

def clean (env : Env) : Recipe Build Event :=
  Recipe.seq [Recipe.ignoring (run env .cleanLib), Recipe.ignoring (run env .cleanFips)]

def distclean (env : Env) : Recipe Build Event :=
  Recipe.seq [Recipe.ignoring (run env .cleanLib), Recipe.ignoring (run env .cleanFips),
    fun s => ⟨[], { s with libConfig := none, fipsConfig := none }, true⟩]

/-! ## Invocations and edits -/

inductive Goal where
  | all | openssl | test | install | installSw | installSsldirs | fipsModule | installFips | clean
  | distclean
  deriving DecidableEq

def goal (env : Env) : Goal → Recipe Build Event
  | .all | .openssl => openssl env
  | .test => test env
  | .install => install env
  | .installSw => installSw env
  | .installSsldirs => installSsldirs env
  | .fipsModule => fipsModule env
  | .installFips => installFips env
  | .clean => clean env
  | .distclean => distclean env

/-- What happens to the working copy: someone edits the files of one tree, its `configdata.pm` and
the time of its `Configure` included, or make is invoked. -/
inductive Action where
  | edit (tree : Vendored) (files : Tree) (config : Option ConfigData) (configureMtime : Nat)
  | make (g : Goal) (env : Env)

def perform (s : Build) : Action → Result Build Event
  | .edit .openssl files config _ =>
      ⟨[], { s with checkout := { s.checkout with openssl := files }, libConfig := config }, true⟩
  | .edit .fips files config mtime =>
      ⟨[], { s with
        checkout := { s.checkout with fips := files }, fipsConfig := config,
        configureMtime := mtime }, true⟩
  | .make g env => goal env g s

def step (s : Build) (a : Action) : Build := (perform s a).state

end QudoSSL
