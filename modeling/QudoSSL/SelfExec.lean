import QudoSSL.Wrapper

/-!
# The wrapper and itself

A candidate that leads back to the wrapper starts the wrapper again, under the candidate's name.
The guard of the candidate loop looks at one name: it refuses a symbolic link for whose own target
`basename` prints `qudossl`, which it does not for `-x/qudossl`.
-/

namespace QudoSSL

open Posix

/-- With every link followed, the path leads to this inode. -/
def Reaches (fs : FS) (w : Cwd) (i : Nat) (p : Text) : Prop :=
  ∃ loc, fs.resolve true w.ino p = some loc ∧ loc.ino = i

instance (fs : FS) (w : Cwd) (i : Nat) (p : Text) : Decidable (Reaches fs w i p) :=
  match h : fs.resolve true w.ino p with
  | none => .isFalse (by simp [Reaches, h])
  | some loc => decidable_of_iff (loc.ino = i) (by simp [Reaches, h])

/-- The programs the outcome runs without becoming them. -/
def Outcome.children (o : Outcome) : List (Text × List Text) :=
  match o.final with
  | .exit _ => o.ran
  | .exec _ _ => o.ran.dropLast

/-- The wrapper itself and those of its children that are the wrapper again.  A child is
`openssl version`, and a wrapper in its place delegates to nothing. -/
def Outcome.executions (fs : FS) (w : Cwd) (script : Nat) (o : Outcome) : Nat :=
  1 + o.children.countP fun r => Reaches fs w script r.1

/-- How often the wrapper, whose inode is `script`, is executed until the invocation exits or some
other program runs; `none` when that takes more than `n` execs. -/
def wrapperRuns (u : Utilities) (fs : FS) (w : Cwd) (script : Nat) (version : Text → Nat × Text) :
    Nat → Text → List Text → Option Nat
  | 0, _, _ => none
  | n + 1, source, args =>
      let o := qudossl u fs w source args version
      match o.final with
      | .exit _ => some (o.executions fs w script)
      | .exec bin args' =>
          -- the kernel hands bash the path of the script, so it becomes `BASH_SOURCE[0]`
          if Reaches fs w script bin then
            (wrapperRuns u fs w script version n bin args').map (o.executions fs w script + ·)
          else some (o.executions fs w script)

/-- The candidate the loop settles on is not the wrapper. -/
def NeverItself (u : Utilities) (fs : FS) (w : Cwd) (script : Nat) (source : Text) : Prop :=
  ∀ dir, selfDir u fs w source = some dir → ∀ bin, opensslBin u fs w dir = some bin →
    ¬ Reaches fs w script bin

theorem not_reaches_of_mem_ran {u : Utilities} {fs : FS} {w : Cwd} {script : Nat} {source : Text}
    (h : NeverItself u fs w script source) (args : List Text) (version : Text → Nat × Text) :
    ∀ r ∈ (qudossl u fs w source args version).ran, ¬ Reaches fs w script r.1 :=
  (forall_ran_iff u fs w source args version (fun bin => ¬ Reaches fs w script bin)).mpr
    (.inr fun dir hdir bin hbin _ => h dir hdir bin hbin)

-- What the wrapper becomes is one of the programs it runs.
theorem exec_mem_ran {u : Utilities} {fs : FS} {w : Cwd} {source bin : Text}
    {args args' : List Text} {version : Text → Nat × Text}
    (h : (qudossl u fs w source args version).final = .exec bin args') :
    (bin, args') ∈ (qudossl u fs w source args version).ran := by
  unfold qudossl at h ⊢
  cases hdir : selfDir u fs w source with
  | none => simp [hdir] at h
  | some dir =>
      cases hbin : opensslBin u fs w dir with
      | none => simp [hdir, hbin] at h
      | some b =>
          simp only [hdir, hbin, start] at h ⊢
          by_cases hprog : fs.isProgram w.ino b = true
          · cases args with
            | nil => by_cases hst : (version b).1 = 0 <;> simp_all
            | cons a as => by_cases hv : a ∈ versionFlags <;> simp_all
          · cases args with
            | nil => simp [hprog] at h
            | cons a as => by_cases hv : a ∈ versionFlags <;> simp [hprog, hv] at h

theorem executions_eq_one {fs : FS} {w : Cwd} {script : Nat} {o : Outcome}
    (h : ∀ r ∈ o.ran, ¬ Reaches fs w script r.1) : o.executions fs w script = 1 := by
  have hnone : o.children.countP (fun r => Reaches fs w script r.1) = 0 := by
    rw [List.countP_eq_zero]
    intro r hr
    have hmem : r ∈ o.ran := by
      unfold Outcome.children at hr
      split at hr
      · exact hr
      · exact List.mem_of_mem_dropLast hr
    simpa using h r hmem
  rw [Outcome.executions, hnone]

theorem wrapperRuns_one {u : Utilities} {fs : FS} {w : Cwd} {script : Nat} {source : Text}
    (h : NeverItself u fs w script source) (args : List Text) (version : Text → Nat × Text) :
    wrapperRuns u fs w script version 1 source args = some 1 := by
  have hran := not_reaches_of_mem_ran h args version
  have hone := executions_eq_one hran
  simp only [wrapperRuns]
  cases hfinal : (qudossl u fs w source args version).final with
  | exit status => exact congrArg some hone
  | exec bin args' =>
      show (if Reaches fs w script bin then _ else some _) = _
      rw [if_neg (hran _ (exec_mem_ran hfinal)), hone]

/-! ## Disguises -/

/-- The name is another name of the wrapper, or a symbolic link that leads to it and for whose own
target `basename` does not print `qudossl`. -/
def Disguised (u : Utilities) (fs : FS) (w : Cwd) (script : Nat) (c : Text) : Prop :=
  (∃ loc, fs.resolve false w.ino c = some loc ∧ loc.ino = script) ∨
    ∃ t, fs.readlink w.ino c = some t ∧
      substitute (u.basename (substitute (terminate t))) ≠ txt "qudossl" ∧
      Reaches fs w script c

theorem isExec_of_reaches {fs : FS} {w : Cwd} {script : Nat} {c : Text} {x : Bool}
    (hs : fs.nodes[script]? = some (.file x)) (h : Reaches fs w script c) :
    fs.isExec w.ino c = x := by
  obtain ⟨loc, hloc, rfl⟩ := h
  simp [FS.isExec, FS.stat, hloc, hs]

theorem usable_reaches_iff {u : Utilities} {fs : FS} {w : Cwd} {script : Nat} {c : Text} {x : Bool}
    (hs : fs.nodes[script]? = some (.file x)) :
    (usable u fs w c = true ∧ Reaches fs w script c) ↔ x = true ∧ Disguised u fs w script c := by
  unfold usable Disguised
  cases hlink : fs.readlink w.ino c with
  | none =>
      -- the name itself is the wrapper's
      have hname : Reaches fs w script c ↔
          ∃ loc, fs.resolve false w.ino c = some loc ∧ loc.ino = script :=
        exists_congr fun loc => and_congr_left' (FS.resolve_true_iff_of_readlink hlink loc)
      simp only [Bool.and_true, reduceCtorEq, false_and, exists_false, or_false, ← hname]
      exact and_congr_left fun h => by rw [isExec_of_reaches hs h]
  | some t =>
      have hnot : ¬ ∃ loc, fs.resolve false w.ino c = some loc ∧ loc.ino = script := by
        rintro ⟨loc, hloc, rfl⟩
        obtain ⟨l, hl, ht⟩ := FS.readlink_eq_some_iff.mp hlink
        rw [hloc] at hl
        cases hl
        rw [hs] at ht
        cases ht
      simp only [Bool.and_eq_true, bne_iff_ne, Option.some.injEq, exists_eq_left', hnot, false_or]
      constructor
      · rintro ⟨⟨hx, hne⟩, hr⟩
        rw [isExec_of_reaches hs hr] at hx
        exact ⟨hx, hne, hr⟩
      · rintro ⟨hx, hne, hr⟩
        rw [isExec_of_reaches hs hr]
        exact ⟨⟨hx, hne⟩, hr⟩

/-- Seen from the directory `dir` of the start path: its `openssl` is no disguise of the wrapper,
and where it has no usable `openssl` the same goes for `../bin`. -/
def NoDisguise (u : Utilities) (fs : FS) (w : Cwd) (script : Nat) (dir : Text) : Prop :=
  ¬ Disguised u fs w script (dir ++ txt "/openssl") ∧
    (usable u fs w (dir ++ txt "/openssl") = false →
      ¬ Disguised u fs w script (dir ++ txt "/../bin" ++ txt "/openssl"))

theorem noDisguise_iff {u : Utilities} {fs : FS} {w : Cwd} {script : Nat} {x : Bool}
    (hs : fs.nodes[script]? = some (.file x)) (dir : Text) :
    (∀ bin, opensslBin u fs w dir = some bin → ¬ Reaches fs w script bin) ↔
      (x = true → NoDisguise u fs w script dir) := by
  have hcand : ∀ c, (usable u fs w c = true → ¬ Reaches fs w script c) ↔
      (x = true → ¬ Disguised u fs w script c) := by
    intro c
    rw [← not_and, usable_reaches_iff hs, not_and]
  rw [forall_opensslBin_iff, hcand, hcand, NoDisguise]
  tauto

/-- The wrapper, an executable file or not, is executed once and never delegates to itself exactly
when the directory part of the start path, as `cd` reads it, offers no disguise of it. -/
theorem qudossl_executed_once_iff (u : Utilities) (fs : FS) (w : Cwd) (source : Text)
    (args : List Text) (version : Text → Nat × Text) (script : Nat) (x : Bool)
    (hs : fs.nodes[script]? = some (.file x)) :
    (NeverItself u fs w script source ∧
        ∃ n, wrapperRuns u fs w script version n source args = some 1) ↔
      (x = true → ∀ v, fs.cd w (substitute (u.dirname source)) = some v →
        NoDisguise u fs w script (substitute (terminate v.pwd))) := by
  have honce : (NeverItself u fs w script source ∧
      ∃ n, wrapperRuns u fs w script version n source args = some 1) ↔
      NeverItself u fs w script source :=
    and_iff_left_of_imp fun h => ⟨1, wrapperRuns_one h args version⟩
  rw [honce]
  unfold NeverItself
  simp only [noDisguise_iff hs, selfDir, Option.map_eq_some_iff]
  constructor
  · intro h hx v hv
    exact h _ ⟨v, hv, rfl⟩ hx
  · rintro h dir ⟨v, hv, rfl⟩ hx
    exact h hx v hv

theorem qudossl_executed_once_in_place :
    linkedFromUsrBin.nodes[9]? = some (.file true) ∧
      NeverItself .silent linkedFromUsrBin ⟨0, txt "/"⟩ 9 (txt "/opt/q/bin/qudossl") ∧
      ∃ n, wrapperRuns .silent linkedFromUsrBin ⟨0, txt "/"⟩ 9 (fun _ => (0, [])) n
        (txt "/opt/q/bin/qudossl") [txt "enc"] = some 1 := by
  have hs : linkedFromUsrBin.nodes[9]? = some (.file true) := by decide
  refine ⟨hs, (qudossl_executed_once_iff _ _ _ _ _ _ _ true hs).mpr fun _ v hv => ?_⟩
  obtain rfl : ⟨6, txt "/opt/q/bin"⟩ = v := Option.some.inj (hv.symm.trans (by decide)).symm
  refine ⟨fun h => ?_, fun h => absurd h (by decide)⟩
  have hboth := (usable_reaches_iff hs).mpr ⟨rfl, h⟩
  exact absurd hboth.2 (by decide)

/-! ## Endless chains -/

theorem wrapperRuns_exec {u : Utilities} {fs : FS} {w : Cwd} {script : Nat}
    {version : Text → Nat × Text} {source bin : Text} {args args' : List Text}
    (hfinal : (qudossl u fs w source args version).final = .exec bin args')
    (hr : Reaches fs w script bin) (n : Nat) :
    wrapperRuns u fs w script version (n + 1) source args =
      (wrapperRuns u fs w script version n bin args').map
        ((qudossl u fs w source args version).executions fs w script + ·) := by
  simp only [wrapperRuns, hfinal, if_pos hr]

-- A wrapper that delegates to the name it was started by does so for ever.
theorem wrapperRuns_endless {u : Utilities} {fs : FS} {w : Cwd} {script : Nat}
    {version : Text → Nat × Text} {bin : Text} {args : List Text}
    (hfinal : (qudossl u fs w bin args version).final = .exec bin args)
    (hr : Reaches fs w script bin) (n : Nat) :
    wrapperRuns u fs w script version n bin args = none := by
  induction n with
  | zero => rfl
  | succ n ih => rw [wrapperRuns_exec hfinal hr, ih, Option.map_none]

/-- `openssl` and `qudossl` of `/opt/q/bin` are hard links to one file. -/
def hardLinked : FS where
  nodes :=
    [.dir 0 [(txt "opt", 1)], .dir 0 [(txt "q", 2)], .dir 1 [(txt "bin", 3)],
      .dir 2 [(txt "openssl", 4), (txt "qudossl", 4)], .file true]
  symloopMax := 40

/-- `/opt/q/bin/openssl` is a link into `/etc/alternatives`, and that one a link to the wrapper. -/
def alternatives : FS where
  nodes :=
    [.dir 0 [(txt "opt", 1), (txt "etc", 4)], .dir 0 [(txt "q", 2)], .dir 1 [(txt "bin", 3)],
      .dir 2 [(txt "openssl", 6), (txt "qudossl", 7)], .dir 0 [(txt "alternatives", 5)],
      .dir 4 [(txt "openssl", 8)], .link (txt "/etc/alternatives/openssl"), .file true,
      .link (txt "/opt/q/bin/qudossl")]
  symloopMax := 40

/-- In both, `qudossl enc` execs itself until something else stops it. -/
theorem qudossl_execs_itself :
    (∀ n, wrapperRuns .silent hardLinked ⟨0, txt "/"⟩ 4 (fun _ => (0, [])) n
        (txt "/opt/q/bin/qudossl") [txt "enc"] = none) ∧
      (∀ n, wrapperRuns .silent alternatives ⟨0, txt "/"⟩ 7 (fun _ => (0, [])) n
        (txt "/opt/q/bin/qudossl") [txt "enc"] = none) ∧
      ¬ NeverItself .silent hardLinked ⟨0, txt "/"⟩ 4 (txt "/opt/q/bin/qudossl") ∧
      ¬ NeverItself .silent alternatives ⟨0, txt "/"⟩ 7 (txt "/opt/q/bin/qudossl") := by
  have hloop : ∀ fs script,
      Reaches fs ⟨0, txt "/"⟩ script (txt "/opt/q/bin/openssl") →
      (qudossl .silent fs ⟨0, txt "/"⟩ (txt "/opt/q/bin/qudossl") [txt "enc"]
        fun _ => (0, [])).final = .exec (txt "/opt/q/bin/openssl") [txt "enc"] →
      (qudossl .silent fs ⟨0, txt "/"⟩ (txt "/opt/q/bin/openssl") [txt "enc"]
        fun _ => (0, [])).final = .exec (txt "/opt/q/bin/openssl") [txt "enc"] →
      ∀ n, wrapperRuns .silent fs ⟨0, txt "/"⟩ script (fun _ => (0, [])) n
        (txt "/opt/q/bin/qudossl") [txt "enc"] = none := by
    intro fs script hr hfirst hagain n
    cases n with
    | zero => rfl
    | succ n => rw [wrapperRuns_exec hfirst hr, wrapperRuns_endless hagain hr, Option.map_none]
  refine ⟨hloop _ _ (by decide) (by decide) (by decide),
    hloop _ _ (by decide) (by decide) (by decide), fun h => ?_, fun h => ?_⟩
  · exact h (txt "/opt/q/bin") (by decide) (txt "/opt/q/bin/openssl") (by decide) (by decide)
  · exact h (txt "/opt/q/bin") (by decide) (txt "/opt/q/bin/openssl") (by decide) (by decide)

end QudoSSL
