import QudoSSL.Makefile

/-!
# The gate over whole runs of make

Every goal that reads `openssl/` passes `verify-pristine` first, in the same invocation.  The goals
that read `openssl-fips/` pass it only when `openssl-fips/configdata.pm` is remade.
-/

namespace QudoSSL

open Posix

/-- Compiling and installing come after a successful gate on the content they read, and the gate
would indeed pass that content. -/
def gated (h : List Event) : Event → Prop
  | .compile _ s | .install _ s =>
      Event.gate s.checkout true ∈ h ∧ (verifyPristine s.root s.checkout).2 = 0
  | _ => True

/-- The gate has succeeded on the content as it is now. -/
def Verified (h : List Event) (s : Build) : Prop :=
  Event.gate s.checkout true ∈ h ∧ (verifyPristine s.root s.checkout).2 = 0

/-! ## What the commands keep -/

theorem verifyPristineRule_triple (P : List Event → Build → Prop) :
    Triple gated P verifyPristineRule Verified := by
  intro h s _
  refine ⟨⟨trivial, trivial⟩, fun hok => ?_⟩
  have hstatus : (verifyPristine s.root s.checkout).2 = 0 := by
    simpa [verifyPristineRule] using hok
  refine ⟨?_, hstatus⟩
  simp [verifyPristineRule, hstatus]

-- A recipe that only reads the sources and neither compiles nor installs.
theorem verified_of_frame {r : Recipe Build Event}
    (hevents : ∀ s, ∀ e ∈ (r s).events, ∀ h, gated h e)
    (hstate : ∀ s, (r s).state.checkout = s.checkout ∧ (r s).state.root = s.root) :
    Triple gated Verified r Verified := by
  have htrace : ∀ es : List Event, (∀ e ∈ es, ∀ h, gated h e) → ∀ h, TraceOk gated h es := by
    intro es hes
    induction es with
    | nil => exact fun _ => trivial
    | cons e es ih =>
        exact fun h => ⟨hes e List.mem_cons_self h,
          ih (fun e' he' => hes e' (List.mem_cons_of_mem _ he')) _⟩
  intro h s hv
  refine ⟨htrace _ (hevents s) h, fun _ => ?_⟩
  unfold Verified at hv ⊢
  rw [(hstate s).1, (hstate s).2]
  exact ⟨List.mem_append_left _ hv.1, hv.2⟩

theorem command_triple (env : Env) (c : Command) (tree : Vendored) :
    Triple gated Verified (command env c (.compile tree)) Verified ∧
      Triple gated Verified (command env c (.install tree)) Verified := by
  constructor <;>
    exact fun h s hv => ⟨⟨hv, trivial⟩, fun _ => ⟨List.mem_append_left _ hv.1, hv.2⟩⟩

theorem run_triple (env : Env) (c : Command) : Triple gated Verified (run env c) Verified :=
  verified_of_frame (fun s e he => by simp [run] at he) fun s => ⟨rfl, rfl⟩

theorem installCli_triple (env : Env) : Triple gated Verified (installCli env) Verified :=
  verified_of_frame (fun s e he => by simp [installCli] at he) fun s => ⟨rfl, rfl⟩

theorem ConfiguresOnly.triple {tree : Vendored} {r : Recipe Build Event}
    (hr : ConfiguresOnly tree r) : Triple gated Verified r Verified := by
  apply verified_of_frame
  · intro s e he h
    obtain ⟨s', ok, hs, -⟩ := hr s
    rw [hs] at he
    rw [List.mem_singleton.mp he]
    trivial
  · intro s
    obtain ⟨s', ok, hs, hkept⟩ := hr s
    rw [hs]
    exact hkept

theorem onlyIf_triple {b : Build → Bool} {r : Recipe Build Event}
    (hr : Triple gated Verified r Verified) :
    Triple gated Verified (Recipe.onlyIf b r) Verified :=
  Triple.onlyIf (hr.strengthen fun _ _ h => h.1) fun _ _ h _ => h

theorem reconfigure_triple (env : Env) : Triple gated Verified (reconfigure env) Verified :=
  onlyIf_triple (configureLib_configuresOnly env .reconfigureLib).triple

/-! ## The libraries' goals -/

theorem openssl_triple (env : Env) (P : List Event → Build → Prop) :
    Triple gated P (openssl env) Verified := by
  have hconfigure : Triple gated Verified (configureLib env .configureLib) Verified :=
    (configureLib_configuresOnly env .configureLib).triple
  have hconfig : Triple gated P (libConfigdata env) Verified :=
    Triple.seq_cons (verifyPristineRule_triple P)
      (Triple.seq_cons (onlyIf_triple hconfigure) Triple.seq_nil)
  refine Triple.seq_cons hconfig (Triple.seq_of_forall ?_)
  intro r hr
  rcases List.mem_cons.mp hr with rfl | hr
  · exact reconfigure_triple env
  · rw [List.mem_singleton.mp hr]
    exact (command_triple env .makeLib .openssl).1

-- A goal that starts with `openssl` and goes on with commands that keep the content.
theorem after_openssl_triple (env : Env) (P : List Event → Build → Prop)
    (rs : List (Recipe Build Event)) (hrs : ∀ r ∈ rs, Triple gated Verified r Verified) :
    Triple gated P (Recipe.seq (openssl env :: rs)) Verified :=
  Triple.seq_cons (openssl_triple env P) (Triple.seq_of_forall hrs)

theorem install_triple (env : Env) (P : List Event → Build → Prop) (c : Command) :
    Triple gated P
      (Recipe.seq [openssl env, command env c (.install .openssl), installCli env]) Verified := by
  apply after_openssl_triple
  intro r hr
  rcases List.mem_cons.mp hr with rfl | hr
  · exact (command_triple env c .openssl).2
  · rw [List.mem_singleton.mp hr]
    exact installCli_triple env

/-! ## The FIPS module's goals -/

/-- With the submodule materialised, `openssl-fips/configdata.pm` is missing, foreign or older than
`openssl-fips/Configure`, so that it is going to be remade. -/
def Regates (env : Env) (s : Build) : Prop :=
  ∀ s', materialise env s = some s' → ∀ d, s'.fipsConfig = some d →
    d.foreign = true ∨ s'.checkout.fips.lookup configureFile = none ∨ d.mtime < s'.configureMtime

-- Materialising changes nothing the second time, whatever has become of `configdata.pm`.
theorem materialise_idem {env : Env} {s s' : Build} (h : materialise env s = some s')
    (config : Option ConfigData) :
    materialise env { s' with fipsConfig := config } = some { s' with fipsConfig := config } := by
  unfold materialise at h ⊢
  by_cases hc : s.checkout.fips.lookup configureFile ≠ none
  · rw [if_pos hc] at h
    obtain rfl := Option.some.inj h
    rw [if_pos hc]
  · rw [if_neg hc] at h
    obtain ⟨⟨worktree, index, mtime⟩, hsub, rfl⟩ := Option.map_eq_some_iff.mp h
    by_cases hw : worktree.lookup configureFile ≠ none
    · exact if_pos hw
    · exact (if_neg hw).trans (by rw [hsub]; rfl)

theorem fipsStale_discardForeign {s : Build}
    (h : ∀ d, s.fipsConfig = some d →
      d.foreign = true ∨ s.checkout.fips.lookup configureFile = none ∨ d.mtime < s.configureMtime) :
    fipsStale (discardForeign s).state = true := by
  unfold fipsStale discardForeign
  cases hd : s.fipsConfig with
  | none => rfl
  | some d =>
      cases hf : d.foreign with
      | true => simp [Option.filter, hf]
      | false =>
          have hold := (h d hd).resolve_left (by simp [hf])
          simpa [Option.filter, hf] using hold

-- A module that is going to be reconfigured is built behind the gate.
theorem fipsModule_triple (env : Env) :
    Triple gated (fun _ s => Regates env s) (fipsModule env) Verified := by
  -- the materialised state, whose `configdata.pm` the sub-make will find out of date
  let Stale := fun (_ : List Event) (s : Build) => materialise env s = some s ∧ fipsStale s = true
  let Fetched := fun (_ : List Event) (s : Build) =>
    materialise env s = some s ∧ fipsStale (discardForeign s).state = true
  have hfetch : Triple gated (fun _ s => Regates env s) (fipsConfigure env) Fetched := by
    intro h s hre
    unfold fipsConfigure
    split
    · exact ⟨trivial, fun hok => by simp [Recipe.fail] at hok⟩
    · next s' hs' =>
      exact ⟨trivial, fun _ => ⟨materialise_idem hs' s'.fipsConfig,
        fipsStale_discardForeign (hre s' hs')⟩⟩
  have hdiscard : Triple gated Fetched discardForeign Stale := by
    rintro h s ⟨hmat, hstale⟩
    exact ⟨trivial, fun _ => ⟨materialise_idem hmat _, hstale⟩⟩
  have hagain : Triple gated Stale (fipsConfigure env) Stale := by
    rintro h s ⟨hmat, hstale⟩
    unfold fipsConfigure
    rw [hmat]
    exact ⟨trivial, fun _ => ⟨hmat, hstale⟩⟩
  have hremake : Triple gated Stale (Recipe.onlyIf fipsStale
      (Recipe.seq [verifyPristineRule, configureFips env])) Verified := by
    apply Triple.onlyIf
    · exact Triple.seq_cons (verifyPristineRule_triple _)
        (Triple.seq_cons (configureFips_configuresOnly env).triple Triple.seq_nil)
    · rintro h s ⟨-, hstale⟩ hfresh
      simp [hstale] at hfresh
  have hconfig : Triple gated Stale (fipsConfigdata env) Verified :=
    Triple.seq_cons hagain (Triple.seq_cons hremake Triple.seq_nil)
  exact Triple.seq_cons hfetch (Triple.seq_cons hdiscard (Triple.seq_cons hconfig
    (Triple.seq_cons (command_triple env .makeGenerated .fips).1
      (Triple.seq_cons (command_triple env .makeModule .fips).1 Triple.seq_nil))))

-- A module whose `configdata.pm` is up to date is compiled before anything else happens.
theorem regates_of_fipsModule_traceOk {env : Env} {s : Build}
    (ht : TraceOk gated [] (fipsModule env s).events) : Regates env s := by
  intro s' hmat d hd
  by_contra hfresh
  push Not at hfresh
  obtain ⟨hforeign, hconf, hnew⟩ := hfresh
  rw [ne_eq, Bool.not_eq_true] at hforeign
  have hfetch : fipsConfigure env s = ⟨[], s', true⟩ := by simp [fipsConfigure, hmat]
  have hkeep : discardForeign s' = ⟨[], s', true⟩ := by
    have hfilter : s'.fipsConfig.filter (!·.foreign) = s'.fipsConfig := by
      simp [hd, Option.filter, hforeign]
    simp [discardForeign, hfilter]
  have hagain : fipsConfigure env s' = ⟨[], s', true⟩ := by
    simp [fipsConfigure, materialise, hconf]
  have hnot : fipsStale s' = false := by simp [fipsStale, hd, hconf, hnew]
  have hconfig : fipsConfigdata env s' = ⟨[], s', true⟩ := by
    rw [fipsConfigdata, Recipe.seq, Recipe.andThen_silent hagain]
    simp [Recipe.seq, Recipe.andThen, Recipe.onlyIf, hnot, Recipe.skip]
  rw [fipsModule, Recipe.seq, Recipe.andThen_silent hfetch, Recipe.seq, Recipe.andThen_silent hkeep,
    Recipe.seq, Recipe.andThen_silent hconfig, Recipe.seq] at ht
  have hfirst : TraceOk gated [] [Event.compile .fips s'] := traceOk_of_andThen ht
  exact absurd hfirst.1.1 List.not_mem_nil

theorem installFips_triple (env : Env) :
    Triple gated (fun _ s => Regates env s) (installFips env) Verified := by
  refine Triple.seq_cons (fipsModule_triple env) (Triple.seq_of_forall ?_)
  simp only [List.forall_mem_cons, List.not_mem_nil, false_implies, implies_true, and_true]
  exact ⟨installCli_triple env, run_triple env _, (command_triple env _ _).2, run_triple env _,
    run_triple env _, run_triple env _, run_triple env _⟩

/-! ## Runs -/

/-- The condition on one step: an invocation that builds the module is going to remake its
`configdata.pm`. -/
def RemakesConfig (s : Build) : Action → Prop
  | .make .fipsModule env | .make .installFips env => Regates env s
  | _ => True

theorem traceOk_of_triple {r : Recipe Build Event} {P Q : List Event → Build → Prop} {s : Build}
    (h : Triple gated P r Q) (hP : P [] s) : TraceOk gated [] (r s).events := (h [] s hP).1

theorem perform_gated_iff (s : Build) (a : Action) :
    TraceOk gated [] (perform s a).events ↔ RemakesConfig s a := by
  cases a with
  | edit tree files config mtime =>
      -- no events, and no condition either
      cases tree <;> exact iff_of_true trivial trivial
  | make g env =>
      have hlib : ∀ r, Triple gated (fun _ _ => True) r Verified → TraceOk gated [] (r s).events :=
        fun r hr => traceOk_of_triple hr trivial
      cases g with
      | all => exact iff_of_true (hlib _ (openssl_triple env _)) trivial
      | openssl => exact iff_of_true (hlib _ (openssl_triple env _)) trivial
      | test =>
          refine iff_of_true (hlib _ (after_openssl_triple env _ _ ?_)) trivial
          simp only [List.forall_mem_singleton]
          exact (command_triple env _ _).1
      | install => exact iff_of_true (hlib _ (install_triple env _ .makeInstall)) trivial
      | installSw => exact iff_of_true (hlib _ (install_triple env _ .makeInstallSw)) trivial
      | installSsldirs =>
          refine iff_of_true (hlib _ (after_openssl_triple env _ _ ?_)) trivial
          simp only [List.forall_mem_singleton]
          exact (command_triple env _ _).2
      | fipsModule =>
          exact ⟨regates_of_fipsModule_traceOk,
            fun h => traceOk_of_triple (fipsModule_triple env) h⟩
      | installFips =>
          exact ⟨fun ht => regates_of_fipsModule_traceOk (traceOk_of_andThen ht),
            fun h => traceOk_of_triple (installFips_triple env) h⟩
      | clean => exact iff_of_true trivial trivial
      | distclean => exact iff_of_true trivial trivial

/-- In a run of edits and invocations, everything compiled or installed from a vendored tree has
passed the gate in its own invocation exactly when every invocation that builds the FIPS module
finds its `configdata.pm` in need of remaking.  That the condition is needed rests on the
upstream makefile having something to compile each time it is called. -/
theorem make_runs_gated_iff (s : Build) (as : List Action) :
    AlongRun step (fun s a => TraceOk gated [] (perform s a).events) s as ↔
      AlongRun step RemakesConfig s as :=
  alongRun_congr perform_gated_iff s as

/-- Every command succeeds; `Configure` writes a `configdata.pm` of time 10. -/
def smoothEnv : Env where
  pfx := txt "/opt/qudossl"
  ok _ := true
  submodule := none
  written _ := ([], 10)
  opensslInstalled := true
  globs := false
  grep _ _ := false
  line _ old := (old, false)

def guardedSource : Tree :=
  ⟨[(configureFile, txt "#! perl"),
    (txt "providers/fips/self_test.c", txt "#ifdef QUDO_PQC_DELEGATE")], by decide⟩

/-- A fresh checkout whose `openssl-fips/Configure` is of time 5. -/
def freshBuild : Build where
  root := txt "/r"
  checkout := ⟨releasedSource, releasedSource, none⟩
  libConfig := none
  fipsConfig := none
  configureMtime := 5

/-- Build the module, patch a source file of `openssl-fips/`, build the module again. -/
def patchedRebuild : List Action :=
  [.make .fipsModule smoothEnv,
    .edit .fips guardedSource (some ⟨txt "/opt/qudossl", [], 10⟩) 5,
    .make .fipsModule smoothEnv]

/-- The second build compiles from a tree the gate would refuse, and does not ask it. -/
theorem make_runs_ungated :
    (verifyPristine (txt "/r") ⟨releasedSource, guardedSource, none⟩).2 = 1 ∧
      ¬ AlongRun step (fun s a => TraceOk gated [] (perform s a).events) freshBuild
        patchedRebuild := by
  refine ⟨by decide, fun h => ?_⟩
  have hre : RemakesConfig _ (.make .fipsModule smoothEnv) := (perform_gated_iff _ _).mp h.2.2.1
  have hold := hre _ rfl _ rfl
  revert hold
  decide

end QudoSSL
