import QudoSSL.Dist
import QudoSSL.Wrapper

/-!
# `build/dist-verify.sh`

The release gate.  It parses the version from the tarball's name, unpacks, builds and installs, and
then runs its acceptance checks under `set +e`: each of them tallies a pass or a failure, and the
script succeeds when no failure was tallied.
-/

namespace QudoSSL

open Posix

/-! ## The tally -/

structure Check where
  name : Text
  ok : Bool
  detail : Text

structure Tally where
  pass : Nat
  fail : Nat
  stdout : List Text
  stderr : List Text

def check (r : Tally) (c : Check) : Tally :=
  if c.ok then { r with pass := r.pass + 1, stdout := r.stdout ++ [txt "  PASS  " ++ c.name] }
  else
    { r with
      fail := r.fail + 1
      stderr := r.stderr ++ [txt "  FAIL  " ++ c.name ++ txt " — " ++ c.detail] }

theorem check_fail (r : Tally) (c : Check) :
    (check r c).fail = r.fail + if c.ok then 0 else 1 := by
  unfold check
  split <;> rfl

theorem foldl_check_fail (cs : List Check) (r : Tally) :
    (cs.foldl check r).fail = r.fail + cs.countP fun c => !c.ok := by
  induction cs generalizing r with
  | nil => rfl
  | cons c cs ih =>
      rw [List.foldl_cons, ih, check_fail, List.countP_cons]
      cases c.ok with
      | true => simp
      | false =>
          simp
          omega

/-! ## The probes -/

/-- A command's exit status and what the script captures of its output. -/
structure Probe where
  status : Nat
  out : Text

/-- The commands of the acceptance section.  `strings` is run three times on the module, `s_client`
up to thirty times; what becomes of `req` and `s_server` is not looked at. -/
structure Probes where
  opensslVersion : Probe
  qudosslVersion : Probe
  nm : Probe
  stringsName : Probe
  stringsVersion : Probe
  stringsStamp : Probe
  providers : Probe
  req : Probe
  sServer : Probe
  sClient : Nat → Probe

/-- `probe | grep`, under `pipefail`. -/
def Probe.pipe (p : Probe) (found : Bool) : Nat := if found then p.status else 1

def Probe.value (p : Probe) : Text :=
  -- $(probe ...)
  substitute p.out

def negotiated : Text := txt "Negotiated TLS1.3 group: X25519MLKEM768"

def refused : Text := txt "Connection refused"

/-- The poll: `n` attempts are left, the `i`-th comes next, `last` is the one before. -/
def poll (sClient : Nat → Probe) : Nat → Nat → Probe → Probe
  | 0, _, last => last
  | n + 1, i, _ =>
      let hs := sClient i
      if negotiated <:+: hs.value then hs
      else if refused <:+: hs.value then poll sClient n (i + 1) hs
      else hs

/-- The `s_client` run whose output `HS` holds after the loop. -/
def handshake (p : Probes) : Probe := poll p.sClient 30 1 ⟨0, []⟩

def listed (p : Probes) (pattern : Pattern) : Bool :=
  -- echo "$PROVIDERS" | grep -q ...
  (lines (terminate p.providers.value)).any (search pattern)

/-- The unquoted dots of `grep -q "3.5.4"` stand for any character. -/
def anyVersion : Pattern := (bre (txt "3.5.4")).getD []

def tailThree (t : Text) : Text :=
  -- tail -3
  let ls := lines (terminate t)
  substitute ((ls.drop (ls.length - 3)).map terminate).flatten

def baseProvider : Text := txt "OpenSSL Base Provider"

def checkBase (base : Text) : Check :=
  if '+' ∈ base then
    ⟨txt "openssl version is plain upstream", false, txt "got '" ++ base ++ txt "' (stamped)"⟩
  else ⟨txt "openssl version is plain upstream (" ++ base ++ txt ")", true, []⟩

def checks (version : Text) (p : Probes) : List Check :=
  let product := p.qudosslVersion.value
  -- nm's own status is lost: `nm ... | grep -c QUDO || true`
  let qudoSyms := grepCount (lit qudo) p.nm.out
  let stringsGrep := fun (s : Probe) (pattern : Pattern) =>
    s.pipe ((lines s.out).any (search pattern))
  [checkBase (secondFields p.opensslVersion.out),
    ⟨txt "qudossl version == 'QudoSSL " ++ version ++ txt "'", product = txt "QudoSSL " ++ version,
      txt "got '" ++ product ++ txt "'"⟩,
    ⟨txt "libcrypto carries 0 QUDO symbols", qudoSyms == 0, txt "count=" ++ decimal qudoSyms⟩,
    ⟨txt "fips module identifies as 'OpenSSL FIPS Provider'",
      stringsGrep p.stringsName (litLine fipsProvider) == 0, txt "name string missing"⟩,
    ⟨txt "fips module carries version 3.5.4",
      stringsGrep p.stringsVersion (litLine fipsVersion) == 0, txt "version string missing"⟩,
    -- `! strings ... | grep -E ...`: any failure of the pipeline is a pass
    ⟨txt "fips module carries no vendor stamp/brand",
      stringsGrep p.stringsStamp vendorStamp != 0, txt "vendor strings present"⟩,
    ⟨txt "FIPS config activates the OpenSSL FIPS Provider", listed p (lit fipsProvider),
      p.providers.value⟩,
    ⟨txt "active fips provider reports 3.5.4", listed p anyVersion, p.providers.value⟩,
    ⟨txt "base provider active alongside fips", listed p (lit baseProvider), p.providers.value⟩,
    ⟨txt "PQ handshake negotiates X25519MLKEM768", negotiated <:+: (handshake p).value,
      tailThree (handshake p).value⟩]

/-- The acceptance section: the tally, and the status the script ends with. -/
def acceptance (version : Text) (p : Probes) : Tally × Nat :=
  let r := (checks version p).foldl check ⟨0, 0, [], []⟩
  (r, if r.fail = 0 then 0 else 1)

/-! ## What a pass says -/

/-- Every check tallies a pass. -/
structure Passes (version : Text) (p : Probes) : Prop where
  base : '+' ∉ secondFields p.opensslVersion.out
  product : p.qudosslVersion.value = txt "QudoSSL " ++ version
  symbols : ¬ qudo <:+: p.nm.out
  moduleName : fipsProvider ∈ lines p.stringsName.out ∧ p.stringsName.status = 0
  moduleVersion : fipsVersion ∈ lines p.stringsVersion.out ∧ p.stringsVersion.status = 0
  stamp : (∃ l ∈ lines p.stringsStamp.out, search vendorStamp l = true) →
    p.stringsStamp.status ≠ 0
  fips : listed p (lit fipsProvider) = true
  version : listed p anyVersion = true
  baseProvider : listed p (lit baseProvider) = true
  handshake : negotiated <:+: (handshake p).value

theorem pipe_eq_zero_iff (p : Probe) (found : Bool) :
    p.pipe found = 0 ↔ found = true ∧ p.status = 0 := by
  unfold Probe.pipe
  cases found <;> simp

theorem checkBase_ok_iff (base : Text) : (checkBase base).ok = true ↔ '+' ∉ base := by
  unfold checkBase
  split <;> simp [*]

-- `strings ... | grep '^w$'` succeeds.
theorem pipe_litLine_iff (s : Probe) (w : Text) :
    (s.pipe ((lines s.out).any (search (litLine w))) == 0) = true ↔
      w ∈ lines s.out ∧ s.status = 0 := by
  rw [beq_iff_eq, pipe_eq_zero_iff, List.any_eq_true]
  simp

-- `! strings ... | grep -E pattern` succeeds.
theorem pipe_not_iff (s : Probe) (pattern : Pattern) :
    (s.pipe ((lines s.out).any (search pattern)) != 0) = true ↔
      ((∃ l ∈ lines s.out, search pattern l = true) → s.status ≠ 0) := by
  rw [bne_iff_ne, ne_eq, pipe_eq_zero_iff, List.any_eq_true, not_and]

theorem qudoSyms_iff (t : Text) : (grepCount (lit qudo) t == 0) = true ↔ ¬ qudo <:+: t := by
  rw [beq_iff_eq, grepCount_lit_eq_zero_iff (by decide) (by decide)]

theorem acceptance_status_iff (version : Text) (p : Probes) :
    (acceptance version p).2 = 0 ↔ Passes version p := by
  have htally : (acceptance version p).2 = 0 ↔ ∀ c ∈ checks version p, c.ok = true := by
    simp [acceptance, foldl_check_fail, List.countP_eq_zero]
  rw [htally]
  simp only [checks, List.forall_mem_cons, checkBase_ok_iff, pipe_litLine_iff, pipe_not_iff,
    qudoSyms_iff, decide_eq_true_eq, List.not_mem_nil, false_implies, implies_true, and_true]
  constructor
  · rintro ⟨hbase, hproduct, hsyms, hname, hversion, hstamp, hfips, hany, hprov, hhs⟩
    exact ⟨hbase, hproduct, hsyms, hname, hversion, hstamp, hfips, hany, hprov, hhs⟩
  · rintro ⟨hbase, hproduct, hsyms, hname, hversion, hstamp, hfips, hany, hprov, hhs⟩
    exact ⟨hbase, hproduct, hsyms, hname, hversion, hstamp, hfips, hany, hprov, hhs⟩

/-- The lines `openssl list -providers` prints for a provider: its name, directly followed by its
own version. -/
def providerLines (name version : Text) : List Text :=
  [txt "    name: " ++ name, txt "    version: " ++ version]

/-- Each documented fact was seen by a probe that itself succeeded and printed something. -/
structure Observed (version : Text) (p : Probes) : Prop where
  base : p.opensslVersion.status = 0 ∧ secondFields p.opensslVersion.out ≠ [] ∧
    '+' ∉ secondFields p.opensslVersion.out
  product : p.qudosslVersion.status = 0 ∧ p.qudosslVersion.value = txt "QudoSSL " ++ version
  symbols : p.nm.status = 0 ∧ p.nm.out ≠ [] ∧ ¬ qudo <:+: p.nm.out
  moduleName : p.stringsName.status = 0 ∧ fipsProvider ∈ lines p.stringsName.out
  moduleVersion : p.stringsVersion.status = 0 ∧ fipsVersion ∈ lines p.stringsVersion.out
  stamp : p.stringsStamp.status = 0 ∧ p.stringsStamp.out ≠ [] ∧
    ∀ l ∈ lines p.stringsStamp.out, search vendorStamp l = false
  providers : p.providers.status = 0 ∧
    providerLines fipsProvider fipsVersion <:+: lines p.providers.out ∧
      txt "    name: " ++ baseProvider ∈ lines p.providers.out
  handshake : (handshake p).status = 0 ∧ negotiated <:+: (handshake p).value

/-- What the script takes for granted: the probes whose status it drops succeeded and printed
something, and the version it found in the listing is the FIPS provider's. -/
structure Unchecked (p : Probes) : Prop where
  base : p.opensslVersion.status = 0 ∧ secondFields p.opensslVersion.out ≠ []
  product : p.qudosslVersion.status = 0
  symbols : p.nm.status = 0 ∧ p.nm.out ≠ []
  stamp : p.stringsStamp.status = 0 ∧ p.stringsStamp.out ≠ []
  providers : p.providers.status = 0 ∧
    providerLines fipsProvider fipsVersion <:+: lines p.providers.out ∧
      txt "    name: " ++ baseProvider ∈ lines p.providers.out
  handshake : (handshake p).status = 0

theorem observed_iff_unchecked {version : Text} {p : Probes} (h : Passes version p) :
    Observed version p ↔ Unchecked p := by
  constructor
  · intro ho
    exact ⟨⟨ho.base.1, ho.base.2.1⟩, ho.product.1, ⟨ho.symbols.1, ho.symbols.2.1⟩,
      ⟨ho.stamp.1, ho.stamp.2.1⟩, ho.providers, ho.handshake.1⟩
  · intro hu
    refine ⟨⟨hu.base.1, hu.base.2, h.base⟩, ⟨hu.product, h.product⟩,
      ⟨hu.symbols.1, hu.symbols.2, h.symbols⟩, h.moduleName.symm, h.moduleVersion.symm,
      ⟨hu.stamp.1, hu.stamp.2, fun l hl => ?_⟩, hu.providers, ⟨hu.handshake, h.handshake⟩⟩
    -- `strings` succeeded, so the pipeline can only have failed for want of a match
    by_contra hstamp
    rw [Bool.not_eq_false] at hstamp
    exact h.stamp ⟨l, hl, hstamp⟩ hu.stamp.1

/-- Exit status 0 means that every documented fact was positively observed, exactly when some check
fails or the probes bear out what the script does not check. -/
theorem acceptance_failClosed_iff (version : Text) (p : Probes) :
    ((acceptance version p).2 = 0 → Observed version p) ↔
      (¬ Passes version p ∨ Unchecked p) := by
  rw [acceptance_status_iff, imp_iff_not_or]
  by_cases h : Passes version p
  · simp only [h, not_true_eq_false, false_or, observed_iff_unchecked h]
  · simp only [h, not_false_eq_true, true_or]

def goodProbes : Probes where
  opensslVersion := ⟨0, txt "OpenSSL 3.5.7 1 Jul 2026\n"⟩
  qudosslVersion := ⟨0, txt "QudoSSL 1.0.0\n"⟩
  nm := ⟨0, txt "0000 T SSL_new\n"⟩
  stringsName := ⟨0, txt "OpenSSL FIPS Provider\n3.5.4\n"⟩
  stringsVersion := ⟨0, txt "OpenSSL FIPS Provider\n3.5.4\n"⟩
  stringsStamp := ⟨0, txt "OpenSSL FIPS Provider\n3.5.4\n"⟩
  providers := ⟨0, txt "    name: OpenSSL Base Provider\n    version: 3.5.7\n" ++
    txt "    name: OpenSSL FIPS Provider\n    version: 3.5.4\n"⟩
  req := ⟨0, []⟩
  sServer := ⟨0, []⟩
  sClient _ := ⟨0, txt "Negotiated TLS1.3 group: X25519MLKEM768\n"⟩

/-- `nm` is not installed: the symbol check counts its silence as zero symbols. -/
theorem acceptance_passes_without_nm :
    (acceptance (txt "1.0.0") { goodProbes with nm := ⟨127, []⟩ }).2 = 0 ∧
      ¬ Observed (txt "1.0.0") { goodProbes with nm := ⟨127, []⟩ } := by
  refine ⟨by decide, fun h => ?_⟩
  exact absurd h.symbols.1 (by decide)

/-! ## The whole script -/

/-- `sed -n 's/^qudossl-\(.*\)-src\.tar\.gz$/\1/p'` on one line. -/
def sedTarball (l : Text) : Option Text :=
  (sedStrip (txt "qudossl-") l).bind fun rest =>
    if tarballSuffix <:+ rest then some (rest.take (rest.length - tarballSuffix.length)) else none

def tarballVersion (path : Text) : Text :=
  -- VERSION=$(basename "$TARBALL" | sed ...)
  substitute (((lines (terminate (basename path))).filterMap sedTarball).map terminate).flatten

/-- The paths below `$WORK` after `tar -xzf`. -/
def Tarball.unpacked (t : Tarball) : List Text :=
  t.entries.map fun e => t.top ++ txt "/" ++ e.1

def Tarball.hasDir (t : Tarball) (d : Text) : Bool :=
  (t.top :: t.unpacked).any fun p => decide (d ++ txt "/" <+: p ++ txt "/")

/-- How the commands before the acceptance section end, and the probes. -/
structure Host where
  unpacks : Bool
  verifyPristine : Bool
  all : Bool
  installSw : Bool
  installFips : Bool
  probes : Probes

/-- The four calls of make, each of which ends the script if it fails. -/
def Host.makes (host : Host) : Bool :=
  host.verifyPristine && host.all && host.installSw && host.installFips

inductive VerifyError where
  | noTarball
  | noVersion
  | unpack
  | wrongTop
  | noFips
  | make
  | checks (r : Tally)

def distVerify (path : Text) (content : Option Tarball) (host : Host) :
    Except VerifyError Tally :=
  let version := tarballVersion path
  let src := txt "qudossl-" ++ version
  match content with
  | none => .error .noTarball
  | some t =>
      if version = [] then .error .noVersion
      else if !host.unpacks then .error .unpack
      else if !t.hasDir src then .error .wrongTop
      else if src ++ txt "/openssl-fips/Configure" ∉ t.unpacked then .error .noFips
      else if !host.makes then .error .make
      else
        match acceptance version host.probes with
        | (r, 0) => .ok r
        | (r, _) => .error (.checks r)

/-- The conditions under which the script finds the tarball fit to ship. -/
structure Fit (path : Text) (t : Tarball) (host : Host) : Prop where
  version : tarballVersion path ≠ []
  unpacks : host.unpacks = true
  top : t.hasDir (txt "qudossl-" ++ tarballVersion path) = true
  fips : txt "qudossl-" ++ tarballVersion path ++ txt "/openssl-fips/Configure" ∈ t.unpacked
  makes : host.makes = true
  passes : Passes (tarballVersion path) host.probes

theorem distVerify_ok_iff (path : Text) (t : Tarball) (host : Host) :
    (∃ r, distVerify path (some t) host = .ok r) ↔ Fit path t host := by
  have hfit : Fit path t host ↔ tarballVersion path ≠ [] ∧ host.unpacks = true ∧
      t.hasDir (txt "qudossl-" ++ tarballVersion path) = true ∧
      txt "qudossl-" ++ tarballVersion path ++ txt "/openssl-fips/Configure" ∈ t.unpacked ∧
      host.makes = true ∧ (acceptance (tarballVersion path) host.probes).2 = 0 := by
    rw [acceptance_status_iff]
    exact ⟨fun ⟨h₁, h₂, h₃, h₄, h₅, h₆⟩ => ⟨h₁, h₂, h₃, h₄, h₅, h₆⟩,
      fun ⟨h₁, h₂, h₃, h₄, h₅, h₆⟩ => ⟨h₁, h₂, h₃, h₄, h₅, h₆⟩⟩
  rw [hfit]
  simp only [distVerify]
  -- one case for each way the script can end, in its own order
  split
  · simp [*]
  split
  · simp_all
  split
  · simp_all
  split
  · simp_all
  split
  · simp_all
  split <;> simp_all

theorem sedTarball_distName (version : Text) :
    sedTarball (distName version ++ tarballSuffix) = some version := by
  have hstrip : sedStrip (txt "qudossl-") (distName version ++ tarballSuffix) =
      some (version ++ tarballSuffix) := by
    simp [sedStrip, distName, List.append_assoc]
  simp [sedTarball, hstrip]

-- The version is read back from the name that `make dist` gives the tarball.
theorem tarballVersion_distName {dir version : Text} (hslash : '/' ∉ version)
    (hnewline : '\n' ∉ version) :
    tarballVersion (dir ++ '/' :: (distName version ++ tarballSuffix)) = version := by
  have hname : basename (dir ++ '/' :: (distName version ++ tarballSuffix)) =
      distName version ++ tarballSuffix := by
    apply basename_append
    · simp only [distName, List.mem_append, not_or]
      exact ⟨⟨by decide, hslash⟩, by decide⟩
    · exact List.append_ne_nil_of_right_ne_nil _ (by decide)
  have hline : '\n' ∉ distName version ++ tarballSuffix := by
    simp only [distName, List.mem_append, not_or]
    exact ⟨⟨by decide, hnewline⟩, by decide⟩
  simp [tarballVersion, hname, lines_terminate hline, sedTarball_distName,
    substitute_terminate hnewline]

end QudoSSL
