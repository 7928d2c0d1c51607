import Mathlib.Logic.Function.Basic
import QudoSSL.Perf.Connection

/-!
# Whole runs of `perflib_create_bare_ssl_connection`

The outer loop over all its rounds, first on peers that record the calls made on them, then on any
peers: recording changes nothing.
-/

namespace QudoSSL.Perf

open Posix

/-! ## Rounds -/

section Rounds

variable {σ : Type}

def Loop.progress (c : Loop σ) : Party → Progress
  | .client => c.client
  | .server => c.server

def Loop.after (c : Loop σ) (party : Party) (h : Half σ) : Loop σ :=
  match party with
  | .client => { c with peers := h.peers, client := h.progress, out := c.out ++ h.out }
  | .server => { c with peers := h.peers, server := h.progress, out := c.out ++ h.out }

@[simp] theorem Loop.peers_after (c : Loop σ) (party : Party) (h : Half σ) :
    (c.after party h).peers = h.peers := by cases party <;> rfl

@[simp] theorem Loop.out_after (c : Loop σ) (party : Party) (h : Half σ) :
    (c.after party h).out = c.out ++ h.out := by cases party <;> rfl

@[simp] theorem Loop.progress_after (c : Loop σ) (party : Party) (h : Half σ) :
    (c.after party h).progress party = h.progress := by cases party <;> rfl

theorem Loop.progress_after_other (c : Loop σ) {party other : Party} (hne : other ≠ party)
    (h : Half σ) : (c.after party h).progress other = c.progress other := by
  cases party <;> cases other <;> first | rfl | exact absurd rfl hne

theorem round_cases {P : Peers σ} {want : SslError} {fuel : ℕ} {c c' : Loop σ} {leave : Bool}
    (h : round P want fuel c = some (c', leave)) :
    ∃ h₁, half P .client want fuel c.client c.peers = some h₁ ∧
      ((leave = true ∧ (want ≠ .none ∧ h₁.err = want) ∧ c' = c.after .client h₁) ∨
        ∃ h₂, half P .server want fuel c.server h₁.peers = some h₂ ∧
          c' = (c.after .client h₁).after .server h₂ ∧
          (leave = true ↔ (want ≠ .none ∧ h₂.err = want) ∨
            (h₁.progress.failed = true ∧ h₂.progress.failed = true))) := by
  simp only [round, Option.bind_eq_bind, Option.bind_eq_some_iff] at h
  obtain ⟨h₁, hh₁, h⟩ := h
  refine ⟨h₁, hh₁, ?_⟩
  by_cases hw : want ≠ .none ∧ h₁.err = want
  · rw [if_pos hw] at h
    cases h
    exact .inl ⟨rfl, hw, rfl⟩
  · rw [if_neg hw] at h
    simp only [Option.bind_eq_some_iff] at h
    obtain ⟨h₂, hh₂, h⟩ := h
    cases h
    exact .inr ⟨h₂, hh₂, rfl, by simp⟩

/-- The loop after so many rounds of each side.  Something has been printed exactly when a side has
failed. -/
structure Inv (n : Party → ℕ) (c : Loop (σ × List (Party × Call))) : Prop where
  history : ∀ party, History party (c.progress party) (callsOf party c.peers.2)
  quiet : c.out = [] ↔ ∀ party, (c.progress party).failed = false
  text : c.out = [] ∨ txt "SSL_" <+: c.out
  calls : ∀ party, (c.progress party).Pending → n party ≤ (callsOf party c.peers.2).length

theorem ssl_prefix_function (party : Party) : txt "SSL_" <+: party.function := by
  cases party <;> decide

-- No side has failed after a half if none had before it and this one has not done so in it.
theorem HalfDone.none_failed_iff {c : Loop (σ × List (Party × Call))} {party : Party}
    {h : Half (σ × List (Party × Call))} (hd : HalfDone party (c.progress party) c.peers h) :
    (∀ other, ((c.after party h).progress other).failed = false) ↔
      (∀ other, (c.progress other).failed = false) ∧
        (h.progress.failed = true → (c.progress party).failed = true) := by
  constructor
  · intro hall
    have hown := hall party
    rw [Loop.progress_after] at hown
    refine ⟨fun other => ?_, fun hf => absurd (hown ▸ hf) Bool.false_ne_true⟩
    by_cases hne : other = party
    · subst hne
      by_contra hf
      rw [Bool.not_eq_false] at hf
      rw [hd.failed hf] at hown
      cases hown
    · have hother := hall other
      rwa [Loop.progress_after_other c hne] at hother
  · rintro ⟨hall, hh⟩ other
    by_cases hne : other = party
    · subst hne
      rw [Loop.progress_after]
      by_contra hf
      rw [Bool.not_eq_false] at hf
      rw [hall other] at hh
      exact Bool.false_ne_true (hh hf)
    · rw [Loop.progress_after_other c hne]
      exact hall other

-- A half counts as one more round of its side.
theorem Inv.half {n : Party → ℕ} {c : Loop (σ × List (Party × Call))}
    (hinv : Inv n c) {party : Party} {h : Half (σ × List (Party × Call))}
    (hd : HalfDone party (c.progress party) c.peers h) :
    Inv (Function.update n party (n party + 1)) (c.after party h) := by
  constructor
  · intro other
    rw [Loop.peers_after]
    by_cases hne : other = party
    · subst hne
      rw [Loop.progress_after]
      exact hd.history
    · rw [Loop.progress_after_other c hne, hd.other other hne]
      exact hinv.history other
  · rw [Loop.out_after, List.append_eq_nil_iff, hinv.quiet, hd.quiet, hd.none_failed_iff]
  · rw [Loop.out_after]
    rcases hinv.text with hnil | hpre
    · rw [hnil, List.nil_append]
      exact hd.text.imp id fun hf => (ssl_prefix_function party).trans hf
    · exact .inr (hpre.trans (List.prefix_append _ _))
  · intro other
    rw [Loop.peers_after]
    by_cases hne : other = party
    · subst hne
      rw [Loop.progress_after, Function.update_self]
      intro hp
      -- a side that is still pending was so before, and has been called
      have hlen := hinv.calls other (hd.pending hp)
      have hcalled := hd.called (hd.pending hp)
      omega
    · rw [Loop.progress_after_other c hne, Function.update_of_ne hne, hd.other other hne]
      exact hinv.calls other

/-- The loop was left because a side's error is the wanted one. -/
def Wanted (want : SslError) (c : Loop (σ × List (Party × Call))) : Prop :=
  want ≠ .none ∧ ∃ party, Answered want (c.progress party) (callsOf party c.peers.2)

/-- What a round leaves, whichever way it ends. -/
structure RoundDone (want : SslError) (m : ℕ) (c c' : Loop (σ × List (Party × Call)))
    (leave : Bool) : Prop where
  inv : ∃ n, Inv n c'
  again : leave = false → Inv (fun _ => m + 1) c' ∧
    ∀ party, (c.progress party).Pending → m + 1 ≤ (callsOf party c'.peers.2).length
  left : leave = true → Wanted want c' ∨ ∀ party, (c'.progress party).failed = true
  failed : ∀ party, (c.progress party).failed = true → (c'.progress party).failed = true

theorem Inv.round {P : Peers σ} {want : SslError} {fuel m : ℕ}
    {c c' : Loop (σ × List (Party × Call))} {leave : Bool} (hinv : Inv (fun _ => m) c)
    (h : round P.recorded want fuel c = some (c', leave)) : RoundDone want m c c' leave := by
  obtain ⟨h₁, hh₁, h⟩ := round_cases h
  have hd₁ := (halfStep_of_half hh₁).recorded (hinv.history .client)
  have hinv₁ := hinv.half hd₁
  rcases h with ⟨rfl, ⟨hwant, herr⟩, rfl⟩ | ⟨h₂, hh₂, rfl, hleave⟩
  · have hanswered := hd₁.answered
    rw [herr] at hanswered
    refine ⟨⟨_, hinv₁⟩, by simp, fun _ => .inl ⟨hwant, .client, hanswered⟩, fun party hf => ?_⟩
    cases party with
    | client => exact hd₁.failed hf
    | server => exact hf
  · have hd₂ := (halfStep_of_half hh₂).recorded (hinv₁.history .server)
    have hinv₂ := hinv₁.half hd₂
    refine ⟨⟨_, hinv₂⟩, fun _ => ⟨?_, fun party hp => ?_⟩, fun hl => ?_, fun party hf => ?_⟩
    · have hcount : Function.update (Function.update (fun _ => m) Party.client (m + 1))
          Party.server (m + 1) = fun _ => m + 1 := by
        funext party
        cases party <;> rfl
      rw [← hcount]
      exact hinv₂
    · rw [Loop.peers_after]
      cases party with
      | client =>
          have hlen := hinv.calls .client hp
          have hcalled := hd₁.called hp
          rw [hd₂.other .client (by decide)]
          exact Nat.le_trans (Nat.succ_le_succ hlen) hcalled
      | server =>
          have hlen := hinv.calls .server hp
          have hcalled := hd₂.called hp
          rw [hd₁.other .server (by decide)] at hcalled
          exact Nat.le_trans (Nat.succ_le_succ hlen) hcalled
    · rcases hleave.mp hl with ⟨hwant, herr⟩ | ⟨hc, hs⟩
      · have hanswered := hd₂.answered
        rw [herr] at hanswered
        exact .inl ⟨hwant, .server, hanswered⟩
      · refine .inr fun party => ?_
        cases party with
        | client => exact hc
        | server => exact hs
    · cases party with
      | client => exact hd₁.failed hf
      | server => exact hd₂.failed hf

/-- A side failed or was called too often, and the output says so. -/
def GaveUp (limit : ℕ) (c : Loop (σ × List (Party × Call))) : Prop :=
  (txt "SSL_" <+: c.out ∨ txt "No progress made" <+: c.out) ∧
    ((∃ party, (c.progress party).failed = true) ∨
      ∃ party, limit ≤ (callsOf party c.peers.2).length)

/-- How the loop ends: both sides have finished and nothing has been printed, or it was given up, or
a side's error is the wanted one, and then the output tells only of sides that failed. -/
def Ended (want : SslError) (limit : ℕ) (r : Bool × Loop (σ × List (Party × Call))) : Prop :=
  (∀ party, History party (r.2.progress party) (callsOf party r.2.peers.2)) ∧
    if r.1 then r.2.out = [] ∧ ∀ party, 0 < (r.2.progress party).ret
    else GaveUp limit r.2 ∨
      (Wanted want r.2 ∧ (r.2.out = [] ↔ ∀ party, (r.2.progress party).failed = false))

theorem History.failed_eq_false {party : Party} {p : Progress} {cs : List Call}
    (h : History party p cs) (hret : 0 < p.ret) : p.failed = false := by
  cases h with
  | pending => rfl
  | done => rfl
  | failed _ hle => exact absurd hret (Int.not_lt.mpr hle)

-- A side that failed has left its diagnostic.
theorem Inv.text_of_failed {n : Party → ℕ} {c : Loop (σ × List (Party × Call))} (hinv : Inv n c)
    {party : Party} (hf : (c.progress party).failed = true) : txt "SSL_" <+: c.out := by
  refine hinv.text.resolve_left fun hnil => ?_
  rw [hinv.quiet.mp hnil party] at hf
  cases hf

theorem ended_of_left {want : SslError} {m limit : ℕ} {c c' : Loop (σ × List (Party × Call))}
    (hd : RoundDone want m c c' true) : Ended want limit (false, c') := by
  obtain ⟨n, hinv⟩ := hd.inv
  refine ⟨hinv.history, ?_⟩
  rw [if_neg Bool.false_ne_true]
  rcases hd.left rfl with hwanted | hf
  · exact .inr ⟨hwanted, hinv.quiet⟩
  · exact .inl ⟨.inl (hinv.text_of_failed (hf .client)), .inl ⟨.client, hf .client⟩⟩

-- The counter has reached its limit; both sides may even have finished in this very round.
theorem ended_of_limit {want : SslError} {m : ℕ} {c c' : Loop (σ × List (Party × Call))}
    (hd : RoundDone want m c c' false) (hopen : ∃ party, (c.progress party).ret ≤ 0) :
    Ended want (m + 1) (false, { c' with out := c'.out ++ txt "No progress made" }) := by
  obtain ⟨hinv, hcalls⟩ := hd.again rfl
  refine ⟨hinv.history, ?_⟩
  rw [if_neg Bool.false_ne_true]
  left
  by_cases hf : ∃ party, (c'.progress party).failed = true
  · obtain ⟨party, hf⟩ := hf
    exact ⟨.inl ((hinv.text_of_failed hf).trans (List.prefix_append _ _)), .inl ⟨party, hf⟩⟩
  · have hnone : ∀ party, (c'.progress party).failed = false := by
      intro party
      rw [← Bool.not_eq_true]
      exact fun h => hf ⟨party, h⟩
    obtain ⟨party, hret⟩ := hopen
    have hpending : (c.progress party).Pending := by
      refine ⟨?_, hret⟩
      rw [← Bool.not_eq_true]
      exact fun h => hf ⟨party, hd.failed party h⟩
    refine ⟨.inr ?_, .inr ⟨party, hcalls party hpending⟩⟩
    show txt "No progress made" <+: c'.out ++ txt "No progress made"
    rw [hinv.quiet.mpr hnone, List.nil_append]

section Equations

variable {τ : Type} {P : Peers τ} {want : SslError} {fuel : ℕ} {c c' : Loop τ}

theorem connectLoop_of_none (h : round P want fuel c = none) (n : ℕ) :
    connectLoop P want fuel n c = none := by
  rw [connectLoop.eq_def, h]

theorem connectLoop_of_left (h : round P want fuel c = some (c', true)) (n : ℕ) :
    connectLoop P want fuel n c = some (false, c') := by
  rw [connectLoop.eq_def, h]

theorem connectLoop_zero (h : round P want fuel c = some (c', false)) :
    connectLoop P want fuel 0 c =
      some (false, { c' with out := c'.out ++ txt "No progress made" }) := by
  rw [connectLoop.eq_def, h]

theorem connectLoop_succ (h : round P want fuel c = some (c', false)) (n : ℕ) :
    connectLoop P want fuel (n + 1) c =
      if c'.client.ret ≤ 0 ∨ c'.server.ret ≤ 0 then connectLoop P want fuel n c'
      else some (true, c') := by
  rw [connectLoop.eq_def, h]

end Equations

theorem ended_connectLoop {P : Peers σ} {want : SslError} {fuel n m : ℕ}
    {c : Loop (σ × List (Party × Call))} {r : Bool × Loop (σ × List (Party × Call))}
    (hinv : Inv (fun _ => m) c) (hopen : ∃ party, (c.progress party).ret ≤ 0)
    (h : connectLoop P.recorded want fuel n c = some r) : Ended want (m + n + 1) r := by
  induction n generalizing m c with
  | zero =>
      rcases hround : round P.recorded want fuel c with _ | ⟨c', _ | _⟩
      · rw [connectLoop_of_none hround] at h
        cases h
      · rw [connectLoop_zero hround] at h
        cases h
        exact ended_of_limit (hinv.round hround) hopen
      · rw [connectLoop_of_left hround] at h
        cases h
        exact ended_of_left (hinv.round hround)
  | succ n ih =>
      rcases hround : round P.recorded want fuel c with _ | ⟨c', _ | _⟩
      · rw [connectLoop_of_none hround] at h
        cases h
      · have hinv' := ((hinv.round hround).again rfl).1
        rw [connectLoop_succ hround] at h
        by_cases hgo : c'.client.ret ≤ 0 ∨ c'.server.ret ≤ 0
        · rw [if_pos hgo] at h
          have hopen' : ∃ party, (c'.progress party).ret ≤ 0 :=
            hgo.elim (fun hr => ⟨.client, hr⟩) fun hr => ⟨.server, hr⟩
          have hend := ih hinv' hopen' h
          rwa [show m + 1 + n + 1 = m + (n + 1) + 1 by omega] at hend
        · rw [if_neg hgo] at h
          cases h
          have hdone : ∀ party, 0 < (c'.progress party).ret := by
            intro party
            cases party with
            | client => exact Int.not_le.mp fun hr => hgo (.inl hr)
            | server => exact Int.not_le.mp fun hr => hgo (.inr hr)
          refine ⟨hinv'.history, ?_⟩
          rw [if_pos rfl]
          refine ⟨hinv'.quiet.mpr fun party => ?_, hdone⟩
          exact (hinv'.history party).failed_eq_false (hdone party)
      · rw [connectLoop_of_left hround] at h
        cases h
        exact ended_of_left (hinv.round hround)

theorem inv_start (s : σ) : Inv (fun _ => 0) ⟨(s, []), .start, .start, []⟩ := by
  constructor
  · intro party
    cases party <;> exact .pending (by decide) (by simp [callsOf])
  · refine iff_of_true rfl fun party => ?_
    cases party <;> rfl
  · exact .inl rfl
  · exact fun _ _ => Nat.zero_le _

theorem ended_createBareSslConnection {P : Peers σ} {want : SslError} {fuel : ℕ} {s : σ}
    {r : Bool × Loop (σ × List (Party × Call))}
    (h : createBareSslConnection P.recorded want fuel (s, []) = some r) :
    Ended want maxLoops r := by
  have hopen : Progress.start.ret ≤ 0 := by decide
  have hend := ended_connectLoop (inv_start s) ⟨.client, hopen⟩ h
  rwa [show 0 + (maxLoops - 1) + 1 = maxLoops from rfl] at hend

end Rounds

/-! ## Recording changes nothing -/

section Simulation

variable {σ τ : Type}

/-- `Q` behaves as `P` does on the states that `f` makes of its own. -/
structure Simulates (f : τ → σ) (Q : Peers τ) (P : Peers σ) : Prop where
  call : ∀ party t, P.call party (f t) = ((Q.call party t).1, f (Q.call party t).2)
  read : ∀ t, P.read (f t) = ((Q.read t).1, f (Q.read t).2)
  errors : ∀ t, P.errors (f t) = ((Q.errors t).1, f (Q.errors t).2)

def Loop.map (f : τ → σ) (c : Loop τ) : Loop σ := ⟨f c.peers, c.client, c.server, c.out⟩

@[simp] theorem Loop.progress_map (f : τ → σ) (c : Loop τ) (party : Party) :
    (c.map f).progress party = c.progress party := by cases party <;> rfl

def Half.map (f : τ → σ) (h : Half τ) : Half σ := ⟨h.err, h.progress, f h.peers, h.out⟩

variable {f : τ → σ} {Q : Peers τ} {P : Peers σ} (hsim : Simulates f Q P)

include hsim

theorem callLoop_map (party : Party) (failed : Bool) (fuel : ℕ) (ret : ℤ) (err : SslError)
    (t : τ) :
    callLoop (P.call party) failed fuel ret err (f t) =
      (callLoop (Q.call party) failed fuel ret err t).map fun r => (r.1, r.2.1, f r.2.2) := by
  induction fuel generalizing ret err t with
  | zero =>
      rw [callLoop, callLoop]
      split <;> rfl
  | succ fuel ih =>
      rw [callLoop, callLoop]
      split
      · simp only [hsim.call party t]
        exact ih _ _ _
      · rfl

theorem half_map (party : Party) (want : SslError) (fuel : ℕ) (p : Progress) (t : τ) :
    half P party want fuel p (f t) = (half Q party want fuel p t).map (Half.map f) := by
  unfold half
  rw [callLoop_map hsim, Option.map_map, Option.map_map]
  congr 1
  funext r
  simp only [Function.comp_apply, hsim.errors]
  split
  · split <;> rfl
  · rfl

theorem round_map (want : SslError) (fuel : ℕ) (c : Loop τ) :
    round P want fuel (c.map f) =
      (round Q want fuel c).map fun r => (r.1.map f, r.2) := by
  simp only [round, Loop.map, half_map hsim]
  cases half Q .client want fuel c.client c.peers with
  | none => rfl
  | some h₁ =>
      simp only [Option.map_some, Option.bind_eq_bind, Option.bind_some, Half.map]
      split
      · rfl
      · simp only [half_map hsim]
        cases half Q .server want fuel c.server h₁.peers with
        | none => rfl
        | some h₂ => rfl

theorem connectLoop_map (want : SslError) (fuel n : ℕ) (c : Loop τ) :
    connectLoop P want fuel n (c.map f) =
      (connectLoop Q want fuel n c).map fun r => (r.1, r.2.map f) := by
  induction n generalizing c with
  | zero =>
      have hround := round_map hsim want fuel c
      rcases hq : round Q want fuel c with _ | ⟨c', _ | _⟩ <;> rw [hq] at hround
      · rw [connectLoop_of_none hq, connectLoop_of_none hround]
        rfl
      · rw [connectLoop_zero hq, connectLoop_zero hround]
        rfl
      · rw [connectLoop_of_left hq, connectLoop_of_left hround]
        rfl
  | succ n ih =>
      have hround := round_map hsim want fuel c
      rcases hq : round Q want fuel c with _ | ⟨c', _ | _⟩ <;> rw [hq] at hround
      · rw [connectLoop_of_none hq, connectLoop_of_none hround]
        rfl
      · rw [connectLoop_succ hq, connectLoop_succ hround, apply_ite (Option.map _), ← ih c']
        rfl
      · rw [connectLoop_of_left hq, connectLoop_of_left hround]
        rfl

end Simulation

theorem simulates_recorded {σ : Type} (P : Peers σ) : Simulates Prod.fst P.recorded P where
  call := by intro party t; cases party <;> rfl
  read := fun _ => rfl
  errors := fun _ => rfl

section Results

variable {σ : Type}

/-- The same run, with the calls recorded. -/
theorem exists_recorded {P : Peers σ} {want : SslError} {fuel : ℕ} {s : σ} {r : Bool × Loop σ}
    (h : createBareSslConnection P want fuel s = some r) :
    ∃ r', createBareSslConnection P.recorded want fuel (s, []) = some r' ∧
      r = (r'.1, r'.2.map Prod.fst) := by
  have hmap := connectLoop_map (simulates_recorded P) want fuel (maxLoops - 1)
    ⟨(s, []), .start, .start, []⟩
  have hsame : createBareSslConnection P want fuel s =
      (createBareSslConnection P.recorded want fuel (s, [])).map
        fun r => (r.1, r.2.map Prod.fst) := hmap
  rw [h, eq_comm, Option.map_eq_some_iff] at hsame
  obtain ⟨r', hr', heq⟩ := hsame
  exact ⟨r', hr', heq.symm⟩

/-- Every run, whatever is wanted.  No side is called again once it has finished or failed; 1 is
returned only after both have finished, and then nothing has been printed.  0 is returned only after
a side has failed or has been called `MAXLOOPS` times, and then something has been printed, or after
a side's error was the wanted one. -/
theorem createBareSslConnection_outcome {P : Peers σ} {want : SslError} {fuel : ℕ} {s : σ}
    {r : Bool × Loop σ} (h : createBareSslConnection P want fuel s = some r) :
    ∃ tr, createBareSslConnection P.recorded want fuel (s, []) =
        some (r.1, ⟨(r.2.peers, tr), r.2.client, r.2.server, r.2.out⟩) ∧
      (∀ party, History party (r.2.progress party) (callsOf party tr)) ∧
      (r.1 = true → r.2.out = [] ∧ ∀ party, 0 < (r.2.progress party).ret) ∧
      (r.1 = false →
        ((txt "SSL_" <+: r.2.out ∨ txt "No progress made" <+: r.2.out) ∧
          ((∃ party, (r.2.progress party).failed = true) ∨
            ∃ party, maxLoops ≤ (callsOf party tr).length)) ∨
        ((want ≠ .none ∧ ∃ party, Answered want (r.2.progress party) (callsOf party tr)) ∧
          (r.2.out = [] ↔ ∀ party, (r.2.progress party).failed = false))) := by
  obtain ⟨⟨ok, c⟩, hr', rfl⟩ := exists_recorded h
  obtain ⟨hist, hend⟩ := ended_createBareSslConnection hr'
  simp only [Loop.progress_map]
  refine ⟨c.peers.2, hr', hist, ?_, ?_⟩
  · rintro rfl
    rwa [if_pos rfl] at hend
  · rintro rfl
    rwa [if_neg Bool.false_ne_true] at hend

/-- Peers that answer from a list, which both sides share, and fail at its end. -/
def scripted : Peers (List Call) where
  connect s := (s.headD ⟨0, .ssl⟩, s.tail)
  accept s := (s.headD ⟨0, .ssl⟩, s.tail)
  read s := (⟨-1, .wantRead⟩, s)
  errors s := ([], s)

/-- The client's first call is to be repeated, then each side waits for the other, and then both
finish. -/
def twoRounds : List Call :=
  [⟨-1, .wantWrite⟩, ⟨-1, .wantRead⟩, ⟨-1, .wantRead⟩, ⟨1, .none⟩, ⟨1, .none⟩]

-- One list of answers ends in three ways: as wanted, after both have finished, and in failure.
theorem createBareSslConnection_outcome_twoRounds :
    (∃ tr, createBareSslConnection scripted.recorded .wantRead 2 (twoRounds, []) =
          some (false, ⟨(twoRounds.drop 2, tr), .start, .start, []⟩) ∧
        ∃ party, Answered .wantRead .start (callsOf party tr)) ∧
      (∃ tr, createBareSslConnection scripted.recorded .none 2 (twoRounds, []) =
          some (true, ⟨([], tr), ⟨1, false⟩, ⟨1, false⟩, []⟩) ∧
        History .client ⟨1, false⟩ (callsOf .client tr) ∧
        History .server ⟨1, false⟩ (callsOf .server tr)) ∧
      ∃ tr, createBareSslConnection scripted.recorded .none 2 (twoRounds.take 3, []) =
          some (false, ⟨([], tr), ⟨0, true⟩, ⟨0, true⟩,
            txt "SSL_connect() failed 0, 1SSL_accept() failed 0, 1"⟩) ∧
        History .client ⟨0, true⟩ (callsOf .client tr) ∧
        History .server ⟨0, true⟩ (callsOf .server tr) := by
  have hwanted : createBareSslConnection scripted .wantRead 2 twoRounds =
      some (false, ⟨twoRounds.drop 2, .start, .start, []⟩) := rfl
  have hmax : maxLoops - 1 = 999997 + 1 + 1 := rfl
  have hpending : Progress.start.ret ≤ 0 := by decide
  have hfirst : ∀ rest, round scripted .none 2 ⟨twoRounds.take 3 ++ rest, .start, .start, []⟩ =
      some (⟨rest, .start, .start, []⟩, false) := fun _ => rfl
  have hdone : createBareSslConnection scripted .none 2 twoRounds =
      some (true, ⟨[], ⟨1, false⟩, ⟨1, false⟩, []⟩) := by
    have hsecond : round scripted .none 2 ⟨twoRounds.drop 3, .start, .start, []⟩ =
        some (⟨[], ⟨1, false⟩, ⟨1, false⟩, []⟩, false) := rfl
    have hrounds := hfirst (twoRounds.drop 3)
    rw [List.take_append_drop] at hrounds
    rw [createBareSslConnection, hmax, connectLoop_succ hrounds, if_pos (.inl hpending),
      connectLoop_succ hsecond, if_neg (by decide)]
  have hfails : createBareSslConnection scripted .none 2 (twoRounds.take 3) =
      some (false, ⟨[], ⟨0, true⟩, ⟨0, true⟩,
        txt "SSL_connect() failed 0, 1SSL_accept() failed 0, 1"⟩) := by
    have hsecond : round scripted .none 2 ⟨[], .start, .start, []⟩ = some (⟨[], ⟨0, true⟩,
        ⟨0, true⟩, txt "SSL_connect() failed 0, 1SSL_accept() failed 0, 1"⟩, true) := rfl
    have hrounds := hfirst []
    rw [List.append_nil] at hrounds
    rw [createBareSslConnection, hmax, connectLoop_succ hrounds, if_pos (.inl hpending),
      connectLoop_of_left hsecond]
  obtain ⟨tr, hrun, -, -, hfail⟩ := createBareSslConnection_outcome hwanted
  obtain ⟨tr', hrun', hist', -⟩ := createBareSslConnection_outcome hdone
  obtain ⟨tr'', hrun'', hist'', -⟩ := createBareSslConnection_outcome hfails
  refine ⟨⟨tr, hrun, ?_⟩, ⟨tr', hrun', hist' .client, hist' .server⟩,
    ⟨tr'', hrun'', hist'' .client, hist'' .server⟩⟩
  rcases hfail rfl with ⟨hout, -⟩ | ⟨⟨-, party, hanswered⟩, -⟩
  · -- nothing was printed
    rcases hout with hout | hout <;> exact absurd hout (by decide)
  · exact ⟨party, by cases party <;> exact hanswered⟩

/-! ## Diagnostics -/

/-- A text that starts as one of the diagnostics does. -/
def Diagnosed (t : Text) : Prop := t.head?.any (· ∈ ['S', 'N', 'U']) = true

theorem diagnosed_of_prefix {w t : Text} (hw : Diagnosed w) (h : w <+: t) : Diagnosed t := by
  cases w with
  | nil => cases hw
  | cons a w =>
      obtain ⟨u, rfl⟩ := h
      exact hw

theorem readTickets_out (P : Peers σ) (n : ℕ) (s : σ) :
    if (readTickets P n s).1 then (readTickets P n s).2.2 = []
    else Diagnosed (readTickets P n s).2.2 := by
  induction n generalizing s with
  | zero => rfl
  | succ n ih =>
      rw [readTickets]
      split
      · split
        · exact rfl
        · exact ih _
      · split
        · exact rfl
        · exact ih _

/-- A connection that fails says so on standard output, one that succeeds says nothing. -/
theorem createSslConnection_out {P : Peers σ} {fuel : ℕ} {s : σ} {r : Bool × σ × Text}
    (h : createSslConnection P .none fuel s = some r) :
    if r.1 then r.2.2 = [] else Diagnosed r.2.2 := by
  unfold createSslConnection at h
  rw [Option.map_eq_some_iff] at h
  obtain ⟨b, hb, rfl⟩ := h
  obtain ⟨⟨ok, c⟩, hc, rfl⟩ := exists_recorded hb
  obtain ⟨-, hend⟩ := ended_createBareSslConnection hc
  by_cases hret : ok = true
  · rw [if_pos hret] at hend ⊢
    have hout := readTickets_out P 2 c.peers.1
    rw [show (c.map Prod.fst).out = [] from hend.1]
    exact hout
  · rw [if_neg hret] at hend ⊢
    rw [if_neg Bool.false_ne_true]
    rcases hend with ⟨hpre | hpre, -⟩ | ⟨⟨hnone, -⟩, -⟩
    · exact diagnosed_of_prefix (w := txt "SSL_") rfl hpre
    · exact diagnosed_of_prefix (w := txt "No progress made") rfl hpre
    · exact absurd rfl hnone

end Results

end QudoSSL.Perf
