import QudoSSL.Perf.ConnectionRuns

/-!
# When a connection comes about

The loops of `perflib_create_bare_ssl_connection` end, and a handshake that alternates between the
two sides completes in half as many rounds as it has flights.
-/

namespace QudoSSL.Perf

open Posix

/-! ## More fuel -/

section Fuel

variable {σ : Type} {P : Peers σ} {want : SslError} {fuel fuel' : ℕ}

theorem callLoop_mono {call : σ → Call × σ} {failed : Bool} {ret : ℤ} {err : SslError} {s : σ}
    {r : ℤ × SslError × σ} (hle : fuel ≤ fuel')
    (h : callLoop call failed fuel ret err s = some r) :
    callLoop call failed fuel' ret err s = some r := by
  induction fuel generalizing fuel' ret err s with
  | zero =>
      rw [callLoop] at h
      split at h
      · cases h
      · next hc =>
        rw [callLoop.eq_def, if_neg hc]
        exact h
  | succ fuel ih =>
      obtain ⟨m, rfl⟩ := Nat.exists_eq_add_of_le' hle
      rw [callLoop] at h
      rw [← Nat.add_assoc, callLoop]
      split at h
      · next hc =>
        rw [if_pos hc]
        exact ih (Nat.le_add_left _ _) h
      · next hc =>
        rw [if_neg hc]
        exact h

theorem half_mono {party : Party} {p : Progress} {s : σ} {h : Half σ} (hle : fuel ≤ fuel')
    (hh : half P party want fuel p s = some h) : half P party want fuel' p s = some h := by
  unfold half at hh ⊢
  rw [Option.map_eq_some_iff] at hh ⊢
  obtain ⟨r, hr, heq⟩ := hh
  exact ⟨r, callLoop_mono hle hr, heq⟩

theorem round_mono {c : Loop σ} {r : Loop σ × Bool} (hle : fuel ≤ fuel')
    (h : round P want fuel c = some r) : round P want fuel' c = some r := by
  simp only [round, Option.bind_eq_bind, Option.bind_eq_some_iff] at h ⊢
  obtain ⟨h₁, hh₁, h⟩ := h
  refine ⟨h₁, half_mono hle hh₁, ?_⟩
  split at h
  · next hw =>
    rw [if_pos hw]
    exact h
  · next hw =>
    rw [if_neg hw]
    simp only [Option.bind_eq_some_iff] at h ⊢
    obtain ⟨h₂, hh₂, h⟩ := h
    exact ⟨h₂, half_mono hle hh₂, h⟩

theorem connectLoop_mono {n : ℕ} {c : Loop σ} {r : Bool × Loop σ} (hle : fuel ≤ fuel')
    (h : connectLoop P want fuel n c = some r) : connectLoop P want fuel' n c = some r := by
  induction n generalizing c with
  | zero =>
      rcases hround : round P want fuel c with _ | ⟨c', _ | _⟩
      · rw [connectLoop_of_none hround] at h
        cases h
      · rw [connectLoop_zero hround] at h
        rw [connectLoop_zero (round_mono hle hround), h]
      · rw [connectLoop_of_left hround] at h
        rw [connectLoop_of_left (round_mono hle hround), h]
  | succ n ih =>
      rcases hround : round P want fuel c with _ | ⟨c', _ | _⟩
      · rw [connectLoop_of_none hround] at h
        cases h
      · rw [connectLoop_succ hround] at h
        rw [connectLoop_succ (round_mono hle hround)]
        split at h
        · next hgo =>
          rw [if_pos hgo]
          exact ih h
        · next hgo =>
          rw [if_neg hgo, h]
      · rw [connectLoop_of_left hround] at h
        rw [connectLoop_of_left (round_mono hle hround), h]

end Fuel

/-! ## Termination -/

section Returns

variable {σ : Type}

/-- Called again and again, a side does not answer `SSL_ERROR_WANT_WRITE` for ever. -/
def Unblocks (P : Peers σ) : Prop :=
  ∀ party s, ∃ j, ¬ Blocked (P.call party ((fun s => (P.call party s).2)^[j] s)).1

theorem callLoop_returns {call : σ → Call × σ} {j : ℕ} {s : σ}
    (h : ¬ Blocked (call ((fun s => (call s).2)^[j] s)).1) (failed : Bool) (ret : ℤ)
    (err : SslError) : ∃ r, callLoop call failed (j + 1) ret err s = some r := by
  by_cases hc : failed = false ∧ ret ≤ 0 ∧ err = .wantWrite
  · obtain ⟨rfl, hret, rfl⟩ := hc
    induction j generalizing s ret with
    | zero =>
        have hstop : ¬ Blocked (call s).1 := h
        rw [callLoop_succ hret, callLoop_after hstop]
        exact ⟨_, rfl⟩
    | succ j ih =>
        rw [callLoop_succ hret]
        by_cases hb : Blocked (call s).1
        · rw [if_pos hb.1, hb.2]
          exact ih h _ hb.1
        · rw [callLoop_after hb]
          exact ⟨_, rfl⟩
  · rw [callLoop, if_neg hc]
    exact ⟨_, rfl⟩

section Rounds

variable {P : Peers σ} (h : Unblocks P) (want : SslError)

include h

theorem half_returns (party : Party) (p : Progress) (s : σ) :
    ∃ fuel hf, half P party want fuel p s = some hf := by
  obtain ⟨j, hj⟩ := h party s
  obtain ⟨r, hr⟩ := callLoop_returns hj p.failed p.ret .wantWrite
  refine ⟨j + 1, ?_⟩
  rw [half, hr]
  exact ⟨_, rfl⟩

theorem round_returns (c : Loop σ) : ∃ fuel r, round P want fuel c = some r := by
  obtain ⟨k, h₁, hh₁⟩ := half_returns h want .client c.client c.peers
  obtain ⟨m, h₂, hh₂⟩ := half_returns h want .server c.server h₁.peers
  refine ⟨max k m, ?_⟩
  simp only [round, Option.bind_eq_bind, half_mono (Nat.le_max_left k m) hh₁, Option.bind_some]
  split
  · exact ⟨_, rfl⟩
  · rw [half_mono (Nat.le_max_right k m) hh₂]
    exact ⟨_, rfl⟩

-- Each round has a number of its own; the greatest of them serves the whole loop.
theorem connectLoop_returns (n : ℕ) (c : Loop σ) :
    ∃ fuel r, connectLoop P want fuel n c = some r := by
  induction n generalizing c with
  | zero =>
      obtain ⟨k, ⟨c', _ | _⟩, hr⟩ := round_returns h want c
      · exact ⟨k, _, connectLoop_zero hr⟩
      · exact ⟨k, _, connectLoop_of_left hr _⟩
  | succ n ih =>
      obtain ⟨k, ⟨c', _ | _⟩, hr⟩ := round_returns h want c
      · obtain ⟨m, r, hm⟩ := ih c'
        refine ⟨max k m, ?_⟩
        rw [connectLoop_succ (round_mono (Nat.le_max_left k m) hr)]
        split
        · exact ⟨r, connectLoop_mono (Nat.le_max_right k m) hm⟩
        · exact ⟨_, rfl⟩
      · exact ⟨k, _, connectLoop_of_left hr _⟩

end Rounds

/-- The two loops end if no side answers `SSL_ERROR_WANT_WRITE` for ever, however often it does and
however long the peers keep each other waiting.  What they come to does not depend on the bound. -/
theorem createBareSslConnection_returns {P : Peers σ} (h : Unblocks P) (want : SslError) (s : σ) :
    ∃ fuel r, ∀ fuel' ≥ fuel, createBareSslConnection P want fuel' s = some r := by
  obtain ⟨fuel, r, hr⟩ := connectLoop_returns h want (maxLoops - 1) ⟨s, .start, .start, []⟩
  exact ⟨fuel, r, fun _ hle => connectLoop_mono hle hr⟩

-- At its end a script gives an answer that is not repeated.
theorem unblocks_scripted : Unblocks scripted := by
  intro party s
  have hend : ∀ s : List Call, ∃ j, List.tail^[j] s = [] := by
    intro s
    induction s with
    | nil => exact ⟨0, rfl⟩
    | cons c s ih =>
        obtain ⟨j, hj⟩ := ih
        exact ⟨j + 1, hj⟩
  obtain ⟨j, hj⟩ := hend s
  have hcall : (fun s => (scripted.call party s).2) = List.tail := by
    cases party <;> rfl
  refine ⟨j, ?_⟩
  rw [hcall, hj]
  rintro ⟨-, herr⟩
  cases party <;> cases herr

/-- The client is blocked three times in a row, the server once. -/
def retries : List Call :=
  [⟨-1, .wantWrite⟩, ⟨-1, .wantWrite⟩, ⟨-1, .wantWrite⟩, ⟨1, .none⟩, ⟨-1, .wantWrite⟩, ⟨1, .none⟩]

theorem createBareSslConnection_returns_retries :
    createBareSslConnection scripted .none 3 retries = none ∧
      ∃ fuel r, ∀ fuel' ≥ fuel, createBareSslConnection scripted .none fuel' retries = some r :=
  ⟨rfl, createBareSslConnection_returns unblocks_scripted .none retries⟩

end Returns

/-! ## Handshakes in flights -/

section Flights

/-- Peers whose handshake is a sequence of `n` flights, sent by the client and the server in turn;
the state is the number of flights that have been sent.  A side is through when it has sent or
received the last one. -/
def flights (n : ℕ) : Peers ℕ where
  connect s :=
    if s < n ∧ s % 2 = 0 then (⟨if s + 1 = n then 1 else -1, .wantRead⟩, s + 1)
    else (⟨if s = n then 1 else -1, .wantRead⟩, s)
  accept s :=
    if s < n ∧ s % 2 = 1 then (⟨if s + 1 = n then 1 else -1, .wantRead⟩, s + 1)
    else (⟨if s = n then 1 else -1, .wantRead⟩, s)
  read s := (⟨-1, .wantRead⟩, s)
  errors s := ([], s)

section Halves

variable {σ : Type} {P : Peers σ} {party : Party} {s s' : σ}

theorem half_waits (h : P.call party s = (⟨-1, .wantRead⟩, s')) (want : SslError) (fuel : ℕ) :
    half P party want (fuel + 1) .start s = some ⟨.wantRead, .start, s', []⟩ := by
  have hloop : callLoop (P.call party) false (fuel + 1) (-1) .wantWrite s =
      some (-1, .wantRead, s') := by
    rw [callLoop_succ (by decide), callLoop_after (by rw [h]; exact fun hb => nomatch hb.2), h]
    rfl
  have hwait : SslError.wantRead ∈ party.waits := by cases party <;> decide
  simp [half, Progress.start, hloop, hwait]

theorem half_done {err : SslError} (h : P.call party s = (⟨1, err⟩, s')) (want : SslError)
    (fuel : ℕ) : half P party want (fuel + 1) .start s = some ⟨.wantWrite, ⟨1, false⟩, s', []⟩ := by
  have hloop : callLoop (P.call party) false (fuel + 1) (-1) .wantWrite s =
      some (1, .wantWrite, s') := by
    rw [callLoop_succ (by decide), callLoop_after (by rw [h]; exact fun hb => nomatch hb.1), h]
    rfl
  simp [half, Progress.start, hloop]

theorem round_of_halves {fuel : ℕ} {c : Loop σ} {h₁ h₂ : Half σ}
    (hc : half P .client .none fuel c.client c.peers = some h₁)
    (hs : half P .server .none fuel c.server h₁.peers = some h₂) :
    round P .none fuel c = some ((c.after .client h₁).after .server h₂,
      h₁.progress.failed && h₂.progress.failed) := by
  simp [round, hc, hs, Loop.after]

theorem half_idle (want : SslError) (fuel : ℕ) :
    half P party want fuel ⟨1, false⟩ s = some ⟨.wantWrite, ⟨1, false⟩, s, []⟩ := by
  simp [half, callLoop_idle (.inr (by decide : (0 : ℤ) < 1))]

end Halves

/-- Both sides wait after `2 * k` flights. -/
def waiting (k : ℕ) : Loop ℕ := ⟨2 * k, .start, .start, []⟩

variable {n k : ℕ}

theorem round_flights_waiting (h : 2 * k + 2 < n) :
    round (flights n) .none 1 (waiting k) = some (waiting (k + 1), false) := by
  have hc : (flights n).call .client (2 * k) = (⟨-1, .wantRead⟩, 2 * k + 1) := by
    simp only [Peers.call, flights]
    rw [if_pos (by omega), if_neg (by omega)]
  have hs : (flights n).call .server (2 * k + 1) = (⟨-1, .wantRead⟩, 2 * k + 2) := by
    simp only [Peers.call, flights]
    rw [if_pos (by omega), if_neg (by omega)]
  rw [round_of_halves (c := waiting k) (half_waits hc .none 0) (half_waits hs .none 0)]
  rfl

-- The client sends the last flight: both sides finish in this round.
theorem round_flights_odd (h : n = 2 * k + 1) :
    round (flights n) .none 1 (waiting k) = some (⟨n, ⟨1, false⟩, ⟨1, false⟩, []⟩, false) := by
  have hc : (flights n).call .client (2 * k) = (⟨1, .wantRead⟩, n) := by
    simp only [Peers.call, flights]
    rw [if_pos (by omega), if_pos (by omega), h]
  have hs : (flights n).call .server n = (⟨1, .wantRead⟩, n) := by
    simp only [Peers.call, flights]
    rw [if_neg (by omega), if_pos trivial]
  rw [round_of_halves (c := waiting k) (half_done hc .none 0) (half_done hs .none 0)]
  rfl

-- The server sends it: the client learns of it in the next round.
theorem round_flights_even (h : n = 2 * k + 2) :
    round (flights n) .none 1 (waiting k) = some (⟨n, .start, ⟨1, false⟩, []⟩, false) := by
  have hc : (flights n).call .client (2 * k) = (⟨-1, .wantRead⟩, 2 * k + 1) := by
    simp only [Peers.call, flights]
    rw [if_pos (by omega), if_neg (by omega)]
  have hs : (flights n).call .server (2 * k + 1) = (⟨1, .wantRead⟩, n) := by
    simp only [Peers.call, flights]
    rw [if_pos (by omega), if_pos (by omega), h]
  rw [round_of_halves (c := waiting k) (half_waits hc .none 0) (half_done hs .none 0)]
  rfl

theorem round_flights_last (n : ℕ) :
    round (flights n) .none 1 ⟨n, .start, ⟨1, false⟩, []⟩ =
      some (⟨n, ⟨1, false⟩, ⟨1, false⟩, []⟩, false) := by
  have hc : (flights n).call .client n = (⟨1, .wantRead⟩, n) := by
    simp only [Peers.call, flights]
    rw [if_neg (by omega), if_pos trivial]
  rw [round_of_halves (c := ⟨n, .start, ⟨1, false⟩, []⟩) (half_done hc .none 0)
    (half_idle .none 1)]
  rfl

theorem round_flights_none :
    round (flights 0) .none 1 (waiting 0) = some (⟨0, ⟨1, false⟩, ⟨1, false⟩, []⟩, false) :=
  rfl

-- Both sides are through after this round; it counts unless it is the last one allowed.
theorem connectLoop_flights_through {c : Loop ℕ}
    (h : round (flights n) .none 1 c = some (⟨n, ⟨1, false⟩, ⟨1, false⟩, []⟩, false)) (m : ℕ) :
    ∃ c', connectLoop (flights n) .none 1 m c = some (decide (1 ≤ m), c') := by
  cases m with
  | zero => exact ⟨_, connectLoop_zero h⟩
  | succ m =>
      rw [connectLoop_succ h, if_neg (by simp)]
      exact ⟨_, congrArg (fun b => some (b, _)) (by simp)⟩

theorem connectLoop_flights (hk : 2 * k < n) (m : ℕ) :
    ∃ c, connectLoop (flights n) .none 1 m (waiting k) = some (decide (n / 2 + 1 ≤ m + k), c) := by
  have hstart : Progress.start.ret ≤ 0 := by decide
  induction m generalizing k with
  | zero =>
      have hlate : decide (n / 2 + 1 ≤ 0 + k) = false := by
        rw [decide_eq_false_iff_not]
        omega
      rw [hlate]
      rcases Nat.lt_trichotomy (2 * k + 2) n with h | h | h
      · exact ⟨_, connectLoop_zero (round_flights_waiting h)⟩
      · exact ⟨_, connectLoop_zero (round_flights_even h.symm)⟩
      · exact ⟨_, connectLoop_zero (round_flights_odd (by omega))⟩
  | succ m ih =>
      rcases Nat.lt_trichotomy (2 * k + 2) n with h | h | h
      · rw [connectLoop_succ (round_flights_waiting h), if_pos (.inl hstart)]
        obtain ⟨c, hc⟩ := ih (k := k + 1) (by omega)
        exact ⟨c, by rw [hc, show m + (k + 1) = m + 1 + k by omega]⟩
      · rw [connectLoop_succ (round_flights_even h.symm), if_pos (.inl hstart)]
        obtain ⟨c, hc⟩ := connectLoop_flights_through (round_flights_last n) m
        refine ⟨c, ?_⟩
        rw [hc, show decide (1 ≤ m) = decide (n / 2 + 1 ≤ m + 1 + k) by
          rw [decide_eq_decide]; omega]
      · have hodd : n = 2 * k + 1 := by omega
        obtain ⟨c, hc⟩ := connectLoop_flights_through (round_flights_odd hodd) (m + 1)
        refine ⟨c, ?_⟩
        rw [hc, show decide (1 ≤ m + 1) = decide (n / 2 + 1 ≤ m + 1 + k) by
          rw [decide_eq_decide]; omega]

/-- A handshake of `n` flights takes `n / 2 + 1` rounds; it must be through before round
`MAXLOOPS`, for in that round the loop gives up even on peers that have just finished. -/
theorem createBareSslConnection_flights (n : ℕ) :
    ∃ c, createBareSslConnection (flights n) .none 1 0 =
      some (decide (n / 2 + 1 < maxLoops), c) := by
  show ∃ c, connectLoop (flights n) .none 1 (maxLoops - 1) (waiting 0) = _
  rw [show decide (n / 2 + 1 < maxLoops) = decide (n / 2 + 1 ≤ maxLoops - 1 + 0) by
    rw [decide_eq_decide]
    show n / 2 + 1 < 1000000 ↔ n / 2 + 1 ≤ 1000000 - 1 + 0
    omega]
  rcases Nat.eq_zero_or_pos n with rfl | hpos
  · exact connectLoop_flights_through round_flights_none _
  · exact connectLoop_flights (by omega) _

end Flights

end QudoSSL.Perf
