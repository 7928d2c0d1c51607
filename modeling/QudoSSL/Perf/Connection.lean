import QudoSSL.Posix.Text

/-!
# `benchmark/perftools/source/perflib/perfsslhelper.c`

The connection that every measured handshake makes: a client and a server in one process, joined by
memory BIOs and called in turn until both have finished.  What OpenSSL answers to a call is a
parameter; the loops around the calls are the source's.
-/

namespace QudoSSL.Perf

open Posix

/-! ## Calls -/

inductive SslError where
  | none
  | ssl
  | wantRead
  | wantWrite
  | wantX509Lookup
  | syscall
  | zeroReturn
  | wantConnect
  | wantAccept
  | wantAsync
  | wantAsyncJob
  | wantClientHelloCb
  | wantRetryVerify
  deriving DecidableEq

def SslError.code : SslError → ℕ
  | .none => 0
  | .ssl => 1
  | .wantRead => 2
  | .wantWrite => 3
  | .wantX509Lookup => 4
  | .syscall => 5
  | .zeroReturn => 6
  | .wantConnect => 7
  | .wantAccept => 8
  | .wantAsync => 9
  | .wantAsyncJob => 10
  | .wantClientHelloCb => 11
  | .wantRetryVerify => 12

/-- What a call returns, and what `SSL_get_error` says of it afterwards. -/
structure Call where
  ret : ℤ
  err : SslError
  deriving DecidableEq

/-- The two `SSL` objects with their BIOs and the thread's error queue are one state; `errors` is
`ERR_print_errors_fp`. -/
structure Peers (σ : Type) where
  connect : σ → Call × σ
  accept : σ → Call × σ
  read : σ → Call × σ
  errors : σ → Text × σ

/-- When `perflib_create_ssl_objects` fails, the connection is tried on null pointers all the same:
every call on one returns 0, and `SSL_get_error` says `SSL_ERROR_SSL`.  The state is the text of the
error queue. -/
def noObjects : Peers Text where
  connect queue := (⟨0, .ssl⟩, queue)
  accept queue := (⟨0, .ssl⟩, queue)
  read queue := (⟨0, .ssl⟩, queue)
  errors queue := (queue, [])

inductive Party where
  | client
  | server
  deriving DecidableEq

def Peers.call {σ : Type} (P : Peers σ) : Party → σ → Call × σ
  | .client => P.connect
  | .server => P.accept

def Party.function : Party → Text
  | .client => txt "SSL_connect()"
  | .server => txt "SSL_accept()"

/-- The errors that are no failure: the outer loop comes back to this side. -/
def Party.waits : Party → List SslError
  | .client => [.wantRead]
  | .server => [.wantRead, .wantX509Lookup]

/-! ## The connection -/

def maxLoops : ℕ := 1000000

/-- `retc` and `clienterr`, or `rets` and `servererr`. -/
structure Progress where
  ret : ℤ
  failed : Bool
  deriving DecidableEq

def Progress.start : Progress := ⟨-1, false⟩

/-- Neither finished nor failed. -/
def Progress.Pending (p : Progress) : Prop := p.failed = false ∧ p.ret ≤ 0

structure Loop (σ : Type) where
  peers : σ
  client : Progress
  server : Progress
  out : Text

section Code

variable {σ : Type}

/-- `while (!clienterr && retc <= 0 && err == SSL_ERROR_WANT_WRITE)`.  Nothing bounds this loop in
the source; `fuel` does here. -/
def callLoop (call : σ → Call × σ) (failed : Bool) (fuel : ℕ) (ret : ℤ) (err : SslError) (s : σ) :
    Option (ℤ × SslError × σ) :=
  if failed = false ∧ ret ≤ 0 ∧ err = .wantWrite then
    match fuel with
    | 0 => none
    | fuel + 1 =>
        let r := call s
        callLoop call failed fuel r.1.ret (if r.1.ret ≤ 0 then r.1.err else err) r.2
  else some (ret, err, s)

/-- What one side's half of the loop body leaves. -/
structure Half (σ : Type) where
  err : SslError
  progress : Progress
  peers : σ
  out : Text

def half (P : Peers σ) (party : Party) (want : SslError) (fuel : ℕ) (p : Progress) (s : σ) :
    Option (Half σ) :=
  -- err = SSL_ERROR_WANT_WRITE before the inner loop, and still so where the loop is skipped
  (callLoop (P.call party) p.failed fuel p.ret .wantWrite s).map fun r =>
    if p.failed = false ∧ r.1 ≤ 0 ∧ r.2.1 ∉ party.waits then
      let printed := if want = .ssl then ([], r.2.2) else P.errors r.2.2
      ⟨r.2.1, ⟨r.1, true⟩, printed.2,
        party.function ++ txt " failed " ++ integer r.1 ++ txt ", " ++ decimal r.2.1.code ++
          printed.1⟩
    else ⟨r.2.1, ⟨r.1, p.failed⟩, r.2.2, []⟩

/-- The body of the `do` loop up to its counter, and whether it leaves by `goto err`. -/
def round (P : Peers σ) (want : SslError) (fuel : ℕ) (c : Loop σ) : Option (Loop σ × Bool) := do
  let h ← half P .client want fuel c.client c.peers
  let c := { c with peers := h.peers, client := h.progress, out := c.out ++ h.out }
  if want ≠ .none ∧ h.err = want then pure (c, true)
  else do
    let h ← half P .server want fuel c.server c.peers
    let c := { c with peers := h.peers, server := h.progress, out := c.out ++ h.out }
    pure (c, decide ((want ≠ .none ∧ h.err = want) ∨ (c.client.failed ∧ c.server.failed)))

/-- The `do` loop; `n` more rounds may follow this one. -/
def connectLoop (P : Peers σ) (want : SslError) (fuel n : ℕ) (c : Loop σ) :
    Option (Bool × Loop σ) :=
  match round P want fuel c with
  | none => none
  | some (c, true) => some (false, c)
  | some (c, false) =>
      match n with
      | 0 => some (false, { c with out := c.out ++ txt "No progress made" })
      | n + 1 =>
          if c.client.ret ≤ 0 ∨ c.server.ret ≤ 0 then connectLoop P want fuel n c
          else some (true, c)

def createBareSslConnection (P : Peers σ) (want : SslError) (fuel : ℕ) (s : σ) :
    Option (Bool × Loop σ) :=
  connectLoop P want fuel (maxLoops - 1) ⟨s, .start, .start, []⟩

/-- `for (i = 0; i < 2; i++)`: reads that are expected to find nothing. -/
def readTickets (P : Peers σ) : ℕ → σ → Bool × σ × Text
  | 0, s => (true, s, [])
  | n + 1, s =>
      let r := P.read s
      if 0 ≤ r.1.ret then
        if r.1.ret ≠ 0 then (false, r.2, terminate (txt "Unexpected data reading ticket"))
        else readTickets P n r.2
      else if r.1.err ≠ .wantRead then
        (false, r.2, terminate (txt "Unexpected error reading ticket"))
      else readTickets P n r.2

def createSslConnection (P : Peers σ) (want : SslError) (fuel : ℕ) (s : σ) :
    Option (Bool × σ × Text) :=
  (createBareSslConnection P want fuel s).map fun r =>
    if r.1 then
      let t := readTickets P 2 r.2.peers
      (t.1, t.2.1, r.2.out ++ t.2.2)
    else (false, r.2.peers, r.2.out)

end Code

/-! ## What half a round can come to -/

section Answers

variable {σ : Type}

/-- Called again and again from the first state, `call` gives these answers and ends in the last. -/
def Answers (call : σ → Call × σ) : σ → List Call → σ → Prop
  | s, [], s' => s = s'
  | s, c :: cs, s' => (call s).1 = c ∧ Answers call (call s).2 cs s'

/-- The inner loop repeats the call. -/
def Blocked (c : Call) : Prop := c.ret ≤ 0 ∧ c.err = .wantWrite

variable {call : σ → Call × σ} {s : σ}

theorem callLoop_idle {failed : Bool} {ret : ℤ} (h : failed = true ∨ 0 < ret) (fuel : ℕ)
    (err : SslError) : callLoop call failed fuel ret err s = some (ret, err, s) := by
  have hnot : ¬ (failed = false ∧ ret ≤ 0 ∧ err = .wantWrite) := by
    rintro ⟨hf, hret, -⟩
    rcases h with h | h
    · rw [hf] at h
      cases h
    · omega
  rw [callLoop.eq_def, if_neg hnot]

theorem callLoop_settled {ret : ℤ} {err : SslError} (h : ¬ (ret ≤ 0 ∧ err = .wantWrite))
    (fuel : ℕ) : callLoop call false fuel ret err s = some (ret, err, s) := by
  rw [callLoop.eq_def, if_neg fun hc => h hc.2]

theorem callLoop_succ {ret : ℤ} (hret : ret ≤ 0) (fuel : ℕ) :
    callLoop call false (fuel + 1) ret .wantWrite s =
      callLoop call false fuel (call s).1.ret
        (if (call s).1.ret ≤ 0 then (call s).1.err else .wantWrite) (call s).2 := by
  rw [callLoop, if_pos ⟨rfl, hret, rfl⟩]

theorem callLoop_after (h : ¬ Blocked (call s).1) (fuel : ℕ) :
    callLoop call false fuel (call s).1.ret
        (if (call s).1.ret ≤ 0 then (call s).1.err else .wantWrite) (call s).2 =
      some ((call s).1.ret, if (call s).1.ret ≤ 0 then (call s).1.err else .wantWrite,
        (call s).2) := by
  apply callLoop_settled
  rintro ⟨hle, herr⟩
  rw [if_pos hle] at herr
  exact h ⟨hle, herr⟩

-- The loop ends with the first answer that is not `SSL_ERROR_WANT_WRITE`.
theorem callLoop_answers {fuel : ℕ} {ret : ℤ} {r : ℤ × SslError × σ} (hret : ret ≤ 0)
    (h : callLoop call false fuel ret .wantWrite s = some r) :
    ∃ ws c, Answers call s (ws ++ [c]) r.2.2 ∧ (∀ w ∈ ws, Blocked w) ∧ ¬ Blocked c ∧
      r.1 = c.ret ∧ r.2.1 = if c.ret ≤ 0 then c.err else .wantWrite := by
  induction fuel generalizing ret s with
  | zero =>
      rw [callLoop, if_pos ⟨rfl, hret, rfl⟩] at h
      cases h
  | succ fuel ih =>
      rw [callLoop_succ hret] at h
      by_cases hb : Blocked (call s).1
      · rw [if_pos hb.1, hb.2] at h
        obtain ⟨ws, c, hans, hws, hc, hr⟩ := ih hb.1 h
        refine ⟨(call s).1 :: ws, c, ⟨rfl, hans⟩, ?_, hc, hr⟩
        exact List.forall_mem_cons.mpr ⟨hb, hws⟩
      · rw [callLoop_after hb] at h
        cases h
        exact ⟨[], (call s).1, ⟨rfl, rfl⟩, by simp, hb, rfl, rfl⟩

/-- The four ends of a half: the side had finished or failed before, it waits for the other one, it
finishes, it fails. -/
inductive HalfStep (P : Peers σ) (party : Party) (p : Progress) (s : σ) : Half σ → Prop where
  | idle (h : p.failed = true ∨ 0 < p.ret) : HalfStep P party p s ⟨.wantWrite, p, s, []⟩
  | waits {ws : List Call} {c : Call} {s' : σ} (hp : p.Pending)
      (hans : Answers (P.call party) s (ws ++ [c]) s') (hws : ∀ w ∈ ws, Blocked w)
      (hret : c.ret ≤ 0) (hc : c.err ∈ party.waits) :
      HalfStep P party p s ⟨c.err, ⟨c.ret, false⟩, s', []⟩
  | done {ws : List Call} {c : Call} {s' : σ} (hp : p.Pending)
      (hans : Answers (P.call party) s (ws ++ [c]) s') (hws : ∀ w ∈ ws, Blocked w)
      (hret : 0 < c.ret) : HalfStep P party p s ⟨.wantWrite, ⟨c.ret, false⟩, s', []⟩
  | fails {ws : List Call} {c : Call} {s' s'' : σ} {text : Text}
      (hp : p.Pending) (hans : Answers (P.call party) s (ws ++ [c]) s')
      (hws : ∀ w ∈ ws, Blocked w) (hret : c.ret ≤ 0) (hc : c.err ∉ party.waits)
      (hblocked : ¬ Blocked c) (hs : s'' = s' ∨ s'' = (P.errors s').2) :
      HalfStep P party p s ⟨c.err, ⟨c.ret, true⟩, s'', party.function ++ text⟩

theorem halfStep_of_half {P : Peers σ} {party : Party} {want : SslError} {fuel : ℕ} {p : Progress}
    {h : Half σ} (hh : half P party want fuel p s = some h) : HalfStep P party p s h := by
  unfold half at hh
  rw [Option.map_eq_some_iff] at hh
  obtain ⟨r, hr, rfl⟩ := hh
  by_cases hp : p.Pending
  · rw [hp.1] at hr
    obtain ⟨ws, c, hans, hws, hc, hret, herr⟩ := callLoop_answers hp.2 hr
    by_cases hle : c.ret ≤ 0
    · rw [if_pos hle] at herr
      by_cases hwait : c.err ∈ party.waits
      · rw [if_neg (by rw [herr]; exact fun hf => hf.2.2 hwait), hret, herr, hp.1]
        exact .waits hp hans hws hle hwait
      · rw [if_pos ⟨hp.1, by rw [hret]; exact hle, by rw [herr]; exact hwait⟩, hret, herr]
        simp only [List.append_assoc]
        refine .fails hp hans hws hle hwait hc ?_
        split
        · exact .inl rfl
        · exact .inr rfl
    · rw [if_neg hle] at herr
      rw [if_neg (by rw [hret]; exact fun hf => hle hf.2.1), hret, herr, hp.1]
      exact .done hp hans hws (Int.not_le.mp hle)
  · have hidle : p.failed = true ∨ 0 < p.ret := by
      by_cases hf : p.failed = true
      · exact .inl hf
      · exact .inr (Int.not_le.mp fun hle => hp ⟨by simpa using hf, hle⟩)
    rw [callLoop_idle hidle] at hr
    cases hr
    rw [if_neg fun hf => hp ⟨hf.1, hf.2.1⟩]
    exact .idle hidle

end Answers

/-! ## Histories -/

section Histories

variable {σ : Type}

/-- Peers that keep a record of the calls made on them. -/
def Peers.recorded (P : Peers σ) : Peers (σ × List (Party × Call)) where
  connect s := ((P.connect s.1).1, (P.connect s.1).2, s.2 ++ [(.client, (P.connect s.1).1)])
  accept s := ((P.accept s.1).1, (P.accept s.1).2, s.2 ++ [(.server, (P.accept s.1).1)])
  read s := ((P.read s.1).1, (P.read s.1).2, s.2)
  errors s := ((P.errors s.1).1, (P.errors s.1).2, s.2)

def callsOf (party : Party) (tr : List (Party × Call)) : List Call :=
  (tr.filter (·.1 = party)).map Prod.snd

theorem callsOf_append_same (party : Party) (tr : List (Party × Call)) (cs : List Call) :
    callsOf party (tr ++ cs.map (party, ·)) = callsOf party tr ++ cs := by
  simp [callsOf, List.filter_map, Function.comp_def]

theorem callsOf_append_other {party other : Party} (h : other ≠ party)
    (tr : List (Party × Call)) (cs : List Call) :
    callsOf other (tr ++ cs.map (party, ·)) = callsOf other tr := by
  simp [callsOf, List.filter_map, Function.comp_def, Ne.symm h]

theorem answers_recorded {P : Peers σ} {party : Party} {s s' : σ × List (Party × Call)}
    {cs : List Call} (h : Answers (P.recorded.call party) s cs s') :
    s'.2 = s.2 ++ cs.map (party, ·) := by
  induction cs generalizing s with
  | nil => simp [show s = s' from h]
  | cons c cs ih =>
      obtain ⟨hc, hcs⟩ := h
      rw [ih hcs, ← hc]
      cases party <;> simp [Peers.call, Peers.recorded]

theorem callsOf_answers {P : Peers σ} {party : Party} {s s' : σ × List (Party × Call)}
    {ws : List Call} {c : Call} (h : Answers (P.recorded.call party) s (ws ++ [c]) s') :
    callsOf party s'.2 = (callsOf party s.2 ++ ws) ++ [c] ∧
      ∀ other, other ≠ party → callsOf other s'.2 = callsOf other s.2 := by
  have htrace := answers_recorded h
  constructor
  · rw [htrace, callsOf_append_same, List.append_assoc]
  · intro other hne
    rw [htrace, callsOf_append_other hne]

/-- The side is called once more. -/
def Retry (party : Party) (c : Call) : Prop :=
  c.ret ≤ 0 ∧ (c.err = .wantWrite ∨ c.err ∈ party.waits)

/-- The calls made on one side, against what the loop remembers of it: after a call that is not to
be repeated there is none. -/
inductive History (party : Party) : Progress → List Call → Prop where
  | pending {ret : ℤ} {cs : List Call} (hret : ret ≤ 0) (hcs : ∀ c ∈ cs, Retry party c) :
      History party ⟨ret, false⟩ cs
  | done {cs : List Call} {c : Call} (hcs : ∀ c ∈ cs, Retry party c) (hc : 0 < c.ret) :
      History party ⟨c.ret, false⟩ (cs ++ [c])
  | failed {cs : List Call} {c : Call} (hcs : ∀ c ∈ cs, Retry party c) (hret : c.ret ≤ 0)
      (hc : ¬ Retry party c) : History party ⟨c.ret, true⟩ (cs ++ [c])

theorem retry_of_blocked {c : Call} (party : Party) (h : Blocked c) : Retry party c :=
  ⟨h.1, .inl h.2⟩

theorem History.retries {party : Party} {p : Progress} {cs : List Call} (h : History party p cs)
    (hp : p.Pending) : ∀ c ∈ cs, Retry party c := by
  cases h with
  | pending _ hcs => exact hcs
  | done _ hc => exact absurd hp.2 (Int.not_le.mpr hc)
  | failed => exact absurd hp.1 (by simp)

theorem History.append {party : Party} {cs ws : List Call} (hcs : ∀ c ∈ cs, Retry party c)
    (hws : ∀ w ∈ ws, Blocked w) : ∀ c ∈ cs ++ ws, Retry party c := by
  intro c hc
  rcases List.mem_append.mp hc with h | h
  · exact hcs c h
  · exact retry_of_blocked party (hws c h)

/-- Where the `err` of a half comes from: the side's last answer, or, if the side is not called
again, the `SSL_ERROR_WANT_WRITE` that every half begins with. -/
def Answered (err : SslError) (p : Progress) (cs : List Call) : Prop :=
  (∃ c ∈ cs.getLast?, c.ret ≤ 0 ∧ c.err = err) ∨ (err = .wantWrite ∧ ¬ p.Pending)

theorem Answered.of_last {p : Progress} {cs pre : List Call} {c : Call} (hcs : cs = pre ++ [c])
    (hret : c.ret ≤ 0) : Answered c.err p cs := by
  rw [hcs]
  exact .inl ⟨c, by simp, hret, rfl⟩

theorem Progress.not_pending_of_idle {p : Progress} (h : p.failed = true ∨ 0 < p.ret) :
    ¬ p.Pending := by
  intro hp
  rcases h with hf | hret
  · rw [hp.1] at hf
    cases hf
  · exact absurd hp.2 (Int.not_le.mpr hret)

/-- What half a round leaves of both histories. -/
structure HalfDone (party : Party) (p : Progress) (s : σ × List (Party × Call))
    (h : Half (σ × List (Party × Call))) : Prop where
  history : History party h.progress (callsOf party h.peers.2)
  other : ∀ other, other ≠ party → callsOf other h.peers.2 = callsOf other s.2
  quiet : h.out = [] ↔ (h.progress.failed = true → p.failed = true)
  failed : p.failed = true → h.progress.failed = true
  text : h.out = [] ∨ party.function <+: h.out
  pending : h.progress.Pending → p.Pending
  called : p.Pending → (callsOf party s.2).length + 1 ≤ (callsOf party h.peers.2).length
  answered : Answered h.err h.progress (callsOf party h.peers.2)

theorem HalfStep.recorded {P : Peers σ} {party : Party} {p : Progress}
    {s : σ × List (Party × Call)} {h : Half (σ × List (Party × Call))}
    (hs : HalfStep P.recorded party p s h) (hist : History party p (callsOf party s.2)) :
    HalfDone party p s h := by
  cases hs with
  | idle hidle =>
      have hnot := Progress.not_pending_of_idle hidle
      exact ⟨hist, fun _ _ => rfl, by simp, fun h => h, .inl rfl, fun h => h,
        fun hp => absurd hp hnot, .inr ⟨rfl, hnot⟩⟩
  | waits hp hans hws hret hc =>
      obtain ⟨hown, hother⟩ := callsOf_answers hans
      have hcs := History.append (hist.retries hp) hws
      refine ⟨?_, hother, by simp, by simp [hp.1], .inl rfl, fun _ => hp, fun _ => ?_,
        .of_last hown hret⟩
      · show History party _ (callsOf party _)
        rw [hown]
        refine .pending hret fun d hd => ?_
        rcases List.mem_append.mp hd with hd | hd
        · exact hcs d hd
        · rw [List.mem_singleton.mp hd]
          exact ⟨hret, .inr hc⟩
      · simp only [hown, List.length_append, List.length_singleton]
        omega
  | done hp hans hws hret =>
      obtain ⟨hown, hother⟩ := callsOf_answers hans
      refine ⟨?_, hother, by simp, by simp [hp.1], .inl rfl, fun _ => hp, fun _ => ?_,
        .inr ⟨rfl, fun hopen => absurd hopen.2 (Int.not_le.mpr hret)⟩⟩
      · show History party _ (callsOf party _)
        rw [hown]
        exact .done (History.append (hist.retries hp) hws) hret
      · simp only [hown, List.length_append, List.length_singleton]
        omega
  | @fails ws c s' s'' text hp hans hws hret hc hblocked hs =>
      have hsame : s''.2 = s'.2 := by
        rcases hs with rfl | rfl
        · rfl
        · rfl
      obtain ⟨hown, hother⟩ := callsOf_answers hans
      have hnot : ¬ Retry party c := fun hr => hr.2.elim (fun hw => hblocked ⟨hret, hw⟩) hc
      have hne : party.function ++ text ≠ [] := by cases party <;> simp [Party.function, txt]
      refine ⟨?_, ?_, ?_, by simp, .inr ⟨text, rfl⟩, fun _ => hp, fun _ => ?_,
        .of_last (hsame ▸ hown) hret⟩
      · show History party _ (callsOf party s''.2)
        rw [hsame, hown]
        exact .failed (History.append (hist.retries hp) hws) hret hnot
      · show ∀ other, other ≠ party → callsOf other s''.2 = _
        rw [hsame]
        exact hother
      · show party.function ++ text = [] ↔ _
        simp [hne, hp.1]
      · simp only [hsame, hown, List.length_append, List.length_singleton]
        omega

end Histories

end QudoSSL.Perf
