import QudoSSL.Bench.Run
import QudoSSL.Conc.Threads
import QudoSSL.Perf.ConnectionRuns
import QudoSSL.Python.Printed
import Mathlib.Algebra.BigOperators.Fin

/-!
# `benchmark/perftools/source/handshake.c`

Threads that make handshakes until the time is up, each counting its own, and the average over all
of them.  A step of a thread is one access to what the threads share: a slot of `counts`, or `err`.
The schedule is arbitrary, as are the outcomes of the handshakes and the times each thread reads;
`Clock` has the threads on one clock.
-/

namespace QudoSSL.Perf

open Posix Python Conc

def runTime : ℕ := 5

/-! ## The thread functions -/

/-- What a thread meets: whether the context it makes first can be made, whether the one for its
`k`-th handshake can, what that handshake returns and prints, and the time read after it. -/
structure Env where
  setup : Bool
  context : ℕ → Bool
  handshake : ℕ → Bool × Text
  clock : ℕ → ℕ

inductive OnFailure where
  /-- `break` -/
  | leave
  /-- `err = 1; return` -/
  | fail
  deriving DecidableEq

/-- What tells the thread functions apart: whether a context is made before the loop, before which
handshakes one is made, and what happens if that fails. -/
structure Body where
  setup : Bool
  needs : ℕ → Bool
  onFailure : OnFailure

inductive TestCase where
  | sslCtx
  | osslLibCtxPerThread
  | osslLibCtxPool
  | sslCtxPool
  deriving DecidableEq

def doHandshake (shareCtx : Bool) : Body := ⟨false, fun _ => !shareCtx, .leave⟩

def doHandshakeOsslLibCtxPerThread (shareCtx : Bool) : Body :=
  ⟨true, fun k => k = 0 || !shareCtx, .fail⟩

def doHandshakeCtxPool (testCase : TestCase) (shareCtx : Bool) : Body :=
  ⟨shareCtx && testCase = .osslLibCtxPool, fun _ => !shareCtx && testCase = .osslLibCtxPool, .fail⟩

def TestCase.body (shareCtx : Bool) : TestCase → Body
  | .sslCtx => doHandshake shareCtx
  | .osslLibCtxPerThread => doHandshakeOsslLibCtxPerThread shareCtx
  | .osslLibCtxPool => doHandshakeCtxPool .osslLibCtxPool shareCtx
  | .sslCtxPool => doHandshakeCtxPool .sslCtxPool shareCtx

inductive Pc where
  | start
  | loop
  | store
  | check
  | done
  deriving DecidableEq

/-- A thread with its slot of `counts`, which holds nothing before the first store. -/
structure Thread where
  pc : Pc
  count : ℕ
  ret : Bool
  slot : Option ℕ
  out : Text

def Thread.init : Thread := ⟨.start, 0, true, none, []⟩

section Code

variable (b : Body) (maxTime : ℕ) (e : Env)

def next (t : Thread) : Thread :=
  match t.pc with
  | .start =>
      if b.setup && !e.setup then { t with pc := .done }
      else { t with pc := .loop, slot := some 0 }
  | .loop =>
      if b.needs t.count && !e.context t.count then
        match b.onFailure with
        | .leave => { t with pc := .store }
        | .fail => { t with pc := .done }
      else
        -- ret is assigned anew by every handshake
        let r := e.handshake t.count
        ⟨if e.clock t.count < maxTime then .loop else .store, t.count + 1, r.1, t.slot,
          t.out ++ r.2⟩
  | .store => { t with pc := .check, slot := some t.count }
  | .check => { t with pc := .done }
  | .done => t

/-- Whether the step sets `err`. -/
def raises (t : Thread) : Bool :=
  match t.pc with
  | .start => b.setup && !e.setup
  | .loop => b.needs t.count && !e.context t.count && b.onFailure = .fail
  | .check => !t.ret
  | .store | .done => false

end Code

/-- `perflib_run_multi_thread_test` up to the order in which the threads run. -/
def threads (b : Body) (maxTime : ℕ) {n : ℕ} (env : Fin n → Env) : Threads (Fin n) Thread :=
  ⟨fun i => next b maxTime (env i), fun i => raises b (env i)⟩

def created (n : ℕ) : Memory (Fin n) Thread := ⟨fun _ => .init, false⟩

/-- All threads have been waited for. -/
def Joined {n : ℕ} (g : Memory (Fin n) Thread) : Prop := ∀ i, (g.own i).pc = .done

def totalCount {n : ℕ} (g : Memory (Fin n) Thread) : ℕ := ∑ i, ((g.own i).slot).getD 0

/-- What `main` prints after the threads. -/
def mainOut {n : ℕ} (terse : Bool) (g : Memory (Fin n) Thread) : Text :=
  if g.flag then terminate (txt "Error during test")
  else
    let total := totalCount g
    let average :=
      if total = 0 then txt "inf" else printRatio 6 (runTime * 10 ^ 6 * n) total
    if terse then terminate average
    else
      terminate (txt "Average time per handshake: " ++ average ++ txt "us") ++
        terminate (txt "Handshakes per second: " ++ printRatio 6 total runTime)

/-! ## One thread -/

section Alone

variable (b : Body) (maxTime : ℕ) (e : Env)

/-- The thread makes at least `n` handshakes. -/
structure Reaches (n : ℕ) : Prop where
  setup : b.setup = true → e.setup = true
  context : ∀ k < n, b.needs k = true → e.context k = true
  clock : ∀ k, k + 1 < n → e.clock k < maxTime

/-- `ret` after `n` handshakes. -/
def lastRet : ℕ → Bool
  | 0 => true
  | n + 1 => (e.handshake n).1

def outputs (n : ℕ) : Text := ((List.range n).map fun k => (e.handshake k).2).flatten

/-- The context for handshake `n` cannot be made. -/
structure ContextFails (n : ℕ) : Prop where
  reaches : Reaches b maxTime e n
  early : ∀ k, k + 1 = n → e.clock k < maxTime
  needs : b.needs n = true
  fails : e.context n = false

/-- The loop ends after `n` handshakes and the count is stored. -/
inductive Stops (n : ℕ) : Prop where
  | timeUp {k : ℕ} (h : Reaches b maxTime e n) (hk : k + 1 = n) (hclock : maxTime ≤ e.clock k)
  | noContext (h : ContextFails b maxTime e n) (hf : b.onFailure = .leave)

/-- How a thread ends, and whether it has set `err`: without its first context, without that for a
handshake, or with its count stored. -/
inductive ThreadEnd : Thread → Bool → Prop where
  | noSetup (hb : b.setup = true) (he : e.setup = false) : ThreadEnd ⟨.done, 0, true, none, []⟩ true
  | noContext {n : ℕ} (h : ContextFails b maxTime e n) (hf : b.onFailure = .fail) :
      ThreadEnd ⟨.done, n, lastRet e n, some 0, outputs e n⟩ true
  | counted {n : ℕ} (h : Stops b maxTime e n) :
      ThreadEnd ⟨.done, n, lastRet e n, some n, outputs e n⟩ (!lastRet e n)

/-- The states a thread can be in, with what it has done to `err`. -/
inductive At : Thread → Bool → Prop where
  | start : At .init false
  | loop {n : ℕ} (h : Reaches b maxTime e n) (hc : ∀ k, k + 1 = n → e.clock k < maxTime) :
      At ⟨.loop, n, lastRet e n, some 0, outputs e n⟩ false
  | store {n : ℕ} (h : Stops b maxTime e n) :
      At ⟨.store, n, lastRet e n, some 0, outputs e n⟩ false
  | check {n : ℕ} (h : Stops b maxTime e n) :
      At ⟨.check, n, lastRet e n, some n, outputs e n⟩ false
  | ended {t : Thread} {r : Bool} (h : ThreadEnd b maxTime e t r) : At t r

variable {b maxTime e}

theorem outputs_succ (n : ℕ) : outputs e (n + 1) = outputs e n ++ (e.handshake n).2 := by
  simp [outputs, List.range_succ]

theorem Reaches.succ {n : ℕ} (h : Reaches b maxTime e n) (hc : ∀ k, k + 1 = n → e.clock k < maxTime)
    (hn : b.needs n = true → e.context n = true) : Reaches b maxTime e (n + 1) := by
  refine ⟨h.setup, fun k hk => ?_, fun k hk => ?_⟩
  · rcases Nat.lt_or_eq_of_le (Nat.le_of_lt_succ hk) with hlt | rfl
    · exact h.context k hlt
    · exact hn
  · rcases Nat.lt_or_eq_of_le (Nat.le_of_lt_succ hk) with hlt | heq
    · exact h.clock k hlt
    · exact hc k heq

theorem ThreadEnd.pc_eq {t : Thread} {r : Bool} (h : ThreadEnd b maxTime e t r) : t.pc = .done := by
  cases h <;> rfl

theorem next_of_done {t : Thread} (h : t.pc = .done) : next b maxTime e t = t := by
  simp [next, h]

theorem raises_of_done {t : Thread} (h : t.pc = .done) : raises b e t = false := by
  simp [raises, h]

theorem At.next {t : Thread} {r : Bool} (h : At b maxTime e t r) :
    At b maxTime e (next b maxTime e t) (r || raises b e t) := by
  cases h with
  | start =>
      by_cases hs : (b.setup && !e.setup) = true
      · have hstep : Perf.next b maxTime e .init = ⟨.done, 0, true, none, []⟩ := by
          simp [Perf.next, Thread.init, hs]
        have hraise : raises b e .init = true := hs
        rw [Bool.and_eq_true, Bool.not_eq_true'] at hs
        rw [hstep, hraise]
        exact .ended (.noSetup hs.1 hs.2)
      · have hstep : Perf.next b maxTime e .init = ⟨.loop, 0, true, some 0, []⟩ := by
          simp [Perf.next, Thread.init, hs]
        have hraise : raises b e .init = false := by simpa [raises, Thread.init] using hs
        rw [hstep, hraise]
        refine .loop ⟨fun hb => ?_, fun k hk => absurd hk (Nat.not_lt_zero k), ?_⟩ ?_
        · by_contra he
          exact hs (by simp [hb, he])
        · exact fun k hk => absurd hk (by omega)
        · exact fun k hk => absurd hk (by omega)
  | @loop n h hc =>
      by_cases hctx : b.needs n = true ∧ e.context n = false
      · have hfail : ContextFails b maxTime e n := ⟨h, hc, hctx.1, hctx.2⟩
        cases hf : b.onFailure with
        | leave => simpa [Perf.next, raises, hctx, hf] using At.store (.noContext hfail hf)
        | fail => simpa [Perf.next, raises, hctx, hf] using At.ended (.noContext hfail hf)
      · have hcond : (b.needs n && !e.context n) = false := by
          rw [Bool.and_eq_false_iff, Bool.not_eq_false']
          by_cases hn : b.needs n = true
          · exact .inr (by simpa using fun he => hctx ⟨hn, he⟩)
          · exact .inl (by simpa using hn)
        have hreach : Reaches b maxTime e (n + 1) := by
          refine h.succ hc fun hn => ?_
          by_contra he
          exact hctx ⟨hn, by simpa using he⟩
        have hraise : raises b e ⟨.loop, n, lastRet e n, some 0, outputs e n⟩ = false := by
          simp [raises, hcond]
        have hstep : Perf.next b maxTime e ⟨.loop, n, lastRet e n, some 0, outputs e n⟩ =
            ⟨if e.clock n < maxTime then .loop else .store, n + 1, lastRet e (n + 1), some 0,
              outputs e (n + 1)⟩ := by
          simp [Perf.next, hcond, outputs_succ, lastRet]
        rw [hstep, hraise]
        by_cases hclock : e.clock n < maxTime
        · rw [if_pos hclock]
          refine .loop hreach fun k hk => ?_
          rwa [Nat.succ.inj hk]
        · rw [if_neg hclock]
          exact .store (.timeUp hreach rfl (Nat.le_of_not_lt hclock))
  | store h => exact .check h
  | check h => exact .ended (.counted h)
  | ended h =>
      rw [next_of_done h.pc_eq, raises_of_done h.pc_eq, Bool.or_false]
      exact .ended h

theorem At.threadEnd {t : Thread} {r : Bool} (h : At b maxTime e t r) (hd : t.pc = .done) :
    ThreadEnd b maxTime e t r := by
  cases h with
  | start => cases hd
  | loop => cases hd
  | store => cases hd
  | check => cases hd
  | ended h => exact h

/-! An end is determined by what the thread meets. -/

/-- The loop is left before handshake `n`. -/
def Leaves (b : Body) (maxTime : ℕ) (e : Env) (n : ℕ) : Prop :=
  (∃ k, k + 1 = n ∧ maxTime ≤ e.clock k) ∨ (b.needs n = true ∧ e.context n = false)

theorem Stops.reaches {n : ℕ} (h : Stops b maxTime e n) : Reaches b maxTime e n := by
  cases h with
  | timeUp h => exact h
  | noContext h => exact h.reaches

theorem Stops.leaves {n : ℕ} (h : Stops b maxTime e n) : Leaves b maxTime e n := by
  cases h with
  | timeUp _ hk hclock => exact .inl ⟨_, hk, hclock⟩
  | noContext h => exact .inr ⟨h.needs, h.fails⟩

theorem ContextFails.leaves {n : ℕ} (h : ContextFails b maxTime e n) : Leaves b maxTime e n :=
  .inr ⟨h.needs, h.fails⟩

theorem Leaves.le {n m : ℕ} (h : Leaves b maxTime e n) (hm : Reaches b maxTime e m) : m ≤ n := by
  by_contra hlt
  rw [Nat.not_le] at hlt
  rcases h with ⟨k, rfl, hclock⟩ | ⟨hn, hf⟩
  · exact absurd (hm.clock k hlt) (Nat.not_lt.mpr hclock)
  · rw [hm.context n hlt hn] at hf
    cases hf

theorem ThreadEnd.unique {t t' : Thread} {r r' : Bool} (h : ThreadEnd b maxTime e t r)
    (h' : ThreadEnd b maxTime e t' r') : t = t' ∧ r = r' := by
  have hsetup : ∀ {n}, Reaches b maxTime e n → b.setup = true → e.setup = false → False := by
    intro n hr hb he
    rw [hr.setup hb] at he
    cases he
  cases h with
  | noSetup hb he =>
      cases h' with
      | noSetup => exact ⟨rfl, rfl⟩
      | noContext h' => exact (hsetup h'.reaches hb he).elim
      | counted h' => exact (hsetup h'.reaches hb he).elim
  | @noContext n h hf =>
      cases h' with
      | noSetup hb he => exact (hsetup h.reaches hb he).elim
      | @noContext m h' _ =>
          obtain rfl := Nat.le_antisymm (h'.leaves.le h.reaches) (h.leaves.le h'.reaches)
          exact ⟨rfl, rfl⟩
      | @counted m h' =>
          obtain rfl := Nat.le_antisymm (h'.leaves.le h.reaches) (h.leaves.le h'.reaches)
          cases h' with
          | timeUp _ hk hclock => exact absurd (h.early _ hk) (Nat.not_lt.mpr hclock)
          | noContext _ hl => cases hf.symm.trans hl
  | @counted n h =>
      cases h' with
      | noSetup hb he => exact (hsetup h.reaches hb he).elim
      | @noContext m h' hf =>
          obtain rfl := Nat.le_antisymm (h'.leaves.le h.reaches) (h.leaves.le h'.reaches)
          cases h with
          | timeUp _ hk hclock => exact absurd (h'.early _ hk) (Nat.not_lt.mpr hclock)
          | noContext _ hl => cases hf.symm.trans hl
      | @counted m h' =>
          obtain rfl := Nat.le_antisymm (h'.leaves.le h.reaches) (h.leaves.le h'.reaches)
          exact ⟨rfl, rfl⟩

theorem at_iterate (b : Body) (maxTime : ℕ) (e : Env) (k : ℕ) :
    ∃ r, At b maxTime e ((Perf.next b maxTime e)^[k] .init) r ∧
      (r = true ↔ ∃ j < k, raises b e ((Perf.next b maxTime e)^[j] .init) = true) := by
  induction k with
  | zero => exact ⟨false, .start, by simp⟩
  | succ k ih =>
      obtain ⟨r, hat, hr⟩ := ih
      refine ⟨_, by rw [Function.iterate_succ_apply']; exact hat.next, ?_⟩
      rw [Bool.or_eq_true, hr]
      constructor
      · rintro (⟨j, hj, h⟩ | h)
        · exact ⟨j, Nat.lt_succ_of_lt hj, h⟩
        · exact ⟨k, Nat.lt_succ_self k, h⟩
      · rintro ⟨j, hj, h⟩
        rcases Nat.lt_or_eq_of_le (Nat.le_of_lt_succ hj) with hlt | rfl
        · exact .inl ⟨j, hlt, h⟩
        · exact .inr h

end Alone

/-! ## All of them -/

section Runs

variable {b : Body} {maxTime n : ℕ} {env : Fin n → Env}

/-- One handshake, which fails if `ok` is false, and the time is up. -/
def single (ok : Bool) : Env := ⟨true, fun _ => true, fun _ => (ok, []), fun _ => 0⟩

/-- How many more steps a thread can take, if reading `k` of its clock is late. -/
def stepsLeft (k : ℕ) (t : Thread) : ℕ :=
  match t.pc with
  | .start => k + 5
  | .loop => k + 4 - t.count
  | .store => 2
  | .check => 1
  | .done => 0

-- In the loop every reading so far was early.
theorem Reaches.le_of_late {e : Env} {m k : ℕ} (h : Reaches b maxTime e m)
    (hc : ∀ k, k + 1 = m → e.clock k < maxTime) (hk : maxTime ≤ e.clock k) : m ≤ k := by
  by_contra hlt
  rw [Nat.not_le] at hlt
  rcases Nat.lt_or_eq_of_le (Nat.succ_le_of_lt hlt) with hlt | heq
  · exact absurd (h.clock k hlt) (Nat.not_lt.mpr hk)
  · exact absurd (hc k heq) (Nat.not_lt.mpr hk)

theorem At.stepsLeft_next {e : Env} {t : Thread} {r : Bool} {k : ℕ} (h : At b maxTime e t r)
    (hk : maxTime ≤ e.clock k) : stepsLeft k (Perf.next b maxTime e t) ≤ stepsLeft k t - 1 := by
  cases h with
  | start =>
      simp only [Perf.next, Thread.init]
      split <;> simp [stepsLeft]
  | @loop m h hc =>
      have hm := h.le_of_late hc hk
      simp only [Perf.next]
      split
      · split <;> simp only [stepsLeft] <;> omega
      · split <;> simp only [stepsLeft] <;> omega
  | store => simp [Perf.next, stepsLeft]
  | check => simp [Perf.next, stepsLeft]
  | ended h =>
      rw [next_of_done h.pc_eq]
      simp [stepsLeft, h.pc_eq]

/-- The threads end under every schedule that lets each of them take a few steps more than it can
make handshakes in the time. -/
theorem joined_of_steps {late : Fin n → ℕ} (hlate : ∀ i, maxTime ≤ (env i).clock (late i))
    {σ : List (Fin n)} (hσ : ∀ i, late i + 5 ≤ σ.count i) :
    Joined ((threads b maxTime env).run (created n) σ) := by
  have hleft : ∀ i k, stepsLeft (late i) ((next b maxTime (env i))^[k] .init) ≤ late i + 5 - k := by
    intro i k
    induction k with
    | zero => exact Nat.le_refl _
    | succ k ih =>
        obtain ⟨r, hat, -⟩ := at_iterate b maxTime (env i) k
        have hstep := hat.stepsLeft_next (hlate i)
        rw [Function.iterate_succ_apply']
        omega
  intro i
  have hzero : stepsLeft (late i) ((next b maxTime (env i))^[σ.count i] .init) = 0 := by
    have hle := hleft i (σ.count i)
    have hcount := hσ i
    omega
  obtain ⟨r, hat, -⟩ := at_iterate b maxTime (env i) (σ.count i)
  rw [Threads.own_run]
  show ((next b maxTime (env i))^[σ.count i] .init).pc = .done
  generalize (next b maxTime (env i))^[σ.count i] .init = t at hzero hat
  cases hat with
  | start => cases hzero
  | loop h hc =>
      have hm := h.le_of_late hc (hlate i)
      simp only [stepsLeft] at hzero
      omega
  | store => cases hzero
  | check => cases hzero
  | ended h => exact h.pc_eq

theorem joined_of_steps_two :
    Joined ((threads (doHandshake true) 0 fun i : Fin 2 => single (i = 0)).run (created 2)
      [0, 1, 0, 0, 1, 1, 0, 1, 0, 1]) := by
  have hlate : ∀ i : Fin 2, 0 ≤ (single (i = 0)).clock 0 := fun _ => Nat.zero_le _
  have hσ : ∀ i : Fin 2, 0 + 5 ≤ List.count i [0, 1, 0, 0, 1, 1, 0, 1, 0, 1] := by decide
  exact joined_of_steps hlate hσ

theorem at_run (b : Body) (maxTime : ℕ) (env : Fin n → Env) (σ : List (Fin n)) :
    ∃ r : Fin n → Bool,
      (∀ i, At b maxTime (env i) (((threads b maxTime env).run (created n) σ).own i) (r i)) ∧
        (((threads b maxTime env).run (created n) σ).flag = true ↔ ∃ i, r i = true) := by
  choose r hat hr using fun i => at_iterate b maxTime (env i) (σ.count i)
  refine ⟨r, fun i => ?_, ?_⟩
  · rw [Threads.own_run]
    exact hat i
  · rw [Threads.flag_run]
    simp only [hr]
    exact or_iff_right Bool.false_ne_true

variable {σ : List (Fin n)} (h : Joined ((threads b maxTime env).run (created n) σ))

include h

theorem threadEnd_of_joined (i : Fin n) :
    ∃ r, ThreadEnd b maxTime (env i) (((threads b maxTime env).run (created n) σ).own i) r := by
  obtain ⟨r, hat, -⟩ := at_run b maxTime env σ
  exact ⟨r i, (hat i).threadEnd (h i)⟩

theorem flag_of_joined :
    ((threads b maxTime env).run (created n) σ).flag = true ↔
      ∃ i t, ThreadEnd b maxTime (env i) t true := by
  obtain ⟨r, hat, hflag⟩ := at_run b maxTime env σ
  rw [hflag]
  refine exists_congr fun i => ?_
  have hend := (hat i).threadEnd (h i)
  constructor
  · intro hr
    rw [hr] at hend
    exact ⟨_, hend⟩
  · rintro ⟨t, ht⟩
    exact (hend.unique ht).2

end Runs

-- Nothing but its own count ends a thread of `do_handshake`.
theorem doHandshake_own {shareCtx : Bool} {maxTime n : ℕ} {env : Fin n → Env} {σ : List (Fin n)}
    (h : Joined ((threads (doHandshake shareCtx) maxTime env).run (created n) σ)) (i : Fin n) :
    ∃ k, Stops (doHandshake shareCtx) maxTime (env i) k ∧
      ((threads (doHandshake shareCtx) maxTime env).run (created n) σ).own i =
        ⟨.done, k, lastRet (env i) k, some k, outputs (env i) k⟩ := by
  obtain ⟨r, hr⟩ := threadEnd_of_joined h i
  generalize ((threads (doHandshake shareCtx) maxTime env).run (created n) σ).own i = t at hr
  cases hr with
  | noSetup hb => cases hb
  | noContext _ hf => cases hf
  | @counted k hk => exact ⟨k, hk, rfl⟩

theorem doHandshake_flag {shareCtx : Bool} {maxTime n : ℕ} {env : Fin n → Env} {σ : List (Fin n)}
    (h : Joined ((threads (doHandshake shareCtx) maxTime env).run (created n) σ))
    {count : Fin n → ℕ} (hstops : ∀ i, Stops (doHandshake shareCtx) maxTime (env i) (count i)) :
    ((threads (doHandshake shareCtx) maxTime env).run (created n) σ).flag = true ↔
      ∃ i, lastRet (env i) (count i) = false := by
  rw [flag_of_joined h]
  refine exists_congr fun i => ?_
  constructor
  · rintro ⟨t, ht⟩
    have hsame := (ThreadEnd.counted (hstops i)).unique ht
    simpa using hsame.2
  · intro hlast
    have hcounted := ThreadEnd.counted (hstops i)
    rw [hlast] at hcounted
    exact ⟨_, hcounted⟩

/-- `do_handshake` under every schedule.  Each slot holds the number of handshakes its thread made,
failed ones included, and `err` is set exactly if some thread's last one failed.  A context that
cannot be made ends its thread and is no error. -/
theorem doHandshake_joined {shareCtx : Bool} {maxTime n : ℕ} {env : Fin n → Env}
    {σ : List (Fin n)}
    (h : Joined ((threads (doHandshake shareCtx) maxTime env).run (created n) σ)) :
    ∃ count : Fin n → ℕ,
      (∀ i, Stops (doHandshake shareCtx) maxTime (env i) (count i)) ∧
      (∀ i, (((threads (doHandshake shareCtx) maxTime env).run (created n) σ).own i).slot =
        some (count i)) ∧
      (((threads (doHandshake shareCtx) maxTime env).run (created n) σ).flag = true ↔
        ∃ i, lastRet (env i) (count i) = false) := by
  choose count hstops hown using doHandshake_own h
  exact ⟨count, hstops, fun i => by rw [hown], doHandshake_flag h hstops⟩

theorem doHandshake_joined_two :
    ∃ count : Fin 2 → ℕ, ∀ i, Stops (doHandshake true) 0 (single (i = 0)) (count i) := by
  have hjoined : Joined ((threads (doHandshake true) 0 fun i : Fin 2 => single (i = 0)).run
      (created 2) [1, 0, 1, 0, 0, 1, 0, 1]) := by
    unfold Joined
    decide
  obtain ⟨count, hstops, -⟩ := doHandshake_joined hjoined
  exact ⟨count, hstops⟩

/-- The other three thread functions: a context that cannot be made is an error, and without an
error every slot holds the number of handshakes made. -/
theorem libCtx_joined {testCase : TestCase} (htc : testCase ≠ .sslCtx) {shareCtx : Bool}
    {maxTime n : ℕ} {env : Fin n → Env} {σ : List (Fin n)}
    (h : Joined ((threads (testCase.body shareCtx) maxTime env).run (created n) σ)) :
    (((threads (testCase.body shareCtx) maxTime env).run (created n) σ).flag = true ↔
      ∃ i, ((testCase.body shareCtx).setup = true ∧ (env i).setup = false) ∨
        (∃ k, ContextFails (testCase.body shareCtx) maxTime (env i) k) ∨
        ∃ k, Stops (testCase.body shareCtx) maxTime (env i) k ∧ lastRet (env i) k = false) ∧
    (((threads (testCase.body shareCtx) maxTime env).run (created n) σ).flag = false →
      ∀ i, ∃ k, Stops (testCase.body shareCtx) maxTime (env i) k ∧
        (((threads (testCase.body shareCtx) maxTime env).run (created n) σ).own i).slot =
          some k) := by
  have hfail : (testCase.body shareCtx).onFailure = .fail := by
    cases testCase <;> first | rfl | exact absurd rfl htc
  have hflag := flag_of_joined h
  refine ⟨?_, fun hnone i => ?_⟩
  · rw [hflag]
    refine exists_congr fun i => ⟨?_, ?_⟩
    · rintro ⟨t, ht⟩
      generalize hr : true = r at ht
      cases ht with
      | noSetup hb he => exact .inl ⟨hb, he⟩
      | noContext h => exact .inr (.inl ⟨_, h⟩)
      | counted h => exact .inr (.inr ⟨_, h, by simpa using hr.symm⟩)
    · rintro (⟨hb, he⟩ | ⟨k, hk⟩ | ⟨k, hk, hlast⟩)
      · exact ⟨_, .noSetup hb he⟩
      · exact ⟨_, .noContext hk hfail⟩
      · have hcounted := ThreadEnd.counted hk
        rw [hlast] at hcounted
        exact ⟨_, hcounted⟩
  · rw [← Bool.not_eq_true, hflag] at hnone
    obtain ⟨r, hr⟩ := threadEnd_of_joined h i
    generalize ((threads (testCase.body shareCtx) maxTime env).run (created n) σ).own i = t at hr
    cases hr with
    | noSetup hb he => exact absurd ⟨i, _, .noSetup hb he⟩ hnone
    | noContext hk hf => exact absurd ⟨i, _, .noContext hk hf⟩ hnone
    | counted hk => exact ⟨_, hk, rfl⟩

/-- A context cannot be made for the second handshake of the second thread. -/
def contextFails (i : Fin 2) : Env := ⟨true, fun k => i = 0 || k = 0, fun _ => (true, []), id⟩

/-- The first thread makes three handshakes and the second one. -/
def unequal (i : Fin 2) : Env :=
  ⟨true, fun _ => true, fun _ => (true, []), fun k => if i = 0 then k else 2⟩

theorem libCtx_joined_two :
    (∀ i, ∃ k, Stops (TestCase.osslLibCtxPool.body false) 2 (unequal i) k ∧
        (((threads (TestCase.osslLibCtxPool.body false) 2 unequal).run (created 2)
          [0, 1, 1, 0, 0, 1, 1, 0, 0, 0]).own i).slot = some k) ∧
      ((threads (TestCase.osslLibCtxPool.body false) 2 contextFails).run (created 2)
        [1, 0, 1, 0, 0, 1, 0, 0, 0]).flag = true := by
  have hcounted : Joined ((threads (TestCase.osslLibCtxPool.body false) 2 unequal).run (created 2)
      [0, 1, 1, 0, 0, 1, 1, 0, 0, 0]) := by
    unfold Joined
    decide
  have hfails : Joined ((threads (TestCase.osslLibCtxPool.body false) 2 contextFails).run
      (created 2) [1, 0, 1, 0, 0, 1, 0, 0, 0]) := by
    unfold Joined
    decide
  constructor
  · exact (libCtx_joined (by decide) hcounted).2 (by decide)
  · refine (libCtx_joined (by decide) hfails).1.mpr ⟨1, .inr (.inl ⟨1, ?_⟩)⟩
    refine ⟨⟨by decide, ?_, ?_⟩, ?_, rfl, rfl⟩
    · intro k hk _
      obtain rfl : k = 0 := by omega
      rfl
    · intro k hk
      omega
    · rintro k hk
      obtain rfl : k = 0 := by omega
      exact Nat.zero_lt_two

/-! ## What `run.sh` takes from it -/

/-- An outcome of the connection: what `perflib_create_ssl_connection` returns and prints. -/
def Possible (o : Bool × Text) : Prop :=
  ∃ (σ : Type) (P : Peers σ) (fuel : ℕ) (s s' : σ),
    createSslConnection P .none fuel s = some (o.1, s', o.2)

theorem Possible.out {o : Bool × Text} (h : Possible o) :
    if o.1 then o.2 = [] else Diagnosed o.2 := by
  obtain ⟨σ, P, fuel, s, s', hrun⟩ := h
  exact createSslConnection_out hrun

section Stdout

variable {e : Env} (hpossible : ∀ k, Possible (e.handshake k))

include hpossible

theorem outputs_eq_nil {n : ℕ} (hok : ∀ k < n, (e.handshake k).1 = true) : outputs e n = [] := by
  rw [outputs, List.flatten_eq_nil_iff]
  intro t ht
  obtain ⟨k, hk, rfl⟩ := List.mem_map.mp ht
  have hout := (hpossible k).out
  rwa [if_pos (hok k (List.mem_range.mp hk))] at hout

theorem diagnosed_outputs {n : ℕ} (hfail : ∃ k < n, (e.handshake k).1 = false) :
    Diagnosed (outputs e n) := by
  induction n with
  | zero =>
      obtain ⟨k, hk, -⟩ := hfail
      exact absurd hk (Nat.not_lt_zero k)
  | succ n ih =>
      rw [outputs_succ]
      by_cases hbefore : ∃ k < n, (e.handshake k).1 = false
      · exact diagnosed_of_prefix (ih hbefore) (List.prefix_append _ _)
      · have hok : ∀ k < n, (e.handshake k).1 = true := by
          intro k hk
          rw [← Bool.not_eq_false]
          exact fun hf => hbefore ⟨k, hk, hf⟩
        obtain ⟨k, hk, hf⟩ := hfail
        have hlast : k = n := by
          by_contra hne
          exact hbefore ⟨k, by omega, hf⟩
        subst hlast
        have hout := (hpossible k).out
        rw [if_neg (by rw [hf]; exact Bool.false_ne_true)] at hout
        rwa [outputs_eq_nil hpossible hok, List.nil_append]

end Stdout

-- The first line of a diagnostic is no number.
theorem numeral_headOne_of_diagnosed {t : Text} (h : Diagnosed t) : numeral (headOne t) = none := by
  cases t with
  | nil => cases h
  | cons c t =>
      have hc : c ∈ ['S', 'N', 'U'] := by simpa [Diagnosed] using h
      have hne : '\n' ∉ [c] := by
        rintro hmem
        rw [List.mem_singleton] at hmem
        subst hmem
        exact absurd hc (by decide)
      obtain ⟨l, ls, hls, hl⟩ := prefix_head_line (List.cons_ne_nil c []) hne
        (⟨t, rfl⟩ : [c] <+: c :: t)
      have hline : '\n' ∉ l := newline_notMem_of_mem_lines (t := c :: t) (by simp [hls])
      obtain ⟨l', rfl⟩ := hl
      rw [List.singleton_append] at hls hline
      have hhead : headOne (c :: t) = c :: l' := by
        simp [headOne, hls, substitute_terminate hline]
      rw [hhead]
      apply numeral_eq_none
      all_goals
        simp only [List.mem_cons, List.not_mem_nil, or_false] at hc
        rcases hc with rfl | rfl | rfl <;> decide

/-- `handshake -t CERTS 1`: the shared contexts, one thread. -/
def terseOut (g : Memory (Fin 1) Thread) : Text := (g.own 0).out ++ mainOut true g

/-- The measurement `run.sh` takes from a run is the average over all handshakes if every one of
them succeeded.  If one has failed it is not a number, even if a later one succeeded and the average
was printed. -/
theorem terseOut_measurement {maxTime : ℕ} {e : Env} {σ : List (Fin 1)}
    (hpossible : ∀ k, Possible (e.handshake k))
    (h : Joined ((threads (doHandshake true) maxTime fun _ => e).run (created 1) σ)) :
    ∃ count, Stops (doHandshake true) maxTime e count ∧
      ((∀ k < count, (e.handshake k).1 = true) →
        terseOut ((threads (doHandshake true) maxTime fun _ => e).run (created 1) σ) =
          handshakeOut (.time (printed 6 (runTime * 10 ^ 6) count))) ∧
      ((∃ k < count, (e.handshake k).1 = false) →
        numeral (headOne
          (terseOut ((threads (doHandshake true) maxTime fun _ => e).run (created 1) σ))) =
            none) := by
  obtain ⟨count, hstops, hown⟩ := doHandshake_own h 0
  have hall : ∀ i : Fin 1, Stops (doHandshake true) maxTime e ((fun _ => count) i) :=
    fun _ => hstops
  have hflag := doHandshake_flag h hall
  refine ⟨count, hstops, fun hok => ?_, fun hfail => ?_⟩
  · have hcount : count ≠ 0 := by
      rintro rfl
      cases hstops with
      | timeUp _ hk => cases hk
      | noContext h => cases h.needs
    have hlast : lastRet e count = true := by
      obtain ⟨k, rfl⟩ := Nat.exists_eq_succ_of_ne_zero hcount
      exact hok k (Nat.lt_succ_self k)
    have herr :
        ((threads (doHandshake true) maxTime fun _ => e).run (created 1) σ).flag = false := by
      rw [← Bool.not_eq_true, hflag]
      rintro ⟨-, hf⟩
      rw [hlast] at hf
      cases hf
    have htotal : totalCount ((threads (doHandshake true) maxTime fun _ => e).run (created 1) σ) =
        count := by
      rw [totalCount, Fin.sum_univ_one, hown]
      rfl
    rw [terseOut, mainOut, herr, htotal, hown]
    simp only [outputs_eq_nil hpossible hok, List.nil_append, Bool.false_eq_true, if_false,
      if_neg hcount, if_true, Nat.mul_one]
    rfl
  · apply numeral_headOne_of_diagnosed
    rw [terseOut, hown]
    exact diagnosed_of_prefix (diagnosed_outputs hpossible hfail) (List.prefix_append _ _)

/-- Peers that agree at once. -/
def agreeing : Peers Unit where
  connect s := (⟨1, .none⟩, s)
  accept s := (⟨1, .none⟩, s)
  read s := (⟨-1, .wantRead⟩, s)
  errors s := ([], s)

/-- The first handshake fails for want of its objects, the second and last one succeeds. -/
def recovering : Env where
  setup := true
  context _ := true
  handshake k :=
    if k = 0 then (false, txt "SSL_connect() failed 0, 1SSL_accept() failed 0, 1") else (true, [])
  clock k := k

theorem possible_recovering (k : ℕ) : Possible (recovering.handshake k) := by
  show Possible (if k = 0 then _ else _)
  split
  · exact ⟨Text, noObjects, 1, [], [], rfl⟩
  · exact ⟨Unit, agreeing, 1, (), (), rfl⟩

theorem terseOut_measurement_recovering :
    numeral (headOne (terseOut ((threads (doHandshake true) 1 fun _ => recovering).run (created 1)
      [0, 0, 0, 0, 0]))) = none := by
  have hjoined : Joined ((threads (doHandshake true) 1 fun _ => recovering).run (created 1)
      [0, 0, 0, 0, 0]) := by
    unfold Joined
    decide
  obtain ⟨count, hstops, -, hfail⟩ := terseOut_measurement possible_recovering hjoined
  refine hfail ⟨0, Nat.pos_of_ne_zero ?_, rfl⟩
  rintro rfl
  cases hstops with
  | timeUp _ hk => cases hk
  | noContext h => cases h.needs

end QudoSSL.Perf
