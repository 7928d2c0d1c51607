import QudoSSL.Perf.Handshake

/-!
# The threads of `handshake.c` on one clock

All threads compare `ossl_time_now()` with the same `max_time`.  Here every step of a schedule comes
with the time at which it is taken, and a thread that reads the clock reads that time.  Such a run
is a run of threads with times of their own, so what holds of those holds on one clock.
-/

namespace QudoSSL.Perf

open Conc

section Code

variable (b : Body) (maxTime : ℕ) {n : ℕ} (env : Fin n → Env)

/-- The threads while the clock shows `now`. -/
def threadsAt (now : ℕ) : Threads (Fin n) Thread :=
  threads b maxTime fun i => { env i with clock := fun _ => now }

/-- A run in which thread `p.1` takes its step at the time `p.2`. -/
def clockRun (g : Memory (Fin n) Thread) (ps : List (Fin n × ℕ)) : Memory (Fin n) Thread :=
  ps.foldl (fun g p => (threadsAt b maxTime env p.2).step g p.1) g

end Code

/-! ## Times of their own -/

section Own

variable {b : Body} {maxTime : ℕ} {e : Env} {t : Thread}

theorem count_le_next (b : Body) (maxTime : ℕ) (e : Env) (t : Thread) :
    t.count ≤ (next b maxTime e t).count := by
  unfold next
  split
  · split <;> exact Nat.le_refl _
  · split
    · split <;> exact Nat.le_refl _
    · exact Nat.le_succ _
  · exact Nat.le_refl _
  · exact Nat.le_refl _
  · exact Nat.le_refl _

-- The clock is read only in a step that counts a handshake.
theorem next_congr {clock clock' : ℕ → ℕ}
    (h : t.count < (next b maxTime { e with clock := clock } t).count →
      clock' t.count = clock t.count) :
    next b maxTime { e with clock := clock' } t = next b maxTime { e with clock := clock } t := by
  unfold next at h ⊢
  cases hpc : t.pc with
  | loop =>
      simp only [hpc] at h ⊢
      split
      · rfl
      · next hctx =>
        rw [if_neg hctx] at h
        simp only [h (Nat.lt_succ_self _)]
  | _ => rfl

theorem monotone_count (b : Body) (maxTime : ℕ) (e : Env) (t : Thread) :
    Monotone fun k => ((next b maxTime e)^[k] t).count := by
  refine monotone_nat_of_le_succ fun k => ?_
  rw [Function.iterate_succ_apply']
  exact count_le_next b maxTime e _

end Own

section Refinement

variable {b : Body} {maxTime n : ℕ} {env : Fin n → Env}

def withClock (env : Fin n → Env) (clock : Fin n → ℕ → ℕ) : Fin n → Env :=
  fun i => { env i with clock := clock i }

-- A time that the threads have not read yet can be chosen anew.
theorem run_update_clock {clock : Fin n → ℕ → ℕ} {g : Memory (Fin n) Thread} {σ : List (Fin n)}
    (i : Fin n) (now : ℕ) :
    (threads b maxTime (withClock env (Function.update clock i
        (Function.update (clock i)
          (((threads b maxTime (withClock env clock)).run g σ).own i).count now)))).run g σ =
      (threads b maxTime (withClock env clock)).run g σ := by
  refine Threads.run_congr fun j k hk => ⟨?_, rfl⟩
  refine next_congr fun hlt => ?_
  by_cases hj : j = i
  · subst hj
    have hcount := monotone_count b maxTime (withClock env clock j) (g.own j) (Nat.succ_le_of_lt hk)
    simp only [Function.iterate_succ_apply'] at hcount
    rw [Function.update_self, Threads.own_run, Function.update_of_ne]
    exact Nat.ne_of_lt (Nat.lt_of_lt_of_le hlt hcount)
  · rw [Function.update_of_ne hj]

/-- A run on one clock is a run of threads that meet the same and read times of their own. -/
theorem clockRun_eq_run (b : Body) (maxTime : ℕ) (env : Fin n → Env) (g : Memory (Fin n) Thread)
    (ps : List (Fin n × ℕ)) :
    ∃ clock, clockRun b maxTime env g ps =
      (threads b maxTime (withClock env clock)).run g (ps.map Prod.fst) := by
  induction ps using List.reverseRecOn with
  | nil => exact ⟨fun i => (env i).clock, rfl⟩
  | append_singleton ps p ih =>
      obtain ⟨clock, hrun⟩ := ih
      refine ⟨Function.update clock p.1 (Function.update (clock p.1)
        (((threads b maxTime (withClock env clock)).run g (ps.map Prod.fst)).own p.1).count p.2),
        ?_⟩
      rw [List.map_append, Threads.run_append, run_update_clock, ← hrun, clockRun,
        List.foldl_append]
      symm
      refine Threads.step_congr (next_congr fun _ => ?_) rfl
      rw [Function.update_self]
      exact Function.update_self ..

end Refinement

/-! ## When the time is up -/

/-- The steps to the end of a thread that reads no early time any more. -/
def Pc.left : Pc → ℕ
  | .start => 4
  | .loop => 3
  | .store => 2
  | .check => 1
  | .done => 0

/-- The handshakes a thread has made when it ends, if it reads no early time any more. -/
def Thread.bound (t : Thread) : ℕ :=
  match t.pc with
  | .start | .loop => t.count + 1
  | .store | .check | .done => t.count

theorem Thread.count_le_bound (t : Thread) : t.count ≤ t.bound := by
  unfold bound
  split <;> omega

theorem Thread.bound_le (t : Thread) : t.bound ≤ t.count + 1 := by
  unfold bound
  split <;> omega

section Late

variable {maxTime n : ℕ}

theorem next_late (b : Body) (e : Env) {now : ℕ} (hnow : maxTime ≤ now) (t : Thread) :
    (next b maxTime { e with clock := fun _ => now } t).pc.left ≤ t.pc.left - 1 ∧
      (next b maxTime { e with clock := fun _ => now } t).bound ≤ t.bound := by
  have hlate : ¬ now < maxTime := Nat.not_lt.mpr hnow
  obtain ⟨pc, count, ret, slot, out⟩ := t
  cases pc with
  | start =>
      simp only [next]
      split <;> simp [Pc.left, Thread.bound]
  | loop =>
      simp only [next, if_neg hlate]
      split
      · split <;> simp [Pc.left, Thread.bound]
      · simp [Pc.left, Thread.bound]
  | store => simp [next, Pc.left, Thread.bound]
  | check => simp [next, Pc.left, Thread.bound]
  | done => simp [next, Pc.left, Thread.bound]

theorem clockRun_late (b : Body) (env : Fin n → Env) (g : Memory (Fin n) Thread)
    {ps : List (Fin n × ℕ)} (hlate : ∀ p ∈ ps, maxTime ≤ p.2) (i : Fin n) :
    ((clockRun b maxTime env g ps).own i).pc.left ≤
        (g.own i).pc.left - (ps.map Prod.fst).count i ∧
      ((clockRun b maxTime env g ps).own i).bound ≤ (g.own i).bound := by
  induction ps generalizing g with
  | nil => exact ⟨Nat.le_refl _, Nat.le_refl _⟩
  | cons p ps ih =>
      have hnow := hlate p List.mem_cons_self
      obtain ⟨hleft, hbound⟩ :=
        ih ((threadsAt b maxTime env p.2).step g p.1) fun q hq =>
          hlate q (List.mem_cons_of_mem _ hq)
      rw [List.map_cons]
      by_cases hi : i = p.1
      · subst hi
        obtain ⟨hstep, hcount⟩ := next_late b (env p.1) hnow (g.own p.1)
        rw [Threads.own_step_self] at hleft hbound
        rw [List.count_cons_self, Nat.add_comm, ← Nat.sub_sub]
        exact ⟨Nat.le_trans hleft (Nat.sub_le_sub_right hstep _), Nat.le_trans hbound hcount⟩
      · rw [Threads.own_step_of_ne _ _ hi] at hleft hbound
        rw [List.count_cons_of_ne (Ne.symm hi)]
        exact ⟨hleft, hbound⟩

end Late

theorem Pc.eq_done_of_left {pc : Pc} (h : pc.left ≤ 0) : pc = .done := by
  cases pc <;> first | rfl | cases h

/-- The threads on one clock that does not go back.  Their run is a run of threads with times of
their own.  Once a step has been taken at `max_time` or later, no thread makes more than one more
handshake, and four more steps of each thread end the test, in whatever order they are taken. -/
theorem clockRun_ends {b : Body} {maxTime n : ℕ} {env : Fin n → Env} {ps qs : List (Fin n × ℕ)}
    (hclock : ((ps ++ qs).map Prod.snd).Pairwise (· ≤ ·)) (hup : ∃ p ∈ ps, maxTime ≤ p.2) :
    (∃ clock, clockRun b maxTime env (created n) (ps ++ qs) =
        (threads b maxTime (withClock env clock)).run (created n) ((ps ++ qs).map Prod.fst)) ∧
      (∀ i, ((clockRun b maxTime env (created n) (ps ++ qs)).own i).count ≤
        ((clockRun b maxTime env (created n) ps).own i).count + 1) ∧
      ((∀ i, 4 ≤ (qs.map Prod.fst).count i) →
        Joined (clockRun b maxTime env (created n) (ps ++ qs))) := by
  have hlate : ∀ q ∈ qs, maxTime ≤ q.2 := by
    obtain ⟨p, hp, hmax⟩ := hup
    intro q hq
    rw [List.map_append, List.pairwise_append] at hclock
    exact Nat.le_trans hmax
      (hclock.2.2 _ (List.mem_map_of_mem hp) _ (List.mem_map_of_mem hq))
  have hsplit : clockRun b maxTime env (created n) (ps ++ qs) =
      clockRun b maxTime env (clockRun b maxTime env (created n) ps) qs := List.foldl_append
  refine ⟨clockRun_eq_run b maxTime env _ _, fun i => ?_, fun hsteps i => ?_⟩
  · rw [hsplit]
    obtain ⟨-, hbound⟩ := clockRun_late b env (clockRun b maxTime env (created n) ps) hlate i
    exact Nat.le_trans (Thread.count_le_bound _) (Nat.le_trans hbound (Thread.bound_le _))
  · rw [hsplit]
    obtain ⟨hleft, -⟩ := clockRun_late b env (clockRun b maxTime env (created n) ps) hlate i
    apply Pc.eq_done_of_left
    have hfour : ∀ pc : Pc, pc.left ≤ 4 := by
      intro pc
      cases pc <;> decide
    have hstart := hfour ((clockRun b maxTime env (created n) ps).own i).pc
    have hcount := hsteps i
    omega

/-- Thread `i` makes two handshakes before `j` starts; then the time is up. -/
def early (i j : Fin 2) : List (Fin 2 × ℕ) := [(i, 0), (i, 0), (i, 0), (j, 1)]

def late (i j : Fin 2) : List (Fin 2 × ℕ) :=
  [(j, 1), (i, 1), (i, 1), (j, 1), (i, 2), (j, 2), (j, 3), (i, 3)]

theorem clockRun_ends_two :
    (∀ i, ((clockRun (doHandshake true) 1 (fun _ => single true) (created 2)
          (early 0 1 ++ late 0 1)).own i).count ≤
        ((clockRun (doHandshake true) 1 (fun _ => single true) (created 2)
          (early 0 1)).own i).count + 1) ∧
      Joined (clockRun (doHandshake true) 1 (fun _ => single true) (created 2)
        (early 0 1 ++ late 0 1)) := by
  have hclock : ((early 0 1 ++ late 0 1).map Prod.snd).Pairwise (· ≤ ·) := by decide
  have hup : ∃ p ∈ early 0 1, 1 ≤ p.2 := ⟨(1, 1), by decide, by decide⟩
  obtain ⟨-, hcount, hjoined⟩ := clockRun_ends hclock hup
  exact ⟨hcount, hjoined (by decide)⟩

-- The counts are no function of the times: here the threads are exchanged.
example :
    ((clockRun (doHandshake true) 1 (fun _ => single true) (created 2)
        (early 0 1 ++ late 0 1)).own 0).slot = some 3 ∧
      ((clockRun (doHandshake true) 1 (fun _ => single true) (created 2)
        (early 1 0 ++ late 1 0)).own 0).slot = some 1 := by
  decide

end QudoSSL.Perf
