import Mathlib.Logic.Function.Iterate
import Mathlib.Data.List.Induction

/-!
# Threads with memory of their own and a common flag

Each thread reads and writes a part of the memory that no other thread touches; what they share is
one flag, which any of them may raise and none lowers.  A schedule is the list of the threads that
take the steps.  The memory after a schedule depends only on how many steps each thread has taken.
-/

namespace Conc

structure Threads (ι L : Type) where
  next : ι → L → L
  raises : ι → L → Bool

@[ext]
structure Memory (ι L : Type) where
  own : ι → L
  flag : Bool

namespace Threads

variable {ι L : Type} [DecidableEq ι] (T : Threads ι L)

def step (g : Memory ι L) (i : ι) : Memory ι L :=
  ⟨Function.update g.own i (T.next i (g.own i)), g.flag || T.raises i (g.own i)⟩

@[simp] theorem own_step_self (g : Memory ι L) (i : ι) :
    (T.step g i).own i = T.next i (g.own i) := Function.update_self ..

theorem own_step_of_ne (g : Memory ι L) {i j : ι} (h : i ≠ j) : (T.step g j).own i = g.own i :=
  Function.update_of_ne h ..

def run (g : Memory ι L) (schedule : List ι) : Memory ι L := schedule.foldl T.step g

theorem own_run (g : Memory ι L) (schedule : List ι) (i : ι) :
    (T.run g schedule).own i = (T.next i)^[schedule.count i] (g.own i) := by
  induction schedule generalizing g with
  | nil => rfl
  | cons j schedule ih =>
      show (T.run (T.step g j) schedule).own i = _
      rw [ih]
      by_cases h : i = j
      · subst h
        rw [List.count_cons_self, Function.iterate_succ_apply, own_step_self]
      · rw [List.count_cons_of_ne (Ne.symm h), own_step_of_ne T g h]

theorem flag_run (g : Memory ι L) (schedule : List ι) :
    (T.run g schedule).flag = true ↔
      g.flag = true ∨
        ∃ i, ∃ k < schedule.count i, T.raises i ((T.next i)^[k] (g.own i)) = true := by
  induction schedule generalizing g with
  | nil => simp [run]
  | cons j schedule ih =>
      have hflag : (T.step g j).flag = true ↔ g.flag = true ∨ T.raises j (g.own j) = true :=
        Bool.or_eq_true _ _ |>.to_iff
      show (T.run (T.step g j) schedule).flag = true ↔ _
      rw [ih, hflag, or_assoc]
      refine or_congr_right ⟨?_, ?_⟩
      · rintro (h | ⟨i, k, hk, h⟩)
        · exact ⟨j, 0, by simp, h⟩
        · by_cases hij : i = j
          · subst hij
            rw [own_step_self] at h
            exact ⟨i, k + 1, by rw [List.count_cons_self]; omega, h⟩
          · rw [own_step_of_ne T g hij] at h
            exact ⟨i, k, by rwa [List.count_cons_of_ne (Ne.symm hij)], h⟩
      · rintro ⟨i, k, hk, h⟩
        by_cases hij : i = j
        · subst hij
          cases k with
          | zero => exact .inl h
          | succ k =>
              rw [List.count_cons_self] at hk
              exact .inr ⟨i, k, by omega, by rwa [own_step_self]⟩
        · rw [List.count_cons_of_ne (Ne.symm hij)] at hk
          exact .inr ⟨i, k, hk, by rwa [own_step_of_ne T g hij]⟩

variable {T} {T' : Threads ι L}

theorem step_congr {g : Memory ι L} {i : ι} (hnext : T'.next i (g.own i) = T.next i (g.own i))
    (hraises : T'.raises i (g.own i) = T.raises i (g.own i)) : T'.step g i = T.step g i := by
  unfold step
  rw [hnext, hraises]

theorem run_append (g : Memory ι L) (σ τ : List ι) : T.run g (σ ++ τ) = T.run (T.run g σ) τ :=
  List.foldl_append

/-- Threads that make the same steps from the states they come through leave the same memory. -/
theorem run_congr {g : Memory ι L} {schedule : List ι}
    (h : ∀ i, ∀ k < schedule.count i,
      T'.next i ((T.next i)^[k] (g.own i)) = T.next i ((T.next i)^[k] (g.own i)) ∧
        T'.raises i ((T.next i)^[k] (g.own i)) = T.raises i ((T.next i)^[k] (g.own i))) :
    T'.run g schedule = T.run g schedule := by
  induction schedule using List.reverseRecOn with
  | nil => rfl
  | append_singleton σ j ih =>
      have hσ := ih fun i k hk => h i k (by rw [List.count_append]; omega)
      have hj := h j (σ.count j) (by rw [List.count_append, List.count_singleton_self]; omega)
      rw [← own_run] at hj
      rw [run_append, run_append, hσ]
      exact step_congr hj.1 hj.2

end Threads

end Conc
