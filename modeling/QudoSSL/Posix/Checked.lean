import Mathlib.Data.List.Perm.Basic
import Mathlib.Tactic.Common

/-!
# Computations that may fail with a reason
-/

namespace Posix

variable {ε α β : Type}

theorem bind_ok_iff {x : Except ε α} {f : α → Except ε β} {b : β} :
    x >>= f = .ok b ↔ ∃ a, x = .ok a ∧ f a = .ok b := by
  cases x <;> simp [bind, Except.bind]

theorem mapM_ok_of_forall {f : α → Except ε β} {g : α → β} {xs : List α}
    (h : ∀ x ∈ xs, f x = .ok (g x)) : xs.mapM f = .ok (xs.map g) := by
  induction xs with
  | nil => rfl
  | cons x xs ih =>
      rw [List.forall_mem_cons] at h
      rw [List.mapM_cons, bind_ok_iff]
      exact ⟨g x, h.1, bind_ok_iff.mpr ⟨xs.map g, ih h.2, rfl⟩⟩

theorem exists_mapM_ok_iff {f : α → Except ε β} {xs : List α} :
    (∃ ys, xs.mapM f = .ok ys) ↔ ∀ x ∈ xs, ∃ y, f x = .ok y := by
  induction xs with
  | nil => exact iff_of_true ⟨[], rfl⟩ (by simp)
  | cons x xs ih =>
      rw [List.forall_mem_cons, ← ih]
      simp only [List.mapM_cons, bind_ok_iff]
      constructor
      · rintro ⟨_, y, hy, ys, hys, -⟩
        exact ⟨⟨y, hy⟩, ys, hys⟩
      · rintro ⟨⟨y, hy⟩, ys, hys⟩
        exact ⟨y :: ys, y, hy, ys, hys, rfl⟩

-- If there is only one way to fail, it does not matter which element fails first.
theorem mapM_eq_error {f : α → Except ε β} {e : ε} {xs : List α}
    (h : ∀ x ∈ xs, f x = .error e ∨ ∃ y, f x = .ok y) (hmem : ∃ x ∈ xs, f x = .error e) :
    xs.mapM f = .error e := by
  induction xs with
  | nil =>
      obtain ⟨x, hx, -⟩ := hmem
      cases hx
  | cons x xs ih =>
      rw [List.forall_mem_cons] at h
      rw [List.mapM_cons]
      rcases h.1 with hx | ⟨y, hy⟩
      · rw [hx]
        rfl
      · have hrest : ∃ x ∈ xs, f x = .error e := by
          obtain ⟨z, hz, he⟩ := hmem
          rcases List.mem_cons.mp hz with rfl | hz
          · rw [hy] at he
            cases he
          · exact ⟨z, hz, he⟩
        rw [hy, ih h.2 hrest]
        rfl

theorem mem_iff_of_mapM_ok {f : α → Except ε β} {xs : List α} {ys : List β}
    (h : xs.mapM f = .ok ys) (y : β) : y ∈ ys ↔ ∃ x ∈ xs, f x = .ok y := by
  induction xs generalizing ys with
  | nil =>
      cases h
      simp
  | cons x xs ih =>
      simp only [List.mapM_cons, bind_ok_iff] at h
      obtain ⟨z, hz, zs, hzs, heq⟩ := h
      cases heq
      simp [ih hzs, hz, eq_comm]

theorem mapM_ok_iff_forall₂ {f : α → Except ε β} {xs : List α} {ys : List β} :
    xs.mapM f = .ok ys ↔ List.Forall₂ (fun x y => f x = .ok y) xs ys := by
  induction xs generalizing ys with
  | nil => simp [pure, Except.pure, eq_comm]
  | cons x xs ih =>
      simp only [List.mapM_cons, bind_ok_iff, List.forall₂_cons_left_iff, ih]
      constructor
      · rintro ⟨y, hy, zs, hzs, ⟨⟩⟩
        exact ⟨y, zs, hy, hzs, rfl⟩
      · rintro ⟨y, zs, hy, hzs, rfl⟩
        exact ⟨y, hy, zs, hzs, rfl⟩

-- A loop over the same elements in another order gives the same results in another order.
theorem mapM_ok_perm {f : α → Except ε β} {xs xs' : List α} {ys : List β} (h : xs'.Perm xs)
    (hys : xs.mapM f = .ok ys) : ∃ ys', xs'.mapM f = .ok ys' ∧ ys'.Perm ys := by
  obtain ⟨ys', hys', hperm⟩ := List.perm_comp_forall₂ h (mapM_ok_iff_forall₂.mp hys)
  exact ⟨ys', mapM_ok_iff_forall₂.mpr hys', hperm⟩

end Posix
