import Mathlib.Data.List.Basic
import Mathlib.Logic.Function.Basic

/-!
# Chains of pointers

Elements that are linked by a pointer in each of them, as a list.  A chain ends in a given pointer,
so that chains can be joined.
-/

namespace Cpp

variable {α : Type}

/-- Following `next` through `xs` leads to `last`. -/
def Chain (next : α → Option α) (last : Option α) : List α → Prop
  | [] => True
  | x :: xs => next x = xs.head?.or last ∧ Chain next last xs

namespace Chain

variable {next next' : α → Option α} {last : Option α} {xs ys : List α} {x : α}

theorem append_iff :
    Chain next last (xs ++ ys) ↔ Chain next (ys.head?.or last) xs ∧ Chain next last ys := by
  induction xs with
  | nil => simp [Chain]
  | cons x xs ih =>
      have hhead : ((xs ++ ys).head?).or last = xs.head?.or (ys.head?.or last) := by
        rw [List.head?_append, Option.or_assoc]
      rw [List.cons_append, Chain, Chain, ih, hhead, and_assoc]

theorem congr (h : ∀ x ∈ xs, next' x = next x) (hc : Chain next last xs) :
    Chain next' last xs := by
  induction xs with
  | nil => trivial
  | cons x xs ih =>
      rw [List.forall_mem_cons] at h
      exact ⟨h.1.trans hc.1, ih h.2 hc.2⟩

section Update

variable [DecidableEq α]

theorem update (h : x ∉ xs) (v : Option α) (hc : Chain next last xs) :
    Chain (Function.update next x v) last xs := by
  apply hc.congr
  intro y hy
  have hne : y ≠ x := by
    rintro rfl
    exact h hy
  exact Function.update_of_ne hne v next

-- Only the last element has to be changed for a chain to lead elsewhere.
theorem redirect (h : x ∉ xs) (v : Option α) (hc : Chain next last (xs ++ [x])) :
    Chain (Function.update next x v) v (xs ++ [x]) := by
  rw [append_iff] at hc ⊢
  refine ⟨hc.1.update h v, ?_, trivial⟩
  rw [Function.update_self]
  rfl

end Update

end Chain

variable [DecidableEq α]

/-- `if (p != NULL) p->f = v`. -/
def assign (f : α → Option α) (p v : Option α) : α → Option α :=
  match p with
  | none => f
  | some p => Function.update f p v

theorem assign_of_ne (f : α → Option α) {p : Option α} {x : α} (h : p ≠ some x) (v : Option α) :
    assign f p v x = f x := by
  cases p with
  | none => rfl
  | some p => exact Function.update_of_ne (fun hx => h (congrArg some hx.symm)) v f

theorem assign_update (f : α → Option α) {p : Option α} {x : α} (h : p ≠ some x) (u v : Option α) :
    assign (Function.update f x u) p v = Function.update (assign f p v) x u := by
  cases p with
  | none => rfl
  | some p => exact (Function.update_comm (fun hx => h (congrArg some hx)) v u f).symm

namespace Chain

variable {next : α → Option α} {last : Option α} {xs pre post : List α} {x : α}

theorem assign {p : Option α} (h : ∀ y ∈ xs, some y ≠ p) (v : Option α) (hc : Chain next last xs) :
    Chain (Cpp.assign next p v) last xs := by
  cases p with
  | none => exact hc
  | some x => exact hc.update (fun hx => h x hx rfl) v

theorem assign_last (hnodup : xs.Nodup) (v : Option α) (hc : Chain next last xs) :
    Chain (Cpp.assign next xs.getLast? v) v xs := by
  rcases List.eq_nil_or_concat xs with rfl | ⟨ys, y, rfl⟩
  · trivial
  · rw [List.concat_eq_append] at hnodup hc ⊢
    rw [List.getLast?_concat]
    have hy : y ∉ ys :=
      fun h => (List.nodup_append.mp hnodup).2.2 y h y (List.mem_singleton_self y) rfl
    exact hc.redirect hy v

omit [DecidableEq α] in
theorem next_eq (hc : Chain next none (pre ++ x :: post)) : next x = post.head? := by
  rw [append_iff] at hc
  rw [hc.2.1, Option.or_none]

/-- A new element between two parts of a chain. -/
theorem insert (hnodup : (pre ++ post).Nodup) (hpre : x ∉ pre) (hpost : x ∉ post)
    (hc : Chain next none (pre ++ post)) :
    Chain (Function.update (Cpp.assign next pre.getLast? (some x)) x post.head?) none
      (pre ++ x :: post) := by
  rw [append_iff] at hc ⊢
  obtain ⟨hndpre, -, hdisj⟩ := List.nodup_append.mp hnodup
  have hlast : ∀ y ∈ post, some y ≠ pre.getLast? := by
    intro y hy hlast
    exact hdisj y (List.mem_of_getLast? hlast.symm) y hy rfl
  refine ⟨(hc.1.assign_last hndpre (some x)).update hpre _, ?_, ?_⟩
  · rw [Function.update_self, Option.or_none]
  · exact (hc.2.assign hlast _).update hpost _

/-- An element that is taken out of a chain. -/
theorem remove (hnodup : (pre ++ x :: post).Nodup) (hc : Chain next none (pre ++ x :: post)) :
    Chain (Function.update (Cpp.assign next pre.getLast? post.head?) x none) none
      (pre ++ post) := by
  rw [append_iff] at hc ⊢
  obtain ⟨hndpre, hndpost, hdisj⟩ := List.nodup_append.mp hnodup
  have hpre : x ∉ pre := fun h => hdisj x h x List.mem_cons_self rfl
  have hpost : x ∉ post := (List.nodup_cons.mp hndpost).1
  have hlast : ∀ y ∈ post, some y ≠ pre.getLast? := by
    intro y hy hlast
    exact hdisj y (List.mem_of_getLast? hlast.symm) y (List.mem_cons_of_mem x hy) rfl
  rw [Option.or_none]
  exact ⟨(hc.1.assign_last hndpre post.head?).update hpre none,
    (hc.2.2.assign hlast post.head?).update hpost none⟩

end Chain

end Cpp
