import QudoSSL.Cpp.Chain
import Mathlib.Data.List.Nodup

/-!
# `perflib/list.h`

Doubly linked lists whose links are fields of the elements, and an element may go from one list to
another.  An element also knows the list it is in, as in a build with assertions, and an operation
that fails an assertion has no result.
-/

namespace QudoSSL.Perf

open Cpp Function

/-! ## Operations -/

/-- The links of all elements and the heads of all lists. -/
structure Links (L α : Type) where
  next : α → Option α
  prev : α → Option α
  list : α → Option L
  alpha : L → Option α
  omega : L → Option α
  numElems : L → ℕ

namespace Links

variable {L α : Type} [DecidableEq L] [DecidableEq α]

/-- Elements and lists that have just been zeroed. -/
def zeroed : Links L α :=
  ⟨fun _ => none, fun _ => none, fun _ => none, fun _ => none, fun _ => none, fun _ => 0⟩

def setNext (s : Links L α) (p v : Option α) : Links L α := { s with next := assign s.next p v }

def setPrev (s : Links L α) (p v : Option α) : Links L α := { s with prev := assign s.prev p v }

def insertHead (s : Links L α) (l : L) (elem : α) : Option (Links L α) :=
  if s.list elem ≠ none then none
  else
    let s := { s with list := update s.list elem (some l) }
    let s := s.setPrev (s.alpha l) (some elem)
    let s := { s with next := update s.next elem (s.alpha l), prev := update s.prev elem none }
    let s := { s with alpha := update s.alpha l (some elem) }
    let s := if s.omega l = none then { s with omega := update s.omega l (some elem) } else s
    some { s with numElems := update s.numElems l (s.numElems l + 1) }

def insertTail (s : Links L α) (l : L) (elem : α) : Option (Links L α) :=
  if s.list elem ≠ none then none
  else
    let s := { s with list := update s.list elem (some l) }
    let s := s.setNext (s.omega l) (some elem)
    let s := { s with prev := update s.prev elem (s.omega l), next := update s.next elem none }
    let s := { s with omega := update s.omega l (some elem) }
    let s := if s.alpha l = none then { s with alpha := update s.alpha l (some elem) } else s
    some { s with numElems := update s.numElems l (s.numElems l + 1) }

/-- That `e` is in the list is not asserted. -/
def insertBefore (s : Links L α) (l : L) (e elem : α) : Option (Links L α) :=
  if s.list elem ≠ none then none
  else
    let s := { s with list := update s.list elem (some l) }
    let s := { s with next := update s.next elem (some e), prev := update s.prev elem (s.prev e) }
    let s := s.setNext (s.prev e) (some elem)
    let s := { s with prev := update s.prev e (some elem) }
    let s := if s.alpha l = some e then { s with alpha := update s.alpha l (some elem) } else s
    some { s with numElems := update s.numElems l (s.numElems l + 1) }

def insertAfter (s : Links L α) (l : L) (e elem : α) : Option (Links L α) :=
  if s.list elem ≠ none then none
  else
    let s := { s with list := update s.list elem (some l) }
    let s := { s with prev := update s.prev elem (some e), next := update s.next elem (s.next e) }
    let s := s.setPrev (s.next e) (some elem)
    let s := { s with next := update s.next e (some elem) }
    let s := if s.omega l = some e then { s with omega := update s.omega l (some elem) } else s
    some { s with numElems := update s.numElems l (s.numElems l + 1) }

def remove (s : Links L α) (l : L) (elem : α) : Option (Links L α) :=
  if s.list elem ≠ some l then none
  else
    let s := { s with list := update s.list elem none }
    let s := if s.alpha l = some elem then { s with alpha := update s.alpha l (s.next elem) } else s
    let s := if s.omega l = some elem then { s with omega := update s.omega l (s.prev elem) } else s
    let s := s.setNext (s.prev elem) (s.next elem)
    let s := s.setPrev (s.next elem) (s.prev elem)
    let s := { s with numElems := update s.numElems l (s.numElems l - 1) }
    some { s with next := update s.next elem none, prev := update s.prev elem none }

/-! ## The lists that the links stand for -/

structure Represents (s : Links L α) (σ : L → List α) : Prop where
  next : ∀ l, Chain s.next none (σ l)
  prev : ∀ l, Chain s.prev none (σ l).reverse
  alpha : ∀ l, s.alpha l = (σ l).head?
  omega : ∀ l, s.omega l = (σ l).getLast?
  numElems : ∀ l, s.numElems l = (σ l).length
  nodup : ∀ l, (σ l).Nodup
  list : ∀ x l, s.list x = some l ↔ x ∈ σ l

omit [DecidableEq L] [DecidableEq α] in
theorem represents_zeroed : (zeroed : Links L α).Represents fun _ => [] := by
  constructor <;> simp [zeroed, Chain]

section Represents

variable {s s' : Links L α} {σ : L → List α} (h : s.Represents σ) (l : L) {xs ys : List α}

include h

/-- One list becomes `ys`, and what the other lists are made of is left alone. -/
theorem Represents.replace (hnodup : ys.Nodup) (hnext : Chain s'.next none ys)
    (hprev : Chain s'.prev none ys.reverse) (halpha : s'.alpha = update s.alpha l ys.head?)
    (homega : s'.omega = update s.omega l ys.getLast?)
    (hnum : s'.numElems = update s.numElems l ys.length)
    (hnew : ∀ x ∈ ys, x ∈ σ l ∨ s.list x = none)
    (hlist : ∀ x, s'.list x = if x ∈ ys then some l else if x ∈ σ l then none else s.list x)
    (hframe : ∀ x, x ∉ σ l → x ∉ ys → s'.next x = s.next x ∧ s'.prev x = s.prev x) :
    s'.Represents (update σ l ys) := by
  -- an element of another list is neither in this one nor new
  have hother : ∀ l' ≠ l, ∀ x ∈ σ l', x ∉ σ l ∧ x ∉ ys := by
    intro l' hl x hx
    have howner := (h.list x l').mpr hx
    have hnot : x ∉ σ l := by
      intro hxl
      rw [(h.list x l).mpr hxl] at howner
      exact hl (Option.some.inj howner).symm
    refine ⟨hnot, fun hy => ?_⟩
    rcases hnew x hy with hxl | hnone
    · exact hnot hxl
    · rw [hnone] at howner
      cases howner
  constructor
  · intro l'
    by_cases hl : l' = l
    · rw [hl, update_self]
      exact hnext
    · rw [update_of_ne hl]
      apply (h.next l').congr
      intro x hx
      exact (hframe x (hother l' hl x hx).1 (hother l' hl x hx).2).1
  · intro l'
    by_cases hl : l' = l
    · rw [hl, update_self]
      exact hprev
    · rw [update_of_ne hl]
      apply (h.prev l').congr
      intro x hx
      have hx := hother l' hl x (List.mem_reverse.mp hx)
      exact (hframe x hx.1 hx.2).2
  · intro l'
    by_cases hl : l' = l
    · rw [halpha, hl, update_self, update_self]
    · rw [halpha, update_of_ne hl, update_of_ne hl, h.alpha]
  · intro l'
    by_cases hl : l' = l
    · rw [homega, hl, update_self, update_self]
    · rw [homega, update_of_ne hl, update_of_ne hl, h.omega]
  · intro l'
    by_cases hl : l' = l
    · rw [hnum, hl, update_self, update_self]
    · rw [hnum, update_of_ne hl, update_of_ne hl, h.numElems]
  · intro l'
    by_cases hl : l' = l
    · rw [hl, update_self]
      exact hnodup
    · rw [update_of_ne hl]
      exact h.nodup l'
  · intro x l'
    by_cases hl : l' = l
    · rw [hl, update_self, hlist]
      by_cases hy : x ∈ ys
      · simp [hy]
      · rw [if_neg hy]
        by_cases hx : x ∈ σ l
        · simp [hx, hy]
        · rw [if_neg hx, h.list]
          exact iff_of_false hx hy
    · rw [update_of_ne hl, hlist]
      by_cases hy : x ∈ ys
      · rw [if_pos hy]
        exact iff_of_false (fun he => hl (Option.some.inj he).symm)
          fun hx => (hother l' hl x hx).2 hy
      · rw [if_neg hy]
        by_cases hx : x ∈ σ l
        · rw [if_pos hx]
          exact iff_of_false (by simp) fun hx' => (hother l' hl x hx').1 hx
        · rw [if_neg hx, h.list]

end Represents

/-! ## An element and its neighbours -/

section Neighbours

variable {s : Links L α} {σ : L → List α} (h : s.Represents σ) {l : L} {e : α}
  {pre post : List α} (hσ : σ l = pre ++ e :: post)

include h hσ

omit [DecidableEq L] [DecidableEq α]

theorem Represents.next_eq : s.next e = post.head? := by
  have hchain := h.next l
  rw [hσ] at hchain
  exact hchain.next_eq

theorem Represents.prev_eq : s.prev e = pre.getLast? := by
  have hchain := h.prev l
  have hrev : (pre ++ e :: post).reverse = post.reverse ++ e :: pre.reverse := by simp
  rw [hσ, hrev] at hchain
  rw [hchain.next_eq, List.head?_reverse]

theorem Represents.notMem_sides : e ∉ pre ∧ e ∉ post := by
  have hnodup := h.nodup l
  rw [hσ, List.nodup_middle, List.nodup_cons, List.mem_append, not_or] at hnodup
  exact hnodup.1

theorem Represents.alpha_eq_iff : s.alpha l = some e ↔ pre.getLast? = none := by
  rw [h.alpha, hσ, List.getLast?_eq_none_iff]
  cases pre with
  | nil => simp
  | cons y pre =>
      have hne : y ≠ e := by
        rintro rfl
        exact (h.notMem_sides hσ).1 List.mem_cons_self
      simp [hne]

theorem Represents.omega_eq_iff : s.omega l = some e ↔ post.head? = none := by
  rw [h.omega, hσ, List.head?_eq_none_iff]
  rcases List.eq_nil_or_concat post with rfl | ⟨ys, y, rfl⟩
  · simp
  · have hne : y ≠ e := by
      rintro rfl
      exact (h.notMem_sides hσ).2 (by simp)
    rw [List.concat_eq_append, ← List.cons_append, ← List.append_assoc, List.getLast?_concat]
    simp [hne]

end Neighbours

/-! ## Insertion -/

/-- The links with `x` between `p` and `n`. -/
def linked (s : Links L α) (l : L) (x : α) (p n : Option α) : Links L α where
  next := update (assign s.next p (some x)) x n
  prev := update (assign s.prev n (some x)) x p
  list := update s.list x (some l)
  alpha := if p = none then update s.alpha l (some x) else s.alpha
  omega := if n = none then update s.omega l (some x) else s.omega
  numElems := update s.numElems l (s.numElems l + 1)

section Insert

variable {s : Links L α} {σ : L → List α} (h : s.Represents σ) {l : L} {x : α}
  {pre post : List α} (hx : s.list x = none)

include h hx

omit [DecidableEq L] [DecidableEq α] in
theorem Represents.notMem (l' : L) : x ∉ σ l' := by
  rw [← h.list, hx]
  exact nofun

theorem Represents.linked (hσ : σ l = pre ++ post) :
    (s.linked l x pre.getLast? post.head?).Represents (update σ l (pre ++ x :: post)) := by
  have hnot : x ∉ pre ++ post := by
    rw [← hσ]
    exact h.notMem hx l
  rw [List.mem_append, not_or] at hnot
  have hnodup : (pre ++ post).Nodup := by
    rw [← hσ]
    exact h.nodup l
  have hnext := h.next l
  have hprev := h.prev l
  rw [hσ] at hnext hprev
  apply h.replace l
  · rw [List.nodup_middle, List.nodup_cons, List.mem_append, not_or]
    exact ⟨hnot, hnodup⟩
  · exact hnext.insert hnodup hnot.1 hnot.2
  · -- the same seen from the other end
    rw [List.reverse_append] at hprev
    have hnodup' : (post.reverse ++ pre.reverse).Nodup := by
      rw [← List.reverse_append]
      exact List.nodup_reverse.mpr hnodup
    have hins := hprev.insert hnodup' (x := x) (by simpa using hnot.2) (by simpa using hnot.1)
    rw [List.getLast?_reverse, List.head?_reverse] at hins
    rw [List.reverse_append, List.reverse_cons, List.append_assoc]
    exact hins
  · show (if pre.getLast? = none then update s.alpha l (some x) else s.alpha) = _
    split
    · rename_i hpre
      rw [List.getLast?_eq_none_iff.mp hpre]
      rfl
    · rename_i hpre
      rw [List.getLast?_eq_none_iff] at hpre
      have hhead : (pre ++ x :: post).head? = s.alpha l := by
        rw [h.alpha, hσ, List.head?_append_of_ne_nil _ hpre, List.head?_append_of_ne_nil _ hpre]
      rw [hhead, update_eq_self]
  · show (if post.head? = none then update s.omega l (some x) else s.omega) = _
    split
    · rename_i hpost
      rw [List.head?_eq_none_iff.mp hpost, List.getLast?_concat]
    · rename_i hpost
      rw [List.head?_eq_none_iff] at hpost
      have hlast : (pre ++ x :: post).getLast? = s.omega l := by
        rw [h.omega, hσ]
        obtain ⟨y, ys, rfl⟩ := List.exists_cons_of_ne_nil hpost
        simp
      rw [hlast, update_eq_self]
  · show update s.numElems l (s.numElems l + 1) = _
    rw [h.numElems, hσ]
    simp [Nat.add_assoc]
  · intro y hy
    rw [List.mem_append, List.mem_cons] at hy
    rw [hσ, List.mem_append]
    rcases hy with hy | rfl | hy
    · exact .inl (.inl hy)
    · exact .inr hx
    · exact .inl (.inr hy)
  · intro y
    show update s.list x (some l) y = _
    by_cases hyx : y = x
    · rw [hyx, update_self, if_pos (by simp)]
    · rw [update_of_ne hyx]
      have hmem : y ∈ pre ++ x :: post ↔ y ∈ σ l := by
        rw [hσ, List.mem_append, List.mem_append, List.mem_cons, or_iff_right hyx]
      by_cases hy : y ∈ σ l
      · rw [if_pos (hmem.mpr hy), (h.list y l).mpr hy]
      · rw [if_neg (mt hmem.mp hy), if_neg hy]
  · intro y hy hnew
    have hyx : y ≠ x := by
      rintro rfl
      exact hnew (by simp)
    rw [hσ, List.mem_append, not_or] at hy
    have hp : pre.getLast? ≠ some y := fun hp => hy.1 (List.mem_of_getLast? hp)
    have hn : post.head? ≠ some y := fun hn => hy.2 (List.mem_of_head? hn)
    constructor
    · show update (assign s.next pre.getLast? (some x)) x post.head? y = _
      rw [update_of_ne hyx, assign_of_ne _ hp]
    · show update (assign s.prev post.head? (some x)) x pre.getLast? y = _
      rw [update_of_ne hyx, assign_of_ne _ hn]

-- The four ways to insert are one, with the neighbours taken from different places.
theorem Represents.insertHead_eq : s.insertHead l x = some (s.linked l x none (σ l).head?) := by
  have halpha := h.alpha l
  have homega : s.omega l = none ↔ (σ l).head? = none := by
    rw [h.omega, List.getLast?_eq_none_iff, List.head?_eq_none_iff]
  unfold insertHead
  rw [if_neg (not_not.mpr hx)]
  simp only [setPrev, halpha, homega, Links.linked, assign, if_true]
  split <;> rfl

theorem Represents.insertTail_eq : s.insertTail l x = some (s.linked l x (σ l).getLast? none) := by
  have homega := h.omega l
  have halpha : s.alpha l = none ↔ (σ l).getLast? = none := by
    rw [h.alpha, List.getLast?_eq_none_iff, List.head?_eq_none_iff]
  unfold insertTail
  rw [if_neg (not_not.mpr hx)]
  simp only [setNext, homega, halpha, Links.linked, assign, if_true]
  split <;> rfl

variable {e : α}

theorem Represents.insertBefore_eq (hσ : σ l = pre ++ e :: post) :
    s.insertBefore l e x = some (s.linked l x pre.getLast? (some e)) := by
  have hnot := h.notMem hx l
  rw [hσ] at hnot
  have hex : e ≠ x := by
    rintro rfl
    exact hnot (by simp)
  have hpx : pre.getLast? ≠ some x :=
    fun hp => hnot (List.mem_append_left _ (List.mem_of_getLast? hp))
  have hcomm := update_comm hex (some x) pre.getLast? s.prev
  have halpha := h.alpha_eq_iff hσ
  unfold insertBefore
  rw [if_neg (not_not.mpr hx)]
  simp only [setNext, update_of_ne hex, h.prev_eq hσ, assign_update _ hpx, ← hcomm]
  by_cases hp : pre.getLast? = none
  · simp [Links.linked, assign, halpha, hp]
  · simp [Links.linked, assign, halpha, hp]

theorem Represents.insertAfter_eq (hσ : σ l = pre ++ e :: post) :
    s.insertAfter l e x = some (s.linked l x (some e) post.head?) := by
  have hnot := h.notMem hx l
  rw [hσ] at hnot
  have hex : e ≠ x := by
    rintro rfl
    exact hnot (by simp)
  have hnx : post.head? ≠ some x :=
    fun hn => hnot (List.mem_append_right _ (List.mem_cons_of_mem e (List.mem_of_head? hn)))
  have hcomm := update_comm hex (some x) post.head? s.next
  have homega := h.omega_eq_iff hσ
  unfold insertAfter
  rw [if_neg (not_not.mpr hx)]
  simp only [setPrev, update_of_ne hex, h.next_eq hσ, assign_update _ hnx, ← hcomm]
  by_cases hn : post.head? = none
  · simp [Links.linked, assign, homega, hn]
  · simp [Links.linked, assign, homega, hn]

end Insert

/-! ## Removal -/

/-- The links without `x`, which was between `p` and `n`. -/
def unlinked (s : Links L α) (l : L) (x : α) (p n : Option α) : Links L α where
  next := update (assign s.next p n) x none
  prev := update (assign s.prev n p) x none
  list := update s.list x none
  alpha := if p = none then update s.alpha l n else s.alpha
  omega := if n = none then update s.omega l p else s.omega
  numElems := update s.numElems l (s.numElems l - 1)

section Remove

variable {s : Links L α} {σ : L → List α} (h : s.Represents σ) {l : L} {x : α}
  {pre post : List α} (hσ : σ l = pre ++ x :: post)

include h hσ

theorem Represents.remove_eq :
    s.remove l x = some (s.unlinked l x pre.getLast? post.head?) := by
  have hmem : s.list x = some l := by
    rw [h.list, hσ]
    simp
  have hsides := h.notMem_sides hσ
  have hp : pre.getLast? ≠ some x := fun hp => hsides.1 (List.mem_of_getLast? hp)
  have hn : post.head? ≠ some x := fun hn => hsides.2 (List.mem_of_head? hn)
  have halpha := h.alpha_eq_iff hσ
  have homega := h.omega_eq_iff hσ
  have hnext := h.next_eq hσ
  have hprev := h.prev_eq hσ
  unfold remove
  rw [if_neg (not_not.mpr hmem)]
  by_cases hpre : pre.getLast? = none
  · by_cases hpost : post.head? = none
    · simp [setNext, setPrev, unlinked, halpha, homega, hnext, hprev, hpre, hpost, assign]
    · simp [setNext, setPrev, unlinked, halpha, homega, hnext, hprev, hpre, hpost, assign]
  · by_cases hpost : post.head? = none
    · simp [setNext, setPrev, unlinked, halpha, homega, hnext, hprev, hpre, hpost,
        assign_of_ne _ hp]
    · simp [setNext, setPrev, unlinked, halpha, homega, hnext, hprev, hpre, hpost,
        assign_of_ne _ hp]

theorem Represents.unlinked :
    (s.unlinked l x pre.getLast? post.head?).Represents (update σ l (pre ++ post)) := by
  have hnodup := h.nodup l
  have hnext := h.next l
  have hprev := h.prev l
  have hsides := h.notMem_sides hσ
  have hrev : (pre ++ x :: post).reverse = post.reverse ++ x :: pre.reverse := by simp
  rw [hσ] at hnodup hnext hprev
  apply h.replace l
  · rw [List.nodup_middle, List.nodup_cons] at hnodup
    exact hnodup.2
  · exact hnext.remove hnodup
  · have hnodup' := List.nodup_reverse.mpr hnodup
    rw [hrev] at hprev hnodup'
    have hrem := hprev.remove hnodup'
    rw [List.getLast?_reverse, List.head?_reverse] at hrem
    rw [List.reverse_append]
    exact hrem
  · show (if pre.getLast? = none then update s.alpha l post.head? else s.alpha) = _
    split
    · rename_i hpre
      rw [List.getLast?_eq_none_iff.mp hpre, List.nil_append]
    · rename_i hpre
      rw [List.getLast?_eq_none_iff] at hpre
      have hhead : (pre ++ post).head? = s.alpha l := by
        rw [h.alpha, hσ, List.head?_append_of_ne_nil _ hpre, List.head?_append_of_ne_nil _ hpre]
      rw [hhead, update_eq_self]
  · show (if post.head? = none then update s.omega l pre.getLast? else s.omega) = _
    split
    · rename_i hpost
      rw [List.head?_eq_none_iff.mp hpost, List.append_nil]
    · rename_i hpost
      rw [List.head?_eq_none_iff] at hpost
      have hlast : (pre ++ post).getLast? = s.omega l := by
        rw [h.omega, hσ]
        obtain ⟨y, ys, rfl⟩ := List.exists_cons_of_ne_nil hpost
        simp
      rw [hlast, update_eq_self]
  · show update s.numElems l (s.numElems l - 1) = _
    rw [h.numElems, hσ]
    simp
  · intro y hy
    left
    rw [hσ]
    rw [List.mem_append] at hy
    simp only [List.mem_append, List.mem_cons]
    exact hy.imp id .inr
  · intro y
    show update s.list x none y = _
    by_cases hyx : y = x
    · have hnot : x ∉ pre ++ post := by
        rw [List.mem_append, not_or]
        exact hsides
      have hmem : x ∈ σ l := by
        rw [hσ]
        simp
      rw [hyx, update_self, if_neg hnot, if_pos hmem]
    · rw [update_of_ne hyx]
      have hmem : y ∈ pre ++ post ↔ y ∈ σ l := by
        rw [hσ, List.mem_append, List.mem_append, List.mem_cons, or_iff_right hyx]
      by_cases hy : y ∈ σ l
      · rw [if_pos (hmem.mpr hy), (h.list y l).mpr hy]
      · rw [if_neg (mt hmem.mp hy), if_neg hy]
  · intro y hy _
    rw [hσ, List.mem_append, List.mem_cons, not_or, not_or] at hy
    have hp : pre.getLast? ≠ some y := fun hp => hy.1 (List.mem_of_getLast? hp)
    have hn : post.head? ≠ some y := fun hn => hy.2.2 (List.mem_of_head? hn)
    constructor
    · show update (assign s.next pre.getLast? post.head?) x none y = _
      rw [update_of_ne hy.2.1, assign_of_ne _ hp]
    · show update (assign s.prev post.head? pre.getLast?) x none y = _
      rw [update_of_ne hy.2.1, assign_of_ne _ hn]

end Remove

/-! ## Runs -/

inductive ListOp (L α : Type) where
  | insertHead (l : L) (elem : α)
  | insertTail (l : L) (elem : α)
  | insertBefore (l : L) (e elem : α)
  | insertAfter (l : L) (e elem : α)
  | remove (l : L) (elem : α)

def step (s : Links L α) : ListOp L α → Option (Links L α)
  | .insertHead l elem => s.insertHead l elem
  | .insertTail l elem => s.insertTail l elem
  | .insertBefore l e elem => s.insertBefore l e elem
  | .insertAfter l e elem => s.insertAfter l e elem
  | .remove l elem => s.remove l elem

def run (s : Links L α) (ops : List (ListOp L α)) : Option (Links L α) := ops.foldlM step s

/-- What the operations are for: lists that have no element in common. -/
inductive Does : (L → List α) → ListOp L α → (L → List α) → Prop where
  | insertHead {σ l x} (hx : ∀ l', x ∉ σ l') : Does σ (.insertHead l x) (update σ l (x :: σ l))
  | insertTail {σ l x} (hx : ∀ l', x ∉ σ l') : Does σ (.insertTail l x) (update σ l (σ l ++ [x]))
  | insertBefore {σ l e x pre post} (hx : ∀ l', x ∉ σ l') (hσ : σ l = pre ++ e :: post) :
      Does σ (.insertBefore l e x) (update σ l (pre ++ x :: e :: post))
  | insertAfter {σ l e x pre post} (hx : ∀ l', x ∉ σ l') (hσ : σ l = pre ++ e :: post) :
      Does σ (.insertAfter l e x) (update σ l (pre ++ e :: x :: post))
  | remove {σ l x pre post} (hσ : σ l = pre ++ x :: post) :
      Does σ (.remove l x) (update σ l (pre ++ post))

inductive DoesAll : (L → List α) → List (ListOp L α) → (L → List α) → Prop where
  | nil {σ} : DoesAll σ [] σ
  | cons {σ τ υ op ops} (h : Does σ op τ) (hs : DoesAll τ ops υ) : DoesAll σ (op :: ops) υ

omit [DecidableEq L] [DecidableEq α] in
theorem Represents.list_eq_none {s : Links L α} {σ : L → List α} (h : s.Represents σ) {x : α}
    (hx : ∀ l, x ∉ σ l) : s.list x = none := by
  cases hl : s.list x with
  | none => rfl
  | some l => exact absurd ((h.list x l).mp hl) (hx l)

theorem step_of_does {s : Links L α} {σ τ : L → List α} {op : ListOp L α} (h : s.Represents σ)
    (hdo : Does σ op τ) : ∃ s', s.step op = some s' ∧ s'.Represents τ := by
  cases hdo with
  | @insertHead l x hx =>
      have hnone := h.list_eq_none hx
      exact ⟨_, h.insertHead_eq hnone, h.linked hnone (List.nil_append _).symm⟩
  | @insertTail l x hx =>
      have hnone := h.list_eq_none hx
      exact ⟨_, h.insertTail_eq hnone, h.linked hnone (List.append_nil _).symm⟩
  | @insertBefore l e x pre post hx hσ =>
      have hnone := h.list_eq_none hx
      exact ⟨_, h.insertBefore_eq hnone hσ, h.linked hnone hσ⟩
  | @insertAfter l e x pre post hx hσ =>
      have hnone := h.list_eq_none hx
      have hσ' : σ l = (pre ++ [e]) ++ post := by rw [hσ, List.append_assoc]; rfl
      have hlinked := h.linked hnone hσ'
      rw [List.getLast?_concat, List.append_assoc] at hlinked
      exact ⟨_, h.insertAfter_eq hnone hσ, hlinked⟩
  | @remove l x pre post hσ => exact ⟨_, h.remove_eq hσ, h.unlinked hσ⟩

/-- The neighbour that is named is in the list; this is not asserted. -/
def Anchored (σ : L → List α) : ListOp L α → Prop
  | .insertBefore l e _ | .insertAfter l e _ => e ∈ σ l
  | _ => True

-- What the assertions let pass can be done.
theorem exists_does {s s' : Links L α} {σ : L → List α} {op : ListOp L α} (h : s.Represents σ)
    (hanchored : Anchored σ op) (hstep : s.step op = some s') : ∃ τ, Does σ op τ := by
  have hfresh : ∀ {x : α} {r : Option (Links L α)},
      (if s.list x ≠ none then none else r) = some s' → ∀ l, x ∉ σ l := by
    intro x r hr
    rw [Option.ite_none_left_eq_some, not_not] at hr
    exact h.notMem hr.1
  cases op with
  | insertHead l x => exact ⟨_, .insertHead (hfresh hstep)⟩
  | insertTail l x => exact ⟨_, .insertTail (hfresh hstep)⟩
  | insertBefore l e x =>
      obtain ⟨pre, post, hσ⟩ := List.append_of_mem hanchored
      exact ⟨_, .insertBefore (hfresh hstep) hσ⟩
  | insertAfter l e x =>
      obtain ⟨pre, post, hσ⟩ := List.append_of_mem hanchored
      exact ⟨_, .insertAfter (hfresh hstep) hσ⟩
  | remove l x =>
      have hlist : s.list x = some l := by
        have hstep' : (if s.list x ≠ some l then none else _) = some s' := hstep
        rw [Option.ite_none_left_eq_some, not_not] at hstep'
        exact hstep'.1
      obtain ⟨pre, post, hσ⟩ := List.append_of_mem ((h.list x l).mp hlist)
      exact ⟨_, .remove hσ⟩

theorem run_of_doesAll {ops : List (ListOp L α)} {s : Links L α} {σ τ : L → List α}
    (h : s.Represents σ) (hdo : DoesAll σ ops τ) :
    ∃ s', run s ops = some s' ∧ s'.Represents τ := by
  induction hdo generalizing s with
  | nil => exact ⟨s, rfl, h⟩
  | cons hop _ ih =>
      obtain ⟨s', hstep, hrep⟩ := step_of_does h hop
      obtain ⟨s'', hrun, hrep'⟩ := ih hrep
      refine ⟨s'', ?_, hrep'⟩
      rw [run, List.foldlM_cons, hstep]
      exact hrun

/-- The links refine the lists.  Whatever is done with the lists the operations on the links do too,
and leave links that stand for the lists; and among the operations on elements of the lists the
assertions reject exactly those that cannot be done. -/
theorem run_represents {ops : List (ListOp L α)} {σ : L → List α}
    (h : DoesAll (fun _ => []) ops σ) :
    ∃ s, run zeroed ops = some s ∧ s.Represents σ ∧
      ∀ op, Anchored σ op → ((∃ s', s.step op = some s') ↔ ∃ τ, Does σ op τ) := by
  obtain ⟨s, hrun, hrep⟩ := run_of_doesAll represents_zeroed h
  refine ⟨s, hrun, hrep, fun op hanchored => ⟨?_, ?_⟩⟩
  · rintro ⟨s', hstep⟩
    exact exists_does hrep hanchored hstep
  · rintro ⟨τ, hdo⟩
    obtain ⟨s', hstep, -⟩ := step_of_does hrep hdo
    exact ⟨s', hstep⟩

theorem run_represents_moved :
    ∃ s : Links Bool ℕ, run zeroed [.insertTail true 7, .remove true 7, .insertHead false 7] =
      some s ∧ s.list 7 = some false := by
  have hdo : DoesAll (fun _ : Bool => ([] : List ℕ))
      [.insertTail true 7, .remove true 7, .insertHead false 7] _ :=
    .cons (.insertTail (by simp)) (.cons (@Does.remove _ _ _ _ _ _ [] [] rfl)
      (.cons (.insertHead (by decide)) .nil))
  obtain ⟨s, hrun, hrep, -⟩ := run_represents hdo
  exact ⟨s, hrun, (hrep.list 7 false).mpr (by decide)⟩

/-! ## Loops -/

def head (s : Links L α) (l : L) : Option (Option α) :=
  if ∀ x ∈ s.alpha l, s.list x = some l then some (s.alpha l) else none

def tail (s : Links L α) (l : L) : Option (Option α) :=
  if ∀ x ∈ s.omega l, s.list x = some l then some (s.omega l) else none

/-- `ossl_list_name_next`, which asserts that the link leads back. -/
def nextElem (s : Links L α) (elem : α) : Option (Option α) :=
  if ∀ y ∈ s.next elem, s.prev y = some elem then some (s.next elem) else none

def prevElem (s : Links L α) (elem : α) : Option (Option α) :=
  if ∀ y ∈ s.prev elem, s.next y = some elem then some (s.prev elem) else none

/-- The elements that a loop visits. -/
def visit (follow : α → Option (Option α)) : ℕ → Option α → Option (List α)
  | 0, _ => none
  | _ + 1, none => some []
  | k + 1, some p => do
      let pn ← follow p
      let ps ← visit follow k pn
      return p :: ps

/-- `OSSL_LIST_FOREACH_FROM`. -/
def foreachFrom (s : Links L α) : ℕ → Option α → Option (List α) := visit s.nextElem

/-- `OSSL_LIST_FOREACH_REV_FROM`. -/
def foreachRevFrom (s : Links L α) : ℕ → Option α → Option (List α) := visit s.prevElem

/-- `OSSL_LIST_FOREACH`. -/
def foreach (s : Links L α) (fuel : ℕ) (l : L) : Option (List α) := do
  let p ← s.head l
  s.foreachFrom fuel p

/-- `OSSL_LIST_FOREACH_REV`, which starts at the tail and expands to the loop that goes forward. -/
def foreachRev (s : Links L α) (fuel : ℕ) (l : L) : Option (List α) := do
  let p ← s.tail l
  s.foreachFrom fuel p

/-- `OSSL_LIST_FOREACH_DELSAFE_FROM`: the successor is read before the body runs. -/
def foreachDelsafeFrom (body : Links L α → α → Option (Links L α)) :
    ℕ → Links L α → Option α → Option (Links L α)
  | 0, _, _ => none
  | _ + 1, s, none => some s
  | k + 1, s, some p => do
      let pn ← s.nextElem p
      let s ← body s p
      foreachDelsafeFrom body k s pn

/-- `OSSL_LIST_FOREACH_DELSAFE`. -/
def foreachDelsafe (body : Links L α → α → Option (Links L α)) (fuel : ℕ) (s : Links L α) (l : L) :
    Option (Links L α) := do
  let p ← s.head l
  foreachDelsafeFrom body fuel s p

/-- Removes the head as long as there is one, as `destroy_test_scenario` does. -/
def drain (l : L) : ℕ → Links L α → Option (Links L α)
  | 0, _ => none
  | k + 1, s => do
      let p ← s.head l
      match p with
      | none => some s
      | some p => do
          let s ← s.remove l p
          drain l k s

section Loops

variable {s : Links L α} {σ : L → List α} (h : s.Represents σ) {l : L}

include h

-- In links that stand for lists no assertion of a query fails.
omit [DecidableEq α] in
theorem Represents.head_eq : s.head l = some (σ l).head? := by
  have hassert : ∀ x ∈ s.alpha l, s.list x = some l := by
    intro x hx
    rw [h.alpha] at hx
    exact (h.list x l).mpr (List.mem_of_head? hx)
  rw [head, if_pos hassert, h.alpha]

omit [DecidableEq α] in
theorem Represents.tail_eq : s.tail l = some (σ l).getLast? := by
  have hassert : ∀ x ∈ s.omega l, s.list x = some l := by
    intro x hx
    rw [h.omega] at hx
    exact (h.list x l).mpr (List.mem_of_getLast? hx)
  rw [tail, if_pos hassert, h.omega]

variable {e : α} {pre post : List α} (hσ : σ l = pre ++ e :: post)

include hσ

omit [DecidableEq L] in
theorem Represents.nextElem_eq : s.nextElem e = some post.head? := by
  have hnext := h.next_eq hσ
  have hassert : ∀ y ∈ s.next e, s.prev y = some e := by
    intro y hy
    rw [hnext] at hy
    obtain ⟨ys, rfl⟩ := List.head?_eq_some_iff.mp hy
    have hσ' : σ l = (pre ++ [e]) ++ y :: ys := by rw [hσ, List.append_assoc]; rfl
    rw [h.prev_eq hσ', List.getLast?_concat]
  rw [nextElem, if_pos hassert, hnext]

omit [DecidableEq L] in
theorem Represents.prevElem_eq : s.prevElem e = some pre.getLast? := by
  have hprev := h.prev_eq hσ
  have hassert : ∀ y ∈ s.prev e, s.next y = some e := by
    intro y hy
    rw [hprev] at hy
    obtain ⟨ys, rfl⟩ := List.getLast?_eq_some_iff.mp hy
    have hσ' : σ l = ys ++ y :: (e :: post) := by rw [hσ, List.append_assoc]; rfl
    rw [h.next_eq hσ', List.head?_cons]
  rw [prevElem, if_pos hassert, hprev]

end Loops

section Visited

variable {s : Links L α} {σ : L → List α} {l : L} {fuel : ℕ}

omit [DecidableEq L] [DecidableEq α] in
theorem visit_eq {follow : α → Option (Option α)} {xs : List α}
    (hfollow : ∀ pre e post, xs = pre ++ e :: post → follow e = some post.head?)
    (hfuel : xs.length < fuel) : visit follow fuel xs.head? = some xs := by
  induction xs generalizing fuel with
  | nil =>
      obtain ⟨k, rfl⟩ := Nat.exists_eq_succ_of_ne_zero (Nat.ne_of_gt hfuel)
      rfl
  | cons x xs ih =>
      obtain ⟨k, rfl⟩ := Nat.exists_eq_succ_of_ne_zero (Nat.ne_of_gt (Nat.zero_lt_of_lt hfuel))
      have hrest := ih (fun pre e post hxs => hfollow (x :: pre) e post (by rw [hxs]; rfl))
        (Nat.lt_of_succ_lt_succ hfuel)
      rw [List.head?_cons, visit, hfollow [] x xs rfl]
      show (visit follow k xs.head?).bind _ = _
      rw [hrest]
      rfl

theorem Represents.foreach_eq (h : s.Represents σ) (hfuel : (σ l).length < fuel) :
    s.foreach fuel l = some (σ l) := by
  rw [foreach, h.head_eq]
  exact visit_eq (fun _ _ _ hσ => h.nextElem_eq hσ) hfuel

-- The last element has no successor, so that the loop ends after it.
theorem Represents.foreachRev_eq (h : s.Represents σ) (hfuel : (σ l).length < fuel) :
    s.foreachRev fuel l = some (σ l).getLast?.toList := by
  rw [foreachRev, h.tail_eq]
  rcases List.eq_nil_or_concat (σ l) with hσ | ⟨ys, y, hσ⟩
  · rw [hσ] at hfuel ⊢
    exact visit_eq (by simp) hfuel
  · rw [List.concat_eq_append] at hσ
    rw [hσ] at hfuel ⊢
    rw [List.getLast?_concat]
    have hfuel' : [y].length < fuel := by
      rw [List.length_append] at hfuel
      omega
    apply visit_eq _ hfuel'
    intro pre e post hy
    obtain ⟨rfl, rfl, rfl⟩ : pre = [] ∧ e = y ∧ post = [] := by
      cases pre with
      | nil => simpa [eq_comm] using hy
      | cons z pre => simp at hy
    exact h.nextElem_eq hσ

omit [DecidableEq L] in
theorem Represents.foreachRevFrom_eq (h : s.Represents σ) (hfuel : (σ l).length < fuel) :
    s.foreachRevFrom fuel (σ l).getLast? = some (σ l).reverse := by
  rw [← List.head?_reverse]
  apply visit_eq
  · intro pre e post hrev
    have hσ : σ l = post.reverse ++ e :: pre.reverse := by
      rw [← List.reverse_reverse (σ l), hrev]
      simp
    rw [h.prevElem_eq hσ, List.getLast?_reverse]
  · rw [List.length_reverse]
    exact hfuel

/-- The loop visits the elements in order.  The one that is meant to go backwards visits only the
last of them, and so is right for a list of at most one element. -/
theorem foreach_visits (h : s.Represents σ) (hfuel : (σ l).length < fuel) :
    s.foreach fuel l = some (σ l) ∧ s.foreachRev fuel l = some (σ l).getLast?.toList ∧
      (s.foreachRev fuel l = s.foreachRevFrom fuel (s.omega l) ↔ (σ l).length ≤ 1) := by
  refine ⟨h.foreach_eq hfuel, h.foreachRev_eq hfuel, ?_⟩
  rw [h.foreachRev_eq hfuel, h.omega, h.foreachRevFrom_eq hfuel, Option.some_inj]
  constructor
  · intro heq
    rw [← List.length_reverse, ← heq]
    exact Option.length_toList_le
  · intro hle
    match σ l, hle with
    | [], _ => rfl
    | [x], _ => rfl

theorem foreach_visits_two :
    ∃ s : Links Unit ℕ, s.foreach 3 () = some [7, 8] ∧ s.foreachRev 3 () = some [8] := by
  have hdo : DoesAll (fun _ : Unit => ([] : List ℕ)) [.insertTail () 7, .insertTail () 8] _ :=
    .cons (.insertTail (by simp)) (.cons (.insertTail (by simp)) .nil)
  obtain ⟨s, -, hrep⟩ := run_of_doesAll represents_zeroed hdo
  obtain ⟨hfor, hrev, -⟩ : s.foreach 3 () = some [7, 8] ∧ s.foreachRev 3 () = some [8] ∧ _ :=
    foreach_visits hrep (by decide)
  exact ⟨s, hfor, hrev⟩

theorem drain_represents {xs : List α} (h : s.Represents σ) (hσ : σ l = xs)
    (hfuel : xs.length < fuel) :
    ∃ s', drain l fuel s = some s' ∧ s'.Represents (update σ l []) := by
  induction xs generalizing fuel s σ with
  | nil =>
      obtain ⟨k, rfl⟩ := Nat.exists_eq_succ_of_ne_zero (Nat.ne_of_gt hfuel)
      refine ⟨s, ?_, ?_⟩
      · rw [drain, h.head_eq, hσ]
        rfl
      · rw [← hσ, update_eq_self]
        exact h
  | cons x xs ih =>
      obtain ⟨k, rfl⟩ := Nat.exists_eq_succ_of_ne_zero (Nat.ne_of_gt (Nat.zero_lt_of_lt hfuel))
      have hσ' : σ l = [] ++ x :: xs := hσ
      obtain ⟨s', hdrain, hrep⟩ := ih (h.unlinked hσ') (update_self l xs σ)
        (Nat.lt_of_succ_lt_succ hfuel)
      rw [List.nil_append, update_idem] at hrep
      refine ⟨s', ?_, hrep⟩
      rw [drain, h.head_eq, hσ]
      show (s.remove l x).bind _ = _
      rw [h.remove_eq hσ']
      exact hdrain

-- The successor that is kept is the head once the element is gone.
theorem Represents.foreachDelsafeFrom_eq {xs : List α} (h : s.Represents σ) (hσ : σ l = xs) :
    foreachDelsafeFrom (fun s p => s.remove l p) fuel s xs.head? = drain l fuel s := by
  induction fuel generalizing s σ xs with
  | zero => rfl
  | succ k ih =>
      rw [drain, h.head_eq, hσ]
      cases xs with
      | nil => rfl
      | cons x xs =>
          have hσ' : σ l = [] ++ x :: xs := hσ
          rw [List.head?_cons, foreachDelsafeFrom, h.nextElem_eq hσ']
          show (s.remove l x).bind _ = (s.remove l x).bind _
          rw [h.remove_eq hσ']
          exact ih (h.unlinked hσ') (update_self l xs σ)

/-- A list can be emptied from a loop over it or from its head on, with the same result; every
element of it is then in no list, and the other lists are as before. -/
theorem foreachDelsafe_drain (h : s.Represents σ) (hfuel : (σ l).length < fuel) :
    ∃ s', foreachDelsafe (fun s p => s.remove l p) fuel s l = some s' ∧ drain l fuel s = some s' ∧
      s'.Represents (update σ l []) ∧ ∀ x ∈ σ l, s'.list x = none := by
  obtain ⟨s', hdrain, hrep⟩ := drain_represents h rfl hfuel
  refine ⟨s', ?_, hdrain, hrep, ?_⟩
  · rw [foreachDelsafe, h.head_eq]
    exact (h.foreachDelsafeFrom_eq rfl).trans hdrain
  · intro x hx
    apply hrep.list_eq_none
    intro l'
    by_cases hl : l' = l
    · rw [hl, update_self]
      exact List.not_mem_nil
    · rw [update_of_ne hl, ← h.list, (h.list x l).mpr hx]
      exact fun heq => hl (Option.some.inj heq).symm

theorem foreachDelsafe_drain_two :
    ∃ s s' : Links Unit ℕ, s.numElems () = 2 ∧ drain () 3 s = some s' ∧ s'.numElems () = 0 := by
  have hdo : DoesAll (fun _ : Unit => ([] : List ℕ)) [.insertTail () 7, .insertTail () 8] _ :=
    .cons (.insertTail (by simp)) (.cons (.insertTail (by simp)) .nil)
  obtain ⟨s, -, hrep⟩ := run_of_doesAll represents_zeroed hdo
  obtain ⟨s', -, hdrain, hrep', -⟩ : ∃ s', _ ∧ drain () 3 s = some s' ∧ _ ∧ _ :=
    foreachDelsafe_drain hrep (by decide)
  exact ⟨s, s', hrep.numElems (), hdrain, hrep'.numElems ()⟩

end Visited

end Links

end QudoSSL.Perf
