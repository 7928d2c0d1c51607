import Mathlib.Data.List.Basic

/-!
# Vectors and views of them

A `std::vector` whose elements are borrowed by somebody who keeps a pointer and a length.  Whatever
may move the elements starts a new generation of the vector, and a view is good for the generation
it was taken in only: reading through an older one is undefined.
-/

namespace Cpp

variable {α : Type}

structure Vec (α : Type) where
  data : List α
  gen : ℕ

structure View where
  gen : ℕ
  off : ℕ
  len : ℕ

namespace Vec

/-- `v.insert(v.end(), …)`. -/
def append (v : Vec α) (xs : List α) : Vec α := ⟨v.data ++ xs, v.gen + 1⟩

/-- `v.erase(v.begin(), v.begin() + n)`. -/
def eraseFront (v : Vec α) (n : ℕ) : Vec α := ⟨v.data.drop n, v.gen + 1⟩

def view (v : Vec α) : View := ⟨v.gen, 0, v.data.length⟩

end Vec

namespace View

variable (w : View) (v : Vec α)

/-- Take up to `n` elements; undefined unless they are still where the view points. -/
def read (n : ℕ) : Option (List α × View) :=
  if w.gen = v.gen ∧ w.off + min n w.len ≤ v.data.length then
    some ((v.data.drop w.off).take (min n w.len), ⟨w.gen, w.off + min n w.len, w.len - min n w.len⟩)
  else none

/-- The view is good, and reaches to the end of the vector. -/
def Tail : Prop := w.gen = v.gen ∧ w.off + w.len = v.data.length

/-- What has been read through the view. -/
def done : List α := v.data.take w.off

/-- What is still to be read. -/
def rest : List α := v.data.drop w.off

theorem tail_view : v.view.Tail v := ⟨rfl, Nat.zero_add _⟩

theorem done_append_rest : w.done v ++ w.rest v = v.data := List.take_append_drop _ _

variable {w v}

theorem Tail.length_rest (h : w.Tail v) : (w.rest v).length = w.len := by
  have hlen := h.2
  rw [rest, List.length_drop]
  omega

theorem Tail.drop_consumed (h : w.Tail v) : v.data.drop (v.data.length - w.len) = w.rest v := by
  have hlen := h.2
  rw [rest, show v.data.length - w.len = w.off by omega]

theorem Tail.read (h : w.Tail v) (n : ℕ) :
    ∃ w', w.read v n = some ((w.rest v).take n, w') ∧ w'.Tail v ∧
      w'.rest v = (w.rest v).drop n ∧ w'.done v = w.done v ++ (w.rest v).take n := by
  have hlen := h.2
  have hrest := h.length_rest
  -- asking for more than there is makes no difference
  have htake : (w.rest v).take (min n w.len) = (w.rest v).take n := by
    rw [← hrest, List.take_eq_take_iff]
    omega
  refine ⟨⟨w.gen, w.off + min n w.len, w.len - min n w.len⟩, ?_, ⟨h.1, ?_⟩, ?_, ?_⟩
  · rw [View.read, if_pos ⟨h.1, by omega⟩, ← htake]
    rfl
  · show w.off + min n w.len + (w.len - min n w.len) = v.data.length
    omega
  · show v.data.drop (w.off + min n w.len) = (v.data.drop w.off).drop n
    rw [List.drop_drop]
    by_cases hn : n ≤ w.len
    · rw [Nat.min_eq_left hn]
    · rw [Nat.min_eq_right (by omega), List.drop_eq_nil_of_le (by omega),
        List.drop_eq_nil_of_le (by omega)]
  · show v.data.take (w.off + min n w.len) = w.done v ++ (w.rest v).take n
    rw [List.take_add, ← htake]
    rfl

end View

end Cpp
