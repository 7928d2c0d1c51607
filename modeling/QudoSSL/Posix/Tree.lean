import QudoSSL.Posix.Text

/-!
# Source trees

A tree of files is a finite map from paths to contents, held as a list in which no path occurs
twice.
-/

namespace Posix

structure Tree where
  files : List (Text × Text)
  nodup : (files.map Prod.fst).Nodup

namespace Tree

def lookup (t : Tree) (p : Text) : Option Text := t.files.lookup p

/-- The two trees have the same paths with the same contents. -/
def Same (t u : Tree) : Prop := ∀ p, t.lookup p = u.lookup p

private theorem lookup_eq_some_iff_aux {l : List (Text × Text)} (hnd : (l.map Prod.fst).Nodup)
    (p c : Text) : l.lookup p = some c ↔ (p, c) ∈ l := by
  induction l with
  | nil => simp
  | cons e l ih =>
      obtain ⟨q, d⟩ := e
      simp only [List.map_cons, List.nodup_cons] at hnd
      by_cases hpq : p = q
      · subst hpq
        have hno : (p, c) ∉ l := fun h => hnd.1 (List.mem_map_of_mem (f := Prod.fst) h)
        simp [hno, eq_comm]
      · have hbeq : (p == q) = false := by simpa using hpq
        simp [List.lookup_cons, hbeq, hpq, ih hnd.2]

theorem lookup_eq_some_iff (t : Tree) (p c : Text) : t.lookup p = some c ↔ (p, c) ∈ t.files :=
  lookup_eq_some_iff_aux t.nodup p c

theorem Same.mem_files_iff {t u : Tree} (h : t.Same u) (e : Text × Text) :
    e ∈ t.files ↔ e ∈ u.files := by
  obtain ⟨p, c⟩ := e
  rw [← lookup_eq_some_iff, ← lookup_eq_some_iff, h p]

-- A tree agrees with another on all its own paths exactly when each of its entries is found
-- there.
theorem forall_mem_lookup_iff (t u : Tree) :
    (∀ e ∈ t.files, u.lookup e.1 = some e.2) ↔
      ∀ p, t.lookup p ≠ none → u.lookup p = t.lookup p := by
  constructor
  · intro h p hp
    obtain ⟨c, hc⟩ := Option.ne_none_iff_exists'.mp hp
    rw [hc]
    exact h (p, c) ((t.lookup_eq_some_iff p c).mp hc)
  · rintro h ⟨p, c⟩ he
    have hc := (t.lookup_eq_some_iff p c).mpr he
    rw [h p (by simp [hc]), hc]

end Tree

end Posix
