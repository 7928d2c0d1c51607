import QudoSSL.Posix.Text

/-!
# `grep`: patterns, unanchored search, line counts

A pattern is a choice of branches; a branch is a sequence of one-character expressions, each
possibly starred, with the two anchors.  `bre` reads it from the pattern's text in POSIX basic
syntax, where that needs no backslash and no locale.
-/

namespace Posix

inductive Item where
  | one (cls : Char → Bool)
  | star (cls : Char → Bool)
  | eol

structure Branch where
  bol : Bool
  items : List Item

abbrev Pattern := List Branch

/-- Greedy or not makes no difference to whether there is a match, so the shortest run of the
starred class is tried first. -/
def matchStar (cls : Char → Bool) (k : Text → Bool) : Text → Bool
  | [] => k []
  | c :: cs => k (c :: cs) || (cls c && matchStar cls k cs)

def matchHere : List Item → Text → Bool
  | [], _ => true
  | .one _ :: _, [] => false
  | .one cls :: is, c :: cs => cls c && matchHere is cs
  | .star cls :: is, t => matchStar cls (matchHere is) t
  | .eol :: is, t => t.isEmpty && matchHere is t

def anySuffix (k : Text → Bool) : Text → Bool
  | [] => k []
  | c :: cs => k (c :: cs) || anySuffix k cs

def Branch.search (b : Branch) (l : Text) : Bool :=
  if b.bol then matchHere b.items l else anySuffix (matchHere b.items) l

/-- A line selected by `grep`. -/
def search (p : Pattern) (l : Text) : Bool := p.any (·.search l)

def grepCount (p : Pattern) (t : Text) : Nat :=
  -- grep -c
  (lines t).countP (search p)

def litItems (w : Text) : List Item := w.map fun c => .one (· == c)

/-- A pattern whose characters all stand for themselves. -/
def lit (w : Text) : Pattern := [⟨false, litItems w⟩]

/-- A literal line: `^...$`. -/
def litLine (w : Text) : Pattern := [⟨true, litItems w ++ [.eol]⟩]

/-! ## Reading basic syntax -/

/-- The inside of a bracket expression that lists its characters: its class and the text after the
closing bracket.  A closing bracket that comes first stands for itself, a dash if it comes last.
Ranges and named classes, which depend on the locale, have no reading here, nor has what looks like
the name of a class without its brackets. -/
def bracket (first : Bool) : Text → Option ((Char → Bool) × Text)
  | [] => none
  | ']' :: cs =>
      if first then (bracket false cs).map fun (cls, r) => (fun c => c == ']' || cls c, r)
      else some (fun _ => false, cs)
  | '-' :: cs =>
      if first || cs.head? == some ']' then
        (bracket false cs).map fun (cls, r) => (fun c => c == '-' || cls c, r)
      else none
  | ':' :: cs =>
      if first then none
      else (bracket false cs).map fun (cls, r) => (fun c => c == ':' || cls c, r)
  | '[' :: cs =>
      if cs.head? ∈ [some ':', some '.', some '='] then none
      else (bracket false cs).map fun (cls, r) => (fun c => c == '[' || cls c, r)
  | a :: cs => (bracket false cs).map fun (cls, r) => (fun c => c == a || cls c, r)

/-- One one-character expression and the text after it.  Backslashes have no reading here. -/
def atom : Text → Option ((Char → Bool) × Text)
  | [] => none
  | '.' :: cs => some (fun _ => true, cs)
  | '[' :: '^' :: cs => (bracket true cs).map fun (cls, r) => (fun c => !cls c, r)
  | '[' :: cs => bracket true cs
  | '\\' :: _ => none
  | c :: cs => some ((· == c), cs)

def items : Nat → Text → Option (List Item)
  | 0, _ => none
  | _ + 1, [] => some []
  | _ + 1, ['$'] => some [.eol]
  | n + 1, t =>
      match atom t with
      | none => none
      | some (cls, '*' :: r) => (items n (r.dropWhile (· == '*'))).map (.star cls :: ·)
      | some (cls, r) => (items n r).map (.one cls :: ·)

/-- The pattern a text denotes in basic syntax.  What has no reading here is ill-formed, or means
something that is not modelled. -/
def bre : Text → Option Pattern
  | '^' :: cs => (items (cs.length + 1) cs).map fun is => [⟨true, is⟩]
  | cs => (items (cs.length + 1) cs).map fun is => [⟨false, is⟩]

/-! ## Literal patterns -/

theorem anySuffix_iff (k : Text → Bool) (t : Text) :
    anySuffix k t = true ↔ ∃ s, s <:+ t ∧ k s = true := by
  induction t with
  | nil => simp [anySuffix]
  | cons c cs ih =>
      simp only [anySuffix, Bool.or_eq_true, ih]
      constructor
      · rintro (h | ⟨s, hs, hk⟩)
        · exact ⟨c :: cs, List.suffix_refl _, h⟩
        · exact ⟨s, hs.trans (List.suffix_cons c cs), hk⟩
      · rintro ⟨s, hs, hk⟩
        rcases List.suffix_cons_iff.mp hs with rfl | hs
        · exact Or.inl hk
        · exact Or.inr ⟨s, hs, hk⟩

theorem matchHere_litItems (w : Text) (is : List Item) (t : Text) :
    matchHere (litItems w ++ is) t = true ↔ ∃ r, t = w ++ r ∧ matchHere is r = true := by
  induction w generalizing t with
  | nil => simp [litItems]
  | cons c w ih =>
      cases t with
      | nil => simp [litItems, matchHere]
      | cons d ds =>
          have hcons : litItems (c :: w) ++ is = .one (· == c) :: (litItems w ++ is) := rfl
          rw [hcons]
          simp only [matchHere, Bool.and_eq_true, beq_iff_eq, ih, List.cons_append, List.cons.injEq]
          constructor
          · rintro ⟨rfl, r, rfl, hr⟩
            exact ⟨r, ⟨rfl, rfl⟩, hr⟩
          · rintro ⟨r, ⟨rfl, rfl⟩, hr⟩
            exact ⟨rfl, r, rfl, hr⟩

-- A literal pattern selects the lines that contain its text.
@[simp] theorem search_lit (w l : Text) : search (lit w) l = true ↔ w <:+: l := by
  simp only [search, lit, List.any_cons, List.any_nil, Bool.or_false, Branch.search,
    Bool.false_eq_true, if_false, anySuffix_iff]
  constructor
  · rintro ⟨s, ⟨u, rfl⟩, hs⟩
    obtain ⟨r, rfl, -⟩ := (matchHere_litItems w [] s).mp (by simpa using hs)
    exact ⟨u, r, by simp⟩
  · rintro ⟨u, r, rfl⟩
    refine ⟨w ++ r, ⟨u, by simp⟩, ?_⟩
    simpa using (matchHere_litItems w [] (w ++ r)).mpr ⟨r, rfl, rfl⟩

-- An anchored literal pattern selects exactly its own text.
@[simp] theorem search_litLine (w l : Text) : search (litLine w) l = true ↔ l = w := by
  simp only [search, litLine, List.any_cons, List.any_nil, Bool.or_false, Branch.search,
    if_true, matchHere_litItems]
  constructor
  · rintro ⟨r, rfl, hr⟩
    simp only [matchHere, Bool.and_true, List.isEmpty_iff] at hr
    simp [hr]
  · rintro rfl
    exact ⟨[], by simp, rfl⟩

theorem grepCount_eq_zero_iff (p : Pattern) (t : Text) :
    grepCount p t = 0 ↔ ∀ l ∈ lines t, search p l = false := by
  simp [grepCount, List.countP_eq_zero]

-- Counting the lines with a literal finds none exactly when the text does not contain it.
theorem grepCount_lit_eq_zero_iff {w : Text} (hw : w ≠ []) (hn : '\n' ∉ w) (t : Text) :
    grepCount (lit w) t = 0 ↔ ¬ w <:+: t := by
  rw [grepCount_eq_zero_iff, ← exists_line_infix_iff hw hn]
  simp [← Bool.not_eq_true]

end Posix
