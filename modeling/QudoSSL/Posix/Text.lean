import Mathlib.Data.List.DropRight
import Mathlib.Data.List.Infix
import Mathlib.Tactic.Common

/-!
# Text as the POSIX utilities see it

A text is a list of characters.  This file has the readings the shell and the line-oriented
utilities make of one: its lines, the fields of a line, the value of a command substitution, and
the directory and base name of a path.
-/

namespace Posix

abbrev Text := List Char

instance decidableMemText (t : Text) (ts : List Text) : Decidable (t ∈ ts) := inferInstance

/-- A literal text.  Kept folded by `simp`, so that goals show the words of the program. -/
def txt (s : String) : Text := s.toList

/-- The lines of a text.  An unterminated last line counts, as it does for `grep` and `sed`. -/
def lines : Text → List Text
  | [] => []
  | c :: cs =>
      if c = '\n' then [] :: lines cs
      else
        match lines cs with
        | [] => [[c]]
        | l :: ls => (c :: l) :: ls

/-- `wc -l`: the newline characters, so an unterminated last line does not count. -/
def wcLines (t : Text) : Nat := t.count '\n'

/-- A line as a utility prints it. -/
def terminate (l : Text) : Text := l ++ ['\n']

/-- `$(...)`: the output of the command without its trailing newlines. -/
def substitute (t : Text) : Text := t.rdropWhile (· == '\n')

/-- The blank-separated fields of a line, as `awk` numbers them. -/
def fields (l : Text) : List Text :=
  ((l.map fun c => if c = '\t' then ' ' else c).splitOn ' ').filter (· ≠ [])

/-- The last component of a path: `basename`. -/
def basename (p : Text) : Text :=
  let s := p.rdropWhile (· == '/')
  if s = [] then (if p = [] then [] else ['/']) else s.rtakeWhile (· != '/')

/-- The path without its last component: `dirname`. -/
def dirname (p : Text) : Text :=
  let s := p.rdropWhile (· == '/')
  if s = [] then (if p = [] then ['.'] else ['/'])
  else
    let d := s.rdropWhile (· != '/')
    if d = [] then ['.']
    else
      let e := d.rdropWhile (· == '/')
      if e = [] then ['/'] else e

/-- An operand that a utility takes for options. -/
def looksLikeOptions (p : Text) : Bool := p.head? = some '-' && p ≠ ['-']

/-- What `dirname` and `basename` print where the operand looks like options: nothing, if the option
is unknown or no operand is left, but `--help` is answered. -/
structure Utilities where
  dirnameOptions : Text → Text
  basenameOptions : Text → Text

/-- No option is known. -/
def Utilities.silent : Utilities := ⟨fun _ => [], fun _ => []⟩

def Utilities.dirname (u : Utilities) (p : Text) : Text :=
  if looksLikeOptions p then u.dirnameOptions p else terminate (Posix.dirname p)

def Utilities.basename (u : Utilities) (p : Text) : Text :=
  if looksLikeOptions p then u.basenameOptions p else terminate (Posix.basename p)

/-- A number as the shell prints it. -/
def decimal (n : Nat) : Text := Nat.toDigits 10 n

/-- `%d`. -/
def integer : Int → Text
  | .ofNat n => decimal n
  | .negSucc n => '-' :: decimal (n + 1)

theorem decimal_ne_nil (n : Nat) : decimal n ≠ [] := Nat.toDigits_ne_nil

theorem isDigit_of_mem_decimal {n : Nat} {c : Char} (h : c ∈ decimal n) : c.isDigit = true :=
  Nat.isDigit_of_mem_toDigits (by decide) (by decide) h

theorem notMem_decimal {c : Char} (h : c.isDigit = false) (n : Nat) : c ∉ decimal n := by
  intro hc
  rw [isDigit_of_mem_decimal hc] at h
  cases h

theorem ofDigitChars_decimal (n : Nat) : Nat.ofDigitChars 10 (decimal n) 0 = n :=
  Nat.ofDigitChars_toDigits (by decide) (by decide)

theorem decimal_injective : Function.Injective decimal := by
  intro m n h
  rw [← ofDigitChars_decimal m, h, ofDigitChars_decimal]

/-! ## Lines -/

theorem lines_cons_newline (cs : Text) : lines ('\n' :: cs) = [] :: lines cs := by
  simp [lines]

theorem lines_eq_nil_iff (t : Text) : lines t = [] ↔ t = [] := by
  constructor
  · intro h
    cases t with
    | nil => rfl
    | cons c cs =>
        simp only [lines] at h
        split at h
        · simp at h
        · split at h <;> simp at h
  · rintro rfl
    rfl

theorem infix_of_mem_lines {l t : Text} (h : l ∈ lines t) : l <:+: t := by
  -- the head line is moreover an initial segment, which the recursive case needs
  suffices hs : (∀ l ∈ lines t, l <:+: t) ∧ (∀ l ls, lines t = l :: ls → l <+: t) from hs.1 l h
  clear h
  induction t with
  | nil => simp [lines]
  | cons c cs ih =>
      obtain ⟨ihmem, ihhead⟩ := ih
      by_cases hc : c = '\n'
      · subst hc
        rw [lines_cons_newline]
        refine ⟨fun m hm => ?_, fun m ms hms => ?_⟩
        · rcases List.mem_cons.mp hm with rfl | hm
          · exact List.nil_infix
          · exact List.infix_cons (ihmem m hm)
        · rw [(List.cons.inj hms).1.symm]
          exact List.nil_prefix
      · simp only [lines, if_neg hc]
        split
        · next hnil =>
          have hcs := (lines_eq_nil_iff cs).mp hnil
          subst hcs
          simp
        · next k ks hk =>
          have hpre : (c :: k) <+: (c :: cs) := List.cons_prefix_cons.mpr ⟨rfl, ihhead k ks hk⟩
          refine ⟨fun m hm => ?_, fun m ms hms => ?_⟩
          · rcases List.mem_cons.mp hm with rfl | hm
            · exact hpre.isInfix
            · exact List.infix_cons (ihmem m (by rw [hk]; exact List.mem_cons_of_mem _ hm))
          · rw [← (List.cons.inj hms).1]
            exact hpre

theorem newline_notMem_of_mem_lines {l t : Text} (h : l ∈ lines t) : '\n' ∉ l := by
  induction t generalizing l with
  | nil => simp [lines] at h
  | cons c cs ih =>
      by_cases hc : c = '\n'
      · subst hc
        rw [lines_cons_newline] at h
        rcases List.mem_cons.mp h with rfl | h
        · simp
        · exact ih h
      · simp only [lines, if_neg hc] at h
        split at h
        · rw [List.mem_singleton.mp h]
          simpa using Ne.symm hc
        · next k ks hk =>
          rcases List.mem_cons.mp h with rfl | h
          · have hnk := ih (l := k) (by simp [hk])
            simp [hnk, Ne.symm hc]
          · exact ih (by rw [hk]; exact List.mem_cons_of_mem _ h)

theorem prefix_head_line {w t : Text} (hw : w ≠ []) (hn : '\n' ∉ w) (h : w <+: t) :
    ∃ l ls, lines t = l :: ls ∧ w <+: l := by
  induction t generalizing w with
  | nil => exact absurd (List.prefix_nil.mp h) hw
  | cons c cs ih =>
      obtain ⟨a, w, rfl⟩ := List.exists_cons_of_ne_nil hw
      obtain ⟨rfl, hpre⟩ := List.cons_prefix_cons.mp h
      have hc : a ≠ '\n' := fun he => hn (by simp [he])
      simp only [lines, if_neg hc]
      by_cases hnil : w = []
      · subst hnil
        split <;> simp
      · obtain ⟨l, ls, hls, hl⟩ := ih hnil (fun hm => hn (List.mem_cons_of_mem _ hm)) hpre
        rw [hls]
        exact ⟨a :: l, ls, rfl, List.cons_prefix_cons.mpr ⟨rfl, hl⟩⟩

/-- A word that cannot begin in the second part of a text, and has not the character that part
begins with, occurs in the first part if it occurs at all. -/
theorem infix_of_infix_append {w a b : Text} (h : w <:+: a ++ b) (hw : ∀ c ∈ w.head?, c ∉ b)
    (hb : ∀ c ∈ b.head?, c ∉ w) : w <:+: a := by
  obtain ⟨s, t, h⟩ := h
  rcases List.append_eq_append_iff.mp h with ⟨u, rfl, -⟩ | ⟨u, hsw, rfl⟩
  · exact ⟨s, u, rfl⟩
  · rcases List.append_eq_append_iff.mp hsw with ⟨v, rfl, rfl⟩ | ⟨v, rfl, rfl⟩
    · cases u with
      | nil => exact ⟨s, [], by simp⟩
      | cons c u => exact absurd (List.mem_append_right v List.mem_cons_self) (hb c rfl)
    · cases w with
      | nil => exact List.nil_infix
      | cons c w => exact absurd (by simp) (hw c rfl)

-- A word without newlines occurs in a text exactly when it occurs in one of its lines.
theorem exists_line_infix_iff {w : Text} (hw : w ≠ []) (hn : '\n' ∉ w) (t : Text) :
    (∃ l ∈ lines t, w <:+: l) ↔ w <:+: t := by
  constructor
  · rintro ⟨l, hl, hin⟩
    exact hin.trans (infix_of_mem_lines hl)
  · intro h
    induction t with
    | nil => exact absurd (List.infix_nil.mp h) hw
    | cons c cs ih =>
        rcases List.infix_cons_iff.mp h with hpre | hin
        · obtain ⟨l, ls, hls, hl⟩ := prefix_head_line hw hn hpre
          exact ⟨l, by simp [hls], hl.isInfix⟩
        · obtain ⟨l, hl, hwl⟩ := ih hin
          by_cases hc : c = '\n'
          · subst hc
            exact ⟨l, by rw [lines_cons_newline]; exact List.mem_cons_of_mem _ hl, hwl⟩
          · simp only [lines, if_neg hc]
            split
            · next hnil => simp [hnil] at hl
            · next k ks hk =>
              rw [hk] at hl
              rcases List.mem_cons.mp hl with rfl | hl
              · exact ⟨c :: l, by simp, List.infix_cons hwl⟩
              · exact ⟨l, by simp [hl], hwl⟩

theorem lines_append_newline (t u : Text) :
    lines (terminate t ++ u) = lines (terminate t) ++ lines u := by
  unfold terminate
  induction t with
  | nil => exact lines_cons_newline u
  | cons c cs ih =>
      by_cases hc : c = '\n'
      · subst hc
        simp only [List.cons_append, lines_cons_newline, ih]
      · have hne : lines (cs ++ ['\n']) ≠ [] := (lines_eq_nil_iff _).not.mpr (by simp)
        obtain ⟨l, ls, hls⟩ := List.exists_cons_of_ne_nil hne
        simp only [List.cons_append, lines, if_neg hc, ih, hls]

theorem lines_terminate_append {l : Text} (h : '\n' ∉ l) (t : Text) :
    lines (terminate l ++ t) = l :: lines t := by
  unfold terminate
  induction l with
  | nil => exact lines_cons_newline t
  | cons c cs ih =>
      have hc : c ≠ '\n' := fun he => h (by simp [he])
      rw [List.cons_append, List.cons_append, lines, if_neg hc,
        ih fun hm => h (List.mem_cons_of_mem _ hm)]

theorem lines_terminate {l : Text} (h : '\n' ∉ l) : lines (terminate l) = [l] := by
  rw [← List.append_nil (terminate l), lines_terminate_append h]
  rfl

theorem lines_eq_singleton {c : Char} {cs : Text} (h : '\n' ∉ c :: cs) :
    lines (c :: cs) = [c :: cs] := by
  induction cs generalizing c with
  | nil =>
      have hc : c ≠ '\n' := fun he => h (by simp [he])
      simp [lines, hc]
  | cons d ds ih =>
      have hc : c ≠ '\n' := fun he => h (by simp [he])
      rw [lines, if_neg hc, ih fun hm => h (List.mem_cons_of_mem c hm)]

-- `wc -l` and the number of lines differ by the last line, if that is unterminated.
theorem length_lines (t : Text) :
    (lines t).length = wcLines t + if t.getLastD '\n' = '\n' then 0 else 1 := by
  unfold wcLines
  induction t with
  | nil => rfl
  | cons c cs ih =>
      by_cases hc : c = '\n'
      · subst hc
        rw [lines_cons_newline, List.length_cons, ih, List.count_cons_self, List.getLastD_cons]
        omega
      · rw [List.count_cons_of_ne hc, List.getLastD_cons]
        cases cs with
        | nil => simp [lines, hc]
        | cons d ds =>
            have hne : lines (d :: ds) ≠ [] := (lines_eq_nil_iff _).not.mpr (by simp)
            obtain ⟨l, ls, hls⟩ := List.exists_cons_of_ne_nil hne
            rw [List.getLastD_cons] at ih ⊢
            rw [lines, if_neg hc, hls]
            rw [hls] at ih
            exact ih

/-! ## Fields -/

theorem map_tab_eq_self {w : Text} (htab : '\t' ∉ w) :
    w.map (fun c => if c = '\t' then ' ' else c) = w := by
  conv_rhs => rw [← List.map_id w]
  refine List.map_congr_left fun c hc => ?_
  have hne : c ≠ '\t' := fun h => htab (h ▸ hc)
  exact if_neg hne

theorem getLastD_fields {w : Text} (hne : w ≠ []) (hspace : ' ' ∉ w) (htab : '\t' ∉ w) (t : Text) :
    (fields (t ++ ' ' :: w)).getLastD [] = w := by
  unfold fields
  rw [List.map_append, List.map_cons, map_tab_eq_self htab, if_neg (by decide),
    List.splitOn_append_cons_self, List.splitOn_eq_singleton hspace, List.filter_append]
  simp [hne]

/-! ## Command substitution -/

theorem substitute_terminate_of_getLast {l : Text} (h : l.getLast? ≠ some '\n') :
    substitute (terminate l) = l := by
  unfold substitute terminate
  rw [List.rdropWhile_concat_pos _ _ _ (by simp)]
  apply List.rdropWhile_eq_self_iff.mpr
  intro hne hlast
  apply h
  rw [List.getLast?_eq_some_getLast hne, beq_iff_eq.mp hlast]

theorem substitute_terminate {l : Text} (h : '\n' ∉ l) : substitute (terminate l) = l :=
  substitute_terminate_of_getLast fun hlast => h (List.mem_of_getLast? hlast)

-- Lines without newlines of their own, printed one after another, leave a nonempty value as
-- soon as one of them is nonempty.
theorem substitute_flatten_ne_nil_iff (ls : List Text) (hn : ∀ l ∈ ls, '\n' ∉ l) :
    substitute (ls.map terminate).flatten ≠ [] ↔ ∃ l ∈ ls, l ≠ [] := by
  unfold substitute
  rw [ne_eq, List.rdropWhile_eq_nil_iff]
  constructor
  · intro h
    by_contra hall
    push Not at hall
    apply h
    intro c hc
    obtain ⟨m, hm, hcm⟩ := List.mem_flatten.mp hc
    obtain ⟨l, hl, rfl⟩ := List.mem_map.mp hm
    simpa [terminate, hall l hl] using hcm
  · rintro ⟨l, hl, hne⟩ h
    obtain ⟨c, l', rfl⟩ := List.exists_cons_of_ne_nil hne
    have hc : c = '\n' := by
      simpa using h c (List.mem_flatten.mpr
        ⟨terminate (c :: l'), List.mem_map_of_mem hl, by simp [terminate]⟩)
    exact hn _ hl (by simp [hc])

/-! ## Separators -/

theorem rtakeWhile_append_cons {c : Char} {d : Text} (h : c ∉ d) (a : Text) :
    (a ++ c :: d).rtakeWhile (· != c) = d := by
  have hall : ∀ x ∈ d.reverse, (x != c) = true := by
    intro x hx
    rw [bne_iff_ne]
    rintro rfl
    exact h (List.mem_reverse.mp hx)
  rw [List.rtakeWhile, List.reverse_append, List.reverse_cons, List.append_assoc,
    List.takeWhile_append_of_pos hall]
  simp

-- What follows the last separator is determined.
theorem append_cons_cancel {c : Char} {a b d e : Text} (hd : c ∉ d) (he : c ∉ e)
    (h : a ++ c :: d = b ++ c :: e) : a = b ∧ d = e := by
  have htail := congrArg (List.rtakeWhile (· != c)) h
  rw [rtakeWhile_append_cons hd, rtakeWhile_append_cons he] at htail
  subst htail
  exact ⟨List.append_cancel_right h, rfl⟩

/-! ## Paths -/

theorem basename_append {d n : Text} (hn : '/' ∉ n) (hne : n ≠ []) :
    basename (d ++ '/' :: n) = n := by
  have hkeep : (d ++ '/' :: n).rdropWhile (· == '/') = d ++ '/' :: n := by
    obtain ⟨m, c, rfl⟩ := List.eq_nil_or_concat n |>.resolve_left hne
    have hc : c ≠ '/' := by
      rintro rfl
      simp at hn
    rw [List.concat_eq_append, ← List.cons_append, ← List.append_assoc,
      List.rdropWhile_concat_neg _ _ _ (by simpa using hc)]
  unfold basename
  simp only [hkeep]
  rw [if_neg (by simp), rtakeWhile_append_cons hn]

end Posix
