import Mathlib.Tactic.Common

/-!
# Recipes, traces and runs

A recipe is a sequence of commands over a state: it causes events, leaves a state and succeeds or
fails, and the first failing command ends it.  The triples here say of a recipe that every event it
causes is acceptable given the events before it, and what holds when it has succeeded.
-/

namespace Posix

structure Result (σ ε : Type) where
  events : List ε
  state : σ
  ok : Bool

abbrev Recipe (σ ε : Type) := σ → Result σ ε

namespace Recipe

variable {σ ε : Type}

def skip : Recipe σ ε := fun s => ⟨[], s, true⟩

def fail : Recipe σ ε := fun s => ⟨[], s, false⟩

def andThen (r q : Recipe σ ε) : Recipe σ ε := fun s =>
  if (r s).ok then
    ⟨(r s).events ++ (q (r s).state).events, (q (r s).state).state, (q (r s).state).ok⟩
  else r s

def seq : List (Recipe σ ε) → Recipe σ ε
  | [] => skip
  | r :: rs => andThen r (seq rs)

def onlyIf (b : σ → Bool) (r : Recipe σ ε) : Recipe σ ε := fun s => if b s then r s else skip s

/-- A recipe line with a leading `-`. -/
def ignoring (r : Recipe σ ε) : Recipe σ ε := fun s => { r s with ok := true }

/-- `r && q` as a command of a script under `set -e`, which a failure of `r` does not end. -/
def andList (r q : Recipe σ ε) : Recipe σ ε := fun s =>
  if (r s).ok then andThen r q s else { r s with ok := true }

theorem andThen_silent {r : Recipe σ ε} {s s' : σ} (h : r s = ⟨[], s', true⟩) (q : Recipe σ ε) :
    andThen r q s = q s' := by
  simp [andThen, h]

end Recipe

/-! ## Normal and failing ends -/

section Ends

variable {σ τ ε : Type}

/-- Started in `P`, the recipe succeeds in `Q` or fails in `E`. -/
def Ends (P : σ → Prop) (r : Recipe σ ε) (Q E : σ → Prop) : Prop :=
  ∀ s, P s → ((r s).ok = true → Q (r s).state) ∧ ((r s).ok = false → E (r s).state)

namespace Ends

variable {P Q R E : σ → Prop} {r : Recipe σ ε}

theorem seq_nil : Ends P (Recipe.seq ([] : List (Recipe σ ε))) P E :=
  fun _ hP => ⟨fun _ => hP, Bool.noConfusion⟩

theorem seq_cons {rs : List (Recipe σ ε)} (hr : Ends P r R E) (hrs : Ends R (Recipe.seq rs) Q E) :
    Ends P (Recipe.seq (r :: rs)) Q E := by
  intro s hP
  obtain ⟨hdone, hfailed⟩ := hr s hP
  simp only [Recipe.seq, Recipe.andThen]
  cases hok : (r s).ok with
  | true => exact hrs _ (hdone hok)
  | false =>
      rw [if_neg Bool.false_ne_true]
      exact ⟨fun h => absurd h (by simp [hok]), hfailed⟩

end Ends

/-- From states in `P`, the recipe does what `q` does to the part `f` of the state, and leaves a
state in `Q` when it succeeds. -/
def Refines (f : σ → τ) (P : σ → Prop) (r : Recipe σ ε) (q : Recipe τ ε) (Q : σ → Prop) : Prop :=
  ∀ s, P s → q (f s) = ⟨(r s).events, f (r s).state, (r s).ok⟩ ∧ ((r s).ok = true → Q (r s).state)

namespace Refines

variable {f : σ → τ} {P Q R : σ → Prop} {r : Recipe σ ε} {q : Recipe τ ε}

theorem seq_nil : Refines f P (Recipe.seq []) (Recipe.seq ([] : List (Recipe τ ε))) P :=
  fun _ hP => ⟨rfl, fun _ => hP⟩

theorem seq_cons {rs : List (Recipe σ ε)} {qs : List (Recipe τ ε)} (hr : Refines f P r q R)
    (hrs : Refines f R (Recipe.seq rs) (Recipe.seq qs) Q) :
    Refines f P (Recipe.seq (r :: rs)) (Recipe.seq (q :: qs)) Q := by
  intro s hP
  obtain ⟨heq, hpost⟩ := hr s hP
  simp only [Recipe.seq, Recipe.andThen, heq]
  by_cases hok : (r s).ok = true
  · obtain ⟨heq', hpost'⟩ := hrs _ (hpost hok)
    simp only [if_pos hok, heq']
    exact ⟨trivial, hpost'⟩
  · simp only [if_neg hok]
    exact ⟨trivial, fun h => absurd h hok⟩

end Refines

/-- The recipe on a part of a larger state. -/
def Recipe.focus (get : σ → τ) (set : σ → τ → σ) (q : Recipe τ ε) : Recipe σ ε := fun s =>
  ⟨(q (get s)).events, set s (q (get s)).state, (q (get s)).ok⟩

theorem refines_focus {get : σ → τ} {set : σ → τ → σ} (hget : ∀ s t, get (set s t) = t)
    (q : Recipe τ ε) : Refines get (fun _ => True) (Recipe.focus get set q) q fun _ => True := by
  intro s _
  refine ⟨?_, fun _ => trivial⟩
  show q (get s) = ⟨(q (get s)).events, get (set s (q (get s)).state), (q (get s)).ok⟩
  rw [hget]

end Ends

/-! ## Traces -/

section Trace

variable {σ ε : Type}

/-- Every event is acceptable given the history and the events before it. -/
def TraceOk (fine : List ε → ε → Prop) : List ε → List ε → Prop
  | _, [] => True
  | h, e :: es => fine h e ∧ TraceOk fine (h ++ [e]) es

theorem traceOk_append (fine : List ε → ε → Prop) (h es fs : List ε) :
    TraceOk fine h (es ++ fs) ↔ TraceOk fine h es ∧ TraceOk fine (h ++ es) fs := by
  induction es generalizing h with
  | nil => simp [TraceOk]
  | cons e es ih => simp [TraceOk, ih, and_assoc]

theorem traceOk_of_andThen {fine : List ε → ε → Prop} {h : List ε} {r q : Recipe σ ε} {s : σ}
    (ht : TraceOk fine h (Recipe.andThen r q s).events) : TraceOk fine h (r s).events := by
  unfold Recipe.andThen at ht
  split at ht
  · exact ((traceOk_append fine h _ _).mp ht).1
  · exact ht

def Triple (fine : List ε → ε → Prop) (P : List ε → σ → Prop) (r : Recipe σ ε)
    (Q : List ε → σ → Prop) : Prop :=
  ∀ h s, P h s →
    TraceOk fine h (r s).events ∧ ((r s).ok = true → Q (h ++ (r s).events) (r s).state)

namespace Triple

variable {fine : List ε → ε → Prop} {P Q R : List ε → σ → Prop} {r q : Recipe σ ε}

theorem andThen (hr : Triple fine P r R) (hq : Triple fine R q Q) :
    Triple fine P (Recipe.andThen r q) Q := by
  intro h s hP
  obtain ⟨htrace, hpost⟩ := hr h s hP
  unfold Recipe.andThen
  split
  · next hok =>
    obtain ⟨htrace', hpost'⟩ := hq _ _ (hpost hok)
    refine ⟨(traceOk_append fine h _ _).mpr ⟨htrace, htrace'⟩, fun hok' => ?_⟩
    rw [← List.append_assoc]
    exact hpost' hok'
  · next hok => exact ⟨htrace, fun h => absurd h hok⟩

theorem skip (himp : ∀ h s, P h s → Q h s) : Triple fine P Recipe.skip Q := by
  intro h s hP
  exact ⟨trivial, fun _ => by simpa [Recipe.skip] using himp h s hP⟩

theorem seq_nil : Triple fine P (Recipe.seq []) P := skip fun _ _ h => h

theorem seq_cons {rs : List (Recipe σ ε)} (hr : Triple fine P r R)
    (hrs : Triple fine R (Recipe.seq rs) Q) : Triple fine P (Recipe.seq (r :: rs)) Q :=
  hr.andThen hrs

-- An invariant kept by every command is kept by the sequence.
theorem seq_of_forall {rs : List (Recipe σ ε)} (hrs : ∀ r ∈ rs, Triple fine P r P) :
    Triple fine P (Recipe.seq rs) P := by
  induction rs with
  | nil => exact seq_nil
  | cons r rs ih =>
      exact seq_cons (hrs r List.mem_cons_self) (ih fun q hq => hrs q (List.mem_cons_of_mem _ hq))

theorem onlyIf {b : σ → Bool} (hr : Triple fine (fun h s => P h s ∧ b s = true) r Q)
    (hskip : ∀ h s, P h s → b s = false → Q h s) : Triple fine P (Recipe.onlyIf b r) Q := by
  intro h s hP
  unfold Recipe.onlyIf
  cases hb : b s with
  | true => exact hr h s ⟨hP, hb⟩
  | false => exact ⟨trivial, fun _ => by simpa [Recipe.skip] using hskip h s hP hb⟩

theorem strengthen {P' : List ε → σ → Prop} (hr : Triple fine P r Q)
    (himp : ∀ h s, P' h s → P h s) : Triple fine P' r Q :=
  fun h s hP => hr h s (himp h s hP)

end Triple

end Trace

/-! ## Runs -/

section Run

variable {σ α : Type}

/-- The property holds of every step of the run, in the state the step starts from. -/
def AlongRun (step : σ → α → σ) (P : σ → α → Prop) : σ → List α → Prop
  | _, [] => True
  | s, a :: as => P s a ∧ AlongRun step P (step s a) as

theorem alongRun_congr {step : σ → α → σ} {P Q : σ → α → Prop} (h : ∀ s a, P s a ↔ Q s a)
    (s : σ) (as : List α) : AlongRun step P s as ↔ AlongRun step Q s as := by
  induction as generalizing s with
  | nil => rfl
  | cons a as ih => simp only [AlongRun, h, ih]

theorem alongRun_iff_forall_mem {step : σ → α → σ} (P : α → Prop) (s : σ) (as : List α) :
    AlongRun step (fun _ a => P a) s as ↔ ∀ a ∈ as, P a := by
  induction as generalizing s with
  | nil => simp [AlongRun]
  | cons a as ih => simp [AlongRun, ih]

end Run

end Posix
