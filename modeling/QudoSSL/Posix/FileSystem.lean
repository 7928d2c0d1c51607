import QudoSSL.Posix.Text

/-!
# Inodes, path resolution and the shell's `cd`

A file system is a finite table of inodes with the root at index 0.  Names live in directories and
point to inodes, so a hard link is two names of one inode.  Resolution works as the kernel's does:
component by component, splicing in the target of every symbolic link it meets, up to
`symloopMax` links.
-/

namespace Posix

inductive Node where
  | dir (parent : Nat) (entries : List (Text × Nat))
  | file (exec : Bool)
  | link (target : Text)
  deriving DecidableEq

structure FS where
  nodes : List Node
  symloopMax : Nat

/-- An inode together with the directory in which its name was found. -/
structure Loc where
  dir : Nat
  ino : Nat
  deriving DecidableEq

/-- How far a walk gets before the next symbolic link. -/
inductive Leg where
  | done (loc : Loc)
  | link (dir : Nat) (target : Text) (rest : List Text)
  | fail

def isAbs (p : Text) : Bool := p.head? == some '/'

namespace FS

/-- `follow` says whether a link in the last place is followed too, which is what tells `stat` from
`lstat`. -/
def leg (fs : FS) (follow : Bool) (dir cur : Nat) : List Text → Leg
  | [] => .done ⟨dir, cur⟩
  | c :: cs =>
      match fs.nodes[cur]? with
      | some (.dir parent entries) =>
          if c = [] ∨ c = ['.'] then leg fs follow dir cur cs
          else if c = ['.', '.'] then leg fs follow parent parent cs
          else
            match entries.lookup c with
            | none => .fail
            | some i =>
                match fs.nodes[i]? with
                | none => .fail
                | some (.link t) => if cs = [] ∧ !follow then .done ⟨cur, i⟩ else .link cur t cs
                | some _ => leg fs follow cur i cs
      | _ => .fail

def walk (fs : FS) (follow : Bool) (start : Nat) (cs : List Text) : Nat → Option Loc
  | 0 =>
      match fs.leg follow start start cs with
      | .done loc => some loc
      | _ => none
  | n + 1 =>
      match fs.leg follow start start cs with
      | .done loc => some loc
      | .link dir t rest => walk fs follow (if isAbs t then 0 else dir) (t.splitOn '/' ++ rest) n
      | .fail => none

/-- The inode a path names when looked up from the directory `cwd`. -/
def resolve (fs : FS) (follow : Bool) (cwd : Nat) (p : Text) : Option Loc :=
  if p = [] then none
  else fs.walk follow (if isAbs p then 0 else cwd) (p.splitOn '/') fs.symloopMax

def stat (fs : FS) (cwd : Nat) (p : Text) : Option Node :=
  (fs.resolve true cwd p).bind fun loc => fs.nodes[loc.ino]?

def lstat (fs : FS) (cwd : Nat) (p : Text) : Option Node :=
  (fs.resolve false cwd p).bind fun loc => fs.nodes[loc.ino]?

/-- The directory a path leads to, if it leads to one. -/
def dirAt (fs : FS) (cwd : Nat) (p : Text) : Option Nat :=
  (fs.resolve true cwd p).bind fun loc =>
    match fs.nodes[loc.ino]? with
    | some (.dir _ _) => some loc.ino
    | _ => none

/-- `[ -x p ]`.  Directories are searchable, so the test holds of them as well. -/
def isExec (fs : FS) (cwd : Nat) (p : Text) : Bool :=
  match fs.stat cwd p with
  | some (.file exec) => exec
  | some (.dir _ _) => true
  | _ => false

/-- A program the kernel will start from this path. -/
def isProgram (fs : FS) (cwd : Nat) (p : Text) : Bool :=
  match fs.stat cwd p with
  | some (.file exec) => exec
  | _ => false

/-- `readlink p`; `[ -L p ]` holds when there is a value. -/
def readlink (fs : FS) (cwd : Nat) (p : Text) : Option Text :=
  match fs.lstat cwd p with
  | some (.link t) => some t
  | _ => none

-- A directory is the only thing `-x` accepts that the kernel does not start.
theorem isProgram_iff (fs : FS) (cwd : Nat) (p : Text) :
    fs.isProgram cwd p = true ↔ fs.isExec cwd p = true ∧ fs.dirAt cwd p = none := by
  unfold isProgram isExec dirAt stat
  cases fs.resolve true cwd p with
  | none => simp
  | some loc =>
      simp only [Option.bind_some]
      cases fs.nodes[loc.ino]? with
      | none => simp
      | some node => cases node <;> simp

/-! ## With and without the last link -/

-- The two ways to walk part only at a link in the last place.
theorem leg_follow (fs : FS) (dir cur : Nat) (cs : List Text) :
    fs.leg false dir cur cs = fs.leg true dir cur cs ∨
      ∃ d i t, fs.leg false dir cur cs = .done ⟨d, i⟩ ∧ fs.nodes[i]? = some (.link t) ∧
        fs.leg true dir cur cs = .link d t [] := by
  induction cs generalizing dir cur with
  | nil => exact .inl rfl
  | cons c cs ih =>
      unfold leg
      cases hcur : fs.nodes[cur]? with
      | none => exact .inl rfl
      | some node =>
          cases node with
          | file exec => exact .inl rfl
          | link target => exact .inl rfl
          | dir parent entries =>
              by_cases hskip : c = [] ∨ c = ['.']
              · simp only [if_pos hskip]
                exact ih dir cur
              · simp only [if_neg hskip]
                by_cases hup : c = ['.', '.']
                · simp only [if_pos hup]
                  exact ih parent parent
                · simp only [if_neg hup]
                  cases entries.lookup c with
                  | none => exact .inl rfl
                  | some i =>
                      cases hi : fs.nodes[i]? with
                      | none => simp only [hi, true_or]
                      | some node =>
                          cases node with
                          | file exec => simpa only [hi] using ih cur i
                          | dir p es => simpa only [hi] using ih cur i
                          | link t =>
                              simp only [hi]
                              by_cases hlast : cs = []
                              · subst hlast
                                exact .inr ⟨cur, i, t, by simp, hi, by simp⟩
                              · exact .inl (by simp [hlast])

theorem walk_follow_of_not_link {fs : FS} {start : Nat} {cs : List Text} {n : Nat} {loc : Loc}
    (h : fs.walk false start cs n = some loc)
    (hlink : ∀ t, fs.nodes[loc.ino]? ≠ some (.link t)) : fs.walk true start cs n = some loc := by
  induction n generalizing start cs with
  | zero =>
      unfold walk at h ⊢
      rcases fs.leg_follow start start cs with heq | ⟨d, i, t, hdone, hi, _⟩
      · rwa [heq] at h
      · rw [hdone] at h
        cases h
        exact absurd hi (hlink t)
  | succ n ih =>
      unfold walk at h ⊢
      rcases fs.leg_follow start start cs with heq | ⟨d, i, t, hdone, hi, _⟩
      · rw [heq] at h
        cases hleg : fs.leg true start start cs with
        | done l => rwa [hleg] at h
        | link d t rest =>
            rw [hleg] at h
            exact ih h
        | fail => rwa [hleg] at h
      · rw [hdone] at h
        cases h
        exact absurd hi (hlink t)

theorem walk_nofollow_of_walk {fs : FS} {start : Nat} {cs : List Text} {n : Nat} {loc : Loc}
    (h : fs.walk true start cs n = some loc) :
    fs.walk false start cs n = some loc ∨
      ∃ l t, fs.walk false start cs n = some l ∧ fs.nodes[l.ino]? = some (.link t) := by
  induction n generalizing start cs with
  | zero =>
      unfold walk at h ⊢
      rcases fs.leg_follow start start cs with heq | ⟨d, i, t, _, _, hstop⟩
      · exact .inl (by rwa [heq])
      · rw [hstop] at h
        cases h
  | succ n ih =>
      unfold walk at h ⊢
      rcases fs.leg_follow start start cs with heq | ⟨d, i, t, hdone, hi, _⟩
      · rw [heq]
        cases hleg : fs.leg true start start cs with
        | done l =>
            rw [hleg] at h
            exact .inl h
        | link d t rest =>
            rw [hleg] at h
            exact ih h
        | fail =>
            rw [hleg] at h
            cases h
      · rw [hdone]
        exact .inr ⟨⟨d, i⟩, t, rfl, hi⟩

theorem readlink_eq_some_iff {fs : FS} {cwd : Nat} {p t : Text} :
    fs.readlink cwd p = some t ↔
      ∃ loc, fs.resolve false cwd p = some loc ∧ fs.nodes[loc.ino]? = some (.link t) := by
  unfold readlink
  rw [← Option.bind_eq_some_iff]
  show _ ↔ fs.lstat cwd p = some (.link t)
  cases fs.lstat cwd p with
  | none => simp
  | some node => cases node <;> simp

/-- A name that is not a symbolic link means the same whether or not links are followed. -/
theorem resolve_true_iff_of_readlink {fs : FS} {cwd : Nat} {p : Text}
    (hlink : fs.readlink cwd p = none) (loc : Loc) :
    fs.resolve true cwd p = some loc ↔ fs.resolve false cwd p = some loc := by
  have hnot : ∀ l t, fs.resolve false cwd p = some l → fs.nodes[l.ino]? ≠ some (.link t) := by
    intro l t hl ht
    have hsome := readlink_eq_some_iff.mpr ⟨l, hl, ht⟩
    rw [hlink] at hsome
    cases hsome
  unfold resolve at hnot ⊢
  by_cases hp : p = []
  · rw [if_pos hp, if_pos hp]
  · rw [if_neg hp] at hnot ⊢
    rw [if_neg hp]
    constructor
    · intro h
      rcases walk_nofollow_of_walk h with h' | ⟨l, t, hl, ht⟩
      · exact h'
      · exact absurd ht (hnot l t hl)
    · intro h
      exact walk_follow_of_not_link h fun t => hnot loc t h

/-! ## The current directory -/

def absPath (cs : List Text) : Text := '/' :: ['/'].intercalate cs

/-- The name of a directory found by climbing to the root, as `getcwd` finds it. -/
def pathOf (fs : FS) : Nat → Nat → Option (List Text)
  | 0, _ => none
  | _ + 1, 0 => some []
  | n + 1, i =>
      match fs.nodes[i]? with
      | some (.dir parent _) =>
          match fs.nodes[parent]? with
          | some (.dir _ entries) =>
              (entries.find? (·.2 = i)).bind fun e => (pathOf fs n parent).map (· ++ [e.1])
          | _ => none
      | _ => none

/-- The textual reading of a path: `.` disappears and `..` takes the component before it away,
which has to be a directory.  The stack holds the components read so far, last one first. -/
def canon (fs : FS) : List Text → List Text → Option (List Text)
  | st, [] => some st.reverse
  | st, c :: cs =>
      if c = [] ∨ c = ['.'] then canon fs st cs
      else if c = ['.', '.'] then
        if (fs.dirAt 0 (absPath st.reverse)).isSome then canon fs st.tail cs else none
      else canon fs (c :: st) cs

end FS

/-- A shell's working directory: the inode, and the name in `$PWD`. -/
structure Cwd where
  ino : Nat
  pwd : Text
  deriving DecidableEq

namespace FS

/-- The directory itself, under the name `getcwd` gives it. -/
def cdPhysical (fs : FS) (w : Cwd) (d : Text) : Option Cwd :=
  (fs.dirAt w.ino d).bind fun i => (fs.pathOf (fs.nodes.length + 1) i).map fun cs => ⟨i, absPath cs⟩

/-- `cd d`: bash reads the path textually against `$PWD` and keeps that name; only when the textual
reading leads to no directory does it try the path as the kernel reads it. -/
def cd (fs : FS) (w : Cwd) (d : Text) : Option Cwd :=
  let t := if isAbs d then d else w.pwd ++ '/' :: d
  match fs.canon [] (t.splitOn '/') with
  | none => fs.cdPhysical w d
  | some cs =>
      match fs.dirAt 0 (absPath cs) with
      | some i => some ⟨i, absPath cs⟩
      | none => fs.cdPhysical w d

end FS

end Posix
