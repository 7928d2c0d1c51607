import QudoSSL.Posix.Text

/-!
# Text on a shell command line

What becomes of text that a makefile pastes into a command line depends on its characters.  Those
that are listed here can make the shell read something else than the text; all others reach the
command as they are.  An unquoted expansion is split into words.
-/

namespace Posix

/-- The characters that keep a meaning of their own between double quotes. -/
def specialQuoted (c : Char) : Bool := c ∈ ['"', '\\', '$', '\x60']

/-- The characters that end an unquoted word, quote, or start an expansion. -/
def special (c : Char) : Bool :=
  specialQuoted c ||
    c ∈ [' ', '\t', '\n', ';', '&', '|', '<', '>', '(', ')', '\'', '{', '}', '~']

/-- The characters of pathname patterns.  A word with one of them stays as it is if no path
matches. -/
def wildcard (c : Char) : Bool := c ∈ ['*', '?', '[']

/-- The characters of `IFS` where nothing has set it. -/
def ifs (c : Char) : Bool := c ∈ [' ', '\t', '\n']

/-- The words of an unquoted expansion. -/
def words (t : Text) : List Text := (t.splitOnP ifs).filter (· ≠ [])

theorem words_eq_singleton {t : Text} (hne : t ≠ []) (h : ∀ c ∈ t, ifs c = false) :
    words t = [t] := by
  unfold words
  rw [List.splitOnP_eq_singleton h]
  simp [hne]

end Posix
