import Mustache.Text.Basic

/-!
# Blank characters

The characters with the Unicode property of separating words: white space and the separators among
the control characters, twenty-nine in all. Names are trimmed of them and delimiters are separated
by them.

## Main statements

* `isBlank_of_isWhitespace` — core's white space is blank.
-/

namespace Mustache.Text

/-- Does the character separate words? -/
def isBlank (c : CodePoint) : Bool :=
  let n := c.toNat
  (0x09 ≤ n && n ≤ 0x0D) || (0x1C ≤ n && n ≤ 0x20) || n == 0x85 || n == 0xA0 || n == 0x1680 ||
    (0x2000 ≤ n && n ≤ 0x200A) || n == 0x2028 || n == 0x2029 || n == 0x202F || n == 0x205F ||
    n == 0x3000

theorem isBlank_of_isWhitespace {c : Char} (h : c.isWhitespace = true) : isBlank c = true := by
  simp only [Char.isWhitespace, Bool.or_eq_true, decide_eq_true_eq] at h
  rcases h with ((h | h) | h) | h <;> subst h <;> decide

/-- The text without the blanks at its beginning. -/
def trimStart (s : Text) : Text := s.dropWhile isBlank

/-- The text without the blanks at its end. -/
def trimEnd (s : Text) : Text := (s.reverse.dropWhile isBlank).reverse

/-- The text without the blanks at either end. -/
def trim (s : Text) : Text := trimEnd (trimStart s)

/-- The parts of the text between blanks, without those that are empty. -/
def words (s : Text) : List Text := (pieces isBlank s).filter (· ≠ [])

/-- Does the text hold nothing but spaces and tabs? This is what a line may hold beside a tag that
has the line to itself. -/
def isPadding (s : Text) : Bool := s.all fun c => c == ' ' || c == '\t'

end Mustache.Text
