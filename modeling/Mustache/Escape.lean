import Mustache.Text.Basic

/-!
# Escaping

What is done to interpolated values so that they cannot be taken for markup. Four characters are
replaced one after the other; the ampersand goes first, since the others put ampersands in.

## Main statements

* `replaceChar_append` — replacing distributes over concatenation, hence `html_append`.
-/

namespace Mustache

/-- A way to escape text. -/
abbrev Escape := Text → Text

namespace Escape

/-- The text with every occurrence of a character replaced. -/
def replaceChar (c : CodePoint) (image : Text) (s : Text) : Text :=
  s.flatMap fun d => if d = c then image else [d]

theorem replaceChar_append (c : CodePoint) (image s t : Text) :
    replaceChar c image (s ++ t) = replaceChar c image s ++ replaceChar c image t := by
  simp [replaceChar]

/-- Escaping for markup: ampersands, both angle brackets and the double quote. -/
def html : Escape := fun s =>
  replaceChar '"' "&quot;".toText
    (replaceChar '>' "&gt;".toText
      (replaceChar '<' "&lt;".toText
        (replaceChar '&' "&amp;".toText s)))

/-- No escaping. -/
def none : Escape := fun s => s

theorem html_append (s t : Text) : html (s ++ t) = html s ++ html t := by
  simp [html, replaceChar_append]

end Escape
end Mustache
