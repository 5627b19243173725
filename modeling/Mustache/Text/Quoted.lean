import Mustache.Text.Printable

/-!
# Quoted text

How a text or a byte string is shown inside a message or inside the text of a list: between quotes,
with whatever would not show written as an escape. The quote is `'`, unless the text holds that
quote and not the other one.
-/

namespace Mustache.Text

/-- The hexadecimal digit with value `d`, in lower case. -/
def hexDigit (d : Nat) : CodePoint := CodePoint.ofNat (if d < 10 then 48 + d else 87 + d)

/-- The last `width` hexadecimal digits of `n`. -/
def hex : Nat → Nat → Text
  | 0, _ => []
  | width + 1, n => hex width (n / 16) ++ [hexDigit (n % 16)]

/-- A character without a name of its own in quoted text, by its number. -/
def numericEscape (n : Nat) : Text :=
  if n < 0x100 then '\\' :: 'x' :: hex 2 n
  else if n < 0x10000 then '\\' :: 'u' :: hex 4 n
  else '\\' :: 'U' :: hex 8 n

/-- The quote that a text is put between. -/
def quoteFor (s : Text) : CodePoint := if char '\'' ∈ s ∧ char '"' ∉ s then '"' else '\''

/-- A character as it stands between quotes. -/
def quotedChar (quote c : CodePoint) : Text :=
  if c = quote ∨ c = '\\' then ['\\', c]
  else if c = '\n' then ['\\', 'n']
  else if c = '\r' then ['\\', 'r']
  else if c = '\t' then ['\\', 't']
  else if isPrintable c then [c]
  else numericEscape c.toNat

/-- The text between quotes. -/
def quoted (s : Text) : Text :=
  let quote := quoteFor s
  quote :: s.flatMap (quotedChar quote) ++ [quote]

/-- A byte string between quotes: only printable ASCII stands for itself, and a `b` goes before. -/
def quotedBytes (bs : List UInt8) : Text :=
  let cs := bs.map fun b => CodePoint.ofNat b.toNat
  let quote := quoteFor cs
  let shown (c : CodePoint) : Text :=
    if c.toNat < 0x7F then quotedChar quote c else numericEscape c.toNat
  char 'b' :: quote :: cs.flatMap shown ++ [quote]

end Mustache.Text
