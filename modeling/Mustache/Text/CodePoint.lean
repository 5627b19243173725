/-!
# Code points

Text is made of code points. Most of them are characters. The others are the surrogates, which in
pairs stand for the characters beyond the first 2¹⁶; one alone stands for nothing, but a text may
hold it. It has a number like any other code point, and cannot be written to a file.
-/

namespace Mustache

/-- A code point: a character, or a surrogate, counted from the first. -/
inductive CodePoint where
  | char (c : Char)
  | surrogate (n : Fin 0x800)
deriving DecidableEq, Repr

namespace CodePoint

instance : Coe Char CodePoint := ⟨char⟩

instance : Inhabited CodePoint := ⟨char default⟩

/-- The number of the first surrogate. -/
def firstSurrogate : Nat := 0xD800

/-- The number of a code point. -/
def toNat : CodePoint → Nat
  | char c => c.toNat
  | surrogate n => firstSurrogate + n

/-- The code point with this number; beyond the last one there are none. -/
def ofNat (n : Nat) : CodePoint :=
  if h : n - firstSurrogate < 0x800 ∧ firstSurrogate ≤ n then surrogate ⟨n - firstSurrogate, h.1⟩
  else char (Char.ofNat n)

/-- Is it a surrogate? -/
def isSurrogate : CodePoint → Bool
  | char _ => false
  | surrogate _ => true

/-- Is it a decimal digit of ASCII? -/
def isDigit (c : CodePoint) : Bool := 48 ≤ c.toNat && c.toNat ≤ 57

end CodePoint

export CodePoint (char)

/-- Text is a sequence of code points; every offset and length counts them. -/
abbrev Text := List CodePoint

end Mustache

/-- The text of a string. -/
def String.toText (s : String) : Mustache.Text := s.toList.map .char

/-- The characters of a text as a string, which holds no surrogates. -/
def String.ofText (s : Mustache.Text) : String :=
  String.ofList <| s.filterMap fun
    | .char c => some c
    | .surrogate _ => none
