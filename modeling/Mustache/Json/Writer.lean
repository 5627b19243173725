import Mustache.Json.Basic
import Mustache.Number.Shortest
import Mustache.Text.Quoted

/-!
# Writing JSON

Every item and every entry goes on a line of its own, two spaces further in than what it is part of.
All characters stand for themselves, except the quote, the backslash and the control characters.
-/

namespace Mustache

open Text

namespace JsonValue

/-- Numbers are laid out as they are in templates; the special ones have names. -/
def numerals : NumeralLayout where
  positional := (-4, 15)
  mark := ['e']
  exponentWidth := 2
  wholeEnd := ['.', '0']
  infinity := "Infinity".toText
  nan := "NaN".toText

/-- A character in a string. -/
def writeChar (c : CodePoint) : Text :=
  if c = '"' then ['\\', '"']
  else if c = '\\' then ['\\', '\\']
  else if c = '\n' then ['\\', 'n']
  else if c = '\r' then ['\\', 'r']
  else if c = '\t' then ['\\', 't']
  else if c = '\x08' then ['\\', 'b']
  else if c = '\x0c' then ['\\', 'f']
  else if c.toNat < 0x20 then '\\' :: 'u' :: hex 4 c.toNat
  else [c]

/-- A string. -/
def writeString (s : Text) : Text := char '"' :: s.flatMap writeChar ++ [char '"']

/-- A line end, and the beginning of a line at a depth. -/
def newLine (depth : Nat) : Text := '\n' :: List.replicate (2 * depth) ' '

/-- Lines between two brackets; nothing is between them when there are no lines. -/
def writeBlock (opening closing : CodePoint) (depth : Nat) (lines : List Text) : Text :=
  if lines = [] then [opening, closing]
  else
    opening :: newLine (depth + 1) ++ joinWith (char ',' :: newLine (depth + 1)) lines ++
      newLine depth ++ [closing]

mutual

/-- A value at a depth. -/
def writeAt (depth : Nat) (j : JsonValue) : Text :=
  match j with
  | .null => "null".toText
  | .bool true => "true".toText
  | .bool false => "false".toText
  | .int n => (toString n).toText
  | .double x => numerals.write x
  | .str s => writeString s
  | .array items => writeBlock '[' ']' depth (writeItems (depth + 1) items)
  | .object entries => writeBlock '\x7b' '\x7d' depth (writeEntries (depth + 1) entries)
termination_by structural j

/-- Items at a depth. -/
def writeItems (depth : Nat) (js : List JsonValue) : List Text :=
  match js with
  | [] => []
  | j :: js => writeAt depth j :: writeItems depth js
termination_by structural js

/-- Entries at a depth. -/
def writeEntries (depth : Nat) (es : List (Text × JsonValue)) : List Text :=
  match es with
  | [] => []
  | (k, j) :: es => (writeString k ++ [char ':', ' '] ++ writeAt depth j) :: writeEntries depth es
termination_by structural es

end

/-- A value as text. -/
def write (j : JsonValue) : Text := writeAt 0 j

end JsonValue
end Mustache
