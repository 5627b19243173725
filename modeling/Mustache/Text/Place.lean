import Mustache.Text.Basic

/-!
# Places in a text

Messages name a place by line and column, both counted from one. The place of an offset past the
end is the one it would have if the last line went on.

## Main statements

* `one_le_line`, `one_le_column` — both numbers count from one;
* `lineStart_le` — a line begins at or before each of its offsets, so that
  `lineStart_add_column` gives the offset back.
-/

namespace Mustache

/-- An offset of a text with its line and column. -/
structure Place where
  position : Nat
  line : Nat
  column : Nat
deriving DecidableEq, Repr

namespace Place

/-- The line an offset is on: one more than the line feeds before it. -/
def lineAt (source : Text) (position : Nat) : Nat := (source.take position).count (char '\n') + 1

/-- Where the line of an offset begins: after the last line feed before it. -/
def lineStart (source : Text) (position : Nat) : Nat :=
  (source.take position).length - (Text.lastLine (source.take position)).length

/-- The column of an offset: one more than its distance from the beginning of its line. -/
def columnAt (source : Text) (position : Nat) : Nat := position - lineStart source position + 1

/-- The place of an offset. -/
def ofPosition (source : Text) (position : Nat) : Place :=
  ⟨position, lineAt source position, columnAt source position⟩

theorem one_le_line (source : Text) (position : Nat) : 1 ≤ (ofPosition source position).line := by
  simp [ofPosition, lineAt]

theorem one_le_column (source : Text) (position : Nat) :
    1 ≤ (ofPosition source position).column := by
  simp [ofPosition, columnAt]

theorem lineStart_le (source : Text) (position : Nat) : lineStart source position ≤ position := by
  have := List.length_take_le position source
  simp only [lineStart]
  omega

theorem lineStart_add_column (source : Text) (position : Nat) :
    lineStart source position + columnAt source position = position + 1 := by
  have := lineStart_le source position
  simp only [columnAt]
  omega

/-- How a message ends that speaks of a place: `at`, the template when it has a name, the line and
the column. -/
def locate (message : Text) (template : Option Text) (line column : Int) : Text :=
  let number (n : Int) : Text := (toString n).toText
  let name : Text := match template with
    | none | some [] => []
    | some name => name ++ [char ':']
  message ++ " at ".toText ++ name ++ number line ++ [char ':'] ++ number column

end Place
end Mustache
