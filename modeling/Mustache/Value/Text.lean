import Mustache.Number.Shortest
import Mustache.Text.Encoding
import Mustache.Text.Quoted
import Mustache.Value.Basic

/-!
# The text of a value

What stands in the output for an interpolated value. Nothing stands for what is missing, for null
and for truth values; texts stand for themselves; everything else is shown by its literal form.

## Main statements

* `isOk_text?_of_not_bytes` — every value but a byte string has a text.
-/

namespace Mustache

open Text

namespace Value

/-- Numbers between 0.0001 and 10¹⁶ are written by placing the point, and whole numbers keep a
zero after it; all others have a signed exponent of at least two digits. -/
def numerals : NumeralLayout where
  positional := (-4, 15)
  mark := ['e']
  exponentWidth := 2
  wholeEnd := ['.', '0']
  infinity := "inf".toText
  nan := "nan".toText

/-- The items between commas. -/
def commaSeparated (ts : List Text) : Text := joinWith [',', ' '] ts

mutual

/-- The literal form of a value: text in quotes, the contents of containers in brackets. -/
def literal (v : Value) : Text :=
  match v with
  | .missing => "MISSING".toText
  | .null => "None".toText
  | .bool true => "True".toText
  | .bool false => "False".toText
  | .str s => quoted s
  | .int n => (toString n).toText
  | .double x => numerals.write x
  | .decimal numeral => "Decimal('".toText ++ numeral ++ "')".toText
  | .bytes bs => quotedBytes bs
  | .map entries => char '\x7b' :: commaSeparated (literalEntries entries) ++ [char '\x7d']
  | .list items => char '[' :: commaSeparated (literalItems items) ++ [char ']']
  | .tuple items =>
    match literalItems items with
    | [item] => char '(' :: item ++ [char ',', ')']
    | shown => char '(' :: commaSeparated shown ++ [char ')']
  | .object _ text => text
  | .callable => "<callable>".toText
termination_by structural v

/-- The literal forms of items. -/
def literalItems (vs : List Value) : List Text :=
  match vs with
  | [] => []
  | v :: vs => v.literal :: literalItems vs
termination_by structural vs

/-- The literal forms of entries. -/
def literalEntries (es : List (Text × Value)) : List Text :=
  match es with
  | [] => []
  | (k, v) :: es => (quoted k ++ [char ':', ' '] ++ v.literal) :: literalEntries es
termination_by structural es

end

/-- The text that stands for a value, or the fault of bytes that are not UTF-8. -/
def text? (v : Value) : Except DecodeFault Text :=
  match v with
  | .missing | .null | .bool _ => .ok []
  | .str s => .ok s
  | .bytes bs => Encoding.decode .utf8 bs
  | .decimal numeral => .ok numeral
  | v => .ok v.literal

theorem isOk_text?_of_not_bytes {v : Value} (h : ∀ bs, v ≠ .bytes bs) :
    ∃ s, v.text? = .ok s := by
  cases v with
  | bytes bs => exact absurd rfl (h bs)
  | _ => exact ⟨_, rfl⟩

end Value
end Mustache
