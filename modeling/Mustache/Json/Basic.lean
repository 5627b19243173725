import Mustache.Number.Double
import Mustache.Value.Basic

/-!
# JSON values

The data of the command is read from JSON. A JSON value is more than can be written in the standard
grammar: numbers may be infinite or no number, and whole numbers have any size.
-/

namespace Mustache

/-- A JSON value. The keys of an object are in the order in which they were first written. -/
inductive JsonValue where
  | null
  | bool (b : Bool)
  | int (n : Int)
  | double (x : Double)
  | str (s : Text)
  | array (items : List JsonValue)
  | object (entries : List (Text × JsonValue))
deriving Repr

namespace JsonValue

mutual

/-- The value that a template is rendered against. -/
def toValue (j : JsonValue) : Value :=
  match j with
  | .null => .null
  | .bool b => .bool b
  | .int n => .int n
  | .double x => .double x
  | .str s => .str s
  | .array items => .list (toValues items)
  | .object entries => .map (toEntries entries)
termination_by structural j

/-- The values of items. -/
def toValues (js : List JsonValue) : List Value :=
  match js with
  | [] => []
  | j :: js => j.toValue :: toValues js
termination_by structural js

/-- The values of entries, with their keys. -/
def toEntries (es : List (Text × JsonValue)) : List (Text × Value) :=
  match es with
  | [] => []
  | (k, j) :: es => (k, j.toValue) :: toEntries es
termination_by structural es

end

end JsonValue
end Mustache
