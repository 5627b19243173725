import Mustache.Number.Double
import Mustache.Table

/-!
# Values

What a template is rendered against. A value is of one of seven kinds, and everything the renderer
asks of a value — is there anything, what is at this key, what does a block run over — depends on
its kind and on what it holds.

## Main statements

* `isPresent_iff_scopes_ne_nil` — a block is kept for exactly the values it has a scope for.
-/

namespace Mustache

open Text

/-- A value of the data. -/
inductive Value where
  /-- What a name refers to when there is nothing by that name. -/
  | missing
  | null
  | bool (b : Bool)
  | str (s : Text)
  | int (n : Int)
  | double (x : Double)
  /-- A decimal number, by its numeral. -/
  | decimal (numeral : Text)
  | bytes (bs : List UInt8)
  | map (entries : List (Text × Value))
  | list (items : List Value)
  /-- A sequence like a list, with a text of its own. -/
  | tuple (items : List Value)
  /-- Something with attributes and a text. -/
  | object (attributes : List (Text × Value)) (text : Text)
  /-- Something that can only be called. -/
  | callable

namespace Value

instance : Inhabited Value := ⟨missing⟩

/-! ## Kinds -/

/-- The kinds of values. -/
inductive Kind where
  | missing
  | null
  | bool
  | scalar
  | map
  | sequence
  | object
deriving DecidableEq, Repr

/-- The kind of a value. -/
def kind : Value → Kind
  | .missing => .missing
  | .null => .null
  | .bool _ => .bool
  | .str _ | .int _ | .double _ | .decimal _ | .bytes _ => .scalar
  | .map _ => .map
  | .list _ | .tuple _ => .sequence
  | .object .. | .callable => .object

/-- Is it the missing value? -/
def isMissing : Value → Bool
  | .missing => true
  | _ => false

/-! ## What is inside -/

/-- The item of a sequence that a key in decimal digits counts out, from zero. -/
def itemAt (items : List Value) (key : Text) : Value :=
  match number? key with
  | some i => items[i]?.getD .missing
  | none => .missing

/-- The attribute of an object by this name. Names that begin with a low line are private. -/
def attributeAt (attributes : List (Text × Value)) (key : Text) : Value :=
  if key = [] ∨ key.head? = some (char '_') then .missing
  else
    match Table.get? key attributes with
    | some .callable | none => .missing
    | some v => v

/-- What is at a key of a value. -/
def child (scope : Value) (key : Text) : Value :=
  match scope with
  | .map entries => (Table.get? key entries).getD .missing
  | .list items | .tuple items => itemAt items key
  | .object attributes _ => attributeAt attributes key
  | _ => .missing

/-! ## Blocks -/

/-- Is there anything for a block to be kept for? Only what is missing, null, false or an empty
sequence is nothing. -/
def isPresent : Value → Bool
  | .missing | .null => false
  | .bool b => b
  | .list items | .tuple items => !items.isEmpty
  | _ => true

/-- The scopes that a block's body is rendered in, one after the other. -/
def scopes (v : Value) : List Value :=
  match v with
  | .list items | .tuple items => items
  | v => if v.isPresent then [v] else []

theorem isPresent_iff_scopes_ne_nil (v : Value) : v.isPresent = true ↔ v.scopes ≠ [] := by
  cases v with
  | bool b => cases b <;> simp [isPresent, scopes]
  | _ => simp [isPresent, scopes]

end Value
end Mustache
