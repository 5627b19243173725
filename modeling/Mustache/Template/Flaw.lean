import Mustache.Delimiters
import Mustache.Text.Place

/-!
# Flaws of a template

A source that is no template has a first flaw: what is wrong and the offset of the tag that shows
it. Reported for a named template, a flaw is a parse error, which also has the line and the column.

## Main statements

* `ParseError.ofFlaw_inTemplate` — naming the template of a reported flaw changes nothing else.
-/

namespace Mustache

open Text

/-- What can be wrong with a template. -/
inductive FlawKind where
  /-- A tag has no closing marker; shown are its beginning and the marker it lacks. -/
  | unclosedTag (excerpt closing : Text)
  /-- A set-delimiter tag names no pair. -/
  | badDelimiters (fault : Delimiters.Fault)
  /-- A closing tag does not fit: another block is open there, or none. -/
  | strayClose (name : Text) (expected : Option Text)
  /-- A block is still open at the end. -/
  | unclosedBlock (name : Text)
deriving DecidableEq, Repr

/-- The words for it in a message. -/
def FlawKind.message : FlawKind → Text
  | .unclosedTag excerpt closing =>
    "Unclosed tag ".toText ++ quoted excerpt ++ ", expected ".toText ++ quoted closing
  | .badDelimiters fault => fault.message
  | .strayClose name none => "Closing tag for unopened section ".toText ++ quoted name
  | .strayClose name (some expected) =>
    "Closing tag ".toText ++ quoted name ++ " does not match open section ".toText ++
      quoted expected
  | .unclosedBlock name => "Unclosed section ".toText ++ quoted name

/-- What is wrong with a source, and the offset where it shows. -/
structure Flaw where
  kind : FlawKind
  position : Nat
deriving DecidableEq, Repr

/-- A flaw as it is reported: with its line and column, and the name of the template if it has
one. -/
structure ParseError where
  kind : FlawKind
  place : Place
  template : Option Text
deriving DecidableEq, Repr

namespace ParseError

/-- The report of a flaw of a source. -/
def ofFlaw (template : Option Text) (source : Text) (flaw : Flaw) : ParseError :=
  ⟨flaw.kind, Place.ofPosition source flaw.position, template⟩

/-- The same report, for a template of this name. -/
def inTemplate (name : Text) (e : ParseError) : ParseError := { e with template := some name }

/-- The message: what is wrong, and where. -/
def message (e : ParseError) : Text :=
  Place.locate e.kind.message e.template e.place.line e.place.column

theorem ofFlaw_inTemplate (template : Option Text) (name source : Text) (flaw : Flaw) :
    (ofFlaw template source flaw).inTemplate name = ofFlaw (some name) source flaw := rfl

end ParseError
end Mustache
