import Mustache.Value.Basic

/-!
# Contexts

A context is the stack of scopes that names are looked up in, the most recent first. The first
segment of a dotted name is looked up in every scope until one has it; each further segment only in
the value of the one before, so a name that is found halfway is never sought further out.

## Main statements

* `find_push` — a new scope hides what it has, and nothing else.
-/

namespace Mustache

open Text

/-- The scopes in force, the most recent first. -/
structure Context where
  scopes : List Value

namespace Context

/-- No scope at all. -/
def empty : Context := ⟨[]⟩

/-- The context of some root data: none when the data is missing. -/
def ofRoot (root : Value) : Context := if root.isMissing then empty else ⟨[root]⟩

/-- With a further scope. -/
def push (scope : Value) (c : Context) : Context := ⟨scope :: c.scopes⟩

/-- Without the most recent scope. -/
def pop (c : Context) : Context := ⟨c.scopes.tail⟩

/-- The most recent scope. -/
def top (c : Context) : Value := c.scopes.head?.getD .missing

/-- What the first scope that has the key has there. -/
def findIn (key : Text) : List Value → Value
  | [] => .missing
  | scope :: scopes =>
    let found := scope.child key
    if found.isMissing then findIn key scopes else found

/-- What a key refers to. -/
def find (c : Context) (key : Text) : Value := findIn key c.scopes

/-- What a path of keys leads to from a value. -/
def follow (v : Value) : List Text → Value
  | [] => v
  | key :: path => if v.isMissing then v else follow (v.child key) path

/-- What a name refers to: a dot to the most recent scope, any other name to where its segments
lead. -/
def referent (c : Context) (name : Text) : Value :=
  if name = [char '.'] then c.top
  else
    match pieces (· == '.') name with
    | [] => .missing
    | key :: path => follow (c.find key) path

theorem find_push (scope : Value) (c : Context) (key : Text) :
    (c.push scope).find key =
      if (scope.child key).isMissing then c.find key else scope.child key := rfl

end Context
end Mustache
