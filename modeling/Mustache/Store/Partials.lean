import Mustache.Store.Basic

/-!
# Offered templates

Whoever has a template rendered may offer the templates that it includes: a table of them, finished
or in source, or a function that finds them. A table becomes a store, in which a finished template
goes by its own name and a source by its key.
-/

namespace Mustache

open Text

/-- A template that is offered: finished, or in source. -/
inductive Offer where
  | finished (t : Template)
  | source (s : Text)
deriving DecidableEq, Repr

/-- The templates that are offered to a render. -/
inductive Partials (ε : Type) where
  | none
  | table (offers : Table Text Offer)
  | function (find : Text → Except ε (Option Template))
  /-- Something that is neither a table nor a function, by what it is called. -/
  | unsuitable (description : Text)

namespace Partials

/-- Why offered templates cannot be used. -/
inductive Fault where
  | parse (e : ParseError)
  | unsuitable (description : Text)
deriving DecidableEq, Repr

/-- The message. -/
def Fault.message : Fault → Text
  | .parse e => e.message
  | .unsuitable description =>
    "partials must be a callable or a mapping, not ".toText ++ description

/-- A store with what a table offers, or the flaw of the first source that has one. -/
def storeOf (s : Store) : Table Text Offer → Except ParseError Store
  | [] => .ok s
  | (_, .finished t) :: offers => storeOf (s.put t) offers
  | (name, .source source) :: offers =>
    match s.add name source with
    | (.ok _, s) => storeOf s offers
    | (.error e, _) => .error e

/-- The files that offered templates are loaded from: none. -/
def noFiles : Files := ⟨[], []⟩

/-- What a render with the offered templates asks, and the store it begins with. -/
def host {ε : Type} (escape : Text → Except ε Text) :
    Partials ε → Except Fault (Host Store (LoadError ⊕ ε) × Store)
  | .none => .ok (Store.host noFiles escape, .empty .none)
  | .table offers =>
    match storeOf (.empty .none) offers with
    | .ok s => .ok (Store.host noFiles escape, s)
    | .error e => .error (.parse e)
  | .function find =>
    .ok (⟨(Store.host noFiles escape).escape, fun name s => ((find name).mapError .inr, s)⟩,
      .empty .none)
  | .unsuitable description => .error (.unsuitable description)

end Partials
end Mustache
