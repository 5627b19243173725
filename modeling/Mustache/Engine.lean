import Mustache.Render.Eval
import Mustache.Store.Basic

/-!
# Engines

An engine parses and renders in one call. It has a way to escape values and a store of templates
that the rendered ones may include: some given when it is made, others loaded from a folder.
-/

namespace Mustache

open Text

/-- An engine, with refusals of type `ε` where values are escaped. -/
structure Engine (ε : Type) where
  escape : Text → Except ε Text
  store : Store

namespace Engine

variable {ε : Type}

/-- Why an engine has no answer. -/
inductive Error (ε : Type) where
  | load (e : LoadError)
  | render (fault : RenderFault (LoadError ⊕ ε))
  /-- There is no template by this name. -/
  | noTemplate (name : Text)

/-- The name of a template that has no other. -/
def anonymous : Text := "<string>".toText

/-- A store with these sources added in order, or the flaw of the first that has one. -/
def addAll (s : Store) : List (Text × Text) → Except ParseError Store
  | [] => .ok s
  | (name, source) :: sources =>
    match s.add name source with
    | (.ok _, s) => addAll s sources
    | (.error e, _) => .error e

/-- An engine with these templates given, and the folder to load others from. -/
def create (folder : Option Path) (sources : List (Text × Text)) (escape : Text → Except ε Text) :
    Except ParseError (Engine ε) :=
  match addAll (.empty (folder.map .ofFolder)) sources with
  | .ok store => .ok ⟨escape, store⟩
  | .error e => .error e

/-- With another store. -/
def withStore (store : Store) (g : Engine ε) : Engine ε := { g with store := store }

/-- A template rendered against some data. -/
def renderTemplate (fs : Files) (t : Template) (data : Value) (g : Engine ε) :
    Except (Error ε) Text × Engine ε :=
  let rendering := t.render (Store.host fs g.escape) data g.store
  (rendering.result.mapError .render, g.withStore rendering.host)

/-- A source rendered against some data. -/
def render (fs : Files) (name source : Text) (data : Value) (g : Engine ε) :
    Except (Error ε) Text × Engine ε :=
  match g.store.parse name source with
  | (.ok t, store) => (g.withStore store).renderTemplate fs t data
  | (.error e, store) => (.error (.load (.parse e)), g.withStore store)

/-- The template by a name rendered against some data. -/
def renderNamed (fs : Files) (name : Text) (data : Value) (g : Engine ε) :
    Except (Error ε) Text × Engine ε :=
  match g.store.get fs name with
  | (.ok (some t), store) => (g.withStore store).renderTemplate fs t data
  | (.ok none, store) => (.error (.noTemplate name), g.withStore store)
  | (.error e, store) => (.error (.load e), g.withStore store)

/-- A file rendered against some data. -/
def renderFile (fs : Files) (p : Path) (data : Value) (g : Engine ε) :
    Except (Error ε) Text × Engine ε :=
  match fs.readText p .utf8 with
  | .ok source => g.render fs (unmarkedName p.name) source data
  | .error e => (.error (.load e), g)

end Engine
end Mustache
