import Mustache.Command.Run

/-!
# What a run looks at

The paths that a run of the command may look at, as far as the files known so far tell. The
arguments name some of them; the templates among the known files name more, because each template
they include may be at one of several paths. Whoever gets files from outside can ask for these
paths, add what is there, and ask again, until nothing new comes up.
-/

namespace Mustache.Command

open Text

/-- The names that a template file includes others by, if it can be read. -/
def includedBy (fs : Files) (p : Path) : List Text :=
  match fs.readText p .utf8 with
  | .error _ => []
  | .ok source =>
    match Template.parse (unmarkedName p.name) source .standard with
    | .error _ => []
    | .ok t => t.includedNames

/-- The path of the data, if it is in a file. -/
def dataPath? (o : Options) : Option Path :=
  match o.data with
  | none | some .nothing | some (.text [char '-']) => none
  | some (.text p) => some (.ofText p)

/-- The paths that a render may look at. -/
def paths (o : Options) (fs : Files) : List Path :=
  match o.template with
  | .nothing => []
  | .text p =>
    let template := Path.ofText p
    let loader := Loader.ofFolder (partialsFolder o template)
    let names := includedBy fs template ++ Store.namesInFiles loader fs
    let written := [o.dataOut, o.output].filterMap fun p => p.map Path.ofText
    template :: (dataPath? o).toList ++ written ++ (firsts names).flatMap loader.candidates

/-- Does a render take its data from the input? -/
def readsInput (o : Options) : Bool :=
  o.template ≠ .nothing ∧ o.data = some (.text ['-'])

end Mustache.Command
