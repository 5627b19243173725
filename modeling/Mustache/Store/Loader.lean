import Mustache.Files.Tree
import Mustache.Template.Parse

/-!
# Loading templates

A template called `page` is the text of the file `page.mustache.html`, `page.mustache` or `page` of
a folder, the first of them that is there. Line ends of files are unified.
-/

namespace Mustache

open Text

/-! ## Names of files -/

/-- What marks the name of a template's file. -/
def fileMarker : Text := ".mustache".toText

/-- The endings that the file of a template may have, in the order in which they are tried. -/
def standardSuffixes : List Text := [".mustache.html".toText, ".mustache".toText, []]

/-- The name of the template in a file: the file's name without the first marker in it. -/
def unmarkedName (fileName : Text) : Text :=
  match cut? fileMarker fileName with
  | some (before, rest) => before ++ rest
  | none => fileName

/-! ## Loading -/

/-- Why a template cannot be had. -/
inductive LoadError where
  | access (e : AccessError)
  | undecodable (fault : DecodeFault)
  | parse (e : ParseError)
deriving DecidableEq, Repr

/-- The message. -/
def LoadError.message : LoadError → Text
  | .access e => e.message
  | .undecodable fault => fault.message
  | .parse e => e.message

/-- The text of a file. -/
def Files.readText (fs : Files) (p : Path) (encoding : Encoding) : Except LoadError Text :=
  match fs.read p with
  | .error e => .error (.access e)
  | .ok bytes =>
    match encoding.decode bytes with
    | .error fault => .error (.undecodable fault)
    | .ok s => .ok (unifyLineEnds s)

/-- Where templates are looked for. -/
structure Loader where
  folder : Path
  suffixes : List Text
  encoding : Encoding
deriving DecidableEq, Repr

namespace Loader

/-- A loader for a folder, with the usual endings. -/
def ofFolder (folder : Path) : Loader := ⟨folder, standardSuffixes, .utf8⟩

/-- The first of some paths that is a file. -/
def firstFile (fs : Files) : List Path → Except AccessError (Option Path)
  | [] => .ok none
  | p :: ps =>
    match fs.isFile p with
    | .error e => .error e
    | .ok true => .ok (some p)
    | .ok false => firstFile fs ps

/-- The paths where the template by a name may be, in the order in which they are tried. -/
def candidates (l : Loader) (name : Text) : List Path :=
  l.suffixes.map fun suffix => l.folder.join (.ofText (name ++ suffix))

/-- The file of the template by a name. -/
def find? (l : Loader) (fs : Files) (name : Text) : Except AccessError (Option Path) :=
  firstFile fs (l.candidates name)

/-- The file of the template by a name, with its text. -/
def load? (l : Loader) (fs : Files) (name : Text) : Except LoadError (Option (Path × Text)) :=
  match l.find? fs name with
  | .error e => .error (.access e)
  | .ok none => .ok none
  | .ok (some p) => (fs.readText p l.encoding).map fun s => some (p, s)

end Loader
end Mustache
