import Mustache.Delimiters
import Mustache.Files.Path

/-!
# Notices

What a store reports while it works. A notice is either of interest only to someone who looks into
what happens, or a warning that everybody should see.
-/

namespace Mustache

open Text

/-- Something worth reporting. -/
inductive Notice where
  /-- A template goes over to another pair of delimiters. -/
  | delimitersSet (template : Text) (d : Delimiters)
  /-- A template has been parsed; it has so many nodes at its top level. -/
  | parsed (template : Text) (size : Nat)
  /-- The template by this name is read from this file. -/
  | loading (name : Text) (path : Path)
  /-- The template by this name is kept from now on. -/
  | kept (name : Text)
  /-- There is no template by this name, so nothing stands in its place. -/
  | notFound (name : Text)
  /-- A template that will be asked for is not in the folder. -/
  | willBeEmpty (name : Text) (folder : Path)
deriving DecidableEq

namespace Notice

/-- Should everybody see it? -/
def isWarning : Notice → Bool
  | .willBeEmpty .. => true
  | _ => false

/-- What a notice says. -/
def message : Notice → Text
  | .delimitersSet template d =>
    template ++ ": delimiters set to ".toText ++ d.opening ++ [char ' '] ++ d.closing
  | .parsed template size =>
    "parsed template ".toText ++ quoted template ++ ": ".toText ++ (toString size).toText ++
      " top-level nodes".toText
  | .loading name path =>
    "loading template ".toText ++ quoted name ++ " from ".toText ++ path.toText
  | .kept name => "cached template ".toText ++ quoted name
  | .notFound name => "partial ".toText ++ quoted name ++ " not found; rendering nothing".toText
  | .willBeEmpty name folder =>
    "partial ".toText ++ quoted name ++ " not found in ".toText ++ folder.toText ++
      "; it will render empty".toText

/-- A notice as a line. -/
def line (n : Notice) : Text :=
  (if n.isWarning then "[WARNING] ".toText else "[DEBUG] ".toText) ++ n.message ++ [char '\n']

end Notice
end Mustache
