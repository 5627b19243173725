import Mustache.Text.Basic

/-!
# Paths

A path is a row of names, from the working folder or from the root. Names that say nothing — the
empty one and the single dot — are left out; a double dot is kept, because what it leads to depends
on the folders that are there.
-/

namespace Mustache

open Text

/-- A path: how it is rooted, and its names. -/
structure Path where
  /-- Nothing, one slash, or two slashes. Exactly two slashes are kept apart from one. -/
  root : Text
  names : List Text
deriving DecidableEq, Repr

namespace Path

/-- The path that a text writes. -/
def ofText (s : Text) : Path where
  root :=
    match (s.takeWhile (· = char '/')).length with
    | 0 => []
    | 2 => [char '/', '/']
    | _ => [char '/']
  names := (pieces (· == '/') s).filter fun (name : Text) => name ≠ [] ∧ name ≠ [char '.']

/-- The path as text; the working folder itself is a dot. -/
def toText (p : Path) : Text :=
  match p.root ++ joinWith ['/'] p.names with
  | [] => [char '.']
  | s => s

/-- Is the path one from the root? -/
def isRooted (p : Path) : Bool := p.root ≠ []

/-- A path sought from a folder. -/
def join (folder p : Path) : Path :=
  if p.isRooted then p else { folder with names := folder.names ++ p.names }

/-- The last name, or nothing. -/
def name (p : Path) : Text := p.names.getLast?.getD []

/-- The path without its last name. -/
def parent (p : Path) : Path := { p with names := p.names.dropLast }

end Path
end Mustache
