import Mustache.Command.Reach

/-!
# The command

The outer layer of the command: it gets the files that a run looks at, has the run done, writes what
it writes, and exits with its status.
-/

namespace Mustache.Command

open Text

/-- The path that the system knows a location by. -/
def systemPath (l : Location) : String := String.ofText (char '/' :: joinWith ['/'] l)

/-- The files with what the system has at a location. -/
def fetchLocation (fs : Files) (l : Location) : IO Files := do
  let p := (← IO.currentDir) / systemPath l
  if ← p.isDir then
    return { fs with entries := Table.insert l .folder fs.entries }
  else if ← p.pathExists then
    let bytes ← IO.FS.readBinFile p
    return { fs with entries := Table.insert l (.file bytes.toList) fs.entries }
  else return fs

/-- The files with what the system has at a path, and on the way to it. -/
def fetch (fs : Files) (p : Path) : IO Files := do
  let mut fs := fs
  for n in List.range (p.names.length + 1) do
    match fs.locate { p with names := p.names.take n } with
    | .ok l => fs ← fetchLocation fs l
    | .error _ => pure ()
  return fs

/-- The files with all that a render looks at. -/
partial def fetchAll (o : Options) (known : List Path) (fs : Files) : IO Files := do
  match (paths o fs).filter fun p => p ∉ known with
  | [] => return fs
  | new => fetchAll o (new ++ known) (← new.foldlM fetch fs)

/-- To write the files that a run has written. -/
def store (before after : Files) : IO Unit := do
  for (l, e) in after.entries do
    match e with
    | .folder => pure ()
    | .file bytes =>
      if before.entryAt l ≠ some e then
        IO.FS.writeBinFile (systemPath l) (ByteArray.mk bytes.toArray)

/-- A text for the standard error, where surrogates are shown by their numbers. -/
def shown (s : Text) : String :=
  String.ofText <| s.flatMap fun c => if c.isSurrogate then numericEscape c.toNat else [c]

/-- The input as text. -/
def readInput : IO Text := do
  let input ← (← IO.getStdin).readToEnd
  return unifyLineEnds input.toText

/-- To do what the arguments ask for; the result is the exit status. -/
def perform (arguments : List Text) : IO UInt32 := do
  let workingFolder := (pieces (· == '/') (← IO.currentDir).toString.toText).filter (· ≠ [])
  let nothing : Files := ⟨[], workingFolder⟩
  let (fs, input) ← match Request.ofArguments arguments with
    | .render o => do
      let input ← if readsInput o then readInput else pure []
      pure (← fetchAll o [] nothing, input)
    | _ => pure (nothing, [])
  let outcome := run arguments fs input
  store fs outcome.files
  (← IO.getStdout).putStr (String.ofText outcome.stdout)
  (← IO.getStderr).putStr (shown outcome.stderr)
  match outcome.ending with
  | .ok status => return status.toUInt32
  | .error fault =>
    (← IO.getStderr).putStr (shown (fault.message ++ [char '\n']))
    return 1

end Mustache.Command

/-- The command. -/
def main (arguments : List String) : IO UInt32 :=
  Mustache.Command.perform (arguments.map String.toText)
