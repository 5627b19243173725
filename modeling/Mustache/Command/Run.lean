import Mustache.Command.Options
import Mustache.Escape
import Mustache.Json.Reader
import Mustache.Json.Writer
import Mustache.Render.Eval
import Mustache.Store.Basic

/-!
# Running the command

The command renders a template file against JSON data. It is a function of its arguments, of the
files and of what stands on its input; it gives what it writes, the files afterwards, and how it
ends.

Most of what can go wrong ends the command with a message and a status of its own. What it is not
prepared for, such as files that are not text and text that cannot be put into bytes, leaves it as a
fault.
-/

namespace Mustache.Command

open Text

/-- What ends the command without a status. -/
inductive Fault where
  /-- A file is not text. -/
  | undecodable (fault : DecodeFault)
  /-- A text that is to be written cannot be put into bytes. -/
  | unencodable (fault : EncodeFault)
  /-- A number in the data is too long. -/
  | data (e : JsonValue.ReadError)
  /-- The output cannot be written, or a path cannot be one. -/
  | access (e : AccessError)
  /-- What has to be read is given without a text to name it. -/
  | noPath
  /-- Templates include each other too deeply. -/
  | tooDeep
deriving DecidableEq, Repr

/-- The message. -/
def Fault.message : Fault → Text
  | .undecodable fault => fault.message
  | .unencodable fault => fault.message
  | .data e => e.message
  | .access e => e.message
  | .noPath => "expected str, bytes or os.PathLike object, not list".toText
  | .tooDeep => RenderFault.message (fun e : Empty => nomatch e) .tooDeep

/-- What the command comes to. -/
structure Outcome where
  /-- The exit status, or the fault that there is none for. -/
  ending : Except Fault Nat
  stdout : Text
  stderr : Text
  files : Files

/-- Why a render is given up. -/
inductive Stop where
  /-- With a message. -/
  | message (s : Text)
  | fault (f : Fault)
deriving DecidableEq, Repr

namespace Stop

/-- A path that cannot be used is worth a message, unless no path can be like it. -/
def ofAccess (e : AccessError) : Stop :=
  match e.fault with
  | .zeroCharacter | .unencodable _ => .fault (.access e)
  | .notFound | .isFolder | .notFolder | .nameTooLong => .message e.message

/-- So is a path that cannot be written to; that the text cannot be put into bytes is a fault. -/
def ofWrite : WriteError → Stop
  | .access e => ofAccess e
  | .unencodable f => .fault (.unencodable f)

/-- So is a template that cannot be had, unless its file is not text. -/
def ofLoad : LoadError → Stop
  | .access e => ofAccess e
  | .undecodable f => .fault (.undecodable f)
  | .parse e => .message e.message

/-- So is data that is not JSON. -/
def ofRead : JsonValue.ReadError → Stop
  | .fault kind place => .message (JsonValue.ReadError.fault kind place).message
  | e => .fault (.data e)

/-- So is a render that fails because a template cannot be had. -/
def ofRender : RenderFault (LoadError ⊕ Empty) → Stop
  | .undecodable f => .fault (.undecodable f)
  | .tooDeep => .fault .tooDeep
  | .escape name cause => .message (RenderFault.escape name cause |>.message describe)
  | .find name cause => .message (RenderFault.find name cause |>.message describe)
where
  /-- The cause in words. -/
  describe : LoadError ⊕ Empty → Text
    | .inl e => e.message

end Stop

/-! ## Rendering a file -/

/-- The data: an empty object, the input, or a file. -/
def obtainData (o : Options) (fs : Files) (stdin : Text) : Except Stop JsonValue :=
  match o.data with
  | none => .ok (.object [])
  | some .nothing => .error (.fault .noPath)
  | some (.text [char '-']) => (JsonValue.ofText stdin).mapError .ofRead
  | some (.text p) =>
    match fs.readText (.ofText p) .utf8 with
    | .error e => .error (.ofLoad e)
    | .ok s => (JsonValue.ofText s).mapError .ofRead

/-- To write the data where that is asked for: what comes of it, and the files afterwards. -/
def keepData (o : Options) (fs : Files) (data : JsonValue) : Except Stop Unit × Files :=
  match o.dataOut with
  | none => (.ok (), fs)
  | some p =>
    let (written, fs) := fs.writeText (.ofText p) data.write
    (written.mapError .ofWrite, fs)

/-- The folder that the templates included by one are loaded from: its own, unless another is given.
-/
def partialsFolder (o : Options) (template : Path) : Path :=
  (o.partials.map Path.ofText).getD template.parent

/-- How values are escaped. -/
def escapeOf (o : Options) : Escape := if o.noEscape then Escape.none else Escape.html

/-- The template rendered against the data, with everything it includes loaded beforehand; and the
notices of it. -/
def renderFile (o : Options) (path : Path) (fs : Files) (data : Value) :
    Except Stop Text × List Notice :=
  let folder := partialsFolder o path
  match fs.readText path .utf8 with
  | .error e => (.error (.ofLoad e), [])
  | .ok source =>
    match (Store.empty (some (.ofFolder folder))).parse (unmarkedName path.name) source with
    | (.error e, s) => (.error (.message e.message), s.notices)
    | (.ok t, s) =>
      match s.loadAll fs t with
      | (.error e, s) => (.error (.ofLoad e), s.notices)
      | (.ok missing, s) =>
        let s := missing.foldl (fun s name => s.note (.willBeEmpty name folder)) s
        let host := Store.host fs fun s => .ok (escapeOf o s)
        let rendering := t.render host data s
        (rendering.result.mapError .ofRender, rendering.host.notices)

/-- What has to be shown of some notices. -/
def report (o : Options) (notices : List Notice) : Text :=
  ((notices.filter fun n => o.verbose || n.isWarning).map Notice.line).flatten

/-- The outcome of a render that is given up. -/
def stopped (stop : Stop) (reported : Text) (fs : Files) : Outcome :=
  match stop with
  | .message s => ⟨.ok 2, [], reported ++ trimEnd s ++ [char '\n'], fs⟩
  | .fault f => ⟨.error f, [], reported, fs⟩

/-- The fault that a write ends the command with, when nothing is prepared for it any more. -/
def Fault.ofWrite : WriteError → Fault
  | .access e => .access e
  | .unencodable fault => .unencodable fault

/-- The outcome of a render: the output goes to a file if that is asked for. The standard output
takes all of a text or, if it cannot be put into bytes, nothing. -/
def finish (o : Options) (output reported : Text) (fs : Files) : Outcome :=
  match o.output with
  | none =>
    match Encoding.encodeUtf8 output with
    | .error fault => ⟨.error (.unencodable fault), [], reported, fs⟩
    | .ok _ => ⟨.ok 0, output, reported, fs⟩
  | some p =>
    let path := Path.ofText p
    match fs.writeText path output with
    | (.error e, fs) => ⟨.error (.ofWrite e), [], reported, fs⟩
    | (.ok (), fs) => ⟨.ok 0, [], reported ++ "Wrote: ".toText ++ path.toText ++ [char '\n'], fs⟩

/-- To render a template file. -/
def renderAt (o : Options) (path : Path) (fs : Files) (stdin : Text) : Outcome :=
  match obtainData o fs stdin with
  | .error stop => stopped stop [] fs
  | .ok data =>
    match keepData o fs data with
    | (.error stop, fs) => stopped stop [] fs
    | (.ok (), fs) =>
      match renderFile o path fs data.toValue with
      | (.error stop, notices) => stopped stop (report o notices) fs
      | (.ok output, notices) => finish o output (report o notices) fs

/-- To render what the options name, if they name a file. -/
def render (o : Options) (fs : Files) (stdin : Text) : Outcome :=
  match o.template with
  | .nothing => stopped (.fault .noPath) [] fs
  | .text p => renderAt o (.ofText p) fs stdin

/-! ## The command -/

/-- The name and version of the command. -/
def versionLine : Text := "mussed 0.1.0\n".toText

/-- How the command is used. -/
def usage : Text :=
  "usage: mussed [-h] --template TEMPLATE [--data DATA] [--output OUTPUT]
              [--partials PARTIALS] [--no-escape] [--data-out DATA_OUT] [-v]
              [--version]
".toText

/-- What its options mean. -/
def helpText : Text :=
  usage ++ "
Render a Mustache template.

options:
  -h, --help           show this help message and exit
  --template TEMPLATE  Path to the Mustache template
  --data DATA          Path to JSON data, or '-' for stdin (default: empty object)
  --output OUTPUT      Path to write rendered output (default: stdout)
  --partials PARTIALS  Directory to look partials up in (default: template's directory)
  --no-escape          Do not HTML-escape \x7b\x7bname\x7d\x7d interpolations
  --data-out DATA_OUT  Optional path to write the decoded JSON data
  -v, --verbose        Log debug output to stderr
  --version            show program's version number and exit
".toText

/-- To run the command. -/
def run (arguments : List Text) (fs : Files) (stdin : Text) : Outcome :=
  match Request.ofArguments arguments with
  | .help => ⟨.ok 0, helpText, [], fs⟩
  | .version => ⟨.ok 0, versionLine, [], fs⟩
  | .wrong fault =>
    ⟨.ok 2, [], usage ++ "mussed: error: ".toText ++ fault.message ++ [char '\n'], fs⟩
  | .render o => render o fs stdin

end Mustache.Command
