import Mustache.Text.Blank
import Mustache.Text.Digit

/-!
# The options of the command

The words of a command line are first told apart: options, with or without a value attached, and
operands. Then they are gone through in order. The name of a long option may be shortened as long as
no other option begins the same way. Options of a single letter, none of which takes a value, may be
written together; an equals sign after the first letter changes nothing.
-/

namespace Mustache.Command

open Text

/-- An option. -/
inductive OptionKind where
  | help
  | template
  | data
  | output
  | partials
  | noEscape
  | dataOut
  | verbose
  | version
deriving DecidableEq, Repr

namespace OptionKind

/-- All names of options. -/
def names : List (Text × OptionKind) :=
  [("-h".toText, help), ("--help".toText, help), ("--template".toText, template),
    ("--data".toText, data), ("--output".toText, output), ("--partials".toText, partials),
    ("--no-escape".toText, noEscape), ("--data-out".toText, dataOut), ("-v".toText, verbose),
    ("--verbose".toText, verbose), ("--version".toText, version)]

/-- Is the option followed by a value? -/
def takesValue : OptionKind → Bool
  | template | data | output | partials | dataOut => true
  | help | noEscape | verbose | version => false

/-- The option by exactly this name. -/
def named? (name : Text) : Option OptionKind :=
  (names.find? fun (n, _) => n = name).map (·.2)

/-- The option that a letter stands for. -/
def ofLetter? (letter : CodePoint) : Option OptionKind := named? ['-', letter]

end OptionKind

/-! ## Words -/

/-- What a word of the command line is. -/
inductive Word where
  | operand (s : Text)
  /-- Two hyphens: all words after them are operands. -/
  | separator
  /-- An option, with the value attached to it. -/
  | option (kind : OptionKind) (attached : Option Text)
  /-- Several letters written together, each for an option. -/
  | letters (s : Text)
  /-- Something that looks like an option and is none. -/
  | unknown
deriving DecidableEq, Repr

namespace Word

/-- A word in two at its first equals sign. -/
def atEquals (s : Text) : Text × Option Text :=
  match cut? ['='] s with
  | some (name, value) => (name, some value)
  | none => (s, none)

/-- The option of a name with something attached. What is attached to a letter is more letters,
unless it is empty. -/
def attach (name : Text) (kind : OptionKind) (attached : Option Text) : Word :=
  match name, attached with
  | [char '-', letter], some (c :: more) => .letters (letter :: c :: more)
  | _, _ => .option kind attached

/-- The options that a word may stand for whose name is not the whole of it up to an equals sign:
those that a long name is short for, and the one whose letter comes first. -/
def candidates (s : Text) : List Word :=
  if s.take 2 = [char '-', '-'] then
    let (name, attached) := atEquals s
    (OptionKind.names.filter fun (n, _) => name.isPrefixOf n).map fun (n, kind) =>
      attach n kind attached
  else
    (OptionKind.named? (s.take 2)).toList.map fun kind =>
      attach (s.take 2) kind (some (s.drop 2))

/-- Does a word write a negative number? -/
def isNegativeNumber (s : Text) : Bool :=
  let allDigits (t : Text) : Bool := t.all fun c => (digit? c).isSome
  let s := if s.getLast? = some (char '\n') then s.dropLast else s
  match s with
  | char '-' :: s =>
    (s ≠ [] && allDigits s) ||
      match cut? ['.'] s with
      | some (whole, fraction) => allDigits whole && fraction ≠ [] && allDigits fraction
      | none => false
  | _ => false

/-- What a word is; nothing when it is short for several options. -/
def classify? (s : Text) : Option Word :=
  if s.head? ≠ some (char '-') then some (.operand s)
  else
    match OptionKind.named? s with
    | some kind => some (.option kind none)
    | none =>
      if s = [char '-'] then some (.operand s)
      else
        let (name, attached) := atEquals s
        match OptionKind.named? name with
        | some kind => some (attach name kind attached)
        | none =>
          match candidates s with
          | [] =>
            if isNegativeNumber s ∨ char ' ' ∈ s then some (.operand s) else some .unknown
          | [w] => some w
          | _ => none

/-- What the words are; nothing when one of them is short for several options. -/
def classifyAll? : List Text → Option (List Word)
  | [] => some []
  | s :: rest =>
    if s = [char '-', '-'] then some (.separator :: rest.map .operand)
    else
      match classify? s with
      | none => none
      | some w => (classifyAll? rest).map (w :: ·)

end Word

/-! ## Requests -/

/-- The value of an option. -/
inductive Argument where
  | text (s : Text)
  /-- What two hyphens attached to an option stand for: it is given, and has no text. -/
  | nothing
deriving DecidableEq, Repr

namespace Argument

/-- The value that a text attached to an option stands for. -/
def ofAttached (s : Text) : Argument := if s = [char '-', '-'] then .nothing else .text s

/-- The text of a value, if it has one that is not empty. -/
def content? : Argument → Option Text
  | .text (c :: s) => some (c :: s)
  | .text [] | .nothing => none

end Argument

/-- What is to be rendered, and how. Where to write and where to find included templates is left
open if what is given for it is empty. -/
structure Options where
  template : Argument
  data : Option Argument
  output : Option Text
  partials : Option Text
  noEscape : Bool
  dataOut : Option Text
  verbose : Bool
deriving DecidableEq, Repr

/-- What is wrong with a command line. -/
inductive UsageFault where
  | ambiguous
  | valueExpected
  | valueNotExpected
  | templateRequired
  | unrecognized
deriving DecidableEq, Repr

/-- The message. -/
def UsageFault.message : UsageFault → Text
  | .ambiguous => "an option may be short for several".toText
  | .valueExpected => "expected one argument".toText
  | .valueNotExpected => "ignored explicit argument".toText
  | .templateRequired => "the following arguments are required: --template".toText
  | .unrecognized => "unrecognized arguments".toText

/-- What a command line asks for. -/
inductive Request where
  | help
  | version
  | render (o : Options)
  | wrong (fault : UsageFault)
deriving DecidableEq, Repr

/-- The options gathered so far, and whether there have been words that are none. -/
structure Gathered where
  values : List (OptionKind × Argument)
  flags : List OptionKind
  stray : Bool
deriving DecidableEq, Repr

namespace Gathered

/-- The value of an option: of several, the last. -/
def value? (g : Gathered) (kind : OptionKind) : Option Argument :=
  (g.values.find? fun (k, _) => k = kind).map (·.2)

/-- The text of that value, if there is one that is not empty. -/
def content? (g : Gathered) (kind : OptionKind) : Option Text :=
  (g.value? kind).bind Argument.content?

/-- The request, when all words have been gone through. -/
def request (g : Gathered) : Request :=
  match g.value? .template with
  | none => .wrong .templateRequired
  | some template =>
    if g.stray then .wrong .unrecognized
    else .render ⟨template, g.value? .data, g.content? .output, g.content? .partials,
      .noEscape ∈ g.flags, g.content? .dataOut, .verbose ∈ g.flags⟩

end Gathered

namespace Request

/-- The options with those without a value set, or the request that one of them ends with. -/
def setFlags (g : Gathered) : List OptionKind → Gathered ⊕ Request
  | [] => .inl g
  | .help :: _ => .inr .help
  | .version :: _ => .inr .version
  | kind :: kinds => setFlags { g with flags := kind :: g.flags } kinds

/-- The request of some words, when these options have been gathered before them. Letters written
together count only if each of them stands for an option. -/
def ofWords (g : Gathered) : List Word → Request
  | [] => g.request
  | .operand _ :: ws | .separator :: ws | .unknown :: ws => ofWords { g with stray := true } ws
  | .option kind attached :: ws =>
    if kind.takesValue then
      match attached, ws with
      | some s, ws => ofWords { g with values := (kind, .ofAttached s) :: g.values } ws
      | none, .operand s :: ws => ofWords { g with values := (kind, .text s) :: g.values } ws
      | none, _ => .wrong .valueExpected
    else if attached.isSome then .wrong .valueNotExpected
    else
      match setFlags g [kind] with
      | .inl g => ofWords g ws
      | .inr r => r
  | .letters s :: ws =>
    match s.mapM OptionKind.ofLetter? with
    | none => .wrong .valueNotExpected
    | some kinds =>
      match setFlags g kinds with
      | .inl g => ofWords g ws
      | .inr r => r

/-- What a command line asks for. -/
def ofArguments (arguments : List Text) : Request :=
  match Word.classifyAll? arguments with
  | none => .wrong .ambiguous
  | some ws => ofWords ⟨[], [], false⟩ ws

end Request
end Mustache.Command
