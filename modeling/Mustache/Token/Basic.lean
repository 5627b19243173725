import Mustache.Text.Basic

/-!
# Tokens

A template is a row of text runs and tags. A tag knows the offsets it covers, what kind it is, and
whether it has its line to itself.

## Main statements

* `Tag.stop_le_next` — reading goes on at or after the end of a tag, when the line the tag owns
  ends no earlier.
-/

namespace Mustache

/-- What a tag is for. -/
inductive TagKind where
  /-- The value of a name, escaped. -/
  | interpolate
  /-- The value of a name, as it is. -/
  | interpolateRaw
  /-- The beginning of a block that is kept for what is there. -/
  | openBlock
  /-- The beginning of a block that is kept for what is not there. -/
  | openInverted
  /-- The end of a block. -/
  | closeBlock
  /-- A remark without effect. -/
  | comment
  /-- The place where another template is put in. -/
  | inclusion
  /-- The change to another pair of delimiters. -/
  | delimiters
deriving DecidableEq, Repr

namespace TagKind

/-- The kind that the first character of a tag's content asks for. -/
def ofSigil? : CodePoint → Option TagKind
  | char '#' => some openBlock
  | char '^' => some openInverted
  | char '/' => some closeBlock
  | char '!' => some comment
  | char '>' => some inclusion
  | char '=' => some delimiters
  | char '&' => some interpolateRaw
  | char '{' => some interpolateRaw
  | _ => none

/-- Does a tag of this kind take its line with it when nothing else is on the line? Interpolated
values never do. -/
def ownsLine : TagKind → Bool
  | interpolate | interpolateRaw => false
  | _ => true

end TagKind

/-- The line that a tag has to itself. -/
structure OwnLine where
  /-- Where the line begins. -/
  lineStart : Nat
  /-- The spaces and tabs before the tag. -/
  padding : Text
  /-- Where the next line begins, or the end of the source. -/
  resume : Nat
deriving DecidableEq, Repr

/-- A tag of a template. -/
structure Tag where
  kind : TagKind
  /-- What stands between the delimiters, trimmed. -/
  content : Text
  /-- The content without the character that shows the kind, trimmed again. -/
  name : Text
  /-- The offset of the opening delimiter. -/
  start : Nat
  /-- The offset just past the closing delimiter. -/
  stop : Nat
  /-- The line the tag has to itself, once that has been looked for and found. -/
  ownLine : Option OwnLine
deriving DecidableEq, Repr

namespace Tag

/-- Does the tag have its line to itself? -/
def isStandalone (t : Tag) : Bool := t.ownLine.isSome

/-- The padding that an included template inherits; other tags have none to hand on. -/
def indentation (t : Tag) : Text :=
  match t.kind, t.ownLine with
  | .inclusion, some line => line.padding
  | _, _ => []

/-- Where reading goes on after the tag. -/
def next (t : Tag) : Nat :=
  match t.ownLine with
  | some line => line.resume
  | none => t.stop

theorem stop_le_next {t : Tag} (h : ∀ line, t.ownLine = some line → t.stop ≤ line.resume) :
    t.stop ≤ t.next := by
  unfold next
  split
  · next line hl => exact h line hl
  · exact Nat.le_refl _

end Tag

/-- A stretch of text without a tag. -/
structure Run where
  text : Text
  start : Nat
deriving DecidableEq, Repr

namespace Run

/-- The offset just past the run. -/
def stop (r : Run) : Nat := r.start + r.text.length

/-- The part of the run at or after an offset. -/
def after (p : Nat) (r : Run) : Run :=
  if r.start < p then ⟨r.text.drop (p - r.start), p⟩ else r

/-- The part of the run before an offset. When the offset lies before the run, the distance is
counted from the end of the run instead. -/
def before (p : Nat) (r : Run) : Run := { r with text := r.text.upTo ((p : Int) - r.start) }

end Run

/-- A piece of a template: text or a tag. -/
inductive Token where
  | run (r : Run)
  | tag (t : Tag)
deriving DecidableEq, Repr

namespace Token

/-- The offset of the first character. -/
def start : Token → Nat
  | run r => r.start
  | tag t => t.start

/-- The offset just past the last character. -/
def stop : Token → Nat
  | run r => r.stop
  | tag t => t.stop

end Token

/-- A run as tokens: none when it is empty. -/
def Run.tokens (r : Run) : List Token := if r.text = [] then [] else [.run r]

end Mustache
