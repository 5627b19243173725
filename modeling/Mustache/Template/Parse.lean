import Mustache.Template.Basic
import Mustache.Template.Stream

/-!
# Parsing

The tree of a template is built by going through its tokens with the blocks that are still open.
Text runs with nothing between them become one text; comments and set-delimiter tags leave no node.

## Main statements

* `Template.parse` gives the template or the report of its first flaw, which is
  `Template.parse_error_template`: the report names the template.
-/

namespace Mustache

/-- A block that is still open: its tag, and the nodes before it, the latest first. -/
structure OpenBlock where
  tag : Tag
  before : List Node
deriving DecidableEq, Repr

/-- A tree under construction: the nodes at the place reached, the latest first, and the open
blocks, the innermost first. -/
structure Builder where
  nodes : List Node
  blocks : List OpenBlock
deriving DecidableEq, Repr

namespace Builder

/-- Nothing read yet. -/
def empty : Builder := ⟨[], []⟩

/-- With one more node. -/
def add (n : Node) (b : Builder) : Builder := { b with nodes := n :: b.nodes }

/-- With more text, which joins on to text just before it. -/
def addText (s : Text) (b : Builder) : Builder :=
  match b.nodes with
  | .text t :: nodes => { b with nodes := .text (t ++ s) :: nodes }
  | _ => b.add (.text s)

/-- With a block opened. -/
def openBlock (tag : Tag) (b : Builder) : Builder := ⟨[], ⟨tag, b.nodes⟩ :: b.blocks⟩

/-- With the innermost block closed, if that is what the tag closes. -/
def closeBlock (tag : Tag) (b : Builder) : Except Flaw Builder :=
  match b.blocks with
  | [] => .error ⟨.strayClose tag.name none, tag.start⟩
  | ⟨opened, before⟩ :: blocks =>
    if opened.name = tag.name then
      .ok ⟨.block opened.name (opened.kind = .openInverted) b.nodes.reverse :: before, blocks⟩
    else .error ⟨.strayClose tag.name (some opened.name), tag.start⟩

/-- With one more token read. -/
def feed (b : Builder) : Token → Except Flaw Builder
  | .run r => .ok (b.addText r.text)
  | .tag t =>
    match t.kind with
    | .interpolate => .ok (b.add (.interpolate t.name true))
    | .interpolateRaw => .ok (b.add (.interpolate t.name false))
    | .openBlock | .openInverted => .ok (b.openBlock t)
    | .closeBlock => b.closeBlock t
    | .inclusion => .ok (b.add (.inclusion t.name t.indentation t.isStandalone))
    | .comment | .delimiters => .ok b

/-- With all tokens read, or the flaw of the first that does not fit. -/
def feedAll (b : Builder) : List Token → Except Flaw Builder
  | [] => .ok b
  | t :: ts =>
    match b.feed t with
    | .ok b => b.feedAll ts
    | .error flaw => .error flaw

/-- The tokens read before the first that does not fit. -/
def accepted (b : Builder) : List Token → List Token
  | [] => []
  | t :: ts =>
    match b.feed t with
    | .ok b => t :: b.accepted ts
    | .error _ => []

/-- The finished tree; no block may be open. -/
def finish (b : Builder) : Except Flaw (List Node) :=
  match b.blocks with
  | [] => .ok b.nodes.reverse
  | ⟨opened, _⟩ :: _ => .error ⟨.unclosedBlock opened.name, opened.start⟩

end Builder

/-- The tree that a row of tokens writes. The flaw that shows first counts: one of the tokens comes
before the one that stops the reading, and that before a block left open at the end. -/
def Stream.build (stream : Stream) : Except Flaw (List Node) :=
  match Builder.empty.feedAll stream.tokens with
  | .error flaw => .error flaw
  | .ok b =>
    match stream.flaw with
    | some flaw => .error flaw
    | none => b.finish

/-- The pairs that come into force while a row of tokens is read, up to its first flaw. -/
def Stream.switches (stream : Stream) : List Delimiters :=
  (Builder.empty.accepted stream.tokens).filterMap fun
    | .tag t => if t.kind = .delimiters then (Delimiters.ofBody t.name).toOption else none
    | .run _ => none

namespace Template

/-- The template that a source writes, when its first tags are written with the pair `d`. -/
def parse (name source : Text) (d : Delimiters) : Except ParseError Template :=
  match (Stream.ofSource source d 0).build with
  | .ok root => .ok ⟨name, root⟩
  | .error flaw => .error (.ofFlaw (some name) source flaw)

theorem parse_error_template {name source : Text} {d : Delimiters} {e : ParseError}
    (h : parse name source d = .error e) : e.template = some name := by
  unfold parse at h
  split at h
  · cases h
  · cases h
    rfl

end Template
end Mustache
