import Mathlib.Data.List.Forall2
import Mustache.Template.Parse

/-!
# Texts that are split

Runs with nothing but a remark between them come to stand next to each other, and are joined while
the tree is built. It can be built without joining them, every run with a node of its own. The trees
differ in no more than this: in the one without joining, texts of the other are split into texts in
a row (`Node.Split`).

* `Node.Split.append`, `Node.Split.concat_text` — splitting goes through putting rows together
* `Template.parse_split` — what parsing without joining comes to
-/

namespace Mustache

/-! ## Rows of nodes -/

namespace Node

/-- `Split ns ns'`: texts of the first row of nodes, at any depth, are split in the second one, each
into any number of texts in a row; an empty one may be split into none. -/
inductive Split : List Node → List Node → Prop
  | nil : Split [] []
  | leaf {n : Node} {ns ns' : List Node} (inside : n.children = []) (rest : Split ns ns') :
      Split (n :: ns) (n :: ns')
  | block {name : Text} {inverted : Bool} {body body' ns ns' : List Node}
      (inside : Split body body') (rest : Split ns ns') :
      Split (.block name inverted body :: ns) (.block name inverted body' :: ns')
  | text (parts : List Text) {ns ns' : List Node} (rest : Split ns ns') :
      Split (.text parts.flatten :: ns) (parts.map .text ++ ns')

namespace Split

mutual

/-- A node may stay as it is. -/
theorem cons (n : Node) {ns ns' : List Node} (h : Split ns ns') : Split (n :: ns) (n :: ns') := by
  match n with
  | .text _ | .interpolate .. | .inclusion .. => exact .leaf rfl h
  | .block _ _ body => exact .block (Split.refl body) h
termination_by structural n

/-- All nodes may stay as they are. -/
theorem refl (ns : List Node) : Split ns ns := by
  match ns with
  | [] => exact .nil
  | n :: ns => exact Split.cons n (Split.refl ns)
termination_by structural ns

end

variable {ms ms' ns ns' : List Node}

theorem append (h : Split ms ms') (h' : Split ns ns') : Split (ms ++ ns) (ms' ++ ns') := by
  induction h with
  | nil => exact h'
  | leaf inside _ ih => exact .leaf inside ih
  | block inside _ _ ih => exact .block inside ih
  | text parts _ ih =>
    rw [List.append_assoc]
    exact .text parts ih

/-- **One text may be split in two**, whatever stands around it. -/
theorem middle (ms : List Node) (s t : Text) (ns : List Node) :
    Split (ms ++ .text (s ++ t) :: ns) (ms ++ .text s :: .text t :: ns) := by
  have hpair : Split (.text [s, t].flatten :: ns) ([s, t].map .text ++ ns) := .text _ (refl ns)
  rw [List.flatten_cons, List.flatten_singleton] at hpair
  exact (refl ms).append hpair

/-- The same inside a block. -/
theorem inside (ms : List Node) (name : Text) (inverted : Bool) {body body' : List Node}
    (h : Split body body') (ns : List Node) :
    Split (ms ++ .block name inverted body :: ns) (ms ++ .block name inverted body' :: ns) :=
  (refl ms).append (.block h (refl ns))

/-- More text behind the last one may be joined to it or not. -/
theorem concat_text {t : Text} (h : Split (ns ++ [.text t]) ns') (s : Text) :
    Split (ns ++ [.text (t ++ s)]) (ns' ++ [.text s]) := by
  generalize hms : ns ++ [.text t] = ms at h
  induction h generalizing ns t with
  | nil => simp at hms
  | leaf inside rest ih =>
    cases ns with
    | nil =>
      cases hms
      cases rest
      exact middle [] t s []
    | cons n ns =>
      cases hms
      exact .leaf inside (ih rfl)
  | block inside rest _ ih =>
    cases ns with
    | nil => cases hms
    | cons n ns =>
      cases hms
      exact .block inside (ih rfl)
  | text parts rest ih =>
    cases ns with
    | nil =>
      cases hms
      cases rest
      have hparts : Split [.text (parts ++ [s]).flatten] ((parts ++ [s]).map .text ++ []) :=
        .text _ .nil
      rw [List.flatten_append, List.flatten_singleton, List.map_append] at hparts
      simpa using hparts
    | cons n ns =>
      cases hms
      rw [List.append_assoc]
      exact .text parts (ih rfl)

end Split
end Node

/-! ## Building without joining -/

/-- Both fail in the same way, or both succeed with results that are related. -/
inductive EndsAlike {ε α β : Type} (R : α → β → Prop) : Except ε α → Except ε β → Prop
  | ok {a : α} {b : β} (related : R a b) : EndsAlike R (.ok a) (.ok b)
  | error (e : ε) : EndsAlike R (.error e) (.error e)

theorem EndsAlike.toOption {ε α β : Type} {R : α → β → Prop} {x : Except ε α} {y : Except ε β}
    (h : EndsAlike R x y) : Option.Rel R x.toOption y.toOption := by
  cases h with
  | ok related => exact .some related
  | error e => exact .none

/-- The blocks have the same tag, and texts before the second one are split. -/
structure OpenBlock.Split (o o' : OpenBlock) : Prop where
  tag : o.tag = o'.tag
  before : Node.Split o.before.reverse o'.before.reverse

namespace Builder

/-- With one more token read; every run gets a node of its own. -/
def feedUnjoined (b : Builder) : Token → Except Flaw Builder
  | .run r => .ok (b.add (.text r.text))
  | .tag t => b.feed (.tag t)

/-- Texts that have been joined in the first tree are split in the second one. -/
structure Split (b b' : Builder) : Prop where
  nodes : Node.Split b.nodes.reverse b'.nodes.reverse
  blocks : List.Forall₂ OpenBlock.Split b.blocks b'.blocks

namespace Split

variable {b b' : Builder}

theorem empty : Split empty empty := ⟨.nil, .nil⟩

theorem add (h : b.Split b') (n : Node) : (b.add n).Split (b'.add n) := by
  refine ⟨?_, h.blocks⟩
  simp only [Builder.add, List.reverse_cons]
  exact h.nodes.append (.refl [n])

/-- **A run may be joined to the text before it or get a node of its own.** -/
theorem addText (h : b.Split b') (s : Text) : (b.addText s).Split (b'.add (.text s)) := by
  unfold Builder.addText
  split
  · next t nodes hnodes =>
    have hsplit := h.nodes
    rw [hnodes, List.reverse_cons] at hsplit
    refine ⟨?_, h.blocks⟩
    simp only [Builder.add, List.reverse_cons]
    exact hsplit.concat_text s
  · exact h.add (.text s)

theorem openBlock (h : b.Split b') (tag : Tag) : (b.openBlock tag).Split (b'.openBlock tag) :=
  ⟨.nil, .cons ⟨rfl, h.nodes⟩ h.blocks⟩

theorem closeBlock (h : b.Split b') (tag : Tag) :
    EndsAlike Split (b.closeBlock tag) (b'.closeBlock tag) := by
  obtain ⟨nodes, blocks⟩ := b
  obtain ⟨nodes', blocks'⟩ := b'
  obtain ⟨hnodes, hblocks⟩ := h
  unfold Builder.closeBlock
  cases hblocks with
  | nil => exact .error _
  | @cons o o' blocks blocks' hblock hblocks =>
    obtain ⟨opened, before⟩ := o
    obtain ⟨opened', before'⟩ := o'
    obtain ⟨rfl, hbefore⟩ := hblock
    simp only []
    split
    · refine .ok ⟨?_, hblocks⟩
      simp only [List.reverse_cons]
      exact hbefore.append (.block hnodes .nil)
    · exact .error _

theorem feed (h : b.Split b') (t : Token) :
    EndsAlike Split (b.feed t) (b'.feedUnjoined t) := by
  cases t with
  | run r => exact .ok (h.addText r.text)
  | tag t =>
    cases hk : t.kind <;> simp only [feedUnjoined, Builder.feed, hk]
    case interpolate | interpolateRaw | inclusion => exact .ok (h.add _)
    case openBlock | openInverted => exact .ok (h.openBlock t)
    case closeBlock => exact h.closeBlock t
    case comment | delimiters => exact .ok h

theorem feedAll (h : b.Split b') (ts : List Token) :
    EndsAlike Split (b.feedAll ts) (ts.foldlM feedUnjoined b') := by
  induction ts generalizing b b' with
  | nil => exact .ok h
  | cons t ts ih =>
    have hfeed := h.feed t
    rw [Builder.feedAll, List.foldlM_cons]
    generalize b.feed t = r at hfeed ⊢
    generalize b'.feedUnjoined t = r' at hfeed ⊢
    cases hfeed with
    | ok hnext => exact ih hnext
    | error flaw => exact .error flaw

theorem finish (h : b.Split b') : EndsAlike Node.Split b.finish b'.finish := by
  obtain ⟨nodes, blocks⟩ := b
  obtain ⟨nodes', blocks'⟩ := b'
  obtain ⟨hnodes, hblocks⟩ := h
  cases hblocks with
  | nil => exact .ok hnodes
  | @cons o o' _ _ hblock _ =>
    obtain ⟨opened, before⟩ := o
    obtain ⟨opened', before'⟩ := o'
    obtain ⟨rfl, -⟩ := hblock
    exact .error _

end Split
end Builder

/-- The tree that a row of tokens writes when no texts are joined. -/
def Stream.buildUnjoined (stream : Stream) : Except Flaw (List Node) :=
  match stream.tokens.foldlM Builder.feedUnjoined .empty with
  | .error flaw => .error flaw
  | .ok b =>
    match stream.flaw with
    | some flaw => .error flaw
    | none => b.finish

theorem Stream.build_split (s : Stream) : EndsAlike Node.Split s.build s.buildUnjoined := by
  have hfeed := Builder.Split.empty.feedAll s.tokens
  unfold build buildUnjoined
  generalize Builder.empty.feedAll s.tokens = r at hfeed ⊢
  generalize s.tokens.foldlM Builder.feedUnjoined .empty = r' at hfeed ⊢
  cases hfeed with
  | error flaw => exact .error flaw
  | ok hb =>
    cases s.flaw with
    | some flaw => exact .error flaw
    | none => exact hb.finish

namespace Template

/-- The template that a source writes when no texts are joined. -/
def parseUnjoined (name source : Text) (d : Delimiters) : Except ParseError Template :=
  match (Stream.ofSource source d 0).buildUnjoined with
  | .ok root => .ok ⟨name, root⟩
  | .error flaw => .error (.ofFlaw (some name) source flaw)

/-- Texts of the first template are split in the second one. -/
def Split (t t' : Template) : Prop := Node.Split t.root t'.root

/-- **Without joining a source is parsed alike, but for texts that are split.** -/
theorem parse_split (name source : Text) (d : Delimiters) :
    EndsAlike Split (parse name source d) (parseUnjoined name source d) := by
  have hbuild := (Stream.ofSource source d 0).build_split
  unfold parse parseUnjoined
  generalize (Stream.ofSource source d 0).build = r at hbuild ⊢
  generalize (Stream.ofSource source d 0).buildUnjoined = r' at hbuild ⊢
  cases hbuild with
  | ok hroot => exact .ok hroot
  | error flaw => exact .error _

end Template
end Mustache
