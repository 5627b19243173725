import Mustache.Proofs.Render.Lined
import Mustache.Proofs.Template.Indented

/-!
# Rendering an indented template

There are two ways to indent what a template writes. An indentation can be in force while the
template is rendered: the sink then puts it in front of each line of text, and in front of a value
that begins a line. Or it can be put into the template beforehand (`Node.indentAll`), which is then
rendered without any. For nodes in lines the two come to the same.

Inclusions need no more than their own step: on both ways an included template is rendered with the
same indentation, that of the inclusion with the one in force.

* `evalNode_indent` — one node, in front of whatever follows
* `eval_indentAll` — nodes in lines, at any depth of inclusion
-/

namespace Mustache

open Text
open RenderState (At)

/-! ## Sinks -/

namespace Sink

variable {indentation : Text} {b : Bool} {o o' : Sink}

theorem lineBegins_writeIndentation (hi : isPadding indentation = true) (o : Sink) :
    (o.writeIndentation indentation).lineBegins =
      lineBeginsAfter o.lineBegins (lead indentation o.lineBegins) := by
  cases hl : o.lineBegins with
  | false => rw [writeIndentation_of_not_begins hl, hl]; rfl
  | true =>
    by_cases hne : indentation = []
    · rw [hne]
      unfold writeIndentation
      rw [if_neg fun h => h.1 rfl, hl]
      rfl
    · unfold writeIndentation
      rw [if_pos ⟨hne, hl⟩]
      exact (lineBeginsAfter_of_notMem hne (lineFeed_notMem_indentation hi) true).symm

/-- Indented text may be written, or text that is indented. -/
theorem Alike.indentText (h : o.Alike o') (hat : o.At indentation b) (s : Text) :
    (o.writeText indentation s).Alike (o'.writeText [] (indentBefore indentation b s)) := by
  rw [← hat.indentBefore_eq]
  constructor
  · rw [toText_writeText, toText_writeText, indentBefore_nil, h.text]
  · rw [lineBegins_writeText, lineBegins_writeText, ← h.line, lineBeginsAfter_indentBefore]

/-- An indentation may be written as text. -/
theorem Alike.indentLine (hi : isPadding indentation = true) (h : o.Alike o')
    (hat : o.At indentation b) :
    (o.writeIndentation indentation).Alike (o'.writeText [] (lead indentation b)) := by
  rw [← hat.lead_eq]
  constructor
  · rw [toText_writeIndentation, toText_writeText, indentBefore_nil, h.text]
  · rw [lineBegins_writeIndentation hi, lineBegins_writeText, ← h.line]

/-- Two texts may be written as one. -/
theorem Alike.joinText (h : o.Alike o') (s t : Text) :
    ((o.writeText [] s).writeText [] t).Alike (o'.writeText [] (s ++ t)) := by
  constructor
  · simp only [toText_writeText, indentBefore_nil, h.text, List.append_assoc]
  · simp only [lineBegins_writeText, h.line, lineBeginsAfter_append]

end Sink

/-! ## Steps -/

section

variable {σ ε : Type} {host : Host σ ε} {expand : List Node → Context → Text → Step σ ε}
  {kept : σ → Prop} {indentation : Text}

/-- Without an indentation there is none to write. -/
theorem Step.write_writeIndentation_nil :
    (write (·.writeIndentation []) : Step σ ε) = skip := by
  funext s
  have hnone : s.sink.writeIndentation [] = s.sink := if_neg fun h => h.1 rfl
  simp only [write, skip, hnone]

/-- Text put in front of nodes is written before them. -/
theorem evalNodes_pushText (hrespects : ∀ ns c indentation, (expand ns c indentation).Respects)
    (s : Text) (ns : List Node) (c : Context) :
    Step.Agrees (fun _ => True)
      ((Step.write (·.writeText [] s)).andThen (evalNodes host expand ns c []))
      (evalNodes host expand (Node.pushText s ns) c []) := by
  have hnodes (ns : List Node) : (evalNodes host expand ns c []).Respects :=
    evalNodes_respects host hrespects ns c []
  unfold Node.pushText
  by_cases hs : s = []
  · rw [if_pos hs, hs]
    exact hnodes ns
  · rw [if_neg hs]
    split
    · next t rest =>
      rw [evalNodes, evalNode, ← Step.andThen_assoc, evalNodes, evalNode]
      refine .andThen (fun st st' hst _ => ?_) .anything (hnodes rest)
      exact ⟨⟨hst.sink.joinText s t, hst.host⟩, rfl⟩
    · rw [evalNodes, evalNode]
      exact (Step.Agrees.write fun _ _ hst _ => hst.writeText [] s).andThen .anything (hnodes ns)

/-! ## Nodes -/

/-- What the rendering of included templates is known for. -/
structure Expands (kept : σ → Prop) (expand : List Node → Context → Text → Step σ ε) : Prop where
  respects : ∀ ns c indentation, (expand ns c indentation).Respects
  ensures : ∀ ns c indentation, Node.Lined ns true →
    Step.Ensures (At kept indentation true) (expand ns c indentation) (At kept indentation true)

mutual

/-- **An indentation in force and one put into the node beforehand come to the same**, whatever
follows the node. -/
theorem evalNode_indent (hi : isPadding indentation = true) (hl : host.Lined kept)
    (hexpand : Expands kept expand) (n : Node) (c : Context) {b : Bool} (h : n.Fits b)
    {f : Step σ ε} {rest : List Node}
    (hf : Step.Agrees (At kept indentation (n.lineBegins b)) f (evalNodes host expand rest c [])) :
    Step.Agrees (At kept indentation b) ((evalNode host expand n c indentation).andThen f)
      (evalNodes host expand (Node.indent indentation n b rest) c []) := by
  have hensures : Step.Ensures (At kept indentation b) (evalNode host expand n c indentation)
      (At kept indentation (n.lineBegins b)) := evalNode_ensures hl hexpand.ensures n c h
  match n with
  | .text s =>
    have hwrite : Step.Agrees (At kept indentation b)
        (evalNode host expand (.text s) c indentation)
        (.write (·.writeText [] (indentBefore indentation b s))) := by
      rw [evalNode]
      exact .write fun _ _ hst hat => hst.indentText hat.sink s
    rw [Node.indent]
    -- the indented text joins on to text that follows
    exact (hwrite.andThen hensures hf).trans (evalNodes_pushText hexpand.respects _ rest c)
  | .interpolate name escape =>
    have hwrite : Step.Agrees (At kept indentation b)
        (.write (·.writeIndentation indentation) : Step σ ε)
        (.write (·.writeText [] (lead indentation b))) :=
      .write fun _ _ hst hat => hst.indentLine hi hat.sink
    have hline : Step.Ensures (At kept indentation b)
        (.write (·.writeIndentation indentation) : Step σ ε) (At kept indentation false) :=
      .write fun _ ho => ho.writeIndentation
    have hvalue : Step.Agrees (At kept indentation false) ((evalName host c name escape).andThen f)
        (evalNodes host expand (.interpolate name escape :: rest) c []) := by
      rw [evalNodes, evalNode, Step.write_writeIndentation_nil, Step.skip_andThen]
      exact (evalName_agrees host c name escape).andThen (evalName_ensures name escape) hf
    rw [Node.indent, evalNode, Step.andThen_assoc]
    exact (hwrite.andThen hline hvalue).trans (evalNodes_pushText hexpand.respects _ _ c)
  | .block name true body =>
    obtain ⟨rfl, hbody⟩ := h
    rw [Node.indent, evalNodes]
    refine .andThen ?_ hensures hf
    rw [evalNode, evalNode]
    split
    · exact .skip
    · exact evalNodes_indentAll hi hl hexpand body c hbody
  | .block name false body =>
    obtain ⟨rfl, hbody⟩ := h
    rw [Node.indent, evalNodes]
    refine .andThen ?_ hensures hf
    rw [evalNode, evalNode]
    exact .each (fun scope => evalNodes_indentAll hi hl hexpand body (c.push scope) hbody)
      fun scope => evalNodes_ensures hl hexpand.ensures body (c.push scope) hbody
  | .inclusion name padding standalone =>
    obtain ⟨rfl, rfl⟩ := h
    rw [Node.indent, evalNodes]
    refine .andThen ?_ hensures hf
    rw [evalNode, evalNode]
    -- what is included is indented in the same way by both
    exact .found host name fun t =>
      (Step.Agrees.write fun _ _ hst _ => hst.startLine).andThen .anything
        (hexpand.respects t.root c (indentation ++ padding))
termination_by structural n

/-- The same of nodes in lines. -/
theorem evalNodes_indentAll (hi : isPadding indentation = true) (hl : host.Lined kept)
    (hexpand : Expands kept expand) (ns : List Node) (c : Context) {b : Bool}
    (h : Node.Lined ns b) :
    Step.Agrees (At kept indentation b) (evalNodes host expand ns c indentation)
      (evalNodes host expand (Node.indentAll indentation ns b) c []) := by
  match ns with
  | [] => exact .skip
  | n :: ns =>
    rw [evalNodes, Node.indentAll]
    exact evalNode_indent hi hl hexpand n c h.1 (evalNodes_indentAll hi hl hexpand ns c h.2)
termination_by structural ns

end

/-- The same at any depth of inclusion. -/
theorem eval_indentAll (hi : isPadding indentation = true) (hl : host.Lined kept) (depth : Nat)
    (ns : List Node) (c : Context) (h : Node.Lined ns true) :
    Step.Agrees (At kept indentation true) (eval host depth ns c indentation)
      (eval host depth (Node.indentAll indentation ns true) c []) := by
  cases depth with
  | zero =>
    exact evalNodes_indentAll hi hl ⟨fun _ _ _ => .fail _, fun _ _ _ _ => .fail _⟩ ns c h
  | succ depth =>
    exact evalNodes_indentAll hi hl ⟨eval_respects host depth, eval_ensures hl depth⟩ ns c h

end

end Mustache
