import Mustache.Context
import Mustache.Escape
import Mustache.Render.Step
import Mustache.Value.Text

/-!
# Rendering

The meaning of a template: what it writes for a context. Nodes are done in order. An included
template is rendered in the context of the place where it is included; when the inclusion had its
line to itself, every line of what it includes is indented by the padding of that line, in addition
to the indentation already in force.

## Main statements

* `evalNodes_append` — a list of nodes is rendered by rendering its parts in turn;
* `render` renders a template with no more than `expansionLimit` inclusions inside each other.

## Termination

`evalNodes` goes down the tree. An included template is not part of the tree that includes it, so
`eval` counts how many inclusions may still go on inside each other, and gives up below zero.
-/

namespace Mustache

open Text

section

variable {σ ε : Type}

/-- To write the value of a name; it is escaped only if there is something to escape. -/
def evalName (host : Host σ ε) (c : Context) (name : Text) (escape : Bool) : Step σ ε :=
  match (c.referent name).text? with
  | .error fault => .fail (.undecodable fault)
  | .ok s => if escape ∧ s ≠ [] then .escaped host name s else .write (·.writeValue s)

mutual

/-- To render a node in a context, its lines indented. `expand` says how to render the nodes of an
included template. -/
def evalNode (host : Host σ ε) (expand : List Node → Context → Text → Step σ ε)
    (n : Node) (c : Context) (indentation : Text) : Step σ ε :=
  match n with
  | .text s => .write (·.writeText indentation s)
  | .interpolate name escape =>
    (Step.write (·.writeIndentation indentation)).andThen (evalName host c name escape)
  | .block name true body =>
    if (c.referent name).isPresent then .skip else evalNodes host expand body c indentation
  | .block name false body =>
    .each (c.referent name).scopes fun scope =>
      evalNodes host expand body (c.push scope) indentation
  | .inclusion name padding true =>
    .found host name fun t =>
      (Step.write Sink.startLine).andThen (expand t.root c (indentation ++ padding))
  | .inclusion name _ false =>
    (Step.write (·.writeIndentation indentation)).andThen
      (.found host name fun t => expand t.root c [])
termination_by structural n

/-- To render nodes in order. -/
def evalNodes (host : Host σ ε) (expand : List Node → Context → Text → Step σ ε)
    (ns : List Node) (c : Context) (indentation : Text) : Step σ ε :=
  match ns with
  | [] => .skip
  | n :: ns =>
    (evalNode host expand n c indentation).andThen (evalNodes host expand ns c indentation)
termination_by structural ns

end

theorem evalNodes_append (host : Host σ ε) (expand : List Node → Context → Text → Step σ ε)
    (ms ns : List Node) (c : Context) (indentation : Text) :
    evalNodes host expand (ms ++ ns) c indentation =
      (evalNodes host expand ms c indentation).andThen
        (evalNodes host expand ns c indentation) := by
  induction ms with
  | nil => simp [evalNodes, Step.skip_andThen]
  | cons m ms ih => simp [evalNodes, ih, Step.andThen_assoc]

/-- To render nodes in order, with so many inclusions inside each other at most. -/
def eval (host : Host σ ε) : Nat → List Node → Context → Text → Step σ ε
  | 0 => evalNodes host fun _ _ _ => .fail .tooDeep
  | depth + 1 => evalNodes host (eval host depth)

/-- How many inclusions may go on inside each other. -/
def expansionLimit : Nat := 1000

/-- What a render comes to. -/
structure Rendering (σ ε : Type) where
  /-- The output, or why there is none. -/
  result : Except (RenderFault ε) Text
  /-- The calls made to the host, in order. -/
  calls : List Call
  /-- The state of the host afterwards. -/
  host : σ

/-- What has come of a state and a fault. -/
def Rendering.ofRun : RenderState σ × Option (RenderFault ε) → Rendering σ ε
  | (s, none) => ⟨.ok s.sink.toText, s.calls.reverse, s.host⟩
  | (s, some fault) => ⟨.error fault, s.calls.reverse, s.host⟩

theorem Rendering.result_ofRun (r : RenderState σ × Option (RenderFault ε)) :
    (ofRun r).result =
      match r.2 with
      | none => .ok r.1.sink.toText
      | some fault => .error fault := by
  obtain ⟨s, _ | fault⟩ := r <;> rfl

theorem Rendering.calls_ofRun (r : RenderState σ × Option (RenderFault ε)) :
    (ofRun r).calls = r.1.calls.reverse := by
  obtain ⟨s, _ | fault⟩ := r <;> rfl

theorem Rendering.host_ofRun (r : RenderState σ × Option (RenderFault ε)) :
    (ofRun r).host = r.1.host := by
  obtain ⟨s, _ | fault⟩ := r <;> rfl

/-- The template rendered against some data, with so many inclusions inside each other at most. -/
def Template.renderWithin (limit : Nat) (host : Host σ ε) (t : Template) (data : Value) (h : σ) :
    Rendering σ ε :=
  .ofRun (eval host limit t.root (.ofRoot data) [] ⟨.empty, [], h⟩)

/-- The template rendered against some data. -/
def Template.render (host : Host σ ε) (t : Template) (data : Value) (h : σ) : Rendering σ ε :=
  t.renderWithin expansionLimit host data h

end

end Mustache
