import Mustache.Proofs.Template.Walk
import Mustache.Render.Eval

/-!
# Rules for renders

A render does a few kinds of steps, one after the other. So what holds of these steps, and goes
through doing one after the other, holds of the whole render. The same is true of a relation between
two renders of the same nodes, which may be on two hosts and in two contexts. What there is to show
is one rule for each kind of step (`EvalRules`); the induction over the nodes is always the same. A
property of one render is a relation that does not look at the other.

The rules may count on three things, which the induction hands on: that the nodes are good, that the
contexts agree, and that the indentation fits.

* `EvalRules.nodes` — what follows for nodes in a row
* `eval_of_rules` — what follows at any depth of inclusion
-/

namespace Mustache

section

variable {σ τ ε α : Type} {host : Host σ ε} {host' : Host τ ε}
  {expand : List Node → Context → Text → Step σ ε}
  {expand' : List Node → Context → Text → Step τ ε}
  {good : Node → Prop} {agrees : Context → Context → Prop} {fits : Text → Prop}
  {P : Step σ ε → Step τ ε → Prop}

/-- The rules by which a relation between steps goes through the render of nodes, when `expand` and
`expand'` say how to render the nodes of an included template. -/
structure EvalRules (host : Host σ ε) (host' : Host τ ε)
    (expand : List Node → Context → Text → Step σ ε)
    (expand' : List Node → Context → Text → Step τ ε)
    (good : Node → Prop) (agrees : Context → Context → Prop) (fits : Text → Prop)
    (P : Step σ ε → Step τ ε → Prop) : Prop where
  skip : P .skip .skip
  andThen : ∀ {f f' g g'}, P f f' → P g g' → P (f.andThen g) (f'.andThen g')
  text : ∀ {s indentation}, good (.text s) → fits indentation →
    P (.write (·.writeText indentation s)) (.write (·.writeText indentation s))
  indentation : ∀ {indentation}, fits indentation →
    P (.write (·.writeIndentation indentation)) (.write (·.writeIndentation indentation))
  name : ∀ {name escape c c'}, good (.interpolate name escape) → agrees c c' →
    P (evalName host c name escape) (evalName host' c' name escape)
  /-- A block is kept, and done as often, in both contexts. -/
  referent : ∀ {name inverted body c c'}, good (.block name inverted body) → agrees c c' →
    c.referent name = c'.referent name
  push : ∀ {c c'} scope, agrees c c' → agrees (c.push scope) (c'.push scope)
  /-- An inclusion that has its line to itself, -/
  ownLine : ∀ {name padding c c' indentation}, good (.inclusion name padding true) →
    agrees c c' → fits indentation →
    P (.found host name fun t =>
        (Step.write Sink.startLine).andThen (expand t.root c (indentation ++ padding)))
      (.found host' name fun t =>
        (Step.write Sink.startLine).andThen (expand' t.root c' (indentation ++ padding)))
  /-- and one that has not. -/
  inLine : ∀ {name padding c c'}, good (.inclusion name padding false) → agrees c c' →
    P (.found host name fun t => expand t.root c [])
      (.found host' name fun t => expand' t.root c' [])

/-- What is done with the value of a name: it is escaped, or written as it is, or it is no text. -/
theorem evalName_of_steps (host : Host σ ε) (host' : Host τ ε)
    (undecodable : ∀ fault, P (.fail (.undecodable fault)) (.fail (.undecodable fault)))
    (escaped : ∀ name s, P (.escaped host name s) (.escaped host' name s))
    (value : ∀ s, P (.write (·.writeValue s)) (.write (·.writeValue s)))
    (c : Context) (name : Text) (escape : Bool) :
    P (evalName host c name escape) (evalName host' c name escape) := by
  unfold evalName
  cases (c.referent name).text? with
  | error fault => exact undecodable fault
  | ok s =>
    simp only []
    split
    · exact escaped name s
    · exact value s

namespace EvalRules

theorem each (h : EvalRules host host' expand expand' good agrees fits P) {l : List α}
    {f : α → Step σ ε} {f' : α → Step τ ε} (hf : ∀ a, P (f a) (f' a)) :
    P (Step.each l f) (Step.each l f') := by
  induction l with
  | nil => exact h.skip
  | cons a l ih => exact h.andThen (hf a) ih

mutual

theorem node (h : EvalRules host host' expand expand' good agrees fits P) (n : Node)
    {c c' : Context} {indentation : Text} (hn : good n)
    (hinside : ∀ m ∈ Node.visit n.children, good m) (hc : agrees c c')
    (hi : fits indentation) :
    P (evalNode host expand n c indentation) (evalNode host' expand' n c' indentation) := by
  match n with
  | .text s =>
    rw [evalNode, evalNode]
    exact h.text hn hi
  | .interpolate name escape =>
    rw [evalNode, evalNode]
    exact h.andThen (h.indentation hi) (h.name hn hc)
  | .block name true body =>
    rw [evalNode, evalNode, h.referent hn hc]
    split
    · exact h.skip
    · exact h.nodes body hinside hc hi
  | .block name false body =>
    rw [evalNode, evalNode, h.referent hn hc]
    exact h.each fun scope => h.nodes body hinside (h.push scope hc) hi
  | .inclusion name padding true =>
    rw [evalNode, evalNode]
    exact h.ownLine hn hc hi
  | .inclusion name padding false =>
    rw [evalNode, evalNode]
    exact h.andThen (h.indentation hi) (h.inLine hn hc)
termination_by structural n

/-- **A relation that the rules hold of is one between the renders of nodes.** -/
theorem nodes (h : EvalRules host host' expand expand' good agrees fits P) (ns : List Node)
    {c c' : Context} {indentation : Text} (hns : ∀ n ∈ Node.visit ns, good n)
    (hc : agrees c c') (hi : fits indentation) :
    P (evalNodes host expand ns c indentation) (evalNodes host' expand' ns c' indentation) := by
  match ns with
  | [] => exact h.skip
  | n :: ns =>
    obtain ⟨hn, hinside, hns⟩ := Node.forall_visit_cons.mp hns
    rw [evalNodes, evalNodes]
    exact h.andThen (h.node n hn hinside hc hi) (h.nodes ns hns hc hi)
termination_by structural ns

end

end EvalRules

/-- **So it is at any depth of inclusion**, where the rules hold as soon as the relation holds of
what is done with included nodes. -/
theorem eval_of_rules
    (rules : ∀ {expand expand'},
      (∀ ns c c' indentation, (∀ n ∈ Node.visit ns, good n) → agrees c c' → fits indentation →
        P (expand ns c indentation) (expand' ns c' indentation)) →
      EvalRules host host' expand expand' good agrees fits P)
    (tooDeep : P (.fail .tooDeep) (.fail .tooDeep)) (depth : Nat) (ns : List Node) (c c' : Context)
    (indentation : Text)
    (hns : ∀ n ∈ Node.visit ns, good n) (hc : agrees c c') (hi : fits indentation) :
    P (eval host depth ns c indentation) (eval host' depth ns c' indentation) := by
  induction depth generalizing ns c c' indentation with
  | zero => exact (rules fun _ _ _ _ _ _ _ => tooDeep).nodes ns hns hc hi
  | succ depth ih => exact (rules ih).nodes ns hns hc hi

end

end Mustache
