import Mustache.Text.Basic

/-!
# Templates

A template is a named list of nodes: text, interpolated values, blocks with a body of their own, and
inclusions of other templates by name.

## Main statements

* `Template.allNodes` goes through the nodes in order, a block before its body, with a list of the
  nodes still to be visited; it ends because what is left to visit gets smaller.
-/

namespace Mustache

/-- A node of a template. -/
inductive Node where
  /-- Text that stands for itself. -/
  | text (s : Text)
  /-- The value of a name, escaped or not. -/
  | interpolate (name : Text) (escape : Bool)
  /-- A body that is kept, once or more often, for what a name refers to; an inverted block is kept
  once when that is nothing. -/
  | block (name : Text) (inverted : Bool) (body : List Node)
  /-- Another template put in its place. A standalone inclusion had its line to itself, and indents
  what it includes. -/
  | inclusion (name indentation : Text) (standalone : Bool)
deriving Repr

namespace Node

/-! ## Equality -/

mutual

/-- Are two nodes equal? -/
def decEq (m n : Node) : Decidable (m = n) :=
  match m, n with
  | .text s, .text t => decidable_of_iff (s = t) (by simp)
  | .interpolate a e, .interpolate b f => decidable_of_iff (a = b ∧ e = f) (by simp)
  | .block a i xs, .block b j ys =>
    have := decEqList xs ys
    decidable_of_iff (a = b ∧ i = j ∧ xs = ys) (by simp)
  | .inclusion a i s, .inclusion b j t => decidable_of_iff (a = b ∧ i = j ∧ s = t) (by simp)
  | .text _, .interpolate .. | .text _, .block .. | .text _, .inclusion ..
  | .interpolate .., .text _ | .interpolate .., .block .. | .interpolate .., .inclusion ..
  | .block .., .text _ | .block .., .interpolate .. | .block .., .inclusion ..
  | .inclusion .., .text _ | .inclusion .., .interpolate .. | .inclusion .., .block .. =>
    isFalse (by simp)
termination_by structural m

/-- Are two lists of nodes equal? -/
def decEqList (ms ns : List Node) : Decidable (ms = ns) :=
  match ms, ns with
  | [], [] => isTrue rfl
  | m :: ms, n :: ns =>
    have := decEq m n
    have := decEqList ms ns
    decidable_of_iff (m = n ∧ ms = ns) (by simp)
  | [], _ :: _ | _ :: _, [] => isFalse (by simp)
termination_by structural ms

end

instance : DecidableEq Node := decEq

/-! ## Size -/

mutual

/-- The number of nodes in a node, itself included. -/
def size (n : Node) : Nat :=
  match n with
  | .block _ _ body => sizeList body + 1
  | _ => 1
termination_by structural n

/-- The number of nodes in a list of nodes, at any depth. -/
def sizeList (ns : List Node) : Nat :=
  match ns with
  | [] => 0
  | n :: ns => n.size + sizeList ns
termination_by structural ns

end

theorem sizeList_append (ms ns : List Node) :
    sizeList (ms ++ ns) = sizeList ms + sizeList ns := by
  induction ms with
  | nil => simp [sizeList]
  | cons m ms ih => simp [sizeList, ih, Nat.add_assoc]

/-- The nodes directly inside a node. -/
def children : Node → List Node
  | .block _ _ body => body
  | _ => []

theorem size_eq (n : Node) : n.size = sizeList n.children + 1 := by
  cases n <;> simp [size, children, sizeList]

/-- The name a node includes another template by. -/
def includedName? : Node → Option Text
  | .inclusion name _ _ => some name
  | _ => none

end Node

/-! ## Walking -/

/-- The nodes still to be visited, in order, each before the nodes inside it. -/
def Node.visit : List Node → List Node
  | [] => []
  | n :: pending => n :: Node.visit (n.children ++ pending)
termination_by pending => Node.sizeList pending
decreasing_by
  simp only [Node.sizeList_append, Node.sizeList, n.size_eq]
  omega

/-- The list without repetitions: each member where it comes first. -/
def firsts {α : Type} [DecidableEq α] : List α → List α
  | [] => []
  | a :: l => a :: (firsts l).filter (· ≠ a)

theorem mem_firsts {α : Type} [DecidableEq α] {a : α} {l : List α} : a ∈ firsts l ↔ a ∈ l := by
  induction l with
  | nil => simp [firsts]
  | cons b l ih =>
    by_cases h : a = b
    · simp [firsts, h]
    · simp [firsts, h, ih]

/-- A named template. -/
structure Template where
  name : Text
  root : List Node
deriving DecidableEq, Repr

namespace Template

/-- All nodes of the template in order, each before the nodes inside it. -/
def allNodes (t : Template) : List Node := Node.visit t.root

/-- The names of the templates that it includes, in the order of first mention. -/
def includedNames (t : Template) : List Text := firsts (t.allNodes.filterMap Node.includedName?)

end Template
end Mustache
