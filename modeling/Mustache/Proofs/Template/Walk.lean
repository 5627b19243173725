import Mustache.Template.Basic

/-!
# Walking through nodes

A walk visits nodes in order, each before the nodes inside it. It keeps a list of what is still to
be visited; what is put at the end of that list is visited at the end (`visit_append`), so a walk is
the recursive one: a node, what is inside it, and then what follows.

* `visit_cons` — the walk from a node on
* `forall_visit_cons` — what holds of all nodes met on a walk
-/

namespace Mustache.Node

theorem visit_append (ms ns : List Node) : visit (ms ++ ns) = visit ms ++ visit ns := by
  fun_induction visit ms with
  | case1 => rfl
  | case2 m pending ih =>
    rw [List.cons_append, visit, ← List.append_assoc, ih, List.cons_append]

/-- **A walk visits a node, then the nodes inside it, and then those that follow.** -/
theorem visit_cons (n : Node) (ns : List Node) :
    visit (n :: ns) = n :: (visit n.children ++ visit ns) := by
  rw [visit, visit_append]

theorem forall_visit_cons {P : Node → Prop} {n : Node} {ns : List Node} :
    (∀ m ∈ visit (n :: ns), P m) ↔
      P n ∧ (∀ m ∈ visit n.children, P m) ∧ ∀ m ∈ visit ns, P m := by
  simp only [visit_cons, List.forall_mem_cons, List.forall_mem_append]

end Mustache.Node
