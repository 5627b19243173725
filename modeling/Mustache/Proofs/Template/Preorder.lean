import Mathlib.Data.List.Basic
import Mustache.Proofs.Template.Walk

/-!
# The walk in preorder

The walk through a template keeps a list of nodes still to be visited. Told by recursion, without
such a list, it is the preorder of the tree: a node, the walk through what is inside it, and then
the walk through what follows it.

A node of a tree has an address: its position in its row, and before that the positions of the
blocks it is in. The walk passes every address once, and lower addresses first, in the order in
which words are put in a dictionary; so no node is left out and none is visited again, also where
equal nodes stand in several places.

* `Node.visit_eq_preorderAll` — the walk is the recursive one
* `Node.mem_addressesAll_iff`, `Node.pairwise_addressesAll` — every address once, in order
* `Node.map_some_preorderAll` — the node at each of them
* `firsts_eq_eraseDups`, `pairwise_idxOf_firsts` — a list without its repetitions
* `Template.allNodes_preorder` — the walk and the included names of a template
-/

namespace Mustache

namespace Node

/-- What holds of the empty row, and of a row if it holds of what is inside its first node and of
what follows that node, holds of every row. -/
theorem row_induction {P : List Node → Prop} (nil : P [])
    (cons : ∀ n ns, P n.children → P ns → P (n :: ns)) (ns : List Node) : P ns :=
  match ns with
  | [] => nil
  | n :: ns => cons n ns (row_induction nil cons n.children) (row_induction nil cons ns)
termination_by sizeList ns
decreasing_by
  all_goals
    simp only [sizeList, n.size_eq]
    omega

/-! ## Preorder -/

mutual

/-- A node, and then the nodes inside it if it is a block. -/
def preorder (n : Node) : List Node :=
  n :: match n with
    | .block _ _ body => preorderAll body
    | _ => []
termination_by structural n

/-- The nodes of a row in preorder. -/
def preorderAll (ns : List Node) : List Node :=
  match ns with
  | [] => []
  | n :: ns => n.preorder ++ preorderAll ns
termination_by structural ns

end

theorem preorder_eq (n : Node) : n.preorder = n :: preorderAll n.children := by
  cases n <;> rfl

/-- **The walk is the recursive one**, whatever is still to be visited. -/
theorem visit_eq_preorderAll (ns : List Node) : visit ns = preorderAll ns := by
  induction ns using row_induction with
  | nil => simp only [visit, preorderAll]
  | cons n ns inside rest =>
    rw [visit_cons, inside, rest, preorderAll, preorder_eq, List.cons_append]

/-! ## Addresses -/

/-- The node at an address below a node. -/
def below? (n : Node) : List Nat → Option Node
  | [] => some n
  | i :: address => n.children[i]?.bind (·.below? address)

/-- The node at an address in a row: at a position of the row, or below the node there. -/
def at? (ns : List Node) : List Nat → Option Node
  | [] => none
  | i :: address => ns[i]?.bind (·.below? address)

theorem below?_eq_at? (n : Node) {address : List Nat} (h : address ≠ []) :
    n.below? address = at? n.children address := by
  cases address with
  | nil => exact absurd rfl h
  | cons i address => rfl

/-- What follows the first node of a row has a position higher by one. -/
theorem at?_cons_modifyHead (n : Node) (ns : List Node) (address : List Nat) :
    at? (n :: ns) (address.modifyHead (· + 1)) = at? ns address := by
  cases address <;> rfl

mutual

/-- The addresses of a node and of the nodes inside it, below it. -/
def addresses (n : Node) : List (List Nat) :=
  [] :: match n with
    | .block _ _ body => addressesAll body
    | _ => []
termination_by structural n

/-- The addresses of the nodes in a row. -/
def addressesAll (ns : List Node) : List (List Nat) :=
  match ns with
  | [] => []
  | n :: ns => n.addresses.map (0 :: ·) ++ (addressesAll ns).map (List.modifyHead (· + 1))
termination_by structural ns

end

theorem addresses_eq (n : Node) : n.addresses = [] :: addressesAll n.children := by
  cases n <;> rfl

/-- **The addresses in a row are those at which there is a node.** -/
theorem mem_addressesAll_iff {ns : List Node} {address : List Nat} :
    address ∈ addressesAll ns ↔ (at? ns address).isSome := by
  induction ns using row_induction generalizing address with
  | nil => cases address <;> simp [addressesAll, at?]
  | cons n ns inside rest =>
    have hnode (p : List Nat) : p ∈ n.addresses ↔ (n.below? p).isSome := by
      rw [addresses_eq, List.mem_cons]
      cases p with
      | nil => simp [below?]
      | cons i p => simp [inside, below?_eq_at?]
    rw [addressesAll, List.mem_append, List.mem_map, List.mem_map]
    constructor
    · rintro (⟨p, hp, rfl⟩ | ⟨p, hp, rfl⟩)
      · exact (hnode p).mp hp
      · rw [at?_cons_modifyHead]
        exact rest.mp hp
    · intro h
      match address with
      | 0 :: p => exact Or.inl ⟨p, (hnode p).mpr h, rfl⟩
      | (i + 1) :: p => exact Or.inr ⟨i :: p, rest.mpr h, rfl⟩

theorem ne_nil_of_mem_addressesAll {ns : List Node} {address : List Nat}
    (h : address ∈ addressesAll ns) : address ≠ [] := by
  rintro rfl
  cases mem_addressesAll_iff.mp h

theorem modifyHead_succ_lt {p q : List Nat} (h : p < q) :
    p.modifyHead (· + 1) < q.modifyHead (· + 1) := by
  cases q with
  | nil => exact absurd h (List.not_lt_nil p)
  | cons j q =>
    cases p with
    | nil => exact List.nil_lt_cons _ _
    | cons i p =>
      rcases List.cons_lt_cons_iff.mp h with hij | ⟨rfl, hpq⟩
      · exact List.cons_lt_cons_iff.mpr (Or.inl (Nat.succ_lt_succ hij))
      · exact List.cons_lt_cons_iff.mpr (Or.inr ⟨rfl, hpq⟩)

/-- **The addresses in a row are in order, and none is there again.** -/
theorem pairwise_addressesAll (ns : List Node) : (addressesAll ns).Pairwise (· < ·) := by
  induction ns using row_induction with
  | nil => exact List.Pairwise.nil
  | cons n ns inside rest =>
    have hnode : n.addresses.Pairwise (· < ·) := by
      rw [addresses_eq]
      refine List.pairwise_cons.mpr ⟨fun p hp => ?_, inside⟩
      obtain ⟨i, p, rfl⟩ := List.exists_cons_of_ne_nil (ne_nil_of_mem_addressesAll hp)
      exact List.nil_lt_cons i p
    refine List.pairwise_append.mpr ⟨?_, ?_, ?_⟩
    · exact hnode.map _ fun p q hpq => List.cons_lt_cons_iff.mpr (Or.inr ⟨rfl, hpq⟩)
    · exact rest.map _ fun p q => modifyHead_succ_lt
    · -- the first node and what is inside it have position 0, what follows has a higher one
      intro p hp q hq
      obtain ⟨p, -, rfl⟩ := List.mem_map.mp hp
      obtain ⟨q, hmem, rfl⟩ := List.mem_map.mp hq
      obtain ⟨i, q, rfl⟩ := List.exists_cons_of_ne_nil (ne_nil_of_mem_addressesAll hmem)
      exact List.cons_lt_cons_iff.mpr (Or.inl (Nat.succ_pos i))

/-- **The preorder has at each place the node at the address there.** -/
theorem map_some_preorderAll (ns : List Node) :
    (preorderAll ns).map some = (addressesAll ns).map (at? ns) := by
  induction ns using row_induction with
  | nil => rfl
  | cons n ns inside rest =>
    have hinside : (addressesAll n.children).map n.below? = (preorderAll n.children).map some := by
      rw [inside]
      exact List.map_congr_left fun p hp => n.below?_eq_at? (ne_nil_of_mem_addressesAll hp)
    have hfirst : (n.addresses.map (0 :: ·)).map (at? (n :: ns)) = n.preorder.map some := by
      rw [List.map_map, addresses_eq, preorder_eq, List.map_cons, List.map_cons, ← hinside]
      rfl
    have hrest : ((addressesAll ns).map (List.modifyHead (· + 1))).map (at? (n :: ns)) =
        (preorderAll ns).map some := by
      rw [List.map_map, rest]
      exact List.map_congr_left fun p _ => at?_cons_modifyHead n ns p
    rw [preorderAll, addressesAll, List.map_append, List.map_append, hfirst, hrest]

end Node

/-! ## First mentions -/

section

variable {α : Type} [DecidableEq α]

theorem firsts_filter (p : α → Bool) (l : List α) :
    firsts (l.filter p) = (firsts l).filter p := by
  induction l with
  | nil => rfl
  | cons a l ih =>
    by_cases ha : p a = true
    · rw [List.filter_cons_of_pos ha, firsts, firsts, List.filter_cons_of_pos ha, ih,
        List.filter_filter, List.filter_filter]
      simp only [Bool.and_comm]
    · rw [List.filter_cons_of_neg ha, firsts, List.filter_cons_of_neg ha, ih, List.filter_filter]
      -- what passes is not the member that does not
      refine List.filter_congr fun b _ => ?_
      by_cases hb : b = a
      · simp [hb, ha]
      · simp [hb]

variable [BEq α] [LawfulBEq α]

/-- **The first mentions are the list without its repetitions.** -/
theorem firsts_eq_eraseDups (l : List α) : firsts l = l.eraseDups :=
  match l with
  | [] => List.eraseDups_nil.symm
  | a :: l => by
    rw [firsts, List.eraseDups_cons, ← firsts_eq_eraseDups (l.filter _), firsts_filter]
    congr 1
    exact List.filter_congr fun b _ => by simp [beq_eq_decide]
termination_by l.length
decreasing_by exact Nat.lt_succ_of_le (List.length_filter_le _ _)

/-- The first mentions come in the order in which their members come first. -/
theorem pairwise_idxOf_firsts (l : List α) :
    (firsts l).Pairwise fun a b => l.idxOf a < l.idxOf b := by
  induction l with
  | nil => exact List.Pairwise.nil
  | cons a l ih =>
    have hne {b : α} (hb : b ∈ (firsts l).filter (· ≠ a)) : a ≠ b :=
      Ne.symm (of_decide_eq_true (List.mem_filter.mp hb).2)
    refine List.pairwise_cons.mpr ⟨fun b hb => ?_, ?_⟩
    · rw [List.idxOf_cons_self, List.idxOf_cons_ne l (hne hb)]
      exact Nat.succ_pos _
    · refine (ih.filter _).imp_of_mem fun hb hc hbc => ?_
      rw [List.idxOf_cons_ne l (hne hb), List.idxOf_cons_ne l (hne hc)]
      exact Nat.succ_lt_succ hbc

end

namespace Template

/-- **The walk through a template is the preorder of its tree.** It passes the addresses at which
there is a node once each and in order. The names that the template includes are those of its
inclusions as they come in preorder, without what is mentioned before. -/
theorem allNodes_preorder (t : Template) :
    let names := (Node.preorderAll t.root).filterMap Node.includedName?
    t.allNodes = Node.preorderAll t.root ∧
      (∃ addresses : List (List Nat), addresses.Pairwise (· < ·) ∧
        (∀ address, address ∈ addresses ↔ (Node.at? t.root address).isSome) ∧
        t.allNodes.map some = addresses.map (Node.at? t.root)) ∧
      t.includedNames = names.eraseDups ∧
      t.includedNames.Pairwise fun a b => names.idxOf a < names.idxOf b := by
  intro names
  have hwalk : t.allNodes = Node.preorderAll t.root := Node.visit_eq_preorderAll t.root
  have hnames : t.includedNames = firsts names := by rw [includedNames, hwalk]
  refine ⟨hwalk, ⟨Node.addressesAll t.root, Node.pairwise_addressesAll t.root,
    fun _ => Node.mem_addressesAll_iff, ?_⟩, ?_, ?_⟩
  · rw [hwalk]
    exact Node.map_some_preorderAll t.root
  · rw [hnames]
    exact firsts_eq_eraseDups names
  · rw [hnames]
    exact pairwise_idxOf_firsts names

end Template
end Mustache
