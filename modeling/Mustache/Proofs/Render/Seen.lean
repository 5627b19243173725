import Mustache.Proofs.Context
import Mustache.Proofs.Render.Rules
import Mustache.Proofs.Store.Offered

/-!
# What a render sees of the data

A name is sought from its first key on, and only what is found there is gone into. So a render that
never asks for the most recent scope as a whole sees nothing of its data but what is at the first
keys of the names that come up, in the template and in those it includes. Data that agree there
render alike: the same is written, the same calls are made, and the render fails alike.

Contexts agree when all of these keys refer to the same in both (`Context.AgreesOn`). A scope that
is pushed onto both of them is found through such a key, and hides the same from both.

* `Context.AgreesOn.push`, `Context.AgreesOn.referent` — contexts that agree
* `eval_sameFrom` — nodes rendered in contexts that agree
* `Template.renderWithin_of_agree` — a template rendered against data that agree
-/

namespace Mustache

open Text

/-! ## Contexts that agree -/

namespace Context

/-- Each of the keys refers to the same in both contexts. -/
def AgreesOn (keys : Text → Prop) (c c' : Context) : Prop :=
  ∀ key, keys key → c.find key = c'.find key

variable {keys : Text → Prop} {c c' : Context}

/-- Contexts go on to agree when they get a further scope. -/
theorem AgreesOn.push (h : AgreesOn keys c c') (scope : Value) :
    AgreesOn keys (c.push scope) (c'.push scope) := by
  intro key hkey
  rw [find_push, find_push, h key hkey]

/-- **In contexts that agree on its first key a name refers to the same**, wherever it leads. -/
theorem AgreesOn.referent (h : AgreesOn keys c c') {name : Text} (hdot : name ≠ ['.'])
    (hkey : keys (firstKey name)) : c.referent name = c'.referent name := by
  rw [referent_eq c hdot, referent_eq c' hdot, h _ hkey]

theorem agreesOn_ofRoot {data data' : Value}
    (h : ∀ key, keys key → data.child key = data'.child key) :
    AgreesOn keys (ofRoot data) (ofRoot data') := by
  intro key hkey
  rw [find_ofRoot, find_ofRoot, h key hkey]

end Context

/-! ## Names that are sought -/

/-- The name whose value a node is rendered for. -/
def Node.valueName? : Node → Option Text
  | .interpolate name _ | .block name _ _ => some name
  | .text _ | .inclusion .. => none

/-- The names whose values the template is rendered for, at any depth. -/
def Template.valueNames (t : Template) : List Text := t.allNodes.filterMap Node.valueName?

/-- The node is rendered for no value but those of names that begin with one of the keys, and not
for the most recent scope. -/
def Node.SeesOnly (keys : Text → Prop) (n : Node) : Prop :=
  ∀ name, n.valueName? = some name → name ≠ ['.'] ∧ keys (Context.firstKey name)

/-- So are all nodes of the template, at any depth. -/
def Template.SeesOnly (keys : Text → Prop) (t : Template) : Prop :=
  ∀ n ∈ t.allNodes, n.SeesOnly keys

theorem Template.seesOnly_iff {keys : Text → Prop} {t : Template} :
    t.SeesOnly keys ↔ ∀ name ∈ t.valueNames, name ≠ ['.'] ∧ keys (Context.firstKey name) := by
  unfold SeesOnly Node.SeesOnly valueNames
  constructor
  · intro h name hname
    obtain ⟨n, hn, hvalue⟩ := List.mem_filterMap.mp hname
    exact h n hn name hvalue
  · intro h n hn name hvalue
    exact h name (List.mem_filterMap.mpr ⟨n, hn, hvalue⟩)

section

variable {σ ε α : Type} {host : Host σ ε} {h : σ}

/-! ## Steps that are the same -/

namespace Step

variable {f f' g g' : Step σ ε}

/-- The steps do the same in all states in which the host may be, and keep it in such a state. -/
def SameFrom (host : Host σ ε) (h : σ) (f f' : Step σ ε) : Prop :=
  ∀ s, host.Reaches h s.host → f s = f' s ∧ host.Reaches h (f s).1.host

/-- A step that leaves the host alone is the same as itself. -/
theorem SameFrom.of_host (hf : ∀ s, (f s).1.host = s.host) : SameFrom host h f f := by
  intro s hs
  rw [hf s]
  exact ⟨rfl, hs⟩

theorem SameFrom.andThen (hf : SameFrom host h f f') (hg : SameFrom host h g g') :
    SameFrom host h (f.andThen g) (f'.andThen g') := by
  intro s hs
  obtain ⟨heq, hreaches⟩ := hf s hs
  unfold Step.andThen
  rw [← heq]
  generalize f s = r at hreaches ⊢
  obtain ⟨t, _ | fault⟩ := r
  · exact hg t hreaches
  · exact ⟨rfl, hreaches⟩

theorem SameFrom.escaped (name s : Text) :
    SameFrom host h (escaped host name s) (escaped host name s) := by
  refine .of_host fun st => ?_
  unfold Step.escaped
  cases host.escape s <;> rfl

/-- An inclusion is the same when what is done with the templates that may be found is. -/
theorem SameFrom.found {good : Template → Prop} (hoffers : host.Offers h good) (name : Text)
    {expand expand' : Template → Step σ ε}
    (hexpand : ∀ t, good t → SameFrom host h (expand t) (expand' t)) :
    SameFrom host h (found host name expand) (found host name expand') := by
  intro s hs
  have hreaches : host.Reaches h (host.find name s.host).2 := .find name hs
  have hgood := fun t => hoffers s.host name t hs
  simp only [Step.found]
  generalize host.find name s.host = r at hreaches hgood ⊢
  obtain ⟨_ | _ | t, h'⟩ := r
  · exact ⟨rfl, hreaches⟩
  · exact ⟨rfl, hreaches⟩
  · exact hexpand t (hgood t rfl) _ hreaches

end Step

/-! ## Rendering -/

variable {keys : Text → Prop} {expand expand' : List Node → Context → Text → Step σ ε}

/-- In contexts that agree nodes are rendered in the same way, if what is included is. -/
theorem Step.SameFrom.rules (hoffers : host.Offers h (Template.SeesOnly keys))
    (hexpand : ∀ ns c c' indentation, (∀ n ∈ Node.visit ns, n.SeesOnly keys) →
      c.AgreesOn keys c' → True →
      Step.SameFrom host h (expand ns c indentation) (expand' ns c' indentation)) :
    EvalRules host host expand expand' (Node.SeesOnly keys) (Context.AgreesOn keys) (fun _ => True)
      (Step.SameFrom host h) where
  skip := .of_host fun _ => rfl
  andThen := .andThen
  text := fun _ _ => .of_host fun _ => rfl
  indentation := fun _ => .of_host fun _ => rfl
  name := by
    intro name escape c c' hn hc
    obtain ⟨hdot, hkey⟩ := hn name rfl
    have hname : evalName host c name escape = evalName host c' name escape := by
      unfold evalName
      rw [hc.referent hdot hkey]
    rw [hname]
    exact evalName_of_steps host host (fun _ => .of_host fun _ => rfl) .escaped
      (fun _ => .of_host fun _ => rfl) c' name escape
  referent := by
    intro name inverted body c c' hn hc
    obtain ⟨hdot, hkey⟩ := hn name rfl
    exact hc.referent hdot hkey
  push := fun scope hc => hc.push scope
  ownLine := by
    intro name padding c c' indentation _ hc hi
    exact .found hoffers name fun t ht =>
      .andThen (.of_host fun _ => rfl) (hexpand t.root c c' (indentation ++ padding) ht hc hi)
  inLine := by
    intro name padding c c' _ hc
    exact .found hoffers name fun t ht => hexpand t.root c c' [] ht hc trivial

/-- **In contexts that agree nodes are rendered in the same way**, at any depth of inclusion. -/
theorem eval_sameFrom (hoffers : host.Offers h (Template.SeesOnly keys)) (depth : Nat)
    (ns : List Node) (c c' : Context) (indentation : Text)
    (hns : ∀ n ∈ Node.visit ns, n.SeesOnly keys) (hc : c.AgreesOn keys c') :
    Step.SameFrom host h (eval host depth ns c indentation)
      (eval host depth ns c' indentation) :=
  eval_of_rules (Step.SameFrom.rules hoffers) (.of_host fun _ => rfl) depth ns c c' indentation hns
    hc trivial

/-- **Data that agree on the keys that are seen render alike**: the render writes the same or fails
alike, makes the same calls, and leaves the host in the same state. -/
theorem Template.renderWithin_of_agree {t : Template} (ht : t.SeesOnly keys)
    (hoffers : host.Offers h (Template.SeesOnly keys)) {data data' : Value}
    (hdata : ∀ key, keys key → data.child key = data'.child key) (limit : Nat) :
    t.renderWithin limit host data h = t.renderWithin limit host data' h := by
  have hsame := eval_sameFrom hoffers limit t.root _ _ [] ht (Context.agreesOn_ofRoot hdata)
    ⟨.empty, [], h⟩ .refl
  unfold renderWithin
  rw [hsame.1]

end

end Mustache
