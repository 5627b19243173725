import Mustache.Proofs.Render.Behind

/-!
# Rendering in parts

At the top level of a template, where no indentation is in force, the parts of a template are
rendered one by one and what they write is put together. No state of the output is handed on from
one part to the next: what a part writes is what it writes alone (`Step.written`). All that the
parts have in common is the host, which may keep what it finds.

* `Step.written_andThen`, `Step.written_each` — steps in a row write one after the other
* `Node.result_renderWithin` — what nodes write is what a render comes to
* `Node.written_compositional` — what lists of nodes, sections and inverted sections write
-/

namespace Mustache

open Text

section

variable {σ ε α : Type}

/-! ## What steps write -/

namespace Step

/-- What has been written, and the state of the host, at the end of a run that has not failed. -/
def outcome : RenderState σ × Option (RenderFault ε) → Except (RenderFault ε) (Text × σ)
  | (s, none) => .ok (s.sink.toText, s.host)
  | (_, some fault) => .error fault

/-- What a step writes when nothing has been written before, as an action on the state of the
host. -/
def written (f : Step σ ε) : StateT σ (Except (RenderFault ε)) Text :=
  fun h => outcome (f ⟨.empty, [], h⟩)

/-- A step that goes on alike behind any text adds to it what it writes alone. -/
theorem outcome_of_follows {f : Step σ ε} (s : RenderState σ)
    (hf : f.Follows s.sink.toText false) :
    outcome (f s) = (f.written s.host).map fun (t, h) => (s.sink.toText ++ t, h) := by
  have hempty : RenderState.Behind s.sink.toText false ⟨.empty, [], s.host⟩ s :=
    ⟨⟨(List.append_nil _).symm, nofun⟩, rfl⟩
  obtain ⟨hbehind, hfault⟩ := hf _ _ hempty
  unfold written
  generalize f s = r at hbehind hfault ⊢
  generalize f ⟨.empty, [], s.host⟩ = r' at hbehind hfault ⊢
  obtain ⟨t, fault⟩ := r
  obtain ⟨t', fault'⟩ := r'
  obtain rfl : fault' = fault := hfault
  cases fault' with
  | none =>
    show Except.ok (t.sink.toText, t.host) = .ok (s.sink.toText ++ t'.sink.toText, t'.host)
    rw [hbehind.sink.text, hbehind.host]
  | some fault => rfl

/-- **Of two steps in a row each writes what it writes alone**, if the second goes on alike behind
any text. -/
theorem written_andThen {f g : Step σ ε} (hg : ∀ before, g.Follows before false) :
    (f.andThen g).written = (do
      let s ← f.written
      let t ← g.written
      return s ++ t) := by
  funext h
  show outcome ((f.andThen g) ⟨.empty, [], h⟩) =
    (outcome (f ⟨.empty, [], h⟩)).bind fun (s, h') =>
      (g.written h').bind fun (t, h'') => .ok (s ++ t, h'')
  unfold Step.andThen
  generalize f ⟨.empty, [], h⟩ = r
  obtain ⟨s, _ | fault⟩ := r
  · show outcome (g s) = (g.written s.host).bind _
    rw [outcome_of_follows s (hg _)]
    cases g.written s.host with
    | ok r => rfl
    | error fault => rfl
  · rfl

/-- The members of a list write one after the other. -/
theorem written_each {l : List α} {f : α → Step σ ε} (hf : ∀ a before, (f a).Follows before false) :
    (each l f).written = (do
      let ss ← l.mapM fun a => (f a).written
      return ss.flatten) := by
  induction l with
  | nil => rfl
  | cons a l ih =>
    have hrest (before : Text) : (each l f).Follows before false := .each fun a => hf a before
    have hcons : each (a :: l) f = (f a).andThen (each l f) := rfl
    rw [hcons, written_andThen hrest, ih]
    simp only [List.mapM_cons, bind_assoc, pure_bind, List.flatten_cons]

end Step

/-! ## What nodes write -/

namespace Node

variable (host : Host σ ε) (limit : Nat)

/-- What nodes write in a context, at the top level and with nothing before them. -/
def written (c : Context) (ns : List Node) : StateT σ (Except (RenderFault ε)) Text :=
  (eval host limit ns c []).written

/-- **A render comes to what the nodes of the template write.** -/
theorem result_renderWithin (t : Template) (data : Value) (h : σ) :
    (t.renderWithin limit host data h).result =
      (written host limit (.ofRoot data) t.root h).map (·.1) := by
  show (Rendering.ofRun (eval host limit t.root (.ofRoot data) [] ⟨.empty, [], h⟩)).result =
    (Step.outcome (eval host limit t.root (.ofRoot data) [] ⟨.empty, [], h⟩)).map (·.1)
  generalize eval host limit t.root (.ofRoot data) [] ⟨.empty, [], h⟩ = r
  obtain ⟨s, _ | fault⟩ := r
  · rfl
  · rfl

/-- A block with this name evaluates its body when there are bodies that it does something for. -/
def EvaluatesBody (c : Context) (h : σ) (name : Text) (inverted : Bool) : Prop :=
  ∃ body, written host limit c [.block name inverted body] h ≠ .ok ([], h)

theorem eval_append (ms ns : List Node) (c : Context) (indentation : Text) :
    eval host limit (ms ++ ns) c indentation =
      (eval host limit ms c indentation).andThen (eval host limit ns c indentation) := by
  cases limit with
  | zero => exact evalNodes_append host _ ms ns c indentation
  | succ limit => exact evalNodes_append host _ ms ns c indentation

theorem eval_section (name : Text) (body : List Node) (c : Context) (indentation : Text) :
    eval host limit [.block name false body] c indentation =
      .each (c.referent name).scopes fun scope =>
        eval host limit body (c.push scope) indentation := by
  cases limit <;> rw [eval, evalNodes, evalNodes, evalNode, Step.andThen_skip]

theorem eval_inverted (name : Text) (body : List Node) (c : Context) (indentation : Text) :
    eval host limit [.block name true body] c indentation =
      if (c.referent name).isPresent then .skip else eval host limit body c indentation := by
  cases limit <;> rw [eval, evalNodes, evalNodes, evalNode, Step.andThen_skip]

theorem written_text (s : Text) (c : Context) :
    written host limit c [.text s] = pure s := by
  have heval : eval host limit [.text s] c [] = .write (·.writeText [] s) := by
    cases limit <;> rw [eval, evalNodes, evalNodes, evalNode, Step.andThen_skip]
  funext h
  rw [written, heval]
  show Except.ok ((Sink.empty.writeText [] s).toText, h) = Except.ok (s, h)
  rw [Sink.toText_writeText_nil]
  rfl

theorem written_append (ms ns : List Node) (c : Context) :
    written host limit c (ms ++ ns) = (do
      let s ← written host limit c ms
      let t ← written host limit c ns
      return s ++ t) := by
  rw [written, eval_append]
  exact Step.written_andThen fun before => eval_follows host limit ns c fun _ => rfl

theorem written_section (name : Text) (body : List Node) (c : Context) :
    written host limit c [.block name false body] = (do
      let ss ← (c.referent name).scopes.mapM fun scope => written host limit (c.push scope) body
      return ss.flatten) := by
  rw [written, eval_section]
  exact Step.written_each fun scope before => eval_follows host limit body _ fun _ => rfl

theorem written_inverted (name : Text) (body : List Node) (c : Context) :
    written host limit c [.block name true body] =
      if (c.referent name).isPresent then pure [] else written host limit c body := by
  rw [written, eval_inverted]
  split
  · rfl
  · rfl

/-- A section evaluates its body when there is something to keep it for. -/
theorem evaluatesBody_section_iff (c : Context) (h : σ) (name : Text) :
    EvaluatesBody host limit c h name false ↔ (c.referent name).isPresent = true := by
  rw [Value.isPresent_iff_scopes_ne_nil]
  constructor
  · rintro ⟨body, hbody⟩ hnil
    rw [written_section, hnil] at hbody
    exact hbody rfl
  · intro hscopes
    refine ⟨[.text ['x']], ?_⟩
    rw [written_section]
    obtain ⟨v, vs, hvs⟩ := List.exists_cons_of_ne_nil hscopes
    simp only [written_text, List.mapM_pure, pure_bind, hvs, List.map_cons]
    intro heq
    cases heq

/-- An inverted section evaluates its body when there is nothing. -/
theorem evaluatesBody_inverted_iff (c : Context) (h : σ) (name : Text) :
    EvaluatesBody host limit c h name true ↔ (c.referent name).isPresent = false := by
  unfold EvaluatesBody
  simp only [written_inverted]
  cases (c.referent name).isPresent with
  | true =>
    constructor
    · rintro ⟨body, hbody⟩
      exact absurd rfl hbody
    · intro hfalse
      cases hfalse
  | false =>
    refine ⟨fun _ => rfl, fun _ => ⟨[.text ['x']], ?_⟩⟩
    rw [if_neg Bool.false_ne_true, written_text]
    intro heq
    cases heq

/-- **Rendering is compositional at the top level.** Lists of nodes in a row write one after the
other what each writes alone; a section writes what its body writes for each of the scopes in turn;
an inverted section writes what its body writes where there is nothing; and of the two exactly one
evaluates its body. -/
theorem written_compositional (c : Context) :
    (∀ ms ns, written host limit c (ms ++ ns) = do
      let s ← written host limit c ms
      let t ← written host limit c ns
      return s ++ t) ∧
    (∀ name body, written host limit c [.block name false body] = do
      let ss ← (c.referent name).scopes.mapM fun scope => written host limit (c.push scope) body
      return ss.flatten) ∧
    (∀ name body, written host limit c [.block name true body] =
      if (c.referent name).isPresent then pure [] else written host limit c body) ∧
    ∀ name h,
      EvaluatesBody host limit c h name true ↔ ¬ EvaluatesBody host limit c h name false := by
  refine ⟨fun ms ns => written_append host limit ms ns c,
    fun name body => written_section host limit name body c,
    fun name body => written_inverted host limit name body c, fun name h => ?_⟩
  rw [evaluatesBody_inverted_iff, evaluatesBody_section_iff, Bool.not_eq_true]

end Node
end
end Mustache
