import Mustache.Proofs.Escape
import Mustache.Proofs.Render.Lined
import Mustache.Proofs.Store.Offered
import Mustache.Proofs.Template.Walk

/-!
# Output that is no markup

Where all values are escaped and the templates hold no character of markup, the output holds no
markup either (`Escape.Inert`), whatever the data are. A value gets into the output in one place
only, and there it is escaped; everything else that is written is text of a template, or an
indentation made of the paddings of inclusions.

* `eval_ensures_inert` — rendering guarded nodes writes no markup
* `Template.inert_of_render` — nor does rendering a guarded template that includes such templates
-/

namespace Mustache

open Text

/-! ## Guarded templates -/

/-- The node writes no markup of its own: its value is escaped, and its text, or the indentation
that it hands on, holds no character of markup. -/
def Node.Guarded : Node → Prop
  | .text s => Escape.Plain s
  | .interpolate _ escape => escape = true
  | .block .. => True
  | .inclusion _ indentation _ => Escape.Plain indentation

/-- All nodes of the template are guarded, at any depth. -/
def Template.Guarded (t : Template) : Prop := ∀ n ∈ t.allNodes, n.Guarded

section

variable {σ ε : Type}

/-! ## What rendering writes -/

/-- No markup has been written, and the host has been asked for templates only. -/
structure RenderState.Inert (host : Host σ ε) (h : σ) (s : RenderState σ) : Prop where
  text : Escape.Inert s.sink.toText
  host : host.Reaches h s.host

variable {host : Host σ ε} {h : σ}

open RenderState (Inert)

namespace Step

/-- To write more text that is no markup. -/
theorem Ensures.write_inert {f : Sink → Sink}
    (hf : ∀ o : Sink, ∃ more, (f o).toText = o.toText ++ more ∧ Escape.Inert more) :
    Ensures (Inert host h) (Step.write f : Step σ ε) (Inert host h) := by
  intro s hs _
  obtain ⟨more, hmore, hinert⟩ := hf s.sink
  refine ⟨?_, hs.host⟩
  show Escape.Inert (f s.sink).toText
  rw [hmore]
  exact hs.text.append hinert

theorem Ensures.writeText {indentation s : Text} (hi : Escape.Plain indentation)
    (hs : Escape.Plain s) :
    Ensures (Inert host h) (Step.write (·.writeText indentation s) : Step σ ε) (Inert host h) := by
  refine .write_inert fun o => ⟨_, o.toText_writeText indentation s, ?_⟩
  apply Escape.Plain.inert
  intro c hc
  exact (mem_indentBefore indentation hc).elim (hi c) (hs c)

theorem Ensures.writeIndentation {indentation : Text} (hi : Escape.Plain indentation) :
    Ensures (Inert host h) (Step.write (·.writeIndentation indentation) : Step σ ε)
      (Inert host h) := by
  refine .write_inert fun o => ⟨_, o.toText_writeIndentation indentation, ?_⟩
  apply Escape.Plain.inert
  intro c hc
  exact hi c (mem_of_mem_lead hc)

theorem Ensures.writeValue {s : Text} (hs : Escape.Inert s) :
    Ensures (Inert host h) (Step.write (·.writeValue s) : Step σ ε) (Inert host h) :=
  .write_inert fun o => ⟨s, o.toText_writeValue s, hs⟩

/-- An inclusion ensures what guarded templates ensure. -/
theorem Ensures.found_guarded (hoffers : host.Offers h Template.Guarded) {name : Text}
    {expand : Template → Step σ ε}
    (hexpand : ∀ t : Template, t.Guarded → Ensures (Inert host h) (expand t) (Inert host h)) :
    Ensures (Inert host h) (Step.found host name expand) (Inert host h) :=
  .found (fun _ hs => ⟨hs.text, .find name hs.host⟩) (fun s t hs => hoffers s.host name t hs.host)
    hexpand

end Step

theorem evalName_ensures_inert (hescape : ∀ s, host.escape s = .ok (Escape.html s)) (c : Context)
    (name : Text) :
    Step.Ensures (Inert host h) (evalName host c name true) (Inert host h) := by
  unfold evalName
  cases (c.referent name).text? with
  | error fault => exact .fail _
  | ok s =>
    simp only [true_and]
    split
    · intro st hst _
      unfold Step.escaped
      simp only [hescape]
      refine ⟨?_, hst.host⟩
      rw [Sink.toText_writeValue]
      exact hst.text.append (Escape.inert_html s)
    · next hs =>
      rw [Decidable.not_not.mp hs]
      exact .writeValue (Escape.Plain.inert nofun)

variable {expand expand' : List Node → Context → Text → Step σ ε}

/-- Rendering guarded nodes writes no markup, if rendering what is included does not. -/
theorem Step.Ensures.rules_inert (hescape : ∀ s, host.escape s = .ok (Escape.html s))
    (hoffers : host.Offers h Template.Guarded)
    (hexpand : ∀ ns c c' indentation, (∀ n ∈ Node.visit ns, n.Guarded) → c = c' →
      Escape.Plain indentation →
      Step.Ensures (Inert host h) (expand ns c indentation) (Inert host h)) :
    EvalRules host host expand expand' Node.Guarded Eq Escape.Plain
      (fun f _ => Step.Ensures (Inert host h) f (Inert host h)) where
  skip := .skip
  andThen := .andThen
  text := fun hn hi => .writeText hi hn
  indentation := fun hi => .writeIndentation hi
  name := by
    intro name escape c _ hn _
    obtain rfl : escape = true := hn
    exact evalName_ensures_inert hescape c name
  referent := fun _ hc => hc ▸ rfl
  push := fun scope hc => congrArg (·.push scope) hc
  ownLine := by
    intro name padding c c' indentation hn hc hi
    refine .found_guarded hoffers fun t ht => ?_
    have hstart : Step.Ensures (Inert host h) (.write Sink.startLine : Step σ ε) (Inert host h) :=
      fun st hst _ => ⟨hst.text, hst.host⟩
    exact hstart.andThen (hexpand t.root c c' (indentation ++ padding) ht hc (hi.append hn))
  inLine := by
    intro name padding c c' _ hc
    exact .found_guarded hoffers fun t ht => hexpand t.root c c' [] ht hc nofun

/-- **Rendering guarded nodes writes no markup**, at any depth of inclusion. -/
theorem eval_ensures_inert (hescape : ∀ s, host.escape s = .ok (Escape.html s))
    (hoffers : host.Offers h Template.Guarded) (depth : Nat) (ns : List Node) (c : Context)
    (indentation : Text) (hns : ∀ n ∈ Node.visit ns, n.Guarded) (hi : Escape.Plain indentation) :
    Step.Ensures (Inert host h) (eval host depth ns c indentation) (Inert host h) :=
  eval_of_rules (P := fun f (_ : Step σ ε) => Step.Ensures (Inert host h) f (Inert host h))
    (Step.Ensures.rules_inert hescape hoffers) (.fail _) depth ns c c indentation hns rfl hi

/-- **A guarded template that includes guarded templates renders to text without markup**, when
values are escaped and whatever the data are. -/
theorem Template.inert_of_render (hescape : ∀ s, host.escape s = .ok (Escape.html s))
    {t : Template} (ht : t.Guarded) (hoffers : host.Offers h Template.Guarded) {limit : Nat}
    {data : Value} {out : Text} (hout : (t.renderWithin limit host data h).result = .ok out) :
    Escape.Inert out := by
  have hstart : Inert host h ⟨.empty, [], h⟩ := ⟨Escape.Plain.inert nofun, .refl⟩
  have hend := eval_ensures_inert hescape hoffers limit t.root (.ofRoot data) [] ht nofun _ hstart
  unfold renderWithin at hout
  generalize eval host limit t.root (.ofRoot data) [] ⟨.empty, [], h⟩ = r at hout hend
  obtain ⟨s, _ | fault⟩ := r
  · obtain rfl := Except.ok.inj hout
    exact (hend rfl).text
  · cases hout

end

/-- A cell: a value, and a further cell if there is more. -/
def cell : Template :=
  ⟨"cell".toText, [.text "a ".toText, .interpolate "v".toText true, .text ['\n'],
    .block "more".toText false [.inclusion "cell".toText ['\t'] true]]⟩

/-- Values that hold markup, one in a list. -/
def cells : Value :=
  .map [("v".toText, .list [.str "<&>".toText]),
    ("more".toText, .map [("v".toText, .str "&lt;\"".toText), ("more".toText, .null)])]

/-- A cell that includes itself, with a list and a mapping for its data. -/
theorem Template.inert_of_render_cell :
    ∃ host store, Partials.host (fun s => (.ok (Escape.html s) : Except Text Text))
        (.table [("cell".toText, .finished cell)]) = .ok (host, store) ∧
      (∀ s, host.escape s = .ok (Escape.html s)) ∧ cell.Guarded ∧
      host.Offers store Template.Guarded ∧
      (cell.renderWithin 2 host cells store).result =
        .ok "a ['&lt;&amp;&gt;']\n\ta &amp;lt;&quot;\n".toText ∧
      Escape.Inert "a ['&lt;&amp;&gt;']\n\ta &amp;lt;&quot;\n".toText := by
  have hescape (s : Text) : (Store.host Partials.noFiles
      (fun s => (.ok (Escape.html s) : Except Text Text))).escape s = .ok (Escape.html s) := rfl
  have hcell : cell.Guarded := by
    unfold Template.Guarded Template.allNodes cell
    simp only [Node.forall_visit_cons, Node.children, Node.Guarded]
    simp [Node.visit, Escape.Plain, Escape.markup, String.toText]
  have hoffers : (Store.host Partials.noFiles
      (fun s => (.ok (Escape.html s) : Except Text Text))).Offers
        ⟨[("cell".toText, cell)], none, []⟩ Template.Guarded := by
    refine Store.offers_of_kept _ _ rfl fun name t hget => ?_
    simp only [Table.get?, Option.ite_none_right_eq_some, Option.some.injEq] at hget
    exact hget.2 ▸ hcell
  have hout : (cell.renderWithin 2 (Store.host Partials.noFiles
      (fun s => (.ok (Escape.html s) : Except Text Text))) cells
        ⟨[("cell".toText, cell)], none, []⟩).result =
        .ok "a ['&lt;&amp;&gt;']\n\ta &amp;lt;&quot;\n".toText := by
    decide +kernel
  exact ⟨_, _, rfl, hescape, hcell, hoffers, hout, inert_of_render hescape hcell hoffers hout⟩

end Mustache
