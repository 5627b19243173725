import Mustache.Proofs.Render.Lined
import Mustache.Proofs.Template.Unjoined

/-!
# Rendering texts that are split

A text may be written at once or in parts. The sink keeps other pieces then, but they are the same
text when they are put together, and a line begins behind them or not as before: whether the cut is
in the middle of a line, at its end, or between the two characters of a line end, and whether or not
lines are indented (`Sink.writeText_append`). So two states of a render that differ in the pieces in
which the output was written go on alike (`Step.Regrouped`), and a template is rendered alike when
its texts are split, and those of the templates that it includes.

* `Sink.writeText_append` — writing two texts in a row
* `eval_regrouped` — rendering nodes whose texts are split
* `Template.renderWithin_of_split` — where texts are split cannot be seen
-/

namespace Mustache

open Text

/-! ## Sinks -/

/-- **Two texts in a row are written like the one that they make together.** -/
theorem Sink.writeText_append (o : Sink) (indentation s t : Text) :
    (o.writeText indentation (s ++ t)).Alike
      ((o.writeText indentation s).writeText indentation t) := by
  constructor
  · calc (o.writeText indentation (s ++ t)).toText
        = o.toText ++ indentBefore indentation o.lineBegins (s ++ t) := toText_writeText ..
      _ = (o.toText ++ indentBefore indentation o.lineBegins s) ++
          indentBefore indentation (lineBeginsAfter o.lineBegins s) t := by
        rw [indentBefore_append, List.append_assoc]
      _ = ((o.writeText indentation s).writeText indentation t).toText := by
        rw [toText_writeText, toText_writeText, lineBegins_writeText]
  · rw [lineBegins_writeText, lineBegins_writeText, lineBegins_writeText, lineBeginsAfter_append]

/-- So are any number of texts in a row. -/
theorem Sink.Alike.writeTexts {o o' : Sink} (h : o.Alike o') (indentation : Text)
    (parts : List Text) :
    (o.writeText indentation parts.flatten).Alike
      (parts.foldl (fun o s => o.writeText indentation s) o') := by
  induction parts generalizing o o' with
  | nil => exact h
  | cons s parts ih =>
    rw [List.flatten_cons, List.foldl_cons]
    exact (o.writeText_append indentation s parts.flatten).trans (ih (h.writeText indentation s))

/-! ## Steps -/

section

variable {σ ε α : Type}

/-- The states differ at most in the pieces in which the output was written. -/
structure RenderState.Regrouped (s s' : RenderState σ) : Prop where
  sink : s.sink.Alike s'.sink
  calls : s.calls = s'.calls
  host : s.host = s'.host

/-- Texts of the templates that the first host finds are split in those that the second one
finds. -/
structure Host.Split (host host' : Host σ ε) : Prop where
  escape : ∀ s, host.escape s = host'.escape s
  answer : ∀ name h,
    EndsAlike (Option.Rel Template.Split) (host.find name h).1 (host'.find name h).1
  state : ∀ name h, (host.find name h).2 = (host'.find name h).2

/-- The templates that are found may stay as they are. -/
theorem Host.Split.refl (host : Host σ ε) : host.Split host := by
  refine ⟨fun _ => rfl, fun name h => ?_, fun _ _ => rfl⟩
  rcases (host.find name h).1 with cause | _ | t
  · exact .error cause
  · exact .ok .none
  · exact .ok (.some (Node.Split.refl t.root))

namespace Step

variable {f f' g g' : Step σ ε}

/-- Done from states that differ in the pieces of the output, the steps get to such states, and fail
alike. -/
def Regrouped (f g : Step σ ε) : Prop :=
  ∀ s s', s.Regrouped s' → (f s).1.Regrouped (g s').1 ∧ (f s).2 = (g s').2

namespace Regrouped

theorem skip : Regrouped (skip : Step σ ε) skip := fun _ _ hs => ⟨hs, rfl⟩

theorem fail (fault : RenderFault ε) : Regrouped (fail fault : Step σ ε) (fail fault) :=
  fun _ _ hs => ⟨hs, rfl⟩

theorem write {f g : Sink → Sink} (h : ∀ {o o'}, o.Alike o' → (f o).Alike (g o')) :
    Regrouped (write f : Step σ ε) (write g) :=
  fun _ _ hs => ⟨⟨h hs.sink, hs.calls, hs.host⟩, rfl⟩

theorem andThen (hf : Regrouped f f') (hg : Regrouped g g') :
    Regrouped (f.andThen g) (f'.andThen g') := by
  intro s s' hs
  have hboth := hf s s' hs
  unfold Step.andThen
  generalize f s = r at hboth ⊢
  generalize f' s' = r' at hboth ⊢
  obtain ⟨t, fault⟩ := r
  obtain ⟨t', fault'⟩ := r'
  obtain ⟨ht, rfl⟩ : t.Regrouped t' ∧ fault = fault' := hboth
  cases fault with
  | none => exact hg t t' ht
  | some fault => exact ⟨ht, rfl⟩

theorem each {l : List α} {f g : α → Step σ ε} (h : ∀ a, Regrouped (f a) (g a)) :
    Regrouped (each l f) (each l g) := by
  induction l with
  | nil => exact .skip
  | cons a l ih => exact (h a).andThen ih

variable {host host' : Host σ ε}

theorem escaped (hsplit : host.Split host') (name s : Text) :
    Regrouped (escaped host name s) (escaped host' name s) := by
  intro st st' hst
  have hcalls : Call.escape s :: st.calls = Call.escape s :: st'.calls := congrArg _ hst.calls
  unfold Step.escaped
  rw [← hsplit.escape]
  cases host.escape s with
  | ok out =>
    have hsink := (Sink.Alike.iff_behind.mp hst.sink).writeValue out
    exact ⟨⟨Sink.Alike.iff_behind.mpr hsink, hcalls, hst.host⟩, rfl⟩
  | error cause => exact ⟨⟨hst.sink, hcalls, hst.host⟩, rfl⟩

/-- Inclusions go on alike when this holds of templates whose texts are split. -/
theorem found (hsplit : host.Split host') (name : Text) {expand expand' : Template → Step σ ε}
    (h : ∀ t t', Template.Split t t' → Regrouped (expand t) (expand' t')) :
    Regrouped (found host name expand) (found host' name expand') := by
  intro st st' hst
  have hcalls : Call.find name :: st.calls = Call.find name :: st'.calls := congrArg _ hst.calls
  have hanswer := hsplit.answer name st'.host
  have hstate := hsplit.state name st'.host
  simp only [Step.found, hst.host]
  generalize host.find name st'.host = r at hanswer hstate ⊢
  generalize host'.find name st'.host = r' at hanswer hstate ⊢
  obtain ⟨answer, h₁⟩ := r
  obtain ⟨answer', h₂⟩ := r'
  obtain rfl : h₁ = h₂ := hstate
  cases hanswer with
  | error cause => exact ⟨⟨hst.sink, hcalls, rfl⟩, rfl⟩
  | ok hfound =>
    cases hfound with
    | none => exact ⟨⟨hst.sink, hcalls, rfl⟩, rfl⟩
    | some ht => exact h _ _ ht _ _ ⟨hst.sink, hcalls, rfl⟩

end Regrouped
end Step

/-! ## Rendering -/

variable {host host' : Host σ ε}

theorem evalName_regrouped (hsplit : host.Split host') (c : Context) (name : Text)
    (escape : Bool) :
    Step.Regrouped (evalName host c name escape) (evalName host' c name escape) := by
  unfold evalName
  cases (c.referent name).text? with
  | error fault => exact .fail _
  | ok s =>
    simp only []
    split
    · exact .escaped hsplit name s
    · refine .write fun h => ?_
      exact Sink.Alike.iff_behind.mpr ((Sink.Alike.iff_behind.mp h).writeValue s)

/-- What rendering included templates is known for: whether texts are split cannot be seen. -/
def ExpandsRegrouped (expand expand' : List Node → Context → Text → Step σ ε) : Prop :=
  ∀ {ns ns'}, Node.Split ns ns' → ∀ c indentation,
    Step.Regrouped (expand ns c indentation) (expand' ns' c indentation)

variable {expand expand' : List Node → Context → Text → Step σ ε}

/-- A node that has none inside is rendered alike, if what is included is. -/
theorem evalNode_regrouped (hsplit : host.Split host') (hexpand : ExpandsRegrouped expand expand')
    {n : Node} (hn : n.children = []) (c : Context) (indentation : Text) :
    Step.Regrouped (evalNode host expand n c indentation)
      (evalNode host' expand' n c indentation) := by
  have hindent : Step.Regrouped (.write (·.writeIndentation indentation) : Step σ ε)
      (.write (·.writeIndentation indentation)) := .write fun h =>
    Sink.Alike.iff_behind.mpr ((Sink.Alike.iff_behind.mp h).writeIndentation nofun)
  cases n with
  | text s =>
    rw [evalNode, evalNode]
    exact .write fun h => h.writeText indentation s
  | interpolate name escape =>
    rw [evalNode, evalNode]
    exact hindent.andThen (evalName_regrouped hsplit c name escape)
  | block name inverted body =>
    obtain rfl : body = [] := hn
    cases inverted with
    | true =>
      rw [evalNode, evalNode]
      split
      · exact .skip
      · exact .skip
    | false =>
      rw [evalNode, evalNode]
      exact .each fun scope => .skip
  | inclusion name padding standalone =>
    cases standalone with
    | true =>
      rw [evalNode, evalNode]
      exact .found hsplit name fun t t' ht =>
        (Step.Regrouped.write fun h => h.startLine).andThen (hexpand ht c _)
    | false =>
      rw [evalNode, evalNode]
      exact hindent.andThen (.found hsplit name fun t t' ht => hexpand ht c [])

/-- Texts in a row are written one after the other. -/
theorem evalNodes_texts (parts : List Text) (c : Context) (indentation : Text) :
    evalNodes host expand (parts.map .text) c indentation =
      .write fun o => parts.foldl (fun o s => o.writeText indentation s) o := by
  induction parts with
  | nil => rfl
  | cons s parts ih =>
    rw [List.map_cons, evalNodes, evalNode, ih]
    rfl

/-- Nodes are rendered alike when their texts are split, if what is included is. -/
theorem evalNodes_regrouped (hsplit : host.Split host')
    (hexpand : ExpandsRegrouped expand expand') :
    ExpandsRegrouped (evalNodes host expand) (evalNodes host' expand') := by
  intro ns ns' h c indentation
  induction h generalizing c with
  | nil => exact .skip
  | leaf inside _ ih =>
    rw [evalNodes, evalNodes]
    exact (evalNode_regrouped hsplit hexpand inside c indentation).andThen (ih c)
  | @block name inverted _ _ _ _ _ _ ihbody ih =>
    rw [evalNodes, evalNodes]
    refine .andThen ?_ (ih c)
    cases inverted with
    | true =>
      rw [evalNode, evalNode]
      split
      · exact .skip
      · exact ihbody c
    | false =>
      rw [evalNode, evalNode]
      exact .each fun scope => ihbody (c.push scope)
  | text parts _ ih =>
    rw [evalNodes, evalNode, evalNodes_append, evalNodes_texts]
    exact .andThen (.write fun h => h.writeTexts indentation parts) (ih c)

/-- **Nodes are rendered alike when their texts are split**, with templates included at any
depth. -/
theorem eval_regrouped (hsplit : host.Split host') (limit : Nat) :
    ExpandsRegrouped (eval host limit) (eval host' limit) := by
  induction limit with
  | zero => exact evalNodes_regrouped hsplit fun _ _ _ => .fail .tooDeep
  | succ limit ih => exact evalNodes_regrouped hsplit ih

/-- Runs that end in states with the same output come to the same. -/
theorem Rendering.ofRun_of_regrouped {r r' : RenderState σ × Option (RenderFault ε)}
    (h : r.1.Regrouped r'.1 ∧ r.2 = r'.2) : ofRun r = ofRun r' := by
  obtain ⟨s, fault⟩ := r
  obtain ⟨s', fault'⟩ := r'
  obtain ⟨⟨hsink, hcalls, hhost⟩, rfl⟩ : s.Regrouped s' ∧ fault = fault' := h
  cases fault with
  | none => simp only [ofRun, hsink.text, hcalls, hhost]
  | some fault => simp only [ofRun, hcalls, hhost]

namespace Template

theorem Split.renderWithin {t t' : Template} (ht : t.Split t') (hsplit : host.Split host')
    (limit : Nat) (data : Value) (h : σ) :
    t.renderWithin limit host data h = t'.renderWithin limit host' data h :=
  Rendering.ofRun_of_regrouped (eval_regrouped hsplit limit ht (.ofRoot data) [] _ _
    ⟨.refl _, rfl, rfl⟩)

/-- **Where texts are split cannot be seen.** From every state of the output and with every
indentation, two texts written one after the other come to the same as the one that they make. So
nodes whose texts are split, at any depth, are rendered alike in every context and with every
indentation: from states whose outputs are the same, the same is written and the same calls are
made, and the render fails alike. Nor can it be seen whether texts of the templates that are
included are split. In particular it makes no difference to any render whether neighbouring texts
are joined while sources are parsed. -/
theorem renderWithin_of_split (host : Host σ ε) (limit : Nat) :
    (∀ (o : Sink) (indentation s t : Text),
      (o.writeText indentation (s ++ t)).Alike
        ((o.writeText indentation s).writeText indentation t)) ∧
    (∀ ns ns', Node.Split ns ns' → ∀ c indentation,
      Step.Regrouped (eval host limit ns c indentation) (eval host limit ns' c indentation)) ∧
    ∀ host', host.Split host' →
      (∀ t t' : Template, t.Split t' → ∀ data h,
        t.renderWithin limit host data h = t'.renderWithin limit host' data h) ∧
      ∀ name source d data h,
        (parse name source d).map (·.renderWithin limit host data h) =
          (parseUnjoined name source d).map (·.renderWithin limit host' data h) := by
  refine ⟨Sink.writeText_append, fun ns ns' h => eval_regrouped (.refl host) limit h,
    fun host' hsplit => ⟨fun t t' ht => ht.renderWithin hsplit limit,
      fun name source d data h => ?_⟩⟩
  have hparse := parse_split name source d
  generalize parse name source d = r at hparse ⊢
  generalize parseUnjoined name source d = r' at hparse ⊢
  cases hparse with
  | ok ht => exact congrArg Except.ok (ht.renderWithin hsplit limit data h)
  | error e => rfl

end Template

end

/-- A line end is split in the middle, and what is included is parsed without joining. -/
theorem Template.renderWithin_of_split_lineEnd :
    let source := "b\x7b\x7b!\x7d\x7d\nc".toText
    let host : Host Unit Empty :=
      ⟨.ok, fun name h => (.ok (parse name source .standard).toOption, h)⟩
    let host' : Host Unit Empty :=
      ⟨.ok, fun name h => (.ok (parseUnjoined name source .standard).toOption, h)⟩
    let inclusion : Node := .inclusion ['p'] [' ', ' '] true
    let t : Template := ⟨[], [.block ['x'] true [.text ['a', '\r', '\n'], inclusion]]⟩
    let t' : Template :=
      ⟨[], [.block ['x'] true [.text ['a', '\r'], .text ['\n'], inclusion]]⟩
    host.Split host' ∧ t.Split t' ∧
      (t'.renderWithin 1 host' .null ()).result = .ok "a\r\n  b\n  c".toText := by
  intro source host host' inclusion t t'
  have hhost : host.Split host' :=
    ⟨fun _ => rfl, fun name _ => .ok (parse_split name source .standard).toOption, fun _ _ => rfl⟩
  have ht : t.Split t' := .inside [] ['x'] true (.middle [] ['a', '\r'] ['\n'] [inclusion]) []
  have hresult : (t.renderWithin 1 host .null ()).result = .ok "a\r\n  b\n  c".toText := by
    decide +kernel
  rw [((renderWithin_of_split host 1).2.2 host' hhost).1 t t' ht] at hresult
  exact ⟨hhost, ht, hresult⟩

end Mustache
