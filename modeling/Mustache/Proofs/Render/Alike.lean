import Mustache.Proofs.Render.Behind

/-!
# States that are alike

Two states of a render are alike when the same has been written, a line begins in both or in
neither, and their hosts are the same; the pieces in which the output was written and the calls on
record may differ. A render cannot tell such states apart: each is behind the other by no text at
all.

Two steps agree where the states they are done from, if alike, stay alike and both steps fail in the
same way or not at all. A step ensures a property when all states have it that it reaches without
failing. Steps in a row agree when the first ensures what the second needs.

* `Step.Agrees.andThen`, `Step.Agrees.each` — agreement goes through what steps are made of
* `eval_respects` — a render goes on alike from states that are alike
-/

namespace Mustache

open Text

/-! ## Sinks -/

/-- The same has been written, and a line begins in both or in neither. -/
structure Sink.Alike (o o' : Sink) : Prop where
  text : o.toText = o'.toText
  line : o.lineBegins = o'.lineBegins

namespace Sink

namespace Alike

variable {o o' o'' : Sink}

theorem refl (o : Sink) : o.Alike o := ⟨rfl, rfl⟩

theorem trans (h : o.Alike o') (h' : o'.Alike o'') : o.Alike o'' :=
  ⟨h.text.trans h'.text, h.line.trans h'.line⟩

/-- Sinks are alike when one is behind the other by no text. -/
theorem iff_behind : o.Alike o' ↔ o.Behind [] true o' :=
  ⟨fun h => ⟨h.text.symm, fun _ => h.line⟩, fun h => ⟨h.text.symm, h.begins rfl⟩⟩

theorem foldl_put (h : o.Alike o') (indentation : Text) (ls : List Text) :
    (ls.foldl (fun o line => (o.writeIndentation indentation).put line) o).Alike
      (ls.foldl (fun o line => (o.writeIndentation indentation).put line) o') :=
  iff_behind.mpr ((iff_behind.mp h).foldl_put indentation ls)

theorem writeText (h : o.Alike o') (indentation s : Text) :
    (o.writeText indentation s).Alike (o'.writeText indentation s) :=
  iff_behind.mpr ((iff_behind.mp h).writeText nofun s)

theorem startLine (h : o.Alike o') : o.startLine.Alike o'.startLine := ⟨h.text, rfl⟩

end Alike
end Sink

/-! ## Steps -/

section

variable {σ ε α : Type}

/-- The sinks are alike and the hosts the same. -/
structure RenderState.Alike (s s' : RenderState σ) : Prop where
  sink : s.sink.Alike s'.sink
  host : s.host = s'.host

theorem RenderState.Alike.refl (s : RenderState σ) : s.Alike s := ⟨.refl _, rfl⟩

namespace Step

variable {P Q R : RenderState σ → Prop} {f f' g g' h : Step σ ε}

/-- What the steps do from states that are alike leaves them alike, if the first state has the
property. -/
def Agrees (P : RenderState σ → Prop) (f g : Step σ ε) : Prop :=
  ∀ s s', s.Alike s' → P s → (f s).1.Alike (g s').1 ∧ (f s).2 = (g s').2

/-- The step cannot tell states that are alike from each other. -/
def Respects (f : Step σ ε) : Prop := Agrees (fun _ => True) f f

/-- From a state with the one property the step gets to one with the other, unless it fails. -/
def Ensures (P : RenderState σ → Prop) (f : Step σ ε) (Q : RenderState σ → Prop) : Prop :=
  ∀ s, P s → (f s).2 = none → Q (f s).1

/-! ## What steps ensure -/

theorem Ensures.skip : Ensures P (skip : Step σ ε) P := fun _ hs _ => hs

theorem Ensures.fail (fault : RenderFault ε) : Ensures P (fail fault) Q := by
  intro s _ hnone
  cases hnone

theorem Ensures.andThen (hf : Ensures P f Q) (hg : Ensures Q g R) :
    Ensures P (f.andThen g) R := by
  intro s hs hnone
  unfold Step.andThen at hnone ⊢
  have hq := hf s hs
  generalize f s = r at hq hnone ⊢
  obtain ⟨s', _ | fault⟩ := r
  · exact hg s' (hq rfl) hnone
  · cases hnone

theorem Ensures.each {l : List α} {f : α → Step σ ε} (hf : ∀ a, Ensures P (f a) P) :
    Ensures P (each l f) P := by
  induction l with
  | nil => exact .skip
  | cons a l ih => exact (hf a).andThen ih

/-- An inclusion ensures what the templates found ensure, if looking for a template disturbs
nothing. -/
theorem Ensures.found {host : Host σ ε} {name : Text} {expand : Template → Step σ ε}
    {good : Template → Prop}
    (hkeeps : ∀ s : RenderState σ, P s →
      P ⟨s.sink, .find name :: s.calls, (host.find name s.host).2⟩)
    (hgood : ∀ (s : RenderState σ) (t : Template), P s →
      (host.find name s.host).1 = .ok (some t) → good t)
    (hexpand : ∀ t, good t → Ensures P (expand t) P) :
    Ensures P (Step.found host name expand) P := by
  intro s hs hnone
  have hs' := hkeeps s hs
  have ht := fun t => hgood s t hs
  simp only [Step.found] at hnone ⊢
  generalize host.find name s.host = r at hs' ht hnone ⊢
  obtain ⟨_ | _ | t, host'⟩ := r
  · cases hnone
  · exact hs'
  · exact hexpand t (ht t rfl) _ hs' hnone

/-! ## Steps that agree -/

theorem Agrees.skip : Agrees P (skip : Step σ ε) skip := fun _ _ hs _ => ⟨hs, rfl⟩

theorem Agrees.fail (fault : RenderFault ε) : Agrees P (fail fault) (fail fault) :=
  fun _ _ hs _ => ⟨hs, rfl⟩

theorem Agrees.write {f g : Sink → Sink}
    (h : ∀ s s' : RenderState σ, s.sink.Alike s'.sink → P s → (f s.sink).Alike (g s'.sink)) :
    Agrees P (write f : Step σ ε) (write g) :=
  fun s s' hs hp => ⟨⟨h s s' hs.sink hp, hs.host⟩, rfl⟩

/-- **Steps in a row agree when the first one ensures what the second needs.** -/
theorem Agrees.andThen (hf : Agrees P f f') (hq : Ensures P f Q) (hg : Agrees Q g g') :
    Agrees P (f.andThen g) (f'.andThen g') := by
  intro s s' hs hp
  have hboth := hf s s' hs hp
  have hens := hq s hp
  unfold Step.andThen
  generalize f s = r at hboth hens ⊢
  generalize f' s' = r' at hboth ⊢
  obtain ⟨t, fault⟩ := r
  obtain ⟨t', fault'⟩ := r'
  obtain ⟨halike, rfl⟩ : t.Alike t' ∧ fault = fault' := hboth
  cases fault with
  | none => exact hg t t' halike (hens rfl)
  | some fault => exact ⟨halike, rfl⟩

theorem Agrees.each {l : List α} {f g : α → Step σ ε} (h : ∀ a, Agrees P (f a) (g a))
    (hens : ∀ a, Ensures P (f a) P) : Agrees P (each l f) (each l g) := by
  induction l with
  | nil => exact .skip
  | cons a l ih => exact (h a).andThen (hens a) ih

/-- Agreement may be continued by agreement everywhere. -/
theorem Agrees.trans (h₁ : Agrees P f g) (h₂ : Agrees (fun _ => True) g h) : Agrees P f h := by
  intro s s' hs hp
  obtain ⟨halike, hfault⟩ := h₁ s s' hs hp
  obtain ⟨halike', hfault'⟩ := h₂ s' s' (.refl s') True.intro
  exact ⟨⟨halike.sink.trans halike'.sink, halike.host.trans halike'.host⟩,
    hfault.trans hfault'⟩

theorem Ensures.anything : Ensures P f fun _ => True := fun _ _ _ => True.intro

/-- A step respects what is alike when it goes on alike behind no text. -/
theorem respects_iff_follows : f.Respects ↔ f.Follows [] true := by
  constructor
  · intro h s s' hs
    obtain ⟨halike, hfault⟩ := h s s' ⟨Sink.Alike.iff_behind.mpr hs.sink, hs.host⟩ True.intro
    exact ⟨⟨Sink.Alike.iff_behind.mp halike.sink, halike.host⟩, hfault⟩
  · intro h s s' hs _
    obtain ⟨hbehind, hfault⟩ := h s s' ⟨Sink.Alike.iff_behind.mp hs.sink, hs.host⟩
    exact ⟨⟨Sink.Alike.iff_behind.mpr hbehind.sink, hbehind.host⟩, hfault⟩

theorem Respects.agrees (h : f.Respects) : Agrees P f f :=
  fun s s' hs _ => h s s' hs True.intro

theorem Agrees.found (host : Host σ ε) (name : Text) {expand : Template → Step σ ε}
    (h : ∀ t, (expand t).Respects) :
    Agrees P (found host name expand) (found host name expand) := by
  intro st st' hs _
  simp only [Step.found, hs.host]
  generalize host.find name st'.host = r
  obtain ⟨_ | _ | t, host'⟩ := r
  · exact ⟨⟨hs.sink, rfl⟩, rfl⟩
  · exact ⟨⟨hs.sink, rfl⟩, rfl⟩
  · exact h t _ _ ⟨hs.sink, rfl⟩ True.intro

end Step

/-! ## Rendering -/

variable (host : Host σ ε)

theorem evalName_agrees {P : RenderState σ → Prop} (c : Context) (name : Text) (escape : Bool) :
    Step.Agrees P (evalName host c name escape) (evalName host c name escape) :=
  (Step.respects_iff_follows.mpr (evalName_follows host c name escape)).agrees

variable {expand : List Node → Context → Text → Step σ ε}

theorem evalNodes_respects (hexpand : ∀ ns c indentation, (expand ns c indentation).Respects)
    (ns : List Node) (c : Context) (indentation : Text) :
    (evalNodes host expand ns c indentation).Respects := by
  have hfollows (ns : List Node) (c : Context) (indentation : Text) :
      (expand ns c indentation).Follows [] true :=
    Step.respects_iff_follows.mp (hexpand ns c indentation)
  exact Step.respects_iff_follows.mpr
    (evalNodes_follows host hfollows (fun ns c => hfollows ns c []) ns c nofun)

/-- **A render goes on alike from states that are alike.** -/
theorem eval_respects (depth : Nat) (ns : List Node) (c : Context) (indentation : Text) :
    (eval host depth ns c indentation).Respects :=
  Step.respects_iff_follows.mpr (eval_follows host depth ns c nofun)

end

/-- Of runs that agree the results are the same. -/
theorem Rendering.result_ofRun_of_alike {σ ε : Type}
    {r r' : RenderState σ × Option (RenderFault ε)} (h : r.1.Alike r'.1 ∧ r.2 = r'.2) :
    (ofRun r).result = (ofRun r').result := by
  obtain ⟨s, fault⟩ := r
  obtain ⟨s', fault'⟩ := r'
  obtain ⟨halike, rfl⟩ : s.Alike s' ∧ fault = fault' := h
  cases fault with
  | none => exact congrArg Except.ok halike.sink.text
  | some fault => rfl

end Mustache
