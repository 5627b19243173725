import Mustache.Proofs.Render.Rules

/-!
# States with text before them

What a render writes does not depend on what was written before, apart from one thing: whether a
line begins. And even this is asked only where an indentation is in force. So two states of a render
that differ in the text written before, and otherwise only in whether a line begins, go on alike as
long as there is no indentation. Inside a template that is included with an indentation this is
asked, but such a template begins with a line of its own.

* `Sink.Behind.writeText` — writing text, the only place where lines count
* `eval_follows` — a render goes on alike behind any text
-/

namespace Mustache

open Text

/-! ## Sinks -/

/-- The second sink has some text in front of what has been written to the first. If the line
counts, a line begins in both or in neither. -/
structure Sink.Behind (before : Text) (line : Bool) (o o' : Sink) : Prop where
  text : o'.toText = before ++ o.toText
  begins : line = true → o.lineBegins = o'.lineBegins

namespace Sink

theorem toText_mk (s : Text) (w : List Text) (b : Bool) :
    toText ⟨s :: w, b⟩ = toText ⟨w, b⟩ ++ s := by
  simp [toText]

namespace Behind

variable {before indentation : Text} {line : Bool} {o o' : Sink}

theorem ignoreLine (h : o.Behind before true o') : o.Behind before line o' :=
  ⟨h.text, fun _ => h.begins rfl⟩

theorem put (h : o.Behind before line o') (s : Text) : (o.put s).Behind before true (o'.put s) := by
  refine ⟨?_, fun _ => rfl⟩
  rw [toText_put, toText_put, h.text, List.append_assoc]

theorem writeValue (h : o.Behind before line o') (s : Text) :
    (o.writeValue s).Behind before line (o'.writeValue s) := by
  refine ⟨?_, fun hline => ?_⟩
  · rw [toText_writeValue, toText_writeValue, h.text, List.append_assoc]
  · unfold Sink.writeValue
    split
    · exact h.begins hline
    · rfl

theorem startLine (h : o.Behind before line o') : o.startLine.Behind before true o'.startLine :=
  ⟨h.text, fun _ => rfl⟩

theorem writeIndentation (h : o.Behind before line o') (hi : line = false → indentation = []) :
    (o.writeIndentation indentation).Behind before line (o'.writeIndentation indentation) := by
  unfold Sink.writeIndentation
  by_cases hnil : indentation = []
  · rw [if_neg fun hboth => hboth.1 hnil, if_neg fun hboth => hboth.1 hnil]
    exact h
  · -- with an indentation the line counts
    have hline : line = true := by
      cases line with
      | true => rfl
      | false => exact absurd (hi rfl) hnil
    rw [h.begins hline]
    split
    · refine ⟨?_, fun _ => rfl⟩
      have htext : Sink.toText ⟨o'.written, false⟩ = before ++ Sink.toText ⟨o.written, false⟩ :=
        h.text
      rw [toText_mk, toText_mk, htext, List.append_assoc]
    · exact h

theorem foldl_put (h : o.Behind before true o') (indentation : Text) (ls : List Text) :
    (ls.foldl (fun o line => (o.writeIndentation indentation).put line) o).Behind before true
      (ls.foldl (fun o line => (o.writeIndentation indentation).put line) o') := by
  induction ls generalizing o o' with
  | nil => exact h
  | cons l ls ih => exact ih ((h.writeIndentation nofun).put l)

/-- Text is written alike, if it is not indented or the line counts. -/
theorem writeText (h : o.Behind before line o') (hi : line = false → indentation = [])
    (s : Text) : (o.writeText indentation s).Behind before line (o'.writeText indentation s) := by
  unfold Sink.writeText
  split
  · exact h
  · split
    · exact (h.put s).ignoreLine
    · next hne =>
      cases line with
      | true => exact h.foldl_put indentation (lines s)
      | false => exact absurd (hi rfl) hne

end Behind
end Sink

/-! ## Steps -/

section

variable {σ ε α : Type}

/-- The second sink has some text in front of the first, and the hosts are the same. -/
structure RenderState.Behind (before : Text) (line : Bool) (s s' : RenderState σ) : Prop where
  sink : s.sink.Behind before line s'.sink
  host : s.host = s'.host

namespace Step

variable {before : Text} {line : Bool} {f g : Step σ ε}

/-- The step goes on alike from states one of which has some text in front. -/
def Follows (before : Text) (line : Bool) (f : Step σ ε) : Prop :=
  ∀ s s' : RenderState σ, s.Behind before line s' →
    (f s).1.Behind before line (f s').1 ∧ (f s).2 = (f s').2

theorem Follows.skip : (skip : Step σ ε).Follows before line := fun _ _ h => ⟨h, rfl⟩

theorem Follows.fail (fault : RenderFault ε) :
    (fail fault : Step σ ε).Follows before line :=
  fun _ _ h => ⟨h, rfl⟩

theorem Follows.write {f : Sink → Sink}
    (h : ∀ {o o' : Sink}, o.Behind before line o' → (f o).Behind before line (f o')) :
    (write f : Step σ ε).Follows before line :=
  fun _ _ hs => ⟨⟨h hs.sink, hs.host⟩, rfl⟩

theorem Follows.andThen (hf : f.Follows before line) (hg : g.Follows before line) :
    (f.andThen g).Follows before line := by
  intro s s' h
  have hboth := hf s s' h
  unfold Step.andThen
  generalize f s = r at hboth ⊢
  generalize f s' = r' at hboth ⊢
  obtain ⟨t, fault⟩ := r
  obtain ⟨t', fault'⟩ := r'
  obtain ⟨hbehind, rfl⟩ : t.Behind before line t' ∧ fault = fault' := hboth
  cases fault with
  | none => exact hg t t' hbehind
  | some fault => exact ⟨hbehind, rfl⟩

theorem Follows.each {l : List α} {f : α → Step σ ε} (h : ∀ a, (f a).Follows before line) :
    (each l f).Follows before line := by
  induction l with
  | nil => exact .skip
  | cons a l ih => exact (h a).andThen ih

/-- Where a line is begun anyway, it does not count whether one began before. -/
theorem Follows.startLine (hg : g.Follows before true) :
    ((Step.write Sink.startLine).andThen g).Follows before line := by
  intro s s' h
  have hline : RenderState.Behind before true { s with sink := s.sink.startLine }
      { s' with sink := s'.sink.startLine } := ⟨h.sink.startLine, h.host⟩
  obtain ⟨hbehind, hfault⟩ := hg _ _ hline
  exact ⟨⟨hbehind.sink.ignoreLine, hbehind.host⟩, hfault⟩

theorem Follows.escaped (host : Host σ ε) (name s : Text) :
    (escaped host name s).Follows before line := by
  intro st st' h
  unfold Step.escaped
  cases host.escape s with
  | ok out => exact ⟨⟨h.sink.writeValue out, h.host⟩, rfl⟩
  | error cause => exact ⟨⟨h.sink, h.host⟩, rfl⟩

theorem Follows.found (host : Host σ ε) (name : Text) {expand : Template → Step σ ε}
    (h : ∀ t, (expand t).Follows before line) :
    (found host name expand).Follows before line := by
  intro st st' hs
  simp only [Step.found, hs.host]
  generalize host.find name st'.host = r
  obtain ⟨_ | _ | t, host'⟩ := r
  · exact ⟨⟨hs.sink, rfl⟩, rfl⟩
  · exact ⟨⟨hs.sink, rfl⟩, rfl⟩
  · exact h t _ _ ⟨hs.sink, rfl⟩

end Step

/-! ## Rendering -/

variable (host : Host σ ε) {expand : List Node → Context → Text → Step σ ε} {before : Text}
  {line : Bool} {indentation : Text}

theorem evalName_follows (c : Context) (name : Text) (escape : Bool) :
    (evalName host c name escape).Follows before line :=
  evalName_of_steps host host (P := fun f _ => f.Follows before line) (fun _ => .fail _)
    (.escaped host) (fun s => .write fun h => h.writeValue s) c name escape

/-- Nodes are rendered alike behind any text, if there is no indentation or the line counts, and if
what is included is. -/
theorem Step.Follows.rules
    (hbegun : ∀ ns c indentation, (expand ns c indentation).Follows before true)
    (hinline : ∀ ns c, (expand ns c []).Follows before line) :
    EvalRules host host expand expand (fun _ => True) Eq
      (fun indentation => line = false → indentation = []) (fun f _ => f.Follows before line) where
  skip := .skip
  andThen := .andThen
  text := fun _ hi => .write fun h => h.writeText hi _
  indentation := fun hi => .write fun h => h.writeIndentation hi
  name := fun _ _ => evalName_follows host _ _ _
  referent := fun _ hc => hc ▸ rfl
  push := fun scope hc => congrArg (·.push scope) hc
  -- inside there may be an indentation, but a line begins
  ownLine := fun _ _ _ => .found host _ fun _ => .startLine (hbegun _ _ _)
  inLine := fun _ _ => .found host _ fun _ => hinline _ _

theorem evalNodes_follows
    (hbegun : ∀ ns c indentation, (expand ns c indentation).Follows before true)
    (hinline : ∀ ns c, (expand ns c []).Follows before line)
    (ns : List Node) (c : Context) (hi : line = false → indentation = []) :
    (evalNodes host expand ns c indentation).Follows before line :=
  (Step.Follows.rules host hbegun hinline).nodes ns (by simp) rfl hi

/-- **A render goes on alike behind any text**, if there is no indentation or the line counts. -/
theorem eval_follows (depth : Nat) (ns : List Node) (c : Context)
    (hi : line = false → indentation = []) :
    (eval host depth ns c indentation).Follows before line := by
  induction depth generalizing ns c line indentation with
  | zero => exact evalNodes_follows host (fun _ _ _ => .fail _) (fun _ _ => .fail _) ns c hi
  | succ depth ih =>
    have hbegun (ns : List Node) (c : Context) (indentation : Text) :
        (eval host depth ns c indentation).Follows before true := ih ns c nofun
    exact evalNodes_follows host hbegun (fun ns c => ih ns c fun _ => rfl) ns c hi

end

end Mustache
