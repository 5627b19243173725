import Mustache.Proofs.Render.Rules

/-!
# Renders that end

A render gives up when more templates include each other than its limit allows. With a greater limit
it does the same, and goes on where it gave up. So a render that ends with a small limit ends in the
same way with every greater one, and what it ends with (`Template.Ends`) does not depend on a limit.

* `eval_outlasts` — a greater limit changes only what got too deep
* `Template.renderWithin_of_le` — a render that ends, with a greater limit
* `Template.Ends.unique` — a render ends with one result at most
-/

namespace Mustache

open Text

section

variable {σ ε α : Type}

namespace Step

variable {f f' g g' : Step σ ε}

/-- The step does what the other one does, unless the other gets too deep. -/
def Outlasts (g f : Step σ ε) : Prop := ∀ s, (f s).2 ≠ some .tooDeep → g s = f s

theorem Outlasts.refl (f : Step σ ε) : f.Outlasts f := fun _ _ => rfl

theorem Outlasts.tooDeep (g : Step σ ε) : g.Outlasts (fail .tooDeep) := by
  intro s hs
  exact absurd rfl hs

theorem Outlasts.andThen (hf : f'.Outlasts f) (hg : g'.Outlasts g) :
    (f'.andThen g').Outlasts (f.andThen g) := by
  intro s hs
  have hfirst := hf s
  unfold Step.andThen at hs ⊢
  generalize f s = r at hs hfirst ⊢
  obtain ⟨t, _ | fault⟩ := r
  · rw [hfirst (by rintro ⟨⟩)]
    exact hg t hs
  · rw [hfirst hs]

theorem Outlasts.found (host : Host σ ε) (name : Text) {expand expand' : Template → Step σ ε}
    (h : ∀ t, (expand' t).Outlasts (expand t)) :
    (Step.found host name expand').Outlasts (Step.found host name expand) := by
  intro s hs
  simp only [Step.found] at hs ⊢
  generalize host.find name s.host = r at hs ⊢
  obtain ⟨_ | _ | t, host'⟩ := r
  · rfl
  · rfl
  · exact h t _ hs

end Step

/-! ## Rendering -/

variable (host : Host σ ε) {expand expand' : List Node → Context → Text → Step σ ε}

/-- A render of nodes outlasts another, if that of included ones does. -/
theorem Step.Outlasts.rules
    (hexpand : ∀ ns c indentation, (expand' ns c indentation).Outlasts (expand ns c indentation)) :
    EvalRules host host expand' expand (fun _ => True) Eq (fun _ => True) Step.Outlasts where
  skip := .refl _
  andThen := .andThen
  text := fun _ _ => .refl _
  indentation := fun _ => .refl _
  name := by
    rintro name escape c _ - rfl
    exact .refl _
  referent := fun _ hc => hc ▸ rfl
  push := fun scope hc => congrArg (·.push scope) hc
  ownLine := by
    rintro name padding c _ indentation - rfl -
    exact .found host name fun t => (Step.Outlasts.refl _).andThen (hexpand _ _ _)
  inLine := by
    rintro name padding c _ - rfl
    exact .found host name fun t => hexpand _ _ _

/-- **A greater limit changes only what got too deep.** -/
theorem eval_outlasts (depth : Nat) (ns : List Node) (c : Context) (indentation : Text) :
    (eval host (depth + 1) ns c indentation).Outlasts (eval host depth ns c indentation) := by
  induction depth generalizing ns c indentation with
  | zero => exact (Step.Outlasts.rules host fun _ _ _ => .tooDeep _).nodes ns (by simp) rfl trivial
  | succ depth ih => exact (Step.Outlasts.rules host ih).nodes ns (by simp) rfl trivial

end

/-! ## Results -/

section

variable {σ ε : Type} {host : Host σ ε} {t : Template} {data : Value} {h : σ}

theorem Rendering.result_ofRun_eq_tooDeep_iff {r : RenderState σ × Option (RenderFault ε)} :
    (ofRun r).result = .error .tooDeep ↔ r.2 = some .tooDeep := by
  obtain ⟨s, _ | fault⟩ := r
  · simp only [ofRun, reduceCtorEq]
  · simp only [ofRun, Except.error.injEq, Option.some.injEq]

namespace Template

theorem renderWithin_succ {limit : Nat}
    (hr : (t.renderWithin limit host data h).result ≠ .error .tooDeep) :
    t.renderWithin (limit + 1) host data h = t.renderWithin limit host data h := by
  unfold renderWithin at hr ⊢
  rw [ne_eq, Rendering.result_ofRun_eq_tooDeep_iff] at hr
  rw [eval_outlasts host limit t.root (.ofRoot data) [] ⟨.empty, [], h⟩ hr]

/-- **A render that ends does the same with a greater limit.** -/
theorem renderWithin_of_le {limit greater : Nat} (hle : limit ≤ greater)
    (hr : (t.renderWithin limit host data h).result ≠ .error .tooDeep) :
    t.renderWithin greater host data h = t.renderWithin limit host data h := by
  induction hle with
  | refl => rfl
  | step _ ih => rw [renderWithin_succ (by rwa [ih]), ih]

/-- The render ends with this result when its limit is great enough. -/
def Ends (host : Host σ ε) (t : Template) (data : Value) (h : σ)
    (r : Except (RenderFault ε) Text) : Prop :=
  r ≠ .error .tooDeep ∧ ∃ limit, (t.renderWithin limit host data h).result = r

theorem Ends.unique {r r' : Except (RenderFault ε) Text} (hr : t.Ends host data h r)
    (hr' : t.Ends host data h r') : r = r' := by
  obtain ⟨hne, limit, rfl⟩ := hr
  obtain ⟨hne', limit', rfl⟩ := hr'
  rcases Nat.le_total limit limit' with hle | hle
  · rw [renderWithin_of_le hle hne]
  · rw [renderWithin_of_le hle hne']

end Template
end

end Mustache
