import Mustache.Proofs.Render.Rules
import Mustache.Proofs.Store.Offered

/-!
# Renders and their hosts

A render is put together from a few steps: it writes, it has values escaped, it has templates found,
and it goes on with what is found. What holds of these and goes through putting them together holds
of the whole render (`Step.Compatible`), even when it is about two renders on two hosts. So a render
knows of its host only the answers that it gets: hosts that answer alike are rendered on alike. And
a host that has an answer for all that is asked for is never to blame.

* `eval_of_compatible` — what holds of the steps of a render holds of the render
* `Host.Mirrors.renderWithin` — hosts that answer alike
* `Template.reaches_renderWithin` — the state of the host after a render
* `Host.Answers.renderWithin` — a host that has all that is asked for
-/

namespace Mustache

open Text

section

variable {σ τ ε α : Type}

/-! ## What is asked for -/

/-- The templates that the nodes include, at any depth, go by names in the set. -/
def Node.Asks (asked : Text → Prop) (ns : List Node) : Prop :=
  ∀ n ∈ Node.visit ns, ∀ name, n.includedName? = some name → asked name

namespace Node.Asks

variable {asked : Text → Prop} {ns : List Node}

theorem of_true : Node.Asks (fun _ => True) ns := fun _ _ _ _ => True.intro

theorem of_includedNames {t : Template} (h : ∀ name ∈ t.includedNames, asked name) :
    Node.Asks asked t.root :=
  fun n hn name hname => h name (mem_firsts.mpr (List.mem_filterMap.mpr ⟨n, hn, hname⟩))

end Node.Asks

/-! ## What renders are made of -/

/-- The relation between steps on two hosts holds of all that a render is made of, when only names
in the set are asked for. -/
structure Step.Compatible (host : Host σ ε) (host' : Host τ ε) (asked : Text → Prop)
    (P : Step σ ε → Step τ ε → Prop) : Prop where
  skip : P .skip .skip
  undecodable : ∀ fault, P (.fail (.undecodable fault)) (.fail (.undecodable fault))
  tooDeep : P (.fail .tooDeep) (.fail .tooDeep)
  write : ∀ f, P (.write f) (.write f)
  escaped : ∀ name s, P (.escaped host name s) (.escaped host' name s)
  andThen : ∀ {f f' g g'}, P f f' → P g g' → P (f.andThen g) (f'.andThen g')
  found : ∀ {name expand expand'}, asked name →
    (∀ t : Template, Node.Asks asked t.root → P (expand t) (expand' t)) →
    P (.found host name expand) (.found host' name expand')

section

variable {host : Host σ ε} {host' : Host τ ε} {asked : Text → Prop}
  {P : Step σ ε → Step τ ε → Prop} {expand : List Node → Context → Text → Step σ ε}
  {expand' : List Node → Context → Text → Step τ ε}

theorem Step.Compatible.rules (hP : Step.Compatible host host' asked P)
    (hexpand : ∀ ns c c' indentation, Node.Asks asked ns → c = c' → True →
      P (expand ns c indentation) (expand' ns c' indentation)) :
    EvalRules host host' expand expand' (fun n => ∀ name, n.includedName? = some name → asked name)
      Eq (fun _ => True) P where
  skip := hP.skip
  andThen := hP.andThen
  text := fun _ _ => hP.write _
  indentation := fun _ => hP.write _
  name := by
    rintro name escape c _ - rfl
    exact evalName_of_steps host host' hP.undecodable hP.escaped (fun _ => hP.write _) c name escape
  referent := fun _ hc => hc ▸ rfl
  push := fun scope hc => congrArg (·.push scope) hc
  ownLine := by
    intro name padding c c' indentation hn hc hi
    exact hP.found (hn name rfl) fun t ht => hP.andThen (hP.write _) (hexpand _ _ _ _ ht hc hi)
  inLine := by
    intro name padding c c' hn hc
    exact hP.found (hn name rfl) fun t ht => hexpand _ _ _ _ ht hc trivial

/-- **What holds of the steps of a render holds of the render.** -/
theorem eval_of_compatible (hP : Step.Compatible host host' asked P) (depth : Nat)
    (ns : List Node) (c : Context) (indentation : Text) (hns : Node.Asks asked ns) :
    P (eval host depth ns c indentation) (eval host' depth ns c indentation) :=
  eval_of_rules hP.rules hP.tooDeep depth ns c c indentation hns rfl trivial

end

/-! ## Hosts that answer alike -/

/-- The same has been written and asked for, and the hosts are in states that are related. -/
structure RenderState.Mirrors (R : σ → τ → Prop) (s : RenderState σ) (s' : RenderState τ) :
    Prop where
  sink : s.sink = s'.sink
  calls : s.calls = s'.calls
  host : R s.host s'.host

/-- Done from states that mirror each other, the steps get to such states, and fail alike. -/
def Step.Mirrors (R : σ → τ → Prop) (f : Step σ ε) (g : Step τ ε) : Prop :=
  ∀ s s', s.Mirrors R s' → (f s).1.Mirrors R (g s').1 ∧ (f s).2 = (g s').2

/-- In states that are related the hosts give the same answers, and are in such states
afterwards. -/
structure Host.Mirrors (R : σ → τ → Prop) (host : Host σ ε) (host' : Host τ ε) : Prop where
  escape : ∀ s, host.escape s = host'.escape s
  answer : ∀ name h h', R h h' → (host.find name h).1 = (host'.find name h').1
  state : ∀ name h h', R h h' → R (host.find name h).2 (host'.find name h').2

/-- The renders come to the same, and leave their hosts in states that are related. -/
structure Rendering.Mirrors (R : σ → τ → Prop) (r : Rendering σ ε) (r' : Rendering τ ε) :
    Prop where
  result : r.result = r'.result
  calls : r.calls = r'.calls
  host : R r.host r'.host

namespace Host.Mirrors

variable {R : σ → τ → Prop} {host : Host σ ε} {host' : Host τ ε}

theorem compatible (hm : host.Mirrors R host') :
    Step.Compatible host host' (fun _ => True) (Step.Mirrors R) where
  skip := fun _ _ hs => ⟨hs, rfl⟩
  undecodable := fun _ _ _ hs => ⟨hs, rfl⟩
  tooDeep := fun _ _ hs => ⟨hs, rfl⟩
  write := fun f _ _ hs => ⟨⟨congrArg f hs.sink, hs.calls, hs.host⟩, rfl⟩
  escaped := by
    intro name s st st' hst
    have hcalls : Call.escape s :: st.calls = Call.escape s :: st'.calls :=
      congrArg _ hst.calls
    unfold Step.escaped
    rw [← hm.escape]
    cases host.escape s with
    | ok out => exact ⟨⟨congrArg (·.writeValue out) hst.sink, hcalls, hst.host⟩, rfl⟩
    | error cause => exact ⟨⟨hst.sink, hcalls, hst.host⟩, rfl⟩
  andThen := by
    intro f f' g g' hf hg s s' hs
    have hboth := hf s s' hs
    unfold Step.andThen
    generalize f s = r at hboth ⊢
    generalize f' s' = r' at hboth ⊢
    obtain ⟨t, fault⟩ := r
    obtain ⟨t', fault'⟩ := r'
    obtain ⟨ht, rfl⟩ : t.Mirrors R t' ∧ fault = fault' := hboth
    cases fault with
    | none => exact hg t t' ht
    | some fault => exact ⟨ht, rfl⟩
  found := by
    intro name expand expand' _ hexpand st st' hst
    have hcalls : Call.find name :: st.calls = Call.find name :: st'.calls := congrArg _ hst.calls
    have hanswer := hm.answer name st.host st'.host hst.host
    have hstate := hm.state name st.host st'.host hst.host
    simp only [Step.found]
    generalize host.find name st.host = r at hanswer hstate ⊢
    generalize host'.find name st'.host = r' at hanswer hstate ⊢
    obtain ⟨answer, h⟩ := r
    obtain ⟨answer', h'⟩ := r'
    obtain rfl : answer = answer' := hanswer
    rcases answer with cause | _ | t
    · exact ⟨⟨hst.sink, hcalls, hstate⟩, rfl⟩
    · exact ⟨⟨hst.sink, hcalls, hstate⟩, rfl⟩
    · exact hexpand t .of_true _ _ ⟨hst.sink, hcalls, hstate⟩

/-- **Renders on hosts that answer alike come to the same.** -/
theorem renderWithin (hm : host.Mirrors R host') {h : σ} {h' : τ} (hR : R h h') (limit : Nat)
    (t : Template) (data : Value) :
    (t.renderWithin limit host data h).Mirrors R (t.renderWithin limit host' data h') := by
  have hboth := eval_of_compatible hm.compatible limit t.root (.ofRoot data) [] .of_true
    ⟨.empty, [], h⟩ ⟨.empty, [], h'⟩ ⟨rfl, rfl, hR⟩
  unfold Template.renderWithin
  generalize eval host limit t.root (.ofRoot data) [] ⟨.empty, [], h⟩ = r at hboth ⊢
  generalize eval host' limit t.root (.ofRoot data) [] ⟨.empty, [], h'⟩ = r' at hboth ⊢
  obtain ⟨s, fault⟩ := r
  obtain ⟨s', fault'⟩ := r'
  obtain ⟨hs, rfl⟩ : s.Mirrors R s' ∧ fault = fault' := hboth
  cases fault with
  | none =>
    refine ⟨?_, congrArg List.reverse hs.calls, hs.host⟩
    exact congrArg (fun o : Sink => Except.ok o.toText) hs.sink
  | some fault => exact ⟨rfl, congrArg List.reverse hs.calls, hs.host⟩

end Host.Mirrors

/-- **A render leaves its host in a state that looking for templates gets to.** -/
theorem Template.reaches_renderWithin (host : Host σ ε) (limit : Nat) (t : Template)
    (data : Value) (h : σ) : host.Reaches h (t.renderWithin limit host data h).host := by
  -- the render is its own mirror, and whatever is asked stays in reach
  have hm : host.Mirrors (fun h₁ h₂ => h₁ = h₂ ∧ host.Reaches h h₁) host := by
    constructor
    · exact fun _ => rfl
    · rintro name h₁ _ ⟨rfl, -⟩
      rfl
    · rintro name h₁ _ ⟨rfl, hreaches⟩
      exact ⟨rfl, .find name hreaches⟩
  exact (hm.renderWithin ⟨rfl, .refl⟩ limit t data).host.2

/-! ## Hosts that have an answer -/

/-- As long as its state is as it is kept, the host has an answer for every name in the set; looking
for it keeps the state, and what is found asks for names in the set only. -/
structure Host.Answers (kept : σ → Prop) (asked : Text → Prop) (host : Host σ ε) : Prop where
  answers : ∀ name h, asked name → kept h → ∃ o, (host.find name h).1 = .ok o
  keeps : ∀ name h, asked name → kept h → kept (host.find name h).2
  asks : ∀ name h t, asked name → kept h → (host.find name h).1 = .ok (some t) →
    ∀ m ∈ t.includedNames, asked m

/-- The step keeps the state of the host, and does not fail because a template cannot be looked
for. -/
def Step.IsAnswered (kept : σ → Prop) (f : Step σ ε) : Prop :=
  ∀ s, kept s.host → kept (f s).1.host ∧ ∀ name cause, (f s).2 ≠ some (.find name cause)

namespace Host.Answers

variable {kept : σ → Prop} {asked : Text → Prop} {host : Host σ ε}

theorem compatible (ha : host.Answers kept asked) :
    Step.Compatible host host asked fun f _ => f.IsAnswered kept where
  skip := fun _ hs => ⟨hs, nofun⟩
  undecodable := fun _ _ hs => ⟨hs, nofun⟩
  tooDeep := fun _ hs => ⟨hs, nofun⟩
  write := fun _ _ hs => ⟨hs, nofun⟩
  escaped := by
    intro name s st hst
    unfold Step.escaped
    cases host.escape s with
    | ok out => exact ⟨hst, nofun⟩
    | error cause => exact ⟨hst, nofun⟩
  andThen := by
    intro f _ g _ hf hg s hs
    have hfirst := hf s hs
    unfold Step.andThen
    generalize f s = r at hfirst ⊢
    obtain ⟨t, _ | fault⟩ := r
    · exact hg t hfirst.1
    · exact hfirst
  found := by
    intro name expand _ hname hexpand st hst
    obtain ⟨o, ho⟩ := ha.answers name st.host hname hst
    have hkeeps := ha.keeps name st.host hname hst
    have hasks := fun t => ha.asks name st.host t hname hst
    simp only [Step.found]
    generalize host.find name st.host = r at ho hkeeps hasks ⊢
    obtain ⟨answer, h⟩ := r
    obtain rfl : answer = .ok o := ho
    cases o with
    | none => exact ⟨hkeeps, nofun⟩
    | some t => exact hexpand t (.of_includedNames (hasks t rfl)) _ hkeeps

/-- **A host that has an answer for all that is asked for is never to blame.** -/
theorem renderWithin (ha : host.Answers kept asked) {t : Template}
    (ht : ∀ name ∈ t.includedNames, asked name) {h : σ} (hh : kept h) (limit : Nat)
    (data : Value) :
    kept (t.renderWithin limit host data h).host ∧
      ∀ name cause, (t.renderWithin limit host data h).result ≠ .error (.find name cause) := by
  have hanswered := eval_of_compatible ha.compatible limit t.root (.ofRoot data) []
    (.of_includedNames ht) ⟨.empty, [], h⟩ hh
  unfold Template.renderWithin
  generalize eval host limit t.root (.ofRoot data) [] ⟨.empty, [], h⟩ = r at hanswered ⊢
  obtain ⟨s, _ | fault⟩ := r
  · exact ⟨hanswered.1, nofun⟩
  · refine ⟨hanswered.1, fun name cause heq => hanswered.2 name cause ?_⟩
    exact congrArg some (Except.error.inj heq)

end Host.Answers

end

end Mustache
