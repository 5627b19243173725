import Mustache.Proofs.Render.Behind
import Mustache.Proofs.Render.Limit

/-!
# Missing and empty templates

An inclusion of a template that there is none of writes nothing, and neither does an inclusion of a
template with nothing in it. The two differ in one thing: an empty template that has its line to
itself begins a line, and a missing one leaves the output as it is. So a render ends in the same way
whether a name is missing or empty, but where it is empty a line may be indented that is not where
it is missing (`Thinner`). This can be seen only where lines are indented, in the template or in one
that includes it, and where no line begins anyway. If a line begins wherever the name is included on
a line of its own while lines are indented (`Template.BeginsLines`), the output is the same.

* `evalNode_nears`, `nearInside_eval` — a render where the name is missing and one where it is empty
* `Host.Fills.ends_of_missing`, `Host.Fills.ends_of_empty` — how one of them ends if the other does
* `Host.Fills.ends_iff` — they end in the same way if a line begins where it has to
-/

namespace Mustache

open Text

section

variable {σ τ ε α : Type}

/-! ## Where a name is included -/

/-- If lines are indented, does one begin here? -/
def Sink.beginsIf (indented : Bool) (o : Sink) : Bool := !indented || o.lineBegins

namespace Step

/-- Does the condition hold when the step has been done? A step that fails leaves nothing to
hold. -/
def thenHolds (f : Step σ ε) (P : RenderState σ → Bool) : RenderState σ → Bool := fun s =>
  match f s with
  | (s, none) => P s
  | (_, some _) => true

/-- Does the condition hold of each member of a list when it is its turn? -/
def eachHolds (f : α → Step σ ε) (P : α → RenderState σ → Bool) : List α → RenderState σ → Bool
  | [] => fun _ => true
  | a :: l => fun s => P a s && (f a).thenHolds (eachHolds f P l) s

/-- Does the condition hold of the template that is found, if one is? -/
def foundHolds (host : Host σ ε) (name : Text) (P : Template → RenderState σ → Bool) :
    RenderState σ → Bool := fun s =>
  match host.find name s.host with
  | (.ok (some t), h) => P t ⟨s.sink, .find name :: s.calls, h⟩
  | (.ok none, _) | (.error _, _) => true

end Step

mutual

/-- Does a line begin wherever the node includes the name on a line of its own while lines are
indented? `indented` says whether they are, in the template or in one that includes it, and `inside`
answers the same for the nodes of an included template. -/
def beginsLine (host : Host σ ε) (expand : List Node → Context → Text → Step σ ε)
    (inside : List Node → Context → Bool → Text → RenderState σ → Bool) (q : Text)
    (n : Node) (c : Context) (indented : Bool) (indentation : Text) : RenderState σ → Bool :=
  match n with
  | .text _ | .interpolate .. => fun _ => true
  | .block name true body =>
    if (c.referent name).isPresent then fun _ => true
    else beginsLines host expand inside q body c indented indentation
  | .block name false body =>
    Step.eachHolds (fun scope => evalNodes host expand body (c.push scope) indentation)
      (fun scope => beginsLines host expand inside q body (c.push scope) indented indentation)
      (c.referent name).scopes
  | .inclusion name padding true => fun s =>
    (name ≠ q || s.sink.beginsIf indented) &&
      Step.foundHolds host name (fun t s =>
        inside t.root c (indented || padding ≠ []) (indentation ++ padding)
          { s with sink := s.sink.startLine }) s
  | .inclusion name _ false =>
    (Step.write (·.writeIndentation indentation) : Step σ ε).thenHolds
      (Step.foundHolds host name fun t => inside t.root c indented [])
termination_by structural n

/-- The same of nodes in order. -/
def beginsLines (host : Host σ ε) (expand : List Node → Context → Text → Step σ ε)
    (inside : List Node → Context → Bool → Text → RenderState σ → Bool) (q : Text)
    (ns : List Node) (c : Context) (indented : Bool) (indentation : Text) :
    RenderState σ → Bool :=
  match ns with
  | [] => fun _ => true
  | n :: ns => fun s =>
    beginsLine host expand inside q n c indented indentation s &&
      (evalNode host expand n c indentation).thenHolds
        (beginsLines host expand inside q ns c indented indentation) s
termination_by structural ns

end

/-- The same of nodes in order, with so many inclusions inside each other at most. -/
def beginsLinesWithin (host : Host σ ε) (q : Text) :
    Nat → List Node → Context → Bool → Text → RenderState σ → Bool
  | 0 => beginsLines host (fun _ _ _ => .fail .tooDeep) (fun _ _ _ _ _ => true) q
  | depth + 1 => beginsLines host (eval host depth) (beginsLinesWithin host q depth) q

/-- Wherever a render of the template includes the name on a line of its own while lines are
indented, a line begins. -/
def Template.BeginsLines (host : Host σ ε) (q : Text) (t : Template) (data : Value) (h : σ) :
    Prop :=
  ∀ limit, beginsLinesWithin host q limit t.root (.ofRoot data) false [] ⟨.empty, [], h⟩ = true

/-! ## States -/

namespace Sink

/-- All that has been written to the first sink has been written to the second one, in the same
order, and where a line begins in the first, one begins in the second. -/
structure Thinner (o o' : Sink) : Prop where
  text : o.toText.Sublist o'.toText
  begins : o.lineBegins = true → o'.lineBegins = true

namespace Thinner

variable {o o' : Sink}

theorem put (h : o.Thinner o') (s : Text) : (o.put s).Thinner (o'.put s) := by
  refine ⟨?_, id⟩
  rw [toText_put, toText_put]
  exact h.text.append (.refl s)

theorem writeValue (h : o.Thinner o') (s : Text) : (o.writeValue s).Thinner (o'.writeValue s) := by
  refine ⟨?_, ?_⟩
  · rw [toText_writeValue, toText_writeValue]
    exact h.text.append (.refl s)
  · unfold Sink.writeValue
    split
    · exact h.begins
    · exact id

theorem startLine (h : o.Thinner o') : o.startLine.Thinner o'.startLine := ⟨h.text, id⟩

/-- A line that begins only in the second sink is indented only there. -/
theorem writeIndentation (h : o.Thinner o') (indentation : Text) :
    (o.writeIndentation indentation).Thinner (o'.writeIndentation indentation) := by
  unfold Sink.writeIndentation
  by_cases hnil : indentation = []
  · rw [if_neg fun hboth => hboth.1 hnil, if_neg fun hboth => hboth.1 hnil]
    exact h
  · by_cases hbegins : o.lineBegins = true
    · rw [if_pos ⟨hnil, hbegins⟩, if_pos ⟨hnil, h.begins hbegins⟩]
      refine ⟨?_, id⟩
      rw [toText_mk, toText_mk]
      exact h.text.append (.refl indentation)
    · rw [if_neg fun hboth => hbegins hboth.2]
      refine ⟨?_, fun hline => absurd hline hbegins⟩
      split
      · rw [toText_mk]
        exact h.text.trans (List.sublist_append_left _ _)
      · exact h.text

theorem writeText (h : o.Thinner o') (indentation s : Text) :
    (o.writeText indentation s).Thinner (o'.writeText indentation s) := by
  unfold Sink.writeText
  split
  · exact h
  · split
    · exact h.put s
    · -- line by line
      generalize lines s = ls
      induction ls generalizing o o' with
      | nil => exact h
      | cons l ls ih => exact ih ((h.writeIndentation indentation).put l)

end Thinner
end Sink

/-- No less has been written to the second sink than to the first, and if the output matters it is
the same; if moreover the line counts, a line begins in both or in neither. The hosts are in states
that are related. -/
structure RenderState.Near (R : σ → τ → Prop) (same line : Bool) (s : RenderState σ)
    (s' : RenderState τ) : Prop where
  thinner : s.sink.Thinner s'.sink
  behind : same = true → s.sink.Behind [] line s'.sink
  host : R s.host s'.host

/-- One of the hosts has nothing by a name, the other an empty template; else they answer alike. -/
structure Host.Fills (R : σ → τ → Prop) (q : Text) (host : Host σ ε) (host' : Host τ ε) :
    Prop where
  escape : ∀ s, host.escape s = host'.escape s
  answer : ∀ name h h', R h h' → name ≠ q → (host.find name h).1 = (host'.find name h').1
  missing : ∀ h h', R h h' → (host.find q h).1 = .ok none
  empty : ∀ h h', R h h' → ∃ t, (host'.find q h').1 = .ok (some t) ∧ t.root = []
  state : ∀ name h h', R h h' → R (host.find name h).2 (host'.find name h').2

/-! ## Steps -/

/-- One of two runs gets too deep: the first one or, if that does not count, the second. -/
def GivesUp (first : Bool) (fault fault' : Option (RenderFault ε)) : Prop :=
  (if first then fault else fault') = some .tooDeep

namespace Step

/-- From states that are near each other, of which the first satisfies the condition if the output
matters, the steps get to such states and fail alike, unless one gets too deep. -/
def Nears (R : σ → τ → Prop) (first same line : Bool) (P : RenderState σ → Bool) (f : Step σ ε)
    (g : Step τ ε) : Prop :=
  ∀ s s', s.Near R same line s' → (same = true → P s = true) →
    GivesUp first (f s).2 (g s').2 ∨ ((f s).1.Near R same line (g s').1 ∧ (f s).2 = (g s').2)

namespace Nears

variable {R : σ → τ → Prop} {first same line : Bool} {P Q : RenderState σ → Bool} {f g : Step σ ε}
  {f' g' : Step τ ε}

theorem mono (h : Nears R first same line Q f f') (hP : ∀ s, P s = true → Q s = true) :
    Nears R first same line P f f' := fun s s' hs hp => h s s' hs fun hsame => hP s (hp hsame)

theorem skip : Nears R first same line P (skip : Step σ ε) (Step.skip : Step τ ε) :=
  fun _ _ hs _ => .inr ⟨hs, rfl⟩

theorem fail (fault : RenderFault ε) :
    Nears R first same line P (fail fault : Step σ ε) (Step.fail fault : Step τ ε) :=
  fun _ _ hs _ => .inr ⟨hs, rfl⟩

theorem write {f : Sink → Sink} (hthinner : ∀ {o o' : Sink}, o.Thinner o' → (f o).Thinner (f o'))
    (hbehind : ∀ {o o' : Sink}, o.Behind [] line o' → (f o).Behind [] line (f o')) :
    Nears R first same line P (write f : Step σ ε) (Step.write f : Step τ ε) :=
  fun _ _ hs _ =>
    .inr ⟨⟨hthinner hs.thinner, fun hsame => hbehind (hs.behind hsame), hs.host⟩, rfl⟩

/-- Steps in a row. -/
theorem andThen (hf : Nears R first same line P f f') (hg : Nears R first same line Q g g') :
    Nears R first same line (fun s => P s && f.thenHolds Q s) (f.andThen g) (f'.andThen g') := by
  intro s s' hs hp
  have hboth := hf s s' hs fun hsame => (Bool.and_eq_true_iff.mp (hp hsame)).1
  have hq := fun hsame => (Bool.and_eq_true_iff.mp (hp hsame)).2
  unfold thenHolds at hq
  unfold Step.andThen
  generalize f s = r at hboth hq ⊢
  generalize f' s' = r' at hboth ⊢
  obtain ⟨t, fault⟩ := r
  obtain ⟨t', fault'⟩ := r'
  rcases hboth with hup | ⟨ht, hfault⟩
  · -- what gives up gives up for good
    refine .inl ?_
    cases first with
    | true =>
      obtain rfl : fault = some .tooDeep := hup
      rfl
    | false =>
      obtain rfl : fault' = some .tooDeep := hup
      rfl
  · obtain rfl : fault = fault' := hfault
    cases fault with
    | none => exact hg t t' ht hq
    | some fault => exact .inr ⟨ht, rfl⟩

/-- A line that is indented, and what follows. -/
theorem writeIndentation {indentation : Text} (hi : line = false → indentation = [])
    (hg : Nears R first same line Q g g') :
    Nears R first same line
      ((Step.write (·.writeIndentation indentation) : Step σ ε).thenHolds Q)
      ((Step.write (·.writeIndentation indentation)).andThen g)
      ((Step.write (·.writeIndentation indentation)).andThen g') := by
  have hwrite : Nears R first same line (fun _ => true)
      (Step.write (·.writeIndentation indentation) : Step σ ε)
      (Step.write (·.writeIndentation indentation) : Step τ ε) :=
    .write (fun h => h.writeIndentation indentation) fun h => h.writeIndentation hi
  exact hwrite.andThen hg

theorem each {l : List α} {P : α → RenderState σ → Bool} {f : α → Step σ ε} {f' : α → Step τ ε}
    (h : ∀ a, Nears R first same line (P a) (f a) (f' a)) :
    Nears R first same line (eachHolds f P l) (each l f) (Step.each l f') := by
  induction l with
  | nil => exact .skip
  | cons a l ih => exact (h a).andThen ih

/-- Inside a template with a line of its own the line may count that did not count before. -/
theorem startLine {inner : Bool} (hline : line = true → inner = true)
    (hg : Nears R first same inner Q g g') :
    Nears R first same line (fun s => Q { s with sink := s.sink.startLine })
      ((Step.write Sink.startLine).andThen g) ((Step.write Sink.startLine).andThen g') := by
  intro s s' hs hq
  have hbegun : RenderState.Near R same inner { s with sink := s.sink.startLine }
      { s' with sink := s'.sink.startLine } :=
    ⟨hs.thinner.startLine, fun hsame => (hs.behind hsame).startLine.ignoreLine, hs.host⟩
  rcases hg _ _ hbegun hq with hup | ⟨ht, hfault⟩
  · exact .inl hup
  · refine .inr ⟨⟨ht.thinner, fun hsame => ?_, ht.host⟩, hfault⟩
    exact ⟨(ht.behind hsame).text, fun h => (ht.behind hsame).begins (hline h)⟩

section

variable {host : Host σ ε} {host' : Host τ ε} {q name : Text}

theorem escaped (hfills : host.Fills R q host') (name s : Text) :
    Nears R first same line P (escaped host name s) (Step.escaped host' name s) := by
  intro st st' hst _
  unfold Step.escaped
  rw [← hfills.escape]
  cases host.escape s with
  | ok out =>
    refine .inr ⟨⟨hst.thinner.writeValue out, fun hsame => ?_, hst.host⟩, rfl⟩
    exact (hst.behind hsame).writeValue out
  | error cause => exact .inr ⟨⟨hst.thinner, hst.behind, hst.host⟩, rfl⟩

/-- Other templates than the missing one are found alike. -/
theorem found (hfills : host.Fills R q host') (hname : name ≠ q)
    {P : Template → RenderState σ → Bool} {expand : Template → Step σ ε}
    {expand' : Template → Step τ ε}
    (h : ∀ t, Nears R first same line (P t) (expand t) (expand' t)) :
    Nears R first same line (foundHolds host name P) (found host name expand)
      (Step.found host' name expand') := by
  intro s s' hs hp
  have hanswer := hfills.answer name s.host s'.host hs.host hname
  have hstate := hfills.state name s.host s'.host hs.host
  simp only [foundHolds] at hp
  simp only [Step.found]
  generalize host.find name s.host = r at hanswer hstate hp ⊢
  generalize host'.find name s'.host = r' at hanswer hstate ⊢
  obtain ⟨answer, h₁⟩ := r
  obtain ⟨answer', h₂⟩ := r'
  obtain rfl : answer = answer' := hanswer
  rcases answer with cause | _ | t
  · exact .inr ⟨⟨hs.thinner, hs.behind, hstate⟩, rfl⟩
  · exact .inr ⟨⟨hs.thinner, hs.behind, hstate⟩, rfl⟩
  · exact h t _ _ ⟨hs.thinner, hs.behind, hstate⟩ hp

/-- The missing template is skipped, the empty one expanded. -/
theorem found_missing (hfills : host.Fills R q host') {p : Sink → Bool}
    {expand : Template → Step σ ε} {expand' : Template → Step τ ε}
    (h : ∀ t, t.root = [] →
      Nears R first same line (fun s => p s.sink) Step.skip (expand' t)) :
    Nears R first same line (fun s => p s.sink) (Step.found host q expand)
      (Step.found host' q expand') := by
  intro s s' hs hp
  have hmissing := hfills.missing s.host s'.host hs.host
  obtain ⟨t, hanswer, hroot⟩ := hfills.empty s.host s'.host hs.host
  have hstate := hfills.state q s.host s'.host hs.host
  simp only [Step.found]
  generalize host.find q s.host = r at hmissing hstate ⊢
  generalize host'.find q s'.host = r' at hanswer hstate ⊢
  obtain ⟨_, h₁⟩ := r
  obtain ⟨_, h₂⟩ := r'
  obtain rfl := hmissing
  obtain rfl := hanswer
  exact h t hroot ⟨s.sink, .find q :: s.calls, h₁⟩ ⟨s'.sink, .find q :: s'.calls, h₂⟩
    ⟨hs.thinner, hs.behind, hstate⟩ hp

end
end Nears
end Step

/-! ## Rendering -/

section

variable {R : σ → τ → Prop} {first same indented : Bool} {q indentation : Text} {host : Host σ ε}
  {host' : Host τ ε} {expand : List Node → Context → Text → Step σ ε}
  {expand' : List Node → Context → Text → Step τ ε}
  {inside : List Node → Context → Bool → Text → RenderState σ → Bool}

theorem evalName_nears {P : RenderState σ → Bool} (hfills : host.Fills R q host') (c : Context)
    (name : Text) (escape : Bool) :
    Step.Nears R first same indented P (evalName host c name escape)
      (evalName host' c name escape) := by
  unfold evalName
  cases (c.referent name).text? with
  | error fault => exact .fail _
  | ok s =>
    simp only []
    split
    · exact .escaped hfills name s
    · exact .write (fun h => h.writeValue s) fun h => h.writeValue s

/-- What is asked of the rendering of included templates: they are near each other, and nothing is
done for a template with nothing in it, unless the second run may give up. -/
structure NearInside (R : σ → τ → Prop) (first same : Bool)
    (inside : List Node → Context → Bool → Text → RenderState σ → Bool)
    (expand : List Node → Context → Text → Step σ ε)
    (expand' : List Node → Context → Text → Step τ ε) : Prop where
  nears : ∀ ns c indented indentation, (indented = false → indentation = []) →
    Step.Nears R first same indented (inside ns c indented indentation)
      (expand ns c indentation) (expand' ns c indentation)
  nil : ∀ c indentation, expand' [] c indentation = .skip ∨
    (first = false ∧ expand' [] c indentation = .fail .tooDeep)

namespace NearInside

/-- An empty template on a line of its own. -/
theorem startLine_nil (h : NearInside R first same inside expand expand') (c : Context) :
    Step.Nears R first same indented (fun s => s.sink.beginsIf indented) (.skip : Step σ ε)
      ((Step.write Sink.startLine).andThen (expand' [] c indentation)) := by
  intro s s' hs hp
  rcases h.nil c indentation with hnil | ⟨rfl, hnil⟩
  · rw [hnil, Step.andThen_skip]
    refine .inr ⟨⟨⟨hs.thinner.text, fun _ => rfl⟩, fun hsame => ?_, hs.host⟩, rfl⟩
    refine ⟨(hs.behind hsame).text, ?_⟩
    rintro rfl
    exact hp hsame
  · rw [hnil]
    exact .inl rfl

/-- An empty template within a line. -/
theorem inline_nil {P : RenderState σ → Bool} (h : NearInside R first same inside expand expand')
    (c : Context) :
    Step.Nears R first same indented P (.skip : Step σ ε) (expand' [] c indentation) := by
  rcases h.nil c indentation with hnil | ⟨rfl, hnil⟩
  · rw [hnil]
    exact .skip
  · rw [hnil]
    exact fun _ _ _ _ => .inl rfl

end NearInside

mutual

/-- A node is rendered alike whether the name is missing or empty. -/
theorem evalNode_nears (hfills : host.Fills R q host')
    (hexpand : NearInside R first same inside expand expand') (n : Node) (c : Context)
    (hi : indented = false → indentation = []) :
    Step.Nears R first same indented (beginsLine host expand inside q n c indented indentation)
      (evalNode host expand n c indentation) (evalNode host' expand' n c indentation) := by
  match n with
  | .text s =>
    rw [evalNode, evalNode]
    exact .write (fun h => h.writeText indentation s) fun h => h.writeText hi s
  | .interpolate name escape =>
    rw [evalNode, evalNode]
    have hname : Step.Nears R first same indented (fun _ => true) (evalName host c name escape)
        (evalName host' c name escape) := evalName_nears hfills c name escape
    exact (hname.writeIndentation hi).mono fun _ _ => rfl
  | .block name true body =>
    rw [evalNode, evalNode, beginsLine]
    split
    · exact .skip
    · exact evalNodes_nears hfills hexpand body c hi
  | .block name false body =>
    rw [evalNode, evalNode, beginsLine]
    exact .each fun scope => evalNodes_nears hfills hexpand body (c.push scope) hi
  | .inclusion name padding true =>
    rw [evalNode, evalNode, beginsLine]
    by_cases hname : name = q
    · subst hname
      have hempty (t : Template) (ht : t.root = []) :
          Step.Nears R first same indented (fun s => s.sink.beginsIf indented) (.skip : Step σ ε)
            ((Step.write Sink.startLine).andThen (expand' t.root c (indentation ++ padding))) := by
        rw [ht]
        exact hexpand.startLine_nil c
      refine (Step.Nears.found_missing hfills hempty).mono fun s hs => ?_
      simpa only [ne_eq, not_true_eq_false, decide_false, Bool.false_or] using
        (Bool.and_eq_true_iff.mp hs).1
    · have hinner : (indented || decide (padding ≠ [])) = false → indentation ++ padding = [] := by
        intro h
        obtain ⟨hindented, hpadding⟩ := Bool.or_eq_false_iff.mp h
        rw [hi hindented, List.nil_append]
        exact Decidable.not_not.mp (of_decide_eq_false hpadding)
      have houter : indented = true → (indented || decide (padding ≠ [])) = true :=
        fun h => Bool.or_eq_true_iff.mpr (.inl h)
      have hfound := Step.Nears.found hfills hname fun t =>
        (hexpand.nears t.root c _ _ hinner).startLine houter
      exact hfound.mono fun s hs => (Bool.and_eq_true_iff.mp hs).2
  | .inclusion name padding false =>
    rw [evalNode, evalNode, beginsLine]
    by_cases hname : name = q
    · subst hname
      have hempty (t : Template) (ht : t.root = []) :
          Step.Nears R first same indented (fun _ => true) (.skip : Step σ ε)
            (expand' t.root c []) := by
        rw [ht]
        exact hexpand.inline_nil c
      have hfound : Step.Nears R first same indented (fun _ => true)
          (.found host name fun t => expand t.root c [])
          (.found host' name fun t => expand' t.root c []) :=
        .found_missing (p := fun _ => true) hfills hempty
      exact (hfound.writeIndentation hi).mono fun _ _ => rfl
    · have hfound := Step.Nears.found hfills hname fun t =>
        hexpand.nears t.root c indented [] fun _ => rfl
      exact hfound.writeIndentation hi
termination_by structural n

/-- The same of nodes in order. -/
theorem evalNodes_nears (hfills : host.Fills R q host')
    (hexpand : NearInside R first same inside expand expand') (ns : List Node) (c : Context)
    (hi : indented = false → indentation = []) :
    Step.Nears R first same indented (beginsLines host expand inside q ns c indented indentation)
      (evalNodes host expand ns c indentation) (evalNodes host' expand' ns c indentation) := by
  match ns with
  | [] => exact .skip
  | n :: ns =>
    rw [evalNodes, evalNodes, beginsLines]
    exact (evalNode_nears hfills hexpand n c hi).andThen (evalNodes_nears hfills hexpand ns c hi)
termination_by structural ns

end

/-- What holds inside included templates holds one inclusion further out. -/
theorem NearInside.evalNodes (hfills : host.Fills R q host')
    (h : NearInside R first same inside expand expand') :
    NearInside R first same (beginsLines host expand inside q) (evalNodes host expand)
      (Mustache.evalNodes host' expand') :=
  ⟨fun ns c _ _ hi => evalNodes_nears hfills h ns c hi, fun _ _ => .inl rfl⟩

/-- **A render is the same whether a name is missing or empty**, as far as the second render goes
with the same limit. -/
theorem nearInside_eval (hfills : host.Fills R q host') (same : Bool) (depth : Nat) :
    NearInside R false same (beginsLinesWithin host q depth) (eval host depth)
      (eval host' depth) := by
  induction depth with
  | zero => exact .evalNodes hfills ⟨fun _ _ _ _ _ _ _ _ _ => .inl rfl, fun _ _ => .inr ⟨rfl, rfl⟩⟩
  | succ depth ih => exact ih.evalNodes hfills

/-- The same as far as the first render goes, with one more inclusion for the empty template. -/
theorem nearInside_eval_succ (hfills : host.Fills R q host') (same : Bool) (depth : Nat) :
    NearInside R true same (beginsLinesWithin host q depth) (eval host depth)
      (eval host' (depth + 1)) := by
  induction depth with
  | zero => exact .evalNodes hfills ⟨fun _ _ _ _ _ _ _ _ _ => .inl rfl, fun _ _ => .inl rfl⟩
  | succ depth ih => exact ih.evalNodes hfills

end

/-! ## Results -/

/-- Both have failed in the same way; or both have written something, and all that is in the first
text is in the second, in the same order. -/
inductive Thinner {φ : Type} : Except φ Text → Except φ Text → Prop
  | fault (fault : φ) : Thinner (.error fault) (.error fault)
  | text {out out' : Text} (h : out.Sublist out') : Thinner (.ok out) (.ok out')

theorem Thinner.eq_error_iff {φ : Type} {r r' : Except φ Text} (h : Thinner r r') (fault : φ) :
    r = .error fault ↔ r' = .error fault := by
  cases h with
  | fault _ => exact .rfl
  | text _ => exact ⟨nofun, nofun⟩

theorem Thinner.mapError {φ ψ : Type} (f : φ → ψ) {r r' : Except φ Text} (h : Thinner r r') :
    Thinner (r.mapError f) (r'.mapError f) := by
  cases h with
  | fault fault => exact .fault (f fault)
  | text h => exact .text h

section

variable {R : σ → τ → Prop} {first same : Bool} {q : Text} {host : Host σ ε} {host' : Host τ ε}
  {h : σ} {h' : τ} {t : Template} {data : Value} {r r' : Except (RenderFault ε) Text}

/-- Runs that are near each other come to nearly the same, or to the same if the output matters,
unless one gets too deep. -/
theorem NearInside.result {limit limit' : Nat}
    (hinside : NearInside R first same (beginsLinesWithin host q limit) (eval host limit)
      (eval host' limit')) (hR : R h h') (hbegins : same = true → t.BeginsLines host q data h)
    (hr : (t.renderWithin limit host data h).result = r)
    (hr' : (t.renderWithin limit' host' data h').result = r') :
    (if first then r else r') = .error .tooDeep ∨ (Thinner r r' ∧ (same = true → r = r')) := by
  have hstart : RenderState.Near R same false ⟨.empty, [], h⟩ ⟨.empty, [], h'⟩ :=
    ⟨⟨.refl _, id⟩, fun _ => ⟨rfl, nofun⟩, hR⟩
  subst hr hr'
  rcases hinside.nears t.root (.ofRoot data) false [] (fun _ => rfl) _ _ hstart
    (fun hsame => hbegins hsame limit) with hup | ⟨hnear, hfault⟩
  · refine .inl ?_
    cases first with
    | true => exact Rendering.result_ofRun_eq_tooDeep_iff.mpr hup
    | false => exact Rendering.result_ofRun_eq_tooDeep_iff.mpr hup
  · refine .inr ?_
    simp only [Template.renderWithin, Rendering.result_ofRun, hfault]
    split
    · refine ⟨.text hnear.thinner.text, fun hsame => ?_⟩
      rw [(hnear.behind hsame).text, List.nil_append]
    · exact ⟨.fault _, fun _ => rfl⟩

namespace Host.Fills

/-- A render that ends where the name is missing ends where it is empty. -/
theorem ends_of_missing (hfills : host.Fills R q host') (same : Bool) (hR : R h h')
    (hbegins : same = true → t.BeginsLines host q data h) (hr : t.Ends host data h r) :
    ∃ r', t.Ends host' data h' r' ∧ Thinner r r' ∧ (same = true → r = r') := by
  obtain ⟨hne, limit, hr⟩ := hr
  rcases (nearInside_eval_succ hfills same limit).result hR hbegins hr rfl with hup | hthinner
  · exact absurd hup hne
  · exact ⟨_, ⟨fun h => hne ((hthinner.1.eq_error_iff _).mpr h), limit + 1, rfl⟩, hthinner⟩

/-- A render that ends where the name is empty ends where it is missing. -/
theorem ends_of_empty (hfills : host.Fills R q host') (same : Bool) (hR : R h h')
    (hbegins : same = true → t.BeginsLines host q data h) (hr' : t.Ends host' data h' r') :
    ∃ r, t.Ends host data h r ∧ Thinner r r' ∧ (same = true → r = r') := by
  obtain ⟨hne, limit, hr'⟩ := hr'
  rcases (nearInside_eval hfills same limit).result hR hbegins rfl hr' with hup | hthinner
  · exact absurd hup hne
  · exact ⟨_, ⟨fun h => hne ((hthinner.1.eq_error_iff _).mp h), limit, rfl⟩, hthinner⟩

/-- **A render ends in the same way whether a name is missing or empty**, if a line begins wherever
it is included on a line of its own while lines are indented. -/
theorem ends_iff (hfills : host.Fills R q host') (hR : R h h')
    (hbegins : t.BeginsLines host q data h) : t.Ends host data h r ↔ t.Ends host' data h' r := by
  constructor
  · intro hr
    obtain ⟨r', hr', -, hsame⟩ := hfills.ends_of_missing true hR (fun _ => hbegins) hr
    rwa [hsame rfl]
  · intro hr'
    obtain ⟨r, hr, -, hsame⟩ := hfills.ends_of_empty true hR (fun _ => hbegins) hr'
    rwa [← hsame rfl]

end Host.Fills

end

end

end Mustache
