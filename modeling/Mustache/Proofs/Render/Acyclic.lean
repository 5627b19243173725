import Mustache.Proofs.Render.Hosts
import Mustache.Proofs.Render.Limit
import Mustache.Proofs.Template.Included

/-!
# Renders of templates that do not come back to themselves

Templates that include each other in a circle may be rendered for ever. Where no name leads back to
itself a render ends, whatever the data are: the names in progress at one time are all different, so
there are never more of them than names that the template reaches.

The measure is a set of names that holds all that the nodes ask for, and is closed under leading to.
What is included for one of them reaches only names that this one leads to, and so not itself; these
are fewer. Sections may run over any number of items, but they do not ask for other names.

* `eval_staysShallow` — nodes that ask for no more names than may be in progress
* `Template.ends_of_acyclic` — a render that ends
-/

namespace Mustache

open Text

section

variable {σ ε α : Type}

/-- In all states that the host gets to, it finds what the function has. -/
def Host.FindsBy (host : Host σ ε) (h : σ) (find : Text → Except ε (Option Template)) : Prop :=
  ∀ h' name, host.Reaches h h' → (host.find name h').1 = find name

/-! ## Steps that do not get too deep -/

/-- Done in a state in which the host may be, the step keeps it in such a state and does not get too
deep. -/
def Step.StaysShallow (host : Host σ ε) (h : σ) (f : Step σ ε) : Prop :=
  ∀ s, host.Reaches h s.host → host.Reaches h (f s).1.host ∧ (f s).2 ≠ some .tooDeep

namespace Step.StaysShallow

variable {host : Host σ ε} {h : σ} {f g : Step σ ε}

theorem skip : StaysShallow host h skip := fun _ hs => ⟨hs, nofun⟩

theorem write (f : Sink → Sink) : StaysShallow host h (write f) := fun _ hs => ⟨hs, nofun⟩

theorem andThen (hf : StaysShallow host h f) (hg : StaysShallow host h g) :
    StaysShallow host h (f.andThen g) := by
  intro s hs
  have hfirst := hf s hs
  unfold Step.andThen
  generalize f s = r at hfirst ⊢
  obtain ⟨t, _ | fault⟩ := r
  · exact hg t hfirst.1
  · exact hfirst

theorem escaped (name s : Text) : StaysShallow host h (escaped host name s) := by
  intro st hst
  unfold Step.escaped
  cases host.escape s with
  | ok out => exact ⟨hst, nofun⟩
  | error cause => exact ⟨hst, nofun⟩

/-- An inclusion does not get too deep when what is found for its name does not. -/
theorem found {find : Text → Except ε (Option Template)} (hfind : host.FindsBy h find)
    {name : Text} {expand : Template → Step σ ε}
    (hexpand : ∀ u, find name = .ok (some u) → StaysShallow host h (expand u)) :
    StaysShallow host h (found host name expand) := by
  intro s hs
  have hanswer := hfind s.host name hs
  have hreaches : host.Reaches h (host.find name s.host).2 := .find name hs
  simp only [Step.found]
  generalize host.find name s.host = r at hanswer hreaches ⊢
  obtain ⟨_ | _ | u, h'⟩ := r
  · exact ⟨hreaches, by rintro ⟨⟩⟩
  · exact ⟨hreaches, by rintro ⟨⟩⟩
  · exact hexpand u hanswer.symm _ hreaches

end Step.StaysShallow

/-! ## Rendering -/

variable {host : Host σ ε} {h : σ} {find : Text → Except ε (Option Template)}
  {asked : Text → Prop} {expand : List Node → Context → Text → Step σ ε}

/-- Nodes do not get too deep, if what is found for the names they ask for does not. -/
theorem Step.StaysShallow.rules (hfind : host.FindsBy h find)
    (hexpand : ∀ name u, asked name → find name = .ok (some u) →
      ∀ c indentation, Step.StaysShallow host h (expand u.root c indentation)) :
    EvalRules host host expand expand (fun n => ∀ name, n.includedName? = some name → asked name)
      Eq (fun _ => True) (fun f _ => Step.StaysShallow host h f) where
  skip := .skip
  andThen := .andThen
  text := fun _ _ => .write _
  indentation := fun _ => .write _
  name := by
    intro name escape c _ _ _
    exact evalName_of_steps host host (P := fun f _ => Step.StaysShallow host h f)
      (fun _ _ hs => ⟨hs, nofun⟩) .escaped (fun _ => .write _) c name escape
  referent := fun _ hc => hc ▸ rfl
  push := fun scope hc => congrArg (·.push scope) hc
  ownLine := by
    intro name padding c _ indentation hn _ _
    exact .found hfind fun u hu =>
      (Step.StaysShallow.write _).andThen (hexpand name u (hn name rfl) hu _ _)
  inLine := by
    intro name padding c _ hn _
    exact .found hfind fun u hu => hexpand name u (hn name rfl) hu _ _

/-- **Nodes that ask for no more names than may be in progress do not get too deep**, when the names
lead to no others, and none of them back to itself. -/
theorem eval_staysShallow (hfind : host.FindsBy h find) {names : Finset Text} {limit : Nat}
    (hle : names.card ≤ limit) (hclosed : ∀ a ∈ names, ∀ b, LeadsTo find a b → b ∈ names)
    (hacyclic : ∀ a ∈ names, ¬ Relation.TransGen (LeadsTo find) a a) (ns : List Node)
    (hns : Node.Asks (· ∈ names) ns) (c : Context) (indentation : Text) :
    Step.StaysShallow host h (eval host limit ns c indentation) := by
  classical
  induction limit generalizing names ns c indentation with
  | zero =>
    have hempty : names = ∅ := Finset.card_eq_zero.mp (Nat.le_zero.mp hle)
    refine (Step.StaysShallow.rules hfind fun name u hname => ?_).nodes ns hns rfl trivial
    rw [hempty] at hname
    exact absurd hname (Finset.notMem_empty name)
  | succ limit ih =>
    refine (Step.StaysShallow.rules hfind fun name u hname hu c indentation => ?_).nodes ns hns rfl
      trivial
    -- what is found reaches only names that this name leads to, and it is none of them
    let inner := names.filter (Relation.TransGen (LeadsTo find) name ·)
    have hsub : inner ⊂ names := by
      refine Finset.filter_ssubset.mpr ⟨name, hname, hacyclic name hname⟩
    have hcard : inner.card ≤ limit := by
      have := Finset.card_lt_card hsub
      omega
    refine ih hcard ?_ (fun a ha => hacyclic a (hsub.subset ha)) u.root
      (.of_includedNames fun b hb => ?_) c indentation
    · intro a ha b hstep
      obtain ⟨hmem, hpath⟩ := Finset.mem_filter.mp ha
      exact Finset.mem_filter.mpr ⟨hclosed a hmem b hstep, hpath.tail hstep⟩
    · have hstep : LeadsTo find name b := ⟨u, hu, hb⟩
      exact Finset.mem_filter.mpr ⟨hclosed name hname b hstep, .single hstep⟩

/-! ## Renders that end -/

/-- **Where no name leads back to itself a render ends.** The templates that may be found are
finitely many, and what is found for a name is always the same. Then the template reaches finitely
many names, and whatever the data are, a render with a limit of that many inclusions inside each
other does not get too deep; with a greater limit it does the same. -/
theorem Template.ends_of_acyclic (hfind : host.FindsBy h find) {units : List Template}
    (hunits : ∀ name u, find name = .ok (some u) → u ∈ units) (t : Template)
    (hacyclic : ∀ name, t.Reaches find name → ¬ Relation.TransGen (LeadsTo find) name name) :
    ∃ names : Finset Text, (∀ name, name ∈ names ↔ t.Reaches find name) ∧
      ∀ data : Value,
        (t.renderWithin names.card host data h).result ≠ .error .tooDeep ∧
        ∀ limit, names.card ≤ limit →
          t.renderWithin limit host data h = t.renderWithin names.card host data h := by
  obtain ⟨names, hnames⟩ := Template.Reaches.exists_finset hunits t
  refine ⟨names, hnames, fun data => ?_⟩
  have hshallow := eval_staysShallow hfind (Nat.le_refl names.card)
    (fun a ha b hstep => (hnames b).mpr (((hnames a).mp ha).tail hstep))
    (fun a ha => hacyclic a ((hnames a).mp ha)) t.root
    (.of_includedNames fun name hname => (hnames name).mpr (.of_mem hname)) (.ofRoot data) []
    ⟨.empty, [], h⟩ .refl
  have hends : (t.renderWithin names.card host data h).result ≠ .error .tooDeep := by
    rw [renderWithin, ne_eq, Rendering.result_ofRun_eq_tooDeep_iff]
    exact hshallow.2
  exact ⟨hends, fun limit hle => renderWithin_of_le hle hends⟩

end

/-- Rows of cells; each cell has a mark. One row comes behind the other, and there is no rule
between them. -/
def rowUnits : List Template :=
  [⟨"row".toText, [.block "cells".toText false [.inclusion "cell".toText [' '] true],
      .inclusion "rule".toText [] false]⟩,
    ⟨"cell".toText, [.inclusion "mark".toText [] false, .interpolate ['.'] true]⟩,
    ⟨"mark".toText, [.text ['*']]⟩]

/-- A page that has rows, and cells without a row. -/
def rowPage : Template :=
  ⟨"page".toText, [.block "rows".toText false [.inclusion "row".toText [] true],
    .inclusion "cell".toText [] false]⟩

/-- Four names are reached, and a render with four inclusions inside each other is deep enough. -/
theorem Template.ends_of_acyclic_rows :
    let find : Text → Except Empty (Option Template) :=
      fun name => .ok (rowUnits.find? (·.name = name))
    let host : Host Unit Empty := ⟨.ok, fun name h => (find name, h)⟩
    (∀ name u, find name = .ok (some u) → u ∈ rowUnits) ∧
      (∀ name, ¬ Relation.TransGen (LeadsTo find) name name) ∧
      ∀ data, (rowPage.renderWithin 4 host data ()).result ≠ .error .tooDeep := by
  intro find host
  have hunits : ∀ name u, find name = .ok (some u) → u ∈ rowUnits :=
    fun name u hu => List.mem_of_find?_eq_some (Except.ok.inj hu)
  let reached : List Text := ["mark".toText, "rule".toText, "cell".toText, "row".toText]
  have hrank : ∀ a b, LeadsTo find a b → b ∈ reached ∧ reached.idxOf b < reached.idxOf a := by
    rintro a b ⟨u, hu, hb⟩
    have hname : u.name = a := by simpa using List.find?_some (Except.ok.inj hu)
    rw [← hname]
    exact (show ∀ u ∈ rowUnits, ∀ b ∈ u.includedNames,
      b ∈ reached ∧ reached.idxOf b < reached.idxOf u.name by decide +kernel) u (hunits a u hu) b hb
  have hacyclic : ∀ name, ¬ Relation.TransGen (LeadsTo find) name name :=
    not_transGen_of_rank reached.idxOf fun a b h => (hrank a b h).2
  refine ⟨hunits, hacyclic, fun data => ?_⟩
  have hfinds : host.FindsBy () find := fun _ _ _ => rfl
  obtain ⟨names, hnames, hends⟩ :=
    ends_of_acyclic hfinds hunits rowPage fun name _ => hacyclic name
  have hcard : names.card ≤ 4 := by
    refine (Finset.card_le_card fun name hname => ?_).trans (List.toFinset_card_le reached)
    refine List.mem_toFinset.mpr (((hnames name).mp hname).mem_of_closed ?_ ?_)
    · decide +kernel
    · exact fun a b _ hstep => (hrank a b hstep).1
  rw [(hends data).2 4 hcard]
  exact (hends data).1

end Mustache
