import Mathlib.Data.Finset.Card
import Mathlib.Logic.Relation
import Mustache.Template.Basic

/-!
# Templates that include each other

By what they include, the names of templates lead to one another: a name leads to those that its
template includes, if there is one by it. A template reaches the names it includes itself and all
they lead to. There may be circles, and a name may be one of no template; such a name leads nowhere.

* `Template.Reaches.mem_of_closed` — what is closed under leading to holds all that is reached
* `not_transGen_of_rank` — names that only lead to lesser ones
-/

namespace Mustache

section

variable {ε : Type} {find : Text → Except ε (Option Template)}

/-- There is a template by the first name, and it includes one by the second. -/
def LeadsTo (find : Text → Except ε (Option Template)) (name inner : Text) : Prop :=
  ∃ u, find name = .ok (some u) ∧ inner ∈ u.includedNames

/-- The template includes the name, itself or at some remove. -/
def Template.Reaches (find : Text → Except ε (Option Template)) (t : Template) (name : Text) :
    Prop :=
  ∃ first ∈ t.includedNames, Relation.ReflTransGen (LeadsTo find) first name

namespace Template.Reaches

variable {t : Template} {name inner : Text}

theorem of_mem (h : name ∈ t.includedNames) : t.Reaches find name := ⟨name, h, .refl⟩

theorem tail (h : t.Reaches find name) (hstep : LeadsTo find name inner) :
    t.Reaches find inner := by
  obtain ⟨first, hmem, hpath⟩ := h
  exact ⟨first, hmem, hpath.tail hstep⟩

/-- **A set of names with all that a template includes, and all that its members lead to, holds
whatever the template reaches.** -/
theorem mem_of_closed {P : Text → Prop} (hfirst : ∀ first ∈ t.includedNames, P first)
    (hstep : ∀ a b, P a → LeadsTo find a b → P b) (h : t.Reaches find name) : P name := by
  obtain ⟨first, hmem, hpath⟩ := h
  induction hpath with
  | refl => exact hfirst first hmem
  | tail _ hlast ih => exact hstep _ _ ih hlast

/-- Of finitely many templates no more than finitely many names can come up. -/
theorem exists_finset {units : List Template}
    (hunits : ∀ name u, find name = .ok (some u) → u ∈ units) (t : Template) :
    ∃ names : Finset Text, ∀ name, name ∈ names ↔ t.Reaches find name := by
  classical
  let mentioned := t.includedNames ++ units.flatMap includedNames
  have hmentioned : ∀ name, t.Reaches find name → name ∈ mentioned := by
    intro name hname
    refine hname.mem_of_closed (fun first hmem => List.mem_append_left _ hmem) ?_
    rintro a b - ⟨u, hu, hb⟩
    exact List.mem_append_right _ (List.mem_flatMap.mpr ⟨u, hunits a u hu, hb⟩)
  refine ⟨mentioned.toFinset.filter (t.Reaches find ·), fun name => ?_⟩
  rw [Finset.mem_filter, List.mem_toFinset]
  exact ⟨fun h => h.2, fun h => ⟨hmentioned name h, h⟩⟩

end Template.Reaches

/-- Where names only lead to names of lesser rank, none of them leads back to itself. -/
theorem not_transGen_of_rank (rank : Text → Nat)
    (h : ∀ a b, LeadsTo find a b → rank b < rank a) (name : Text) :
    ¬ Relation.TransGen (LeadsTo find) name name := by
  have hless : ∀ a b, Relation.TransGen (LeadsTo find) a b → rank b < rank a := by
    intro a b hpath
    induction hpath with
    | single hstep => exact h _ _ hstep
    | tail _ hstep ih => exact (h _ _ hstep).trans ih
  exact fun hcircle => Nat.lt_irrefl _ (hless name name hcircle)

end

end Mustache
