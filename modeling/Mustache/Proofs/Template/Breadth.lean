import Mathlib.Data.Finset.Lattice.Fold
import Mustache.Proofs.Template.Included

/-!
# The names that a template reaches, in order

The names that a template reaches can be listed breadth-first: those it includes itself, then those
that these lead to, in the order of the names they are reached from, and so on, each name where it
is mentioned first. Its own name is left out, and so is what only that one leads to.

* `Template.reachesOther_iff` — the lists hold what is reached
* `Template.exists_namesWithin_eq` — the list that the lists grow to
-/

namespace Mustache

/-! ## First mentions -/

section

variable {α : Type} [DecidableEq α]

theorem nodup_firsts (l : List α) : (firsts l).Nodup := by
  induction l with
  | nil => exact List.nodup_nil
  | cons a l ih =>
    refine List.nodup_cons.mpr ⟨fun h => ?_, ih.filter _⟩
    exact of_decide_eq_true (List.mem_filter.mp h).2 rfl

/-- What is behind changes nothing of what is mentioned first before. -/
theorem prefix_firsts {l l' : List α} (h : l <+: l') : firsts l <+: firsts l' := by
  induction l generalizing l' with
  | nil => exact List.nil_prefix
  | cons a l ih =>
    obtain ⟨rest, rfl⟩ := h
    exact List.prefix_cons_inj a |>.mpr ((ih (List.prefix_append l rest)).filter _)

end

theorem filter_firsts_cons_of_mem {seen : List Text} {name : Text} (h : name ∈ seen)
    (names : List Text) :
    (firsts (name :: names)).filter (· ∉ seen) = (firsts names).filter (· ∉ seen) := by
  rw [firsts, List.filter_cons, if_neg (by simp [h]), List.filter_filter]
  refine List.filter_congr fun other _ => ?_
  grind

theorem filter_firsts_cons {seen : List Text} {name : Text} (h : name ∉ seen)
    (names : List Text) :
    (firsts (name :: names)).filter (· ∉ seen) =
      name :: (firsts names).filter (· ∉ name :: seen) := by
  rw [firsts, List.filter_cons, if_pos (decide_eq_true h), List.filter_filter]
  congr 1
  refine List.filter_congr fun other _ => ?_
  grind

/-! ## Breadth-first lists -/

section

variable {ε : Type} {find : Text → Except ε (Option Template)} {t : Template} {name inner : Text}
  {order : List Text}

/-- The names that the template by a name includes, if there is one. -/
def namesBy (find : Text → Except ε (Option Template)) (name : Text) : List Text :=
  match find name with
  | .ok (some u) => u.includedNames
  | _ => []

theorem mem_namesBy : inner ∈ namesBy find name ↔ LeadsTo find name inner := by
  unfold namesBy LeadsTo
  split
  · next u hu => simp [hu]
  · next hnone =>
    refine iff_of_false List.not_mem_nil ?_
    rintro ⟨u, hu, -⟩
    exact hnone u hu

namespace Template

/-- The template includes the name, itself or at some remove, and its own name is not on the way. -/
def ReachesOther (find : Text → Except ε (Option Template)) (t : Template) (name : Text) : Prop :=
  ∃ first ∈ t.includedNames, first ≠ t.name ∧
    Relation.ReflTransGen (fun a b => LeadsTo find a b ∧ b ≠ t.name) first name

theorem ReachesOther.of_mem (h : name ∈ t.includedNames) (hne : name ≠ t.name) :
    t.ReachesOther find name := ⟨name, h, hne, .refl⟩

theorem ReachesOther.tail (h : t.ReachesOther find name) (hstep : LeadsTo find name inner)
    (hne : inner ≠ t.name) : t.ReachesOther find inner := by
  obtain ⟨first, hmem, hother, hpath⟩ := h
  exact ⟨first, hmem, hother, hpath.tail ⟨hstep, hne⟩⟩

/-- What is closed under leading to, but for the template's own name, holds all that is reached. -/
theorem ReachesOther.mem_of_closed {names : List Text}
    (hfirst : ∀ first ∈ t.includedNames, first ≠ t.name → first ∈ names)
    (hstep : ∀ a ∈ names, ∀ b ∈ namesBy find a, b ≠ t.name → b ∈ names)
    (h : t.ReachesOther find name) : name ∈ names := by
  obtain ⟨first, hmem, hne, hpath⟩ := h
  induction hpath with
  | refl => exact hfirst first hmem hne
  | tail _ hlast ih => exact hstep _ ih _ (mem_namesBy.mpr hlast.1) hlast.2

/-- What a template includes, and what is included by the templates by these names, without its own
name: each name where it is mentioned first. -/
def mentions (find : Text → Except ε (Option Template)) (t : Template) (names : List Text) :
    List Text :=
  (firsts (t.includedNames ++ names.flatMap (namesBy find))).filter (· ≠ t.name)

/-- The names that are at most so many steps away from a template, in the order of first mention. -/
def namesWithin (find : Text → Except ε (Option Template)) (t : Template) : Nat → List Text
  | 0 => []
  | k + 1 => t.mentions find (t.namesWithin find k)

theorem mem_mentions {names : List Text} :
    name ∈ t.mentions find names ↔
      (name ∈ t.includedNames ∨ ∃ a ∈ names, LeadsTo find a name) ∧ name ≠ t.name := by
  simp only [mentions, List.mem_filter, mem_firsts, List.mem_append, List.mem_flatMap, mem_namesBy,
    decide_eq_true_eq]

theorem nodup_mentions (names : List Text) : (t.mentions find names).Nodup :=
  (nodup_firsts _).filter _

theorem prefix_mentions {names names' : List Text} (h : names <+: names') :
    t.mentions find names <+: t.mentions find names' := by
  obtain ⟨rest, rfl⟩ := h
  refine (prefix_firsts ?_).filter _
  rw [List.flatMap_append, ← List.append_assoc]
  exact List.prefix_append _ _

/-- With every step names are added behind those that there are. -/
theorem prefix_namesWithin {k k' : Nat} (h : k ≤ k') :
    t.namesWithin find k <+: t.namesWithin find k' := by
  induction k generalizing k' with
  | zero => exact List.nil_prefix
  | succ k ih =>
    obtain ⟨k', rfl⟩ : ∃ j, k' = j + 1 := ⟨k' - 1, by omega⟩
    exact prefix_mentions (ih (by omega))

/-- **A template reaches the names of the lists and no others.** -/
theorem reachesOther_iff : t.ReachesOther find name ↔ ∃ k, name ∈ t.namesWithin find k := by
  constructor
  · rintro ⟨first, hmem, hne, hpath⟩
    induction hpath with
    | refl => exact ⟨1, mem_mentions.mpr ⟨.inl hmem, hne⟩⟩
    | @tail a b _ hlast ih =>
      obtain ⟨k, hk⟩ := ih
      exact ⟨k + 1, mem_mentions.mpr ⟨.inr ⟨a, hk, hlast.1⟩, hlast.2⟩⟩
  · rintro ⟨k, hk⟩
    induction k generalizing name with
    | zero => cases hk
    | succ k ih =>
      obtain ⟨hmem | ⟨a, ha, hstep⟩, hne⟩ := mem_mentions.mp hk
      · exact .of_mem hmem hne
      · exact (ih ha).tail hstep hne

/-- A list that mentions itself begins with the names of every number of steps. -/
theorem prefix_of_eq_mentions (h : order = t.mentions find order) (k : Nat) :
    t.namesWithin find k <+: order := by
  induction k with
  | zero => exact List.nil_prefix
  | succ k ih =>
    rw [h]
    exact prefix_mentions ih

/-- **A list of what a template reaches that mentions itself is what the lists grow to.** -/
theorem exists_namesWithin_eq (h : order = t.mentions find order)
    (hreached : ∀ name ∈ order, t.ReachesOther find name) :
    ∃ depth, ∀ k, depth ≤ k → t.namesWithin find k = order := by
  choose! depth hdepth using fun name hname => reachesOther_iff.mp (hreached name hname)
  refine ⟨order.toFinset.sup depth, fun k hk => ?_⟩
  have hsub : order ⊆ t.namesWithin find k := by
    intro name hname
    have hle : depth name ≤ k := (Finset.le_sup (List.mem_toFinset.mpr hname)).trans hk
    exact (prefix_namesWithin hle).subset (hdepth name hname)
  have hnodup : order.Nodup := h ▸ nodup_mentions order
  exact (prefix_of_eq_mentions h k).eq_of_length_le (hnodup.subperm hsub).length_le

end Template

end

end Mustache
