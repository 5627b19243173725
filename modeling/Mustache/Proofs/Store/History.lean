import Mustache.Proofs.Store.Search

/-!
# The history of a store

A store is used in many ways and for a long time, while the files that it loads from change:
templates are put into it, added from their sources and asked for, renders ask it for what they
include, all that a template includes is loaded, and now and then the store is cleared
(`Store.Action`). Whatever is done, a template is kept under its own name, and a template that the
store has once given stays the one by its name until another is put in its place or the store is
cleared. Only to put, to add and to clear change what is kept; all other actions only ask
(`Store.Grows`).

* `Store.Action.perform_cases` — what an action does to what is kept
* `Store.get?_after` — a template that is kept stays kept
* `Store.renderWithin_withAnswer` — a render is given the template that is kept
* `Store.lawful_after` — the law of a store, after any history
-/

namespace Mustache

open Text

namespace Store

variable {ε : Type}

/-! ## Actions -/

/-- What may be done with a store. -/
inductive Action (ε : Type) where
  | put (t : Template)
  | add (name source : Text)
  /-- To ask for a template, which is also what it is to call the store. -/
  | get (name : Text)
  | loadAll (t : Template)
  /-- To render a template with the store as its host. -/
  | render (limit : Nat) (escape : Text → Except ε Text) (t : Template) (data : Value)
  | clear

namespace Action

/-- The store afterwards, with the files as they are. -/
def perform (fs : Files) : Action ε → Store → Store
  | .put t, s => s.put t
  | .add name source, s => (s.add name source).2
  | .get name, s => (s.get fs name).2
  | .loadAll t, s => (s.loadAll fs t).2
  | .render limit escape t data, s => (t.renderWithin limit (host fs escape) data s).host
  | .clear, s => s.clear

/-- Another template may go by the name afterwards, or none. -/
def Replaces (name : Text) : Action ε → Prop
  | .put t => t.name = name
  | .add other _ => other = name
  | .clear => True
  | .get _ | .loadAll _ | .render .. => False

instance (name : Text) : (a : Action ε) → Decidable (a.Replaces name)
  | .put t => inferInstanceAs (Decidable (t.name = name))
  | .add other _ => inferInstanceAs (Decidable (other = name))
  | .clear => .isTrue trivial
  | .get _ | .loadAll _ | .render .. => .isFalse id

end Action

/-- The store after a row of actions, each done with the files as they are by then. -/
def after : List (Files × Action ε) → Store → Store
  | [], s => s
  | (fs, a) :: steps, s => after steps (a.perform fs s)

variable {fs : Files} {name : Text} {s s' : Store} {t : Template}

/-- **What an action does to what is kept**: it adds what has been asked for, or puts a template in,
or clears the store. -/
theorem Action.perform_cases (fs : Files) (a : Action ε) (s : Store) :
    s.Grows fs (a.perform fs s) ∨
      (∃ t s', s.Grows fs s' ∧ a.perform fs s = s'.put t ∧ a.Replaces t.name) ∨
      (a.perform fs s).units = [] ∧ ∀ name, a.Replaces name := by
  cases a with
  | put t => exact .inr (.inl ⟨t, s, .refl, rfl, rfl⟩)
  | get name => exact .inl (.get .refl name)
  | loadAll t => exact .inl (grows_loadAll fs t s)
  | render limit escape t data => exact .inl (grows_renderWithin escape fs limit t data s)
  | clear => exact .inr (.inr ⟨rfl, fun _ => trivial⟩)
  | add name source =>
    have hparse := fst_parse name source s
    have hgrows := grows_parse fs name source s
    simp only [perform, Store.add]
    generalize s.parse name source = r at hparse hgrows ⊢
    obtain ⟨e | t, s'⟩ := r
    · exact .inl hgrows
    · exact .inr (.inl ⟨t, s', hgrows, rfl, (Template.parse_eq_ok_iff.mp hparse.symm).1.symm⟩)

/-! ## Own names -/

/-- Every template is kept under its own name. -/
def WellNamed (s : Store) : Prop := ∀ e ∈ s.units, e.2.name = e.1

theorem Grows.wellNamed (h : s.Grows fs s') (hs : s.WellNamed) : s'.WellNamed := by
  induction h with
  | refl => exact hs
  | note _ n ih => exact ih
  | @get s' _ name ih =>
    have hgot := got_get fs name s'
    generalize s'.get fs name = r at hgot ⊢
    cases hgot with
    | kept => exact ih
    | missing => exact ih
    | refused _ renoted =>
      intro e he
      exact ih e (renoted.units ▸ he)
    | loaded _ goesBy units _ =>
      intro e he
      rw [units] at he
      rcases List.mem_append.mp he with he | he
      · exact ih e he
      · rw [List.mem_singleton.mp he]
        exact goesBy

theorem WellNamed.put (hs : s.WellNamed) (t : Template) : (s.put t).WellNamed := by
  intro e he
  rcases Table.mem_of_mem_insert he with rfl | he
  · rfl
  · exact hs e he

theorem WellNamed.perform (hs : s.WellNamed) (fs : Files) (a : Action ε) :
    (a.perform fs s).WellNamed := by
  rcases a.perform_cases fs s with hgrows | ⟨t, s', hgrows, hput, -⟩ | ⟨hclear, -⟩
  · exact hgrows.wellNamed hs
  · rw [hput]
    exact (hgrows.wellNamed hs).put t
  · intro e he
    rw [hclear] at he
    cases he

theorem WellNamed.after (hs : s.WellNamed) (steps : List (Files × Action ε)) :
    (after steps s).WellNamed := by
  induction steps generalizing s with
  | nil => exact hs
  | cons step steps ih => exact ih (hs.perform step.1 step.2)

/-! ## Templates that stay -/

theorem get?_perform {a : Action ε} (ha : ¬ a.Replaces name)
    (h : Table.get? name s.units = some t) :
    Table.get? name (a.perform fs s).units = some t := by
  rcases a.perform_cases fs s with hgrows | ⟨u, s', hgrows, hput, hreplaces⟩ | ⟨-, hreplaces⟩
  · exact hgrows.get?_of_kept h
  · have hne : name ≠ u.name := fun heq => ha (heq ▸ hreplaces)
    rw [hput]
    exact (Table.get?_insert_of_ne hne u s'.units).trans (hgrows.get?_of_kept h)
  · exact absurd (hreplaces name) ha

/-- **A template that is kept stays kept** as long as no other takes its place. -/
theorem get?_after {steps : List (Files × Action ε)}
    (hsteps : ∀ step ∈ steps, ¬ step.2.Replaces name) (h : Table.get? name s.units = some t) :
    Table.get? name (after steps s).units = some t := by
  induction steps generalizing s with
  | nil => exact h
  | cons step steps ih =>
    obtain ⟨hstep, hsteps⟩ := List.forall_mem_cons.mp hsteps
    exact ih hsteps (get?_perform hstep h)

end Store

/-- The host, except that it finds this template by the name. -/
def Host.withAnswer {σ ε : Type} (name : Text) (t : Template) (host : Host σ ε) : Host σ ε :=
  { host with find := fun n h => if n = name then (.ok (some t), h) else host.find n h }

namespace Store

variable {ε : Type} {name : Text} {s : Store} {t : Template}

/-- **A render is given the template that is kept**, whenever it asks for it. -/
theorem renderWithin_withAnswer (fs : Files) (escape : Text → Except ε Text)
    (h : Table.get? name s.units = some t) (limit : Nat) (u : Template) (data : Value) :
    u.renderWithin limit (host fs escape) data s =
      u.renderWithin limit ((host fs escape).withAnswer name t) data s := by
  have hm : (host fs escape).Mirrors
      (fun s₁ s₂ => s₁ = s₂ ∧ Table.get? name s₁.units = some t)
      ((host fs escape).withAnswer name t) := by
    constructor
    · exact fun _ => rfl
    · rintro n s₁ _ ⟨rfl, hkept⟩
      by_cases hn : n = name
      · simp only [Host.withAnswer, hn, if_true, find_of_kept hkept]
      · simp only [Host.withAnswer, hn, if_false]
    · rintro n s₁ _ ⟨rfl, hkept⟩
      by_cases hn : n = name
      · simp only [Host.withAnswer, hn, if_true, find_of_kept hkept]
        exact ⟨trivial, hkept⟩
      · simp only [Host.withAnswer, hn, if_false]
        exact ⟨trivial, (find_eq escape fs n s₁).2.get?_of_kept hkept⟩
  obtain ⟨hresult, hcalls, hhost, -⟩ := hm.renderWithin ⟨rfl, h⟩ limit u data
  generalize u.renderWithin limit (host fs escape) data s = r at hresult hcalls hhost ⊢
  generalize u.renderWithin limit ((host fs escape).withAnswer name t) data s = r' at *
  cases r
  cases r'
  congr

/-! ## The law of a store -/

/-- **The law of a store**, at any moment: after anything that has been done with it since it was
empty, however the files have changed meanwhile, and also halfway through a render or a loading.
Every template is kept under its own name. What is given once is given to whoever asks later, a
render included, until another template takes its place or the store is cleared. What cannot be
added or had changes nothing that is kept. Loading and rendering only add. -/
theorem lawful_after {loader : Option Loader} {before : List (Files × Action ε)} {fs : Files}
    (hs : (after before (.empty loader)).Grows fs s) :
    s.WellNamed ∧
    (∀ name t s₁, s.get fs name = (.ok (some t), s₁) → ∀ s₂, s₁.Grows fs s₂ →
      ∀ steps : List (Files × Action ε), (∀ step ∈ steps, ¬ step.2.Replaces name) → ∀ fs',
        (after steps s₂).get fs' name = (.ok (some t), after steps s₂) ∧
        ∀ limit (escape : Text → Except ε Text) (u : Template) (data : Value),
          u.renderWithin limit (host fs' escape) data (after steps s₂) =
            u.renderWithin limit ((host fs' escape).withAnswer name t) data (after steps s₂)) ∧
    (∀ name source e s', s.add name source = (.error e, s') → s'.units = s.units) ∧
    (∀ name e s', s.get fs name = (.error e, s') → s'.units = s.units) ∧
    (∀ name s', s.get fs name = (.ok none, s') → s'.units = s.units) ∧
    (∀ t, s.units <+: (s.loadAll fs t).2.units) ∧
    ∀ limit (escape : Text → Except ε Text) (t : Template) (data : Value),
      s.units <+: (t.renderWithin limit (host fs escape) data s).host.units := by
  have hempty : (Store.empty loader).WellNamed := nofun
  refine ⟨hs.wellNamed (hempty.after before), ?_, fun _ _ _ _ => units_of_add_error,
    fun _ _ _ => units_of_get_error, ?_, fun t => (grows_loadAll fs t s).units, ?_⟩
  · intro name t s₁ hget s₂ hgrows steps hsteps fs'
    have hkept : Table.get? name (after steps s₂).units = some t :=
      get?_after hsteps (hgrows.get?_of_kept (get?_of_get hget))
    exact ⟨get_of_kept hkept, fun limit escape u data =>
      renderWithin_withAnswer fs' escape hkept limit u data⟩
  · intro name s' hget
    rw [eq_of_get_none hget]
  · exact fun limit escape t data => (grows_renderWithin escape fs limit t data s).units

/-- A folder with a greeting. -/
def greetingFolder (greeting : Text) : Files :=
  ⟨[(["hello.mustache".toText], .file (Encoding.bytesOf greeting))], []⟩

/-- What may be done when a greeting has been given: to add a template with a flaw, to load all that
another includes, and to ask again, while its file is no longer what it was. -/
def greetingSteps : List (Files × Action Empty) :=
  [(greetingFolder "Bye".toText, .add "bye".toText "\x7b\x7b".toText),
    (greetingFolder "Bye".toText, .loadAll ⟨"page".toText, [.inclusion "hello".toText [] true]⟩),
    (greetingFolder "\x7b\x7b".toText, .get "hello".toText)]

theorem lawful_after_greeting :
    let s := after [(greetingFolder [], .put ⟨"page".toText, [.text "Page".toText]⟩),
      (greetingFolder [], (.clear : Action Empty))] (.empty (some (.ofFolder (.ofText []))))
    let given := (s.get (greetingFolder "Hello".toText) "hello".toText).2
    (s.get (greetingFolder "Hello".toText) "hello".toText).1 =
        .ok (some ⟨"hello".toText, [.text "Hello".toText]⟩) ∧
      (∀ step ∈ greetingSteps, ¬ step.2.Replaces "hello".toText) ∧
      ∀ fs, ((after greetingSteps given).get fs "hello".toText).1 =
        .ok (some ⟨"hello".toText, [.text "Hello".toText]⟩) := by
  intro s given
  have hgiven : (s.get (greetingFolder "Hello".toText) "hello".toText).1 =
      .ok (some ⟨"hello".toText, [.text "Hello".toText]⟩) := by decide +kernel
  have hsteps : ∀ step ∈ greetingSteps, ¬ step.2.Replaces "hello".toText := by decide +kernel
  have hrefl : s.Grows (greetingFolder "Hello".toText) s := .refl
  refine ⟨hgiven, hsteps, fun fs => ?_⟩
  have hlaw := (lawful_after hrefl).2.1 _ _ _ (Prod.ext hgiven rfl)
  rw [(hlaw given .refl greetingSteps hsteps fs).1]

end Store
end Mustache
