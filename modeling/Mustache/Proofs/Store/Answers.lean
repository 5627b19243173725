import Mustache.Proofs.Render.Hosts

/-!
# What a store answers

A store that is asked for a name gives the template that it keeps, or else what its files have.
What it gives it keeps, so as long as the files stay as they are the answers of a store
(`Store.answer`) never change by asking: a store that has been asked for any number of names
(`Store.Grows`) keeps what it kept, in the same order and with the new templates behind, and
answers as it did before. A render asks its store for names and does nothing else with it, so what
a render comes to depends on the answers of its store only.

* `Store.got_get` — what asking a store for a name comes to
* `Store.Grows.units`, `Store.Grows.answer` — what a store keeps and answers when it has been asked
* `Store.grows_renderWithin` — a render only asks its store
* `Store.renderWithin_congr` — renders with stores that give the same answers
-/

namespace Mustache

open Text

theorem ok_of_mapError {α β γ : Type} {f : α → β} {answer : Except α γ} {a : γ}
    (h : answer.mapError f = .ok a) : answer = .ok a := by
  cases answer with
  | error e => cases h
  | ok b => exact congrArg Except.ok (Except.ok.inj h)

theorem error_of_mapError {α β γ : Type} {f : α → β} {answer : Except α γ} {e' : β}
    (h : answer.mapError f = .error e') : ∃ e, answer = .error e ∧ f e = e' := by
  cases answer with
  | error e => exact ⟨e, rfl, Except.error.inj h⟩
  | ok b => cases h

/-- The template by a name, as the files have it. -/
def Loader.template (l : Loader) (fs : Files) (name : Text) : Except LoadError (Option Template) :=
  match l.load? fs name with
  | .error e => .error e
  | .ok none => .ok none
  | .ok (some (_, source)) =>
    match Template.parse name source .standard with
    | .error e => .error (.parse e)
    | .ok t => .ok (some t)

namespace Store

variable {fs : Files} {name : Text} {s s' s'' : Store}

/-! ## Other notices -/

/-- The second store differs from the first in nothing but its notices. -/
structure Renoted (s s' : Store) : Prop where
  units : s'.units = s.units
  loader : s'.loader = s.loader

theorem Renoted.refl (s : Store) : s.Renoted s := ⟨rfl, rfl⟩

theorem Renoted.trans (h : s.Renoted s') (h' : s'.Renoted s'') : s.Renoted s'' :=
  ⟨h'.units.trans h.units, h'.loader.trans h.loader⟩

theorem renoted_note (n : Notice) (s : Store) : s.Renoted (s.note n) := ⟨rfl, rfl⟩

theorem renoted_parse (name source : Text) (s : Store) : s.Renoted (s.parse name source).2 := by
  refine ⟨units_parse name source s, ?_⟩
  unfold parse
  split
  · exact loader_foldl_note _ (Notice.delimitersSet name) s
  · exact loader_foldl_note _ (Notice.delimitersSet name) s

theorem fst_parse (name source : Text) (s : Store) :
    (s.parse name source).1 = Template.parse name source .standard := by
  unfold parse
  dsimp only
  split
  · next h => exact h.symm
  · next h => exact h.symm

theorem add_of_parse_error {source : Text} {e : ParseError}
    (h : Template.parse name source .standard = .error e) (s : Store) :
    ∃ s', s.add name source = (.error e, s') ∧ s.Renoted s' := by
  have hfst := fst_parse name source s
  have hrenoted := renoted_parse name source s
  unfold add
  rw [h] at hfst
  generalize s.parse name source = r at hfst hrenoted ⊢
  obtain ⟨answer, s'⟩ := r
  obtain rfl : answer = .error e := hfst
  exact ⟨s', rfl, hrenoted⟩

/-! ## Asking for a name -/

/-- What asking a store for a name may come to. -/
inductive Got (name : Text) (s : Store) : Except LoadError (Option Template) × Store → Prop
  /-- The template is kept. -/
  | kept {t : Template} (old : Table.get? name s.units = some t) : Got name s (.ok (some t), s)
  /-- The template is loaded; from now on it is kept. -/
  | loaded {t : Template} {s' : Store} (new : Table.get? name s.units = none)
      (goesBy : t.name = name) (units : s'.units = s.units ++ [(name, t)])
      (loader : s'.loader = s.loader) : Got name s (.ok (some t), s')
  /-- There is no such template. -/
  | missing (new : Table.get? name s.units = none) : Got name s (.ok none, s)
  /-- The template cannot be loaded. -/
  | refused {e : LoadError} {s' : Store} (new : Table.get? name s.units = none)
      (renoted : s.Renoted s') : Got name s (.error e, s')

/-- Loading a template comes to what the files have, and to nothing else. -/
theorem load_eq (l : Loader) (fs : Files) (new : Table.get? name s.units = none) :
    (s.load l fs name).1 = l.template fs name ∧ s.Got name (s.load l fs name) := by
  unfold load Loader.template Loader.load?
  cases l.find? fs name with
  | error e => exact ⟨rfl, .refused new (.refl s)⟩
  | ok found =>
    cases found with
    | none => exact ⟨rfl, .missing new⟩
    | some p =>
      dsimp only
      have hnote := renoted_note (.loading name p) s
      cases fs.readText p l.encoding with
      | error e => exact ⟨rfl, .refused new hnote⟩
      | ok source =>
        simp only [Except.map]
        cases hparse : Template.parse name source .standard with
        | error e =>
          obtain ⟨s', hadd, hrenoted⟩ := add_of_parse_error hparse (s.note (.loading name p))
          rw [hadd]
          exact ⟨rfl, .refused new (hnote.trans hrenoted)⟩
        | ok t =>
          obtain ⟨s', hadd, hunits, hloader⟩ := add_of_parse hparse (s.note (.loading name p))
          rw [hadd]
          refine ⟨rfl, .loaded new (Template.parse_eq_ok_iff.mp hparse).1 ?_ hloader⟩
          exact hunits.trans (Table.insert_of_get?_eq_none new t)

theorem got_get (fs : Files) (name : Text) (s : Store) : s.Got name (s.get fs name) := by
  unfold get
  cases hkept : Table.get? name s.units with
  | some t => exact .kept hkept
  | none =>
    cases s.loader with
    | none => exact .missing hkept
    | some l => exact (load_eq l fs hkept).2

/-- What asking for a name gives is kept from then on. -/
theorem get?_of_get {t : Template} (h : s.get fs name = (.ok (some t), s')) :
    Table.get? name s'.units = some t := by
  have hgot := got_get fs name s
  rw [h] at hgot
  cases hgot with
  | kept old => exact old
  | loaded new _ units _ =>
    rw [units, Table.get?_append, new, Option.none_or]
    simp only [Table.get?, if_true]

/-- Asking for a template that there is none of changes nothing. -/
theorem eq_of_get_none (h : s.get fs name = (.ok none, s')) : s' = s := by
  have hgot := got_get fs name s
  rw [h] at hgot
  cases hgot with
  | missing => rfl

/-! ## Answers -/

/-- What a store answers when it is asked for a name. -/
def answer (fs : Files) (s : Store) (name : Text) : Except LoadError (Option Template) :=
  (s.get fs name).1

theorem answer_eq (fs : Files) (s : Store) (name : Text) :
    s.answer fs name =
      match Table.get? name s.units, s.loader with
      | some t, _ => .ok (some t)
      | none, none => .ok none
      | none, some l => l.template fs name := by
  unfold answer get
  cases hkept : Table.get? name s.units with
  | some t => rfl
  | none =>
    cases s.loader with
    | none => rfl
    | some l => exact (load_eq l fs hkept).1

theorem answer_of_kept {t : Template} (h : Table.get? name s.units = some t) :
    s.answer fs name = .ok (some t) := by
  rw [answer_eq, h]

theorem Renoted.answer (h : s.Renoted s') (fs : Files) : s'.answer fs = s.answer fs := by
  funext name
  rw [answer_eq, answer_eq, h.units, h.loader]

/-- **Asking a store for a name changes none of its answers.** -/
theorem answer_get (fs : Files) (name : Text) (s : Store) :
    (s.get fs name).2.answer fs = s.answer fs := by
  have hgot := got_get fs name s
  cases hget : s.get fs name with
  | mk answer s' =>
    rw [hget] at hgot
    cases hgot with
    | kept => rfl
    | missing => rfl
    | refused _ renoted => exact renoted.answer fs
    | @loaded t _ _ _ units loader =>
      funext other
      by_cases hother : other = name
      · -- what has been loaded is what the files had
        rw [hother, answer_of_kept (get?_of_get hget), Store.answer, hget]
      · rw [answer_eq, answer_eq, units, loader, Table.get?_append]
        simp only [Table.get?, if_neg (Ne.symm hother), Option.or_none]

/-! ## A store that has been asked -/

/-- What a store may come to by being asked for names, and taking notes. -/
inductive Grows (fs : Files) (s : Store) : Store → Prop
  | refl : Grows fs s s
  | note {s' : Store} (before : Grows fs s s') (n : Notice) : Grows fs s (s'.note n)
  | get {s' : Store} (before : Grows fs s s') (name : Text) : Grows fs s (s'.get fs name).2

namespace Grows

theorem of_get {answer : Except LoadError (Option Template)}
    (h : s.get fs name = (answer, s')) : s.Grows fs s' := by
  have hget : s.Grows fs (s.get fs name).2 := .get .refl name
  rwa [h] at hget

theorem trans (h : s.Grows fs s') (h' : s'.Grows fs s'') : s.Grows fs s'' := by
  induction h' with
  | refl => exact h
  | note _ n ih => exact ih.note n
  | get _ name ih => exact ih.get name

/-- **A store that has been asked answers as it did before.** -/
theorem answer (h : s.Grows fs s') : s'.answer fs = s.answer fs := by
  induction h with
  | refl => rfl
  | note _ n ih => exact ((renoted_note n _).answer fs).trans ih
  | get _ name ih => exact (answer_get fs name _).trans ih

/-- **A store that has been asked keeps what it kept**, and in the same order; what is new comes
behind. -/
theorem units (h : s.Grows fs s') : s.units <+: s'.units := by
  induction h with
  | refl => exact List.prefix_rfl
  | note _ n ih => exact ih
  | @get s' _ name ih =>
    have hgot := got_get fs name s'
    generalize s'.get fs name = r at hgot ⊢
    cases hgot with
    | kept => exact ih
    | loaded _ _ units _ => exact ih.trans ⟨_, units.symm⟩
    | missing => exact ih
    | refused _ renoted =>
      show s.units <+: _
      rw [renoted.units]
      exact ih

theorem get?_of_kept (h : s.Grows fs s') {t : Template}
    (ht : Table.get? name s.units = some t) : Table.get? name s'.units = some t := by
  obtain ⟨new, hnew⟩ := h.units
  rw [← hnew, Table.get?_append, ht, Option.some_or]

end Grows

theorem grows_foldl_note (fs : Files) {α : Type} (ds : List α) (f : α → Notice) (s : Store) :
    s.Grows fs (ds.foldl (fun s d => s.note (f d)) s) := by
  induction ds generalizing s with
  | nil => exact .refl
  | cons d ds ih => exact (Grows.refl.note (f d)).trans (ih _)

theorem grows_parse (fs : Files) (name source : Text) (s : Store) :
    s.Grows fs (s.parse name source).2 := by
  have hswitches := grows_foldl_note fs (Stream.ofSource source .standard 0).switches
    (Notice.delimitersSet name) s
  unfold parse
  split
  · exact hswitches.note _
  · exact hswitches

/-! ## As the host of a render -/

section

variable {ε : Type} (escape : Text → Except ε Text)

/-- The answers of the host are those of the store, and finding only asks. -/
theorem find_eq (fs : Files) (name : Text) (s : Store) :
    ((host fs escape).find name s).1 = (s.answer fs name).mapError .inl ∧
      s.Grows fs ((host fs escape).find name s).2 := by
  have hget : s.Grows fs (s.get fs name).2 := Grows.refl.get name
  simp only [host, answer]
  generalize s.get fs name = r at hget ⊢
  obtain ⟨_ | _ | t, s'⟩ := r
  · exact ⟨rfl, hget⟩
  · exact ⟨rfl, hget.note _⟩
  · exact ⟨rfl, hget⟩

theorem grows_of_reaches (h : (host fs escape).Reaches s s') : s.Grows fs s' := by
  induction h with
  | refl => exact .refl
  | find name _ ih => exact ih.trans (find_eq escape fs name _).2

/-- **A render only asks its store.** -/
theorem grows_renderWithin (fs : Files) (limit : Nat) (t : Template) (data : Value) (s : Store) :
    s.Grows fs (t.renderWithin limit (host fs escape) data s).host :=
  grows_of_reaches escape (Template.reaches_renderWithin _ limit t data s)

/-- **With stores that give the same answers a template renders to the same.** -/
theorem renderWithin_congr (h : s'.answer fs = s.answer fs) (limit : Nat) (t : Template)
    (data : Value) :
    (t.renderWithin limit (host fs escape) data s').result =
      (t.renderWithin limit (host fs escape) data s).result := by
  have hm : (host fs escape).Mirrors (fun s' s => s'.answer fs = s.answer fs) (host fs escape) := by
    constructor
    · exact fun _ => rfl
    · intro name s₁ s₂ hs
      rw [(find_eq escape fs name s₁).1, (find_eq escape fs name s₂).1, hs]
    · intro name s₁ s₂ hs
      exact ((find_eq escape fs name s₁).2.answer.trans hs).trans
        (find_eq escape fs name s₂).2.answer.symm
  exact (hm.renderWithin h limit t data).result

end

end Store
end Mustache
