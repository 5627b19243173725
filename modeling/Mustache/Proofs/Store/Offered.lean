import Mustache.Proofs.Template.Balanced
import Mustache.Store.Partials

/-!
# Offered templates

A table of sources, no name twice and all of them in order, becomes a store in which each template
goes by its name and there is nothing else. As the host of a render such a store is never changed in
what it keeps: it has no folder to load from, so all that comes up are notices.

* `Partials.storeOf_offered` — the store of offered sources
* `Store.find_of_kept`, `Store.find_of_not_kept` — what a store without a folder finds
* `Store.offers_of_kept` — and what it may ever find
-/

namespace Mustache

open Text

/-! ## The store -/

namespace Store

theorem loader_foldl_note (ds : List Delimiters) (f : Delimiters → Notice) (s : Store) :
    (ds.foldl (fun s d => s.note (f d)) s).loader = s.loader := by
  induction ds generalizing s with
  | nil => rfl
  | cons d ds ih => exact ih (s.note (f d))

/-- Adding a source that parses keeps its template. -/
theorem add_of_parse {name source : Text} {t : Template}
    (h : Template.parse name source .standard = .ok t) (s : Store) :
    ∃ s', s.add name source = (.ok t, s') ∧ s'.units = Table.insert name t s.units ∧
      s'.loader = s.loader := by
  have hname : t.name = name := (Template.parse_eq_ok_iff.mp h).1
  unfold add parse
  rw [h]
  refine ⟨_, rfl, ?_, ?_⟩
  · exact congrArg₂ (Table.insert · t ·) hname (units_foldl_note _ (Notice.delimitersSet name) s)
  · exact loader_foldl_note _ (Notice.delimitersSet name) s

/-- What a store is after sources have been added to it. -/
structure HasAdded (sources : Table Text Text) (s s' : Store) : Prop where
  loader : s'.loader = s.loader
  added : ∀ e ∈ sources, ∀ t, Template.parse e.1 e.2 .standard = .ok t →
    Table.get? e.1 s'.units = some t
  others : ∀ name, name ∉ Table.keys sources →
    Table.get? name s'.units = Table.get? name s.units

end Store

namespace Partials

/-- Sources, as they are offered. -/
def offered (sources : Table Text Text) : Table Text Offer :=
  sources.map fun e => (e.1, .source e.2)

/-- **A table of sources that parse becomes a store of their templates.** -/
theorem storeOf_offered {sources : Table Text Text} (nodup : (Table.keys sources).Nodup)
    (parses : ∀ e ∈ sources, ∃ t, Template.parse e.1 e.2 .standard = .ok t) (s : Store) :
    ∃ s', storeOf s (offered sources) = .ok s' ∧ Store.HasAdded sources s s' := by
  induction sources generalizing s with
  | nil =>
    refine ⟨s, rfl, rfl, ?_, fun _ _ => rfl⟩
    intro e he
    cases he
  | cons e sources ih =>
    obtain ⟨name, source⟩ := e
    obtain ⟨hfresh, nodup⟩ := List.nodup_cons.mp nodup
    obtain ⟨t, ht⟩ := parses (name, source) List.mem_cons_self
    obtain ⟨s₁, hadd, hunits, hloader⟩ := Store.add_of_parse ht s
    obtain ⟨s', hstore, has⟩ := ih nodup (fun e he => parses e (List.mem_cons_of_mem _ he)) s₁
    refine ⟨s', ?_, has.loader.trans hloader, ?_, ?_⟩
    · simp only [offered, List.map_cons, storeOf, hadd]
      exact hstore
    · intro e he t' ht'
      rcases List.mem_cons.mp he with rfl | he
      · -- no later source goes by this name
        rw [has.others name hfresh, hunits, Table.get?_insert_self]
        rw [ht] at ht'
        cases ht'
        rfl
      · exact has.added e he t' ht'
    · intro other hother
      rw [Table.keys, List.map_cons, List.mem_cons, not_or] at hother
      rw [has.others other hother.2, hunits, Table.get?_insert_of_ne hother.1]

end Partials

/-! ## The store as a host -/

namespace Store

variable {ε : Type} {fs : Files} {escape : Text → Except ε Text} {name : Text} {s : Store}

theorem find_of_kept {t : Template} (h : Table.get? name s.units = some t) :
    (host fs escape).find name s = (.ok (some t), s) := by
  simp only [host, get_of_kept h]

theorem find_of_not_kept (hloader : s.loader = none) (h : Table.get? name s.units = none) :
    (host fs escape).find name s = (.ok none, s.note (.notFound name)) := by
  simp only [host, get, h, hloader]

/-- What a store without a folder finds is kept. -/
theorem get?_of_find {t : Template} (hloader : s.loader = none)
    (h : ((host fs escape).find name s).1 = .ok (some t)) : Table.get? name s.units = some t := by
  cases hget : Table.get? name s.units with
  | some t' =>
    rw [find_of_kept hget] at h
    cases h
    rfl
  | none =>
    rw [find_of_not_kept hloader hget] at h
    cases h

/-- The store keeps what the other one keeps, and has no folder. -/
def Keeps (s s' : Store) : Prop := s'.units = s.units ∧ s'.loader = none

theorem Keeps.find {s' : Store} (h : s.Keeps s') (name : Text) :
    s.Keeps ((host fs escape).find name s').2 := by
  obtain ⟨hunits, hloader⟩ := h
  cases hget : Table.get? name s'.units with
  | some t =>
    rw [find_of_kept hget]
    exact ⟨hunits, hloader⟩
  | none =>
    rw [find_of_not_kept hloader hget]
    exact ⟨hunits, hloader⟩

end Store

/-! ## What a host may ever find -/

section

variable {σ ε : Type}

/-- The states that a host gets to by looking for templates. -/
inductive Host.Reaches (host : Host σ ε) (h : σ) : σ → Prop
  | refl : Reaches host h h
  | find {h' : σ} (name : Text) (before : Reaches host h h') :
      Reaches host h (host.find name h').2

/-- Every template that the host finds, from this state on, has the property. -/
def Host.Offers (host : Host σ ε) (h : σ) (good : Template → Prop) : Prop :=
  ∀ h' name t, host.Reaches h h' → (host.find name h').1 = .ok (some t) → good t

/-- A store without a folder keeps the same whatever it is asked to find. -/
theorem Store.keeps_of_reaches {fs : Files} {escape : Text → Except ε Text} {s s' : Store}
    (hloader : s.loader = none) (h : (host fs escape).Reaches s s') : s.Keeps s' := by
  induction h with
  | refl => exact ⟨rfl, hloader⟩
  | find name _ ih => exact ih.find name

/-- **A store without a folder never finds anything but what it keeps.** -/
theorem Store.offers_of_kept (fs : Files) (escape : Text → Except ε Text)
    {good : Template → Prop} {s : Store} (hloader : s.loader = none)
    (hgood : ∀ name t, Table.get? name s.units = some t → good t) :
    (host fs escape).Offers s good := by
  intro s' name t hreaches hfind
  obtain ⟨hunits, hloader'⟩ := keeps_of_reaches hloader hreaches
  apply hgood name t
  rw [← hunits]
  exact get?_of_find hloader' hfind

end

end Mustache
