import Mustache.Proofs.Store.Answers

/-!
# What offered templates go by

In the store that a table of offers becomes, a source goes by its key and a finished template by its
own name. So a name is answered with the last of the offered templates that goes by it, whatever the
keys are, and the table means what it says, the template at a key for the key and nothing for any
other name (`Partials.Means`), exactly if no finished template has another name than its key.

* `Partials.storeOf_of_templates`, `Partials.storeOf_of_flaw` — what a table of offers becomes
* `Partials.find_of_templates` — what is found in it
* `Partials.find_table` — the tables that mean what they say
-/

namespace Mustache

open Text

/-- The template that is offered at a key. -/
def Offer.template (key : Text) : Offer → Except ParseError Template
  | .finished t => .ok t
  | .source s => Template.parse key s .standard

/-- The last of the templates that goes by a name. -/
def lastNamed (name : Text) (ts : List Template) : Option Template :=
  ts.reverse.find? (·.name = name)

section

variable {name : Text} {t : Template} {ts : List Template}

theorem lastNamed_append (name : Text) (ts us : List Template) :
    lastNamed name (ts ++ us) = (lastNamed name us).or (lastNamed name ts) := by
  unfold lastNamed
  rw [List.reverse_append, List.find?_append]

theorem lastNamed_cons :
    lastNamed name (t :: ts) =
      (lastNamed name ts).or (if t.name = name then some t else none) := by
  rw [← List.singleton_append, lastNamed_append]
  congr 1
  by_cases h : t.name = name
  · rw [if_pos h]
    exact List.find?_cons_of_pos (decide_eq_true h)
  · rw [if_neg h]
    exact List.find?_cons_of_neg (by simpa only [decide_eq_true_eq] using h)

theorem lastNamed_eq_none_iff : lastNamed name ts = none ↔ ∀ t ∈ ts, t.name ≠ name := by
  unfold lastNamed
  rw [List.find?_eq_none]
  simp only [List.mem_reverse, decide_eq_true_eq, ne_eq]

theorem name_of_lastNamed (h : lastNamed name ts = some t) : t.name = name := by
  simpa only [decide_eq_true_eq] using List.find?_some h

/-- Where no two templates have one name, each is the last that goes by its name. -/
theorem lastNamed_of_mem (nodup : (ts.map (·.name)).Nodup) (h : t ∈ ts) :
    lastNamed t.name ts = some t := by
  induction ts with
  | nil => cases h
  | cons u ts ih =>
    obtain ⟨hfresh, nodup⟩ := List.nodup_cons.mp nodup
    rw [lastNamed_cons]
    rcases List.mem_cons.mp h with rfl | h
    · have hnone : lastNamed t.name ts = none := by
        refine lastNamed_eq_none_iff.mpr fun u hu hname => hfresh ?_
        exact List.mem_map.mpr ⟨u, hu, hname⟩
      rw [hnone, if_pos rfl, Option.none_or]
    · rw [ih nodup h, Option.some_or]

end

/-! ## What a table of offers becomes -/

namespace Store

variable {t : Template} {ts : List Template} {s s' s'' : Store}

/-- What a store is after templates have been put into it, each by its own name. -/
structure HasPut (ts : List Template) (s s' : Store) : Prop where
  loader : s'.loader = s.loader
  kept : ∀ name, Table.get? name s'.units = (lastNamed name ts).or (Table.get? name s.units)

theorem HasPut.nil (s : Store) : HasPut [] s s := ⟨rfl, fun _ => rfl⟩

theorem HasPut.cons (units : s'.units = Table.insert t.name t s.units)
    (loader : s'.loader = s.loader) (h : HasPut ts s' s'') : HasPut (t :: ts) s s'' := by
  refine ⟨h.loader.trans loader, fun name => ?_⟩
  rw [h.kept name, lastNamed_cons, Option.or_assoc, units]
  by_cases hname : t.name = name
  · rw [if_pos hname, ← hname, Table.get?_insert_self, Option.some_or]
  · rw [if_neg hname, Table.get?_insert_of_ne (Ne.symm hname), Option.none_or]

end Store

namespace Partials

variable {key : Text} {offer : Offer} {offers : Table Text Offer} {t : Template}
  {ts : List Template} {e : ParseError}

/-- The templates that are offered, or the flaw of the first source that has one. -/
def templates (offers : Table Text Offer) : Except ParseError (List Template) :=
  offers.mapM fun e => e.2.template e.1

theorem templates_cons (key : Text) (offer : Offer) (offers : Table Text Offer) :
    templates ((key, offer) :: offers) =
      match offer.template key with
      | .ok t => (templates offers).map (t :: ·)
      | .error e => .error e := by
  unfold templates
  rw [List.mapM_cons]
  cases offer.template key with
  | error e => rfl
  | ok t =>
    generalize List.mapM (m := Except ParseError) _ offers = r
    cases r with
    | error e => rfl
    | ok ts => rfl

theorem templates_append (before after : Table Text Offer) :
    templates (before ++ after) =
      (templates before).bind fun ts => (templates after).map (ts ++ ·) := by
  induction before with
  | nil =>
    show templates after = (templates after).map ([] ++ ·)
    cases templates after with
    | error e => rfl
    | ok ts => rfl
  | cons entry before ih =>
    obtain ⟨key, offer⟩ := entry
    rw [List.cons_append, templates_cons, templates_cons, ih]
    cases offer.template key with
    | error e => rfl
    | ok t =>
      cases templates before with
      | error e => rfl
      | ok ts =>
        cases templates after with
        | error e => rfl
        | ok us => rfl

/-- The templates of a table are those at its keys, in order. -/
theorem forall₂_of_templates (h : templates offers = .ok ts) :
    List.Forall₂ (fun e t => e.2.template e.1 = .ok t) offers ts := by
  induction offers generalizing ts with
  | nil =>
    cases h
    exact .nil
  | cons entry offers ih =>
    obtain ⟨key, offer⟩ := entry
    rw [templates_cons] at h
    cases hoffer : offer.template key with
    | error e =>
      rw [hoffer] at h
      cases h
    | ok t =>
      cases hrest : templates offers with
      | error e =>
        rw [hoffer, hrest] at h
        cases h
      | ok rest =>
        rw [hoffer, hrest] at h
        cases h
        exact .cons hoffer (ih hrest)

theorem exists_templates (h : ∀ key offer, (key, offer) ∈ offers → (offer.template key).isOk) :
    ∃ ts, templates offers = .ok ts := by
  induction offers with
  | nil => exact ⟨[], rfl⟩
  | cons entry offers ih =>
    obtain ⟨key, offer⟩ := entry
    have hfirst := h key offer List.mem_cons_self
    obtain ⟨ts, hts⟩ := ih fun key offer hmem => h key offer (List.mem_cons_of_mem _ hmem)
    rw [templates_cons, hts]
    cases hoffer : offer.template key with
    | ok t => exact ⟨t :: ts, rfl⟩
    | error e =>
      rw [hoffer] at hfirst
      cases hfirst

theorem mem_templates_iff (h : templates offers = .ok ts) :
    t ∈ ts ↔ ∃ key offer, (key, offer) ∈ offers ∧ offer.template key = .ok t := by
  have hall := forall₂_of_templates h
  clear h
  induction hall with
  | nil =>
    constructor
    · rintro ⟨⟩
    · rintro ⟨_, _, ⟨⟩, _⟩
  | @cons entry u offers ts hu _ ih =>
    constructor
    · intro ht
      rcases List.mem_cons.mp ht with rfl | ht
      · exact ⟨entry.1, entry.2, List.mem_cons_self, hu⟩
      · obtain ⟨key, offer, hmem, hoffer⟩ := ih.mp ht
        exact ⟨key, offer, List.mem_cons_of_mem _ hmem, hoffer⟩
    · rintro ⟨key, offer, hmem, hoffer⟩
      rcases List.mem_cons.mp hmem with rfl | hmem
      · rw [Except.ok.inj (hoffer.symm.trans hu)]
        exact List.mem_cons_self
      · exact List.mem_cons_of_mem _ (ih.mpr ⟨key, offer, hmem, hoffer⟩)

/-- An offered template is put into the store by its own name. -/
theorem storeOf_cons_of_template (h : offer.template key = .ok t) (offers : Table Text Offer)
    (s : Store) :
    ∃ s', storeOf s ((key, offer) :: offers) = storeOf s' offers ∧
      s'.units = Table.insert t.name t s.units ∧ s'.loader = s.loader := by
  cases offer with
  | finished t' =>
    cases h
    exact ⟨s.put t, rfl, rfl, rfl⟩
  | source source =>
    obtain ⟨s', hadd, hunits, hloader⟩ := Store.add_of_parse h s
    refine ⟨s', ?_, ?_, hloader⟩
    · rw [storeOf, hadd]
    · rw [(Template.parse_eq_ok_iff.mp h).1, hunits]

theorem storeOf_cons_of_flaw (h : offer.template key = .error e) (offers : Table Text Offer)
    (s : Store) : storeOf s ((key, offer) :: offers) = .error e := by
  cases offer with
  | finished t => cases h
  | source source =>
    obtain ⟨s', hadd, -⟩ := Store.add_of_parse_error h s
    rw [storeOf, hadd]

/-- **A table of offers becomes a store of its templates**, each by its own name. -/
theorem storeOf_of_templates (h : templates offers = .ok ts) (s : Store) :
    ∃ s', storeOf s offers = .ok s' ∧ Store.HasPut ts s s' := by
  have hall := forall₂_of_templates h
  clear h
  induction hall generalizing s with
  | nil => exact ⟨s, rfl, .nil s⟩
  | cons hoffer _ ih =>
    obtain ⟨s₁, hfirst, hunits, hloader⟩ := storeOf_cons_of_template hoffer _ s
    obtain ⟨s', hrest, hput⟩ := ih s₁
    exact ⟨s', hfirst.trans hrest, .cons hunits hloader hput⟩

/-- **A table of offers with a flawed source becomes nothing**; the first flaw is reported. -/
theorem storeOf_of_flaw (h : templates offers = .error e) (s : Store) :
    storeOf s offers = .error e := by
  induction offers generalizing s with
  | nil => cases h
  | cons entry offers ih =>
    obtain ⟨key, offer⟩ := entry
    rw [templates_cons] at h
    cases hoffer : offer.template key with
    | error e' =>
      rw [hoffer] at h
      cases h
      exact storeOf_cons_of_flaw hoffer offers s
    | ok t =>
      obtain ⟨s', hfirst, -⟩ := storeOf_cons_of_template hoffer offers s
      cases hrest : templates offers with
      | error e' =>
        rw [hoffer, hrest] at h
        cases h
        exact hfirst.trans (ih hrest s')
      | ok rest =>
        rw [hoffer, hrest] at h
        cases h

end Partials

/-! ## What is found -/

namespace Partials

variable {ε : Type} (escape : Text → Except ε Text) {offers : Table Text Offer}
  {ts : List Template}

/-- **A name is answered with the last of the offered templates that goes by it**, however often and
for whatever the host has been asked before. -/
theorem find_of_templates (h : templates offers = .ok ts) :
    ∃ store, Partials.host escape (.table offers) = .ok (Store.host noFiles escape, store) ∧
      ∀ s, (Store.host noFiles escape).Reaches store s →
        ∀ name, ((Store.host noFiles escape).find name s).1 = .ok (lastNamed name ts) := by
  obtain ⟨store, hstore, hput⟩ := storeOf_of_templates h (.empty Option.none)
  refine ⟨store, by simp only [Partials.host, hstore], fun s hreaches name => ?_⟩
  have hkeeps := Store.keeps_of_reaches hput.loader hreaches
  have hkept : Table.get? name s.units = lastNamed name ts := by
    rw [hkeeps.1, hput.kept name]
    exact Option.or_none
  cases hlast : lastNamed name ts with
  | none => rw [Store.find_of_not_kept hkeeps.2 (hkept.trans hlast)]
  | some t => rw [Store.find_of_kept (hkept.trans hlast)]

/-- A table with a flawed source is refused. -/
theorem host_of_flaw {e : ParseError} (h : templates offers = .error e) :
    Partials.host escape (.table offers) = .error (.parse e) := by
  simp only [Partials.host, storeOf_of_flaw h]

/-- The host means what the table says: it has the template at a key for the key, and nothing for
any other name. -/
structure Means {σ : Type} (offers : Table Text Offer) (host : Host σ ε) (h : σ) : Prop where
  offered : ∀ key offer t, (key, offer) ∈ offers → offer.template key = .ok t →
    (host.find key h).1 = .ok (some t)
  others : ∀ name, name ∉ Table.keys offers → (host.find name h).1 = .ok Option.none

/-- Every finished template is offered at its own name. -/
def OwnNames (offers : Table Text Offer) : Prop :=
  ∀ key t, (key, .finished t) ∈ offers → t.name = key

/-- A template goes by its key if it is a source or offered at its own name. -/
theorem name_of_template {key : Text} {offer : Offer} {t : Template} (hown : OwnNames offers)
    (hmem : (key, offer) ∈ offers) (h : offer.template key = .ok t) : t.name = key := by
  cases offer with
  | finished t' =>
    cases h
    exact hown key t hmem
  | source source => exact (Template.parse_eq_ok_iff.mp h).1

theorem names_of_templates (hown : OwnNames offers) (h : templates offers = .ok ts) :
    ts.map (·.name) = Table.keys offers := by
  have hall := forall₂_of_templates h
  clear h
  induction hall with
  | nil => rfl
  | @cons entry t offers ts hoffer _ ih =>
    rw [List.map_cons, name_of_template hown List.mem_cons_self hoffer,
      ih fun key t hmem => hown key t (List.mem_cons_of_mem _ hmem)]
    rfl

/-- **A table of offers means what it says exactly if every finished template in it is offered at
its own name.** In any case a name is answered with the last of the offered templates that goes by
it. -/
theorem find_table (nodup : (Table.keys offers).Nodup)
    (parses : ∀ key offer, (key, offer) ∈ offers → (offer.template key).isOk) :
    ∃ host store ts,
      Partials.host escape (.table offers) = .ok (host, store) ∧ templates offers = .ok ts ∧
      (∀ s, host.Reaches store s → ∀ name, (host.find name s).1 = .ok (lastNamed name ts)) ∧
      ((∀ s, host.Reaches store s → Means offers host s) ↔ OwnNames offers) := by
  obtain ⟨ts, hts⟩ := exists_templates parses
  obtain ⟨store, hhost, hfind⟩ := find_of_templates escape hts
  refine ⟨_, store, ts, hhost, hts, hfind, fun hmeans key t hmem => ?_, fun hown s hreaches => ?_⟩
  · -- what is found for the key goes by the key
    have hoffered := (hmeans store .refl).offered key _ t hmem rfl
    rw [hfind store .refl key] at hoffered
    exact name_of_lastNamed (Except.ok.inj hoffered)
  · have hnames := names_of_templates hown hts
    constructor
    · intro key offer t hmem hoffer
      have ht : t ∈ ts := (mem_templates_iff hts).mpr ⟨key, offer, hmem, hoffer⟩
      rw [hfind s hreaches key, ← name_of_template hown hmem hoffer,
        lastNamed_of_mem (hnames ▸ nodup) ht]
    · intro name hname
      rw [hfind s hreaches name, lastNamed_eq_none_iff.mpr]
      intro t ht htname
      rw [← hnames, ← htname] at hname
      exact hname (List.mem_map_of_mem ht)

/-- A finished row and a source that includes it. -/
def rowAndTable : Table Text Offer :=
  [("table".toText,
      .source "\x7b\x7b#rows\x7d\x7d\x7b\x7b>row\x7d\x7d\x7b\x7b/rows\x7d\x7d".toText),
    ("row".toText, .finished ⟨"row".toText, [.interpolate ['x'] true]⟩)]

theorem find_table_row :
    (Table.keys rowAndTable).Nodup ∧
      (∀ key offer, (key, offer) ∈ rowAndTable → (offer.template key).isOk) ∧
      ∃ host store ts,
        Partials.host (fun s => (.ok s : Except Text Text)) (.table rowAndTable) =
          .ok (host, store) ∧ templates rowAndTable = .ok ts ∧
        (∀ s, host.Reaches store s → ∀ name, (host.find name s).1 = .ok (lastNamed name ts)) ∧
        ((∀ s, host.Reaches store s → Means rowAndTable host s) ↔ OwnNames rowAndTable) := by
  have nodup : (Table.keys rowAndTable).Nodup := by decide
  have parses : ∀ e ∈ rowAndTable, (e.2.template e.1).isOk := by decide +kernel
  have parses (key : Text) (offer : Offer) : (key, offer) ∈ rowAndTable →
      (offer.template key).isOk := parses (key, offer)
  exact ⟨nodup, parses, find_table _ nodup parses⟩

/-- **A finished template that is offered at another name is not found at its key**, but at its own
name, which is no key of the table. -/
theorem find_misnamed :
    ∃ host store,
      Partials.host (fun s => (.ok s : Except Text Text))
        (.table [(['p'], .finished ⟨"other".toText, [.text ['x']]⟩)]) = .ok (host, store) ∧
      (host.find ['p'] store).1 = .ok Option.none ∧
      (host.find "other".toText store).1 = .ok (some ⟨"other".toText, [.text ['x']]⟩) := by
  refine ⟨_, _, rfl, ?_, ?_⟩
  · decide +kernel
  · decide +kernel

end Partials
end Mustache
