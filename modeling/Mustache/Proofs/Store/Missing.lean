import Mustache.Proofs.Render.Missing
import Mustache.Proofs.Store.Registered

/-!
# Offering an empty template

A name that no offered template goes by may as well be offered with nothing in it, wherever in the
table: all other names are answered as before. So a render ends in the same way, but for lines that
are indented behind the empty template only, and without exception if a line begins wherever the
name is included on a line of its own while lines are indented.

* `Partials.fills_of_templates` — the hosts with and without the empty template
* `Partials.endsWith_empty` — a render with either of them
* `Partials.endsWith_midLine` — where no line begins, the output may differ
-/

namespace Mustache

open Text

namespace Partials

variable {ε : Type} (escape : Text → Except ε Text) {q : Text} {offer : Offer}
  {before after : Table Text Offer} {t : Template} {ts : List Template} {e : ParseError}

/-! ## The hosts -/

/-- No offered template goes by the name: it is no key, and no finished template has it. -/
structure Lacks (offers : Table Text Offer) (q : Text) : Prop where
  keys : q ∉ Table.keys offers
  names : ∀ key t, (key, .finished t) ∈ offers → t.name ≠ q

theorem Lacks.name_ne {offers : Table Text Offer} (hlacks : Lacks offers q)
    (h : templates offers = .ok ts) : ∀ t ∈ ts, t.name ≠ q := by
  intro t ht
  obtain ⟨key, offer, hmem, hoffer⟩ := (mem_templates_iff h).mp ht
  cases offer with
  | finished t' =>
    cases hoffer
    exact hlacks.names key t hmem
  | source source =>
    rw [(Template.parse_eq_ok_iff.mp hoffer).1]
    rintro rfl
    exact hlacks.keys (List.mem_map.mpr ⟨_, hmem, rfl⟩)

theorem templates_insert (hoffer : offer.template q = .ok t) (before after : Table Text Offer) :
    templates (before ++ (q, offer) :: after) =
      (templates before).bind fun ts => (templates after).map fun us => ts ++ t :: us := by
  rw [templates_append, templates_cons, hoffer]
  cases templates after with
  | error e => rfl
  | ok us => rfl

/-- One more offer does not mend a flaw. -/
theorem templates_insert_of_flaw (hoffer : offer.template q = .ok t)
    (h : templates (before ++ after) = .error e) :
    templates (before ++ (q, offer) :: after) = .error e := by
  rw [templates_append] at h
  rw [templates_insert hoffer]
  cases hbefore : templates before with
  | error e' =>
    rw [hbefore] at h
    exact h
  | ok ts =>
    cases hafter : templates after with
    | error e' =>
      rw [hbefore, hafter] at h
      exact h
    | ok us =>
      rw [hbefore, hafter] at h
      cases h

theorem exists_templates_insert (hoffer : offer.template q = .ok t)
    (h : templates (before ++ after) = .ok ts) :
    ∃ ts₁ ts₂, ts = ts₁ ++ ts₂ ∧
      templates (before ++ (q, offer) :: after) = .ok (ts₁ ++ t :: ts₂) := by
  rw [templates_append] at h
  rw [templates_insert hoffer]
  cases hbefore : templates before with
  | error e =>
    rw [hbefore] at h
    cases h
  | ok ts₁ =>
    cases hafter : templates after with
    | error e =>
      rw [hbefore, hafter] at h
      cases h
    | ok ts₂ =>
      rw [hbefore, hafter] at h
      exact ⟨ts₁, ts₂, (Except.ok.inj h).symm, rfl⟩

/-- **With an empty template offered by a name that was missing, the host has an empty template by
this name and else answers alike.** -/
theorem fills_of_templates (hlacks : Lacks (before ++ after) q)
    (hempty : offer.template q = .ok ⟨q, []⟩) (h : templates (before ++ after) = .ok ts) :
    ∃ store store', Partials.host escape (.table (before ++ after)) =
        .ok (Store.host noFiles escape, store) ∧
      Partials.host escape (.table (before ++ (q, offer) :: after)) =
        .ok (Store.host noFiles escape, store') ∧
      (Store.host noFiles escape).Fills (fun s s' =>
        (Store.host noFiles escape).Reaches store s ∧
          (Store.host noFiles escape).Reaches store' s') q (Store.host noFiles escape) := by
  have hne := hlacks.name_ne h
  obtain ⟨ts₁, ts₂, rfl, hinsert⟩ := exists_templates_insert hempty h
  obtain ⟨store, hhost, hfind⟩ := find_of_templates escape h
  obtain ⟨store', hhost', hfind'⟩ := find_of_templates escape hinsert
  refine ⟨store, store', hhost, hhost', fun _ => rfl, ?_, ?_, ?_, ?_⟩
  · intro name s s' ⟨hs, hs'⟩ hname
    rw [hfind s hs, hfind' s' hs', lastNamed_append, lastNamed_append, lastNamed_cons,
      if_neg (Ne.symm hname), Option.or_none]
  · intro s s' ⟨hs, _⟩
    rw [hfind s hs, lastNamed_eq_none_iff.mpr hne]
  · intro s s' ⟨_, hs'⟩
    have hlast : lastNamed q ts₂ = Option.none :=
      lastNamed_eq_none_iff.mpr fun t ht => hne t (List.mem_append_right _ ht)
    refine ⟨⟨q, []⟩, ?_, rfl⟩
    rw [hfind' s' hs', lastNamed_append, lastNamed_cons, hlast, if_pos rfl]
    rfl
  · exact fun name s s' ⟨hs, hs'⟩ => ⟨.find name hs, .find name hs'⟩

/-! ## Renders -/

/-- What a render with offered templates ends with: a text, or the fault of the offers or of the
render. -/
def EndsWith (p : Partials ε) (t : Template) (data : Value)
    (r : Except (Fault ⊕ RenderFault (LoadError ⊕ ε)) Text) : Prop :=
  match p.host escape with
  | .error fault => r = .error (.inl fault)
  | .ok (host, store) => ∃ r', t.Ends host data store r' ∧ r = r'.mapError .inr

/-- Wherever a render with offered templates includes the name on a line of its own while lines are
indented, a line begins. -/
def BeginsLines (p : Partials ε) (q : Text) (t : Template) (data : Value) : Prop :=
  ∀ host store, p.host escape = .ok (host, store) → t.BeginsLines host q data store

/-- **A missing template renders like an empty one.** If one render ends so does the other, both
with the same fault or both with a text. Where the name is empty the text may have more in it, but
it is the same if a line begins wherever the name is included on a line of its own while lines are
indented. -/
theorem endsWith_empty (hlacks : Lacks (before ++ after) q)
    (hempty : offer.template q = .ok ⟨q, []⟩) (t : Template) (data : Value) :
    (∀ r, EndsWith escape (.table (before ++ after)) t data r →
      ∃ r', EndsWith escape (.table (before ++ (q, offer) :: after)) t data r' ∧ Thinner r r') ∧
    (∀ r', EndsWith escape (.table (before ++ (q, offer) :: after)) t data r' →
      ∃ r, EndsWith escape (.table (before ++ after)) t data r ∧ Thinner r r') ∧
    (BeginsLines escape (.table (before ++ after)) q t data →
      ∀ r, EndsWith escape (.table (before ++ after)) t data r ↔
        EndsWith escape (.table (before ++ (q, offer) :: after)) t data r) := by
  cases h : templates (before ++ after) with
  | error e =>
    unfold EndsWith
    rw [host_of_flaw escape h, host_of_flaw escape (templates_insert_of_flaw hempty h)]
    refine ⟨?_, ?_, fun _ _ => .rfl⟩
    · rintro r rfl
      exact ⟨_, rfl, .fault _⟩
    · rintro r' rfl
      exact ⟨_, rfl, .fault _⟩
  | ok ts =>
    obtain ⟨store, store', hhost, hhost', hfills⟩ := fills_of_templates escape hlacks hempty h
    have hreaches : (Store.host noFiles escape).Reaches store store ∧
        (Store.host noFiles escape).Reaches store' store' := ⟨.refl, .refl⟩
    -- as long as nothing is said about lines, the output does not have to be the same
    have hany : false = true → t.BeginsLines (Store.host noFiles escape) q data store :=
      fun h => absurd h Bool.false_ne_true
    unfold EndsWith BeginsLines
    rw [hhost, hhost']
    refine ⟨?_, ?_, fun hbegins r => ?_⟩
    · rintro _ ⟨r, hr, rfl⟩
      obtain ⟨r', hr', hthinner, -⟩ := hfills.ends_of_missing false hreaches hany hr
      exact ⟨_, ⟨r', hr', rfl⟩, hthinner.mapError Sum.inr⟩
    · rintro _ ⟨r', hr', rfl⟩
      obtain ⟨r, hr, hthinner, -⟩ := hfills.ends_of_empty false hreaches hany hr'
      exact ⟨_, ⟨r, hr, rfl⟩, hthinner.mapError Sum.inr⟩
    · simp only [hfills.ends_iff hreaches (hbegins _ store rfl)]

/-- A list with an item by which something that is missing is included. -/
def listOffers : Table Text Offer :=
  [(['p'], .finished ⟨['p'], [.text ['a', '\n'], .inclusion ['q'] [] true, .text ['b']]⟩)]

theorem endsWith_empty_list :
    Lacks (listOffers ++ []) ['q'] ∧ Offer.template ['q'] (.source []) = .ok ⟨['q'], []⟩ ∧
      BeginsLines (fun s => (.ok s : Except Text Text)) (.table (listOffers ++ [])) ['q']
        ⟨['m'], [.inclusion ['p'] [' '] true]⟩ .null ∧
      ∀ r, EndsWith (fun s => (.ok s : Except Text Text)) (.table (listOffers ++ []))
          ⟨['m'], [.inclusion ['p'] [' '] true]⟩ .null r ↔
        EndsWith (fun s => (.ok s : Except Text Text))
          (.table (listOffers ++ ([char 'q'], .source []) :: []))
          ⟨['m'], [.inclusion ['p'] [' '] true]⟩ .null r := by
  have hlacks : Lacks (listOffers ++ []) ['q'] := by
    refine ⟨by decide, fun key t hmem => ?_⟩
    cases List.mem_singleton.mp hmem
    decide
  have hempty : Offer.template ['q'] (.source []) = .ok ⟨['q'], []⟩ := by decide +kernel
  have hbegins : BeginsLines (fun s => (.ok s : Except Text Text)) (.table (listOffers ++ []))
      ['q'] ⟨['m'], [.inclusion ['p'] [' '] true]⟩ .null := by
    intro host store hhost
    cases hhost
    intro limit
    match limit with
    | 0 => rfl
    | 1 => rfl
    | limit + 2 => rfl
  exact ⟨hlacks, hempty, hbegins, (endsWith_empty _ hlacks hempty _ _).2.2 hbegins⟩

/-! ## Where no line begins -/

theorem endsWith_of_storeOf {offers : Table Text Offer} {data : Value} {out : Text} (limit : Nat)
    (h : (storeOf (.empty Option.none) offers).map (fun s =>
      (t.renderWithin limit (Store.host noFiles escape) data s).result) = .ok (.ok out)) :
    EndsWith escape (.table offers) t data (.ok out) := by
  cases hstore : storeOf (.empty Option.none) offers with
  | error e =>
    rw [hstore] at h
    cases h
  | ok store =>
    have hhost : Partials.host escape (.table offers) = .ok (Store.host noFiles escape, store) := by
      simp only [Partials.host, hstore]
    rw [hstore] at h
    unfold EndsWith
    rw [hhost]
    refine ⟨.ok out, ⟨fun heq => ?_, limit, Except.ok.inj h⟩, rfl⟩
    cases heq

/-- An item without a line feed, something that is missing on the next line, and more behind. -/
def midLineOffers : Table Text Offer :=
  [(['p'], .source "\x7b\x7b>a\x7d\x7d\n\x7b\x7b>q\x7d\x7d\nb".toText),
    (['a'], .source ['x'])]

/-- **Where no line begins, an empty template begins one and a missing one does not**, so that what
follows is indented or not. -/
theorem endsWith_midLine :
    Lacks midLineOffers ['q'] ∧
      EndsWith (fun s => (.ok s : Except Text Text)) (.table midLineOffers)
        ⟨['m'], [.inclusion ['p'] [' ', ' '] true]⟩ .null (.ok "  xb".toText) ∧
      EndsWith (fun s => (.ok s : Except Text Text))
        (.table (midLineOffers ++ [([char 'q'], .finished ⟨['q'], []⟩)]))
        ⟨['m'], [.inclusion ['p'] [' ', ' '] true]⟩ .null (.ok "  x  b".toText) := by
  refine ⟨⟨by decide, ?_⟩, ?_, ?_⟩
  · intro key t hmem
    simp only [midLineOffers, List.mem_cons, Prod.mk.injEq, reduceCtorEq, and_false,
      List.not_mem_nil, or_false] at hmem
  · exact endsWith_of_storeOf _ 3 (by decide +kernel)
  · exact endsWith_of_storeOf _ 3 (by decide +kernel)

end Partials
end Mustache
