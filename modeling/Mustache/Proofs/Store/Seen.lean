import Mustache.Proofs.Render.Seen
import Mustache.Proofs.Store.Registered

/-!
# What a render with offered templates sees of the data

The templates that a render may include are known beforehand when they are offered to it, and with
them the names whose values may come up. At the first keys of these names data have to agree for
the renders to be the same; what else they hold, and in which order, is never seen.

* `Partials.offers_of_gives` — what is found among offered templates
* `Partials.rendering_of_agree` — renders against data that agree
-/

namespace Mustache

open Text

namespace Partials

variable {ε : Type}

/-- The template is one of those offered. -/
def Gives (p : Partials ε) (t : Template) : Prop :=
  match p with
  | .table offers => ∃ key offer, (key, offer) ∈ offers ∧ offer.template key = .ok t
  | .function find => ∃ name, find name = .ok (some t)
  | .none | .unsuitable _ => False

/-- **Nothing is found but what is offered.** -/
theorem offers_of_gives {escape : Text → Except ε Text} {p : Partials ε}
    {host : Host Store (LoadError ⊕ ε)} {store : Store} (h : p.host escape = .ok (host, store))
    {good : Template → Prop} (hgood : ∀ t, p.Gives t → good t) : host.Offers store good := by
  cases p with
  | none =>
    cases h
    refine Store.offers_of_kept noFiles escape rfl fun name t hkept => ?_
    cases hkept
  | table offers =>
    cases hts : templates offers with
    | error e =>
      rw [host_of_flaw escape hts] at h
      cases h
    | ok ts =>
      obtain ⟨store', hhost, hfind⟩ := find_of_templates escape hts
      cases hhost.symm.trans h
      intro s name t hreaches hfound
      have hlast : lastNamed name ts = some t :=
        Except.ok.inj ((hfind s hreaches name).symm.trans hfound)
      have hmem : t ∈ ts := List.mem_reverse.mp (List.mem_of_find?_eq_some hlast)
      exact hgood t ((mem_templates_iff hts).mp hmem)
  | function find =>
    cases h
    intro s name t _ hfound
    have hfound : ((find name).mapError Sum.inr : Except (LoadError ⊕ ε) _) = .ok (some t) := hfound
    exact hgood t ⟨name, ok_of_mapError hfound⟩
  | unsuitable description => cases h

/-- What comes of a render with offered templates: the fault of what is offered, or the render. -/
def rendering (escape : Text → Except ε Text) (p : Partials ε) (limit : Nat) (t : Template)
    (data : Value) : Except Fault (Rendering Store (LoadError ⊕ ε)) :=
  (p.host escape).map fun (host, store) => t.renderWithin limit host data store

/-- **A render sees nothing of its data but what is at the first keys of the names that come up**,
in the template and in those that are offered, if the most recent scope is not asked for as a whole.
Against data that agree on these keys it gives the same text or fails with the same fault, and makes
the same calls, whatever else the data hold. -/
theorem rendering_of_agree (escape : Text → Except ε Text) (p : Partials ε) (t : Template)
    (data data' : Value) (dotless : ∀ u, u = t ∨ p.Gives u → [char '.'] ∉ u.valueNames)
    (agree : ∀ u, u = t ∨ p.Gives u → ∀ name ∈ u.valueNames,
      data.child (Context.firstKey name) = data'.child (Context.firstKey name)) (limit : Nat) :
    p.rendering escape limit t data = p.rendering escape limit t data' := by
  -- the keys that count are those that the data agree on
  have hsees : ∀ u, u = t ∨ p.Gives u →
      u.SeesOnly fun key => data.child key = data'.child key := by
    intro u hu
    refine Template.seesOnly_iff.mpr fun name hname => ⟨?_, agree u hu name hname⟩
    rintro rfl
    exact dotless u hu hname
  unfold rendering
  cases hhost : p.host escape with
  | error fault => rfl
  | ok r =>
    obtain ⟨host, store⟩ := r
    have hoffers := offers_of_gives hhost fun u hu => hsees u (.inr hu)
    exact congrArg Except.ok
      (Template.renderWithin_of_agree (hsees t (.inl rfl)) hoffers (fun _ h => h) limit)

/-- A page with a title and rows. -/
def titledPage : Template :=
  ⟨"page".toText, [.interpolate "title.en".toText true,
    .block "rows".toText false [.inclusion "row".toText [] false]]⟩

/-- A row that shows the title again, and the rows inside it. -/
def titledRow : Template :=
  ⟨"row".toText, [.interpolate ['x'] true, .interpolate "title.en".toText true,
    .block "rows".toText false [.inclusion "row".toText [] false]]⟩

/-- The row, as it is offered. -/
def titledOffers : Table Text Offer :=
  [("row".toText, .source
    ("\x7b\x7bx\x7d\x7d\x7b\x7btitle.en\x7d\x7d".toText ++
      "\x7b\x7b#rows\x7d\x7d\x7b\x7b>row\x7d\x7d\x7b\x7b/rows\x7d\x7d".toText))]

/-- Two rows, the second with one inside it and a title of its own. -/
def titledRows : Value :=
  .list [.map [(['x'], .int 1), ("rows".toText, .null)],
    .map [("title".toText, .map []), ("rows".toText, .list [.str ['s']])]]

/-- Data with the same title and rows, other entries, and another order. -/
theorem rendering_of_agree_title :
    let p : Partials Text := .table titledOffers
    let data : Value := .map [("secret".toText, .str ['1']), (['x'], .str ['<']),
      ("title".toText, .map [("en".toText, .str ['T'])]), ("rows".toText, titledRows)]
    let data' : Value := .map [("rows".toText, titledRows),
      ("title".toText, .map [("en".toText, .str ['T'])]), (['x'], .str ['<']), (['.'], .bool true)]
    (∀ u, u = titledPage ∨ p.Gives u → [char '.'] ∉ u.valueNames) ∧
      (∀ u, u = titledPage ∨ p.Gives u → ∀ name ∈ u.valueNames,
        data.child (Context.firstKey name) = data'.child (Context.firstKey name)) ∧
      p.rendering (fun s => .ok (Escape.html s)) 3 titledPage data =
        p.rendering (fun s => .ok (Escape.html s)) 3 titledPage data' := by
  intro p data data'
  have hgives : ∀ u, u = titledPage ∨ p.Gives u → u = titledPage ∨ u = titledRow := by
    rintro u (rfl | ⟨key, offer, hmem, hoffer⟩)
    · exact .inl rfl
    · cases List.mem_singleton.mp hmem
      have hrow : (titledOffers.map fun e => e.2.template e.1) = [.ok titledRow] := by
        decide +kernel
      exact .inr (Except.ok.inj (hoffer.symm.trans (List.cons.inj hrow).1))
  have hnames : ∀ u, u = titledPage ∨ p.Gives u → ∀ name ∈ u.valueNames,
      name ∈ [[char 'x'], "title.en".toText, "rows".toText] := by
    intro u hu
    rcases hgives u hu with rfl | rfl
    · decide +kernel
    · decide +kernel
  have dotless : ∀ u, u = titledPage ∨ p.Gives u → [char '.'] ∉ u.valueNames := by
    intro u hu hdot
    exact absurd (hnames u hu _ hdot) (by decide)
  have agree : ∀ u, u = titledPage ∨ p.Gives u → ∀ name ∈ u.valueNames,
      data.child (Context.firstKey name) = data'.child (Context.firstKey name) := by
    intro u hu name hname
    have hname := hnames u hu name hname
    simp only [List.mem_cons, List.not_mem_nil, or_false] at hname
    rcases hname with rfl | rfl | rfl
    · rfl
    · rfl
    · rfl
  exact ⟨dotless, agree, rendering_of_agree _ p titledPage data data' dotless agree 3⟩

end Partials
end Mustache
