import Mustache.Proofs.Render.Indented
import Mustache.Proofs.Render.Limit
import Mustache.Proofs.Store.Offered

/-!
# Indenting an included template

An inclusion that has its line to itself indents what it includes. When all sources are
line-structured this is the same as indenting the source: a template that is included with an
indentation renders as the one does whose source has the indentation in front of each of its lines.

* `Store.host_lined` — a store of line-structured sources finds nodes in lines
* `Template.result_renderWithin_inclusion` — an inclusion and what it includes
* `Partials.render_inclusion` — the same of sources that are offered
-/

namespace Mustache

open Text

/-! ## Line-structured sources as a store -/

/-- Sources by name, no name twice, that parse and are line-structured. -/
structure LinedSources (sources : Table Text Text) : Prop where
  nodup : (Table.keys sources).Nodup
  parses : ∀ e ∈ sources, (Template.parse e.1 e.2 .standard).isOk
  lined : ∀ e ∈ sources, LineStructured e.2

theorem LinedSources.exists_parse {sources : Table Text Text} (h : LinedSources sources) :
    ∀ e ∈ sources, ∃ t, Template.parse e.1 e.2 .standard = .ok t := by
  intro e he
  have hok := h.parses e he
  cases hp : Template.parse e.1 e.2 .standard with
  | ok t => exact ⟨t, rfl⟩
  | error fault =>
    rw [hp] at hok
    cases hok

namespace Store

/-- The templates of line-structured sources are in lines, and looking for them keeps the store. -/
theorem host_lined {ε : Type} (fs : Files) (escape : Text → Except ε Text)
    {sources : Table Text Text} (hs : LinedSources sources) {s : Store}
    (has : HasAdded sources (.empty none) s) :
    (host fs escape).Lined s.Keeps := by
  constructor
  · exact fun name s' hkeeps => hkeeps.find name
  · intro name s' t ⟨hunits, hloader⟩ hfind
    have hg := get?_of_find hloader hfind
    -- what is found has been added from one of the sources
    rw [hunits] at hg
    have hmem : name ∈ Table.keys sources := by
      by_contra hnot
      rw [has.others name hnot] at hg
      cases hg
    obtain ⟨e, he, rfl⟩ := List.mem_map.mp hmem
    obtain ⟨t', ht'⟩ := hs.exists_parse e he
    obtain rfl : t' = t := Option.some.inj ((has.added e he t' ht').symm.trans hg)
    exact Template.lined_of_parse (hs.lined e he) ht'

end Store

/-! ## An inclusion -/

namespace Template

section

variable {σ ε : Type} {host : Host σ ε} {kept : σ → Prop} {indentation p : Text} {t : Template}
  {h : σ}

/-- **A template included with an indentation renders as the indented template does**, one
inclusion deeper. -/
theorem result_renderWithin_inclusion (hi : isPadding indentation = true) (hl : host.Lined kept)
    (hk : kept h) (hfind : host.find p h = (.ok (some t), h)) (main name : Text) (limit : Nat)
    (data : Value) :
    (renderWithin (limit + 1) host ⟨main, [.inclusion p indentation true]⟩ data h).result =
      (renderWithin limit host ⟨name, Node.indentAll indentation t.root true⟩ data h).result := by
  have ht : Node.Lined t.root true := hl.lined p h t hk (by rw [hfind])
  have hinclude : eval host (limit + 1) [.inclusion p indentation true] (.ofRoot data) []
      ⟨.empty, [], h⟩ =
        eval host limit t.root (.ofRoot data) indentation ⟨.empty, [.find p], h⟩ := by
    rw [eval, evalNodes, evalNodes, evalNode, Step.andThen_skip]
    simp only [Step.found, hfind]
    rfl
  unfold renderWithin
  rw [hinclude]
  -- the call on record makes no difference
  exact Rendering.result_ofRun_of_alike (eval_indentAll hi hl limit t.root (.ofRoot data) ht
    ⟨.empty, [.find p], h⟩ ⟨.empty, [], h⟩ ⟨.refl _, rfl⟩ ⟨hk, .of_lineBegins rfl⟩)

/-- What is not included at all is too deep. -/
theorem result_renderWithin_zero_inclusion (hfind : host.find p h = (.ok (some t), h)) (main : Text)
    (data : Value) :
    (renderWithin 0 host ⟨main, [.inclusion p indentation true]⟩ data h).result =
      .error .tooDeep := by
  unfold renderWithin
  rw [eval, evalNodes, evalNodes, evalNode, Step.andThen_skip]
  simp only [Step.found, hfind]
  rfl

/-- If renders of one template are those of another one inclusion deeper, both end or none does. -/
theorem ends_iff_of_deeper {t t' : Template} {data : Value}
    (hzero : (t.renderWithin 0 host data h).result = .error .tooDeep)
    (hsucc : ∀ limit, (t.renderWithin (limit + 1) host data h).result =
      (t'.renderWithin limit host data h).result) (r : Except (RenderFault ε) Text) :
    t.Ends host data h r ↔ t'.Ends host data h r := by
  constructor
  · rintro ⟨hne, limit, hr⟩
    cases limit with
    | zero => exact absurd (hr.symm.trans hzero) hne
    | succ limit => exact ⟨hne, limit, (hsucc limit).symm.trans hr⟩
  · rintro ⟨hne, limit, hr⟩
    exact ⟨hne, limit + 1, (hsucc limit).trans hr⟩

end
end Template

/-! ## Offered sources -/

namespace Partials

/-- **To indent an included template is to indent its source.** Among line-structured sources, the
template by a name included with an indentation and the template of its indented source render to
the same text or fail in the same way, one inclusion deeper; and if one render ends, so does the
other. -/
theorem render_inclusion {ε : Type} (escape : Text → Except ε Text) {sources : Table Text Text}
    (hs : LinedSources sources) {p source indentation : Text} (hp : (p, source) ∈ sources)
    (hi : isPadding indentation = true) (main name : Text) :
    ∃ host store t,
      Partials.host escape (.table (offered sources)) = .ok (host, store) ∧
      Template.parse name (indentLines indentation source) .standard = .ok t ∧
      ∀ data : Value,
        (∀ limit, (Template.renderWithin (limit + 1) host ⟨main, [.inclusion p indentation true]⟩
          data store).result = (t.renderWithin limit host data store).result) ∧
        ∀ r, Template.Ends host ⟨main, [.inclusion p indentation true]⟩ data store r ↔
          Template.Ends host t data store r := by
  obtain ⟨store, hstore, has⟩ := storeOf_offered hs.nodup hs.exists_parse (.empty Option.none)
  obtain ⟨t, ht⟩ := hs.exists_parse (p, source) hp
  have hfind : (Store.host noFiles escape).find p store = (.ok (some t), store) :=
    Store.find_of_kept (has.added (p, source) hp t ht)
  have hsucc (data : Value) := fun limit => Template.result_renderWithin_inclusion hi
    (Store.host_lined noFiles escape hs has) ⟨rfl, has.loader⟩ hfind main name limit data
  refine ⟨Store.host noFiles escape, store, _, ?_,
    Template.parse_indented hi (hs.lined (p, source) hp) ht name, fun data => ⟨hsucc data, ?_⟩⟩
  · simp only [Partials.host, hstore]
  · exact Template.ends_iff_of_deeper
      (Template.result_renderWithin_zero_inclusion hfind main data) (hsucc data)

/-- A row that may have further rows, each two columns to the right. -/
def rowSource : Text :=
  "\x7b\x7b! a row \x7d\x7d\x7b\x7bx\x7d\x7d,\n".toText ++
    "\x7b\x7b#more\x7d\x7d\n  \x7b\x7b>row\x7d\x7d\n\x7b\x7b/more\x7d\x7d\n".toText

theorem render_inclusion_row :
    LinedSources [("row".toText, rowSource)] ∧ isPadding [' ', '\t'] = true ∧
      ∃ host store t,
        Partials.host (fun s => (.ok (Escape.html s) : Except Text Text))
          (.table (offered [("row".toText, rowSource)])) = .ok (host, store) ∧
        Template.parse ['t'] (indentLines [' ', '\t'] rowSource) .standard = .ok t ∧
        ∀ data : Value,
          (∀ limit, (Template.renderWithin (limit + 1) host
            ⟨['m'], [.inclusion "row".toText [' ', '\t'] true]⟩ data store).result =
              (t.renderWithin limit host data store).result) ∧
          ∀ r, Template.Ends host ⟨['m'], [.inclusion "row".toText [' ', '\t'] true]⟩ data store r ↔
            Template.Ends host t data store r := by
  have hrows : LinedSources [("row".toText, rowSource)] :=
    ⟨by decide +kernel, by decide +kernel, by decide +kernel⟩
  have hpadding : isPadding [' ', '\t'] = true := by decide
  have hrow : ("row".toText, rowSource) ∈ [("row".toText, rowSource)] := List.mem_singleton.mpr rfl
  exact ⟨hrows, hpadding, render_inclusion _ hrows hrow hpadding ['m'] ['t']⟩

end Partials
end Mustache
