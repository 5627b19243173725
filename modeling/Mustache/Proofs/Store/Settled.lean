import Mustache.Proofs.Store.Search

/-!
# All that is asked for

When all that a template includes has been loaded, every name that a render of it may ask for is
settled: a template is kept by that name, or there is none. So the render reads no file and never
fails for want of a template, whatever the data are.

There is one exception: the template's own name. The template counts as loaded, but a template that
includes itself asks for whatever goes by its name, and nobody has looked for that one. Where it is
kept already, and includes nothing that the template does not include itself, nothing is left open.

* `Store.settled_of_loadAll` — all that a render asks for is at hand
* `Store.loadAll_ownName` — a template whose name another one goes by
-/

namespace Mustache

open Text

namespace Store

variable {fs : Files} {s s' : Store} {t : Template} {name : Text} {missing : List Text}

/-! ## What is settled -/

/-- A template is kept by this name, or the name is one of those that no template goes by. -/
def Settles (s : Store) (missing : List Text) (name : Text) : Prop :=
  s.contains name ∨ name ∈ missing

/-- The store by the end of a render that finds nothing new: all it has is more notices, each of a
name that no template goes by. -/
def OnlyMissing (missing : List Text) (s s' : Store) : Prop :=
  ∃ notices : List Notice, (∀ n ∈ notices, ∃ name ∈ missing, n = .notFound name) ∧
    s' = { s with journal := notices ++ s.journal }

theorem find_of_answer_none {ε : Type} (escape : Text → Except ε Text)
    (h : s.answer fs name = .ok none) :
    (host fs escape).find name s = (.ok none, s.note (.notFound name)) := by
  cases hget : s.get fs name with
  | mk answer s' =>
    obtain rfl : answer = .ok none := by rw [← h, Store.answer, hget]
    obtain rfl := eq_of_get_none hget
    simp only [host, hget]

/-- As long as nothing new is found, a store has an answer for all that is settled. -/
theorem answers_of_settles {ε : Type} (fs : Files) (escape : Text → Except ε Text)
    {asked : Text → Prop} (hsettles : ∀ name, asked name → s.Settles missing name)
    (hmissing : ∀ name ∈ missing, s.answer fs name = .ok none)
    (hasks : ∀ name u, asked name → s.answer fs name = .ok (some u) →
      ∀ inner ∈ u.includedNames, asked inner) :
    (host fs escape).Answers (s.OnlyMissing missing) asked := by
  have hfind : ∀ name s₁, asked name → s.OnlyMissing missing s₁ →
      (∃ u, s.answer fs name = .ok (some u) ∧ (host fs escape).find name s₁ = (.ok (some u), s₁)) ∨
      name ∈ missing ∧ (host fs escape).find name s₁ = (.ok none, s₁.note (.notFound name)) := by
    rintro name _ hname ⟨notices, -, rfl⟩
    cases hkept : Table.get? name s.units with
    | some u => exact .inl ⟨u, answer_of_kept hkept, find_of_kept hkept⟩
    | none =>
      have hmem : name ∈ missing := by
        rcases hsettles name hname with hcontains | hmem
        · simp [contains, hkept] at hcontains
        · exact hmem
      have hrenoted : s.Renoted { s with journal := notices ++ s.journal } := ⟨rfl, rfl⟩
      refine .inr ⟨hmem, find_of_answer_none escape ?_⟩
      rw [hrenoted.answer]
      exact hmissing name hmem
  constructor
  · intro name s₁ hname hs₁
    rcases hfind name s₁ hname hs₁ with ⟨u, -, heq⟩ | ⟨-, heq⟩
    · exact ⟨_, congrArg Prod.fst heq⟩
    · exact ⟨_, congrArg Prod.fst heq⟩
  · intro name s₁ hname hs₁
    rcases hfind name s₁ hname hs₁ with ⟨u, -, heq⟩ | ⟨hmem, heq⟩
    · rw [heq]
      exact hs₁
    · rw [heq]
      obtain ⟨notices, hnotices, rfl⟩ := hs₁
      refine ⟨.notFound name :: notices, ?_, rfl⟩
      exact List.forall_mem_cons.mpr ⟨⟨name, hmem, rfl⟩, hnotices⟩
  · intro name s₁ u hname hs₁ hu
    rcases hfind name s₁ hname hs₁ with ⟨u', hanswer, heq⟩ | ⟨-, heq⟩
    · rw [heq] at hu
      cases hu
      exact hasks name u hname hanswer
    · rw [heq] at hu
      cases hu

/-! ## After loading -/

/-- **When all that a template includes has been loaded, nothing is left open.** Every name that it
includes, at any remove, is settled; and whatever the data are, a render of it reads no file, which
it would take note of, and does not fail because a template cannot be had. It takes that the
template, if it includes itself, is kept by its name, or another that includes no more. -/
theorem settled_of_loadAll (h : s.loadAll fs t = (.ok missing, s'))
    (hown : t.Includes (s.answer fs) t.name →
      ∃ u, Table.get? t.name s.units = some u ∧ u.includedNames ⊆ t.includedNames) :
    (∀ name, t.Includes (s.answer fs) name → s'.Settles missing name) ∧
      ∀ {ε : Type} (escape : Text → Except ε Text) (limit : Nat) (data : Value),
        (∀ name cause, (t.renderWithin limit (host fs escape) data s').result ≠
          .error (.find name cause)) ∧
        s'.OnlyMissing missing (t.renderWithin limit (host fs escape) data s').host := by
  obtain ⟨asked, hsearch, rfl, hkept⟩ := search_of_loadAll h
  have hgrows : s.Grows fs s' := .of_loadAll h
  have hsettles : ∀ name, t.Includes (s.answer fs) name →
      s'.Settles (asked.filter fun name => s.answer fs name = .ok none) name := by
    intro name hname
    have hown' : t.Includes (s.answer fs) t.name →
        ∃ u, s.answer fs t.name = .ok (some u) ∧ u.includedNames ⊆ t.includedNames :=
      fun hself => (hown hself).imp fun u hu => ⟨answer_of_kept hu.1, hu.2⟩
    rcases hsearch.mem_of_includes hown' hname with hasked | rfl
    · obtain ⟨_ | u, ho⟩ := hsearch.answered hasked
      · exact .inr (List.mem_filter.mpr ⟨hasked, decide_eq_true ho⟩)
      · exact .inl (by simp [contains, hkept name hasked u ho])
    · obtain ⟨u, hu, -⟩ := hown hname
      exact .inl (by simp [contains, hgrows.get?_of_kept hu])
  refine ⟨hsettles, fun escape limit data => ?_⟩
  have hanswers := answers_of_settles fs escape hsettles
    (fun name hname => by
      rw [hgrows.answer]
      exact of_decide_eq_true (List.mem_filter.mp hname).2)
    (fun name u hname hu inner hinner => by
      rw [hgrows.answer] at hu
      exact .through hname hu hinner)
  have hrefl : s'.OnlyMissing (asked.filter fun name => s.answer fs name = .ok none) s' :=
    ⟨[], List.forall_mem_nil _, rfl⟩
  have hrender := hanswers.renderWithin (fun name hname => .direct hname) hrefl limit data
  exact ⟨hrender.2, hrender.1⟩

/-- A folder with a row that includes itself and the page it is on. -/
def pageFolder : Files :=
  let source :=
    "\x7b\x7b#more\x7d\x7d\x7b\x7b>row\x7d\x7d\x7b\x7b>page\x7d\x7d\x7b\x7b/more\x7d\x7d".toText
  ⟨[(["row.mustache".toText], .file (Encoding.bytesOf source))], []⟩

/-- A page that has rows, and something that is not there. -/
def page : Template :=
  ⟨"page".toText, [.block "rows".toText false [.inclusion "row".toText [] false],
    .inclusion "gone".toText [' '] true]⟩

/-- A store that keeps the page and loads other templates from a folder. -/
def pageStore : Store := ⟨[("page".toText, page)], some (.ofFolder (.ofText [])), []⟩

theorem settled_of_loadAll_page :
    (pageStore.loadAll pageFolder page).1 = .ok ["gone".toText] ∧
      (∀ name, page.Includes (pageStore.answer pageFolder) name →
        (pageStore.loadAll pageFolder page).2.Settles ["gone".toText] name) ∧
      ∀ {ε : Type} (escape : Text → Except ε Text) (limit : Nat) (data : Value),
        (∀ name cause, (page.renderWithin limit (host pageFolder escape) data
          (pageStore.loadAll pageFolder page).2).result ≠ .error (.find name cause)) ∧
        (pageStore.loadAll pageFolder page).2.OnlyMissing ["gone".toText]
          (page.renderWithin limit (host pageFolder escape) data
            (pageStore.loadAll pageFolder page).2).host := by
  have hmissing : (pageStore.loadAll pageFolder page).1 = .ok ["gone".toText] := by
    decide +kernel
  have hkept : Table.get? page.name pageStore.units = some page := by decide +kernel
  exact ⟨hmissing, settled_of_loadAll (Prod.ext hmissing rfl)
    fun _ => ⟨page, hkept, List.Subset.refl _⟩⟩

/-- A folder with a template that closes a block it has not opened. -/
def strayFolder : Files :=
  ⟨[(["test.mustache".toText], .file (Encoding.bytesOf "\x7b\x7b/x\x7d\x7d".toText))], []⟩

/-- A store that loads its templates from that folder. -/
def strayStore : Store := .empty (some (.ofFolder (.ofText [])))

/-- A template that includes what goes by its own name. -/
def selfTest : Template := ⟨"test".toText, [.inclusion "test".toText [] true]⟩

/-- **Not everything is settled for a template that includes another by its own name.** The other
one has a flaw, but it is not looked at before the render, which then fails. -/
theorem loadAll_ownName :
    strayStore.loadAll strayFolder selfTest = (.ok [], strayStore) ∧
      selfTest.Includes (strayStore.answer strayFolder) "test".toText ∧
      ¬ strayStore.Settles [] "test".toText ∧
      (selfTest.render (host strayFolder fun t => (.ok t : Except Empty Text)) .null
        strayStore).result =
          .error (.find "test".toText (.inl (.parse
            ⟨.strayClose ['x'] none, ⟨0, 1, 1⟩, some "test".toText⟩))) := by
  refine ⟨by decide +kernel, .direct (by decide +kernel), ?_, by decide +kernel⟩
  unfold Settles
  decide +kernel

end Store
end Mustache
