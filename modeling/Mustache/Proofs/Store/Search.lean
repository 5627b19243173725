import Mustache.Proofs.Store.Answers

/-!
# Loading all that is included

To load all that a template includes is a search through the templates that include each other: the
names that are pending are asked for in order, each of them once, and what a template includes that
has been found is pending behind the others (`Search`). The search begins with the name of the
template itself among those seen, so it never asks for that one.

What a store has been asked for in a search is what its files and its templates have by the names of
its vocabulary; no other names can come up, which is why the search ends.

* `Search.closed` — what a search has found includes nothing new
* `Search.mem_of_includes` — a search asks for all that is included at any remove
* `Store.search_of_loadAll` — loading follows the search
* `Store.grows_loadAll` — and only asks
-/

namespace Mustache

open Text

/-! ## What a template includes -/

/-- The template includes another one by this name, itself or through what it includes. -/
inductive Template.Includes (answer : Text → Except LoadError (Option Template)) (t : Template) :
    Text → Prop
  | direct {name : Text} (mem : name ∈ t.includedNames) : t.Includes answer name
  | through {name : Text} {u : Template} {inner : Text} (before : t.Includes answer name)
      (found : answer name = .ok (some u)) (mem : inner ∈ u.includedNames) :
      t.Includes answer inner

/-! ## The search -/

/-- A search for the names that are pending: the names seen before it, and the names it asks for, in
order. -/
inductive Search (answer : Text → Except LoadError (Option Template)) :
    List Text → List Text → List Text → Prop
  | done {seen : List Text} : Search answer seen [] []
  /-- A name is not asked for again. -/
  | again {seen pending asked : List Text} {name : Text} (old : name ∈ seen)
      (rest : Search answer seen pending asked) : Search answer seen (name :: pending) asked
  /-- There is no template by the name. -/
  | missing {seen pending asked : List Text} {name : Text} (new : name ∉ seen)
      (missing : answer name = .ok none) (rest : Search answer (name :: seen) pending asked) :
      Search answer seen (name :: pending) (name :: asked)
  /-- There is one: what it includes is pending, too. -/
  | found {seen pending asked : List Text} {name : Text} {t : Template} (new : name ∉ seen)
      (found : answer name = .ok (some t))
      (rest : Search answer (name :: seen) (pending ++ t.includedNames) asked) :
      Search answer seen (name :: pending) (name :: asked)

namespace Search

variable {answer : Text → Except LoadError (Option Template)} {seen pending asked : List Text}
  {name : Text}

theorem mem_of_pending (h : Search answer seen pending asked) (hname : name ∈ pending) :
    name ∈ seen ∨ name ∈ asked := by
  induction h with
  | done => cases hname
  | again old _ ih =>
    rcases List.mem_cons.mp hname with rfl | hname
    · exact .inl old
    · exact ih hname
  | missing _ _ _ ih =>
    rcases List.mem_cons.mp hname with rfl | hname
    · exact .inr List.mem_cons_self
    · have := ih hname
      grind
  | found _ _ _ ih =>
    rcases List.mem_cons.mp hname with rfl | hname
    · exact .inr List.mem_cons_self
    · have := ih (List.mem_append_left _ hname)
      grind

/-- **What a search has found includes nothing new.** -/
theorem closed (h : Search answer seen pending asked) {t : Template} (hname : name ∈ asked)
    (ht : answer name = .ok (some t)) :
    ∀ inner ∈ t.includedNames, inner ∈ seen ∨ inner ∈ asked := by
  induction h with
  | done => cases hname
  | again _ _ ih => exact ih hname
  | missing _ missing _ ih =>
    intro inner hinner
    rcases List.mem_cons.mp hname with rfl | hname
    · rw [missing] at ht
      cases ht
    · have := ih hname inner hinner
      grind
  | found _ found rest ih =>
    intro inner hinner
    rcases List.mem_cons.mp hname with rfl | hname
    · -- what it includes has been pending since
      rw [found] at ht
      cases ht
      have := rest.mem_of_pending (List.mem_append_right _ hinner)
      grind
    · have := ih hname inner hinner
      grind

theorem answered (h : Search answer seen pending asked) (hname : name ∈ asked) :
    ∃ o, answer name = .ok o := by
  induction h with
  | done => cases hname
  | again _ _ ih => exact ih hname
  | missing _ missing _ ih =>
    rcases List.mem_cons.mp hname with rfl | hname
    · exact ⟨_, missing⟩
    · exact ih hname
  | found _ found _ ih =>
    rcases List.mem_cons.mp hname with rfl | hname
    · exact ⟨_, found⟩
    · exact ih hname

/-- A search may begin with the first name that has not been seen. -/
theorem of_skipSeen {unseen : List Text} (hseen : ∀ name ∈ pending, name ∉ unseen → name ∈ seen)
    (h : Search answer seen (Store.skipSeen unseen pending) asked) :
    Search answer seen pending asked := by
  induction pending with
  | nil => exact h
  | cons p pending ih =>
    by_cases hp : p ∈ unseen
    · simpa [Store.skipSeen, List.dropWhile_cons, hp] using h
    · refine .again (hseen p List.mem_cons_self hp) (ih ?_ ?_)
      · exact fun name hname => hseen name (List.mem_cons_of_mem p hname)
      · simpa [Store.skipSeen, List.dropWhile_cons, hp] using h

/-- **A search from what a template includes has asked for all that it includes at any remove**,
when a template by its own name includes nothing else. -/
theorem mem_of_includes {t : Template}
    (hown : t.Includes answer t.name →
      ∃ u, answer t.name = .ok (some u) ∧ u.includedNames ⊆ t.includedNames)
    (h : Search answer [t.name] t.includedNames asked) (hname : t.Includes answer name) :
    name ∈ asked ∨ name = t.name := by
  have hdirect {name : Text} (hname : name ∈ t.includedNames) : name ∈ asked ∨ name = t.name := by
    have := h.mem_of_pending hname
    grind
  induction hname with
  | direct mem => exact hdirect mem
  | @through name u inner before found mem ih =>
    rcases ih with hname | rfl
    · have := h.closed hname found inner mem
      grind
    · obtain ⟨u', hu', hsub⟩ := hown before
      rw [hu'] at found
      cases found
      exact hdirect (hsub mem)

end Search

/-! ## Loading follows the search -/

namespace Store

variable {fs : Files} {s s' : Store} {unseen seen pending missing vocabulary : List Text}

theorem without_filter (name : Text) (seen vocabulary : List Text) :
    without name (vocabulary.filter (· ∉ seen)) = vocabulary.filter (· ∉ name :: seen) := by
  rw [without, List.filter_filter]
  refine List.filter_congr fun other _ => ?_
  grind

/-- To load templates by their names is only to ask for them. -/
theorem grows_searchNames (fs : Files) (unseen pending : List Text) (s : Store) :
    s.Grows fs (searchNames (get fs) unseen pending s).2 := by
  fun_induction searchNames (get fs) unseen pending s with
  | case1 => exact .refl
  | case2 _ _ _ _ _ _ _ _ hget => exact .of_get hget
  | case3 _ _ _ _ _ _ _ hget _ _ hrest ih =>
    rw [hrest] at ih
    exact (Grows.of_get hget).trans ih
  | case4 _ _ _ _ _ _ _ hget _ _ hrest ih =>
    rw [hrest] at ih
    exact (Grows.of_get hget).trans ih
  | case5 _ _ _ _ _ _ _ _ hget ih => exact (Grows.of_get hget).trans ih

theorem grows_loadAll (fs : Files) (t : Template) (s : Store) : s.Grows fs (s.loadAll fs t).2 :=
  grows_searchNames fs _ _ s

theorem Grows.of_loadAll {t : Template} {answer : Except LoadError (List Text)}
    (h : s.loadAll fs t = (answer, s')) : s.Grows fs s' := by
  have hgrows := grows_loadAll fs t s
  rwa [h] at hgrows

/-- The pending names that have been seen are those that are not among the unseen ones. -/
theorem mem_seen {name : Text} (hpending : pending ⊆ vocabulary) (hname : name ∈ pending)
    (hnot : name ∉ vocabulary.filter (· ∉ seen)) : name ∈ seen := by
  by_contra hnew
  exact hnot (List.mem_filter.mpr ⟨hpending hname, decide_eq_true hnew⟩)

/-- The first name that is not skipped is new, and it and the names behind it are of the
vocabulary. -/
theorem new_of_skipSeen {name : Text} {rest : List Text} (hpending : pending ⊆ vocabulary)
    (hskip : skipSeen (vocabulary.filter (· ∉ seen)) pending = name :: rest) :
    name ∉ seen ∧ rest ⊆ vocabulary := by
  have hname := (List.mem_filter.mp (mem_of_skipSeen hskip)).2
  have hsub : (name :: rest).Sublist pending := hskip ▸ List.dropWhile_sublist _
  exact ⟨of_decide_eq_true hname,
    fun other hother => hpending (hsub.subset (List.mem_cons_of_mem name hother))⟩

/-- **Loading follows the search**, as long as no names come up but those of the vocabulary. What it
gives are the names that were asked for in vain; all the others are kept. -/
theorem search_of_searchNames (hpending : pending ⊆ vocabulary)
    (hclosed : ∀ name t, s.answer fs name = .ok (some t) → t.includedNames ⊆ vocabulary)
    (h : searchNames (get fs) (vocabulary.filter (· ∉ seen)) pending s = (.ok missing, s')) :
    ∃ asked, Search (s.answer fs) seen pending asked ∧
      missing = asked.filter (fun name => s.answer fs name = .ok none) ∧
      ∀ name ∈ asked, ∀ t, s.answer fs name = .ok (some t) →
        Table.get? name s'.units = some t := by
  generalize hunseen : vocabulary.filter (· ∉ seen) = unseen at h
  fun_induction searchNames (get fs) unseen pending s generalizing seen missing s' with
  | case1 unseen pending s hskip =>
    subst hunseen
    cases h
    refine ⟨[], .of_skipSeen (fun _ => mem_seen hpending) ?_, rfl, nofun⟩
    rw [hskip]
    exact .done
  | case2 => cases h
  | case3 unseen pending s name rest hskip s₁ hget missing' s₂ hrest ih =>
    subst hunseen
    cases h
    obtain ⟨hnew, hsub⟩ := new_of_skipSeen hpending hskip
    have hanswer : s.answer fs name = .ok none := by rw [answer, hget]
    obtain rfl := eq_of_get_none hget
    obtain ⟨asked, hsearch, rfl, hkept⟩ :=
      ih hsub hclosed (without_filter name seen vocabulary).symm hrest
    refine ⟨name :: asked, .of_skipSeen (fun _ => mem_seen hpending) ?_, ?_, ?_⟩
    · rw [hskip]
      exact .missing hnew hanswer hsearch
    · rw [List.filter_cons, if_pos (decide_eq_true hanswer)]
    · intro other hother t ht
      rcases List.mem_cons.mp hother with rfl | hother
      · rw [hanswer] at ht
        cases ht
      · exact hkept other hother t ht
  | case4 => cases h
  | case5 unseen pending s name rest hskip t s₁ hget ih =>
    subst hunseen
    obtain ⟨hnew, hsub⟩ := new_of_skipSeen hpending hskip
    have hanswer : s.answer fs name = .ok (some t) := by rw [answer, hget]
    have hsame : s₁.answer fs = s.answer fs := (Grows.of_get hget).answer
    have hinner : rest ++ t.includedNames ⊆ vocabulary :=
      List.append_subset.mpr ⟨hsub, hclosed name t hanswer⟩
    have hgrows := grows_searchNames fs (without name (vocabulary.filter (· ∉ seen)))
      (rest ++ t.includedNames) s₁
    obtain ⟨asked, hsearch, rfl, hkept⟩ :=
      ih hinner (hsame ▸ hclosed) (without_filter name seen vocabulary).symm h
    rw [hsame] at hsearch hkept
    refine ⟨name :: asked, .of_skipSeen (fun _ => mem_seen hpending) ?_, ?_, ?_⟩
    · rw [hskip]
      exact .found hnew hanswer hsearch
    · rw [hsame, List.filter_cons, if_neg (by simp [hanswer])]
    · intro other hother u hu
      rcases List.mem_cons.mp hother with rfl | hother
      · rw [hanswer] at hu
        cases hu
        rw [h] at hgrows
        exact hgrows.get?_of_kept (get?_of_get hget)
      · exact hkept other hother u hu

/-! ## The vocabulary -/

/-- Templates that the same source writes include the same. -/
theorem includedNames_of_parse {name name' source : Text} {d : Delimiters} {t t' : Template}
    (h : Template.parse name source d = .ok t) (h' : Template.parse name' source d = .ok t') :
    t.includedNames = t'.includedNames := by
  have hroot : t.root = t'.root := by
    have hbuild := (Template.parse_eq_ok_iff.mp h).2
    rw [(Template.parse_eq_ok_iff.mp h').2] at hbuild
    exact (Except.ok.inj hbuild).symm
  unfold Template.includedNames Template.allNodes
  rw [hroot]

/-- A template of the files is the text of one of them. -/
theorem exists_of_template {l : Loader} {name : Text} {t : Template}
    (h : l.template fs name = .ok (some t)) :
    ∃ p source, fs.readText p l.encoding = .ok source ∧
      Template.parse name source .standard = .ok t := by
  unfold Loader.template at h
  split at h
  · cases h
  · cases h
  · next p source hload =>
    split at h
    · cases h
    · next hparse =>
      cases h
      refine ⟨p, source, ?_, hparse⟩
      unfold Loader.load? at hload
      split at hload
      · cases hload
      · cases hload
      · next q _ =>
        cases hread : fs.readText q l.encoding with
        | error e =>
          rw [hread] at hload
          cases hload
        | ok decoded =>
          rw [hread] at hload
          cases hload
          exact hread

/-- The bytes of a file are in one of the entries. -/
theorem exists_of_read {p : Path} {bytes : List UInt8} (h : fs.read p = .ok bytes) :
    ∃ location, (location, Entry.file bytes) ∈ fs.entries := by
  unfold Files.read at h
  split at h
  · next location _ =>
    split at h
    · next hentry =>
      cases h
      unfold Files.entryAt at hentry
      split at hentry
      · cases hentry
      · exact ⟨location, Table.mem_of_get?_eq_some hentry⟩
    · cases h
    · cases h
  · cases h

/-- The text of a file is what one of the entries decodes to. -/
theorem exists_of_readText {p : Path} {encoding : Encoding} {source : Text}
    (h : fs.readText p encoding = .ok source) :
    ∃ location bytes decoded, (location, Entry.file bytes) ∈ fs.entries ∧
      encoding.decode bytes = .ok decoded ∧ source = unifyLineEnds decoded := by
  unfold Files.readText at h
  split at h
  · cases h
  · next bytes hread =>
    split at h
    · cases h
    · next decoded hdecode =>
      cases h
      obtain ⟨location, hmem⟩ := exists_of_read hread
      exact ⟨location, bytes, decoded, hmem, hdecode, rfl⟩

/-- What a template of the files includes is among the names in the files. -/
theorem includedNames_subset_namesInFiles {l : Loader} {name : Text} {t : Template}
    (h : l.template fs name = .ok (some t)) : t.includedNames ⊆ namesInFiles l fs := by
  obtain ⟨p, source, hread, hparse⟩ := exists_of_template h
  obtain ⟨location, bytes, decoded, hmem, hdecode, rfl⟩ := exists_of_readText hread
  intro inner hinner
  refine List.mem_flatMap.mpr ⟨(location, .file bytes), hmem, ?_⟩
  simp only [hdecode]
  cases hparse' : Template.parse [] (unifyLineEnds decoded) .standard with
  | error e =>
    -- a source that has a template has one by any name
    obtain ⟨-, hbuild⟩ := Template.parse_eq_ok_iff.mp hparse
    rw [Template.parse, hbuild] at hparse'
    cases hparse'
  | ok t' =>
    show inner ∈ t'.includedNames
    rw [includedNames_of_parse hparse' hparse]
    exact hinner

/-- **Whatever a store answers, what that includes is of its vocabulary.** -/
theorem includedNames_subset_vocabulary {name : Text} {t : Template}
    (h : s.answer fs name = .ok (some t)) : t.includedNames ⊆ s.vocabulary fs := by
  rw [answer_eq] at h
  unfold Store.vocabulary
  intro inner hinner
  cases hkept : Table.get? name s.units with
  | some u =>
    rw [hkept] at h
    cases h
    exact List.mem_append_left _
      (List.mem_flatMap.mpr ⟨(name, t), Table.mem_of_get?_eq_some hkept, hinner⟩)
  | none =>
    rw [hkept] at h
    cases hl : s.loader with
    | none =>
      rw [hl] at h
      cases h
    | some l =>
      rw [hl] at h
      exact List.mem_append_right _ (includedNames_subset_namesInFiles h hinner)

/-- **Loading all that a template includes follows the search** that begins with what it includes
itself, its own name among those seen. -/
theorem search_of_loadAll {t : Template} (h : s.loadAll fs t = (.ok missing, s')) :
    ∃ asked, Search (s.answer fs) [t.name] t.includedNames asked ∧
      missing = asked.filter (fun name => s.answer fs name = .ok none) ∧
      ∀ name ∈ asked, ∀ u, s.answer fs name = .ok (some u) →
        Table.get? name s'.units = some u := by
  have hunseen : without t.name (t.includedNames ++ s.vocabulary fs) =
      (t.includedNames ++ s.vocabulary fs).filter (· ∉ [t.name]) :=
    List.filter_congr fun name _ => by grind
  unfold loadAll at h
  rw [hunseen] at h
  exact search_of_searchNames (List.subset_append_left _ _)
    (fun _ _ hu => List.subset_append_of_subset_right _ (includedNames_subset_vocabulary hu)) h

end Store
end Mustache
