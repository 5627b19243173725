import Mustache.Proofs.Store.Search
import Mustache.Proofs.Template.Breadth

/-!
# What loading reports

To load all that a template includes asks the store for each name once at most, whatever the
templates include, themselves and each other among it. Where all files that are taken for templates
can be read and have one, it comes to an end with a report: the names that no template goes by, of
those that the template reaches but for its own name, in the order of a breadth-first search.

One thing is in the way. Whether there is a file cannot be told if its name is too long, and the
names that templates include may be of any length. Such a name is refused (`Store.Refuses`), and
loading fails with the error of one that is.

* `Search.eq_firsts` — what a search asks for is what it mentions, in the order of first mention
* `Store.searchNames_recorded` — no name is asked for twice
* `Store.report_of_loadAll` — what is reported
-/

namespace Mustache

open Text

/-! ## The order of a search -/

namespace Search

variable {answer : Text → Except LoadError (Option Template)} {seen pending asked : List Text}
  {t : Template}

theorem namesBy_of_missing {name : Text} (h : answer name = .ok none) :
    namesBy answer name = [] := by
  rw [namesBy, h]

theorem namesBy_of_found {name : Text} (h : answer name = .ok (some t)) :
    namesBy answer name = t.includedNames := by
  rw [namesBy, h]

/-- **A search asks for what is pending and for what the names it asks for lead to**, in the order
of first mention. -/
theorem eq_firsts (h : Search answer seen pending asked) :
    asked = (firsts (pending ++ asked.flatMap (namesBy answer))).filter (· ∉ seen) := by
  induction h with
  | done => rfl
  | again old _ ih =>
    rw [List.cons_append, filter_firsts_cons_of_mem old]
    exact ih
  | missing new missing _ ih =>
    rw [List.cons_append, filter_firsts_cons new, List.flatMap_cons, namesBy_of_missing missing,
      List.nil_append, ← ih]
  | found new found _ ih =>
    rw [List.cons_append, filter_firsts_cons new, List.flatMap_cons, namesBy_of_found found,
      ← List.append_assoc, ← ih]

theorem nodup (h : Search answer seen pending asked) : asked.Nodup := by
  rw [h.eq_firsts]
  exact (nodup_firsts _).filter _

theorem reachesOther (h : Search answer seen pending asked) (hown : t.name ∈ seen)
    (hpending : ∀ name ∈ pending, name ∉ seen → t.ReachesOther answer name) :
    ∀ name ∈ asked, t.ReachesOther answer name := by
  induction h with
  | done => nofun
  | again _ _ ih => exact ih hown fun name hname => hpending name (List.mem_cons_of_mem _ hname)
  | @missing seen pending asked name new _ _ ih =>
    refine List.forall_mem_cons.mpr ⟨hpending name List.mem_cons_self new, ?_⟩
    refine ih (List.mem_cons_of_mem _ hown) fun other hother hnew => ?_
    exact hpending other (List.mem_cons_of_mem _ hother) fun hold =>
      hnew (List.mem_cons_of_mem _ hold)
  | @found seen pending asked name u new found _ ih =>
    have hname := hpending name List.mem_cons_self new
    refine List.forall_mem_cons.mpr ⟨hname, ?_⟩
    refine ih (List.mem_cons_of_mem _ hown) fun other hother hnew => ?_
    rcases List.mem_append.mp hother with hother | hother
    · exact hpending other (List.mem_cons_of_mem _ hother) fun hold =>
        hnew (List.mem_cons_of_mem _ hold)
    · refine hname.tail ⟨u, found, hother⟩ ?_
      rintro rfl
      exact hnew (List.mem_cons_of_mem _ hown)

/-- **A search from what a template includes asks for what it reaches, breadth-first.** -/
theorem exists_namesWithin_eq (h : Search answer [t.name] t.includedNames asked) :
    ∃ depth, ∀ k, depth ≤ k → t.namesWithin answer k = asked := by
  have hmentions : asked = t.mentions answer asked := by
    conv => lhs; rw [h.eq_firsts]
    exact List.filter_congr fun name _ => by simp
  refine Template.exists_namesWithin_eq hmentions ?_
  exact h.reachesOther List.mem_cons_self fun name hname hother =>
    .of_mem hname fun heq => hother (List.mem_singleton.mpr heq)

theorem mem_iff (h : Search answer [t.name] t.includedNames asked) {name : Text} :
    name ∈ asked ↔ t.ReachesOther answer name := by
  obtain ⟨depth, hdepth⟩ := h.exists_namesWithin_eq
  rw [Template.reachesOther_iff]
  constructor
  · intro hname
    exact ⟨depth, (hdepth depth le_rfl).symm ▸ hname⟩
  · rintro ⟨k, hk⟩
    rw [← hdepth (max depth k) (le_max_left _ _)]
    exact (Template.prefix_namesWithin (le_max_right _ _)).subset hk

end Search

/-! ## The names that are asked for -/

namespace Store

section

variable {σ ε α : Type}

variable {get : Text → σ → Except ε (Option Template) × σ} {unseen pending rest : List Text}
  {name : Text} {s s' : σ}

theorem searchNames_of_nil (hskip : skipSeen unseen pending = []) :
    searchNames get unseen pending s = (.ok [], s) := by
  unfold searchNames
  grind

theorem searchNames_of_error {e : ε} (hskip : skipSeen unseen pending = name :: rest)
    (hget : get name s = (.error e, s')) : searchNames get unseen pending s = (.error e, s') := by
  unfold searchNames
  grind

theorem searchNames_of_none (hskip : skipSeen unseen pending = name :: rest)
    (hget : get name s = (.ok none, s')) :
    searchNames get unseen pending s =
      ((searchNames get (without name unseen) rest s').1.map (name :: ·),
        (searchNames get (without name unseen) rest s').2) := by
  conv => lhs; unfold searchNames
  split
  · grind
  · next other others hother =>
    obtain ⟨rfl, rfl⟩ := List.cons.inj (hskip.symm.trans hother)
    rw [hget]
    dsimp only
    split <;> next hrest => rw [hrest]; rfl

theorem searchNames_of_some {t : Template}
    (hskip : skipSeen unseen pending = name :: rest)
    (hget : get name s = (.ok (some t), s')) :
    searchNames get unseen pending s =
      searchNames get (without name unseen) (rest ++ t.includedNames) s' := by
  conv => lhs; unfold searchNames
  grind

/-- To get a template, with a record of the names asked for, in order. -/
def recorded (get : Text → σ → α × σ) (name : Text) (s : σ × List Text) : α × σ × List Text :=
  ((get name s.1).1, (get name s.1).2, s.2 ++ [name])

theorem recorded_of_get {get : Text → σ → α × σ} {a : α} (h : get name s = (a, s'))
    (before : List Text) : recorded get name (s, before) = (a, s', before ++ [name]) := by
  rw [recorded, h]

/-- A name and others that are not asked for again. -/
theorem nodup_cons_of_subset_without {calls : List Text} (hnodup : calls.Nodup)
    (hsub : calls ⊆ without name unseen) : (name :: calls).Nodup :=
  List.nodup_cons.mpr ⟨fun h => of_decide_eq_true (List.mem_filter.mp (hsub h)).2 rfl, hnodup⟩

theorem cons_subset_of_subset_without {calls : List Text}
    (hskip : skipSeen unseen pending = name :: rest)
    (hsub : calls ⊆ without name unseen) : name :: calls ⊆ unseen :=
  List.cons_subset.mpr ⟨mem_of_skipSeen hskip, fun _ h => (List.mem_filter.mp (hsub h)).1⟩

/-- **No name is asked for twice**, and to keep a record changes nothing else. -/
theorem searchNames_recorded (get : Text → σ → Except ε (Option Template) × σ)
    (unseen pending : List Text) (s : σ) (before : List Text) :
    ∃ calls, calls.Nodup ∧ calls ⊆ unseen ∧
      searchNames (recorded get) unseen pending (s, before) =
        ((searchNames get unseen pending s).1, (searchNames get unseen pending s).2,
          before ++ calls) := by
  fun_induction searchNames get unseen pending s generalizing before with
  | case1 unseen pending s hskip =>
    refine ⟨[], List.nodup_nil, List.nil_subset _, ?_⟩
    rw [searchNames_of_nil hskip, List.append_nil]
  | case2 unseen pending s name rest hskip e s₁ hget =>
    refine ⟨[name], List.nodup_singleton _,
      cons_subset_of_subset_without hskip (List.nil_subset _), ?_⟩
    rw [searchNames_of_error hskip (recorded_of_get hget before)]
  | case3 unseen pending s name rest hskip s₁ hget missing s₂ hrest ih =>
    obtain ⟨calls, hnodup, hsub, heq⟩ := ih (before ++ [name])
    refine ⟨name :: calls, nodup_cons_of_subset_without hnodup hsub,
      cons_subset_of_subset_without hskip hsub, ?_⟩
    rw [searchNames_of_none hskip (recorded_of_get hget before), heq, hrest, List.append_assoc]
    rfl
  | case4 unseen pending s name rest hskip s₁ hget e s₂ hrest ih =>
    obtain ⟨calls, hnodup, hsub, heq⟩ := ih (before ++ [name])
    refine ⟨name :: calls, nodup_cons_of_subset_without hnodup hsub,
      cons_subset_of_subset_without hskip hsub, ?_⟩
    rw [searchNames_of_none hskip (recorded_of_get hget before), heq, hrest, List.append_assoc]
    rfl
  | case5 unseen pending s name rest hskip t s₁ hget ih =>
    obtain ⟨calls, hnodup, hsub, heq⟩ := ih (before ++ [name])
    refine ⟨name :: calls, nodup_cons_of_subset_without hnodup hsub,
      cons_subset_of_subset_without hskip hsub, ?_⟩
    rw [searchNames_of_some hskip (recorded_of_get hget before), heq, List.append_assoc]
    rfl

end

end Store

/-! ## Names that are refused -/

namespace Loader

variable {fs : Files} {l : Loader} {name : Text} {e : AccessError}

/-- All files that the loader takes for templates can be read, and have one. -/
def AllParse (l : Loader) (fs : Files) : Prop :=
  ∀ name p, l.find? fs name = .ok (some p) →
    ∃ source t, fs.readText p l.encoding = .ok source ∧
      Template.parse name source .standard = .ok t

theorem isFile_of_firstFile {p : Path} {ps : List Path} (h : firstFile fs ps = .ok (some p)) :
    fs.isFile p = .ok true := by
  fun_induction firstFile fs ps with
  | case1 => cases h
  | case2 => cases h
  | case3 p ps hp =>
    cases h
    exact hp
  | case4 _ _ _ ih => exact ih h

theorem fault_of_firstFile {ps : List Path} (h : firstFile fs ps = .error e) :
    e.fault = .nameTooLong := by
  fun_induction firstFile fs ps with
  | case1 => cases h
  | case2 p ps e' hp =>
    cases h
    unfold Files.isFile at hp
    split at hp
    · split at hp <;> cases hp
    · cases hp
      rfl
    · cases hp
  | case3 => cases h
  | case4 _ _ _ ih => exact ih h

/-- What is a file has bytes. -/
theorem exists_read_of_isFile {p : Path} (h : fs.isFile p = .ok true) :
    ∃ bytes, fs.read p = .ok bytes := by
  unfold Files.isFile at h
  split at h
  · next location hlocate =>
    split at h
    · next bytes hentry => exact ⟨bytes, by rw [Files.read, hlocate]; simp only [hentry]⟩
    · cases h
  · cases h
  · cases h

/-- The bytes are those of a text that has a template. -/
def parses (encoding : Encoding) (bytes : List UInt8) : Bool :=
  match encoding.decode bytes with
  | .error _ => false
  | .ok decoded => (Template.parse [] (unifyLineEnds decoded) .standard).isOk

/-- Where every file has a template, so has every one that is taken for one. -/
theorem allParse_of_entries
    (h : ∀ location bytes, (location, Entry.file bytes) ∈ fs.entries →
      parses l.encoding bytes) : l.AllParse fs := by
  intro name p hfind
  obtain ⟨bytes, hread⟩ := exists_read_of_isFile (isFile_of_firstFile hfind)
  obtain ⟨location, hmem⟩ := Store.exists_of_read hread
  have hparses := h location bytes hmem
  unfold parses at hparses
  split at hparses
  · cases hparses
  · next decoded hdecode =>
    refine ⟨unifyLineEnds decoded, ?_⟩
    cases hparse : Template.parse [] (unifyLineEnds decoded) .standard with
    | error e =>
      rw [hparse] at hparses
      cases hparses
    | ok t =>
      refine ⟨⟨name, t.root⟩, ?_, ?_⟩
      · simp only [Files.readText, hread, hdecode]
      · exact Template.parse_eq_ok_iff.mpr ⟨rfl, (Template.parse_eq_ok_iff.mp hparse).2⟩

end Loader

namespace Store

variable {fs : Files} {s s' : Store} {t : Template} {name : Text}

/-- The name is one of no template that is kept, and too long to look for a file. -/
def Refuses (fs : Files) (s : Store) (name : Text) (e : AccessError) : Prop :=
  Table.get? name s.units = none ∧ ∃ l, s.loader = some l ∧ l.find? fs name = .error e

theorem Refuses.fault_eq {e : AccessError} (h : s.Refuses fs name e) : e.fault = .nameTooLong := by
  obtain ⟨-, l, -, hfind⟩ := h
  exact Loader.fault_of_firstFile hfind

theorem Refuses.answer_eq {e : AccessError} (h : s.Refuses fs name e) :
    s.answer fs name = .error (.access e) := by
  obtain ⟨hnew, l, hl, hfind⟩ := h
  rw [Store.answer_eq, hnew, hl]
  simp only [Loader.template, Loader.load?, hfind]

/-- Where all files have templates, a store fails to answer only when a name is refused. -/
theorem refuses_of_answer (hparse : ∀ l, s.loader = some l → l.AllParse fs) {e : LoadError}
    (h : s.answer fs name = .error e) : ∃ e', e = .access e' ∧ s.Refuses fs name e' := by
  rw [Store.answer_eq] at h
  cases hkept : Table.get? name s.units with
  | some u =>
    rw [hkept] at h
    cases h
  | none =>
    cases hl : s.loader with
    | none =>
      rw [hkept, hl] at h
      cases h
    | some l =>
      rw [hkept, hl] at h
      simp only [Loader.template, Loader.load?] at h
      cases hfind : l.find? fs name with
      | error e' =>
        rw [hfind] at h
        cases h
        exact ⟨e', rfl, hkept, l, hl, hfind⟩
      | ok found =>
        rw [hfind] at h
        cases found with
        | none => cases h
        | some p =>
          obtain ⟨source, u, hread, hu⟩ := hparse l hl name p hfind
          simp only [hread, Except.map, hu] at h
          cases h

theorem mem_of_mem_without {other : Text} {names : List Text} (h : other ∈ without name names) :
    other ∈ names :=
  (List.mem_filter.mp h).1

theorem pending_of_skipSeen {unseen pending rest : List Text}
    (hskip : skipSeen unseen pending = name :: rest) : name ∈ pending ∧ rest ⊆ pending := by
  have hsub : (name :: rest).Sublist pending := hskip ▸ List.dropWhile_sublist _
  exact List.cons_subset.mp hsub.subset

/-- **Loading fails only with what the store answers for a name that it comes to.** -/
theorem error_of_searchNames {reached : Text → Prop} {unseen pending : List Text} {e : LoadError}
    (hpending : ∀ name ∈ pending, name ∈ unseen → reached name)
    (hstep : ∀ name inner, reached name → LeadsTo (s.answer fs) name inner → inner ∈ unseen →
      reached inner)
    (h : searchNames (get fs) unseen pending s = (.error e, s')) :
    ∃ name, reached name ∧ s.answer fs name = .error e := by
  fun_induction searchNames (get fs) unseen pending s with
  | case1 => cases h
  | case2 unseen pending s name rest hskip e' s₁ hget =>
    cases h
    refine ⟨name, hpending name (pending_of_skipSeen hskip).1 (mem_of_skipSeen hskip), ?_⟩
    rw [answer, hget]
  | case3 => cases h
  | case4 unseen pending s name rest hskip s₁ hget e' s₂ hrest ih =>
    cases h
    obtain rfl := eq_of_get_none hget
    refine ih (fun other hother hnew => ?_) (fun a b ha hab hnew => ?_) hrest
    · exact hpending other ((pending_of_skipSeen hskip).2 hother) (mem_of_mem_without hnew)
    · exact hstep a b ha hab (mem_of_mem_without hnew)
  | case5 unseen pending s name rest hskip u s₁ hget ih =>
    have hname := hpending name (pending_of_skipSeen hskip).1 (mem_of_skipSeen hskip)
    have hanswer : s.answer fs name = .ok (some u) := by rw [answer, hget]
    have hsame : s₁.answer fs = s.answer fs := (Grows.of_get hget).answer
    rw [hsame] at ih
    refine ih (fun other hother hnew => ?_) (fun a b ha hab hnew => ?_) h
    · rcases List.mem_append.mp hother with hother | hother
      · exact hpending other ((pending_of_skipSeen hskip).2 hother) (mem_of_mem_without hnew)
      · exact hstep name other hname ⟨u, hanswer, hother⟩ (mem_of_mem_without hnew)
    · exact hstep a b ha hab (mem_of_mem_without hnew)

theorem error_of_loadAll {e : LoadError} (h : s.loadAll fs t = (.error e, s')) :
    ∃ name, t.ReachesOther (s.answer fs) name ∧ s.answer fs name = .error e := by
  have hother {name : Text} {names : List Text} (h : name ∈ without t.name names) :
      name ≠ t.name := of_decide_eq_true (List.mem_filter.mp h).2
  exact error_of_searchNames (fun name hname hnew => .of_mem hname (hother hnew))
    (fun _ _ ha hab hnew => ha.tail hab (hother hnew)) h

/-! ## The report -/

/-- To load all that a template includes, with a record of the names that the store is asked for. -/
def loadAllRecorded (fs : Files) (t : Template) (s : Store) :
    Except LoadError (List Text) × Store × List Text :=
  searchNames (recorded (get fs)) (without t.name (t.includedNames ++ s.vocabulary fs))
    t.includedNames (s, [])

/-- **What loading comes to**, where every file that is taken for a template has one. The store is
asked for no name twice. Unless the template reaches a name that is refused, there is a report: each
name but the template's own that it reaches and that no template goes by, once, in the order in
which a breadth-first list mentions them. If it does reach one, loading fails because of one. -/
theorem report_of_loadAll (fs : Files) (t : Template) (s : Store)
    (hparse : ∀ l, s.loader = some l → l.AllParse fs) :
    (∃ calls, calls.Nodup ∧
      s.loadAllRecorded fs t = ((s.loadAll fs t).1, (s.loadAll fs t).2, calls)) ∧
    ((∀ name e, t.ReachesOther (s.answer fs) name → ¬ s.Refuses fs name e) →
      ∃ missing, (s.loadAll fs t).1 = .ok missing ∧ missing.Nodup ∧
        (∃ depth, ∀ k, depth ≤ k → missing =
          (t.namesWithin (s.answer fs) k).filter fun name => s.answer fs name = .ok none) ∧
        ∀ name, name ∈ missing ↔
          s.answer fs name = .ok none ∧ t.ReachesOther (s.answer fs) name) ∧
    ∀ name e, t.ReachesOther (s.answer fs) name → s.Refuses fs name e →
      ∃ name' e', t.ReachesOther (s.answer fs) name' ∧ s.Refuses fs name' e' ∧
        e'.fault = .nameTooLong ∧ (s.loadAll fs t).1 = .error (.access e') := by
  refine ⟨?_, fun hnone => ?_, fun name e hname hrefused => ?_⟩
  · obtain ⟨calls, hnodup, -, heq⟩ := searchNames_recorded (get fs)
      (without t.name (t.includedNames ++ s.vocabulary fs)) t.includedNames s []
    exact ⟨calls, hnodup, heq⟩
  · cases hload : s.loadAll fs t with
    | mk result s' =>
      cases result with
      | error e =>
        obtain ⟨name, hname, hanswer⟩ := error_of_loadAll hload
        obtain ⟨e', -, hrefused⟩ := refuses_of_answer hparse hanswer
        exact absurd hrefused (hnone name e' hname)
      | ok missing =>
        obtain ⟨asked, hsearch, rfl, -⟩ := search_of_loadAll hload
        obtain ⟨depth, hdepth⟩ := hsearch.exists_namesWithin_eq
        refine ⟨_, rfl, ?_, ⟨depth, fun k hk => by rw [hdepth k hk]⟩, fun name => ?_⟩
        · exact hsearch.nodup.filter _
        · rw [List.mem_filter, decide_eq_true_eq, hsearch.mem_iff, and_comm]
  · cases hload : s.loadAll fs t with
    | mk result s' =>
      cases result with
      | error e' =>
        obtain ⟨name', hname', hanswer⟩ := error_of_loadAll hload
        obtain ⟨e'', rfl, hrefused'⟩ := refuses_of_answer hparse hanswer
        exact ⟨name', e'', hname', hrefused', hrefused'.fault_eq, rfl⟩
      | ok missing =>
        -- a name that was asked for has been answered
        obtain ⟨asked, hsearch, -, -⟩ := search_of_loadAll hload
        obtain ⟨o, ho⟩ := hsearch.answered (hsearch.mem_iff.mpr hname)
        rw [hrefused.answer_eq] at ho
        cases ho

/-- A folder with the head of a site, which includes the site, and a menu, which includes itself and
the head. -/
def siteFolder : Files :=
  let head := "\x7b\x7b>logo\x7d\x7d\x7b\x7b#deep\x7d\x7d" ++
    "\x7b\x7b>menu\x7d\x7d\x7b\x7b/deep\x7d\x7d\x7b\x7b>site\x7d\x7d"
  let menu := "\x7b\x7b>head\x7d\x7d\x7b\x7b>menu\x7d\x7d" ++
    "\x7b\x7b>ads\x7d\x7d\x7b\x7b>icon\x7d\x7d"
  ⟨[(["head.mustache".toText], .file (Encoding.bytesOf head.toList)),
    (["menu.mustache".toText], .file (Encoding.bytesOf menu.toList))], []⟩

/-- A store that keeps the foot of the site and loads other templates from a folder. -/
def siteStore : Store :=
  ⟨[("foot".toText, ⟨"foot".toText, [.inclusion "head".toText [] false,
    .inclusion "logo".toText [] false, .inclusion "date".toText [] false]⟩)],
    some (.ofFolder (.ofText [])), []⟩

/-- A site, which includes itself, too. -/
def site : Template :=
  ⟨"site".toText, [.inclusion "head".toText [] true, .inclusion "ads".toText [] false,
    .block "more".toText false [.inclusion "foot".toText [] false,
      .inclusion "site".toText [] false]]⟩

/-- The names of no template come from the site, its head, its foot and the menu, in this order. -/
theorem report_of_loadAll_site :
    let missing := ["ads".toText, "logo".toText, "date".toText, "icon".toText]
    (∀ l, siteStore.loader = some l → l.AllParse siteFolder) ∧
      (∀ name e, site.ReachesOther (siteStore.answer siteFolder) name →
        ¬ siteStore.Refuses siteFolder name e) ∧
      (∃ calls, calls.Nodup ∧ siteStore.loadAllRecorded siteFolder site =
        ((siteStore.loadAll siteFolder site).1, (siteStore.loadAll siteFolder site).2, calls)) ∧
      (siteStore.loadAll siteFolder site).1 = .ok missing ∧
      ∀ name, name ∈ missing ↔ siteStore.answer siteFolder name = .ok none ∧
        site.ReachesOther (siteStore.answer siteFolder) name := by
  intro missing
  have hparse : ∀ l, siteStore.loader = some l → l.AllParse siteFolder := by
    rintro l ⟨⟩
    refine Loader.allParse_of_entries fun location bytes hmem => ?_
    rcases List.mem_cons.mp hmem with heq | hmem
    · cases heq
      decide +kernel
    · cases List.mem_singleton.mp hmem
      decide +kernel
  have hreached {name : Text} (h : site.ReachesOther (siteStore.answer siteFolder) name) :
      name ∈ ["head".toText, "foot".toText, "menu".toText] ++ missing := by
    refine h.mem_of_closed ?_ ?_ <;> decide +kernel
  have hnone : ∀ name e, site.ReachesOther (siteStore.answer siteFolder) name →
      ¬ siteStore.Refuses siteFolder name e := by
    intro name e hname hrefused
    have hanswered : ∀ name ∈ ["head".toText, "foot".toText, "menu".toText] ++ missing,
        (siteStore.answer siteFolder name).isOk := by decide +kernel
    have := hanswered name (hreached hname)
    rw [hrefused.answer_eq] at this
    cases this
  have hload : (siteStore.loadAll siteFolder site).1 = .ok missing := by decide +kernel
  obtain ⟨hcalls, hreport, -⟩ := report_of_loadAll siteFolder site siteStore hparse
  obtain ⟨missing', heq, -, -, hmem⟩ := hreport hnone
  obtain rfl : missing = missing' := Except.ok.inj (hload.symm.trans heq)
  exact ⟨hparse, hnone, hcalls, hload, hmem⟩

/-- A template that includes another by a name of three hundred letters. -/
def longNamed : Template := ⟨['t'], [.inclusion (List.replicate 300 'n') [] false]⟩

/-- **There is no report where a name is too long to look for its file**, be there no file at
all. -/
theorem loadAll_longNamed :
    let s := Store.empty (some (.ofFolder (.ofText [])))
    let p := Path.ofText (List.replicate 300 (char 'n') ++ ".mustache.html".toText)
    (∀ l, s.loader = some l → l.AllParse ⟨[], []⟩) ∧
      s.loadAll ⟨[], []⟩ longNamed = (.error (.access ⟨.nameTooLong, p⟩), s) := by
  intro s p
  refine ⟨fun l _ => Loader.allParse_of_entries nofun, ?_⟩
  decide +kernel

end Store
end Mustache
