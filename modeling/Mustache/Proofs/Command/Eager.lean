import Mustache.Engine
import Mustache.Proofs.Command.Course
import Mustache.Proofs.Store.Search

/-!
# Loading beforehand

The command loads all that a template includes before it renders the template, an engine loads what
a render asks for when it asks for it. One goes through the templates breadth first and takes in all
of them, the other goes down into them and takes in those that the data call for. Either way the
store is only asked for names, and answers as before. So it makes no difference to what is rendered,
and what the command writes is what an engine gives.

* `Store.renderWithin_of_loadAll` — a template rendered after all that it includes has been loaded
* `Command.renderFile_eq` — a file rendered by the command and by an engine
* `Command.stdout_eq_renderFile` — all in one
-/

namespace Mustache

open Text

variable {fs : Files}

/-- **To load beforehand makes no difference** to what a template renders to. -/
theorem Store.renderWithin_of_loadAll {ε : Type} {s s' : Store} {t : Template}
    {answer : Except LoadError (List Text)} (h : s.loadAll fs t = (answer, s'))
    (escape : Text → Except ε Text) (limit : Nat) (data : Value) :
    (t.renderWithin limit (host fs escape) data s').result =
      (t.renderWithin limit (host fs escape) data s).result :=
  renderWithin_congr escape (Grows.of_loadAll h).answer limit t data

namespace Command

variable {o : Options} {stdin output : Text}

/-! ## Rendering a file -/

/-- The engine that renders as the options say. -/
def engineOf (o : Options) (path : Path) : Engine Empty :=
  ⟨fun s => .ok (escapeOf o s), storeOf o path⟩

/-- **What the command has done when it has rendered a file**: the file has been read and parsed,
all that it includes has been loaded, and the render has succeeded. -/
theorem renderFile_cases {path : Path} {data : Value} {notices : List Notice}
    (h : renderFile o path fs data = (.ok output, notices)) :
    ∃ source t s missing s',
      fs.readText path .utf8 = .ok source ∧
      (storeOf o path).parse (unmarkedName path.name) source = (.ok t, s) ∧
      s.loadAll fs t = (.ok missing, s') ∧
      (t.render (Store.host fs (engineOf o path).escape) data (missing.foldl
        (fun s name => s.note (.willBeEmpty name (partialsFolder o path))) s')).result =
          .ok output := by
  obtain ⟨answer, _, hcourse⟩ := exists_fileCourse o path fs data
  have hanswer : answer = .ok output :=
    ok_of_mapError (Prod.ext_iff.mp ((renderFile_of_fileCourse hcourse).symm.trans h)).1
  cases hcourse with
  | unread | unparsed | unloaded => cases hanswer
  | rendered read parsed loaded =>
    exact ⟨_, _, _, _, _, read, parsed, loaded, ok_of_mapError hanswer⟩

/-- **The output of the command is that of an engine** for the same file and data. -/
theorem renderFile_eq {path : Path} {data : Value} {notices : List Notice}
    (h : renderFile o path fs data = (.ok output, notices)) :
    ((engineOf o path).renderFile fs path data).1 = .ok output := by
  obtain ⟨source, t, s, missing, s', hread, hparse, hload, hresult⟩ := renderFile_cases h
  have hgrows := Store.grows_foldl_note fs missing (.willBeEmpty · (partialsFolder o path)) s'
  have hlazy : (t.render (Store.host fs (engineOf o path).escape) data s).result = .ok output := by
    rw [← hresult]
    exact ((Store.renderWithin_congr _ hgrows.answer expansionLimit t data).trans
      (Store.renderWithin_of_loadAll hload _ expansionLimit data)).symm
  have hstore : (engineOf o path).store = storeOf o path := rfl
  simp only [Engine.renderFile, hread, Engine.render, hstore, hparse]
  simp only [Engine.renderTemplate, Engine.withStore, hlazy]
  rfl

/-! ## Running the command -/

/-- **What a run has done when it ends well** and writes to no file. -/
theorem renderAt_cases {path : Path} (houtput : o.output = none) (hdataOut : o.dataOut = none)
    (h : (renderAt o path fs stdin).ending = .ok 0) :
    ∃ data notices, obtainData o fs stdin = .ok data ∧
      renderFile o path fs data.toValue = (.ok (renderAt o path fs stdin).stdout, notices) := by
  obtain ⟨answer, notices, fs', hcourse⟩ := exists_pathCourse o path fs stdin
  rw [renderAt_of_pathCourse hcourse] at h ⊢
  cases hcourse with
  | noData | notKept => exact absurd h (ending_stopped_ne _ _ _)
  | @file v _ _ _ obtained kept file =>
    have hkept : fs' = fs := by simpa [keepData, hdataOut] using kept.symm
    subst hkept
    cases answer with
    | error failure => exact absurd h (ending_stopped_ne _ _ fs')
    | ok text =>
      refine ⟨v, notices, obtained, (renderFile_of_fileCourse file).trans ?_⟩
      have hfinish := finish_finishes o text (report o notices) fs'
      simp only [outcomeOf] at h ⊢
      generalize finish o text (report o notices) fs' = outcome at h hfinish ⊢
      cases hfinish with
      | shown => rfl
      | notShown | notWritten => cases h
      | written given => exact absurd (given.symm.trans houtput) (by simp)

/-- **Loading beforehand and loading on demand come to the same.** First, for a store: when all that
a template includes has been loaded, the template renders to what it would have rendered to without.
Second, for the command: when it ends well and writes to no file, what it writes is what an engine
made for the same folder gives for the same file and data. -/
theorem stdout_eq_renderFile :
    (∀ {ε : Type} (fs : Files) (s s' : Store) (t : Template) (missing : List Text),
      s.loadAll fs t = (.ok missing, s') → ∀ (escape : Text → Except ε Text) limit data,
        (t.renderWithin limit (Store.host fs escape) data s').result =
          (t.renderWithin limit (Store.host fs escape) data s).result) ∧
    ∀ arguments (fs : Files) stdin o, Request.ofArguments arguments = .render o →
      o.output = none → o.dataOut = none → (run arguments fs stdin).ending = .ok 0 →
      ∃ p data, ∃ g : Engine Empty, o.template = .text p ∧ obtainData o fs stdin = .ok data ∧
        Engine.create (some (partialsFolder o (.ofText p))) [] (fun s => .ok (escapeOf o s)) =
          .ok g ∧
        (g.renderFile fs (.ofText p) data.toValue).1 = .ok (run arguments fs stdin).stdout := by
  refine ⟨fun fs s s' t missing h => Store.renderWithin_of_loadAll h, ?_⟩
  intro arguments fs stdin o hrequest houtput hdataOut hending
  have hrun : run arguments fs stdin = render o fs stdin := by simp only [run, hrequest]
  rw [hrun] at hending ⊢
  unfold render at hending ⊢
  cases htemplate : o.template with
  | nothing =>
    rw [htemplate] at hending
    exact absurd hending (ending_stopped_ne _ [] fs)
  | text p =>
    rw [htemplate] at hending
    obtain ⟨data, notices, hdata, hrender⟩ := renderAt_cases houtput hdataOut hending
    exact ⟨p, data, engineOf o (.ofText p), rfl, hdata, rfl, renderFile_eq hrender⟩

/-- A folder with a page, what the page includes, and the data for it. -/
def pageFiles : Files :=
  ⟨[(["page.mustache".toText], .file (Encoding.bytesOf
      "\x7b\x7b#names\x7d\x7d\x7b\x7b>hello\x7d\x7d \x7b\x7b/names\x7d\x7d".toText)),
    (["hello.mustache".toText], .file (Encoding.bytesOf
      "Hello \x7b\x7b.\x7d\x7d\x7b\x7b>gone\x7d\x7d".toText)),
    (["data.json".toText], .file (Encoding.bytesOf
      "\x7b\"names\": [\"A\", \"<B>\"]\x7d".toText))], []⟩

/-- The arguments for it. -/
def pageArguments : List Text :=
  ["--template", "page.mustache", "--data", "data.json"].map String.toText

/-- What the arguments stand for. -/
def pageOptions : Options :=
  ⟨.text "page.mustache".toText, some (.text "data.json".toText), none, none, false, none, false⟩

/-- The page as it is parsed. -/
def helloPage : Template :=
  ⟨"page".toText, [.block "names".toText false
    [.inclusion "hello".toText [] false, .text [' ']]]⟩

theorem stdout_eq_renderFile_page :
    (∃ s', (storeOf pageOptions (.ofText "page.mustache".toText)).loadAll pageFiles helloPage =
        (.ok ["gone".toText], s') ∧
      ∀ (escape : Text → Except Empty Text) limit data,
        (helloPage.renderWithin limit (Store.host pageFiles escape) data s').result =
          (helloPage.renderWithin limit (Store.host pageFiles escape) data
            (storeOf pageOptions (.ofText "page.mustache".toText))).result) ∧
    Request.ofArguments pageArguments = .render pageOptions ∧
    (run pageArguments pageFiles []).ending = .ok 0 ∧
    ∃ data, obtainData pageOptions pageFiles [] = .ok data ∧
      ((engineOf pageOptions (.ofText "page.mustache".toText)).renderFile pageFiles
        (.ofText "page.mustache".toText) data.toValue).1 =
          .ok "Hello A Hello &lt;B&gt; ".toText := by
  have hmissing : ((storeOf pageOptions (.ofText "page.mustache".toText)).loadAll pageFiles
      helloPage).1 = .ok ["gone".toText] := by decide +kernel
  have hrequest : Request.ofArguments pageArguments = .render pageOptions := by decide +kernel
  have hending : (run pageArguments pageFiles []).ending = .ok 0 := by decide +kernel
  have hstdout : (run pageArguments pageFiles []).stdout = "Hello A Hello &lt;B&gt; ".toText := by
    decide +kernel
  refine ⟨⟨_, Prod.ext hmissing rfl, ?_⟩, hrequest, hending, ?_⟩
  · exact stdout_eq_renderFile.1 _ _ _ _ _ (Prod.ext hmissing rfl)
  · obtain ⟨p, data, g, hp, hdata, hg, hrender⟩ :=
      stdout_eq_renderFile.2 pageArguments pageFiles [] pageOptions hrequest rfl rfl hending
    cases hp
    cases hg
    exact ⟨data, hdata, hstdout ▸ hrender⟩

end Command
end Mustache
