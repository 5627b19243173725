import Mustache.Engine
import Mustache.Proofs.Store.Answers

/-!
# Engines have no memory

An engine keeps the templates that it has loaded, so it changes with all that it is asked to render.
Nothing of this shows. What an engine gives depends on how it escapes values and on what its store
answers (`Engine.Alike`), and neither of them changes by rendering, whether it succeeds or fails. So
a row of jobs comes to the same as each of them done by an engine made for it alone.

* `Engine.fst_perform`, `Engine.alike_perform` — what a job comes to, and what is left of it
* `Engine.fst_performAll` — a row of jobs
* `Engine.performAll_of_create` — and fresh engines
-/

namespace Mustache.Engine

open Text

variable {ε : Type} {fs : Files} {g g' g'' : Engine ε}

/-! ## Jobs -/

/-- What an engine may be asked to render against some data. -/
inductive Job where
  | source (name source : Text) (data : Value)
  | named (name : Text) (data : Value)
  | file (p : Path) (data : Value)

/-- A job done, and the engine afterwards. -/
def perform (fs : Files) (g : Engine ε) : Job → Except (Error ε) Text × Engine ε
  | .source name source data => g.render fs name source data
  | .named name data => g.renderNamed fs name data
  | .file p data => g.renderFile fs p data

/-- Jobs done in order by the same engine. -/
def performAll (fs : Files) : List Job → Engine ε → List (Except (Error ε) Text) × Engine ε
  | [], g => ([], g)
  | job :: jobs, g =>
    let (answer, g) := g.perform fs job
    let (answers, g) := performAll fs jobs g
    (answer :: answers, g)

/-! ## Engines that are alike -/

/-- The engines escape values in the same way, and their stores give the same answers. -/
structure Alike (fs : Files) (g g' : Engine ε) : Prop where
  escape : g'.escape = g.escape
  answer : g'.store.answer fs = g.store.answer fs

namespace Alike

theorem refl (g : Engine ε) : g.Alike fs g := ⟨rfl, rfl⟩

theorem trans (h : g.Alike fs g') (h' : g'.Alike fs g'') : g.Alike fs g'' :=
  ⟨h'.escape.trans h.escape, h'.answer.trans h.answer⟩

/-- An engine whose store has been asked is like it was before. -/
theorem of_grows {store : Store} (h : g.store.Grows fs store) : g.Alike fs (g.withStore store) :=
  ⟨rfl, h.answer⟩

/-- What a template renders to is the same with engines that are alike. -/
theorem fst_renderTemplate (h : g.Alike fs g') (t : Template) (data : Value) :
    (g'.renderTemplate fs t data).1 = (g.renderTemplate fs t data).1 := by
  have hresult := Store.renderWithin_congr g.escape h.answer expansionLimit t data
  simp only [renderTemplate, Template.render, h.escape, hresult]

end Alike

theorem alike_renderTemplate (fs : Files) (t : Template) (data : Value) (g : Engine ε) :
    g.Alike fs (g.renderTemplate fs t data).2 :=
  .of_grows (Store.grows_renderWithin g.escape fs expansionLimit t data g.store)

/-! ## What a job comes to

Each equation gives what a job comes to by what its templates render to, with the engine as it is
before the job: what is parsed or looked up in between changes the store but none of its answers. -/

theorem render_eq (fs : Files) (name source : Text) (data : Value) (g : Engine ε) :
    (g.render fs name source data).1 =
        (match Template.parse name source .standard with
        | .ok t => (g.renderTemplate fs t data).1
        | .error e => .error (.load (.parse e))) ∧
      g.Alike fs (g.render fs name source data).2 := by
  have hparse := Store.fst_parse name source g.store
  have halike : g.Alike fs (g.withStore (g.store.parse name source).2) :=
    .of_grows (Store.grows_parse fs name source g.store)
  unfold render
  rw [← hparse]
  generalize g.store.parse name source = r at halike
  obtain ⟨_ | t, store⟩ := r
  · exact ⟨rfl, halike⟩
  · exact ⟨halike.fst_renderTemplate t data, halike.trans (alike_renderTemplate fs t data _)⟩

theorem renderNamed_eq (fs : Files) (name : Text) (data : Value) (g : Engine ε) :
    (g.renderNamed fs name data).1 =
        (match g.store.answer fs name with
        | .ok (some t) => (g.renderTemplate fs t data).1
        | .ok none => .error (.noTemplate name)
        | .error e => .error (.load e)) ∧
      g.Alike fs (g.renderNamed fs name data).2 := by
  have halike : g.Alike fs (g.withStore (g.store.get fs name).2) := .of_grows (.get .refl name)
  unfold renderNamed Store.answer
  generalize g.store.get fs name = r at halike
  obtain ⟨_ | _ | t, store⟩ := r
  · exact ⟨rfl, halike⟩
  · exact ⟨rfl, halike⟩
  · exact ⟨halike.fst_renderTemplate t data, halike.trans (alike_renderTemplate fs t data _)⟩

/-- **An engine is after a job what it was before**, as far as it shows. -/
theorem alike_perform (fs : Files) (job : Job) (g : Engine ε) :
    g.Alike fs (g.perform fs job).2 := by
  cases job with
  | source name source data => exact (render_eq fs name source data g).2
  | named name data => exact (renderNamed_eq fs name data g).2
  | file p data =>
    simp only [perform, renderFile]
    cases fs.readText p .utf8 with
    | error e => exact .refl g
    | ok source => exact (render_eq fs _ source data g).2

/-- **What a job comes to** is the same with engines that are alike. -/
theorem Alike.fst_perform (h : g.Alike fs g') (job : Job) :
    (g'.perform fs job).1 = (g.perform fs job).1 := by
  have hrender : ∀ name source data,
      (g'.render fs name source data).1 = (g.render fs name source data).1 := by
    intro name source data
    simp only [(render_eq fs name source data _).1, h.fst_renderTemplate]
  cases job with
  | source name source data => exact hrender name source data
  | named name data =>
    simp only [perform, (renderNamed_eq fs name data _).1, h.answer, h.fst_renderTemplate]
  | file p data =>
    simp only [perform, renderFile]
    cases fs.readText p .utf8 with
    | error e => rfl
    | ok source => exact hrender _ source data

/-! ## Rows of jobs -/

/-- **Jobs do not influence each other**: each comes to what it would come to if it were the
first. -/
theorem fst_performAll (fs : Files) (jobs : List Job) (g : Engine ε) :
    (g.performAll fs jobs).1 = jobs.map fun job => (g.perform fs job).1 := by
  induction jobs generalizing g with
  | nil => rfl
  | cons job jobs ih =>
    have hrest : (fun later => ((g.perform fs job).2.perform fs later).1) =
        fun later => (g.perform fs later).1 :=
      funext (alike_perform fs job g).fst_perform
    simp only [performAll, List.map_cons, ih, hrest]

/-- **An engine has no memory**: whatever it has been asked to render before, with success or
without, each job comes to what it comes to with an engine made for it alone. -/
theorem performAll_of_create {folder : Option Path} {sources : List (Text × Text)}
    {escape : Text → Except ε Text} (h : create folder sources escape = .ok g) (fs : Files)
    (jobs : List Job) :
    (g.performAll fs jobs).1.map .ok =
      jobs.map fun job =>
        (create folder sources escape).map fun fresh => (fresh.perform fs job).1 := by
  rw [h, fst_performAll, List.map_map]
  rfl

/-- A folder with a greeting and a template that is not closed. -/
def helloFolder : Files :=
  ⟨[(["hello".toText], .file (Encoding.bytesOf "Hello \x7b\x7b>name\x7d\x7d".toText)),
    (["open".toText], .file (Encoding.bytesOf "\x7b\x7b".toText))], []⟩

/-- What an engine for greetings is given when it is made. -/
def nameSources : List (Text × Text) := [("name".toText, "you".toText)]

/-- The store of that engine. -/
def nameStore : Store :=
  ⟨[("name".toText, ⟨"name".toText, [.text "you".toText]⟩)], some (.ofFolder (.ofText [])),
    [.parsed "name".toText 1]⟩

/-- Greetings, one of them with a template in it that cannot be had. -/
def helloJobs : List Job :=
  [.source [] "\x7b\x7b>hello\x7d\x7d\x7b\x7b>open\x7d\x7d".toText .null,
    .named "hello".toText .null, .file (.ofText "hello".toText) .null]

theorem performAll_of_create_hello :
    let escape : Text → Except Empty Text := fun s => .ok (Escape.html s)
    let g : Engine Empty := ⟨escape, nameStore⟩
    create (some (.ofText [])) nameSources escape = .ok g ∧
      ((g.performAll helloFolder helloJobs).1.map Except.toOption =
        [none, some "Hello you".toText, some "Hello you".toText]) ∧
      (g.performAll helloFolder helloJobs).1.map .ok =
        helloJobs.map fun job => (create (some (.ofText [])) nameSources escape).map fun fresh =>
          (fresh.perform helloFolder job).1 := by
  intro escape g
  have hstore : addAll (.empty (some (.ofFolder (.ofText [])))) nameSources = .ok nameStore := by
    decide +kernel
  have hcreate : create (some (.ofText [])) nameSources escape = .ok g := by
    simp only [create, Option.map_some, hstore, g]
  exact ⟨hcreate, by decide +kernel, performAll_of_create hcreate helloFolder helloJobs⟩

end Mustache.Engine
