import Mustache.Command.Run
import Mustache.Proofs.Store.Answers

/-!
# The course of a run

What a run of the command goes through: the data is obtained, and written where that is asked for;
the template is read and parsed; all that it includes is loaded; and it is rendered. Each of these
can fail in its own way (`Failure`), and the first that does is what the run comes to. What it comes
to, a failure or a text, together with the notices of it and the files afterwards, is its course
(`Course`). All that is left then is to write the text, or to report the failure.

* `Command.exists_course` — every run takes a course
* `Command.run_of_course` — what the command does, told from the course
-/

namespace Mustache.Command

open Text

/-! ## What can fail -/

/-- Why a run comes to no text. -/
inductive Failure where
  /-- What has to be read is given without a text to name it. -/
  | noPath
  /-- A file cannot be read, or cannot be parsed as a template. -/
  | load (e : LoadError)
  /-- The data cannot be read as JSON. -/
  | data (e : JsonValue.ReadError)
  /-- The data cannot be written. -/
  | write (e : WriteError)
  /-- The template cannot be rendered. -/
  | render (fault : RenderFault (LoadError ⊕ Empty))
deriving DecidableEq

namespace Failure

/-- The message. -/
def message : Failure → Text
  | noPath => Fault.noPath.message
  | load e => e.message
  | data e => e.message
  | write e => e.message
  | render fault => fault.message Stop.ofRender.describe

/-- How the command gives up. -/
def stop : Failure → Stop
  | noPath => .fault .noPath
  | load e => .ofLoad e
  | data e => .ofRead e
  | write e => .ofWrite e
  | render fault => .ofRender fault

end Failure

variable {o : Options} {fs fs' : Files} {stdin : Text} {path : Path} {data : Value}
  {answer : Except Failure Text} {notices : List Notice}

/-! ## Obtaining the data -/

/-- What can be wrong with the data. -/
inductive DataFails (o : Options) (fs : Files) (stdin : Text) : Failure → Prop
  | noPath (given : o.data = some .nothing) : DataFails o fs stdin .noPath
  | input {e : JsonValue.ReadError} (given : o.data = some (.text ['-']))
      (wrong : JsonValue.ofText stdin = .error e) : DataFails o fs stdin (.data e)
  | unread {p : Text} {e : LoadError} (given : o.data = some (.text p)) (named : p ≠ [char '-'])
      (wrong : fs.readText (.ofText p) .utf8 = .error e) : DataFails o fs stdin (.load e)
  | file {p s : Text} {e : JsonValue.ReadError} (given : o.data = some (.text p))
      (named : p ≠ [char '-']) (read : fs.readText (.ofText p) .utf8 = .ok s)
      (wrong : JsonValue.ofText s = .error e) : DataFails o fs stdin (.data e)

/-- What the data is given up for is one of these, -/
theorem exists_dataFails {stop : Stop} (h : obtainData o fs stdin = .error stop) :
    ∃ failure, DataFails o fs stdin failure := by
  unfold obtainData at h
  split at h
  · cases h
  · next given => exact ⟨_, .noPath given⟩
  · next given =>
    obtain ⟨e, wrong, _⟩ := error_of_mapError h
    exact ⟨_, .input given wrong⟩
  · next p named given =>
    split at h
    · next wrong => exact ⟨_, .unread given named wrong⟩
    · next s read =>
      obtain ⟨e, wrong, _⟩ := error_of_mapError h
      exact ⟨_, .file given named read wrong⟩

/-- and each of them is what it is given up for. -/
theorem obtainData_of_dataFails {failure : Failure} (h : DataFails o fs stdin failure) :
    obtainData o fs stdin = .error failure.stop := by
  cases h with
  | noPath given => simp only [obtainData, given, Failure.stop]
  | input given wrong => simp only [obtainData, given, wrong, Except.mapError, Failure.stop]
  | unread given named wrong => simp only [obtainData, given, wrong, Failure.stop]
  | file given named read wrong =>
    simp only [obtainData, given, read, wrong, Except.mapError, Failure.stop]

theorem exists_write_of_keepData {v : JsonValue} {stop : Stop}
    (h : keepData o fs v = (.error stop, fs')) :
    ∃ q e, o.dataOut = some q ∧ fs.writeText (.ofText q) v.write = (.error e, fs') := by
  unfold keepData at h
  split at h
  · cases h
  · next q asked =>
    obtain ⟨hwritten, hfiles⟩ := Prod.ext_iff.mp h
    obtain ⟨e, wrong, _⟩ := error_of_mapError hwritten
    exact ⟨q, e, asked, Prod.ext wrong hfiles⟩

/-! ## Rendering a file -/

/-- The store that the command begins with. -/
def storeOf (o : Options) (path : Path) : Store :=
  .empty (some (.ofFolder (partialsFolder o path)))

/-- A template rendered as the options say, when the missing names have been reported. -/
def renderingOf (o : Options) (path : Path) (fs : Files) (data : Value) (t : Template)
    (missing : List Text) (s : Store) : Rendering Store (LoadError ⊕ Empty) :=
  t.render (Store.host fs fun s => .ok (escapeOf o s)) data
    (missing.foldl (fun s name => s.note (.willBeEmpty name (partialsFolder o path))) s)

/-- What rendering a file comes to, with the notices of it. -/
inductive FileCourse (o : Options) (path : Path) (fs : Files) (data : Value) :
    Except Failure Text → List Notice → Prop
  | unread {e : LoadError} (wrong : fs.readText path .utf8 = .error e) :
      FileCourse o path fs data (.error (.load e)) []
  | unparsed {source : Text} {e : ParseError} {s : Store}
      (read : fs.readText path .utf8 = .ok source)
      (wrong : (storeOf o path).parse (unmarkedName path.name) source = (.error e, s)) :
      FileCourse o path fs data (.error (.load (.parse e))) s.notices
  | unloaded {source : Text} {t : Template} {e : LoadError} {s s' : Store}
      (read : fs.readText path .utf8 = .ok source)
      (parsed : (storeOf o path).parse (unmarkedName path.name) source = (.ok t, s))
      (wrong : s.loadAll fs t = (.error e, s')) :
      FileCourse o path fs data (.error (.load e)) s'.notices
  | rendered {source : Text} {t : Template} {missing : List Text} {s s' : Store}
      (read : fs.readText path .utf8 = .ok source)
      (parsed : (storeOf o path).parse (unmarkedName path.name) source = (.ok t, s))
      (loaded : s.loadAll fs t = (.ok missing, s')) :
      FileCourse o path fs data
        ((renderingOf o path fs data t missing s').result.mapError .render)
        (renderingOf o path fs data t missing s').host.notices

/-- Rendering a file takes one of these courses, -/
theorem exists_fileCourse (o : Options) (path : Path) (fs : Files) (data : Value) :
    ∃ answer notices, FileCourse o path fs data answer notices := by
  cases hread : fs.readText path .utf8 with
  | error e => exact ⟨_, _, .unread hread⟩
  | ok source =>
    rcases hparse : (storeOf o path).parse (unmarkedName path.name) source with ⟨_ | t, s⟩
    · exact ⟨_, _, .unparsed hread hparse⟩
    · rcases hload : s.loadAll fs t with ⟨_ | missing, s'⟩
      · exact ⟨_, _, .unloaded hread hparse hload⟩
      · exact ⟨_, _, .rendered hread hparse hload⟩

/-- and gives what the course comes to. -/
theorem renderFile_of_fileCourse (h : FileCourse o path fs data answer notices) :
    renderFile o path fs data = (answer.mapError Failure.stop, notices) := by
  cases h with
  | unread wrong => simp only [renderFile, wrong, Except.mapError, Failure.stop]
  | unparsed read wrong =>
    rw [storeOf] at wrong
    simp only [renderFile, read, wrong, Except.mapError, Failure.stop, Stop.ofLoad]
  | unloaded read parsed wrong =>
    rw [storeOf] at parsed
    simp only [renderFile, read, parsed, wrong, Except.mapError, Failure.stop]
  | @rendered source t missing s s' read parsed loaded =>
    rw [storeOf] at parsed
    simp only [renderFile, read, parsed, loaded]
    change ((renderingOf o path fs data t missing s').result.mapError _, _) = _
    cases (renderingOf o path fs data t missing s').result <;> rfl

/-! ## The whole run -/

/-- A render that is given up does not end well. -/
theorem ending_stopped_ne (stop : Stop) (reported : Text) (fs : Files) :
    (stopped stop reported fs).ending ≠ .ok 0 := by
  cases stop <;> simp [stopped]

/-- How the text of a render is written: to the standard output or to a file, if it can be. -/
inductive Finish (o : Options) (text reported : Text) (fs : Files) : Outcome → Prop
  | shown {bytes : List UInt8} (given : o.output = none)
      (encoded : Encoding.encodeUtf8 text = .ok bytes) :
      Finish o text reported fs ⟨.ok 0, text, reported, fs⟩
  | notShown {fault : EncodeFault} (given : o.output = none)
      (wrong : Encoding.encodeUtf8 text = .error fault) :
      Finish o text reported fs ⟨.error (.unencodable fault), [], reported, fs⟩
  | written {q : Text} {fs' : Files} (given : o.output = some q)
      (written : fs.writeText (.ofText q) text = (.ok (), fs')) :
      Finish o text reported fs ⟨.ok 0, [],
        reported ++ "Wrote: ".toText ++ (Path.ofText q).toText ++ [char '\n'], fs'⟩
  | notWritten {q : Text} {e : WriteError} {fs' : Files} (given : o.output = some q)
      (wrong : fs.writeText (.ofText q) text = (.error e, fs')) :
      Finish o text reported fs ⟨.error (.ofWrite e), [], reported, fs'⟩

/-- It is written in one of these ways. -/
theorem finish_finishes (o : Options) (text reported : Text) (fs : Files) :
    Finish o text reported fs (finish o text reported fs) := by
  cases given : o.output with
  | none =>
    cases hencode : Encoding.encodeUtf8 text with
    | error fault => simpa only [finish, given, hencode] using .notShown given hencode
    | ok bytes => simpa only [finish, given, hencode] using .shown given hencode
  | some q =>
    rcases hwrite : fs.writeText (.ofText q) text with ⟨e | _, fs'⟩
    · simpa only [finish, given, hwrite] using .notWritten given hwrite
    · simpa only [finish, given, hwrite] using .written given hwrite

/-- What a run comes to with its template at a path, with the notices of it and the files when the
data has been written. -/
inductive PathCourse (o : Options) (path : Path) (fs : Files) (stdin : Text) :
    Except Failure Text → List Notice → Files → Prop
  | noData {failure : Failure} (wrong : DataFails o fs stdin failure) :
      PathCourse o path fs stdin (.error failure) [] fs
  | notKept {v : JsonValue} {q : Text} {e : WriteError} {fs' : Files}
      (obtained : obtainData o fs stdin = .ok v) (asked : o.dataOut = some q)
      (wrong : fs.writeText (.ofText q) v.write = (.error e, fs')) :
      PathCourse o path fs stdin (.error (.write e)) [] fs'
  | file {v : JsonValue} {fs' : Files} {answer : Except Failure Text} {notices : List Notice}
      (obtained : obtainData o fs stdin = .ok v) (kept : keepData o fs v = (.ok (), fs'))
      (file : FileCourse o path fs' v.toValue answer notices) :
      PathCourse o path fs stdin answer notices fs'

/-- What a run comes to, with the notices of it and the files when the data has been written. What
is left to do is to write the text, if it comes to one. -/
inductive Course (o : Options) (fs : Files) (stdin : Text) :
    Except Failure Text → List Notice → Files → Prop
  | noPath (given : o.template = .nothing) : Course o fs stdin (.error .noPath) [] fs
  | path {p : Text} {answer : Except Failure Text} {notices : List Notice} {fs' : Files}
      (given : o.template = .text p)
      (course : PathCourse o (.ofText p) fs stdin answer notices fs') :
      Course o fs stdin answer notices fs'

/-- The outcome of a run that has come so far. -/
def outcomeOf (o : Options) (answer : Except Failure Text) (notices : List Notice) (fs : Files) :
    Outcome :=
  match answer with
  | .error failure => stopped failure.stop (report o notices) fs
  | .ok text => finish o text (report o notices) fs

theorem report_nil (o : Options) : report o [] = [] := rfl

theorem exists_pathCourse (o : Options) (path : Path) (fs : Files) (stdin : Text) :
    ∃ answer notices fs', PathCourse o path fs stdin answer notices fs' := by
  cases hdata : obtainData o fs stdin with
  | error stop =>
    obtain ⟨failure, wrong⟩ := exists_dataFails hdata
    exact ⟨_, _, _, .noData wrong⟩
  | ok v =>
    rcases hkeep : keepData o fs v with ⟨stop | _, fs'⟩
    · obtain ⟨q, e, asked, wrong⟩ := exists_write_of_keepData hkeep
      exact ⟨_, _, _, .notKept hdata asked wrong⟩
    · obtain ⟨answer, notices, hfile⟩ := exists_fileCourse o path fs' v.toValue
      exact ⟨_, _, _, .file hdata hkeep hfile⟩

/-- **Every run takes a course.** -/
theorem exists_course (o : Options) (fs : Files) (stdin : Text) :
    ∃ answer notices fs', Course o fs stdin answer notices fs' := by
  cases htemplate : o.template with
  | nothing => exact ⟨_, _, _, .noPath htemplate⟩
  | text p =>
    obtain ⟨answer, notices, fs', h⟩ := exists_pathCourse o (.ofText p) fs stdin
    exact ⟨answer, notices, fs', .path htemplate h⟩

theorem renderAt_of_pathCourse (h : PathCourse o path fs stdin answer notices fs') :
    renderAt o path fs stdin = outcomeOf o answer notices fs' := by
  cases h with
  | noData wrong => simp only [renderAt, obtainData_of_dataFails wrong, outcomeOf, report_nil]
  | notKept obtained asked wrong =>
    simp only [renderAt, obtained, keepData, asked, wrong, Except.mapError, outcomeOf, report_nil,
      Failure.stop]
  | file obtained kept file =>
    simp only [renderAt, obtained, kept, renderFile_of_fileCourse file, outcomeOf]
    cases answer <;> rfl

/-- **What the command does** is told by the course that its run takes. -/
theorem run_of_course {arguments : List Text} (hrequest : Request.ofArguments arguments = .render o)
    (h : Course o fs stdin answer notices fs') :
    run arguments fs stdin = outcomeOf o answer notices fs' := by
  simp only [run, hrequest]
  cases h with
  | noPath given => simp only [render, given, outcomeOf, report_nil, Failure.stop]
  | path given course => simp only [render, given, renderAt_of_pathCourse course]

end Mustache.Command
