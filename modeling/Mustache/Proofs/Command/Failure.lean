import Mustache.Proofs.Command.Course

/-!
# Failures that are expected

That a path cannot be used, that a template is wrong or that the data is not JSON is something to
expect of what the command is given. Wherever on its course a run fails in such a way, and however
deep in what the template includes, it ends with one message and the status two. What leaves the
command without a status has another cause, with a single exception: the output is written when
the course is over, and if its path cannot be used the run ends with a fault.

* `Command.ending_of_course` — how runs end that fail
* `Command.ending_unwritable` — a path for the output that cannot be used
-/

namespace Mustache

open Text

/-! ## What is expected -/

/-- Is it a path that cannot be used, and not a text that cannot be a path? -/
def AccessError.isExpected (e : AccessError) : Bool :=
  match e.fault with
  | .zeroCharacter | .unencodable _ => false
  | .notFound | .isFolder | .notFolder | .nameTooLong => true

/-- Is it such a path, and not a text that cannot be written? -/
def WriteError.isExpected : WriteError → Bool
  | .access e => e.isExpected
  | .unencodable _ => false

/-- Is it such a path, or a template that is wrong? -/
def LoadError.isExpected : LoadError → Bool
  | .access e => e.isExpected
  | .undecodable _ => false
  | .parse _ => true

/-- Is it a text that is not JSON? -/
def JsonValue.ReadError.isExpected : JsonValue.ReadError → Bool
  | .fault .. => true
  | .tooManyDigits _ => false

/-- Is it a call of the render that has failed? -/
def RenderFault.isExpected {ε : Type} : RenderFault ε → Bool
  | .escape .. | .find .. => true
  | .undecodable _ | .tooDeep => false

namespace Command

namespace Failure

/-- Is the failure one to be expected: of the access to a file, of a template or its render, or of
data that should be JSON? -/
def isExpected : Failure → Bool
  | noPath => false
  | load e => e.isExpected
  | data e => e.isExpected
  | write e => e.isExpected
  | render fault => fault.isExpected

theorem ofAccess_cases (e : AccessError) :
    e.isExpected = true ∧ Stop.ofAccess e = .message e.message ∨
    e.isExpected = false ∧ ∃ fault, Stop.ofAccess e = .fault fault ∧ fault.message = e.message := by
  obtain ⟨fault, p⟩ := e
  cases fault with
  | zeroCharacter | unencodable => exact .inr ⟨rfl, _, rfl, rfl⟩
  | notFound | isFolder | notFolder | nameTooLong => exact .inl ⟨rfl, rfl⟩

/-- **An expected failure is worth a message**, and one that is not is a fault with the same
message. -/
theorem stop_cases (failure : Failure) :
    failure.isExpected = true ∧ failure.stop = .message failure.message ∨
    failure.isExpected = false ∧
      ∃ fault, failure.stop = .fault fault ∧ fault.message = failure.message := by
  cases failure with
  | noPath => exact .inr ⟨rfl, .noPath, rfl, rfl⟩
  | load e =>
    cases e with
    | access e => exact ofAccess_cases e
    | undecodable fault => exact .inr ⟨rfl, .undecodable fault, rfl, rfl⟩
    | parse e => exact .inl ⟨rfl, rfl⟩
  | data e =>
    cases e with
    | fault kind place => exact .inl ⟨rfl, rfl⟩
    | tooManyDigits count => exact .inr ⟨rfl, .data (.tooManyDigits count), rfl, rfl⟩
  | write e =>
    cases e with
    | access e => exact ofAccess_cases e
    | unencodable fault => exact .inr ⟨rfl, .unencodable fault, rfl, rfl⟩
  | render fault =>
    cases fault with
    | escape name cause => exact .inl ⟨rfl, rfl⟩
    | find name cause => exact .inl ⟨rfl, rfl⟩
    | undecodable fault => exact .inr ⟨rfl, .undecodable fault, rfl, rfl⟩
    | tooDeep => exact .inr ⟨rfl, .tooDeep, rfl, rfl⟩

end Failure

/-! ## How runs end -/

variable {o : Options} {fs : Files} {notices : List Notice} {fault : Fault}

/-- A run that fails ends with a message and the status two, or with a fault. -/
theorem outcomeOf_error_cases (o : Options) (failure : Failure) (notices : List Notice)
    (fs : Files) :
    failure.isExpected = true ∧ outcomeOf o (.error failure) notices fs =
      ⟨.ok 2, [], report o notices ++ trimEnd failure.message ++ [char '\n'], fs⟩ ∨
    failure.isExpected = false ∧ ∃ fault, fault.message = failure.message ∧
      outcomeOf o (.error failure) notices fs = ⟨.error fault, [], report o notices, fs⟩ := by
  rcases failure.stop_cases with ⟨hexpected, hstop⟩ | ⟨hexpected, fault, hstop, hmessage⟩
  · exact .inl ⟨hexpected, by rw [outcomeOf, hstop, stopped]⟩
  · exact .inr ⟨hexpected, fault, hmessage, by rw [outcomeOf, hstop, stopped]⟩

/-- The text of a render cannot be written, and this fault comes of it: it cannot be put into bytes,
or it is to go to a file and cannot be written there. -/
inductive Unwritable (o : Options) (fs : Files) (text : Text) : Fault → Prop
  | stdout {cause : EncodeFault} (given : o.output = none)
      (wrong : Encoding.encodeUtf8 text = .error cause) :
      Unwritable o fs text (.unencodable cause)
  | file {q : Text} {e : WriteError} {fs' : Files} (given : o.output = some q)
      (wrong : fs.writeText (.ofText q) text = (.error e, fs')) :
      Unwritable o fs text (.ofWrite e)

/-- What ends a run without a status: a failure that is not expected, or an output that cannot be
written. -/
theorem outcomeOf_fault_cases {answer : Except Failure Text}
    (h : (outcomeOf o answer notices fs).ending = .error fault) :
    (∃ failure, answer = .error failure ∧ failure.isExpected = false ∧
      fault.message = failure.message) ∨
    ∃ text, answer = .ok text ∧ Unwritable o fs text fault := by
  cases answer with
  | error failure =>
    left
    rcases outcomeOf_error_cases o failure notices fs with
      ⟨_, houtcome⟩ | ⟨hexpected, fault', hmessage, houtcome⟩
    · rw [houtcome] at h
      cases h
    · rw [houtcome] at h
      cases h
      exact ⟨failure, rfl, hexpected, hmessage⟩
  | ok text =>
    refine .inr ⟨text, rfl, ?_⟩
    have hfinish := finish_finishes o text (report o notices) fs
    simp only [outcomeOf] at h
    generalize finish o text (report o notices) fs = outcome at h hfinish
    cases hfinish with
    | shown | written => cases h
    | notShown given wrong =>
      cases h
      exact .stdout given wrong
    | notWritten given wrong =>
      cases h
      exact .file given wrong

/-- **Expected failures end with a message.** Whatever the arguments of a render, the files and the
input: first, a run that fails in a way to be expected, at any part of its course, ends with the
status two and one message, after the notices that are to be shown. Second, a run that ends without
a status has failed in another way, or its output could not be written. -/
theorem ending_of_course :
    ∀ arguments fs stdin o, Request.ofArguments arguments = .render o →
      (∀ failure notices fs', Course o fs stdin (.error failure) notices fs' →
        failure.isExpected = true →
        (run arguments fs stdin).ending = .ok 2 ∧ (run arguments fs stdin).stdout = [] ∧
          (run arguments fs stdin).stderr =
            report o notices ++ trimEnd failure.message ++ [char '\n']) ∧
      ∀ fault, (run arguments fs stdin).ending = .error fault →
        (∃ failure notices fs', Course o fs stdin (.error failure) notices fs' ∧
          failure.isExpected = false ∧ fault.message = failure.message) ∨
        ∃ text notices fs', Course o fs stdin (.ok text) notices fs' ∧
          Unwritable o fs' text fault := by
  intro arguments fs stdin o hrequest
  constructor
  · intro failure notices fs' hcourse hexpected
    rw [run_of_course hrequest hcourse]
    rcases outcomeOf_error_cases o failure notices fs' with ⟨_, houtcome⟩ | ⟨hnot, _⟩
    · rw [houtcome]
      exact ⟨rfl, rfl, rfl⟩
    · rw [hexpected] at hnot
      cases hnot
  · intro fault hending
    obtain ⟨answer, notices, fs', hcourse⟩ := exists_course o fs stdin
    rw [run_of_course hrequest hcourse] at hending
    rcases outcomeOf_fault_cases hending with
      ⟨failure, rfl, hexpected, hmessage⟩ | ⟨text, rfl, hunwritable⟩
    · exact .inl ⟨failure, notices, fs', hcourse, hexpected, hmessage⟩
    · exact .inr ⟨text, notices, fs', hcourse, hunwritable⟩

/-- A page that includes a flawed template, and a template without flaw. -/
def flawedFiles : Files :=
  ⟨[(["page.mustache".toText], .file (Encoding.bytesOf "\x7b\x7b>part\x7d\x7d".toText)),
    (["part.mustache".toText], .file (Encoding.bytesOf "\x7b\x7b/x\x7d\x7d".toText)),
    (["t.mustache".toText], .file (Encoding.bytesOf ['x']))], []⟩

/-- The arguments to render the page. -/
def flawedArguments : List Text := ["--template", "page.mustache"].map String.toText

/-- What they stand for. -/
def flawedOptions : Options :=
  ⟨.text "page.mustache".toText, none, none, none, false, none, false⟩

/-- The page as it is parsed. -/
def partPage : Template := ⟨"page".toText, [.inclusion "part".toText [] true]⟩

/-- What is wrong with the template that it includes. -/
def strayClosing : ParseError := ⟨.strayClose ['x'] none, ⟨0, 1, 1⟩, some "part".toText⟩

theorem ending_of_course_flawed :
    Request.ofArguments flawedArguments = .render flawedOptions ∧
    (∃ failure notices fs', Course flawedOptions flawedFiles [] (.error failure) notices fs' ∧
      failure.isExpected = true ∧ (run flawedArguments flawedFiles []).ending = .ok 2 ∧
      (run flawedArguments flawedFiles []).stderr =
        report flawedOptions notices ++ trimEnd failure.message ++ [char '\n']) ∧
    (run flawedArguments flawedFiles []).stderr =
      "Closing tag for unopened section 'x' at part:1:1\n".toText := by
  have hrequest : Request.ofArguments flawedArguments = .render flawedOptions := by decide +kernel
  have hread : flawedFiles.readText (.ofText "page.mustache".toText) .utf8 =
      .ok "\x7b\x7b>part\x7d\x7d".toText := by decide +kernel
  have hparse : ((storeOf flawedOptions (.ofText "page.mustache".toText)).parse "page".toText
      "\x7b\x7b>part\x7d\x7d".toText).1 = .ok partPage := by decide +kernel
  have hload : (((storeOf flawedOptions (.ofText "page.mustache".toText)).parse "page".toText
      "\x7b\x7b>part\x7d\x7d".toText).2.loadAll flawedFiles partPage).1 =
        .error (.parse strayClosing) := by decide +kernel
  have hcourse : Course flawedOptions flawedFiles [] (.error (.load (.parse strayClosing))) _ _ :=
    .path rfl (.file rfl rfl (.unloaded hread (Prod.ext hparse rfl) (Prod.ext hload rfl)))
  obtain ⟨hending, _, hstderr⟩ :=
    (ending_of_course flawedArguments flawedFiles [] flawedOptions hrequest).1 _ _ _ hcourse rfl
  exact ⟨hrequest, ⟨_, _, _, hcourse, rfl, hending, hstderr⟩, by decide +kernel⟩

/-- The arguments to render the other template into a folder that is not there. -/
def unwritableArguments : List Text :=
  ["--template", "t.mustache", "--output", "no/such/out"].map String.toText

/-- What they stand for. -/
def unwritableOptions : Options :=
  ⟨.text "t.mustache".toText, none, some "no/such/out".toText, none, false, none, false⟩

/-- What is wrong with the folder. -/
def noFolder : AccessError := ⟨.notFound, .ofText "no/such/out".toText⟩

/-- **A path for the output that cannot be used** is a failure to be expected, and yet the run ends
without a status and without a message. -/
theorem ending_unwritable :
    Request.ofArguments unwritableArguments = .render unwritableOptions ∧
    (renderFile unwritableOptions (.ofText "t.mustache".toText) flawedFiles
      (JsonValue.object []).toValue).1 = .ok ['x'] ∧
    flawedFiles.writeText (.ofText "no/such/out".toText) ['x'] =
      (.error (.access noFolder), flawedFiles) ∧
    noFolder.isExpected = true ∧
    (run unwritableArguments flawedFiles []).ending = .error (.access noFolder) ∧
    (run unwritableArguments flawedFiles []).stderr = [] := by
  refine ⟨?_, ?_, ?_, rfl, ?_, ?_⟩ <;> decide +kernel

end Command
end Mustache
