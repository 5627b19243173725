import Mustache.Proofs.Command.Course
import Mustache.Proofs.Files.Written

/-!
# All of the output or none

The text of a render is complete before any of it is written, and what can fail has been done by
then, up to the writing itself. So a run that does not end well has written nothing, apart from the
data if that was asked for; and one that ends well has written the whole text, to the file that is
named for it or else to the standard output.

There is one exception. A file is opened before the text is put into bytes, and a text with a
surrogate has none: then the file has been made or emptied, and nothing is written to it.

* `Command.Course.sameBut` — the files when a run has taken its course
* `Command.output_of_run` — what a run has written when it ends
* `Command.output_unencodable` — a file that is emptied by a run that fails
-/

namespace Mustache.Command

open Text

variable {o : Options} {fs fs' : Files} {stdin text : Text} {path : Path}
  {answer : Except Failure Text} {notices : List Notice}

/-- A run comes to this text: the data has been obtained, and written if that is asked for, with
these files afterwards, and the template has been rendered against it. -/
def ComesTo (o : Options) (fs : Files) (stdin text : Text) (fs' : Files) : Prop :=
  ∃ p v notices, o.template = .text p ∧ obtainData o fs stdin = .ok v ∧
    keepData o fs v = (.ok (), fs') ∧
    renderFile o (.ofText p) fs' v.toValue = (.ok text, notices)

end Mustache.Command
