import Mustache.Text.Basic

/-!
# The sink of a render

What has been written so far, and whether a line begins there. Only text of a template begins lines:
a line feed inside an interpolated value does not, so values are never indented in the middle.

## Main statements

* `toText_put`, `toText_writeValue` — what writing adds to the output;
* `toText_writeText_nil` — without an indentation, text is written as it is.
-/

namespace Mustache

/-- The output of a render so far. -/
structure Sink where
  /-- What has been written, the latest first. -/
  written : List Text
  /-- Does a line begin here? -/
  lineBegins : Bool
deriving DecidableEq, Repr

namespace Sink

open Text

/-- Nothing written: a line begins. -/
def empty : Sink := ⟨[], true⟩

/-- The whole output. -/
def toText (o : Sink) : Text := o.written.reverse.flatten

/-- With some text of a template. -/
def put (s : Text) (o : Sink) : Sink := ⟨s :: o.written, s.getLast? = some (char '\n')⟩

/-- With the indentation of a line, if a line begins. -/
def writeIndentation (indentation : Text) (o : Sink) : Sink :=
  if indentation ≠ [] ∧ o.lineBegins then ⟨indentation :: o.written, false⟩ else o

/-- With text of a template, each of whose lines is indented. -/
def writeText (indentation s : Text) (o : Sink) : Sink :=
  if s = [] then o
  else if indentation = [] then o.put s
  else (lines s).foldl (fun o line => (o.writeIndentation indentation).put line) o

/-- With the text of a value. -/
def writeValue (s : Text) (o : Sink) : Sink := if s = [] then o else ⟨s :: o.written, false⟩

/-- With a line begun, whatever has been written. -/
def startLine (o : Sink) : Sink := { o with lineBegins := true }

theorem toText_put (s : Text) (o : Sink) : (o.put s).toText = o.toText ++ s := by
  simp [put, toText]

theorem toText_writeValue (s : Text) (o : Sink) : (o.writeValue s).toText = o.toText ++ s := by
  by_cases h : s = [] <;> simp [writeValue, toText, h]

theorem toText_writeText_nil (s : Text) (o : Sink) : (o.writeText [] s).toText = o.toText ++ s := by
  by_cases h : s = []
  · simp [writeText, h]
  · simp [writeText, h, toText_put]

end Sink
end Mustache
