import Mustache.Token.Scan

/-!
# Tags on lines of their own

A tag other than an interpolated value may be all that its line holds, spaces and tabs apart. Such a
tag takes the whole line with it: the padding before it and the line end after it are left out of
the text. A carriage return before the line feed belongs to the line end.

## Main statements

* `OwnLine.stop_le_resume` — the next line begins at or after the end of the tag.
-/

namespace Mustache

open Text

namespace OwnLine

/-- The text of a line up to its end, without the carriage return of a line end. -/
def trailing (rest : Text) : Text :=
  match firstLine rest with
  | (line, some _) => if line.getLast? = some (char '\r') then line.dropLast else line
  | (line, none) => line

/-- How many characters are left of a line, its line feed included. -/
def lengthToNext (rest : Text) : Nat :=
  match firstLine rest with
  | (line, some _) => line.length + 1
  | (line, none) => line.length

/-- The line that a tag has to itself, if it does. -/
def of? (source : Text) (tag : Tag) : Option OwnLine :=
  let padding := lastLine (source.take tag.start)
  let rest := source.drop tag.stop
  if tag.kind.ownsLine ∧ isPadding padding ∧ isPadding (trailing rest) then
    some ⟨tag.start - padding.length, padding, tag.stop + lengthToNext rest⟩
  else none

theorem stop_le_resume {source : Text} {tag : Tag} {line : OwnLine}
    (h : of? source tag = some line) : tag.stop ≤ line.resume := by
  simp only [of?] at h
  split at h
  · cases h
    exact Nat.le_add_right _ _
  · cases h

end OwnLine

/-- The tag with its line, if it has one to itself. -/
def Tag.onLine (source : Text) (tag : Tag) : Tag := { tag with ownLine := OwnLine.of? source tag }

theorem Tag.stop_le_next_onLine (source : Text) (tag : Tag) :
    tag.stop ≤ (tag.onLine source).next :=
  stop_le_next (t := tag.onLine source) fun _ h => OwnLine.stop_le_resume h

/-- The text before a tag without the padding of the tag's own line. -/
def Run.beforeTag (tag : Tag) (r : Run) : Run :=
  match tag.ownLine with
  | some line => r.before line.lineStart
  | none => r

namespace Scan

/-- The segments with each tag's line looked for, and the lines that tags own taken out of the text.
`resume` is where the line before ends, when a tag owns it. -/
def elideLines (source : Text) : Nat → List (Run × Tag) → List (Run × Tag)
  | _, [] => []
  | resume, (gap, tag) :: segments =>
    let tag := tag.onLine source
    (Run.beforeTag tag (gap.after resume), tag) :: elideLines source tag.next segments

/-- Where reading goes on after the last of some segments. -/
def resumeAfter (source : Text) (resume : Nat) (segments : List (Run × Tag)) : Nat :=
  match segments.getLast? with
  | some (_, tag) => (tag.onLine source).next
  | none => resume

/-- The scan with each tag's line looked for, and the lines that tags own taken out of the text.
Text before an unclosed tag is not kept: nothing can come of it. -/
def withoutOwnLines (source : Text) (scan : Scan) : Scan where
  segments := elideLines source 0 scan.segments
  ending :=
    match scan.ending with
    | .finished last => .finished (last.after (resumeAfter source 0 scan.segments))
    | .unclosed gap excerpt closing => .unclosed ⟨[], gap.stop⟩ excerpt closing

end Scan
end Mustache
