import Mustache.Text.Blank
import Mustache.Text.Quoted

/-!
# Delimiters

The pair of markers that tags are written between. A marker is not empty and holds neither a blank
nor an equals sign; both facts are fields of the pair, so whoever has a pair has them too. A
set-delimiter tag names the next pair in its body, the two markers apart and an equals sign at the
end.

## Main statements

* `isOk_make_iff` — two texts make a pair exactly when both may serve as markers.
-/

namespace Mustache

open Text

/-- May the text mark the beginning or the end of a tag? -/
def IsMarker (s : Text) : Prop := s ≠ [] ∧ ∀ c ∈ s, isBlank c = false ∧ c ≠ '='

instance (s : Text) : Decidable (IsMarker s) :=
  decidable_of_iff (s ≠ [] ∧ s.all (fun c => !isBlank c && c != '=') = true) (by simp [IsMarker])

/-- The markers that tags are written between. -/
structure Delimiters where
  opening : Text
  closing : Text
  isMarker_opening : IsMarker opening
  isMarker_closing : IsMarker closing
deriving DecidableEq

namespace Delimiters

/-- The pair in force when nothing else is said: two braces on either side. -/
def standard : Delimiters := ⟨['{', '{'], ['}', '}'], by decide, by decide⟩

instance : Inhabited Delimiters := ⟨standard⟩

/-! ## Making a pair -/

/-- Why there is no pair. -/
inductive Fault where
  /-- A marker is empty or holds a blank. -/
  | blank (marker : Text)
  /-- A marker holds an equals sign. -/
  | equals (marker : Text)
  /-- The body of a tag does not end with an equals sign. -/
  | noFinalEquals
  /-- The body of a tag, without its equals sign, is not two words. -/
  | notTwoWords (inner : Text)
deriving DecidableEq, Repr

/-- The words for it in a message. -/
def Fault.message : Fault → Text
  | .blank marker =>
    "Delimiters must be non-empty and whitespace-free, got ".toText ++ quoted marker
  | .equals marker => "Delimiters must not contain '=', got ".toText ++ quoted marker
  | .noFinalEquals => "Set-delimiter tag must end with '='".toText
  | .notTwoWords inner =>
    "Expected two delimiters separated by whitespace, got ".toText ++ quoted inner

/-- What keeps a text from being a marker. -/
def markerFault (s : Text) : Fault :=
  if s = [] ∨ s.any isBlank then .blank s else .equals s

/-- The pair of two markers; the opening one is looked at first. -/
def make (opening closing : Text) : Except Fault Delimiters :=
  if ho : IsMarker opening then
    if hc : IsMarker closing then .ok ⟨opening, closing, ho, hc⟩
    else .error (markerFault closing)
  else .error (markerFault opening)

theorem isOk_make_iff {opening closing : Text} :
    (∃ d, make opening closing = .ok d) ↔ IsMarker opening ∧ IsMarker closing := by
  by_cases ho : IsMarker opening <;> by_cases hc : IsMarker closing <;> simp [make, ho, hc]

/-- The pair that the body of a set-delimiter tag names. -/
def ofBody (body : Text) : Except Fault Delimiters :=
  let named := trim body
  if named.getLast? = some (char '=') then
    match words named.dropLast with
    | [opening, closing] => make opening closing
    | _ => .error (.notTwoWords (trim named.dropLast))
  else .error .noFinalEquals

end Delimiters
end Mustache
