import Mustache.Template.Flaw
import Mustache.Token.OwnLine

/-!
# The tokens of a template

A template is read with one pair of delimiters until a set-delimiter tag; from there on, past the
line the tag owns, it is read with the pair that the tag names. `Stream.ofSource` puts the pieces
together: all tokens of a template, whatever delimiters each part is written with.

## Termination

Every set-delimiter tag ends after the offset where its part began, and reading goes on no earlier
than that, so less of the source is left.
-/

namespace Mustache

/-- The tokens of a template as far as they can be read, and what stops the reading if something
does. -/
structure Stream where
  tokens : List Token
  flaw : Option Flaw
deriving DecidableEq, Repr

namespace Scan

/-- The flaw of a scan that ends at an unclosed tag. -/
def flaw? (scan : Scan) : Option Flaw :=
  match scan.ending with
  | .finished _ => none
  | .unclosed gap excerpt closing => some ⟨.unclosedTag excerpt closing, gap.stop⟩

/-- The tokens of a scan with its flaw. -/
def toStream (scan : Scan) : Stream := ⟨scan.tokens, scan.flaw?⟩

/-- The segments before the first set-delimiter tag. -/
def beforeSwitch (scan : Scan) : List (Run × Tag) :=
  scan.segments.takeWhile fun (_, tag) => tag.kind ≠ .delimiters

/-- The segments from the first set-delimiter tag on. -/
def fromSwitch (scan : Scan) : List (Run × Tag) :=
  scan.segments.dropWhile fun (_, tag) => tag.kind ≠ .delimiters

theorem mem_of_mem_fromSwitch {scan : Scan} {segment : Run × Tag}
    (h : segment ∈ scan.fromSwitch) : segment ∈ scan.segments :=
  (List.dropWhile_sublist _).mem h

end Scan

namespace Stream

/-- The tokens of a source from an offset on, the first of them written with the pair `d`. -/
def ofSource (source : Text) (d : Delimiters) (start : Nat) : Stream :=
  let scan := Scan.ofSource source d start
  match _h : scan.fromSwitch with
  | [] => (scan.withoutOwnLines source).toStream
  | (gap, tag) :: _ =>
    let segments := scan.beforeSwitch ++ [(gap, tag)]
    let tokens := (Scan.elideLines source 0 segments).flatMap Scan.segmentTokens
    match Delimiters.ofBody tag.name with
    | .error fault => ⟨tokens, some ⟨.badDelimiters fault, tag.start⟩⟩
    | .ok d =>
      let rest := ofSource source d (tag.onLine source).next
      ⟨tokens ++ rest.tokens, rest.flaw⟩
termination_by source.length - start
decreasing_by
  have h₁ := Scan.stop_of_mem (Scan.mem_of_mem_fromSwitch (_h ▸ List.mem_cons_self))
  have h₂ := tag.stop_le_next_onLine source
  omega

end Stream
end Mustache
