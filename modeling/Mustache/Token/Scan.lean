import Mustache.Delimiters
import Mustache.Token.Basic

/-!
# Scanning

A scan divides a source into the tags written with one pair of delimiters and the text before each
of them. Three braces are delimiters whatever the pair is; where both begin at one offset, the
three braces win. The scan ends with the text after the last tag, or at a tag that is never closed.

## Main statements

* `eq_of_opening?` — the text found before an opening, the opening and what follows are the text;
* `Scan.stop_of_mem` — a tag ends after the offset where the scan began.

## Termination

Every step finds an opening and a closing marker, neither of them empty, so less text is left.
-/

namespace Mustache

open Text

/-! ## Enclosures -/

/-- What a tag is written between: the delimiters in force, or three braces on either side. -/
inductive Enclosure where
  | active
  | triple
deriving DecidableEq, Repr

namespace Enclosure

/-- The marker at the beginning. -/
def opening (d : Delimiters) : Enclosure → Text
  | active => d.opening
  | triple => [char '{', '{', '{']

/-- The marker at the end. -/
def closing (d : Delimiters) : Enclosure → Text
  | active => d.closing
  | triple => [char '}', '}', '}']

theorem opening_ne_nil (d : Delimiters) (e : Enclosure) : e.opening d ≠ [] := by
  cases e with
  | active => exact d.isMarker_opening.1
  | triple => simp [opening]

theorem closing_ne_nil (d : Delimiters) (e : Enclosure) : e.closing d ≠ [] := by
  cases e with
  | active => exact d.isMarker_closing.1
  | triple => simp [closing]

end Enclosure

/-- The first opening of a tag: the text before it, what the tag is written between, and the text
after the opening marker. -/
def opening? (d : Delimiters) : Text → Option (Text × Enclosure × Text)
  | [] => none
  | c :: s =>
    match strip? (Enclosure.triple.opening d) (c :: s) with
    | some rest => some ([], .triple, rest)
    | none =>
      match strip? (Enclosure.active.opening d) (c :: s) with
      | some rest => some ([], .active, rest)
      | none => (opening? d s).map fun (gap, e, rest) => (c :: gap, e, rest)

theorem eq_of_opening? {d : Delimiters} {s gap rest : Text} {e : Enclosure}
    (h : opening? d s = some (gap, e, rest)) : s = gap ++ e.opening d ++ rest := by
  induction s generalizing gap with
  | nil => simp [opening?] at h
  | cons c s ih =>
    rw [opening?] at h
    split at h
    · next r hr =>
      cases h
      simpa using strip?_eq_some_iff.1 hr
    · split at h
      · next r hr =>
        cases h
        simpa using strip?_eq_some_iff.1 hr
      · obtain ⟨⟨g, e', r⟩, hg, he⟩ := Option.map_eq_some_iff.1 h
        cases he
        simp [ih hg]

theorem length_of_opening? {d : Delimiters} {s gap rest : Text} {e : Enclosure}
    (h : opening? d s = some (gap, e, rest)) :
    s.length = gap.length + (e.opening d).length + rest.length := by
  simp [eq_of_opening? h, Nat.add_assoc]

/-! ## What a tag is for -/

/-- The kind and the name of a tag with this content. -/
def kindAndName (e : Enclosure) (content : Text) : TagKind × Text :=
  match e, content with
  | .triple, content => (.interpolateRaw, content)
  | .active, [] => (.interpolate, [])
  | .active, c :: name =>
    match TagKind.ofSigil? c with
    | none => (.interpolate, c :: name)
    | some .delimiters => (.delimiters, name)
    | some kind =>
      if c = '{' ∧ name.getLast? = some (char '}') then (kind, trim name.dropLast)
      else (kind, trim name)

/-- The tag that begins at `start` and has this body between its markers. -/
def tagOf (d : Delimiters) (e : Enclosure) (start : Nat) (body : Text) : Tag where
  kind := (kindAndName e (trim body)).1
  content := trim body
  name := (kindAndName e (trim body)).2
  start := start
  stop := start + (e.opening d).length + body.length + (e.closing d).length
  ownLine := none

/-! ## The scan -/

/-- How a scan ends. -/
inductive Ending where
  /-- With the text after the last tag. -/
  | finished (last : Run)
  /-- At a tag, after some text, for which no closing marker is left. -/
  | unclosed (gap : Run) (excerpt : Text) (closing : Text)
deriving DecidableEq, Repr

/-- A source in pieces: each tag with the text before it, and the ending. -/
structure Scan where
  segments : List (Run × Tag)
  ending : Ending
deriving DecidableEq, Repr

namespace Scan

/-- How much of an unclosed tag is shown. -/
def excerptLength : Nat := 20

/-- The scan of a text whose first character has the offset `start`. -/
def ofText (d : Delimiters) (start : Nat) (s : Text) : Scan :=
  match _ho : opening? d s with
  | none => ⟨[], .finished ⟨s, start⟩⟩
  | some (gap, e, rest) =>
    match _hc : cut? (e.closing d) rest with
    | none =>
      ⟨[], .unclosed ⟨gap, start⟩ ((e.opening d ++ rest).take excerptLength) (e.closing d)⟩
    | some (body, rest) =>
      let tag := tagOf d e (start + gap.length) body
      let scan := ofText d tag.stop rest
      ⟨(⟨gap, start⟩, tag) :: scan.segments, scan.ending⟩
termination_by s.length
decreasing_by
  have h₁ := length_of_opening? _ho
  have h₂ := length_of_cut? _hc
  have h₃ := List.length_pos_iff.2 (e.opening_ne_nil d)
  omega

/-- The scan of a source from an offset on. -/
def ofSource (source : Text) (d : Delimiters) (start : Nat) : Scan :=
  ofText d start (source.drop start)

theorem stop_of_mem_ofText {d : Delimiters} {start : Nat} {s : Text} {gap : Run} {tag : Tag}
    (h : (gap, tag) ∈ (ofText d start s).segments) :
    start < tag.stop ∧ tag.stop ≤ start + s.length := by
  fun_induction ofText d start s with
  | case1 => simp at h
  | case2 => simp at h
  | case3 start s g e rest ho body rest' hc t scan ih =>
    have h₁ := length_of_opening? ho
    have h₂ := length_of_cut? hc
    have h₃ := List.length_pos_iff.2 (e.opening_ne_nil d)
    have h₄ : t.stop = start + g.length + (e.opening d).length + body.length +
      (e.closing d).length := rfl
    rcases List.mem_cons.1 h with h | h
    · have h₅ : tag = t := (Prod.mk.inj h).2
      rw [h₅]
      omega
    · have := ih h
      omega

/-- A tag ends after the offset where the scan of a source began, and within the source. -/
theorem stop_of_mem {source : Text} {d : Delimiters} {start : Nat} {gap : Run} {tag : Tag}
    (h : (gap, tag) ∈ (ofSource source d start).segments) :
    start < tag.stop ∧ tag.stop ≤ source.length := by
  have := stop_of_mem_ofText h
  simp only [List.length_drop] at this
  omega

/-! ## Reading a scan as a row of tokens -/

/-- The tokens of a segment. -/
def segmentTokens (segment : Run × Tag) : List Token := segment.1.tokens ++ [.tag segment.2]

/-- The tokens of an ending: the text it holds. -/
def endingTokens : Ending → List Token
  | .finished last => last.tokens
  | .unclosed gap _ _ => gap.tokens

/-- The tokens of a scan in order. -/
def tokens (scan : Scan) : List Token :=
  scan.segments.flatMap segmentTokens ++ endingTokens scan.ending

/-- The tags of a scan in order. -/
def tags (scan : Scan) : List Tag := scan.segments.map (·.2)

end Scan
end Mustache
