import Mustache.Text.CodePoint

/-!
# Text and the searches made in it

All text of the library is a list of characters, so that a law about it is an induction on a list.
This module holds the two searches everything else is built on, each with the equation that says
what it found: `strip?` removes a known beginning, `cut?` splits at the first occurrence.

## Main statements

* `strip?_eq_some_iff` — `strip?` succeeds exactly on texts with that beginning;
* `eq_of_cut?` — what `cut?` returns is the text with the pattern taken out of the middle.
-/

namespace Mustache

namespace Text

/-! ## A known beginning -/

/-- What follows the beginning `pat`, when the text begins with it. -/
def strip? : Text → Text → Option Text
  | [], s => some s
  | _ :: _, [] => none
  | p :: pat, c :: s => if p = c then strip? pat s else none

theorem strip?_eq_some_iff {pat s rest : Text} : strip? pat s = some rest ↔ s = pat ++ rest := by
  induction pat generalizing s with
  | nil => simp [strip?]
  | cons p pat ih =>
    cases s with
    | nil => simp [strip?]
    | cons c s =>
      by_cases h : p = c
      · simp [strip?, h, ih]
      · simp [strip?, h, Ne.symm h]

/-! ## The first occurrence -/

/-- The text before and the text after the first occurrence of `pat`. -/
def cut? (pat : Text) : Text → Option (Text × Text)
  | [] => (strip? pat []).map ([], ·)
  | c :: s =>
    match strip? pat (c :: s) with
    | some rest => some ([], rest)
    | none => (cut? pat s).map fun (before, rest) => (c :: before, rest)

theorem eq_of_cut? {pat s before rest : Text} (h : cut? pat s = some (before, rest)) :
    s = before ++ pat ++ rest := by
  induction s generalizing before with
  | nil =>
    obtain ⟨r, hr, he⟩ := Option.map_eq_some_iff.1 h
    cases he
    simpa using strip?_eq_some_iff.1 hr
  | cons c s ih =>
    rw [cut?] at h
    split at h
    · next r hr =>
      cases h
      simpa using strip?_eq_some_iff.1 hr
    · obtain ⟨⟨b, r⟩, hbr, he⟩ := Option.map_eq_some_iff.1 h
      cases he
      simp [ih hbr]

theorem length_of_cut? {pat s before rest : Text} (h : cut? pat s = some (before, rest)) :
    s.length = before.length + pat.length + rest.length := by
  simp [eq_of_cut? h, Nat.add_assoc]

/-! ## Pieces -/

/-- The pieces between the characters that separate, one more than there are such characters. -/
def pieces (separates : CodePoint → Bool) : Text → List Text
  | [] => [[]]
  | c :: s =>
    if separates c then [] :: pieces separates s
    else
      match pieces separates s with
      | [] => [[c]]
      | p :: ps => (c :: p) :: ps

theorem pieces_ne_nil (separates : CodePoint → Bool) (s : Text) : pieces separates s ≠ [] := by
  cases s with
  | nil => simp [pieces]
  | cons c s =>
    rw [pieces]
    split
    · simp
    · split <;> simp

/-- The first `k` characters; a negative `k` leaves off that many at the end instead. -/
def upTo (k : Int) (s : Text) : Text :=
  if 0 ≤ k then s.take k.toNat else s.take (s.length - (-k).toNat)

/-- The texts of a list with `sep` between neighbours. -/
def joinWith (sep : Text) (ts : List Text) : Text := (ts.intersperse sep).flatten

/-! ## Lines -/

/-- The line an offset stands on, as far as the text before that offset shows it: what follows its
last line feed. -/
def lastLine (s : Text) : Text := (s.reverse.takeWhile (· ≠ char '\n')).reverse

/-- The rest of a line, and what follows its line feed if it has one. -/
def firstLine : Text → Text × Option Text
  | [] => ([], none)
  | c :: s =>
    if c = '\n' then ([], some s)
    else
      let (line, rest) := firstLine s
      (c :: line, rest)

/-- The text with lines cut after each line feed; no piece is empty. -/
def lines : Text → List Text
  | [] => []
  | c :: s =>
    if c = '\n' then [c] :: lines s
    else
      match lines s with
      | [] => [[c]]
      | l :: ls => (c :: l) :: ls

theorem flatten_lines (s : Text) : (lines s).flatten = s := by
  induction s with
  | nil => rfl
  | cons c s ih =>
    rw [lines]
    split
    · simp [ih]
    · split
      · next h => simpa [h] using ih
      · next l ls h => simpa [h] using ih

end Text
end Mustache
