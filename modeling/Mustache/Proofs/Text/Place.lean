import Mathlib.Data.Prod.Lex
import Mathlib.Order.Monotone.Basic
import Mustache.Proofs.Text.Lines
import Mustache.Proofs.Text.Words
import Mustache.Text.Place

/-!
# Places tell offsets apart

Line and column are found by two searches, and only together do they name a place. A later offset is
on a later line, or further on in the same line; and an offset is found again from its line and
column, when the line is looked for among the parts of the text between its line feeds. Offsets past
the end have places on the last line.

* `Place.lineOffset_lineAt` — where the line of an offset begins
* `Place.ofPosition_determines` — places are ordered as their offsets are, and give them back
-/

namespace Mustache.Place

open Text

/-- Where a line begins, lines counted from one: behind the lines before it, each with its line
feed. -/
def lineOffset (source : Text) (line : Nat) : Nat :=
  (((pieces (· == '\n') source).take (line - 1)).flatMap (· ++ [char '\n'])).length

/-- Behind whole lines begins the line that comes after them. -/
theorem lineOffset_append {u : Text} (hu : WholeLines u) (s : Text) :
    lineOffset (u ++ s) (u.count (char '\n') + 1) = u.length := by
  rcases wholeLines_iff.mp hu with rfl | ⟨t, rfl⟩
  · rfl
  · have hlen : (pieces (· == '\n') t).length = (t ++ [char '\n']).count (char '\n') + 1 - 1 := by
      rw [length_pieces, List.count_append]
      rfl
    rw [lineOffset, List.append_assoc, List.singleton_append, pieces_append_separator (by rfl),
      ← hlen, List.take_left, flatMap_pieces]

/-- **The line of an offset begins behind the last line feed before it**, and that is where the line
with its number begins. -/
theorem lineOffset_lineAt (source : Text) (p : Nat) :
    lineOffset source (lineAt source p) = lineStart source p := by
  obtain ⟨u, hu, heq⟩ := exists_append_lastLine (source.take p)
  have hcount : (source.take p).count (char '\n') = u.count (char '\n') := by
    rw [heq, List.count_append, List.count_eq_zero.mpr (notMem_lastLine _), Nat.add_zero]
  have hsource : source = u ++ (lastLine (source.take p) ++ source.drop p) := by
    rw [← List.append_assoc, ← heq, List.take_append_drop]
  have hlen := congrArg List.length heq
  rw [List.length_append] at hlen
  calc lineOffset source (lineAt source p)
      = lineOffset (u ++ (lastLine (source.take p) ++ source.drop p))
          (u.count (char '\n') + 1) := by
        rw [← hsource, lineAt, hcount]
    _ = u.length := lineOffset_append hu _
    _ = lineStart source p := by rw [lineStart]; omega

theorem lineOffset_add_column (source : Text) (p : Nat) :
    lineOffset source (lineAt source p) + columnAt source p - 1 = p := by
  rw [lineOffset_lineAt, lineStart_add_column, Nat.add_sub_cancel]

/-- The line of an offset is one of the lines of the text. -/
theorem lineAt_le_length (source : Text) (p : Nat) :
    lineAt source p ≤ (pieces (· == '\n') source).length := by
  rw [length_pieces]
  exact Nat.succ_le_succ ((List.take_sublist p source).count_le (char '\n'))

theorem lineAt_mono (source : Text) {p q : Nat} (h : p ≤ q) :
    lineAt source p ≤ lineAt source q :=
  Nat.succ_le_succ ((List.take_sublist_take_left h).count_le (char '\n'))

/-- On one line columns grow with the offsets. -/
theorem columnAt_lt {source : Text} {p q : Nat} (h : p < q)
    (hline : lineAt source p = lineAt source q) : columnAt source p < columnAt source q := by
  have hp := lineOffset_add_column source p
  have hq := lineOffset_add_column source q
  rw [hline] at hp
  omega

/-- Places are in the order of their offsets: first by line, then by column. -/
theorem strictMono_ofPosition (source : Text) :
    StrictMono fun p => toLex ((ofPosition source p).line, (ofPosition source p).column) := by
  intro p q h
  rw [Prod.Lex.toLex_lt_toLex]
  rcases Nat.lt_or_eq_of_le (lineAt_mono source h.le) with hlt | heq
  · exact Or.inl hlt
  · exact Or.inr ⟨heq, columnAt_lt h heq⟩

/-- **Line and column determine the offset**, of a source and past its end. They grow with it, line
before column, so no two offsets share a place. Both count from one; the line is one of the lines of
the source, and the offset lies in it as far from its beginning as the column says. -/
theorem ofPosition_determines (source : Text) :
    (StrictMono fun p => toLex ((ofPosition source p).line, (ofPosition source p).column)) ∧
      (Function.Injective fun p => ((ofPosition source p).line, (ofPosition source p).column)) ∧
      ∀ p, 1 ≤ (ofPosition source p).line ∧ 1 ≤ (ofPosition source p).column ∧
        (ofPosition source p).line ≤ (pieces (· == '\n') source).length ∧
        lineOffset source (ofPosition source p).line + (ofPosition source p).column - 1 = p := by
  refine ⟨strictMono_ofPosition source, ?_, fun p => ?_⟩
  · intro p q h
    exact (strictMono_ofPosition source).injective (congrArg toLex h)
  · exact ⟨one_le_line source p, one_le_column source p, lineAt_le_length source p,
      lineOffset_add_column source p⟩

/-- A line feed is the last character of its line, and offsets past the end go on with the last
line. -/
example : (List.range 6).map (fun p => (lineAt "a\n\nb".toText p, columnAt "a\n\nb".toText p)) =
    [(1, 1), (1, 2), (2, 1), (3, 1), (3, 2), (3, 3)] := by decide

end Mustache.Place
