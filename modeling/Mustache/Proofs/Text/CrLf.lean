import Mustache.Proofs.Text.Lines
import Mustache.Proofs.Text.Respaced
import Mustache.Text.Place

/-!
# Line ends of two characters

A text whose lines end with a line feed can be written with a carriage return before each of them
(`crlf`). Its lines begin and end where those of the text do: what an offset of the text becomes is
on the same line, in the same column.

* `respaces_crlf` — the text is written with other blanks
* `crlf_injective` — and can be read off
* `lastLine_crlf` — the line that a text ends on
* `Place.ofPosition_crlf` — the place that an offset becomes
-/

namespace Mustache

namespace Text

/-- A character in a text whose lines end with a carriage return and a line feed. -/
def crlfChar (c : CodePoint) : Text := if c = '\n' then ['\r', '\n'] else [c]

/-- The text with a carriage return before each line feed. -/
def crlf (s : Text) : Text := s.flatMap crlfChar

theorem crlfChar_ne_nil (c : CodePoint) : crlfChar c ≠ [] := by
  unfold crlfChar
  split
  · exact List.cons_ne_nil _ _
  · exact List.cons_ne_nil _ _

/-- **A line end is blank, with a carriage return or without.** -/
theorem respaces_crlf : Respaces crlfChar where
  ne_nil c _ := crlfChar_ne_nil c
  blank c hc x hx := by
    unfold crlfChar at hx
    split at hx
    · rcases List.mem_pair.mp hx with rfl | rfl
      · decide
      · decide
    · rw [List.mem_singleton.mp hx]
      exact hc
  same c hc := if_neg (by rintro rfl; cases hc)

theorem crlf_append (s t : Text) : crlf (s ++ t) = crlf s ++ crlf t := List.flatMap_append

theorem crlf_cons (c : CodePoint) (s : Text) : crlf (c :: s) = crlfChar c ++ crlf s :=
  List.flatMap_cons

theorem crlf_of_notMem {s : Text} (h : char '\n' ∉ s) : crlf s = s := by
  induction s with
  | nil => rfl
  | cons c s ih =>
    simp only [List.mem_cons, not_or] at h
    rw [crlf_cons, crlfChar, if_neg (Ne.symm h.1), ih h.2, List.singleton_append]

theorem crlf_eq_nil_iff {s : Text} : crlf s = [] ↔ s = [] := by
  cases s with
  | nil => exact Iff.rfl
  | cons c s =>
    rw [crlf_cons, List.append_eq_nil_iff]
    exact ⟨fun h => absurd h.1 (crlfChar_ne_nil c), fun h => by cases h⟩

/-- **The text can be read off.** -/
theorem crlf_injective : Function.Injective crlf := by
  -- the last character of what is written for a character is the character
  have hlast (c : CodePoint) : ∃ k, crlfChar c = k ++ [c] := by
    unfold crlfChar
    split
    · next hc => exact ⟨['\r'], by rw [hc]; rfl⟩
    · exact ⟨[], rfl⟩
  intro s
  induction s using List.reverseRecOn with
  | nil =>
    intro t h
    exact (crlf_eq_nil_iff.mp h.symm).symm
  | append_singleton s c ih =>
    intro t h
    rcases List.eq_nil_or_concat t with rfl | ⟨t, x, rfl⟩
    · exact crlf_eq_nil_iff.mp h
    · have hchar (y : CodePoint) : crlf [y] = crlfChar y := List.flatMap_singleton _ _
      rw [List.concat_eq_append, crlf_append, crlf_append, hchar, hchar] at h
      obtain ⟨k, hk⟩ := hlast c
      obtain ⟨k', hk'⟩ := hlast x
      have hx : c = x := by
        rw [hk, hk', ← List.append_assoc, ← List.append_assoc] at h
        exact List.singleton_inj.mp (List.append_inj_right' h rfl)
      rw [hx] at h
      rw [hx, ih (List.append_cancel_right h), List.concat_eq_append]

/-- The beginning of a text, from as much of its beginning. -/
theorem take_crlf (n : Nat) (s : Text) : (crlf s).take n = (crlf (s.take n)).take n := by
  induction s generalizing n with
  | nil => rw [List.take_nil]
  | cons c s ih =>
    cases n with
    | zero => rfl
    | succ n =>
      -- what is written for the first character leaves room for no more than `n` others
      have hpos := List.length_pos_iff.mpr (crlfChar_ne_nil c)
      have hle : n + 1 - (crlfChar c).length ≤ n := by omega
      have hrest := congrArg (List.take (n + 1 - (crlfChar c).length)) (ih n)
      rw [List.take_take, List.take_take, Nat.min_eq_left hle] at hrest
      rw [List.take_succ_cons, crlf_cons, crlf_cons, List.take_append, List.take_append, hrest]

/-! ## Lines -/

theorem WholeLines.crlf {s : Text} (h : WholeLines s) : WholeLines (Text.crlf s) := by
  rcases wholeLines_iff.mp h with rfl | ⟨t, rfl⟩
  · exact wholeLines_nil
  · rw [crlf_append]
    exact wholeLines_iff.mpr (Or.inr ⟨Text.crlf t ++ [char '\r'], by simp [Text.crlf, crlfChar]⟩)

/-- **The last line is the same.** -/
theorem lastLine_crlf (s : Text) : lastLine (crlf s) = lastLine s := by
  obtain ⟨h, hh, hs⟩ := exists_append_lastLine s
  have hn := notMem_lastLine s
  have hcrlf : crlf s = crlf h ++ lastLine s := by
    rw [← crlf_of_notMem hn, ← crlf_append, ← hs]
  rw [hcrlf, lastLine_append hh.crlf, lastLine_of_notMem hn]

theorem count_lineFeed_crlf (s : Text) : (crlf s).count (char '\n') = s.count (char '\n') := by
  induction s with
  | nil => rfl
  | cons c s ih =>
    rw [crlf_cons, List.count_append, ih, List.count_cons, crlfChar]
    split
    · next hc =>
      rw [hc, Nat.add_comm]
      rfl
    · next hc => simp [hc]

end Text

open Text

/-! ## Places -/

/-- What an offset of a source becomes. -/
def crlfOffset (source : Text) (position : Nat) : Nat := (crlf (source.take position)).length

theorem take_crlfOffset (source : Text) (position : Nat) :
    (crlf source).take (crlfOffset source position) = crlf (source.take position) := by
  have hcut := congrArg crlf (List.take_append_drop position source)
  rw [crlf_append] at hcut
  rw [← hcut, crlfOffset, List.take_left]

/-- **An offset becomes one on the same line, in the same column.** -/
theorem Place.ofPosition_crlf {source : Text} {position : Nat} (h : position ≤ source.length) :
    ofPosition (crlf source) (crlfOffset source position) =
      { ofPosition source position with position := crlfOffset source position } := by
  have hline : lineAt (crlf source) (crlfOffset source position) = lineAt source position := by
    rw [lineAt, lineAt, take_crlfOffset, count_lineFeed_crlf]
  have hcolumn : columnAt (crlf source) (crlfOffset source position) =
      columnAt source position := by
    have hle := length_lastLine_le (source.take position)
    have hle' := length_lastLine_le (crlf (source.take position))
    have hlen : (source.take position).length = position := List.length_take_of_le h
    rw [lastLine_crlf] at hle'
    rw [columnAt, columnAt, lineStart, lineStart, take_crlfOffset, lastLine_crlf]
    unfold crlfOffset
    omega
  rw [ofPosition, hline, hcolumn]
  rfl

end Mustache
