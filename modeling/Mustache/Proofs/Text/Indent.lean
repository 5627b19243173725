import Mustache.Proofs.Text.Lines
import Mustache.Proofs.Text.Respaced

/-!
# Indented text

To indent a text is to put an indentation in front of each of its lines (`indentLines`). A part of a
text is indented in one of two ways. Either the indentation stands before each character that begins
a line, and for that it must be known whether a line begins where the part does (`indentBefore`); or
it stands behind each line feed, also behind the last (`indentAfter`). The two differ by an
indentation on either side (`indentBefore_append_lead`).

* `indentLines_eq` — indenting line by line
* `lastLine_indentAfter` — what an indented line begins with
* `respaces_indentation` — an indented text is the text with other blanks, so trimming it and
  cutting it into words go as for the text (`trim_indentAfter`)
-/

namespace Mustache.Text

/-- The text with the indentation in front of each of its lines. -/
def indentLines (indentation s : Text) : Text := (lines s).flatMap (indentation ++ ·)

/-- Does a line begin behind the text, when `begins` says whether one begins before it? -/
def lineBeginsAfter : Bool → Text → Bool
  | begins, [] => begins
  | _, c :: s => lineBeginsAfter (c == '\n') s

/-- The indentation, where a line begins. -/
def lead (indentation : Text) (begins : Bool) : Text := if begins then indentation else []

/-- The text with the indentation before each character that begins a line. -/
def indentBefore (indentation : Text) : Bool → Text → Text
  | _, [] => []
  | begins, c :: s => lead indentation begins ++ c :: indentBefore indentation (c == '\n') s

/-- The text with the indentation behind each line feed. -/
def indentAfter (indentation : Text) : Text → Text
  | [] => []
  | c :: s => c :: (lead indentation (c == '\n') ++ indentAfter indentation s)

/-! ## Where lines begin -/

theorem lineBeginsAfter_append (b : Bool) (s t : Text) :
    lineBeginsAfter b (s ++ t) = lineBeginsAfter (lineBeginsAfter b s) t := by
  induction s generalizing b with
  | nil => rfl
  | cons c s ih => exact ih (c == '\n')

theorem lineBeginsAfter_concat (b : Bool) (s : Text) (c : CodePoint) :
    lineBeginsAfter b (s ++ [c]) = (c == '\n') := by
  rw [lineBeginsAfter_append]
  rfl

/-- Behind a text that is not empty its last character decides. -/
theorem lineBeginsAfter_eq {s : Text} (hs : s ≠ []) (b : Bool) :
    lineBeginsAfter b s = decide (s.getLast? = some (char '\n')) := by
  rcases List.eq_nil_or_concat s with rfl | ⟨t, c, rfl⟩
  · exact absurd rfl hs
  · rw [List.concat_eq_append, lineBeginsAfter_concat, List.getLast?_concat]
    simp only [Option.some.injEq]
    rfl

theorem lineBeginsAfter_of_notMem {s : Text} (hs : s ≠ []) (h : char '\n' ∉ s) (b : Bool) :
    lineBeginsAfter b s = false := by
  rw [lineBeginsAfter_eq hs, decide_eq_false_iff_not]
  intro hlast
  exact h (List.mem_of_getLast? hlast)

theorem lineBeginsAfter_true_iff {s : Text} : lineBeginsAfter true s = true ↔ WholeLines s := by
  by_cases hs : s = []
  · rw [hs]
    exact ⟨fun _ => wholeLines_nil, fun _ => rfl⟩
  · rw [lineBeginsAfter_eq hs, decide_eq_true_iff]
    exact ⟨Or.inr, fun h => h.resolve_left hs⟩

/-- Behind whole lines a line begins. -/
theorem WholeLines.lineBeginsAfter {s : Text} (h : WholeLines s) {b : Bool}
    (hb : s = [] → b = true) : Text.lineBeginsAfter b s = true := by
  by_cases hs : s = []
  · rw [hs]
    exact hb hs
  · rw [lineBeginsAfter_eq hs, decide_eq_true_iff]
    exact h.resolve_left hs

/-! ## Indenting a part -/

theorem mem_of_mem_lead {indentation : Text} {b : Bool} {c : CodePoint}
    (h : c ∈ lead indentation b) : c ∈ indentation := by
  unfold lead at h
  split at h
  · exact h
  · cases h

/-- Without an indentation the text stays as it is. -/
theorem indentBefore_nil (b : Bool) (s : Text) : indentBefore [] b s = s := by
  induction s generalizing b with
  | nil => rfl
  | cons c s ih =>
    rw [indentBefore, ih]
    cases b <;> rfl

section

variable (indentation : Text)

theorem indentBefore_append (b : Bool) (s t : Text) :
    indentBefore indentation b (s ++ t) =
      indentBefore indentation b s ++ indentBefore indentation (lineBeginsAfter b s) t := by
  induction s generalizing b with
  | nil => rfl
  | cons c s ih =>
    simp only [List.cons_append, indentBefore, ih, List.append_assoc, lineBeginsAfter]

theorem indentAfter_append (s t : Text) :
    indentAfter indentation (s ++ t) = indentAfter indentation s ++ indentAfter indentation t := by
  induction s with
  | nil => rfl
  | cons c s ih => simp only [List.cons_append, indentAfter, ih, List.append_assoc]

/-- Indenting behind line feeds is writing each character for itself. -/
theorem indentAfter_eq_flatMap (s : Text) :
    indentAfter indentation s = s.flatMap fun c => c :: lead indentation (c == '\n') := by
  induction s with
  | nil => rfl
  | cons c s ih => rw [indentAfter, ih, List.flatMap_cons, List.cons_append]

/-- An indented text holds what the text and the indentation hold. -/
theorem mem_indentBefore {b : Bool} {s : Text} {c : CodePoint}
    (h : c ∈ indentBefore indentation b s) : c ∈ indentation ∨ c ∈ s := by
  induction s generalizing b with
  | nil => cases h
  | cons a s ih =>
    rw [indentBefore, List.mem_append, List.mem_cons] at h
    rcases h with h | rfl | h
    · exact Or.inl (mem_of_mem_lead h)
    · exact Or.inr List.mem_cons_self
    · exact (ih h).imp_right (List.mem_cons_of_mem a)

/-- **The two ways to indent a part differ by an indentation on either side.** -/
theorem indentBefore_append_lead (b : Bool) (s : Text) :
    indentBefore indentation b s ++ lead indentation (lineBeginsAfter b s) =
      lead indentation b ++ indentAfter indentation s := by
  induction s generalizing b with
  | nil => exact (List.append_nil _).symm
  | cons c s ih =>
    rw [indentBefore, lineBeginsAfter, indentAfter, List.append_assoc, List.cons_append, ih]

/-- The same of a part in the middle. -/
theorem indentBefore_append_lead_append (u s : Text) :
    indentBefore indentation true u ++
      (lead indentation (lineBeginsAfter true u) ++ indentAfter indentation s) =
        indentation ++ indentAfter indentation (u ++ s) := by
  rw [← List.append_assoc, indentBefore_append_lead, indentAfter_append, ← List.append_assoc]
  rfl

theorem indentAfter_of_notMem {s : Text} (h : char '\n' ∉ s) : indentAfter indentation s = s := by
  induction s with
  | nil => rfl
  | cons c s ih =>
    simp only [List.mem_cons, not_or] at h
    have hc : (c == '\n') = false := by simpa using Ne.symm h.1
    rw [indentAfter, hc, ih h.2]
    rfl

theorem indentBefore_false_of_notMem {s : Text} (h : char '\n' ∉ s) :
    indentBefore indentation false s = s := by
  induction s with
  | nil => rfl
  | cons c s ih =>
    simp only [List.mem_cons, not_or] at h
    have hc : (c == '\n') = false := by simpa using Ne.symm h.1
    rw [indentBefore, hc, ih h.2]
    rfl

/-- Only the first character sees whether a line begins before the text. -/
theorem indentBefore_of_ne_nil {s : Text} (hs : s ≠ []) (b : Bool) :
    indentBefore indentation b s = lead indentation b ++ indentBefore indentation false s := by
  cases s with
  | nil => exact absurd rfl hs
  | cons c s => rfl

/-- A piece without line feeds in the middle of a text. -/
theorem indentBefore_append_of_notMem {m : Text} (hm : m ≠ []) (h : char '\n' ∉ m) (b : Bool)
    (s t : Text) :
    indentBefore indentation b (s ++ m ++ t) =
      lead indentation b ++ indentAfter indentation s ++ m ++ indentBefore indentation false t := by
  rw [indentBefore_append, indentBefore_append, lineBeginsAfter_append,
    lineBeginsAfter_of_notMem hm h, indentBefore_of_ne_nil indentation hm,
    indentBefore_false_of_notMem indentation h, ← List.append_assoc, indentBefore_append_lead]

/-- Whole lines end with a line feed when they are indented, too. -/
theorem WholeLines.indentBefore {s : Text} (h : WholeLines s) (b : Bool) :
    WholeLines (Text.indentBefore indentation b s) := by
  rcases wholeLines_iff.mp h with rfl | ⟨t, rfl⟩
  · exact wholeLines_nil
  · rw [indentBefore_append, Text.indentBefore, Text.indentBefore, ← List.append_assoc]
    exact wholeLines_concat _

theorem lineBeginsAfter_indentBefore (b : Bool) (s : Text) :
    lineBeginsAfter b (indentBefore indentation b s) = lineBeginsAfter b s := by
  rcases List.eq_nil_or_concat s with rfl | ⟨t, c, rfl⟩
  · rfl
  · rw [List.concat_eq_append, indentBefore_append, indentBefore, indentBefore, ← List.append_assoc,
      lineBeginsAfter_concat, lineBeginsAfter_concat]

/-- **Indenting line by line is indenting a text that begins a line.** -/
theorem indentLines_eq (s : Text) :
    indentLines indentation s = indentBefore indentation true s := by
  unfold indentLines
  induction s with
  | nil => rfl
  | cons c s ih =>
    rw [lines, indentBefore]
    by_cases hc : c = '\n'
    · rw [if_pos hc, List.flatMap_cons, ih, hc, List.append_assoc]
      rfl
    · have hbeq : (c == '\n') = false := by simpa using hc
      rw [if_neg hc, hbeq]
      cases hl : lines s with
      | nil =>
        have hs : s = [] := by
          rw [← flatten_lines s, hl]
          rfl
        rw [hs]
        simp [lead, indentBefore]
      | cons l ls =>
        have hs : s ≠ [] := by
          rintro rfl
          cases hl
        rw [hl, List.flatMap_cons, indentBefore_of_ne_nil indentation hs, List.append_assoc] at ih
        have hrest := List.append_cancel_left ih
        simp only [List.flatMap_cons, List.append_assoc, List.cons_append]
        rw [hrest]
        rfl

end

/-- The last line of an indented text is indented. -/
theorem lastLine_indentAfter {indentation : Text} (hi : char '\n' ∉ indentation) (s : Text) :
    lastLine (indentation ++ indentAfter indentation s) = indentation ++ lastLine s := by
  obtain ⟨h, hh, hs⟩ := exists_append_lastLine s
  have hn := notMem_lastLine s
  have hlast : char '\n' ∉ indentation ++ lastLine s := by
    rw [List.mem_append, not_or]
    exact ⟨hi, hn⟩
  have hcut : indentAfter indentation s = indentAfter indentation h ++ lastLine s := by
    rw [← indentAfter_of_notMem indentation hn, ← indentAfter_append, ← hs]
  rw [hcut]
  rcases wholeLines_iff.mp hh with rfl | ⟨t, rfl⟩
  · exact lastLine_of_notMem hlast
  · have hlead : lead indentation (char '\n' == char '\n') = indentation := rfl
    rw [indentAfter_append, indentAfter, indentAfter, hlead, List.append_nil, ← List.append_assoc,
      ← List.append_assoc, List.append_assoc _ (char '\n' :: indentation), List.cons_append]
    exact lastLine_append_lineFeed _ hlast

/-! ## Trimmed texts and words -/

section

variable {indentation : Text} (hi : ∀ c ∈ indentation, isBlank c = true)

include hi

theorem isBlank_of_mem_lead {b : Bool} {c : CodePoint} (hc : c ∈ lead indentation b) :
    isBlank c = true := hi c (mem_of_mem_lead hc)

/-- A text indented by blanks is the text with other blanks. -/
theorem respaces_indentation : Respaces fun c => c :: lead indentation (c == '\n') where
  ne_nil _ _ := List.cons_ne_nil _ _
  blank c hc x hx := by
    rcases List.mem_cons.mp hx with rfl | hx
    · exact hc
    · exact isBlank_of_mem_lead hi hx
  same c hc := by
    have hfeed : (c == '\n') = false := by
      rw [beq_eq_false_iff_ne]
      rintro rfl
      cases hc
    rw [hfeed]
    rfl

/-- **A blank indentation is not part of a trimmed text.** -/
theorem trim_indentAfter (s : Text) :
    trim (indentAfter indentation s) = indentAfter indentation (trim s) := by
  rw [indentAfter_eq_flatMap, indentAfter_eq_flatMap, (respaces_indentation hi).trim_flatMap]

end

end Mustache.Text
