import Mathlib.Data.List.TakeWhile
import Mustache.Text.Basic

/-!
# Whole lines

A text consists of whole lines when it is empty or ends with a line feed. What is written before or
after such a text does not touch its lines, and this is what lets a template be cut at the beginning
of a line.

* `lastLine_append` — whole lines put in front of a text do not change its last line
* `exists_append_lastLine` — every text is whole lines followed by its last line
* `firstLine_eq_some_iff` — what a first line is
-/

namespace Mustache.Text

/-- The text is empty or ends with a line feed. -/
def WholeLines (s : Text) : Prop := s = [] ∨ s.getLast? = some (char '\n')

instance (s : Text) : Decidable (WholeLines s) := inferInstanceAs (Decidable (_ ∨ _))

theorem wholeLines_nil : WholeLines [] := Or.inl rfl

theorem wholeLines_concat (s : Text) : WholeLines (s ++ [char '\n']) := Or.inr (by simp)

/-- A text of whole lines is empty, or it is a line feed with some text before it. -/
theorem wholeLines_iff {s : Text} : WholeLines s ↔ s = [] ∨ ∃ t, s = t ++ [char '\n'] := by
  constructor
  · rintro (h | h)
    · exact Or.inl h
    · exact Or.inr (List.getLast?_eq_some_iff.mp h)
  · rintro (h | ⟨t, rfl⟩)
    · exact Or.inl h
    · exact wholeLines_concat t

theorem WholeLines.append {s t : Text} (hs : WholeLines s) (ht : WholeLines t) :
    WholeLines (s ++ t) := by
  rcases wholeLines_iff.mp ht with rfl | ⟨u, rfl⟩
  · rw [List.append_nil]; exact hs
  · rw [← List.append_assoc]; exact wholeLines_concat (s ++ u)

/-- What whole lines end with is whole lines too. -/
theorem WholeLines.right {s t : Text} (h : WholeLines (s ++ t)) : WholeLines t := by
  by_cases hne : t = []
  · exact Or.inl hne
  · rcases h with h | h
    · exact absurd (List.append_eq_nil_iff.mp h).2 hne
    · have hl := List.getLast?_eq_some_getLast hne
      rw [List.getLast?_append, hl, Option.some_or] at h
      exact Or.inr (by rw [hl, h])

theorem WholeLines.tail {c : CodePoint} {s : Text} (h : WholeLines (c :: s)) : WholeLines s :=
  WholeLines.right (s := [c]) h

theorem mem_of_wholeLines {s : Text} (h : WholeLines s) (hne : s ≠ []) : char '\n' ∈ s := by
  rcases h with h | h
  · exact absurd h hne
  · exact List.mem_of_getLast? h

/-! ## The last line -/

theorem lastLine_of_notMem {s : Text} (h : char '\n' ∉ s) : lastLine s = s := by
  have hall : ∀ c ∈ s.reverse, decide (c ≠ '\n') = true := by
    intro c hc
    have hc' : c ∈ s := List.mem_reverse.mp hc
    simpa using fun he : c = '\n' => h (he ▸ hc')
  rw [lastLine, List.takeWhile_eq_self_iff.mpr hall, List.reverse_reverse]

theorem notMem_lastLine (s : Text) : char '\n' ∉ lastLine s := by
  intro h
  have := List.mem_takeWhile_imp (List.mem_reverse.mp h)
  simp at this

/-- A line feed ends the line before it. -/
theorem lastLine_append_lineFeed (s : Text) {t : Text} (h : char '\n' ∉ t) :
    lastLine (s ++ char '\n' :: t) = t := by
  have hall : ∀ c ∈ t.reverse, decide (c ≠ '\n') = true := by
    intro c hc
    have hc' : c ∈ t := List.mem_reverse.mp hc
    simpa using fun he : c = '\n' => h (he ▸ hc')
  rw [lastLine, List.reverse_append, List.reverse_cons, List.append_assoc,
    List.takeWhile_append_of_pos hall]
  simp

/-- **Every text is whole lines followed by its last line.** -/
theorem exists_append_lastLine (s : Text) : ∃ h, WholeLines h ∧ s = h ++ lastLine s := by
  by_cases hs : char '\n' ∈ s
  · -- cut at the last line feed, which is the first one from behind
    obtain ⟨l, r, hlr, hl⟩ := List.eq_append_cons_of_mem (List.mem_reverse.mpr hs)
    have hs' : s = r.reverse ++ char '\n' :: l.reverse := by
      rw [← List.reverse_reverse s, hlr]
      simp
    refine ⟨r.reverse ++ [char '\n'], wholeLines_concat _, ?_⟩
    rw [hs', lastLine_append_lineFeed _ (by simpa using hl)]
    simp
  · exact ⟨[], wholeLines_nil, by rw [lastLine_of_notMem hs]; rfl⟩

theorem length_lastLine_le (s : Text) : (lastLine s).length ≤ s.length := by
  obtain ⟨h, -, heq⟩ := exists_append_lastLine s
  have := congrArg List.length heq
  rw [List.length_append] at this
  omega

/-- **Whole lines put in front of a text do not change its last line.** -/
theorem lastLine_append {s : Text} (hs : WholeLines s) (t : Text) :
    lastLine (s ++ t) = lastLine t := by
  obtain ⟨h, hh, ht⟩ := exists_append_lastLine t
  have hn := notMem_lastLine t
  rcases wholeLines_iff.mp (hs.append hh) with he | ⟨u, hu⟩
  · rw [(List.append_eq_nil_iff.mp he).1]; rfl
  · have : s ++ t = u ++ char '\n' :: lastLine t := by
      rw [ht, ← List.append_assoc, hu, ← ht]
      simp
    rw [this, lastLine_append_lineFeed u hn]

theorem lastLine_append_of_notMem (s : Text) {t : Text} (ht : char '\n' ∉ t) :
    lastLine (s ++ t) = lastLine s ++ t := by
  obtain ⟨h, hh, hs⟩ := exists_append_lastLine s
  have hn : char '\n' ∉ lastLine s ++ t := by
    simp [notMem_lastLine, ht]
  calc lastLine (s ++ t) = lastLine (h ++ (lastLine s ++ t)) := by
        rw [← List.append_assoc, ← hs]
    _ = lastLine s ++ t := by rw [lastLine_append hh, lastLine_of_notMem hn]

theorem lastLine_append_of_mem (s : Text) {t : Text} (ht : char '\n' ∈ t) :
    lastLine (s ++ t) = lastLine t := by
  obtain ⟨h, hh, hl⟩ := exists_append_lastLine t
  have hne : h ≠ [] := by
    rintro rfl
    exact notMem_lastLine t (by rw [← show t = lastLine t from hl]; exact ht)
  rcases wholeLines_iff.mp hh with he | ⟨u, rfl⟩
  · exact absurd he hne
  · rw [hl, ← List.append_assoc, ← List.append_assoc, lastLine_append (wholeLines_concat _), ← hl]
    exact lastLine_of_notMem (notMem_lastLine t)

/-- A text has an empty last line exactly when it consists of whole lines. -/
theorem lastLine_eq_nil_iff {s : Text} : lastLine s = [] ↔ WholeLines s := by
  constructor
  · intro h
    obtain ⟨u, hu, hs⟩ := exists_append_lastLine s
    rw [h, List.append_nil] at hs
    rw [hs]; exact hu
  · intro h
    have := lastLine_append h []
    rwa [List.append_nil] at this

/-- No line is empty. -/
theorem head_ne_nil_of_lines {s l : Text} {ls : List Text} (h : lines s = l :: ls) :
    l ≠ [] := by
  cases s with
  | nil => cases h
  | cons c s =>
    rw [lines] at h
    split at h
    · cases h
      exact List.cons_ne_nil _ _
    · split at h
      · cases h
        exact List.cons_ne_nil _ _
      · cases h
        exact List.cons_ne_nil _ _

/-! ## The first line -/

theorem firstLine_of_notMem {s : Text} (h : char '\n' ∉ s) : firstLine s = (s, none) := by
  induction s with
  | nil => rfl
  | cons c s ih =>
    simp only [List.mem_cons, not_or] at h
    rw [firstLine, if_neg (Ne.symm h.1), ih h.2]

theorem firstLine_append_lineFeed {l : Text} (h : char '\n' ∉ l) (r : Text) :
    firstLine (l ++ char '\n' :: r) = (l, some r) := by
  induction l with
  | nil => simp [firstLine]
  | cons c l ih =>
    simp only [List.mem_cons, not_or] at h
    rw [List.cons_append, firstLine, if_neg (Ne.symm h.1), ih h.2]

theorem firstLine_eq_some_iff {s l r : Text} :
    firstLine s = (l, some r) ↔ s = l ++ char '\n' :: r ∧ char '\n' ∉ l := by
  constructor
  · intro h
    by_cases hs : char '\n' ∈ s
    · obtain ⟨l', r', rfl, hl'⟩ := List.eq_append_cons_of_mem hs
      rw [firstLine_append_lineFeed hl'] at h
      cases h
      exact ⟨rfl, hl'⟩
    · rw [firstLine_of_notMem hs] at h
      cases h
  · rintro ⟨rfl, hl⟩
    exact firstLine_append_lineFeed hl r

/-- What is written after a text with a line feed leaves its first line as it is. -/
theorem firstLine_append {s l r : Text} (h : firstLine s = (l, some r)) (t : Text) :
    firstLine (s ++ t) = (l, some (r ++ t)) := by
  obtain ⟨rfl, hl⟩ := firstLine_eq_some_iff.mp h
  rw [List.append_assoc, List.cons_append]
  exact firstLine_append_lineFeed hl (r ++ t)

end Mustache.Text
