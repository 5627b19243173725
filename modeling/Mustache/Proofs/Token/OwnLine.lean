import Mustache.Proofs.Text.Lines
import Mustache.Token.OwnLine

/-!
# What a tag's own line looks like

Whether a tag has its line to itself is asked of the whole source and of offsets in it. Here the
question is put to the text before the tag and the text after it: the last line of the one and the
first line of the other are all that counts.

* `OwnLine.of?_eq` — the line of a tag, from the text before it and the text after it
* `OwnLine.exists_padding_lineEnd` — the line end that goes with a tag
* `OwnLine.isPadding_trailing_eq_false` — a line that goes on with something else
* `OwnLine.Settled.alone_append` — a tag whose line is settled before the text ends
-/

namespace Mustache

open Text

namespace OwnLine

/-! ## The rest of a line -/

/-- The rest of a line, its line feed included. -/
def lineEnd (rest : Text) : Text := rest.take (lengthToNext rest)

/-- What follows the line. -/
def afterLine (rest : Text) : Text := rest.drop (lengthToNext rest)

theorem lineEnd_append_afterLine (rest : Text) : lineEnd rest ++ afterLine rest = rest :=
  List.take_append_drop _ rest

theorem lineEnd_append_lineFeed {line : Text} (h : char '\n' ∉ line) (rest : Text) :
    lineEnd (line ++ char '\n' :: rest) = line ++ [char '\n'] ∧
      afterLine (line ++ char '\n' :: rest) = rest := by
  have hlen : lengthToNext (line ++ char '\n' :: rest) = (line ++ [char '\n']).length := by
    rw [lengthToNext, firstLine_append_lineFeed h]
    simp
  have happ : line ++ char '\n' :: rest = (line ++ [char '\n']) ++ rest := by simp
  constructor
  · rw [lineEnd, hlen, happ, List.take_left]
  · rw [afterLine, hlen, happ, List.drop_left]

theorem lineEnd_of_notMem {rest : Text} (h : char '\n' ∉ rest) :
    lineEnd rest = rest ∧ afterLine rest = [] := by
  have hlen : lengthToNext rest = rest.length := by
    rw [lengthToNext, firstLine_of_notMem h]
  exact ⟨by rw [lineEnd, hlen, List.take_length], by rw [afterLine, hlen, List.drop_length]⟩

/-- The rest of a line ends the line when something follows it. -/
theorem lineFeed_mem_of_lineEnd_eq {k s : Text} (h : lineEnd (k ++ s) = k) (hs : s ≠ []) :
    char '\n' ∈ k := by
  by_cases hn : char '\n' ∈ k ++ s
  · obtain ⟨line, rest, hlr, hline⟩ := List.eq_append_cons_of_mem hn
    rw [hlr, (lineEnd_append_lineFeed hline rest).1] at h
    rw [← h]
    simp
  · rw [(lineEnd_of_notMem hn).1] at h
    exact absurd (List.append_right_eq_self.mp h) hs

/-- What is on the line already belongs to the rest of the line. -/
theorem lineEnd_append_of_notMem {line : Text} (h : char '\n' ∉ line) (rest : Text) :
    lineEnd (line ++ rest) = line ++ lineEnd rest := by
  by_cases hr : char '\n' ∈ rest
  · obtain ⟨more, r, rfl, hmore⟩ := List.eq_append_cons_of_mem hr
    have hline : char '\n' ∉ line ++ more := by
      rw [List.mem_append, not_or]
      exact ⟨h, hmore⟩
    rw [← List.append_assoc, (lineEnd_append_lineFeed hline r).1,
      (lineEnd_append_lineFeed hmore r).1, List.append_assoc]
  · have hline : char '\n' ∉ line ++ rest := by
      rw [List.mem_append, not_or]
      exact ⟨h, hr⟩
    rw [(lineEnd_of_notMem hline).1, (lineEnd_of_notMem hr).1]

theorem length_lineEnd (rest : Text) : (lineEnd rest).length = lengthToNext rest := by
  by_cases h : char '\n' ∈ rest
  · obtain ⟨line, r, rfl, hline⟩ := List.eq_append_cons_of_mem h
    rw [(lineEnd_append_lineFeed hline r).1, lengthToNext, firstLine_append_lineFeed hline]
    simp
  · rw [(lineEnd_of_notMem h).1, lengthToNext, firstLine_of_notMem h]

/-! ## Alone on a line -/

/-- A tag of this kind with these texts before and after it has its line to itself. -/
def Alone (kind : TagKind) (before after : Text) : Prop :=
  kind.ownsLine ∧ isPadding (lastLine before) ∧ isPadding (trailing after)

instance (kind : TagKind) (before after : Text) : Decidable (Alone kind before after) :=
  inferInstanceAs (Decidable (_ ∧ _ ∧ _))

/-- **The line of a tag depends on the line before it and the line after it only.** -/
theorem of?_eq {before written after : Text} {tag : Tag} (hstart : tag.start = before.length)
    (hstop : tag.stop = (before ++ written).length) :
    of? (before ++ written ++ after) tag =
      if Alone tag.kind before after then
        some ⟨before.length - (lastLine before).length, lastLine before,
          (before ++ written).length + lengthToNext after⟩
      else none := by
  have htake : (before ++ written ++ after).take before.length = before := by
    rw [List.append_assoc, List.take_left]
  have hdrop : (before ++ written ++ after).drop (before ++ written).length = after := by
    rw [List.drop_left]
  simp only [of?, hstart, hstop, htake, hdrop]
  rfl

/-- A line begins no later than the tag that it is the line of. -/
theorem lineStart_le_start {source : Text} {tag : Tag} {line : OwnLine}
    (h : of? source tag = some line) : line.lineStart ≤ tag.start := by
  simp only [of?] at h
  split at h
  · cases h
    exact Nat.sub_le _ _
  · cases h

/-- What is written after a line feed leaves the rest of the line as it is. -/
theorem trailing_append {rest : Text} (h : char '\n' ∈ rest) (t : Text) :
    trailing (rest ++ t) = trailing rest ∧ lineEnd (rest ++ t) = lineEnd rest := by
  obtain ⟨line, r, rfl, hline⟩ := List.eq_append_cons_of_mem h
  have happ := firstLine_append_lineFeed hline r
  constructor
  · rw [trailing, trailing, firstLine_append happ, happ]
  · rw [(lineEnd_append_lineFeed hline r).1, List.append_assoc, List.cons_append,
      (lineEnd_append_lineFeed hline (r ++ t)).1]

/-- Whole lines in front do not count. -/
theorem alone_append_left {u : Text} (hu : WholeLines u) {kind : TagKind} {before after : Text} :
    Alone kind (u ++ before) after ↔ Alone kind before after := by
  unfold Alone
  rw [lastLine_append hu]

/-- What comes after the line does not count. -/
theorem alone_append_right {after : Text} (h : char '\n' ∈ after) (t : Text) {kind : TagKind}
    {before : Text} : Alone kind before (after ++ t) ↔ Alone kind before after := by
  unfold Alone
  rw [(trailing_append h t).1]

theorem isBlank_of_mem_isPadding {s : Text} (h : isPadding s = true) {c : CodePoint} (hc : c ∈ s) :
    isBlank c = true := by
  have := List.all_eq_true.mp h c hc
  simp only [Bool.or_eq_true, beq_iff_eq] at this
  rcases this with rfl | rfl <;> decide

theorem notMem_of_isPadding {s : Text} (h : isPadding s = true) {c : CodePoint} (hspace : c ≠ ' ')
    (htab : c ≠ '\t') : c ∉ s := by
  intro hc
  have := List.all_eq_true.mp h c hc
  simp only [Bool.or_eq_true, beq_iff_eq] at this
  exact this.elim hspace htab

/-- A line that ends with padding. -/
theorem trailing_of_isPadding {padding : Text} (h : isPadding padding = true) (rest : Text) :
    trailing (padding ++ char '\n' :: rest) = padding := by
  have hfeed : char '\n' ∉ padding := notMem_of_isPadding h (by decide) (by decide)
  have hreturn : padding.getLast? ≠ some (char '\r') := fun hr =>
    notMem_of_isPadding h (by decide) (by decide) (List.mem_of_getLast? hr)
  rw [trailing, firstLine_append_lineFeed hfeed]
  exact if_neg hreturn

/-- **The line end that goes with a tag is padding and a line feed**, with a carriage return before
it or without, or nothing but padding, at the end of the source. -/
theorem exists_padding_lineEnd {rest : Text} (h : isPadding (trailing rest) = true) :
    ∃ padding ending, lineEnd rest = padding ++ ending ∧ isPadding padding = true ∧
      (ending = [] ∨ ending = [char '\n'] ∨ ending = [char '\r', '\n']) := by
  by_cases hn : char '\n' ∈ rest
  · obtain ⟨line, r, rfl, hline⟩ := List.eq_append_cons_of_mem hn
    rw [trailing, firstLine_append_lineFeed hline] at h
    rw [(lineEnd_append_lineFeed hline r).1]
    by_cases hr : line.getLast? = some (char '\r')
    · obtain ⟨padding, rfl⟩ := List.getLast?_eq_some_iff.mp hr
      simp only [hr, if_true, List.dropLast_concat] at h
      exact ⟨padding, ['\r', '\n'], List.append_assoc _ _ _, h, .inr (.inr rfl)⟩
    · simp only [hr, if_false] at h
      exact ⟨line, ['\n'], rfl, h, .inr (.inl rfl)⟩
  · rw [trailing, firstLine_of_notMem hn] at h
    exact ⟨rest, [], by rw [(lineEnd_of_notMem hn).1, List.append_nil], h, .inl rfl⟩

/-- The line end that goes with a tag is blank. -/
theorem isBlank_of_mem_lineEnd {rest : Text} (h : isPadding (trailing rest) = true) :
    ∀ c ∈ lineEnd rest, isBlank c = true := by
  obtain ⟨padding, ending, heq, hpadding, hending⟩ := exists_padding_lineEnd h
  intro c hc
  rw [heq] at hc
  rcases List.mem_append.mp hc with hc | hc
  · exact isBlank_of_mem_isPadding hpadding hc
  · have hchar : c = '\r' ∨ c = '\n' := by
      rcases hending with rfl | rfl | rfl
      · cases hc
      · exact .inr (List.mem_singleton.mp hc)
      · simpa using hc
    rcases hchar with rfl | rfl <;> decide

/-- A line that goes on with something else than a blank does not end there. -/
theorem isPadding_trailing_eq_false {line : Text} (h : char '\n' ∉ line) {c : CodePoint}
    (hc : isBlank c = false) (rest : Text) : isPadding (trailing (line ++ c :: rest)) = false := by
  rw [Bool.eq_false_iff]
  intro hpad
  have hline : char '\n' ∉ line ++ [c] := by
    rw [List.mem_append, List.mem_singleton, not_or]
    refine ⟨h, ?_⟩
    rintro rfl
    cases hc
  have hmem : c ∈ lineEnd (line ++ c :: rest) := by
    rw [List.append_cons, lineEnd_append_of_notMem hline]
    simp
  have hblank := isBlank_of_mem_lineEnd hpad c hmem
  rw [hc] at hblank
  cases hblank

/-! ## More text behind a line -/

/-- The first line ends in the text, or goes on with something else than a blank. Whether a tag
before the text has its line to itself is seen from such a text, whatever follows it. -/
def Settled (after : Text) : Prop := char '\n' ∈ after ∨ ∃ c ∈ after, isBlank c = false

namespace Settled

variable {kind : TagKind} {before after : Text}

theorem lineFeed_mem (h : Settled after) (alone : Alone kind before after) : char '\n' ∈ after := by
  by_contra hn
  obtain ⟨c, hc, hblank⟩ := h.resolve_left hn
  rw [← (lineEnd_of_notMem hn).1] at hc
  rw [isBlank_of_mem_lineEnd alone.2.2 c hc] at hblank
  cases hblank

theorem alone_append (h : Settled after) (t : Text) :
    Alone kind before (after ++ t) ↔ Alone kind before after := by
  by_cases hn : char '\n' ∈ after
  · exact alone_append_right hn t
  · -- the line goes on with something else, so it is no tag's own line
    obtain ⟨c, hc, hblank⟩ := h.resolve_left hn
    obtain ⟨line, rest, rfl⟩ := List.append_of_mem hc
    have hline : char '\n' ∉ line := fun h => hn (List.mem_append_left _ h)
    have hnot (rest : Text) : ¬ Alone kind before (line ++ c :: rest) := by
      rintro ⟨-, -, hpadding⟩
      rw [isPadding_trailing_eq_false hline hblank rest] at hpadding
      cases hpadding
    rw [List.append_assoc, List.cons_append]
    exact iff_of_false (hnot _) (hnot _)

end Settled
end OwnLine
end Mustache
