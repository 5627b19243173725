import Mustache.Proofs.Text.Indent
import Mustache.Proofs.Token.OwnLine
import Mustache.Proofs.Token.Respaced

/-!
# Tags of an indented source

An indentation of spaces and tabs hides no marker and makes none, so an indented source has the tags
of the source at the places that correspond to theirs. What a tag is for is not changed by an
indentation inside it, nor is the pair that a set-delimiter tag names; and a tag has its line to
itself in the one source when it has it in the other.

* `opening?_indentBefore`, `cut?_indentBefore` — where markers are found
* `Enclosure.kindOf_indentAfter`, `Delimiters.ofBody_indentAfter` — what a tag says
* `OwnLine.alone_indent` — whether it has its line to itself
-/

namespace Mustache

open Text

section

variable {indentation : Text} (hi : isPadding indentation = true)

include hi

theorem isBlank_of_mem_indentation : ∀ c ∈ indentation, isBlank c = true :=
  fun _ hc => OwnLine.isBlank_of_mem_isPadding hi hc

theorem lineFeed_notMem_indentation : char '\n' ∉ indentation :=
  OwnLine.notMem_of_isPadding hi (by decide) (by decide)

end

/-! ## Markers -/

/-- A beginning without a line feed is found in an indented text. -/
theorem strip?_indentBefore (indentation : Text) {m : Text} (hm : char '\n' ∉ m) (s : Text) :
    strip? m (indentBefore indentation false s) =
      (strip? m s).map (indentBefore indentation false) := by
  induction m generalizing s with
  | nil => rfl
  | cons p m ih =>
    simp only [List.mem_cons, not_or] at hm
    cases s with
    | nil => rfl
    | cons c s =>
      show strip? (p :: m) (c :: indentBefore indentation (c == '\n') s) = _
      rw [strip?, strip?]
      by_cases hpc : p = c
      · have hc : (c == '\n') = false := by
          rw [beq_eq_false_iff_ne, ← hpc]
          exact Ne.symm hm.1
        rw [if_pos hpc, if_pos hpc, hc]
        exact ih hm.2 s
      · rw [if_neg hpc, if_neg hpc]
        rfl

/-- A tag in an indented text. -/
theorem indentBefore_write (indentation : Text) (d : Delimiters) (e : Enclosure) (b : Bool)
    (before body after : Text) :
    indentBefore indentation b (before ++ e.write d body ++ after) =
      lead indentation b ++ indentAfter indentation before ++
        e.write d (indentAfter indentation body) ++ indentBefore indentation false after := by
  have hopening := (e.isMarker_opening d).lineFeed_notMem
  have hclosing := (e.isMarker_closing d).lineFeed_notMem
  have hbody := indentBefore_append_of_notMem indentation (e.closing_ne_nil d) hclosing false body
    after
  have hall := indentBefore_append_of_notMem indentation (e.opening_ne_nil d) hopening b before
    (body ++ e.closing d ++ after)
  rw [hbody] at hall
  simp only [Enclosure.write, List.append_assoc] at hall ⊢
  exact hall

/-- What a line is indented to, when it has begun. -/
theorem indentBefore_line (indentation : Text) {line : Text} (h : char '\n' ∉ line) (rest : Text) :
    indentBefore indentation false (line ++ char '\n' :: rest) =
      line ++ char '\n' :: indentBefore indentation true rest := by
  rw [indentBefore_append, indentBefore_false_of_notMem indentation h, indentBefore]
  cases line with
  | nil => rfl
  | cons c line =>
    rw [lineBeginsAfter_of_notMem (by simp) h]
    rfl

/-- The rest of a line is not indented. -/
theorem OwnLine.trailing_indentBefore (indentation : Text) {after : Text} (h : char '\n' ∈ after) :
    trailing (indentBefore indentation false after) = trailing after := by
  obtain ⟨line, rest, rfl, hline⟩ := List.eq_append_cons_of_mem h
  rw [indentBefore_line indentation hline, trailing, trailing, firstLine_append_lineFeed hline,
    firstLine_append_lineFeed hline]

section

variable {indentation : Text} (hi : isPadding indentation = true)

include hi

/-- **An indentation hides no closing and makes none.** -/
theorem cut?_indentBefore {m : Text} (hm : IsMarker m) (b : Bool) (s : Text) :
    cut? m (indentBefore indentation b s) = (cut? m s).map (Prod.map
      (lead indentation b ++ indentAfter indentation ·) (indentBefore indentation false)) := by
  have hlead : ∀ b, ∀ c ∈ lead indentation b, isBlank c = true :=
    fun _ _ hc => isBlank_of_mem_lead (isBlank_of_mem_indentation hi) hc
  induction s generalizing b with
  | nil =>
    have hnil : cut? m [] = none := by
      cases m with
      | nil => exact absurd rfl hm.1
      | cons p m => rfl
    rw [indentBefore, hnil]
    rfl
  | cons c s ih =>
    have hstrip : strip? m (c :: indentBefore indentation (c == '\n') s) =
        (strip? m (c :: s)).map (indentBefore indentation false) :=
      strip?_indentBefore indentation hm.lineFeed_notMem (c :: s)
    rw [indentBefore, cut?_blanks hm (hlead b), cut?, cut?, hstrip]
    cases hs : strip? m (c :: s) with
    | some rest => rfl
    | none =>
      simp only [Option.map_none, ih, Option.map_map]
      rfl

/-- **An indentation hides no opening and makes none.** -/
theorem opening?_indentBefore (d : Delimiters) (b : Bool) (s : Text) :
    opening? d (indentBefore indentation b s) = (opening? d s).map fun (gap, e, rest) =>
      (lead indentation b ++ indentAfter indentation gap, e,
        indentBefore indentation false rest) := by
  have hlead : ∀ b, ∀ c ∈ lead indentation b, isBlank c = true :=
    fun _ _ hc => isBlank_of_mem_lead (isBlank_of_mem_indentation hi) hc
  induction s generalizing b with
  | nil => rfl
  | cons c s ih =>
    have hstrip (e : Enclosure) :
        strip? (e.opening d) (c :: indentBefore indentation (c == '\n') s) =
          (strip? (e.opening d) (c :: s)).map (indentBefore indentation false) :=
      strip?_indentBefore indentation (e.isMarker_opening d).lineFeed_notMem (c :: s)
    rw [indentBefore, opening?_blanks d (hlead b), opening?, opening?, hstrip, hstrip]
    cases h3 : strip? (Enclosure.triple.opening d) (c :: s) with
    | some rest => rfl
    | none =>
      cases h2 : strip? (Enclosure.active.opening d) (c :: s) with
      | some rest => rfl
      | none =>
        simp only [Option.map_none, ih, Option.map_map]
        rfl

/-! ## What a tag says -/

/-- **What a tag is for does not depend on an indentation inside it.** -/
theorem Enclosure.kindOf_indentAfter (e : Enclosure) (body : Text) :
    e.kindOf (indentAfter indentation body) = e.kindOf body := by
  rw [indentAfter_eq_flatMap]
  exact (respaces_indentation (isBlank_of_mem_indentation hi)).kindOf_flatMap e body

/-- The pair that a set-delimiter tag names is read across an indentation. -/
theorem Delimiters.ofBody_indentAfter {s : Text} {d : Delimiters} (h : ofBody s = .ok d) :
    ofBody (indentAfter indentation s) = .ok d := by
  rw [indentAfter_eq_flatMap,
    (respaces_indentation (isBlank_of_mem_indentation hi)).ofBody_flatMap, h]
  rfl

/-- The name of a tag is indented with its body. -/
theorem name_indentAfter (e : Enclosure) (body : Text) :
    (kindAndName e (trim (indentAfter indentation body))).2 =
      indentAfter indentation (kindAndName e (trim body)).2 := by
  rw [trim_indentAfter (isBlank_of_mem_indentation hi), indentAfter_eq_flatMap,
    indentAfter_eq_flatMap,
    (respaces_indentation (isBlank_of_mem_indentation hi)).kindAndName_flatMap]

/-! ## Tags on lines of their own -/

/-- **A tag has its line to itself whether the line is indented or not.** -/
theorem OwnLine.alone_indent {kind : TagKind} {before after : Text} (h : char '\n' ∈ after) :
    Alone kind (indentation ++ indentAfter indentation before)
      (indentBefore indentation false after) ↔ Alone kind before after := by
  unfold Alone
  rw [lastLine_indentAfter (lineFeed_notMem_indentation hi), trailing_indentBefore indentation h,
    isPadding, List.all_append]
  show _ ∧ (isPadding indentation && isPadding (lastLine before)) = true ∧ _ ↔ _
  rw [hi, Bool.true_and]

end

end Mustache
