import Mustache.Delimiters
import Mustache.Proofs.Text.Words

/-!
# Bodies that name a pair

The body of a set-delimiter tag names a pair in one form only: the two markers with blanks between
them, and an equals sign. More blanks may stand in front of the markers, before the equals sign and
behind it. What is read as a pair is what has this form: no other body passes, and none of this form
is refused, whatever blanks it has and wherever they are.

* `Delimiters.ofBody_eq_ok_iff_words` — a body in words
* `Delimiters.ofBody_eq_ok_iff` — a body in characters
-/

namespace Mustache.Delimiters

open Text

variable {d : Delimiters} {body opening closing : Text}

theorem make_eq_ok_iff :
    make opening closing = .ok d ↔ d.opening = opening ∧ d.closing = closing := by
  constructor
  · intro h
    unfold make at h
    split at h
    · split at h
      · cases h
        exact ⟨rfl, rfl⟩
      · cases h
    · cases h
  · rintro ⟨rfl, rfl⟩
    rw [make, dif_pos d.isMarker_opening, dif_pos d.isMarker_closing]

/-- A body names a pair when it is trimmed to two words, the markers, and an equals sign. -/
theorem ofBody_eq_ok_iff_words :
    ofBody body = .ok d ↔
      ∃ inner, trim body = inner ++ [char '='] ∧ words inner = [d.opening, d.closing] := by
  unfold ofBody
  constructor
  · intro h
    simp only [] at h
    split at h
    · next hlast =>
      obtain ⟨inner, hinner⟩ := List.getLast?_eq_some_iff.mp hlast
      rw [hinner, List.dropLast_concat] at h
      split at h
      · next hwords =>
        obtain ⟨rfl, rfl⟩ := make_eq_ok_iff.mp h
        exact ⟨inner, hinner, hwords⟩
      · cases h
    · cases h
  · rintro ⟨inner, hinner, hwords⟩
    simp only [hinner, List.getLast?_concat, if_true, List.dropLast_concat, hwords]
    exact make_eq_ok_iff.mpr ⟨rfl, rfl⟩

/-- The body has the form of a pair's name: the opening marker, at least one blank, the closing
marker and an equals sign, with any blanks in front, before the equals sign and behind it. -/
def IsNamedBy (d : Delimiters) (body : Text) : Prop :=
  ∃ front between behind back : Text,
    (∀ c ∈ front ++ between ++ behind ++ back, isBlank c = true) ∧ between ≠ [] ∧
      body = front ++ d.opening ++ between ++ d.closing ++ behind ++ char '=' :: back

theorem isBlank_of_mem_opening {c : CodePoint} (hc : c ∈ d.opening) : isBlank c = false :=
  (d.isMarker_opening.2 c hc).1

theorem isBlank_of_mem_closing {c : CodePoint} (hc : c ∈ d.closing) : isBlank c = false :=
  (d.isMarker_closing.2 c hc).1

/-- What is read as a pair has the form of its name. -/
theorem isNamedBy_of_ofBody (h : ofBody body = .ok d) : d.IsNamedBy body := by
  obtain ⟨inner, hinner, hwords⟩ := ofBody_eq_ok_iff_words.mp h
  obtain ⟨front, back, hfront, hback, hbody⟩ := exists_append_trim body
  obtain ⟨k, rest, rfl, hk, -, -, hrest, hwords⟩ := words_eq_cons_iff.mp hwords
  obtain ⟨between, behind, rfl, hbetween, hne, -, -, hwords⟩ := words_eq_cons_iff.mp hwords
  have hbehind := words_eq_nil_iff.mp hwords
  refine ⟨front ++ k, between, behind, back, ?_, ?_, ?_⟩
  · simp only [List.forall_mem_append]
    exact ⟨⟨⟨⟨hfront, hk⟩, hbetween⟩, hbehind⟩, hback⟩
  · -- a blank comes behind the first word, and the second one does not begin with one
    rintro rfl
    obtain ⟨c, t, hc⟩ := List.exists_cons_of_ne_nil hne
    have hblank : isBlank c = true := hrest c (by rw [hc]; rfl)
    rw [isBlank_of_mem_closing (by rw [hc]; exact List.mem_cons_self)] at hblank
    cases hblank
  · rw [hbody, hinner]
    simp only [List.append_assoc, List.singleton_append]

/-- What has the form of a pair's name is read as the pair. -/
theorem IsNamedBy.ofBody_eq (h : d.IsNamedBy body) : ofBody body = .ok d := by
  obtain ⟨front, between, behind, back, hblanks, hne, rfl⟩ := h
  simp only [List.forall_mem_append] at hblanks
  obtain ⟨⟨⟨hfront, hbetween⟩, hbehind⟩, hback⟩ := hblanks
  let inner := d.opening ++ (between ++ (d.closing ++ behind))
  have hfirst (c : CodePoint) (hc : (inner ++ [char '=']).head? = some c) : isBlank c = false := by
    rw [List.append_assoc] at hc
    exact head?_append_of_forall d.isMarker_opening.1 (fun _ => isBlank_of_mem_opening) hc
  have hlast (c : CodePoint) (hc : (inner ++ [char '=']).getLast? = some c) :
      isBlank c = false := by
    rw [List.getLast?_concat] at hc
    cases hc
    decide
  refine ofBody_eq_ok_iff_words.mpr ⟨inner, ?_, ?_⟩
  · rw [← trim_blanks hfront hback (by simp) hfirst hlast]
    simp only [inner, List.append_assoc, List.singleton_append]
  · rw [words_append d.isMarker_opening.1 (fun _ => isBlank_of_mem_opening)
        fun c => head?_append_of_forall hne hbetween, words_blanks hbetween,
      words_append d.isMarker_closing.1 (fun _ => isBlank_of_mem_closing)
        fun c hc => hbehind c (List.mem_of_head? hc), words_of_blanks hbehind]

/-- **What is read as a pair is what has the form of its name.** -/
theorem ofBody_eq_ok_iff : ofBody body = .ok d ↔ d.IsNamedBy body :=
  ⟨isNamedBy_of_ofBody, IsNamedBy.ofBody_eq⟩

/-- Every other body is refused. -/
theorem exists_fault_of_not_isNamedBy (h : ∀ d : Delimiters, ¬ d.IsNamedBy body) :
    ∃ fault, ofBody body = .error fault := by
  cases hbody : ofBody body with
  | error fault => exact ⟨fault, rfl⟩
  | ok d => exact absurd (isNamedBy_of_ofBody hbody) (h d)

end Mustache.Delimiters
