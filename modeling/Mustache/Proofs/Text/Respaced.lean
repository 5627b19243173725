import Mathlib.Data.List.Induction
import Mustache.Proofs.Text.Words

/-!
# Texts with other blanks

A text can be written with other blanks in the place of its own: line ends may be lengthened, lines
indented. Trimming a text and cutting it into words do not see the difference, as long as blanks are
written where blanks were, and nothing else is touched.

* `trim_flatMap`, `words_flatMap` — trimmed texts and words
* `getLast?_flatMap_eq_some_iff` — what a text ends with
-/

namespace Mustache.Text

/-- Every character is written as itself, except that for a blank there may be other blanks. -/
structure Respaces (σ : CodePoint → Text) : Prop where
  ne_nil : ∀ c, isBlank c = true → σ c ≠ []
  blank : ∀ c, isBlank c = true → ∀ x ∈ σ c, isBlank x = true
  same : ∀ c, isBlank c = false → σ c = [c]

namespace Respaces

variable {σ : CodePoint → Text} (h : Respaces σ)

include h

theorem flatMap_of_forall {s : Text} (hs : ∀ c ∈ s, isBlank c = false) : s.flatMap σ = s := by
  induction s with
  | nil => rfl
  | cons c s ih =>
    rw [List.flatMap_cons, h.same c (hs c List.mem_cons_self),
      ih fun x hx => hs x (List.mem_cons_of_mem c hx)]
    rfl

/-- A blank is written as a blank with some more behind it. -/
theorem exists_blanks {c : CodePoint} (hc : isBlank c = true) :
    ∃ x k, σ c = x :: k ∧ isBlank x = true ∧ ∀ y ∈ k, isBlank y = true := by
  obtain ⟨x, k, hxk⟩ := List.exists_cons_of_ne_nil (h.ne_nil c hc)
  have hblank := h.blank c hc
  rw [hxk] at hblank
  exact ⟨x, k, hxk, hblank x List.mem_cons_self, fun y hy => hblank y (List.mem_cons_of_mem x hy)⟩

/-! ## Trimmed texts -/

theorem trimStart_flatMap (s : Text) : trimStart (s.flatMap σ) = (trimStart s).flatMap σ := by
  unfold trimStart
  induction s with
  | nil => rfl
  | cons c s ih =>
    rw [List.flatMap_cons]
    by_cases hc : isBlank c = true
    · rw [List.dropWhile_cons_of_pos hc, ← ih]
      exact List.dropWhile_append_of_pos (h.blank c hc)
    · rw [List.dropWhile_cons_of_neg hc, List.flatMap_cons, h.same c (Bool.not_eq_true _ ▸ hc)]
      exact List.dropWhile_cons_of_neg hc

theorem trimEnd_flatMap (s : Text) : trimEnd (s.flatMap σ) = (trimEnd s).flatMap σ := by
  unfold trimEnd
  induction s using List.reverseRecOn with
  | nil => rfl
  | append_singleton s c ih =>
    rw [List.flatMap_append, List.flatMap_singleton, List.reverse_append, List.reverse_append,
      List.reverse_singleton, List.singleton_append]
    by_cases hc : isBlank c = true
    · have hblank : ∀ x ∈ (σ c).reverse, isBlank x = true :=
        fun x hx => h.blank c hc x (List.mem_reverse.mp hx)
      rw [List.dropWhile_append_of_pos hblank, List.dropWhile_cons_of_pos hc, ih]
    · have hsame : σ c = [c] := h.same c (Bool.not_eq_true _ ▸ hc)
      rw [hsame, List.reverse_singleton, List.singleton_append, List.dropWhile_cons_of_neg hc,
        List.dropWhile_cons_of_neg hc, List.reverse_cons, List.reverse_cons, List.reverse_reverse,
        List.reverse_reverse, List.flatMap_append, List.flatMap_singleton, hsame]

/-- **Trimming takes all blanks off, whatever they are.** -/
theorem trim_flatMap (s : Text) : trim (s.flatMap σ) = (trim s).flatMap σ := by
  rw [trim, trim, h.trimStart_flatMap, h.trimEnd_flatMap]

/-! ## Words -/

/-- Where the pieces of a text are cut at blanks, more blanks make more empty pieces, and not before
the first one. -/
theorem pieces_flatMap (s : Text) :
    ∃ p ps ps', pieces isBlank s = p :: ps ∧ pieces isBlank (s.flatMap σ) = p :: ps' ∧
      ps'.filter (· ≠ []) = ps.filter (· ≠ []) := by
  induction s with
  | nil => exact ⟨[], [], [], rfl, rfl, rfl⟩
  | cons c s ih =>
    obtain ⟨p, ps, ps', hs, hs', hps⟩ := ih
    rw [List.flatMap_cons]
    by_cases hc : isBlank c = true
    · obtain ⟨x, k, hxk, hx, hk⟩ := h.exists_blanks hc
      have hwords : words (k ++ s.flatMap σ) = words (s.flatMap σ) := words_blanks hk _
      rw [hxk, List.cons_append]
      refine ⟨[], _, _, by rw [pieces, if_pos hc], by rw [pieces, if_pos hx], ?_⟩
      refine hwords.trans ?_
      rw [words, hs', hs, List.filter_cons, List.filter_cons, hps]
    · have hsame : σ c = [c] := h.same c (Bool.not_eq_true _ ▸ hc)
      refine ⟨c :: p, ps, ps', ?_, ?_, hps⟩
      · rw [pieces, if_neg hc, hs]
      · rw [hsame, List.singleton_append, pieces, if_neg hc, hs']

/-- **Other blanks separate the same words.** -/
theorem words_flatMap (s : Text) : words (s.flatMap σ) = words s := by
  obtain ⟨p, ps, ps', hs, hs', hps⟩ := h.pieces_flatMap s
  rw [words, words, hs, hs', List.filter_cons, List.filter_cons, hps]

/-! ## What a text ends with -/

/-- A text ends with a character that is no blank when it does so written with other blanks. -/
theorem getLast?_flatMap_eq_some_iff {s : Text} {c : CodePoint} (hc : isBlank c = false) :
    (s.flatMap σ).getLast? = some c ↔ s.getLast? = some c := by
  rcases List.eq_nil_or_concat s with rfl | ⟨t, x, rfl⟩
  · rfl
  · rw [List.concat_eq_append, List.flatMap_append, List.flatMap_singleton, List.getLast?_concat]
    cases hx : isBlank x with
    | false => rw [h.same x hx, List.getLast?_concat]
    | true =>
      have hlast := List.getLast?_eq_some_getLast (h.ne_nil x hx)
      have hmem := List.getLast_mem (h.ne_nil x hx)
      rw [List.getLast?_append, hlast, Option.some_or]
      constructor
      · intro heq
        rw [Option.some.inj heq] at hmem
        rw [h.blank x hx c hmem] at hc
        cases hc
      · intro heq
        rw [← Option.some.inj heq, hx] at hc
        cases hc

theorem dropLast_flatMap {s : Text} {c : CodePoint} (hc : isBlank c = false)
    (hs : s.getLast? = some c) : (s.flatMap σ).dropLast = s.dropLast.flatMap σ := by
  obtain ⟨t, rfl⟩ := List.getLast?_eq_some_iff.mp hs
  rw [List.flatMap_append, List.flatMap_singleton, h.same c hc, List.dropLast_concat,
    List.dropLast_concat]

end Respaces
end Mustache.Text
