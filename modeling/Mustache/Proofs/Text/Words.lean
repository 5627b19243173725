import Mathlib.Data.List.Basic
import Mathlib.Data.List.TakeWhile
import Mustache.Text.Blank

/-!
# Trimmed texts and words

* `trim_eq_self`, `trim_cons` — what trimming leaves where it is
* `exists_append_trim`, `trim_blanks` — what trimming takes off
* `length_pieces`, `flatMap_pieces` — how many pieces there are, and what they make together
* `words_blanks` — blanks in front of a text make no words
* `words_eq_nil_iff`, `words_eq_cons_iff` — the words of a text, one by one
-/

namespace Mustache.Text

/-- What holds of a text that is not empty holds of the first character of a longer one. -/
theorem head?_append_of_forall {P : CodePoint → Prop} {s : Text} (hs : s ≠ []) (h : ∀ c ∈ s, P c)
    {rest : Text} {c : CodePoint} (hc : (s ++ rest).head? = some c) : P c := by
  obtain ⟨a, t, rfl⟩ := List.exists_cons_of_ne_nil hs
  obtain rfl : a = c := Option.some.inj hc
  exact h a List.mem_cons_self

/-! ## Trimmed texts -/

theorem dropWhile_eq_self {s : Text} (h : ∀ c, s.head? = some c → isBlank c = false) :
    s.dropWhile isBlank = s := by
  cases s with
  | nil => rfl
  | cons c s => exact List.dropWhile_cons_of_neg (by rw [h c rfl]; exact Bool.false_ne_true)

/-- **A text with no blank at either end is trimmed.** -/
theorem trim_eq_self {s : Text} (hfirst : ∀ c, s.head? = some c → isBlank c = false)
    (hlast : ∀ c, s.getLast? = some c → isBlank c = false) : trim s = s := by
  have hstart : trimStart s = s := dropWhile_eq_self hfirst
  have hend : s.reverse.dropWhile isBlank = s.reverse :=
    dropWhile_eq_self fun c hc => hlast c (by rwa [List.head?_reverse] at hc)
  rw [trim, hstart, trimEnd, hend, List.reverse_reverse]

/-- Trimming leaves a first character that is no blank where it is. -/
theorem trim_cons {c : CodePoint} (hc : isBlank c = false) (s : Text) :
    trim (c :: s) = c :: trimEnd s := by
  have hneg : ¬ isBlank c = true := by rw [hc]; exact Bool.false_ne_true
  have hstart : trimStart (c :: s) = c :: s := List.dropWhile_cons_of_neg hneg
  have hend : (s.reverse ++ [c]).dropWhile isBlank = s.reverse.dropWhile isBlank ++ [c] := by
    rw [List.dropWhile_append]
    split
    · next hnil => rw [List.isEmpty_iff.mp hnil, List.dropWhile_cons_of_neg hneg, List.nil_append]
    · rfl
  rw [trim, hstart, trimEnd, List.reverse_cons, hend, List.reverse_append]
  rfl

/-- A text is what trimming leaves, between blanks. -/
theorem exists_append_trim (s : Text) :
    ∃ k k', (∀ c ∈ k, isBlank c = true) ∧ (∀ c ∈ k', isBlank c = true) ∧
      s = k ++ trim s ++ k' := by
  refine ⟨s.takeWhile isBlank, ((trimStart s).reverse.takeWhile isBlank).reverse,
    fun _ => List.mem_takeWhile_imp,
    fun _ hc => List.mem_takeWhile_imp (List.mem_reverse.mp hc), ?_⟩
  have hend : trim s ++ ((trimStart s).reverse.takeWhile isBlank).reverse = trimStart s := by
    rw [trim, trimEnd, ← List.reverse_append, List.takeWhile_append_dropWhile, List.reverse_reverse]
  rw [List.append_assoc, hend]
  exact List.takeWhile_append_dropWhile.symm

/-- **Trimming takes off the blanks around a text** with no blank at either end. -/
theorem trim_blanks {k k' s : Text} (hk : ∀ c ∈ k, isBlank c = true)
    (hk' : ∀ c ∈ k', isBlank c = true) (hs : s ≠ [])
    (hfirst : ∀ c, s.head? = some c → isBlank c = false)
    (hlast : ∀ c, s.getLast? = some c → isBlank c = false) : trim (k ++ s ++ k') = s := by
  have hstart : trimStart (k ++ s ++ k') = s ++ k' := by
    rw [trimStart, List.append_assoc, List.dropWhile_append_of_pos hk]
    refine dropWhile_eq_self fun c hc => hfirst c ?_
    obtain ⟨a, t, rfl⟩ := List.exists_cons_of_ne_nil hs
    exact hc
  have hend : (s ++ k').reverse.dropWhile isBlank = s.reverse := by
    rw [List.reverse_append,
      List.dropWhile_append_of_pos fun c hc => hk' c (List.mem_reverse.mp hc)]
    exact dropWhile_eq_self fun c hc => hlast c (by rwa [List.head?_reverse] at hc)
  rw [trim, hstart, trimEnd, hend, List.reverse_reverse]

/-! ## Pieces -/

theorem pieces_of_forall {separates : CodePoint → Bool} {k : Text}
    (hk : ∀ c ∈ k, separates c = false) : pieces separates k = [k] := by
  induction k with
  | nil => rfl
  | cons a k ih =>
    have ha : ¬ separates a = true := by rw [hk a List.mem_cons_self]; exact Bool.false_ne_true
    rw [pieces, if_neg ha, ih fun c hc => hk c (List.mem_cons_of_mem a hc)]

/-- A separator between two texts keeps their pieces apart. -/
theorem pieces_append_separator {separates : CodePoint → Bool} {c : CodePoint}
    (hc : separates c = true)
    (s t : Text) :
    pieces separates (s ++ c :: t) = pieces separates s ++ pieces separates t := by
  induction s with
  | nil =>
    rw [List.nil_append, pieces, pieces, if_pos hc]
    rfl
  | cons a s ih =>
    rw [List.cons_append, pieces, pieces, ih]
    split
    · rfl
    · cases hs : pieces separates s with
      | nil => exact absurd hs (pieces_ne_nil separates s)
      | cons p ps => rfl

theorem pieces_append_cons {separates : CodePoint → Bool} {k : Text}
    (hk : ∀ c ∈ k, separates c = false) {c : CodePoint} (hc : separates c = true) (s : Text) :
    pieces separates (k ++ c :: s) = k :: pieces separates s := by
  rw [pieces_append_separator hc, pieces_of_forall hk, List.singleton_append]

/-- There is one piece more than there are characters that separate. -/
theorem length_pieces (separates : CodePoint → Bool) (s : Text) :
    (pieces separates s).length = s.countP separates + 1 := by
  induction s with
  | nil => rfl
  | cons c s ih =>
    rw [pieces, List.countP_cons]
    split
    · rw [List.length_cons, ih]
    · cases hs : pieces separates s with
      | nil => exact absurd hs (pieces_ne_nil separates s)
      | cons p ps =>
        rw [hs, List.length_cons] at ih
        rw [List.length_cons, ih, Nat.add_zero]

/-- **The pieces with the character that separates behind each of them are the text**, and that
character behind it. -/
theorem flatMap_pieces (c : CodePoint) (s : Text) :
    (pieces (· == c) s).flatMap (· ++ [c]) = s ++ [c] := by
  induction s with
  | nil => rfl
  | cons a s ih =>
    rw [pieces]
    split
    · next ha =>
      rw [List.flatMap_cons, ih, beq_iff_eq.mp ha]
      rfl
    · cases hs : pieces (· == c) s with
      | nil => exact absurd hs (pieces_ne_nil _ s)
      | cons p ps =>
        rw [hs, List.flatMap_cons] at ih
        rw [List.flatMap_cons, List.cons_append, List.cons_append, ih, List.cons_append]

/-! ## Words -/

/-- Blanks in front of a text make no words. -/
theorem words_blanks {k : Text} (hk : ∀ c ∈ k, isBlank c = true) (s : Text) :
    words (k ++ s) = words s := by
  induction k with
  | nil => rfl
  | cons c k ih =>
    have hc : isBlank c = true := hk c List.mem_cons_self
    rw [← ih fun x hx => hk x (List.mem_cons_of_mem c hx), List.cons_append, words, pieces,
      if_pos hc, words, List.filter_cons_of_neg (by simp)]

/-- Nothing but blanks makes no word. -/
theorem words_of_blanks {k : Text} (hk : ∀ c ∈ k, isBlank c = true) : words k = [] := by
  rw [← List.append_nil k, words_blanks hk]
  rfl

/-- A word at the beginning of a text, if no more of it follows. -/
theorem words_append {w rest : Text} (hw : w ≠ []) (hw' : ∀ c ∈ w, isBlank c = false)
    (hrest : ∀ c, rest.head? = some c → isBlank c = true) :
    words (w ++ rest) = w :: words rest := by
  have hword (ps : List Text) : (w :: ps).filter (· ≠ []) = w :: ps.filter (· ≠ []) :=
    List.filter_cons_of_pos (decide_eq_true hw)
  cases rest with
  | nil =>
    rw [List.append_nil, words, pieces_of_forall hw', hword]
    rfl
  | cons c rest =>
    have hc : isBlank c = true := hrest c rfl
    have hsame : words (c :: rest) = words rest :=
      words_blanks (k := [c]) (fun x hx => by rwa [List.mem_singleton.mp hx]) rest
    rw [hsame, words, pieces_append_cons hw' hc, hword, words]

/-- A text is nothing but blanks, or there is a first word in it. -/
theorem exists_word (s : Text) :
    (∀ c ∈ s, isBlank c = true) ∨
      ∃ k w rest, s = k ++ (w ++ rest) ∧ (∀ c ∈ k, isBlank c = true) ∧ w ≠ [] ∧
        (∀ c ∈ w, isBlank c = false) ∧ ∀ c, rest.head? = some c → isBlank c = true := by
  have hsplit : s.takeWhile isBlank ++ s.dropWhile isBlank = s := List.takeWhile_append_dropWhile
  have hfirst := List.head?_dropWhile_not isBlank s
  cases ht : s.dropWhile isBlank with
  | nil =>
    rw [ht, List.append_nil] at hsplit
    left
    rw [← hsplit]
    exact fun _ => List.mem_takeWhile_imp
  | cons a t =>
    right
    rw [ht] at hfirst hsplit
    have ha : isBlank a = false := hfirst
    refine ⟨s.takeWhile isBlank, (a :: t).takeWhile (!isBlank ·), (a :: t).dropWhile (!isBlank ·),
      ?_, fun _ => List.mem_takeWhile_imp, ?_, fun c hc => ?_, fun c hc => ?_⟩
    · rw [List.takeWhile_append_dropWhile, hsplit]
    · rw [List.takeWhile_cons_of_pos (by rw [ha]; rfl)]
      exact List.cons_ne_nil _ _
    · simpa using List.mem_takeWhile_imp hc
    · have hrest := List.head?_dropWhile_not (!isBlank ·) (a :: t)
      rw [hc] at hrest
      simpa using hrest

theorem words_eq_nil_iff {s : Text} : words s = [] ↔ ∀ c ∈ s, isBlank c = true := by
  refine ⟨fun h => ?_, words_of_blanks⟩
  rcases exists_word s with hs | ⟨k, w, rest, rfl, hk, hw, hw', hrest⟩
  · exact hs
  · rw [words_blanks hk, words_append hw hw' hrest] at h
    cases h

/-- **The first word of a text** stands behind blanks, and before a blank or the end. -/
theorem words_eq_cons_iff {s w : Text} {ws : List Text} :
    words s = w :: ws ↔
      ∃ k rest, s = k ++ (w ++ rest) ∧ (∀ c ∈ k, isBlank c = true) ∧ w ≠ [] ∧
        (∀ c ∈ w, isBlank c = false) ∧ (∀ c, rest.head? = some c → isBlank c = true) ∧
        words rest = ws := by
  constructor
  · intro h
    rcases exists_word s with hs | ⟨k, w', rest, rfl, hk, hw, hw', hrest⟩
    · rw [words_of_blanks hs] at h
      cases h
    · rw [words_blanks hk, words_append hw hw' hrest] at h
      cases h
      exact ⟨k, rest, rfl, hk, hw, hw', hrest, rfl⟩
  · rintro ⟨k, rest, rfl, hk, hw, hw', hrest, rfl⟩
    rw [words_blanks hk, words_append hw hw' hrest]

end Mustache.Text
