import Mustache.Escape

/-!
# Escaped text

Escaping puts an entity in place of each of four characters and leaves all others as they are. That
the replacements are made one after the other cannot be seen from the result: the ampersands go
first, so no later replacement meets one of an entity (`html_cons`).

Escaped text cannot be taken for markup (`Inert`), and neither can text without any of the four
characters, nor such texts in a row.

Nothing is lost: one pass that puts the characters back in place of the entities gives the text
again (`unescape_html`), also where it held entities before.

* `html_cons` — escaping, one character at a time
* `Inert.append` — texts that are no markup, in a row
* `inert_html` — escaped text is no markup
* `html_exact` — escaping is one pass over the characters, and can be undone by one
-/

namespace Mustache.Escape

open Text

/-! ## One pass -/

/-- What a character is written as in escaped text. -/
def image (c : CodePoint) : Text :=
  if c = '&' then "&amp;".toText
  else if c = '<' then "&lt;".toText
  else if c = '>' then "&gt;".toText
  else if c = '"' then "&quot;".toText
  else [c]

/-- **Escaping goes through a text one character at a time.** -/
theorem html_cons (c : CodePoint) (s : Text) : html (c :: s) = image c ++ html s := by
  have hsingle : html [c] = image c := by
    by_cases hamp : c = '&'
    · subst hamp; decide
    by_cases hlt : c = '<'
    · subst hlt; decide
    by_cases hgt : c = '>'
    · subst hgt; decide
    by_cases hquote : c = '"'
    · subst hquote; decide
    have hkeep (d : CodePoint) (i : Text) (h : c ≠ d) : replaceChar d i [c] = [c] := by
      simp [replaceChar, h]
    rw [html, hkeep _ _ hamp, hkeep _ _ hlt, hkeep _ _ hgt, hkeep _ _ hquote, image, if_neg hamp,
      if_neg hlt, if_neg hgt, if_neg hquote]
  rw [← List.singleton_append, html_append, hsingle]

/-! ## Text that is no markup -/

/-- The characters that are written as entities. -/
def markup : List CodePoint := ['<', '>', '"', '&']

/-- The entities that they are written as. -/
def entities : List Text := ["&lt;".toText, "&gt;".toText, "&quot;".toText, "&amp;".toText]

/-- The text holds none of the characters of markup. -/
def Plain (s : Text) : Prop := ∀ c ∈ s, c ∉ markup

instance (s : Text) : Decidable (Plain s) := List.decidableBAll (· ∉ markup) s

theorem Plain.append {s t : Text} (hs : Plain s) (ht : Plain t) : Plain (s ++ t) := by
  intro c hc
  rcases List.mem_append.mp hc with hc | hc
  · exact hs c hc
  · exact ht c hc

/-- The text can be put between tags and between double quotes: it holds no angle bracket and no
double quote, and every ampersand begins an entity. -/
structure Inert (s : Text) : Prop where
  less : char '<' ∉ s
  greater : char '>' ∉ s
  quote : char '"' ∉ s
  ampersand : ∀ before after, s = before ++ char '&' :: after → ∃ e ∈ entities, e <+: '&' :: after

theorem Plain.inert {s : Text} (h : Plain s) : Inert s where
  less hc := h _ hc (by decide)
  greater hc := h _ hc (by decide)
  quote hc := h _ hc (by decide)
  ampersand := by
    rintro before after rfl
    exact absurd (by decide) (h '&' (by simp))

/-- **Texts that are no markup are none in a row.** -/
theorem Inert.append {s t : Text} (hs : Inert s) (ht : Inert t) : Inert (s ++ t) where
  less hc := (List.mem_append.mp hc).elim hs.less ht.less
  greater hc := (List.mem_append.mp hc).elim hs.greater ht.greater
  quote hc := (List.mem_append.mp hc).elim hs.quote ht.quote
  ampersand := by
    intro before after heq
    rcases List.append_eq_append_iff.mp heq with ⟨u, rfl, htu⟩ | ⟨u, hsu, htu⟩
    · exact ht.ampersand u after htu
    · cases u with
      | nil => exact ht.ampersand [] after htu.symm
      | cons c u =>
        -- the ampersand is one of the first text, and so is its entity
        obtain ⟨rfl, rfl⟩ := List.cons.inj htu
        obtain ⟨e, he, hpre⟩ := hs.ampersand before u hsu
        exact ⟨e, he, hpre.trans (List.prefix_append (char '&' :: u) t)⟩

/-- A single ampersand is no markup when it begins an entity. -/
theorem inert_entity {name : Text} (he : char '&' :: name ∈ entities) (h : Plain name) :
    Inert (char '&' :: name) where
  less hc := by simp at hc; exact h _ hc (by decide)
  greater hc := by simp at hc; exact h _ hc (by decide)
  quote hc := by simp at hc; exact h _ hc (by decide)
  ampersand := by
    intro before after heq
    cases before with
    | nil =>
      rw [List.nil_append] at heq
      exact ⟨_, he, heq ▸ List.prefix_rfl⟩
    | cons c before =>
      have hname : name = before ++ char '&' :: after := (List.cons.inj heq).2
      exact absurd (by decide) (h '&' (by simp [hname]))

/-- A character that is none of markup stands for itself. -/
theorem image_of_notMem {c : CodePoint} (h : c ∉ markup) : image c = [c] := by
  simp only [markup, List.mem_cons, not_or] at h
  obtain ⟨hlt, hgt, hquote, hamp, -⟩ := h
  rw [image, if_neg hamp, if_neg hlt, if_neg hgt, if_neg hquote]

/-- A character is written as an entity, or it is no character of markup and stands for itself. -/
theorem image_cases (c : CodePoint) :
    (∃ name, image c = char '&' :: name ∧ char '&' :: name ∈ entities ∧ Plain name) ∨
      image c = [c] ∧ c ∉ markup := by
  by_cases hc : c ∈ markup
  · left
    simp only [markup, List.mem_cons, List.not_mem_nil, or_false] at hc
    rcases hc with rfl | rfl | rfl | rfl <;> exact ⟨_, rfl, by decide, by decide⟩
  · exact Or.inr ⟨image_of_notMem hc, hc⟩

theorem inert_image (c : CodePoint) : Inert (image c) := by
  rcases image_cases c with ⟨name, himage, hentity, hplain⟩ | ⟨himage, hc⟩
  · rw [himage]
    exact inert_entity hentity hplain
  · rw [himage]
    exact Plain.inert (by simpa [Plain] using hc)

/-- **Escaped text is no markup.** -/
theorem inert_html (s : Text) : Inert (html s) := by
  induction s with
  | nil => exact Plain.inert nofun
  | cons c s ih =>
    rw [html_cons]
    exact (inert_image c).append ih

/-! ## Reading escaped text back -/

/-- The text with the four entities replaced by their characters, in one pass from left to right. A
character that has been put in is not looked at again. -/
def unescape : Text → Text
  | char '&' :: char 'a' :: char 'm' :: char 'p' :: char ';' :: s => '&' :: unescape s
  | char '&' :: char 'l' :: char 't' :: char ';' :: s => '<' :: unescape s
  | char '&' :: char 'g' :: char 't' :: char ';' :: s => '>' :: unescape s
  | char '&' :: char 'q' :: char 'u' :: char 'o' :: char 't' :: char ';' :: s => '"' :: unescape s
  | c :: s => c :: unescape s
  | [] => []

/-- No entity begins with another character than the ampersand. -/
theorem unescape_cons_of_ne {c : CodePoint} (h : c ≠ '&') (s : Text) :
    unescape (c :: s) = c :: unescape s := by
  rw [unescape]
  all_goals
    rintro _ rfl
    exact absurd rfl h

/-- **What a character is written as is read as that character**, whatever follows. -/
theorem unescape_image_append (c : CodePoint) (s : Text) :
    unescape (image c ++ s) = c :: unescape s := by
  by_cases hc : c ∈ markup
  · simp only [markup, List.mem_cons, List.not_mem_nil, or_false] at hc
    rcases hc with rfl | rfl | rfl | rfl <;> rfl
  · have hamp : c ≠ '&' := fun h => hc (h ▸ by decide)
    rw [image_of_notMem hc]
    exact unescape_cons_of_ne hamp s

theorem unescape_html (s : Text) : unescape (html s) = s := by
  induction s with
  | nil => rfl
  | cons c s ih => rw [html_cons, unescape_image_append, ih]

theorem html_eq_flatMap (s : Text) : html s = s.flatMap image := by
  induction s with
  | nil => rfl
  | cons c s ih => rw [html_cons, ih, List.flatMap_cons]

/-- **Escaping is exact, and can be undone.** The replacements made one after the other come to the
images of the characters in a row, so texts may be escaped apart; and one pass over escaped text
gives the text that it was made of. -/
theorem html_exact (s t : Text) :
    html s = s.flatMap image ∧ html (s ++ t) = html s ++ html t ∧ unescape (html s) = s :=
  ⟨html_eq_flatMap s, html_append s t, unescape_html s⟩

/-- An entity in the text is kept as it is: its ampersand becomes one more entity, and the rest of
it is not read as a part of that. -/
example : html "&lt;<".toText = "&amp;lt;&lt;".toText ∧
    unescape "&amp;lt;&lt;".toText = "&lt;<".toText := by decide

end Mustache.Escape
