import Mustache.Proofs.Text.Respaced
import Mustache.Proofs.Token.Search

/-!
# Tags of a text with other blanks

No marker holds a blank, so a text written with other blanks has its markers where the text has
them. What a tag is for is not told from its blanks, its name is the name with other blanks, and a
set-delimiter tag names the same pair.

* `cut?_flatMap`, `opening?_flatMap` — where markers are found
* `kindAndName_flatMap` — what a tag is for, and its name
* `ofBody_flatMap` — the pair that a set-delimiter tag names, or what is wrong with it
-/

namespace Mustache

open Text

/-- What is wrong with the body of a set-delimiter tag, when it is written with other blanks. -/
def Delimiters.Fault.respaced (σ : CodePoint → Text) : Fault → Fault
  | .notTwoWords inner => .notTwoWords (inner.flatMap σ)
  | fault => fault

namespace Text.Respaces

variable {σ : CodePoint → Text} (h : Respaces σ)

include h

/-! ## Markers -/

theorem flatMap_marker {m : Text} (hm : IsMarker m) : m.flatMap σ = m :=
  h.flatMap_of_forall fun c hc => (hm.2 c hc).1

/-- A beginning without blanks is found in a text with other blanks. -/
theorem strip?_flatMap {m : Text} (hm : ∀ c ∈ m, isBlank c = false) (s : Text) :
    strip? m (s.flatMap σ) = (strip? m s).map (·.flatMap σ) := by
  induction m generalizing s with
  | nil => rfl
  | cons p m ih =>
    have hp := hm p List.mem_cons_self
    have hne {x : CodePoint} (hx : isBlank x = true) : p ≠ x := by
      rintro rfl
      rw [hp] at hx
      cases hx
    cases s with
    | nil => rfl
    | cons c s =>
      rw [List.flatMap_cons]
      cases hc : isBlank c with
      | true =>
        obtain ⟨x, k, hxk, hx, -⟩ := h.exists_blanks hc
        rw [hxk, List.cons_append, strip?, strip?, if_neg (hne hx), if_neg (hne hc)]
        rfl
      | false =>
        rw [h.same c hc, List.singleton_append, strip?, strip?]
        split
        · exact ih (fun x hx => hm x (List.mem_cons_of_mem p hx)) s
        · rfl

/-- **Other blanks hide no closing and make none.** -/
theorem cut?_flatMap {m : Text} (hm : IsMarker m) (s : Text) :
    cut? m (s.flatMap σ) = (cut? m s).map (Prod.map (·.flatMap σ) (·.flatMap σ)) := by
  induction s with
  | nil =>
    obtain ⟨p, m', rfl⟩ := List.exists_cons_of_ne_nil hm.1
    rfl
  | cons c s ih =>
    cases hc : isBlank c with
    | true =>
      have hcut := cut?_blanks hm (k := [c]) (by simpa using hc) s
      rw [List.flatMap_cons, cut?_blanks hm (h.blank c hc), ih, ← List.singleton_append, hcut,
        Option.map_map, Option.map_map]
      rfl
    | false =>
      have hstrip := h.strip?_flatMap (fun x hx => (hm.2 x hx).1) (c :: s)
      rw [List.flatMap_cons, h.same c hc, List.singleton_append] at hstrip ⊢
      rw [cut?, cut?, hstrip, ih]
      cases strip? m (c :: s) with
      | some rest => rfl
      | none =>
        simp only [Option.map_none, Option.map_map]
        congr 1
        funext parts
        simp only [Function.comp_apply, Prod.map, List.flatMap_cons, h.same c hc,
          List.singleton_append]

/-- **Other blanks hide no opening and make none.** -/
theorem opening?_flatMap (d : Delimiters) (s : Text) :
    opening? d (s.flatMap σ) =
      (opening? d s).map fun (gap, e, rest) => (gap.flatMap σ, e, rest.flatMap σ) := by
  induction s with
  | nil => rfl
  | cons c s ih =>
    cases hc : isBlank c with
    | true =>
      have hopening := opening?_blanks d (k := [c]) (by simpa using hc) s
      rw [List.flatMap_cons, opening?_blanks d (h.blank c hc), ih, ← List.singleton_append,
        hopening, Option.map_map, Option.map_map]
      rfl
    | false =>
      have hstrip (e : Enclosure) := h.strip?_flatMap
        (fun x hx => ((e.isMarker_opening d).2 x hx).1) (c :: s)
      simp only [List.flatMap_cons, h.same c hc, List.singleton_append] at hstrip ⊢
      rw [opening?, opening?, hstrip, hstrip, ih]
      cases strip? (Enclosure.triple.opening d) (c :: s) with
      | some rest => rfl
      | none =>
        cases strip? (Enclosure.active.opening d) (c :: s) with
        | some rest => rfl
        | none =>
          simp only [Option.map_none, Option.map_map]
          congr 1
          funext parts
          simp only [Function.comp_apply, List.flatMap_cons, h.same c hc, List.singleton_append]

/-- A tag in a text with other blanks. -/
theorem flatMap_write (d : Delimiters) (e : Enclosure) (body : Text) :
    (e.write d body).flatMap σ = e.write d (body.flatMap σ) := by
  simp only [Enclosure.write, List.flatMap_append, h.flatMap_marker (e.isMarker_opening d),
    h.flatMap_marker (e.isMarker_closing d)]

/-! ## What a tag says -/

/-- **What a tag is for is not told from its blanks**, and its name is the name with other
blanks. -/
theorem kindAndName_flatMap (e : Enclosure) (content : Text) :
    kindAndName e (content.flatMap σ) =
      ((kindAndName e content).1, (kindAndName e content).2.flatMap σ) := by
  cases e with
  | triple => rfl
  | active =>
    cases content with
    | nil => rfl
    | cons c name =>
      cases hc : isBlank c with
      | true =>
        -- nothing blank shows a kind, so the content is the name
        have hsigil {x : CodePoint} (hx : isBlank x = true) : TagKind.ofSigil? x = none := by
          unfold TagKind.ofSigil?
          split
          all_goals first | cases hx | rfl
        obtain ⟨x, k, hxk, hx, -⟩ := h.exists_blanks hc
        rw [List.flatMap_cons, hxk, List.cons_append, kindAndName, kindAndName, hsigil hx,
          hsigil hc]
        simp only [List.flatMap_cons, hxk, List.cons_append]
      | false =>
        have hcons : (c :: name).flatMap σ = c :: name.flatMap σ := by
          rw [List.flatMap_cons, h.same c hc, List.singleton_append]
        have hbrace := h.getLast?_flatMap_eq_some_iff (s := name) (c := '}') (by decide)
        rw [hcons, kindAndName, kindAndName]
        cases hk : TagKind.ofSigil? c with
        | none => simp only [hcons]
        | some kind =>
          have hname : (if c = '{' ∧ (name.flatMap σ).getLast? = some (char '}') then
              (kind, trim (name.flatMap σ).dropLast) else (kind, trim (name.flatMap σ))) =
              Prod.map id (·.flatMap σ) (if c = '{' ∧ name.getLast? = some (char '}') then
                (kind, trim name.dropLast) else (kind, trim name)) := by
            simp only [hbrace]
            split
            · next hc =>
              rw [h.dropLast_flatMap (by decide) hc.2, h.trim_flatMap]
              rfl
            · rw [h.trim_flatMap]
              rfl
          cases kind <;> first | rfl | exact hname

theorem kindOf_flatMap (e : Enclosure) (body : Text) :
    e.kindOf (body.flatMap σ) = e.kindOf body := by
  unfold Enclosure.kindOf
  rw [h.trim_flatMap, h.kindAndName_flatMap]

/-- **The same pair is named**, or what is wrong is wrong all the same. -/
theorem ofBody_flatMap (s : Text) :
    Delimiters.ofBody (s.flatMap σ) =
      (Delimiters.ofBody s).mapError (Delimiters.Fault.respaced σ) := by
  have hlast := h.getLast?_flatMap_eq_some_iff (s := trim s) (c := '=') (by decide)
  unfold Delimiters.ofBody
  simp only [h.trim_flatMap, hlast]
  by_cases heq : (trim s).getLast? = some (char '=')
  · rw [if_pos heq, if_pos heq, h.dropLast_flatMap (by decide) heq, h.words_flatMap,
      h.trim_flatMap]
    split
    · -- a marker that is no marker is the same marker
      unfold Delimiters.make Delimiters.markerFault
      repeat' split
      all_goals rfl
    · rfl
  · rw [if_neg heq, if_neg heq]
    rfl

end Text.Respaces
end Mustache
