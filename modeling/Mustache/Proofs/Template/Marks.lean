import Mustache.Template.Basic

/-!
# Trees as rows of marks

A list of nodes, written out from left to right, is a row of marks: a block is the mark that opens
it, its body, and the mark that closes it. The row determines the nodes (`marksAll_injective`), so a
tree may be spoken of through its marks, where nothing is nested.

`Mark.joined` makes one text of texts that stand next to each other.

* `Mark.joined_append_joined` — joining a part first changes nothing
* `Node.tidy_of_apart` — nodes whose marks are joined are tidy at every depth
-/

namespace Mustache

/-- What a row of nodes is written with. -/
inductive Mark where
  | text (s : Text)
  | value (name : Text) (escape : Bool)
  | opening (name : Text) (inverted : Bool)
  | closing (name : Text)
  | inclusion (name indentation : Text) (standalone : Bool)
deriving DecidableEq, Repr

namespace Mark

/-! ## Texts next to each other -/

/-- The text that the mark is. -/
def text? : Mark → Option Text
  | text s => some s
  | _ => none

/-- Does a row begin with text? -/
def startsWithText : List Mark → Bool
  | text _ :: _ => true
  | _ => false

/-- A mark in front of a row; a text joins on to the text it is put before. -/
def push : Mark → List Mark → List Mark
  | text s, text t :: ms => text (s ++ t) :: ms
  | m, ms => m :: ms

/-- The row with texts next to each other made one. -/
def joined (ms : List Mark) : List Mark := ms.foldr push []

/-- No two texts of the row are next to each other. -/
def Apart : List Mark → Prop
  | [] => True
  | m :: ms => (m.text? = none ∨ startsWithText ms = false) ∧ Apart ms

theorem joined_cons (m : Mark) (ms : List Mark) : joined (m :: ms) = push m (joined ms) := rfl

theorem push_of_text?_eq_none {m : Mark} (h : m.text? = none) (ms : List Mark) :
    push m ms = m :: ms := by
  cases m with
  | text s => cases h
  | _ => rfl

theorem push_of_startsWithText_eq_false {ms : List Mark} (h : startsWithText ms = false)
    (m : Mark) : push m ms = m :: ms := by
  cases ms with
  | nil => cases m <;> rfl
  | cons n ms =>
    cases n with
    | text t => cases h
    | _ => cases m <;> rfl

theorem push_text_text (s t : Text) (ms : List Mark) :
    push (text s) (text t :: ms) = text (s ++ t) :: ms := rfl

/-- Two texts put before a row are one text put before it. -/
theorem push_push_text (s t : Text) (ms : List Mark) :
    push (text s) (push (text t) ms) = push (text (s ++ t)) ms := by
  cases hs : startsWithText ms with
  | false =>
    rw [push_of_startsWithText_eq_false hs, push_of_startsWithText_eq_false hs, push_text_text]
  | true =>
    cases ms with
    | nil => cases hs
    | cons n ms =>
      cases n with
      | text u => simp only [push_text_text, List.append_assoc]
      | _ => cases hs

/-- **Joining a part of a row first changes nothing.** -/
theorem joined_append_joined (as bs : List Mark) :
    joined (joined as ++ bs) = joined (as ++ bs) := by
  induction as with
  | nil => rfl
  | cons m as ih =>
    rw [List.cons_append, joined_cons, joined_cons, ← ih]
    cases ht : m.text? with
    | none =>
      rw [push_of_text?_eq_none ht]
      rfl
    | some s =>
      cases m with
      | text s =>
        cases hj : joined as with
        | nil => rfl
        | cons n ns =>
          cases n with
          | text t =>
            rw [push_text_text, List.cons_append, List.cons_append, joined_cons, joined_cons,
              push_push_text]
          | _ => rfl
      | _ => cases ht

theorem joined_append (as bs : List Mark) : joined (as ++ bs) = as.foldr push (joined bs) :=
  List.foldr_append

theorem joined_congr_append (as : List Mark) {bs bs' : List Mark} (h : joined bs = joined bs') :
    joined (as ++ bs) = joined (as ++ bs') := by
  rw [joined_append, joined_append, h]

/-- Two texts next to each other may be made one. -/
theorem joined_text_text (as : List Mark) (s t : Text) (bs : List Mark) :
    joined (as ++ text s :: text t :: bs) = joined (as ++ text (s ++ t) :: bs) := by
  apply joined_congr_append
  rw [joined_cons, joined_cons, joined_cons, push_push_text]

/-- A mark that is no text keeps the texts before it from those behind it. -/
theorem joined_append_cons {m : Mark} (hm : m.text? = none) (as bs : List Mark) :
    joined (as ++ m :: bs) = joined as ++ m :: joined bs := by
  induction as with
  | nil => rw [List.nil_append, joined_cons, push_of_text?_eq_none hm]; rfl
  | cons a as ih =>
    rw [List.cons_append, joined_cons, ih, joined_cons]
    cases hj : joined as with
    | nil =>
      rw [List.nil_append]
      cases m with
      | text s => cases hm
      | _ => cases a <;> rfl
    | cons n ns => cases a <;> cases n <;> rfl

/-- A text as a row: nothing when it is empty. -/
def ofText (s : Text) : List Mark := if s = [] then [] else [text s]

theorem ofText_of_ne_nil {s : Text} (h : s ≠ []) : ofText s = [text s] := if_neg h

/-- Text may be cut anywhere. -/
theorem joined_ofText_append (s t : Text) (ms : List Mark) :
    joined (ofText (s ++ t) ++ ms) = joined (ofText s ++ (ofText t ++ ms)) := by
  by_cases hs : s = []
  · rw [hs]
    rfl
  · by_cases ht : t = []
    · rw [ht, List.append_nil]
      rfl
    · have hst : s ++ t ≠ [] := fun h => hs (List.append_eq_nil_iff.mp h).1
      rw [ofText_of_ne_nil hs, ofText_of_ne_nil ht, ofText_of_ne_nil hst]
      exact (joined_text_text [] s t ms).symm

theorem apart_push {m : Mark} {ms : List Mark} (h : Apart ms) : Apart (push m ms) := by
  cases hs : startsWithText ms with
  | false =>
    rw [push_of_startsWithText_eq_false hs]
    exact ⟨Or.inr hs, h⟩
  | true =>
    cases ht : m.text? with
    | none =>
      rw [push_of_text?_eq_none ht]
      exact ⟨Or.inl ht, h⟩
    | some s =>
      cases ms with
      | nil => cases hs
      | cons n ms =>
        cases m with
        | text s =>
          cases n with
          | text t => exact ⟨Or.inr (h.1.resolve_left (by simp [text?])), h.2⟩
          | _ => cases hs
        | _ => cases ht

/-- In a joined row no two texts are next to each other. -/
theorem apart_joined (ms : List Mark) : Apart (joined ms) := by
  induction ms with
  | nil => exact True.intro
  | cons m ms ih => exact apart_push ih

/-- A row without texts next to each other is joined. -/
theorem joined_of_apart {ms : List Mark} (h : Apart ms) : joined ms = ms := by
  induction ms with
  | nil => rfl
  | cons m ms ih =>
    rw [joined_cons, ih h.2]
    rcases h.1 with ht | hs
    · exact push_of_text?_eq_none ht ms
    · exact push_of_startsWithText_eq_false hs m

theorem joined_joined (ms : List Mark) : joined (joined ms) = joined ms :=
  joined_of_apart (apart_joined ms)

theorem startsWithText_append {as : List Mark} (h : as ≠ []) (bs : List Mark) :
    startsWithText (as ++ bs) = startsWithText as := by
  cases as with
  | nil => exact absurd rfl h
  | cons m as => cases m <;> rfl

theorem Apart.left {as bs : List Mark} (h : Apart (as ++ bs)) : Apart as := by
  induction as with
  | nil => exact True.intro
  | cons m as ih =>
    rw [List.cons_append] at h
    refine ⟨?_, ih h.2⟩
    by_cases has : as = []
    · rw [has]; exact Or.inr rfl
    · rw [← startsWithText_append has bs]
      exact h.1

theorem Apart.right {as bs : List Mark} (h : Apart (as ++ bs)) : Apart bs := by
  induction as with
  | nil => exact h
  | cons m as ih => exact ih h.2

/-- Behind a row one text is as good as another. -/
theorem Apart.replace_text {as : List Mark} {s : Text} (h : Apart (as ++ [text s])) (t : Text) :
    Apart (as ++ [text t]) := by
  induction as with
  | nil => exact ⟨Or.inr rfl, True.intro⟩
  | cons m as ih =>
    rw [List.cons_append] at h ⊢
    refine ⟨?_, ih h.2⟩
    by_cases has : as = []
    · rw [has] at h ⊢; exact h.1
    · rw [startsWithText_append has, ← startsWithText_append has [text s]]
      exact h.1

/-- A mark that is no text may follow anything. -/
theorem Apart.concat {as : List Mark} (h : Apart as) {m : Mark} (hm : m.text? = none) :
    Apart (as ++ [m]) := by
  induction as with
  | nil => exact ⟨Or.inl hm, True.intro⟩
  | cons n as ih =>
    rw [List.cons_append]
    refine ⟨?_, ih h.2⟩
    by_cases has : as = []
    · rw [has]
      cases m with
      | text s => cases hm
      | _ => exact Or.inr rfl
    · rw [startsWithText_append has]
      exact h.1

theorem flatten_text?_push (m : Mark) (ms : List Mark) :
    ((push m ms).filterMap text?).flatten = ((m :: ms).filterMap text?).flatten := by
  cases hs : startsWithText ms with
  | false => rw [push_of_startsWithText_eq_false hs]
  | true =>
    cases ms with
    | nil => cases hs
    | cons n ms =>
      cases n with
      | text t =>
        cases m with
        | text s =>
          rw [push_text_text]
          simp [text?]
        | _ => rfl
      | _ => cases hs

/-- Joining keeps the text. -/
theorem flatten_text?_joined (ms : List Mark) :
    ((joined ms).filterMap text?).flatten = (ms.filterMap text?).flatten := by
  induction ms with
  | nil => rfl
  | cons m ms ih =>
    rw [joined_cons, flatten_text?_push, List.filterMap_cons, List.filterMap_cons]
    cases m.text? with
    | none => exact ih
    | some s => simp only [List.flatten_cons, ih]

theorem mem_push {m : Mark} {ms : List Mark} {s : Text} (h : text s ∈ push m ms) :
    text s ∈ m :: ms ∨ ∃ u t, m = text u ∧ text t ∈ ms ∧ s = u ++ t := by
  cases hs : startsWithText ms with
  | false =>
    rw [push_of_startsWithText_eq_false hs] at h
    exact Or.inl h
  | true =>
    cases ms with
    | nil => cases hs
    | cons n ms =>
      cases n with
      | text t =>
        cases m with
        | text u =>
          rw [push_text_text] at h
          rcases List.mem_cons.mp h with h | h
          · injection h with h
            exact Or.inr ⟨u, t, rfl, List.mem_cons_self, h⟩
          · exact Or.inl (List.mem_cons_of_mem _ (List.mem_cons_of_mem _ h))
        | _ => exact Or.inl h
      | _ => cases hs

/-- Joining texts that are not empty makes none that is. -/
theorem ne_nil_of_mem_joined {ms : List Mark} (h : ∀ s, text s ∈ ms → s ≠ []) :
    ∀ s, text s ∈ joined ms → s ≠ [] := by
  induction ms with
  | nil => exact h
  | cons m ms ih =>
    intro s hs
    have ih' := ih fun t ht => h t (List.mem_cons_of_mem _ ht)
    rcases mem_push hs with hs | ⟨u, t, rfl, -, rfl⟩
    · rcases List.mem_cons.mp hs with rfl | hs
      · exact h s List.mem_cons_self
      · exact ih' s hs
    · intro he
      exact h u List.mem_cons_self (List.append_eq_nil_iff.mp he).1

end Mark

namespace Node

/-! ## The marks of nodes -/

mutual

/-- The row of marks that a node is written with. -/
def marks (n : Node) : List Mark :=
  match n with
  | .text s => [.text s]
  | .interpolate name escape => [.value name escape]
  | .block name inverted body => .opening name inverted :: (marksAll body ++ [.closing name])
  | .inclusion name indentation standalone => [.inclusion name indentation standalone]
termination_by structural n

/-- The row of marks that nodes are written with. -/
def marksAll (ns : List Node) : List Mark :=
  match ns with
  | [] => []
  | n :: ns => n.marks ++ marksAll ns
termination_by structural ns

end

theorem marksAll_append (ms ns : List Node) :
    marksAll (ms ++ ns) = marksAll ms ++ marksAll ns := by
  induction ms with
  | nil => rfl
  | cons m ms ih => simp only [List.cons_append, marksAll, ih, List.append_assoc]

/-- A node does not begin by closing something. -/
theorem marks_ne_closing (n : Node) (name : Text) (x y : List Mark) :
    n.marks ++ x ≠ .closing name :: y := by
  cases n <;> simp [marks]

mutual

/-- A node is known from the marks it begins a row with. -/
theorem marks_append_inj (m n : Node) (x y : List Mark) (h : m.marks ++ x = n.marks ++ y) :
    m = n ∧ x = y := by
  match m, n with
  | .text s, .text t => simpa [marks] using h
  | .interpolate a e, .interpolate b f => simpa [marks, and_assoc] using h
  | .inclusion a i s, .inclusion b j t => simpa [marks, and_assoc] using h
  | .block a i ms, .block b j ns =>
    simp only [marks, List.cons_append, List.append_assoc, List.cons.injEq, Mark.opening.injEq,
      List.nil_append] at h
    obtain ⟨⟨hab, hij⟩, h⟩ := h
    obtain ⟨hmn, -, hxy⟩ := marksAll_append_closing_inj ms ns a b x y h
    exact ⟨by rw [hab, hij, hmn], hxy⟩
  | .text _, .interpolate .. | .text _, .block .. | .text _, .inclusion ..
  | .interpolate .., .text _ | .interpolate .., .block .. | .interpolate .., .inclusion ..
  | .block .., .text _ | .block .., .interpolate .. | .block .., .inclusion ..
  | .inclusion .., .text _ | .inclusion .., .interpolate .. | .inclusion .., .block .. =>
    simp [marks] at h
termination_by structural m

/-- Nodes are known from their marks up to the mark that closes what they are in. -/
theorem marksAll_append_closing_inj (ms ns : List Node) (a b : Text) (x y : List Mark)
    (h : marksAll ms ++ .closing a :: x = marksAll ns ++ .closing b :: y) :
    ms = ns ∧ a = b ∧ x = y := by
  match ms, ns with
  | [], [] => simpa [marksAll] using h
  | [], n :: ns =>
    rw [marksAll, marksAll, List.append_assoc] at h
    exact absurd h.symm (marks_ne_closing n a _ x)
  | m :: ms, [] =>
    rw [marksAll, marksAll, List.append_assoc] at h
    exact absurd h (marks_ne_closing m b _ y)
  | m :: ms, n :: ns =>
    rw [marksAll, marksAll, List.append_assoc, List.append_assoc] at h
    obtain ⟨hmn, h⟩ := marks_append_inj m n _ _ h
    obtain ⟨hmns, hab, hxy⟩ := marksAll_append_closing_inj ms ns a b x y h
    exact ⟨by rw [hmn, hmns], hab, hxy⟩
termination_by structural ms

end

/-- **Nodes are known from their marks.** -/
theorem marksAll_injective {ms ns : List Node} (h : marksAll ms = marksAll ns) : ms = ns :=
  (marksAll_append_closing_inj ms ns [] [] [] [] (by rw [h])).1

/-! ## Tidy nodes -/

/-- The text that the node is. -/
def text? : Node → Option Text
  | .text s => some s
  | _ => none

mutual

/-- Is the node a text that is not empty, or what may stand next to a text, with a tidy body? -/
def IsTidy (n : Node) : Prop :=
  match n with
  | .text s => s ≠ []
  | .block _ _ body => Tidy body
  | _ => True
termination_by structural n

/-- At no depth is a text empty or next to another text. -/
def Tidy (ns : List Node) : Prop :=
  match ns with
  | [] => True
  | n :: ns => n.IsTidy ∧ (n.text? = none ∨ ns.head?.bind text? = none) ∧ Tidy ns
termination_by structural ns

end

theorem startsWithText_marksAll (ns : List Node) :
    Mark.startsWithText (marksAll ns) = (ns.head?.bind text?).isSome := by
  cases ns with
  | nil => rfl
  | cons n ns => cases n <;> rfl

mutual

theorem isTidy_of_apart (n : Node) (hne : ∀ s, Mark.text s ∈ n.marks → s ≠ [])
    (h : Mark.Apart n.marks) : n.IsTidy := by
  match n with
  | .text s => exact hne s List.mem_cons_self
  | .interpolate .. | .inclusion .. => exact True.intro
  | .block name inverted body =>
    rw [marks] at h hne
    exact tidy_of_apart body
      (fun s hs => hne s (List.mem_cons_of_mem _ (List.mem_append_left _ hs))) h.2.left
termination_by structural n

/-- **Nodes are tidy when their marks hold no empty text and no two texts next to each other.** -/
theorem tidy_of_apart (ns : List Node) (hne : ∀ s, Mark.text s ∈ marksAll ns → s ≠ [])
    (h : Mark.Apart (marksAll ns)) : Tidy ns := by
  match ns with
  | [] => exact True.intro
  | n :: ns =>
    rw [marksAll] at h hne
    refine ⟨isTidy_of_apart n (fun s hs => hne s (List.mem_append_left _ hs)) h.left, ?_,
      tidy_of_apart ns (fun s hs => hne s (List.mem_append_right _ hs)) h.right⟩
    cases n with
    | text s =>
      have hs : Mark.startsWithText (marksAll ns) = false :=
        h.1.resolve_left (by simp [Mark.text?])
      rw [startsWithText_marksAll] at hs
      exact Or.inr (by simpa using hs)
    | _ => exact Or.inl rfl
termination_by structural ns

end

/-! ## Walking -/

/-- The texts met on a walk are those of the marks. -/
theorem filterMap_text?_visit (ns : List Node) :
    (visit ns).filterMap text? = (marksAll ns).filterMap Mark.text? := by
  fun_induction visit ns with
  | case1 => rfl
  | case2 n pending ih =>
    rw [List.filterMap_cons, ih, marksAll_append, List.filterMap_append, marksAll,
      List.filterMap_append]
    cases n with
    | block name inverted body =>
      simp only [text?, children, marks, List.filterMap_cons, List.filterMap_append, Mark.text?,
        List.filterMap_nil, List.append_nil]
    | _ => rfl

end Node
end Mustache
