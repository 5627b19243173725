import Mustache.Proofs.Template.Marks
import Mustache.Template.Parse

/-!
# What a builder has written

A tree under construction is written with marks like a finished one, except that the blocks still
open are not closed yet. Feeding a token puts its mark at the end, and texts that come to stand next
to each other become one. This is the invariant that every statement about parsed trees rests on.

* `Builder.marks_feed` — what one token adds
* `Token.mark?_congr` — what the mark of a tag is seen from
* `Builder.marks_feedAll` — what a row of tokens adds
* `Builder.feedAll_append` — a row is fed by feeding its parts in turn
-/

namespace Mustache

/-- The mark that a token leaves in the tree: none for remarks and changes of the delimiters. -/
def Token.mark? : Token → Option Mark
  | .run r => some (.text r.text)
  | .tag t =>
    match t.kind with
    | .interpolate => some (.value t.name true)
    | .interpolateRaw => some (.value t.name false)
    | .openBlock => some (.opening t.name false)
    | .openInverted => some (.opening t.name true)
    | .closeBlock => some (.closing t.name)
    | .inclusion => some (.inclusion t.name t.indentation t.isStandalone)
    | .comment | .delimiters => none

/-- The mark of a tag is seen from its kind, its name and the padding of its line. -/
theorem Token.mark?_congr {t t' : Tag} (kind : t'.kind = t.kind) (name : t'.name = t.name)
    (padding : t'.ownLine.map (·.padding) = t.ownLine.map (·.padding)) :
    mark? (.tag t') = mark? (.tag t) := by
  have hstandalone : t'.isStandalone = t.isStandalone := by
    rw [Tag.isStandalone, ← Option.isSome_map, padding, Option.isSome_map]
    rfl
  have hindentation : t'.indentation = t.indentation := by
    unfold Tag.indentation
    rw [kind]
    cases hl : t.ownLine with
    | none =>
      rw [hl, Option.map_none, Option.map_eq_none_iff] at padding
      rw [padding]
    | some line =>
      rw [hl, Option.map_some] at padding
      obtain ⟨line', hl', hpadding⟩ := Option.map_eq_some_iff.mp padding
      rw [hl']
      cases t.kind with
      | inclusion => exact hpadding
      | _ => rfl
  simp only [mark?, kind, name, hstandalone, hindentation]

theorem Run.filterMap_mark?_tokens (r : Run) :
    r.tokens.filterMap Token.mark? = Mark.ofText r.text := by
  unfold Run.tokens Mark.ofText
  split
  · rfl
  · rfl

namespace Mark

theorem apart_singleton (m : Mark) : Apart [m] := ⟨Or.inr rfl, True.intro⟩

theorem apart_append {as bs : List Mark} (ha : Apart as) (hb : Apart bs)
    (h : as.getLast?.bind text? = none ∨ startsWithText bs = false) : Apart (as ++ bs) := by
  induction as with
  | nil => exact hb
  | cons m as ih =>
    rw [List.cons_append]
    cases as with
    | nil => exact ⟨by simpa using h, hb⟩
    | cons n as =>
      refine ⟨?_, ih ha.2 (by simpa using h)⟩
      rw [startsWithText_append (by simp)]
      exact ha.1

end Mark

theorem Node.getLast?_marks {n : Node} (h : n.text? = none) :
    n.marks.getLast?.bind Mark.text? = none := by
  cases n with
  | text s => cases h
  | block name inverted body =>
    rw [marks, ← List.cons_append, List.getLast?_concat]
    rfl
  | _ => rfl

namespace Builder

/-! ## The marks written so far -/

/-- The marks of the nodes before the place reached in the open blocks, and of the openings. -/
def outerMarks : List OpenBlock → List Mark
  | [] => []
  | ⟨tag, before⟩ :: blocks =>
    outerMarks blocks ++ Node.marksAll before.reverse ++
      [.opening tag.name (tag.kind = .openInverted)]

/-- The marks written so far. -/
def marks (b : Builder) : List Mark := outerMarks b.blocks ++ Node.marksAll b.nodes.reverse

theorem getLast?_outerMarks (blocks : List OpenBlock) :
    (outerMarks blocks).getLast?.bind Mark.text? = none := by
  cases blocks with
  | nil => rfl
  | cons block blocks =>
    rw [outerMarks, List.getLast?_concat]
    rfl

theorem marks_add (n : Node) (b : Builder) : (b.add n).marks = b.marks ++ n.marks := by
  simp only [marks, add, List.reverse_cons, Node.marksAll_append, Node.marksAll, List.append_nil,
    List.append_assoc]

/-- More text joins on to text just before it. -/
theorem marks_addText {b : Builder} (h : Mark.Apart b.marks) (s : Text) :
    (b.addText s).marks = Mark.joined (b.marks ++ [.text s]) := by
  obtain ⟨nodes, blocks⟩ := b
  -- where no text comes just before, the new one stays apart
  have hadd : (∀ t ns, nodes ≠ .text t :: ns) →
      (add (.text s) ⟨nodes, blocks⟩).marks = Mark.joined (marks ⟨nodes, blocks⟩ ++ [.text s]) := by
    intro hne
    rw [marks_add]
    refine (Mark.joined_of_apart (Mark.apart_append h (Mark.apart_singleton _) (Or.inl ?_))).symm
    cases nodes with
    | nil =>
      rw [marks, List.reverse_nil, Node.marksAll, List.append_nil]
      exact getLast?_outerMarks blocks
    | cons n nodes =>
      have hn : n.text? = none := by
        cases n with
        | text t => exact absurd rfl (hne t nodes)
        | _ => rfl
      have hmarks : n.marks ≠ [] := by cases n <;> simp [Node.marks]
      rw [show Builder.mk (n :: nodes) blocks = add n ⟨nodes, blocks⟩ from rfl, marks_add,
        List.getLast?_append, List.getLast?_eq_some_getLast hmarks, Option.some_or,
        ← List.getLast?_eq_some_getLast hmarks]
      exact Node.getLast?_marks hn
  cases nodes with
  | nil => exact hadd (by simp)
  | cons n nodes =>
    cases n with
    | text t =>
      -- the text just before is replaced by a longer one
      have hbefore : marks ⟨.text t :: nodes, blocks⟩ = marks ⟨nodes, blocks⟩ ++ [.text t] :=
        marks_add (.text t) ⟨nodes, blocks⟩
      have hafter : (addText s ⟨.text t :: nodes, blocks⟩).marks =
          marks ⟨nodes, blocks⟩ ++ [.text (t ++ s)] := marks_add (.text (t ++ s)) ⟨nodes, blocks⟩
      rw [hbefore] at h
      rw [hbefore, hafter, List.append_assoc, List.singleton_append, Mark.joined_text_text,
        Mark.joined_of_apart (h.replace_text _)]
    | _ => exact hadd (by simp)

theorem marks_openBlock (tag : Tag) (b : Builder) :
    (b.openBlock tag).marks = b.marks ++ [.opening tag.name (tag.kind = .openInverted)] := by
  simp only [marks, openBlock, outerMarks, List.reverse_nil, Node.marksAll, List.append_nil]

theorem marks_closeBlock {tag : Tag} {b b' : Builder} (h : b.closeBlock tag = .ok b') :
    b'.marks = b.marks ++ [.closing tag.name] := by
  obtain ⟨nodes, blocks⟩ := b
  cases blocks with
  | nil => cases h
  | cons block blocks =>
    obtain ⟨opened, before⟩ := block
    simp only [closeBlock] at h
    split at h
    · next hname =>
      cases h
      simp only [marks, outerMarks, List.reverse_cons, Node.marksAll_append, Node.marksAll,
        Node.marks, hname, List.append_nil, List.append_assoc, List.cons_append, List.nil_append]
    · cases h

/-- **A token puts its mark at the end of the marks written so far.** -/
theorem marks_feed {b b' : Builder} {t : Token} (h : b.feed t = .ok b')
    (hb : Mark.Apart b.marks) : b'.marks = Mark.joined (b.marks ++ t.mark?.toList) := by
  have hconcat {m : Mark} (hm : m.text? = none) :
      Mark.joined (b.marks ++ [m]) = b.marks ++ [m] := Mark.joined_of_apart (hb.concat hm)
  cases t with
  | run r =>
    cases h
    exact marks_addText hb r.text
  | tag t =>
    cases hk : t.kind <;> simp only [feed, hk, Except.ok.injEq] at h <;>
      simp only [Token.mark?, hk, Option.toList_some, Option.toList_none, List.append_nil]
    case interpolate | interpolateRaw | inclusion =>
      rw [← h, marks_add, hconcat rfl]
      rfl
    case openBlock | openInverted =>
      rw [← h, marks_openBlock, hconcat rfl, hk]
      rfl
    case closeBlock => rw [marks_closeBlock h, hconcat rfl]
    case comment | delimiters => rw [← h, Mark.joined_of_apart hb]

/-- **A row of tokens puts its marks at the end of the marks written so far.** -/
theorem marks_feedAll {b b' : Builder} {ts : List Token} (h : b.feedAll ts = .ok b')
    (hb : Mark.Apart b.marks) : b'.marks = Mark.joined (b.marks ++ ts.filterMap Token.mark?) := by
  induction ts generalizing b with
  | nil =>
    cases h
    rw [List.filterMap_nil, List.append_nil, Mark.joined_of_apart hb]
  | cons t ts ih =>
    rw [feedAll] at h
    split at h
    · next b₁ h₁ =>
      have hm := marks_feed h₁ hb
      rw [ih h (hm ▸ Mark.apart_joined _), hm, Mark.joined_append_joined, List.append_assoc]
      congr 2
      rw [List.filterMap_cons]
      cases t.mark? <;> rfl
    · cases h

/-! ## Feeding in parts -/

theorem feedAll_append {b b' : Builder} {ts : List Token} (h : b.feedAll ts = .ok b')
    (us : List Token) : b.feedAll (ts ++ us) = b'.feedAll us := by
  induction ts generalizing b with
  | nil => cases h; rfl
  | cons t ts ih =>
    rw [feedAll] at h
    rw [List.cons_append, feedAll]
    split at h
    · next h₁ => exact ih h
    · cases h

/-- Where the feeding of a row stops, a token does not fit what the tokens before it have left. -/
theorem feedAll_eq_error_iff {b : Builder} {ts : List Token} {flaw : Flaw} :
    b.feedAll ts = .error flaw ↔
      ∃ before t after b', ts = before ++ t :: after ∧ b.feedAll before = .ok b' ∧
        b'.feed t = .error flaw := by
  constructor
  · intro h
    induction ts generalizing b with
    | nil => cases h
    | cons t ts ih =>
      rw [feedAll] at h
      split at h
      · next b₁ h₁ =>
        obtain ⟨before, t', after, b', rfl, hbefore, hfeed⟩ := ih h
        exact ⟨t :: before, t', after, b', rfl, by rw [feedAll, h₁]; exact hbefore, hfeed⟩
      · next h₁ =>
        cases h
        exact ⟨[], t, ts, b, rfl, rfl, h₁⟩
  · rintro ⟨before, t, after, b', rfl, hbefore, hfeed⟩
    rw [feedAll_append hbefore, feedAll, hfeed]

theorem finish_eq_ok_iff {b : Builder} {ns : List Node} :
    b.finish = .ok ns ↔ b = ⟨ns.reverse, []⟩ := by
  obtain ⟨nodes, blocks⟩ := b
  cases blocks with
  | nil =>
    simp only [finish, Except.ok.injEq, Builder.mk.injEq, and_true]
    constructor
    · intro h; rw [← h, List.reverse_reverse]
    · intro h; rw [h, List.reverse_reverse]
  | cons block blocks => simp [finish]

end Builder
end Mustache
