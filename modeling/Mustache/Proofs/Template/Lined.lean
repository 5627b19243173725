import Mustache.Proofs.Template.Balanced
import Mustache.Proofs.Text.Indent

/-!
# Line-structured sources

In a line-structured source a tag that opens or closes a block, or includes a template, has its line
to itself; a value does not go over the end of a line; and the source ends where a line does.
Remarks and changes of the delimiters may stand anywhere.

What counts when such a template is rendered is where lines begin in the row of its marks
(`Mark.Lined`): blocks and inclusions stand where a line begins, and at the end one begins again. In
the source more than that can be seen. A line may have begun with a remark, of which no mark is
left; then the marks go on with text or a value of that same line (`Mark.Flows`).

* `FirstTag.inline_or_ownLine` — the two sorts of tags of a line-structured source
* `Reads.lined`, `Reads.flows` — the marks of a reading
* `Node.lined_of_marks` — the nodes of a line-structured template
-/

namespace Mustache

open Text

/-! ## Line-structured sources -/

/-- The source of a tag. -/
def Tag.slice (source : Text) (t : Tag) : Text := (source.drop t.start).take (t.stop - t.start)

/-- Does a tag of this kind open or close a block, or include a template? -/
def TagKind.structures : TagKind → Bool
  | .openBlock | .openInverted | .closeBlock | .inclusion => true
  | _ => false

/-- Does a tag of this kind leave nothing in the tree? -/
def TagKind.isSilent : TagKind → Bool
  | .comment | .delimiters => true
  | _ => false

/-- The tag has its line to itself if it has to, and is on one line if it has to be. -/
def Tag.KeepsLine (source : Text) (t : Tag) : Prop :=
  (t.kind.structures → t.isStandalone) ∧ (¬ t.kind.isSilent → char '\n' ∉ t.slice source)

instance (source : Text) (t : Tag) : Decidable (t.KeepsLine source) :=
  inferInstanceAs (Decidable (_ ∧ _))

/-- The same of a token; runs are free. -/
def Token.KeepsLine (source : Text) : Token → Prop
  | .run _ => True
  | .tag t => t.KeepsLine source

instance (source : Text) : (t : Token) → Decidable (t.KeepsLine source)
  | .run _ => isTrue True.intro
  | .tag t => inferInstanceAs (Decidable (t.KeepsLine source))

/-- The source is empty or ends with a line feed; its tags that open or close blocks or include
templates have their lines to themselves; no tags but comments and set-delimiter tags go over the
end of a line. -/
def LineStructured (source : Text) : Prop :=
  WholeLines source ∧
    ∀ t ∈ (Stream.ofSource source .standard 0).tokens, t.KeepsLine source

instance (source : Text) : Decidable (LineStructured source) :=
  inferInstanceAs (Decidable (_ ∧ _))

/-! ## Rows of marks in lines -/

namespace Mark

/-- Does a line begin behind the mark, when `begins` says whether one begins before it? -/
def lineBegins (begins : Bool) : Mark → Bool
  | text s => lineBeginsAfter begins s
  | value .. => false
  | opening .. | closing _ | inclusion .. => true

/-- Blocks and inclusions are for the beginning of a line, and inclusions are standalone. -/
def Fits (begins : Bool) : Mark → Prop
  | text _ | value .. => True
  | opening .. | closing _ => begins = true
  | inclusion _ _ standalone => begins = true ∧ standalone = true

/-- All marks of the row are where they are for, and a line begins at the end. -/
def Lined : Bool → List Mark → Prop
  | begins, [] => begins = true
  | begins, m :: ms => m.Fits begins ∧ Lined (m.lineBegins begins) ms

/-- The row begins with something that is written on the line it begins on. -/
def Flows : List Mark → Prop
  | text s :: _ => s ≠ []
  | value .. :: _ => True
  | _ => False

/-- The mark opens or closes a block, or is a standalone inclusion. -/
def Structures : Mark → Prop
  | opening .. | closing _ => True
  | inclusion _ _ standalone => standalone = true
  | _ => False

theorem Structures.fits {m : Mark} (h : m.Structures) : m.Fits true := by
  cases m with
  | opening | closing => rfl
  | inclusion => exact ⟨rfl, h⟩
  | _ => cases h

theorem Structures.lineBegins {m : Mark} (h : m.Structures) (b : Bool) : m.lineBegins b = true := by
  cases m with
  | opening | closing | inclusion => rfl
  | _ => cases h

theorem lined_push {b : Bool} {m : Mark} {ms : List Mark} :
    Lined b (push m ms) ↔ Lined b (m :: ms) := by
  cases hs : startsWithText ms with
  | false => rw [push_of_startsWithText_eq_false hs]
  | true =>
    cases ms with
    | nil => cases hs
    | cons n ms =>
      cases n with
      | text t =>
        cases m with
        | text s =>
          rw [push_text_text]
          simp only [Lined, Fits, lineBegins, lineBeginsAfter_append, true_and]
        | _ => rfl
      | _ => cases hs

/-- Where texts are cut does not count. -/
theorem lined_joined {b : Bool} {ms : List Mark} : Lined b (joined ms) ↔ Lined b ms := by
  induction ms generalizing b with
  | nil => rfl
  | cons m ms ih =>
    rw [joined_cons, lined_push]
    exact and_congr_right fun _ => ih

end Mark

/-! ## The tags of a line-structured source -/

theorem slice_eq {t : Tag} {before written after : Text} (hstart : t.start = before.length)
    (hstop : t.stop = (before ++ written).length) :
    t.slice (before ++ written ++ after) = written := by
  rw [Tag.slice, hstart, hstop, List.append_assoc, List.drop_left, List.length_append,
    Nat.add_sub_cancel_left, List.take_left]

/-- A tag that has to be on one line has no line feed in its body. -/
theorem Tag.KeepsLine.notMem_body {d : Delimiters} {e : Enclosure} {before body after : Text}
    {t : Tag} (h : t.KeepsLine (before ++ e.write d body ++ after))
    (hkind : t.kind = e.kindOf body) (hstart : t.start = before.length)
    (hstop : t.stop = (before ++ e.write d body).length) :
    (e.kindOf body).isSilent = false → char '\n' ∉ body := by
  intro hsilent hbody
  refine h.2 (by rw [hkind, hsilent]; exact Bool.false_ne_true) ?_
  rw [slice_eq hstart hstop]
  exact List.mem_append_left _ (List.mem_append_right _ hbody)

/-- What leaves a mark and has not its line to itself is a value. -/
theorem Token.mark?_of_not_structures {t : Tag} (h : t.kind.structures = false) :
    mark? (.tag t) = none ∨ ∃ name escape, mark? (.tag t) = some (.value name escape) := by
  cases hk : t.kind <;> rw [hk] at h <;> simp only [mark?, hk]
  case interpolate | interpolateRaw => exact Or.inr ⟨_, _, rfl⟩
  case comment | delimiters => exact Or.inl True.intro
  all_goals cases h

/-- What has its line to itself leaves no mark, or one that structures. -/
theorem Token.structures_of_ownsLine {t : Tag} (h : t.kind.ownsLine = true)
    (hs : t.isStandalone = true) {m : Mark} (hm : mark? (.tag t) = some m) : m.Structures := by
  cases hk : t.kind <;> simp only [mark?, hk, reduceCtorEq, Option.some.injEq] at hm
  case interpolate | interpolateRaw =>
    rw [hk] at h
    cases h
  case openBlock | openInverted | closeBlock =>
    rw [← hm]
    exact True.intro
  case inclusion =>
    rw [← hm]
    exact hs

/-- **The tags of a line-structured source are of two sorts.** A tag among other things on a line
leaves a value or no mark, and reading goes on in the middle of the line; a tag with a line to
itself stands where a line begins, and reading goes on where the next one does. -/
theorem FirstTag.inline_or_ownLine {d : Delimiters} {u s kept u' s' : Text} {tag : Tag}
    (h : FirstTag d u s kept tag u' s') (hs : WholeLines s) (keeps : tag.KeepsLine (u ++ s)) :
    (tag.isStandalone = false ∧ isPadding (lastLine u') = false ∧
      (Token.mark? (.tag tag) = none ∨
        ∃ name escape, Token.mark? (.tag tag) = some (.value name escape))) ∨
    (tag.isStandalone = true ∧ WholeLines (u ++ kept) ∧ WholeLines u' ∧
      ∀ m, Token.mark? (.tag tag) = some m → m.Structures) := by
  cases h with
  | @inline body _ e found alone =>
    have hpad := isPadding_lastLine_write d e (u ++ kept) body (List.not_mem_nil (a := char '\n'))
    rw [List.append_nil] at hpad
    refine Or.inl ⟨rfl, hpad, Token.mark?_of_not_structures ?_⟩
    cases hk : (tagOf d e (u ++ kept).length body).kind.structures with
    | false => rfl
    | true => cases keeps.1 hk
  | @ownLine padding body lineEnd _ e found alone whole line lineEnd_eq =>
    refine Or.inr ⟨rfl, whole, ?_, fun m hm => Token.structures_of_ownsLine alone.1 rfl hm⟩
    obtain ⟨l, r, hlr, hl⟩ := List.eq_append_cons_of_mem (found.lineFeed_mem hs)
    rw [hlr, (OwnLine.lineEnd_append_lineFeed hl r).1] at lineEnd_eq
    rw [← lineEnd_eq, ← List.append_assoc]
    exact wholeLines_concat _

/-! ## The marks of a reading -/

/-- A stream without a flaw, of a source of whole lines whose tags keep to their lines. -/
structure Stream.InLines (source : Text) (stream : Stream) : Prop where
  flaw : stream.flaw = none
  whole : WholeLines source
  keeps : ∀ t ∈ stream.tokens, t.KeepsLine source

theorem LineStructured.inLines {source : Text} (h : LineStructured source)
    (hflaw : (Stream.ofSource source .standard 0).flaw = none) :
    (Stream.ofSource source .standard 0).InLines source :=
  ⟨hflaw, h.1, h.2⟩

/-- What is read behind a tag is in lines, and the tag keeps to its line. -/
theorem FirstTag.inLines {d : Delimiters} {u s kept u' s' : Text} {tag : Tag} {stream : Stream}
    (first : FirstTag d u s kept tag u' s')
    (h : (stream.cons ⟨kept, u.length⟩ tag).InLines (u ++ s)) :
    tag.KeepsLine (u ++ s) ∧ stream.InLines (u' ++ s') := by
  obtain ⟨hflaw, whole, keeps⟩ := h
  rw [first.append_eq]
  refine ⟨keeps (.tag tag) (List.mem_append_right _ List.mem_cons_self), hflaw, whole, ?_⟩
  intro t ht
  exact keeps t (List.mem_append_right _ (List.mem_cons_of_mem _ ht))

theorem Mark.lined_ofText_append {s : Text} {b : Bool} {ms : List Mark} :
    Lined b (ofText s ++ ms) ↔ Lined (lineBeginsAfter b s) ms := by
  by_cases hs : s = []
  · rw [hs]
    rfl
  · rw [ofText_of_ne_nil hs]
    exact and_iff_right True.intro

/-- Behind a line that is more than padding no line begins. -/
theorem not_wholeLines_of_isPadding {u : Text} (h : isPadding (lastLine u) = false) :
    ¬ WholeLines u := by
  intro hw
  rw [lastLine_eq_nil_iff.mpr hw] at h
  cases h

/-- **The marks of a line-structured source are in lines.** -/
theorem Reads.lined {d : Delimiters} {u s : Text} {stream : Stream} (h : Reads d u s stream)
    (hlines : stream.InLines (u ++ s)) {b : Bool} (hb : WholeLines u → b = true) :
    Mark.Lined b stream.marks := by
  induction h generalizing b with
  | unclosed opening closing => cases hlines.flaw
  | refused first pair => cases hlines.flaw
  | @finished d u s none_left =>
    have whole := hlines.whole
    rw [Stream.marks, Run.filterMap_mark?_tokens, ← List.append_nil (Mark.ofText _),
      Mark.lined_ofText_append]
    refine whole.right.lineBeginsAfter fun hs => hb ?_
    rw [hs, List.append_nil] at whole
    exact whole
  | @tag d d' u s kept u' s' tag stream first pair rest ih =>
    obtain ⟨htag, hrest⟩ := first.inLines hlines
    have hnext := fun {b'} => ih hrest (b := b')
    rw [Stream.marks_cons, Mark.lined_ofText_append]
    rcases first.inline_or_ownLine hlines.whole.right htag with
      ⟨-, hpad, hmark⟩ | ⟨-, hkept, hu', hmark⟩
    · -- no line begins in the source behind the tag, so any row in lines will do
      have hu' : ¬ WholeLines u' := not_wholeLines_of_isPadding hpad
      rcases hmark with hmark | ⟨name, escape, hmark⟩
      · rw [hmark]
        exact hnext fun hw => absurd hw hu'
      · rw [hmark]
        exact ⟨True.intro, hnext fun hw => absurd hw hu'⟩
    · have hbegins : lineBeginsAfter b kept = true :=
        hkept.right.lineBeginsAfter fun hk => hb (by rwa [hk, List.append_nil] at hkept)
      rw [hbegins]
      cases hm : Token.mark? (.tag tag) with
      | none => exact hnext fun _ => rfl
      | some m =>
        refine ⟨(hmark m hm).fits, ?_⟩
        rw [(hmark m hm).lineBegins]
        exact hnext fun _ => rfl

/-- **From the middle of a line on the marks go on with what is written on that line.** -/
theorem Reads.flows {d : Delimiters} {u s : Text} {stream : Stream} (h : Reads d u s stream)
    (hlines : stream.InLines (u ++ s)) (hu : isPadding (lastLine u) = false) :
    Mark.Flows stream.marks := by
  induction h with
  | unclosed opening closing => cases hlines.flaw
  | refused first pair => cases hlines.flaw
  | @finished d u s none_left =>
    have hs : s ≠ [] := by
      rintro rfl
      have whole := hlines.whole
      rw [List.append_nil] at whole
      exact not_wholeLines_of_isPadding hu whole
    rw [Stream.marks, Run.filterMap_mark?_tokens, Mark.ofText_of_ne_nil hs]
    exact hs
  | @tag d d' u s kept u' s' tag stream first pair rest ih =>
    obtain ⟨htag, hrest⟩ := first.inLines hlines
    rw [Stream.marks_cons]
    by_cases hk : kept = []
    · rw [hk]
      rcases first.inline_or_ownLine hlines.whole.right htag with
        ⟨-, hpad, hmark⟩ | ⟨-, hkept, -, -⟩
      · rcases hmark with hmark | ⟨name, escape, hmark⟩
        · rw [hmark]
          exact ih hrest hpad
        · rw [hmark]
          exact True.intro
      · -- a line of its own cannot begin in the middle of one
        rw [hk, List.append_nil] at hkept
        exact absurd hkept (not_wholeLines_of_isPadding hu)
    · rw [Mark.ofText_of_ne_nil hk]
      exact hk

/-! ## Nodes in lines -/

/-- A row in lines is in lines up to the mark that closes a block, and from there on. -/
theorem Mark.lined_append_closing {b : Bool} {ms : List Mark} {name : Text} {ns : List Mark}
    (h : Lined b (ms ++ closing name :: ns)) : Lined b ms ∧ Lined true ns := by
  induction ms generalizing b with
  | nil => exact h
  | cons m ms ih =>
    obtain ⟨hm, hrest⟩ := h
    obtain ⟨hms, hns⟩ := ih hrest
    exact ⟨⟨hm, hms⟩, hns⟩

namespace Node

/-- Does a line begin behind the node, when `begins` says whether one begins before it? -/
def lineBegins (begins : Bool) : Node → Bool
  | .text s => lineBeginsAfter begins s
  | .interpolate .. => false
  | .block .. | .inclusion .. => true

mutual

/-- A block or an inclusion stands where a line begins, the inclusion is standalone, and the body of
the block is in lines. -/
def Fits (n : Node) (begins : Bool) : Prop :=
  match n with
  | .text _ | .interpolate .. => True
  | .block _ _ body => begins = true ∧ Lined body true
  | .inclusion _ _ standalone => begins = true ∧ standalone = true
termination_by structural n

/-- All nodes are where they fit, and a line begins at the end. -/
def Lined (ns : List Node) (begins : Bool) : Prop :=
  match ns with
  | [] => begins = true
  | n :: ns => n.Fits begins ∧ Lined ns (n.lineBegins begins)
termination_by structural ns

end

mutual

theorem fits_of_marks (n : Node) {b : Bool} {ms : List Mark} (h : Mark.Lined b (n.marks ++ ms)) :
    n.Fits b ∧ Mark.Lined (n.lineBegins b) ms := by
  match n with
  | .text s => exact ⟨True.intro, h.2⟩
  | .interpolate name escape => exact ⟨True.intro, h.2⟩
  | .inclusion name padding standalone => exact h
  | .block name inverted body =>
    rw [marks, List.cons_append, List.append_assoc, List.singleton_append] at h
    obtain ⟨hopening, hrest⟩ := h
    obtain ⟨hbody, hms⟩ := Mark.lined_append_closing hrest
    exact ⟨⟨hopening, lined_of_marks body hbody⟩, hms⟩
termination_by structural n

/-- **Nodes are in lines when their marks are.** -/
theorem lined_of_marks (ns : List Node) {b : Bool} (h : Mark.Lined b (marksAll ns)) :
    Lined ns b := by
  match ns with
  | [] => exact h
  | n :: ns =>
    rw [marksAll] at h
    obtain ⟨hn, hns⟩ := fits_of_marks n h
    exact ⟨hn, lined_of_marks ns hns⟩
termination_by structural ns

end

end Node

/-- The nodes of a line-structured template are in lines. -/
theorem Template.lined_of_parse {name source : Text} {t : Template} (hs : LineStructured source)
    (h : parse name source .standard = .ok t) : Node.Lined t.root true := by
  obtain ⟨hflaw, -, hmarks⟩ := Stream.build_eq_ok_iff.mp (parse_eq_ok_iff.mp h).2
  apply Node.lined_of_marks
  rw [hmarks, Mark.lined_joined]
  exact (reads_ofSource .standard landing_nil source).lined (hs.inLines hflaw) fun _ => rfl

end Mustache
