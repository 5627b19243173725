import Mustache.Proofs.Template.Brackets
import Mustache.Proofs.Template.Building
import Mustache.Proofs.Template.Reading

/-!
# Templates are the balanced sources

A source is a template when its brackets are properly nested. Parsing accepts what the grammar of
brackets has, gives the one tree that is written with the marks of the tokens, and reports the first
token that does not fit.

* `Builder.feedAll_nested`, `Builder.leavesOpen_feedAll` — the builder and the grammar agree
* `Stream.build_eq_ok_iff` — which streams have a tree, and which tree it is
* `Stream.build_eq_error_iff` — which flaw the other streams have
* `Stream.build_eq_of_marks` — streams with the same marks
* `Template.parse_balanced` — the same of sources
-/

namespace Mustache

namespace Builder

/-! ## Builder and grammar -/

/-- The tags of the open blocks, the innermost first. -/
def openTags (b : Builder) : List Tag := b.blocks.map (·.tag)

theorem blocks_addText (s : Text) (b : Builder) : (b.addText s).blocks = b.blocks := by
  unfold addText
  split <;> rfl

theorem blocks_feed_of_not_bracket {t : Token} (h : t.isBracket = false) (b : Builder) :
    ∃ nodes, b.feed t = .ok ⟨nodes, b.blocks⟩ := by
  cases t with
  | run r =>
    refine ⟨(b.addText r.text).nodes, ?_⟩
    rw [feed, ← blocks_addText r.text b]
  | tag t =>
    cases hk : t.kind <;> simp only [Token.isBracket, TagKind.opens, hk] at h
    case openBlock | openInverted | closeBlock => cases h
    all_goals
      simp only [feed, hk]
      exact ⟨_, rfl⟩

theorem feed_of_opens {t : Tag} (h : t.kind.opens = true) (b : Builder) :
    b.feed (.tag t) = .ok (b.openBlock t) := by
  cases hk : t.kind <;> simp only [TagKind.opens, hk] at h
  case openBlock | openInverted => simp only [feed, hk]
  all_goals cases h

theorem feed_of_closes {t : Tag} (h : t.kind = .closeBlock) (b : Builder) :
    b.feed (.tag t) = b.closeBlock t := by
  simp only [feed, h]

theorem feed_of_delimiters {t : Tag} (h : t.kind = .delimiters) (b : Builder) :
    b.feed (.tag t) = .ok b := by
  simp only [feed, h]

/-- A nested row adds nodes and leaves the open blocks as they are. -/
theorem feedAll_nested {ts : List Token} (h : Nested ts) (b : Builder) :
    ∃ nodes, b.feedAll ts = .ok ⟨nodes, b.blocks⟩ := by
  induction h generalizing b with
  | nil => exact ⟨b.nodes, rfl⟩
  | @other t ts bracket _ ih =>
    obtain ⟨nodes, hfeed⟩ := blocks_feed_of_not_bracket bracket b
    obtain ⟨nodes', hrest⟩ := ih ⟨nodes, b.blocks⟩
    exact ⟨nodes', by rw [feedAll, hfeed]; exact hrest⟩
  | @block opened closed body ts opens closes name _ _ ihbody ihrest =>
    obtain ⟨inner, hbody⟩ := ihbody (b.openBlock opened)
    have hclose : feed ⟨inner, (b.openBlock opened).blocks⟩ (.tag closed) =
        .ok ⟨.block opened.name (opened.kind = .openInverted) inner.reverse :: b.nodes,
          b.blocks⟩ := by
      rw [feed_of_closes closes]
      simp only [closeBlock, openBlock, name, if_true]
    obtain ⟨nodes, hrest⟩ := ihrest
      ⟨.block opened.name (opened.kind = .openInverted) inner.reverse :: b.nodes, b.blocks⟩
    refine ⟨nodes, ?_⟩
    rw [List.cons_append, feedAll, feed_of_opens opens]
    show feedAll (b.openBlock opened) (body ++ .tag closed :: ts) = _
    rw [feedAll_append hbody, feedAll, hclose]
    exact hrest

theorem feedAll_leavesOpen {ts : List Token} {stack : List Tag} (h : LeavesOpen ts stack) :
    ∃ b, empty.feedAll ts = .ok b ∧ b.openTags = stack := by
  induction h with
  | nested nested =>
    obtain ⟨nodes, h⟩ := feedAll_nested nested empty
    exact ⟨_, h, rfl⟩
  | @opened ts us stack t before opens inside ih =>
    obtain ⟨b, hb, hstack⟩ := ih
    obtain ⟨nodes, h⟩ := feedAll_nested inside (b.openBlock t)
    refine ⟨⟨nodes, (b.openBlock t).blocks⟩, ?_, congrArg (t :: ·) hstack⟩
    rw [feedAll_append hb, feedAll, feed_of_opens opens]
    exact h

/-- The innermost open block is closed by a tag of its name, and by no other. -/
theorem closeBlock_cases (t : Tag) (b : Builder) :
    (∃ opened blocks nodes, b.openTags = opened :: blocks.map (·.tag) ∧ opened.name = t.name ∧
      b.closeBlock t = .ok ⟨nodes, blocks⟩) ∨
    (b.openTags.head?.map (·.name) ≠ some t.name ∧
      b.closeBlock t = .error ⟨.strayClose t.name (b.openTags.head?.map (·.name)), t.start⟩) := by
  obtain ⟨nodes, blocks⟩ := b
  cases blocks with
  | nil => exact Or.inr ⟨by simp [openTags], rfl⟩
  | cons block blocks =>
    obtain ⟨opened, before⟩ := block
    by_cases hname : opened.name = t.name
    · refine Or.inl ⟨opened, blocks,
        .block opened.name (opened.kind = .openInverted) nodes.reverse :: before, rfl, hname, ?_⟩
      simp only [closeBlock, hname, if_true]
    · refine Or.inr ⟨by simpa [openTags] using hname, ?_⟩
      simp only [closeBlock, if_neg hname]
      rfl

/-- One token more, in the builder and in the grammar. -/
theorem leavesOpen_feed {ts : List Token} {t : Token} {b b' : Builder}
    (hts : LeavesOpen ts b.openTags) (h : b.feed t = .ok b') :
    LeavesOpen (ts ++ [t]) b'.openTags := by
  by_cases hbracket : t.isBracket = false
  · obtain ⟨nodes, hfeed⟩ := blocks_feed_of_not_bracket hbracket b
    rw [hfeed] at h
    cases h
    exact hts.append (.other hbracket .nil)
  · cases t with
    | run r => exact absurd rfl hbracket
    | tag t =>
      by_cases hopens : t.kind.opens = true
      · rw [feed_of_opens hopens] at h
        cases h
        exact .opened hts hopens .nil
      · have hcloses : t.kind = .closeBlock := by
          simpa [Token.isBracket, hopens] using hbracket
        rw [feed_of_closes hcloses] at h
        rcases closeBlock_cases t b with ⟨opened, blocks, nodes, htags, hname, hok⟩ | ⟨-, herr⟩
        · rw [hok] at h
          cases h
          rw [htags] at hts
          exact hts.close hcloses hname
        · rw [herr] at h
          cases h

/-- **What a builder has accepted leaves open the blocks that are open in it.** -/
theorem leavesOpen_feedAll {ts us : List Token} {b b' : Builder}
    (hts : LeavesOpen ts b.openTags) (h : b.feedAll us = .ok b') :
    LeavesOpen (ts ++ us) b'.openTags := by
  induction us generalizing ts b with
  | nil =>
    cases h
    rw [List.append_nil]
    exact hts
  | cons u us ih =>
    rw [feedAll] at h
    split at h
    · next b₁ h₁ =>
      have := ih (leavesOpen_feed hts h₁) h
      rwa [List.append_assoc, List.singleton_append] at this
    · cases h

theorem leavesOpen_of_feedAll {ts : List Token} {b : Builder} (h : empty.feedAll ts = .ok b) :
    LeavesOpen ts b.openTags := by
  have hempty : LeavesOpen [] empty.openTags := .nested .nil
  exact leavesOpen_feedAll hempty h

/-- A token is refused when it closes a block and the innermost open one has another name. -/
theorem feed_eq_error_iff {b : Builder} {t : Token} {flaw : Flaw} :
    b.feed t = .error flaw ↔
      ∃ tag, t = .tag tag ∧ tag.kind = .closeBlock ∧
        b.openTags.head?.map (·.name) ≠ some tag.name ∧
        flaw = ⟨.strayClose tag.name (b.openTags.head?.map (·.name)), tag.start⟩ := by
  constructor
  · intro h
    cases t with
    | run r => cases h
    | tag t =>
      have hcloses : t.kind = .closeBlock := by
        cases hk : t.kind <;> simp only [feed, hk, reduceCtorEq] at h
        rfl
      rw [feed_of_closes hcloses] at h
      rcases closeBlock_cases t b with ⟨opened, blocks, nodes, -, -, hok⟩ | ⟨hname, herr⟩
      · rw [hok] at h
        cases h
      · rw [herr] at h
        cases h
        exact ⟨t, rfl, hcloses, hname, rfl⟩
  · rintro ⟨tag, rfl, hcloses, hname, rfl⟩
    rw [feed_of_closes hcloses]
    rcases closeBlock_cases tag b with ⟨opened, blocks, nodes, htags, hname', -⟩ | ⟨-, herr⟩
    · rw [htags, List.head?_cons, Option.map_some, hname'] at hname
      exact absurd rfl hname
    · exact herr

end Builder

namespace Stream

/-! ## Streams that have a tree -/

/-- **A stream has a tree when it can be read and is nested, and the tree is written with the marks
of the tokens.** -/
theorem build_eq_ok_iff {stream : Stream} {root : List Node} :
    stream.build = .ok root ↔
      stream.flaw = none ∧ Nested stream.tokens ∧
        Node.marksAll root = Mark.joined (stream.tokens.filterMap Token.mark?) := by
  constructor
  · intro h
    unfold build at h
    split at h
    · cases h
    · next b hb =>
      split at h
      · cases h
      · next hflaw =>
        obtain rfl := Builder.finish_eq_ok_iff.mp h
        have hmarks : Node.marksAll root.reverse.reverse =
            Mark.joined (stream.tokens.filterMap Token.mark?) :=
          Builder.marks_feedAll hb True.intro
        rw [List.reverse_reverse] at hmarks
        exact ⟨hflaw, (Builder.leavesOpen_of_feedAll hb).nested_of_nil, hmarks⟩
  · rintro ⟨hflaw, hnested, hroot⟩
    obtain ⟨nodes, hb⟩ := Builder.feedAll_nested hnested .empty
    have hmarks : Node.marksAll nodes.reverse =
        Mark.joined (stream.tokens.filterMap Token.mark?) :=
      Builder.marks_feedAll hb True.intro
    have hnodes : root = nodes.reverse := Node.marksAll_injective (hroot.trans hmarks.symm)
    unfold build
    rw [hb]
    simp only [hflaw]
    rw [hnodes]
    rfl

/-- **The flaw of a stream without a tree is the one that shows first.** -/
theorem build_eq_error_iff {stream : Stream} {flaw : Flaw} :
    stream.build = .error flaw ↔ stream.FirstFlaw flaw := by
  constructor
  · intro h
    unfold build at h
    split at h
    · next hb =>
      -- a token is not taken: it closes what is not open
      cases h
      obtain ⟨before, t, after, b', htokens, hbefore, hfeed⟩ := Builder.feedAll_eq_error_iff.mp hb
      obtain ⟨tag, rfl, hcloses, hname, rfl⟩ := Builder.feed_eq_error_iff.mp hfeed
      exact .strayClose htokens (Builder.leavesOpen_of_feedAll hbefore) hcloses hname
    · next b hb =>
      -- all tokens are taken: the stream stops, or a block is left open
      have hopen := Builder.leavesOpen_of_feedAll hb
      split at h
      · next hflaw =>
        cases h
        exact .unreadable hopen hflaw
      · next hflaw =>
        obtain ⟨nodes, blocks⟩ := b
        cases blocks with
        | nil => cases h
        | cons block blocks =>
          cases h
          exact .unclosedBlock hopen hflaw
  · intro h
    unfold build
    cases h with
    | strayClose tokens open_ closes name =>
      obtain ⟨b, hb, rfl⟩ := Builder.feedAll_leavesOpen open_
      have herr := Builder.feedAll_eq_error_iff.mpr ⟨_, _, _, b, tokens, hb,
        Builder.feed_eq_error_iff.mpr ⟨_, rfl, closes, name, rfl⟩⟩
      rw [herr]
    | unreadable open_ stops =>
      obtain ⟨b, hb, -⟩ := Builder.feedAll_leavesOpen open_
      rw [hb]
      simp only [stops]
    | @unclosedBlock t stack open_ finished =>
      obtain ⟨b, hb, htags⟩ := Builder.feedAll_leavesOpen open_
      obtain ⟨nodes, blocks⟩ := b
      cases blocks with
      | nil => cases htags
      | cons block blocks =>
        have htag : block.tag = t := (List.cons.inj htags).1
        rw [hb]
        simp only [finished, Builder.finish, htag]

end Stream

/-! ## The marks of a stream -/

/-- What counts of the mark when it begins or ends a block. -/
def Mark.bracket? : Mark → Option (Bool × Text)
  | opening name _ => some (true, name)
  | closing name => some (false, name)
  | _ => none

theorem Token.bracket?_eq_bind (t : Token) : t.bracket? = t.mark?.bind Mark.bracket? := by
  cases t with
  | run r => rfl
  | tag t =>
    cases hk : t.kind <;> simp only [bracket?, TagKind.opens, mark?, hk] <;> rfl

namespace Stream

/-- The marks of a stream. -/
def marks (s : Stream) : List Mark := s.tokens.filterMap Token.mark?

/-- The brackets of a stream are seen from its marks. -/
theorem filterMap_bracket?_marks (s : Stream) :
    s.marks.filterMap Mark.bracket? = s.tokens.filterMap Token.bracket? := by
  rw [marks, List.filterMap_filterMap]
  congr 1
  funext t
  exact t.bracket?_eq_bind.symm

/-- **Streams that can be read and have the same marks have the same tree, or the same kind of
flaw**: that of a block that is not closed, or is closed where it is not open. -/
theorem build_eq_of_marks {s t : Stream} (hs : s.flaw = none) (ht : t.flaw = none)
    (h : t.marks = s.marks) :
    (∃ root, s.build = .ok root ∧ t.build = .ok root) ∨
      ∃ flaw flaw', s.build = .error flaw ∧ t.build = .error flaw' ∧ flaw'.kind = flaw.kind ∧
        flaw.kind.IsUnbalanced := by
  have hbrackets : t.tokens.filterMap Token.bracket? = s.tokens.filterMap Token.bracket? := by
    rw [← filterMap_bracket?_marks, h, filterMap_bracket?_marks]
  cases hbuild : s.build with
  | ok root =>
    obtain ⟨-, hnested, hmarks⟩ := build_eq_ok_iff.mp hbuild
    refine Or.inl ⟨root, rfl, build_eq_ok_iff.mpr ⟨ht, hnested.of_bracket?_eq hbrackets, ?_⟩⟩
    exact hmarks.trans (congrArg Mark.joined h.symm)
  | error flaw =>
    have hfirst := build_eq_error_iff.mp hbuild
    obtain ⟨flaw', hflaw', hkind⟩ := hfirst.exists_of_bracket?_eq hbrackets (ht.trans hs.symm)
    exact Or.inr ⟨flaw, flaw', rfl, build_eq_error_iff.mpr hflaw', hkind,
      hfirst.isUnbalanced hs⟩

theorem marks_cons (gap : Run) (tag : Tag) (s : Stream) :
    (s.cons gap tag).marks =
      Mark.ofText gap.text ++ ((Token.mark? (.tag tag)).toList ++ s.marks) := by
  rw [marks, cons, List.filterMap_append, gap.filterMap_mark?_tokens, List.filterMap_cons]
  cases Token.mark? (.tag tag) <;> rfl

theorem marks_cons_congr {s s' : Stream} {gap gap' : Run} {tag tag' : Tag}
    (text : gap'.text = gap.text) (mark : Token.mark? (.tag tag') = Token.mark? (.tag tag))
    (rest : s'.marks = s.marks) : (s'.cons gap' tag').marks = (s.cons gap tag).marks := by
  rw [marks_cons, marks_cons, text, mark, rest]

theorem ne_nil_of_mem_tokens {r r' : Run} (h : .run r ∈ r'.tokens) : r.text ≠ [] := by
  unfold Run.tokens at h
  split at h
  · cases h
  · next hne =>
    cases List.mem_singleton.mp h
    exact hne

/-- No run of a reading is empty. -/
theorem ne_nil_of_reads {d : Delimiters} {u s : Text} {stream : Stream} {r : Run}
    (hread : Reads d u s stream) (h : .run r ∈ stream.tokens) : r.text ≠ [] := by
  induction hread with
  | finished none_left => exact ne_nil_of_mem_tokens h
  | unclosed opening closing => cases h
  | refused first pair =>
    rcases List.mem_append.mp h with h | h
    · exact ne_nil_of_mem_tokens h
    · simp at h
  | tag first pair rest ih =>
    rcases List.mem_append.mp h with h | h
    · exact ne_nil_of_mem_tokens h
    · exact ih (by simpa using h)

theorem ne_nil_of_mem_marks {source : Text} {d : Delimiters} {s : Text}
    (h : Mark.text s ∈ (ofSource source d 0).tokens.filterMap Token.mark?) : s ≠ [] := by
  obtain ⟨t, ht, hmark⟩ := List.mem_filterMap.mp h
  cases t with
  | run r =>
    injection hmark with hmark
    injection hmark with hmark
    rw [← hmark]
    exact ne_nil_of_reads (reads_ofSource d landing_nil source) ht
  | tag t => cases hk : t.kind <;> simp [Token.mark?, hk] at hmark

end Stream

/-- What parsing gives can be compared. -/
instance (name source : Text) (d : Delimiters) (t : Template) :
    Decidable (Template.parse name source d = .ok t) :=
  match h : Template.parse name source d with
  | .ok t' => decidable_of_iff (t' = t) (by simp)
  | .error _ => isFalse (by simp)

namespace Template

theorem parse_eq_ok_iff {name source : Text} {d : Delimiters} {t : Template} :
    parse name source d = .ok t ↔
      t.name = name ∧ (Stream.ofSource source d 0).build = .ok t.root := by
  obtain ⟨tname, root⟩ := t
  unfold parse
  cases (Stream.ofSource source d 0).build with
  | ok r => simp [eq_comm]
  | error flaw => simp

theorem parse_eq_error_iff {name source : Text} {d : Delimiters} {e : ParseError} :
    parse name source d = .error e ↔
      ∃ flaw, (Stream.ofSource source d 0).build = .error flaw ∧
        e = .ofFlaw (some name) source flaw := by
  unfold parse
  cases (Stream.ofSource source d 0).build with
  | ok r => simp
  | error flaw => simp [eq_comm]

/-- **Parsing accepts exactly the balanced sources, gives the one tree they denote, and reports the
first flaw of the others.** -/
theorem parse_balanced (name source : Text) (d : Delimiters) :
    let stream := Stream.ofSource source d 0
    let written := Mark.joined (stream.tokens.filterMap Token.mark?)
    ((∃ t, parse name source d = .ok t) ↔ stream.flaw = none ∧ Nested stream.tokens) ∧
    (∀ t, parse name source d = .ok t →
      t.name = name ∧ Node.Tidy t.root ∧ ∀ root, Node.marksAll root = written ↔ root = t.root) ∧
    (∀ e, parse name source d = .error e ↔
      ∃ flaw, stream.FirstFlaw flaw ∧ e = .ofFlaw (some name) source flaw) := by
  intro stream written
  refine ⟨⟨?_, ?_⟩, ?_, ?_⟩
  · rintro ⟨t, ht⟩
    obtain ⟨hflaw, hnested, -⟩ := Stream.build_eq_ok_iff.mp (parse_eq_ok_iff.mp ht).2
    exact ⟨hflaw, hnested⟩
  · rintro ⟨hflaw, hnested⟩
    -- the grammar says that there is a tree, and the builder finds it
    cases hbuild : stream.build with
    | ok root => exact ⟨⟨name, root⟩, parse_eq_ok_iff.mpr ⟨rfl, hbuild⟩⟩
    | error flaw =>
      obtain ⟨nodes, hb⟩ := Builder.feedAll_nested hnested .empty
      rw [Stream.build, hb] at hbuild
      simp only [hflaw] at hbuild
      cases hbuild
  · intro t ht
    obtain ⟨hname, hbuild⟩ := parse_eq_ok_iff.mp ht
    obtain ⟨-, -, hmarks⟩ := Stream.build_eq_ok_iff.mp hbuild
    refine ⟨hname, ?_, fun root => ⟨fun h => ?_, fun h => h ▸ hmarks⟩⟩
    · apply Node.tidy_of_apart
      · rw [hmarks]
        exact Mark.ne_nil_of_mem_joined fun s hs => Stream.ne_nil_of_mem_marks hs
      · rw [hmarks]
        exact Mark.apart_joined _
    · exact Node.marksAll_injective (h.trans hmarks.symm)
  · intro e
    rw [parse_eq_error_iff]
    simp only [Stream.build_eq_error_iff, stream]

end Template
end Mustache
