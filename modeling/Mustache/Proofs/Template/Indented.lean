import Mustache.Proofs.Template.Lined
import Mustache.Proofs.Token.Indent

/-!
# Parsing an indented source

The tree of an indented source is the tree of the source with the indentation put into its texts, in
front of the values that begin a line, and in front of the indentation of its inclusions. On marks
this is `Mark.indentAll`; it needs to know where lines begin in the row, and that is not the same as
where they begin in the source, since remarks leave no mark. In a line-structured source the two
agree in the end: behind a remark something else of its line follows.

* `FirstTag.exists_indent` — one step of a reading, in the indented source
* `Reads.exists_indent` — a reading, in the indented source
* `Template.parse_indented` — the tree of an indented source
-/

namespace Mustache

open Text

/-! ## Indented marks -/

namespace Mark

/-- A mark with the indentation of its line added to its own. -/
def further (indentation : Text) : Mark → Mark
  | inclusion name padding true => inclusion name (indentation ++ padding) true
  | m => m

/-- A mark on an indented line, as a row. -/
def indent (indentation : Text) (begins : Bool) : Mark → List Mark
  | text s => ofText (indentBefore indentation begins s)
  | value name escape => ofText (lead indentation begins) ++ [value name escape]
  | m => [m.further indentation]

/-- A row of marks with its lines indented. -/
def indentAll (indentation : Text) : Bool → List Mark → List Mark
  | _, [] => []
  | begins, m :: ms =>
    m.indent indentation begins ++ indentAll indentation (m.lineBegins begins) ms

section

variable (indentation : Text)

theorem Structures.indent_eq {m : Mark} (h : m.Structures) (b : Bool) :
    m.indent indentation b = [m.further indentation] := by
  cases m with
  | opening | closing | inclusion => rfl
  | _ => cases h

theorem indentAll_ofText_append (b : Bool) (s : Text) (ms : List Mark) :
    indentAll indentation b (ofText s ++ ms) =
      ofText (indentBefore indentation b s) ++
        indentAll indentation (lineBeginsAfter b s) ms := by
  by_cases hs : s = []
  · rw [hs]
    rfl
  · rw [ofText_of_ne_nil hs]
    rfl

/-- Where a block is closed a line begins, whatever comes before. -/
theorem indentAll_append_closing (b : Bool) (ms : List Mark) (name : Text) (ns : List Mark) :
    indentAll indentation b (ms ++ closing name :: ns) =
      indentAll indentation b ms ++ closing name :: indentAll indentation true ns := by
  induction ms generalizing b with
  | nil => rfl
  | cons m ms ih => rw [List.cons_append, indentAll, indentAll, ih, List.append_assoc]

theorem joined_indentAll_push (b : Bool) (m : Mark) (ms : List Mark) :
    joined (indentAll indentation b (push m ms)) = joined (indentAll indentation b (m :: ms)) := by
  cases hs : startsWithText ms with
  | false => rw [push_of_startsWithText_eq_false hs]
  | true =>
    cases ms with
    | nil => cases hs
    | cons n ms =>
      cases n with
      | text t =>
        cases m with
        | text s =>
          rw [push_text_text]
          simp only [indentAll, indent, lineBegins, lineBeginsAfter_append, indentBefore_append]
          exact joined_ofText_append _ _ _
        | _ => rfl
      | _ => cases hs

/-- **Where texts are cut does not count for the indented row.** -/
theorem joined_indentAll_joined (b : Bool) (ms : List Mark) :
    joined (indentAll indentation b (joined ms)) = joined (indentAll indentation b ms) := by
  induction ms generalizing b with
  | nil => rfl
  | cons m ms ih =>
    rw [joined_cons, joined_indentAll_push, indentAll, indentAll]
    exact joined_congr_append _ (ih _)

/-- In front of what goes on with its line, an indentation may stand as text. -/
theorem joined_lead_append (b : Bool) {ms : List Mark} (h : Flows ms) :
    joined (ofText (lead indentation b) ++ indentAll indentation false ms) =
      joined (indentAll indentation b ms) := by
  cases ms with
  | nil => cases h
  | cons m ms =>
    cases m with
    | text s =>
      have hs : s ≠ [] := h
      simp only [indentAll, indent, lineBegins, lineBeginsAfter_eq hs]
      rw [indentBefore_of_ne_nil indentation hs b]
      exact (joined_ofText_append _ _ _).symm
    | value name escape =>
      simp only [indentAll, indent, lineBegins, List.append_assoc]
      rfl
    | _ => cases h

end

end Mark

/-! ## A step in the indented source -/

/-- What a tag of an indented source is to the tag of the source. -/
structure Tag.Indents (indentation : Text) (d : Delimiters) (t t' : Tag) : Prop where
  kind : t'.kind = t.kind
  name : t.kind.isSilent = false → t'.name = t.name
  padding : t'.ownLine.map (·.padding) = t.ownLine.map (indentation ++ ·.padding)
  pair : ∀ d', t.pairAfter d = .ok d' → t'.pairAfter d = .ok d'

section

variable {indentation : Text} {d : Delimiters} {t t' : Tag}

/-- The tag leaves the same mark, further in. -/
theorem Tag.Indents.mark?_eq (h : Tag.Indents indentation d t t') :
    Token.mark? (.tag t') = (Token.mark? (.tag t)).map (Mark.further indentation) := by
  obtain ⟨hkind, hname, hpadding, -⟩ := h
  cases hk : t.kind <;> rw [hk] at hkind hname
  case comment | delimiters =>
    simp only [Token.mark?, hk, hkind]
    rfl
  case inclusion =>
    simp only [Token.mark?, Tag.indentation, Tag.isStandalone, hk, hkind, hname rfl]
    cases hl : t.ownLine with
    | none =>
      rw [hl, Option.map_none, Option.map_eq_none_iff] at hpadding
      rw [hpadding]
      rfl
    | some line =>
      rw [hl, Option.map_some] at hpadding
      obtain ⟨line', hl', hp⟩ := Option.map_eq_some_iff.mp hpadding
      rw [hl']
      show some (Mark.inclusion t.name line'.padding true) =
        some (Mark.inclusion t.name (indentation ++ line.padding) true)
      rw [hp]
  all_goals
    simp only [Token.mark?, hk, hkind, hname rfl]
    rfl

theorem Tag.Indents.withLine (h : Tag.Indents indentation d t t') (line : OwnLine)
    (start resume : Nat) :
    Tag.Indents indentation d (t.withLine line)
      (t'.withLine ⟨start, indentation ++ line.padding, resume⟩) :=
  ⟨h.kind, h.name, rfl, h.pair⟩

end

section

variable {indentation : Text} (hi : isPadding indentation = true)

include hi

theorem indents_tagOf (d : Delimiters) {e : Enclosure} {body : Text} (n n' : Nat)
    (keeps : (e.kindOf body).isSilent = false → char '\n' ∉ body) :
    Tag.Indents indentation d (tagOf d e n body)
      (tagOf d e n' (indentAfter indentation body)) where
  kind := e.kindOf_indentAfter hi body
  name hs := by
    rw [indentAfter_of_notMem indentation (keeps hs)]
    rfl
  padding := rfl
  pair d' hd := by
    have hkind : (tagOf d e n' (indentAfter indentation body)).kind = (tagOf d e n body).kind :=
      e.kindOf_indentAfter hi body
    unfold Tag.pairAfter at hd ⊢
    by_cases hk : (tagOf d e n body).kind = .delimiters
    · rw [if_pos hk] at hd
      rw [if_pos (hkind.trans hk)]
      have hname : (tagOf d e n' (indentAfter indentation body)).name =
          indentAfter indentation (tagOf d e n body).name := name_indentAfter hi e body
      rw [hname]
      exact Delimiters.ofBody_indentAfter hi hd
    · rw [if_neg hk] at hd
      rw [if_neg fun h => hk (hkind.symm.trans h)]
      exact hd

/-- The first tag is found where it belongs. -/
theorem Found.indent {d : Delimiters} {s gap body after : Text} {e : Enclosure}
    (h : Found d s gap e body after) (b : Bool) :
    Found d (indentBefore indentation b s) (lead indentation b ++ indentAfter indentation gap) e
      (indentAfter indentation body) (indentBefore indentation false after) := by
  have hbody : indentBefore indentation false (body ++ e.closing d ++ after) =
      indentAfter indentation body ++ e.closing d ++ indentBefore indentation false after :=
    indentBefore_append_of_notMem indentation (e.closing_ne_nil d)
      (d.closing_lineFeed_notMem e) false body after
  constructor
  · rw [opening?_indentBefore hi, h.opening, ← hbody]
    rfl
  · rw [← hbody, cut?_indentBefore hi (e.isMarker_closing d), h.closing]
    rfl

end

theorem lineBeginsAfter_true_of_isPadding_eq_false {u : Text}
    (h : isPadding (lastLine u) = false) : lineBeginsAfter true u = false := by
  rw [Bool.eq_false_iff, ne_eq, lineBeginsAfter_true_iff]
  exact not_wholeLines_of_isPadding h

section

variable {indentation : Text} (hi : isPadding indentation = true)

include hi

/-- A tag among other things on its line, in the indented source. -/
theorem Found.indent_inline {d : Delimiters} {u s kept body after : Text} {e : Enclosure}
    (found : Found d s kept e body after) (hs : WholeLines s)
    (alone : ¬ OwnLine.Alone (e.kindOf body) (u ++ kept) after) :
    ∃ n, FirstTag d (indentBefore indentation true u)
      (indentBefore indentation (lineBeginsAfter true u) s)
      (lead indentation (lineBeginsAfter true u) ++ indentAfter indentation kept)
      (tagOf d e n (indentAfter indentation body))
      (indentBefore indentation true (u ++ kept ++ e.write d body))
      (indentBefore indentation (lineBeginsAfter true (u ++ kept ++ e.write d body)) after) := by
  have hbefore := indentBefore_append_lead_append indentation u kept
  have halone : ¬ OwnLine.Alone (e.kindOf (indentAfter indentation body))
      (indentBefore indentation true u ++
        (lead indentation (lineBeginsAfter true u) ++ indentAfter indentation kept))
      (indentBefore indentation false after) := by
    rw [hbefore, e.kindOf_indentAfter hi, OwnLine.alone_indent hi (found.lineFeed_mem hs)]
    exact alone
  have hpad := isPadding_lastLine_write d e (u ++ kept) body (List.not_mem_nil (a := char '\n'))
  have hread : indentBefore indentation true (u ++ kept ++ e.write d body) =
      indentation ++ indentAfter indentation (u ++ kept) ++
        e.write d (indentAfter indentation body) := by
    have hwrite := indentBefore_write indentation d e true (u ++ kept) body []
    rw [List.append_nil, indentBefore, List.append_nil] at hwrite
    exact hwrite
  rw [List.append_nil] at hpad
  rw [lineBeginsAfter_true_of_isPadding_eq_false hpad, hread, ← hbefore]
  exact ⟨_, .inline (found.indent hi (lineBeginsAfter true u)) halone⟩

/-- A tag that has its line to itself, in the indented source: its padding is longer. -/
theorem Found.indent_ownLine {d : Delimiters} {u s kept padding body lineEnd after : Text}
    {e : Enclosure} (found : Found d s (kept ++ padding) e body (lineEnd ++ after))
    (hs : WholeLines s)
    (alone : OwnLine.Alone (e.kindOf body) (u ++ (kept ++ padding)) (lineEnd ++ after))
    (whole : WholeLines (u ++ kept)) (line : char '\n' ∉ padding)
    (lineEnd_eq : OwnLine.lineEnd (lineEnd ++ after) = lineEnd) :
    ∃ n start resume, FirstTag d (indentBefore indentation true u)
      (indentBefore indentation (lineBeginsAfter true u) s)
      (indentBefore indentation (lineBeginsAfter true u) kept)
      ((tagOf d e n (indentAfter indentation body)).withLine
        ⟨start, indentation ++ padding, resume⟩)
      (indentBefore indentation true (u ++ (kept ++ padding) ++ e.write d body ++ lineEnd))
      (indentBefore indentation
        (lineBeginsAfter true (u ++ (kept ++ padding) ++ e.write d body ++ lineEnd)) after) := by
  have hbefore := indentBefore_append_lead_append indentation u (kept ++ padding)
  -- the line ends with a line feed, and behind that the next one is indented
  have hn := found.lineFeed_mem hs
  obtain ⟨l, r, hlr, hl⟩ := List.eq_append_cons_of_mem hn
  rw [hlr, (OwnLine.lineEnd_append_lineFeed hl r).1] at lineEnd_eq
  have hrest (rest : Text) : indentBefore indentation false (lineEnd ++ rest) =
      lineEnd ++ indentBefore indentation true rest := by
    rw [← lineEnd_eq, List.append_assoc, List.singleton_append, indentBefore_line indentation hl,
      List.append_assoc, List.singleton_append]
  have hend (rest : Text) : OwnLine.lineEnd (lineEnd ++ rest) = lineEnd := by
    rw [← lineEnd_eq, List.append_assoc, List.singleton_append,
      (OwnLine.lineEnd_append_lineFeed hl rest).1]
  -- the indentation before the tag is padding of its line
  have hbegins : lineBeginsAfter (lineBeginsAfter true u) kept = true := by
    rw [← lineBeginsAfter_append, lineBeginsAfter_true_iff]
    exact whole
  have hgap : lead indentation (lineBeginsAfter true u) ++
      indentAfter indentation (kept ++ padding) =
        indentBefore indentation (lineBeginsAfter true u) kept ++ (indentation ++ padding) := by
    rw [indentAfter_append, indentAfter_of_notMem indentation line, ← List.append_assoc,
      ← indentBefore_append_lead, hbegins, List.append_assoc]
    rfl
  have hfound := found.indent hi (lineBeginsAfter true u)
  rw [hgap, hrest] at hfound
  have halone : OwnLine.Alone (e.kindOf (indentAfter indentation body))
      (indentBefore indentation true u ++
        (indentBefore indentation (lineBeginsAfter true u) kept ++ (indentation ++ padding)))
      (lineEnd ++ indentBefore indentation true after) := by
    rw [← hgap, hbefore, ← hrest, e.kindOf_indentAfter hi, OwnLine.alone_indent hi hn]
    exact alone
  have hwhole : WholeLines (indentBefore indentation true u ++
      indentBefore indentation (lineBeginsAfter true u) kept) := by
    rw [← indentBefore_append]
    exact whole.indentBefore indentation true
  have hline : char '\n' ∉ indentation ++ padding := by
    rw [List.mem_append, not_or]
    exact ⟨lineFeed_notMem_indentation hi, line⟩
  have hread : indentBefore indentation true
      (u ++ (kept ++ padding) ++ e.write d body ++ lineEnd) =
      indentBefore indentation true u ++
        (indentBefore indentation (lineBeginsAfter true u) kept ++ (indentation ++ padding)) ++
          e.write d (indentAfter indentation body) ++ lineEnd := by
    have hfeed := hrest []
    rw [List.append_nil, indentBefore, List.append_nil] at hfeed
    rw [indentBefore_write, hfeed, ← hgap, hbefore]
    rfl
  have hnext :
      lineBeginsAfter true (u ++ (kept ++ padding) ++ e.write d body ++ lineEnd) = true := by
    rw [← lineEnd_eq, ← List.append_assoc, lineBeginsAfter_concat]
    rfl
  rw [hread, hnext]
  exact ⟨_, _, _, .ownLine hfound halone hwhole hline (hend _)⟩

/-- **To a step in the source belongs a step in the indented source.** The text before a tag that
has its line to itself is the indented text; before any other tag an indentation is also there when
the tag begins a line. -/
theorem FirstTag.exists_indent {d : Delimiters} {u s kept u' s' : Text} {tag : Tag}
    (h : FirstTag d u s kept tag u' s') (hs : WholeLines s) (keeps : tag.KeepsLine (u ++ s)) :
    ∃ kept' tag',
      FirstTag d (indentBefore indentation true u)
        (indentBefore indentation (lineBeginsAfter true u) s) kept' tag'
        (indentBefore indentation true u')
        (indentBefore indentation (lineBeginsAfter true u') s') ∧
      Tag.Indents indentation d tag tag' ∧
      kept' = if tag.isStandalone then indentBefore indentation (lineBeginsAfter true u) kept
        else lead indentation (lineBeginsAfter true u) ++ indentAfter indentation kept := by
  cases h with
  | @inline body _ e found alone =>
    obtain ⟨n, first⟩ := found.indent_inline hi hs alone
    rw [found.eq, ← List.append_assoc, ← List.append_assoc] at keeps
    have hbody := keeps.notMem_body rfl rfl (stop_tagOf d e _ _)
    exact ⟨_, _, first, indents_tagOf hi d _ n hbody, rfl⟩
  | @ownLine padding body lineEnd _ e found alone whole line lineEnd_eq =>
    obtain ⟨n, start, resume, first⟩ := found.indent_ownLine hi hs alone whole line lineEnd_eq
    rw [found.eq, List.append_assoc (kept ++ padding), ← List.append_assoc u,
      ← List.append_assoc] at keeps
    have hbody := keeps.notMem_body rfl rfl (stop_tagOf d e _ _)
    exact ⟨_, _, first, (indents_tagOf hi d _ n hbody).withLine _ start resume, rfl⟩

/-- **To a reading of a line-structured source belongs a reading of the indented source, and the
marks are the indented marks.** -/
theorem Reads.exists_indent {d : Delimiters} {u s : Text} {stream : Stream}
    (h : Reads d u s stream) (hlines : stream.InLines (u ++ s)) :
    ∃ stream',
      Reads d (indentBefore indentation true u)
        (indentBefore indentation (lineBeginsAfter true u) s) stream' ∧
      stream'.flaw = none ∧
      Mark.joined stream'.marks =
        Mark.joined (Mark.indentAll indentation (lineBeginsAfter true u) stream.marks) := by
  induction h with
  | unclosed opening closing => cases hlines.flaw
  | refused first pair => cases hlines.flaw
  | @finished d u s none_left =>
    have hnone := opening?_indentBefore hi d (lineBeginsAfter true u) s
    rw [none_left, Option.map_none] at hnone
    refine ⟨_, .finished hnone, rfl, ?_⟩
    have hall := Mark.indentAll_ofText_append indentation (lineBeginsAfter true u) s []
    rw [List.append_nil] at hall
    simp only [Stream.marks, Run.filterMap_mark?_tokens]
    rw [hall]
    exact congrArg Mark.joined (List.append_nil _).symm
  | @tag d d' u s kept u' s' tag stream first pair rest ih =>
    obtain ⟨htag, hrest⟩ := first.inLines hlines
    obtain ⟨kept', tag', first', hindents, hkept⟩ := first.exists_indent hi hlines.whole.right htag
    obtain ⟨stream', hread, hflaw', hmarks⟩ := ih hrest
    refine ⟨_, .tag first' (hindents.pair d' pair) hread, hflaw', ?_⟩
    rw [Stream.marks_cons, Stream.marks_cons, hindents.mark?_eq, Mark.indentAll_ofText_append,
      hkept]
    rcases first.inline_or_ownLine hlines.whole.right htag with
      ⟨halone, hpad, hmark⟩ | ⟨halone, hbegins, hu', hmark⟩
    · -- the indentation of the line, if the tag begins one, is text before the tag
      rw [lineBeginsAfter_true_of_isPadding_eq_false hpad] at hmarks
      rw [halone, if_neg Bool.false_ne_true, ← indentBefore_append_lead,
        Mark.joined_ofText_append]
      apply Mark.joined_congr_append
      rcases hmark with hmark | ⟨name, escape, hmark⟩
      · have hflows := rest.flows hrest hpad
        rw [hmark]
        exact (Mark.joined_congr_append _ hmarks).trans
          (Mark.joined_lead_append indentation _ hflows)
      · rw [hmark]
        show Mark.joined (Mark.ofText _ ++ ([.value name escape] ++ stream'.marks)) =
          Mark.joined (Mark.ofText _ ++ [.value name escape] ++ Mark.indentAll indentation false _)
        rw [← List.append_assoc]
        exact Mark.joined_congr_append _ hmarks
    · have hline : lineBeginsAfter (lineBeginsAfter true u) kept = true := by
        rw [← lineBeginsAfter_append, lineBeginsAfter_true_iff]
        exact hbegins
      rw [lineBeginsAfter_true_iff.mpr hu'] at hmarks
      rw [halone, if_pos rfl, hline]
      apply Mark.joined_congr_append
      cases hm : Token.mark? (.tag tag) with
      | none => exact hmarks
      | some m =>
        have hs := hmark m hm
        show Mark.joined ([m.further indentation] ++ stream'.marks) =
          Mark.joined (m.indent indentation true ++
            Mark.indentAll indentation (m.lineBegins true) stream.marks)
        rw [hs.indent_eq, hs.lineBegins]
        exact Mark.joined_congr_append _ hmarks

end

/-! ## Brackets of indented marks -/

namespace Mark

theorem filterMap_bracket?_push (m : Mark) (ms : List Mark) :
    (push m ms).filterMap bracket? = (m :: ms).filterMap bracket? := by
  cases hs : startsWithText ms with
  | false => rw [push_of_startsWithText_eq_false hs]
  | true =>
    cases ms with
    | nil => cases hs
    | cons n ms =>
      cases n with
      | text t => cases m <;> rfl
      | _ => cases hs

theorem filterMap_bracket?_joined (ms : List Mark) :
    (joined ms).filterMap bracket? = ms.filterMap bracket? := by
  induction ms with
  | nil => rfl
  | cons m ms ih =>
    rw [joined_cons, filterMap_bracket?_push, List.filterMap_cons, List.filterMap_cons, ih]

theorem filterMap_bracket?_ofText (s : Text) : (ofText s).filterMap bracket? = [] := by
  unfold ofText
  split
  · rfl
  · rfl

theorem filterMap_bracket?_indentAll (indentation : Text) (b : Bool) (ms : List Mark) :
    (indentAll indentation b ms).filterMap bracket? = ms.filterMap bracket? := by
  induction ms generalizing b with
  | nil => rfl
  | cons m ms ih =>
    rw [indentAll, List.filterMap_append, ih, List.filterMap_cons]
    cases m with
    | text s =>
      rw [indent, filterMap_bracket?_ofText]
      rfl
    | value name escape =>
      rw [indent, List.filterMap_append, filterMap_bracket?_ofText]
      rfl
    | inclusion name padding standalone => cases standalone <;> rfl
    | _ => rfl

end Mark

/-! ## Indented nodes -/

namespace Node

/-- Text in front of nodes; it joins on to text it is put before. -/
def pushText (s : Text) (ns : List Node) : List Node :=
  if s = [] then ns
  else
    match ns with
    | .text t :: rest => .text (s ++ t) :: rest
    | _ => .text s :: ns

mutual

/-- A node on indented lines, in front of other nodes. -/
def indent (indentation : Text) (n : Node) (begins : Bool) (rest : List Node) : List Node :=
  match n with
  | .text s => pushText (indentBefore indentation begins s) rest
  | .interpolate name escape =>
    pushText (lead indentation begins) (.interpolate name escape :: rest)
  | .block name inverted body => .block name inverted (indentAll indentation body true) :: rest
  | .inclusion name padding true => .inclusion name (indentation ++ padding) true :: rest
  | .inclusion name padding false => .inclusion name padding false :: rest
termination_by structural n

/-- Nodes with their lines indented. -/
def indentAll (indentation : Text) (ns : List Node) (begins : Bool) : List Node :=
  match ns with
  | [] => []
  | n :: ns => indent indentation n begins (indentAll indentation ns (n.lineBegins begins))
termination_by structural ns

end

theorem marksAll_pushText (s : Text) {ns : List Node} {ms : List Mark}
    (h : marksAll ns = Mark.joined ms) :
    marksAll (pushText s ns) = Mark.joined (Mark.ofText s ++ ms) := by
  unfold pushText
  by_cases hs : s = []
  · rw [if_pos hs, hs]
    exact h
  · rw [if_neg hs, Mark.ofText_of_ne_nil hs, List.singleton_append, Mark.joined_cons, ← h]
    cases ns with
    | nil => rfl
    | cons n ns => cases n <;> rfl

theorem mark_indentAll_append (indentation : Text) (b : Bool) (n : Node) (ms : List Mark) :
    Mark.indentAll indentation b (n.marks ++ ms) =
      Mark.indentAll indentation b n.marks ++
        Mark.indentAll indentation (n.lineBegins b) ms := by
  cases n with
  | block name inverted body =>
    rw [marks, List.cons_append, List.append_assoc, Mark.indentAll, Mark.indentAll,
      List.singleton_append, Mark.indentAll_append_closing, Mark.indentAll_append_closing]
    simp only [List.append_assoc, List.cons_append, List.nil_append, Mark.indentAll]
    rfl
  | _ =>
    rw [marks, List.singleton_append, Mark.indentAll, Mark.indentAll, Mark.indentAll,
      List.append_nil]
    rfl

mutual

theorem marksAll_indent (indentation : Text) (n : Node) (b : Bool) {rest : List Node}
    {ms : List Mark} (h : marksAll rest = Mark.joined ms) :
    marksAll (indent indentation n b rest) =
      Mark.joined (Mark.indentAll indentation b n.marks ++ ms) := by
  match n with
  | .text s =>
    rw [indent, marks, Mark.indentAll, Mark.indentAll, List.append_nil]
    exact marksAll_pushText _ h
  | .interpolate name escape =>
    have hvalue : marksAll (.interpolate name escape :: rest) =
        Mark.joined (.value name escape :: ms) := by
      rw [marksAll, h]
      rfl
    rw [indent, marks, Mark.indentAll, Mark.indentAll, List.append_nil, Mark.indent,
      List.append_assoc]
    exact marksAll_pushText _ hvalue
  | .block name inverted body =>
    have hrow : Mark.indentAll indentation b (marks (.block name inverted body)) ++ ms =
        .opening name inverted ::
          (Mark.indentAll indentation true (marksAll body) ++ .closing name :: ms) := by
      rw [marks, Mark.indentAll, Mark.indentAll_append_closing, List.append_assoc,
        List.append_assoc]
      rfl
    rw [hrow, Mark.joined_cons, Mark.push_of_text?_eq_none rfl, Mark.joined_append_cons rfl,
      ← marksAll_indentAll indentation body true, ← h, indent, marksAll, marks, List.cons_append,
      List.append_assoc]
    rfl
  | .inclusion name padding true =>
    rw [indent, marksAll, h]
    rfl
  | .inclusion name padding false =>
    rw [indent, marksAll, h]
    rfl
termination_by structural n

/-- **The marks of indented nodes are the indented marks.** -/
theorem marksAll_indentAll (indentation : Text) (ns : List Node) (b : Bool) :
    marksAll (indentAll indentation ns b) =
      Mark.joined (Mark.indentAll indentation b (marksAll ns)) := by
  match ns with
  | [] => rfl
  | n :: ns =>
    rw [indentAll, marksAll, mark_indentAll_append]
    exact marksAll_indent indentation n b (marksAll_indentAll indentation ns (n.lineBegins b))
termination_by structural ns

end

end Node

/-! ## Parsing an indented source -/

/-- **The tree of an indented line-structured source is the indented tree of the source.** -/
theorem Template.parse_indented {indentation name source : Text} {t : Template}
    (hi : isPadding indentation = true) (hs : LineStructured source)
    (h : parse name source .standard = .ok t) (name' : Text) :
    parse name' (indentLines indentation source) .standard =
      .ok ⟨name', Node.indentAll indentation t.root true⟩ := by
  obtain ⟨hflaw, hnested, hmarks⟩ := Stream.build_eq_ok_iff.mp (parse_eq_ok_iff.mp h).2
  obtain ⟨stream', hread, hflaw', hmarks'⟩ :=
    (reads_ofSource .standard landing_nil source).exists_indent hi (hs.inLines hflaw)
  have hbegins : lineBeginsAfter true [] = true := rfl
  rw [hbegins] at hread hmarks'
  have hstream : stream' = Stream.ofSource (indentLines indentation source) .standard 0 := by
    rw [indentLines_eq]
    exact hread.eq_ofSource
  rw [hstream] at hflaw' hmarks'
  refine parse_eq_ok_iff.mpr ⟨rfl, Stream.build_eq_ok_iff.mpr ⟨hflaw', ?_, ?_⟩⟩
  · refine hnested.of_bracket?_eq ?_
    rw [← Stream.filterMap_bracket?_marks, ← Stream.filterMap_bracket?_marks,
      ← Mark.filterMap_bracket?_joined, hmarks', Mark.filterMap_bracket?_joined,
      Mark.filterMap_bracket?_indentAll]
    rfl
  · rw [Node.marksAll_indentAll, hmarks, Mark.joined_indentAll_joined]
    exact hmarks'.symm

end Mustache
