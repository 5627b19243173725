import Mustache.Proofs.Template.Reach
import Mustache.Proofs.Text.CrLf
import Mustache.Proofs.Token.Respaced

/-!
# Parsing a source with other line ends

A source whose lines end with a line feed has, with a carriage return before each of them, the same
tree and the same flaws. The texts of the tree and its names hold the longer line ends; nothing else
of it changes. A tag has its line to itself with the one kind of line ends when it has it with the
other, so a step of the reading is a step of the other reading, over the same tag at the offset that
its own becomes.

The source must not hold a carriage return already: one that ends a line is part of the line end,
and two are not.

* `FirstTag.crlf`, `Reads.crlf` — a step and a reading with longer line ends
* `Stream.build_crlf` — the tree or the flaw of a stream with longer line ends
* `Template.parse_crlf` — parsing with longer line ends
-/

namespace Mustache

open Text

/-! ## What becomes of tokens and flaws -/

/-- The line in the source with longer line ends. -/
def OwnLine.crlf (source : Text) (line : OwnLine) : OwnLine :=
  ⟨crlfOffset source line.lineStart, line.padding, crlfOffset source line.resume⟩

/-- The tag in the source with longer line ends. -/
def Tag.crlf (source : Text) (t : Tag) : Tag :=
  ⟨t.kind, Text.crlf t.content, Text.crlf t.name, crlfOffset source t.start,
    crlfOffset source t.stop, t.ownLine.map (.crlf source)⟩

/-- The run in the source with longer line ends. -/
def Run.crlf (source : Text) (r : Run) : Run := ⟨Text.crlf r.text, crlfOffset source r.start⟩

/-- The token in the source with longer line ends. -/
def Token.crlf (source : Text) : Token → Token
  | .run r => .run (r.crlf source)
  | .tag t => .tag (t.crlf source)

/-- What is wrong, with longer line ends. The excerpt of a tag is not longer for them. -/
def FlawKind.crlf : FlawKind → FlawKind
  | .unclosedTag excerpt closing =>
    .unclosedTag ((Text.crlf excerpt).take Scan.excerptLength) closing
  | .badDelimiters fault => .badDelimiters (fault.respaced crlfChar)
  | .strayClose name expected => .strayClose (Text.crlf name) (expected.map Text.crlf)
  | .unclosedBlock name => .unclosedBlock (Text.crlf name)

/-- The flaw of the source with longer line ends. -/
def Flaw.crlf (source : Text) (flaw : Flaw) : Flaw :=
  ⟨flaw.kind.crlf, crlfOffset source flaw.position⟩

/-- The stream of the source with longer line ends. -/
def Stream.crlf (source : Text) (s : Stream) : Stream :=
  ⟨s.tokens.map (.crlf source), s.flaw.map (.crlf source)⟩

/-! ## Lines -/

namespace OwnLine

theorem crlf_line {line : Text} (h : char '\n' ∉ line) (rest : Text) :
    Text.crlf (line ++ char '\n' :: rest) =
      (line ++ [char '\r']) ++ char '\n' :: Text.crlf rest := by
  rw [crlf_append, crlf_of_notMem h, crlf_cons, crlfChar, if_pos rfl, List.append_assoc]
  rfl

theorem lineFeed_notMem_concat {line : Text} (h : char '\n' ∉ line) :
    char '\n' ∉ line ++ [char '\r'] := by
  rw [List.mem_append, not_or]
  exact ⟨h, by decide⟩

/-- **The carriage return is no part of the rest of a line.** -/
theorem trailing_crlf {rest : Text} (h : char '\r' ∉ rest) :
    trailing (Text.crlf rest) = trailing rest := by
  by_cases hn : char '\n' ∈ rest
  · obtain ⟨line, r, rfl, hline⟩ := List.eq_append_cons_of_mem hn
    have hlast : line.getLast? ≠ some (char '\r') := fun hr =>
      h (List.mem_append_left _ (List.mem_of_getLast? hr))
    rw [crlf_line hline, trailing, trailing, firstLine_append_lineFeed hline,
      firstLine_append_lineFeed (lineFeed_notMem_concat hline)]
    simp only [List.getLast?_concat, if_true, List.dropLast_concat, if_neg hlast]
  · rw [crlf_of_notMem hn]

theorem lineEnd_crlf (rest : Text) : lineEnd (Text.crlf rest) = Text.crlf (lineEnd rest) := by
  by_cases hn : char '\n' ∈ rest
  · obtain ⟨line, r, rfl, hline⟩ := List.eq_append_cons_of_mem hn
    rw [crlf_line hline, (lineEnd_append_lineFeed (lineFeed_notMem_concat hline) _).1,
      (lineEnd_append_lineFeed hline r).1, crlf_line hline]
    rfl
  · rw [crlf_of_notMem hn, (lineEnd_of_notMem hn).1, crlf_of_notMem hn]

/-- **A tag has its line to itself whatever ends the line.** -/
theorem alone_crlf {kind : TagKind} {before after : Text} (h : char '\r' ∉ after) :
    Alone kind (Text.crlf before) (Text.crlf after) ↔ Alone kind before after := by
  unfold Alone
  rw [lastLine_crlf, trailing_crlf h]

end OwnLine

/-! ## Steps -/

theorem crlfOffset_length (before after : Text) :
    crlfOffset (before ++ after) before.length = (crlf before).length := by
  rw [crlfOffset, List.take_left]

theorem crlf_write (d : Delimiters) (e : Enclosure) (body : Text) :
    crlf (e.write d body) = e.write d (crlf body) := respaces_crlf.flatMap_write d e body

/-- The tag with these texts around it, with longer line ends. -/
theorem tagOf_crlf (d : Delimiters) (e : Enclosure) (before body after : Text) :
    (tagOf d e before.length body).crlf (before ++ (e.write d body ++ after)) =
      tagOf d e (crlf before).length (crlf body) := by
  have hkind := respaces_crlf.kindAndName_flatMap e (trim body)
  have htrim : trim (crlf body) = crlf (trim body) := respaces_crlf.trim_flatMap body
  have hstop : crlfOffset (before ++ (e.write d body ++ after))
      (tagOf d e before.length body).stop = (tagOf d e (crlf before).length (crlf body)).stop := by
    rw [stop_tagOf, stop_tagOf, ← List.append_assoc, crlfOffset_length, crlf_append, crlf_write]
  unfold Tag.crlf
  rw [hstop]
  simp only [tagOf, crlfOffset_length, htrim, Option.map_none]
  rw [show crlf (trim body) = (trim body).flatMap crlfChar from rfl, hkind]
  rfl

theorem Found.crlf {d : Delimiters} {s gap body after : Text} {e : Enclosure}
    (h : Found d s gap e body after) :
    Found d (Text.crlf s) (Text.crlf gap) e (Text.crlf body) (Text.crlf after) := by
  have hrest : Text.crlf body ++ e.closing d ++ Text.crlf after =
      (body ++ e.closing d ++ after).flatMap crlfChar := by
    simp only [Text.crlf, List.flatMap_append, respaces_crlf.flatMap_marker (e.isMarker_closing d)]
  constructor
  · rw [hrest, Text.crlf, respaces_crlf.opening?_flatMap, h.opening]
    rfl
  · rw [hrest, respaces_crlf.cut?_flatMap (e.isMarker_closing d), h.closing]
    rfl

/-- **A step with longer line ends.** -/
theorem FirstTag.crlf {d : Delimiters} {u s kept u' s' : Text} {tag : Tag}
    (h : FirstTag d u s kept tag u' s') (hs : char '\r' ∉ s) :
    FirstTag d (Text.crlf u) (Text.crlf s) (Text.crlf kept) (tag.crlf (u ++ s)) (Text.crlf u')
      (Text.crlf s') := by
  cases h with
  | @inline body _ e found alone =>
    have hs' : char '\r' ∉ s' := fun hm => hs (by rw [found.eq]; exact List.mem_append_right _ hm)
    have halone : ¬ OwnLine.Alone (e.kindOf (Text.crlf body)) (Text.crlf u ++ Text.crlf kept)
        (Text.crlf s') := by
      rw [← crlf_append, Text.crlf, respaces_crlf.kindOf_flatMap]
      exact (OwnLine.alone_crlf hs').not.mpr alone
    have hstep := FirstTag.inline found.crlf halone
    have hsource : u ++ s = u ++ kept ++ (e.write d body ++ s') := by
      rw [found.eq]
      simp only [List.append_assoc]
    rw [← crlf_append, ← tagOf_crlf d e (u ++ kept) body s', ← crlf_write, ← crlf_append,
      ← hsource] at hstep
    exact hstep
  | @ownLine padding body lineEnd _ e found alone whole line lineEnd_eq =>
    have hafter : char '\r' ∉ lineEnd ++ s' := fun hm =>
      hs (by rw [found.eq]; exact List.mem_append_right _ hm)
    have hpadding : Text.crlf padding = padding := crlf_of_notMem line
    have hbefore : Text.crlf (u ++ (kept ++ padding)) =
        Text.crlf u ++ (Text.crlf kept ++ padding) := by
      rw [crlf_append, crlf_append, hpadding]
    have hfound := found.crlf
    have halone : OwnLine.Alone (e.kindOf (Text.crlf body))
        (Text.crlf (u ++ (kept ++ padding))) (Text.crlf (lineEnd ++ s')) := by
      rw [Text.crlf, respaces_crlf.kindOf_flatMap]
      exact (OwnLine.alone_crlf hafter).mpr alone
    have hwhole := whole.crlf
    have hend := (OwnLine.lineEnd_crlf (lineEnd ++ s')).trans (congrArg Text.crlf lineEnd_eq)
    rw [crlf_append, hpadding, crlf_append] at hfound
    rw [hbefore, crlf_append] at halone
    rw [crlf_append] at hwhole hend
    have hstep := FirstTag.ownLine hfound halone hwhole line hend
    -- the line begins and ends where its ends have come to lie
    have hsource : u ++ s = u ++ (kept ++ padding) ++ (e.write d body ++ (lineEnd ++ s')) := by
      rw [found.eq]
      simp only [List.append_assoc]
    have hstart : crlfOffset (u ++ s) (u ++ kept).length =
        (Text.crlf u ++ Text.crlf kept).length := by
      rw [hsource, ← List.append_assoc u, List.append_assoc (u ++ kept), crlfOffset_length,
        crlf_append]
    have hread : Text.crlf (u ++ (kept ++ padding) ++ e.write d body ++ lineEnd) =
        Text.crlf u ++ (Text.crlf kept ++ padding) ++ e.write d (Text.crlf body) ++
          Text.crlf lineEnd := by
      rw [crlf_append, crlf_append (u ++ (kept ++ padding)), hbefore, crlf_write]
    have hresume : crlfOffset (u ++ s)
        (u ++ (kept ++ padding) ++ e.write d body ++ lineEnd).length =
          (Text.crlf u ++ (Text.crlf kept ++ padding) ++ e.write d (Text.crlf body) ++
            Text.crlf lineEnd).length := by
      rw [hsource, ← hread, ← List.append_assoc, ← List.append_assoc, crlfOffset_length]
    have htag := tagOf_crlf d e (u ++ (kept ++ padding)) body (lineEnd ++ s')
    rw [← hsource, hbefore] at htag
    rw [← htag, ← hstart, ← hresume, ← hread] at hstep
    exact hstep

/-! ## Readings -/

theorem Run.tokens_crlf (source : Text) (r : Run) :
    (r.crlf source).tokens = r.tokens.map (Token.crlf source) := by
  have hnil : (r.crlf source).text = [] ↔ r.text = [] := crlf_eq_nil_iff
  unfold Run.tokens
  simp only [hnil]
  split
  · rfl
  · rfl

theorem Run.crlf_mk (s u rest : Text) :
    (Run.mk s u.length).crlf (u ++ rest) = ⟨Text.crlf s, (Text.crlf u).length⟩ := by
  rw [Run.crlf, crlfOffset_length]

theorem Stream.cons_crlf (source : Text) (r : Run) (t : Tag) (s : Stream) :
    (s.cons r t).crlf source = (s.crlf source).cons (r.crlf source) (t.crlf source) := by
  simp only [Stream.crlf, Stream.cons, List.map_append, List.map_cons, Run.tokens_crlf]
  rfl

theorem Tag.pairAfter_crlf (source : Text) (d : Delimiters) (t : Tag) :
    (t.crlf source).pairAfter d =
      (t.pairAfter d).mapError (Delimiters.Fault.respaced crlfChar) := by
  show (if t.kind = .delimiters then Delimiters.ofBody (t.name.flatMap crlfChar) else .ok d) = _
  unfold Tag.pairAfter
  split
  · exact respaces_crlf.ofBody_flatMap t.name
  · rfl

/-- **A reading with longer line ends.** -/
theorem Reads.crlf {d : Delimiters} {u s : Text} {stream : Stream} (h : Reads d u s stream)
    (hs : char '\r' ∉ s) : Reads d (Text.crlf u) (Text.crlf s) (stream.crlf (u ++ s)) := by
  induction h with
  | @finished d u s none_left =>
    have hnone : opening? d (Text.crlf s) = none := by
      rw [Text.crlf, respaces_crlf.opening?_flatMap, none_left]
      rfl
    have hread := Reads.finished (u := Text.crlf u) hnone
    rw [← Run.crlf_mk s u s, Run.tokens_crlf] at hread
    exact hread
  | @unclosed d u s gap rest e opening closing =>
    have hopening : opening? d (Text.crlf s) = some (Text.crlf gap, e, Text.crlf rest) := by
      rw [Text.crlf, respaces_crlf.opening?_flatMap, opening]
      rfl
    have hclosing : cut? (e.closing d) (Text.crlf rest) = none := by
      rw [Text.crlf, respaces_crlf.cut?_flatMap (e.isMarker_closing d), closing]
      rfl
    have hread := Reads.unclosed (u := Text.crlf u) hopening hclosing
    -- the excerpt shows as much of the longer text as of the text
    have hexcerpt : (e.opening d ++ Text.crlf rest).take Scan.excerptLength =
        (Text.crlf ((e.opening d ++ rest).take Scan.excerptLength)).take Scan.excerptLength := by
      rw [← take_crlf, crlf_append]
      congr 2
      exact (respaces_crlf.flatMap_marker (e.isMarker_opening d)).symm
    have hposition : (Text.crlf u ++ Text.crlf gap).length =
        crlfOffset (u ++ s) (u ++ gap).length := by
      rw [eq_of_opening? opening, List.append_assoc, ← List.append_assoc u, crlfOffset_length,
        crlf_append]
    rw [hexcerpt, hposition] at hread
    exact hread
  | @refused d u s kept u' s' tag fault first pair =>
    have hpair : (tag.crlf (u ++ s)).pairAfter d = .error (fault.respaced crlfChar) := by
      rw [Tag.pairAfter_crlf, pair]
      rfl
    have hread := Reads.refused (first.crlf hs) hpair
    rw [Stream.cons_crlf, Run.crlf_mk]
    exact hread
  | @tag d d' u s kept u' s' tag stream first pair rest ih =>
    have hpair : (tag.crlf (u ++ s)).pairAfter d = .ok d' := by
      rw [Tag.pairAfter_crlf, pair]
      rfl
    have hs' : char '\r' ∉ s' := fun hm => hs (first.suffix.subset hm)
    have hread := Reads.tag (first.crlf hs) hpair (ih hs')
    rw [Stream.cons_crlf, Run.crlf_mk, ← first.append_eq]
    rw [← first.append_eq] at hread
    exact hread

/-! ## Flaws -/

theorem filterMap_bracketBy?_crlf (source : Text) (ts : List Token) :
    (ts.map (Token.crlf source)).filterMap (Token.bracketBy? id) =
      ts.filterMap (Token.bracketBy? (Tag.crlf source)) := by
  rw [List.filterMap_map]
  congr 1
  funext t
  cases t <;> rfl

theorem name_of_eq_crlf {source : Text} (t t' : Tag) (h : id t' = t.crlf source) :
    t'.name = Text.crlf t.name := by
  rw [show t' = t.crlf source from h]
  rfl

theorem Nested.crlf {ts : List Token} (h : Nested ts) (source : Text) :
    Nested (ts.map (Token.crlf source)) :=
  h.of_view name_of_eq_crlf (filterMap_bracketBy?_crlf source ts)

/-- **With longer line ends the same flaw shows first.** -/
theorem Stream.FirstFlaw.crlf {s : Stream} {flaw : Flaw} (h : s.FirstFlaw flaw) (source : Text) :
    (s.crlf source).FirstFlaw (flaw.crlf source) := by
  obtain ⟨flaw', hfirst, rfl⟩ := h.exists_of_view (t := s.crlf source) name_of_eq_crlf
    crlf_injective (fun flaw flaw' => flaw' = flaw.crlf source)
    (filterMap_bracketBy?_crlf source s.tokens)
    (fun tag tag' expected heq => by rw [show tag' = tag.crlf source from heq]; rfl)
    (fun tag tag' heq => by rw [show tag' = tag.crlf source from heq]; rfl)
    (fun flaw hs => ⟨_, congrArg (Option.map (Flaw.crlf source)) hs, rfl⟩)
    (congrArg (Option.map (Flaw.crlf source)))
  exact hfirst

/-! ## Trees -/

namespace Mark

/-- The mark with longer line ends in its text or its name. -/
def crlf : Mark → Mark
  | text s => text (Text.crlf s)
  | value name escape => value (Text.crlf name) escape
  | opening name inverted => opening (Text.crlf name) inverted
  | closing name => closing (Text.crlf name)
  | inclusion name indentation standalone => inclusion (Text.crlf name) indentation standalone

theorem push_crlf (m : Mark) (ms : List Mark) :
    push m.crlf (ms.map crlf) = (push m ms).map crlf := by
  cases m with
  | text s =>
    cases ms with
    | nil => rfl
    | cons n ms =>
      cases n with
      | text t =>
        rw [push_text_text, List.map_cons, List.map_cons, crlf, crlf, crlf, push_text_text,
          crlf_append]
      | _ => rfl
  | _ => rfl

theorem joined_crlf (ms : List Mark) : joined (ms.map crlf) = (joined ms).map crlf := by
  induction ms with
  | nil => rfl
  | cons m ms ih => rw [List.map_cons, joined_cons, joined_cons, ih, push_crlf]

end Mark

namespace Node

mutual

/-- The node with longer line ends in its texts and names. -/
def crlf (n : Node) : Node :=
  match n with
  | .text s => .text (Text.crlf s)
  | .interpolate name escape => .interpolate (Text.crlf name) escape
  | .block name inverted body => .block (Text.crlf name) inverted (crlfAll body)
  | .inclusion name indentation standalone => .inclusion (Text.crlf name) indentation standalone
termination_by structural n

/-- The nodes with longer line ends in their texts and names. -/
def crlfAll (ns : List Node) : List Node :=
  match ns with
  | [] => []
  | n :: ns => n.crlf :: crlfAll ns
termination_by structural ns

end

mutual

theorem marks_crlf (n : Node) : n.crlf.marks = n.marks.map Mark.crlf := by
  match n with
  | .text _ | .interpolate .. | .inclusion .. => rfl
  | .block name inverted body =>
    rw [crlf, marks, marks, marksAll_crlfAll body, List.map_cons, List.map_append]
    rfl
termination_by structural n

theorem marksAll_crlfAll (ns : List Node) :
    marksAll (crlfAll ns) = (marksAll ns).map Mark.crlf := by
  match ns with
  | [] => rfl
  | n :: ns => rw [crlfAll, marksAll, marksAll, marks_crlf n, marksAll_crlfAll ns, List.map_append]
termination_by structural ns

end

end Node

/-- A tag leaves its mark with longer line ends. -/
theorem Token.mark?_crlf (source : Text) (t : Token) :
    (t.crlf source).mark? = t.mark?.map Mark.crlf := by
  cases t with
  | run r => rfl
  | tag t =>
    have hstandalone : (t.crlf source).isStandalone = t.isStandalone := Option.isSome_map
    have hindentation : (t.crlf source).indentation = t.indentation := by
      obtain ⟨kind, content, name, start, stop, ownLine⟩ := t
      cases kind <;> cases ownLine <;> rfl
    show mark? (.tag (t.crlf source)) = _
    simp only [mark?, hstandalone, hindentation]
    simp only [Tag.crlf]
    cases t.kind <;> rfl

theorem Stream.marks_crlf (source : Text) (s : Stream) :
    (s.crlf source).marks = s.marks.map Mark.crlf := by
  rw [marks, marks, crlf, List.filterMap_map, List.map_filterMap]
  congr 1
  funext t
  exact Token.mark?_crlf source t

/-- **With longer line ends a stream has the tree with longer line ends**, or the same flaw. -/
theorem Stream.build_crlf (source : Text) (s : Stream) :
    (s.crlf source).build =
      match s.build with
      | .ok root => .ok (Node.crlfAll root)
      | .error flaw => .error (flaw.crlf source) := by
  cases hs : s.build with
  | ok root =>
    obtain ⟨hflaw, hnested, hmarks⟩ := build_eq_ok_iff.mp hs
    refine build_eq_ok_iff.mpr ⟨?_, hnested.crlf source, ?_⟩
    · rw [crlf, hflaw]
      rfl
    · rw [Node.marksAll_crlfAll, hmarks, ← Mark.joined_crlf]
      exact congrArg Mark.joined (marks_crlf source s).symm
  | error flaw => exact build_eq_error_iff.mpr ((build_eq_error_iff.mp hs).crlf source)

/-! ## Parsing -/

/-- The stream of a source with longer line ends. -/
theorem Stream.ofSource_crlf {source : Text} (h : char '\r' ∉ source) (d : Delimiters) :
    ofSource (Text.crlf source) d 0 = (ofSource source d 0).crlf source :=
  ((reads_ofSource d landing_nil source).crlf h).eq_ofSource.symm

namespace Template

/-- **A source with longer line ends is parsed to the same tree with longer line ends.** A flaw
shows at the same tag, on the same line and in the same column. -/
theorem parse_crlf {source : Text} (h : char '\r' ∉ source) (name : Text) (d : Delimiters) :
    (∀ t, parse name source d = .ok t →
      parse name (crlf source) d = .ok ⟨t.name, Node.crlfAll t.root⟩) ∧
    (∀ e, parse name source d = .error e →
      parse name (crlf source) d = .error ⟨e.kind.crlf,
        { e.place with position := (crlf (source.take e.place.position)).length },
        e.template⟩) := by
  have hbuild := Stream.build_crlf source (Stream.ofSource source d 0)
  rw [← Stream.ofSource_crlf h] at hbuild
  constructor
  · intro t ht
    obtain ⟨hname, hroot⟩ := parse_eq_ok_iff.mp ht
    rw [hroot] at hbuild
    exact parse_eq_ok_iff.mpr ⟨hname, hbuild⟩
  · intro e he
    obtain ⟨flaw, hflaw, rfl⟩ := parse_eq_error_iff.mp he
    rw [hflaw] at hbuild
    refine parse_eq_error_iff.mpr ⟨_, hbuild, ?_⟩
    have hplace := Place.ofPosition_crlf (Stream.position_lt_of_build hflaw).le
    rw [ParseError.ofFlaw, ParseError.ofFlaw, Flaw.crlf, hplace]
    rfl

/-- A block with a name of two lines, whose tags have their lines to themselves. -/
def nameOfTwoLines : Text := "\x7b\x7b#a\nb\x7d\x7d\nx\n\x7b\x7b/a\nb\x7d\x7d\n".toText

theorem parse_crlf_nameOfTwoLines :
    char '\r' ∉ nameOfTwoLines ∧
      parse ['t'] nameOfTwoLines .standard =
        .ok ⟨['t'], [.block ['a', '\n', 'b'] false [.text ['x', '\n']]]⟩ ∧
      parse ['t'] (crlf nameOfTwoLines) .standard =
        .ok ⟨['t'], [.block ['a', '\r', '\n', 'b'] false [.text ['x', '\r', '\n']]]⟩ := by
  have h : char '\r' ∉ nameOfTwoLines := by decide
  have hparse : parse ['t'] nameOfTwoLines .standard =
      .ok ⟨['t'], [.block ['a', '\n', 'b'] false [.text ['x', '\n']]]⟩ := by
    decide +kernel
  exact ⟨h, hparse, (parse_crlf h _ _).1 _ hparse⟩

end Template
end Mustache
