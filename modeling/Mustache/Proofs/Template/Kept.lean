import Mustache.Proofs.Template.Balanced

/-!
# The text that is kept

The texts of a template, in the order of a walk, are its source without the tags and without what
goes with the lines that tags own. Nothing else is lost, and nothing is written twice.

What is left out is given by ranges of offsets, and a character is kept when its offset lies in none
of them (`Text.without`). A step over a tag cuts what is to come into the text kept before it, a
part that the ranges of the tag cover, and a rest that they do not touch
(`FirstTag.exists_covered`).

* `Reads.texts_eq` — the text runs of a reading
* `Template.texts_of_parse` — the texts of a template
-/

namespace Mustache

open Text

/-! ## Leaving out ranges -/

/-- Does the range, from its first offset up to but not including its second, hold the offset? -/
def inRange (i : Nat) (r : Nat × Nat) : Bool := r.1 ≤ i && i < r.2

namespace Text

/-- The characters that no range holds, when the first has the offset `k`. -/
def withoutFrom (ranges : List (Nat × Nat)) (k : Nat) (s : Text) : Text :=
  ((s.zipIdx k).filter fun (_, i) => !ranges.any (inRange i)).map (·.1)

/-- The characters of a text that no range holds. -/
def without (ranges : List (Nat × Nat)) (s : Text) : Text := withoutFrom ranges 0 s

theorem withoutFrom_append (ranges : List (Nat × Nat)) (k : Nat) (s t : Text) :
    withoutFrom ranges k (s ++ t) =
      withoutFrom ranges k s ++ withoutFrom ranges (k + s.length) t := by
  simp only [withoutFrom, List.zipIdx_append, List.filter_append, List.map_append]

theorem withoutFrom_congr {ranges ranges' : List (Nat × Nat)} {k : Nat} {s : Text}
    (h : ∀ i, k ≤ i → i < k + s.length → ranges.any (inRange i) = ranges'.any (inRange i)) :
    withoutFrom ranges k s = withoutFrom ranges' k s := by
  unfold withoutFrom
  congr 1
  apply List.filter_congr
  rintro ⟨c, i⟩ hc
  simp only [h i (List.le_snd_of_mem_zipIdx hc) (List.snd_lt_add_of_mem_zipIdx hc)]

/-- Where no range reaches, everything is kept. -/
theorem withoutFrom_eq_self {ranges : List (Nat × Nat)} {k : Nat} {s : Text}
    (h : ∀ i, k ≤ i → i < k + s.length → ranges.any (inRange i) = false) :
    withoutFrom ranges k s = s := by
  have hnone : withoutFrom ranges k s = withoutFrom [] k s :=
    withoutFrom_congr fun i hk hi => by rw [h i hk hi]; rfl
  rw [hnone]
  show ((s.zipIdx k).filter fun _ => true).map (·.1) = s
  rw [List.filter_eq_self.mpr fun _ _ => rfl, List.zipIdx_map_fst]

/-- Where the ranges reach everywhere, nothing is kept. -/
theorem withoutFrom_eq_nil {ranges : List (Nat × Nat)} {k : Nat} {s : Text}
    (h : ∀ i, k ≤ i → i < k + s.length → ranges.any (inRange i) = true) :
    withoutFrom ranges k s = [] := by
  rw [withoutFrom, List.map_eq_nil_iff, List.filter_eq_nil_iff]
  rintro ⟨c, i⟩ hc
  simp [h i (List.le_snd_of_mem_zipIdx hc) (List.snd_lt_add_of_mem_zipIdx hc)]

/-- **A text in three parts, when some ranges cover the middle one and no more, and the others lie
behind it**: the first part is kept, and the middle one is left out. -/
theorem withoutFrom_append_append {ranges later : List (Nat × Nat)} {k b e : Nat}
    {kept covered : Text} (rest : Text) (hb : b = k + kept.length) (he : e = b + covered.length)
    (hcovered : ∀ i, k ≤ i → ranges.any (inRange i) = inRange i (b, e))
    (hlater : ∀ i, i < e → later.any (inRange i) = false) :
    withoutFrom (ranges ++ later) k (kept ++ covered ++ rest) =
      kept ++ withoutFrom later e rest := by
  subst hb he
  have hkept : withoutFrom (ranges ++ later) k kept = kept := by
    apply withoutFrom_eq_self
    intro i hi hlt
    rw [List.any_append, hcovered i hi, hlater i (by omega), Bool.or_false, inRange,
      decide_eq_false (by simp only []; omega), Bool.false_and]
  have hmiddle : withoutFrom (ranges ++ later) (k + kept.length) covered = [] := by
    apply withoutFrom_eq_nil
    intro i hi hlt
    rw [List.any_append, hcovered i (by omega), inRange, decide_eq_true (by simp only []; omega),
      decide_eq_true (by simp only []; omega)]
    rfl
  have hrest : withoutFrom (ranges ++ later) (k + kept.length + covered.length) rest =
      withoutFrom later (k + kept.length + covered.length) rest := by
    apply withoutFrom_congr
    intro i hi _
    rw [List.any_append, hcovered i (by omega), inRange,
      decide_eq_false (p := i < _) (by simp only []; omega), Bool.and_false, Bool.false_or]
  rw [withoutFrom_append, withoutFrom_append, List.length_append, ← Nat.add_assoc, hkept, hmiddle,
    hrest, List.append_nil]

end Text

/-! ## What a tag takes out of the text -/

/-- The ranges of a tag: from its beginning to its end, and on its own line also what comes before
and after it. -/
def Tag.ranges (source : Text) (t : Tag) : List (Nat × Nat) :=
  (t.start, t.stop) ::
    match OwnLine.of? source t with
    | some line => [(line.lineStart, t.start), (t.stop, line.resume)]
    | none => []

/-- A tag with a line to itself takes the whole line out of the text. -/
theorem Tag.any_ranges_of_ownLine {source : Text} {t : Tag} {line : OwnLine}
    (h : OwnLine.of? source t = some line) (hle : t.start ≤ t.stop) (i : Nat) :
    (t.ranges source).any (inRange i) = inRange i (line.lineStart, line.resume) := by
  have hstart := OwnLine.lineStart_le_start h
  have hresume := OwnLine.stop_le_resume h
  rw [Tag.ranges, h, Bool.eq_iff_iff]
  simp only [List.any_cons, List.any_nil, inRange, Bool.or_false, Bool.or_eq_true,
    Bool.and_eq_true, decide_eq_true_eq]
  omega

/-- The ranges of a token: none for a run. -/
def Token.ranges (source : Text) : Token → List (Nat × Nat)
  | .run _ => []
  | .tag t => t.ranges source

/-- The text of a run. -/
def Token.text? : Token → Option Text
  | .run r => some r.text
  | .tag _ => none

namespace Stream

/-- The ranges of all tags of a stream. -/
def ranges (source : Text) (stream : Stream) : List (Nat × Nat) :=
  stream.tokens.flatMap (Token.ranges source)

/-- The text of all runs of a stream. -/
def text (stream : Stream) : Text := (stream.tokens.filterMap Token.text?).flatten

theorem ranges_tokens (source : Text) (r : Run) : r.tokens.flatMap (Token.ranges source) = [] := by
  unfold Run.tokens
  split <;> rfl

theorem text_tokens (r : Run) : (r.tokens.filterMap Token.text?).flatten = r.text := by
  unfold Run.tokens
  split
  · next h => rw [h]; rfl
  · simp [Token.text?]

theorem ranges_cons (source : Text) (gap : Run) (tag : Tag) (stream : Stream) :
    (stream.cons gap tag).ranges source = tag.ranges source ++ stream.ranges source := by
  simp only [ranges, cons, List.flatMap_append, ranges_tokens, List.flatMap_cons, Token.ranges,
    List.nil_append]

theorem text_cons (gap : Run) (tag : Tag) (stream : Stream) :
    (stream.cons gap tag).text = gap.text ++ stream.text := by
  simp only [text, cons, List.filterMap_append, List.flatten_append, text_tokens,
    List.filterMap_cons, Token.text?]

end Stream

/-- The tag of a step has the line that is found for it in the source. -/
theorem FirstTag.of?_eq {d : Delimiters} {u s kept u' s' : Text} {tag : Tag}
    (h : FirstTag d u s kept tag u' s') : OwnLine.of? (u ++ s) tag = tag.ownLine := by
  obtain ⟨gap, e, body, after, -, rfl, -, -⟩ := h.exists_found
  rfl

/-- **A step over a tag leaves the kept text alone, takes out all that follows it up to the place
where the step ends, and touches nothing behind that place.** -/
theorem FirstTag.exists_covered {d : Delimiters} {u s kept u' s' : Text} {tag : Tag}
    (h : FirstTag d u s kept tag u' s') :
    ∃ covered, s = kept ++ covered ++ s' ∧ u' = u ++ kept ++ covered ∧
      ∀ i, (tag.ranges (u ++ s)).any (inRange i) = inRange i ((u ++ kept).length, u'.length) := by
  have hof := h.of?_eq
  cases h with
  | @inline body _ e found alone =>
    refine ⟨e.write d body, found.eq, rfl, fun i => ?_⟩
    rw [Tag.ranges, hof, stop_tagOf]
    simp [tagOf]
  | @ownLine padding body lineEnd _ e found alone whole line lineEnd_eq =>
    refine ⟨padding ++ e.write d body ++ lineEnd, ?_, by simp only [List.append_assoc],
      fun i => ?_⟩
    · rw [found.eq]
      simp only [List.append_assoc]
    · have hle : (tagOf d e (u ++ (kept ++ padding)).length body).start ≤
          (tagOf d e (u ++ (kept ++ padding)).length body).stop := by
        simp only [tagOf]
        omega
      exact Tag.any_ranges_of_ownLine hof hle i

/-! ## The texts of a reading -/

/-- No tag of what is still to come reaches back over what has been read. -/
theorem Reads.any_ranges_eq_false {d : Delimiters} {u s : Text} {stream : Stream}
    (h : Reads d u s stream) {i : Nat} (hi : i < u.length) :
    (stream.ranges (u ++ s)).any (inRange i) = false := by
  have hstep {d : Delimiters} {u s kept u' s' : Text} {tag : Tag}
      (first : FirstTag d u s kept tag u' s') (hi : i < u.length) :
      (tag.ranges (u ++ s)).any (inRange i) = false := by
    obtain ⟨covered, -, -, hrange⟩ := first.exists_covered
    have hle : u.length ≤ (u ++ kept).length := by simp
    rw [hrange, inRange, decide_eq_false (by simp only []; omega), Bool.false_and]
  induction h with
  | finished none_left => rw [Stream.ranges, Stream.ranges_tokens]; rfl
  | unclosed opening closing => rfl
  | refused first pair =>
    rw [Stream.ranges_cons, List.any_append, hstep first hi]
    rfl
  | @tag d d' u s kept u' s' tag stream first pair rest ih =>
    have hlt : i < u'.length := by
      obtain ⟨covered, -, rfl, -⟩ := first.exists_covered
      simp only [List.length_append]
      omega
    rw [Stream.ranges_cons, List.any_append, hstep first hi, ← first.append_eq, ih hlt]
    rfl

/-- **The text runs of a reading are what is still to come without the ranges of its tags.** -/
theorem Reads.texts_eq {d : Delimiters} {u s : Text} {stream : Stream} (h : Reads d u s stream)
    (hflaw : stream.flaw = none) :
    stream.text = withoutFrom (stream.ranges (u ++ s)) u.length s := by
  induction h with
  | @finished d u s none_left =>
    rw [Stream.text, Stream.ranges, Stream.text_tokens, Stream.ranges_tokens,
      withoutFrom_eq_self fun _ _ _ => rfl]
  | unclosed opening closing => cases hflaw
  | refused first pair => cases hflaw
  | @tag d d' u s kept u' s' tag stream first pair rest ih =>
    obtain ⟨covered, hs, hu', hrange⟩ := first.exists_covered
    have hlen : u'.length = (u ++ kept).length + covered.length := by rw [hu', List.length_append]
    -- the ranges of the tag begin behind the kept text, and later ones are further on
    have hcut := withoutFrom_append_append s' List.length_append hlen (fun i _ => hrange i)
      fun i hi => rest.any_ranges_eq_false hi
    rw [← hs, first.append_eq] at hcut
    rw [Stream.text_cons, Stream.ranges_cons, ih hflaw, first.append_eq, hcut]

theorem Token.filterMap_text?_mark? (ts : List Token) :
    (ts.filterMap mark?).filterMap Mark.text? = ts.filterMap text? := by
  induction ts with
  | nil => rfl
  | cons t ts ih =>
    rw [List.filterMap_cons, List.filterMap_cons, ← ih]
    cases t with
    | run r => rfl
    | tag t => cases hk : t.kind <;> simp only [mark?, hk, text?] <;> rfl

/-- **The texts of a template are its source without the tags, and without the padding and the line
ends of the lines that tags own.** -/
theorem Template.texts_of_parse {name source : Text} {d : Delimiters} {t : Template}
    (h : parse name source d = .ok t) :
    (t.allNodes.filterMap Node.text?).flatten =
      source.without ((Stream.ofSource source d 0).ranges source) := by
  obtain ⟨hflaw, -, hmarks⟩ := Stream.build_eq_ok_iff.mp (parse_eq_ok_iff.mp h).2
  have hread := (reads_ofSource d landing_nil source).texts_eq hflaw
  rw [allNodes, Node.filterMap_text?_visit, hmarks, Mark.flatten_text?_joined,
    Token.filterMap_text?_mark?]
  exact hread

/-- A source with line ends of both kinds, a tag that changes the pair on a line of its own, and a
section whose tags own their lines. -/
def mixedLines : Text := "a\r\n \x7b\x7b=| |=\x7d\x7d\r\n|#s|\n b |x| \n |/s|".toText

theorem Template.texts_of_mixedLines :
    parse ['t'] mixedLines .standard =
        .ok ⟨['t'], [.text "a\r\n".toText, .block ['s'] false
          [.text " b ".toText, .interpolate ['x'] true, .text " \n".toText]]⟩ ∧
      mixedLines.without ((Stream.ofSource mixedLines .standard 0).ranges mixedLines) =
        "a\r\n b  \n".toText := by
  have hparse : parse ['t'] mixedLines .standard =
      .ok ⟨['t'], [.text "a\r\n".toText, .block ['s'] false
        [.text " b ".toText, .interpolate ['x'] true, .text " \n".toText]]⟩ := by decide +kernel
  exact ⟨hparse, (texts_of_parse hparse).symm.trans (by decide +kernel)⟩

end Mustache
