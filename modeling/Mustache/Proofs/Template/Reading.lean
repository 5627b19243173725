import Mustache.Proofs.Template.Restart

/-!
# Readings

A source is read from left to right. At each place some of it, `u`, has been read and the rest, `s`,
is still to come; what a step finds there depends on the two texts and on the pair in force, and on
no offset. `Reads d u s stream` says what the tokens of `s` are, one case for each way a step may
go, and `FirstTag` what a step over a tag takes out of `s`. Statements about streams are proved by
induction on readings.

A reading stands at the beginning of a line or behind something that is not padding
(`Landing`). There the line of a tag never reaches back over what has been read.

* `FirstTag.landing` — every step ends at such a place
* `reads_ofSource`, `Reads.eq_ofSource` — the stream of a source is the one its reading gives
-/

namespace Mustache

open Text

/-! ## Places to read on from -/

/-- The text ends with a line feed, or with a line that holds more than padding. -/
def Landing (u : Text) : Prop := WholeLines u ∨ isPadding (lastLine u) = false

theorem landing_nil : Landing [] := Or.inl wholeLines_nil

theorem Delimiters.closing_lineFeed_notMem (d : Delimiters) (e : Enclosure) :
    char '\n' ∉ e.closing d := (e.isMarker_closing d).lineFeed_notMem

theorem isPadding_eq_false {s : Text} {c : CodePoint} (h : c ∈ s) (hc : isBlank c = false) :
    isPadding s = false := by
  cases hs : isPadding s with
  | false => rfl
  | true =>
    have := OwnLine.isBlank_of_mem_isPadding hs h
    rw [hc] at this
    cases this

/-- A line that holds a marker holds more than padding. -/
theorem isPadding_lastLine_marker {m : Text} (hm : IsMarker m) (u : Text) {k : Text}
    (hk : char '\n' ∉ k) : isPadding (lastLine (u ++ m ++ k)) = false := by
  obtain ⟨c, m', hcm⟩ := List.exists_cons_of_ne_nil hm.1
  have hc : c ∈ m := by rw [hcm]; exact List.mem_cons_self
  rw [lastLine_append_of_notMem _ hk, lastLine_append_of_notMem _ hm.lineFeed_notMem]
  exact isPadding_eq_false (List.mem_append_left k (List.mem_append_right _ hc)) (hm.2 c hc).1

/-- Padding that begins behind a line feed of the gap is part of the gap. -/
theorem exists_padding_of_mem (u : Text) {gap : Text} (h : char '\n' ∈ gap) :
    ∃ kept, gap = kept ++ lastLine (u ++ gap) ∧ WholeLines (u ++ kept) := by
  obtain ⟨kept, hkept, heq⟩ := exists_append_lastLine gap
  refine ⟨kept, by rw [lastLine_append_of_mem u h]; exact heq, ?_⟩
  rcases wholeLines_iff.mp hkept with rfl | ⟨t, rfl⟩
  · rw [List.nil_append] at heq
    rw [heq] at h
    exact absurd h (notMem_lastLine gap)
  · rw [← List.append_assoc]
    exact wholeLines_concat (u ++ t)

/-- From such a place on, padding before a tag has been read together with the tag. -/
theorem Landing.exists_padding {u gap : Text} (hu : Landing u)
    (h : isPadding (lastLine (u ++ gap)) = true) :
    ∃ kept, gap = kept ++ lastLine (u ++ gap) ∧ WholeLines (u ++ kept) := by
  by_cases hgap : char '\n' ∈ gap
  · exact exists_padding_of_mem u hgap
  · have hlast : lastLine (u ++ gap) = lastLine u ++ gap := lastLine_append_of_notMem u hgap
    rcases hu with hu | hu
    · have hnil := lastLine_eq_nil_iff.mpr hu
      refine ⟨[], ?_, by rw [List.append_nil]; exact hu⟩
      rw [hlast, hnil]
      rfl
    · rw [hlast, isPadding, List.all_append, Bool.and_eq_true] at h
      rw [isPadding, h.1] at hu
      cases hu

/-! ## The first tag of a text -/

/-- The first tag that is looked for in a text is found: behind a gap, with a body, and with some
text after it. -/
structure Found (d : Delimiters) (s gap : Text) (e : Enclosure) (body after : Text) : Prop where
  opening : opening? d s = some (gap, e, body ++ e.closing d ++ after)
  closing : cut? (e.closing d) (body ++ e.closing d ++ after) = some (body, after)

theorem Found.eq {d : Delimiters} {s gap body after : Text} {e : Enclosure}
    (h : Found d s gap e body after) : s = gap ++ e.write d body ++ after := by
  rw [eq_of_opening? h.opening]
  simp only [Enclosure.write, List.append_assoc]

theorem found_of_cut? {d : Delimiters} {s gap rest body after : Text} {e : Enclosure}
    (ho : opening? d s = some (gap, e, rest)) (hc : cut? (e.closing d) rest = some (body, after)) :
    Found d s gap e body after := by
  have hrest := eq_of_cut? hc
  exact ⟨hrest ▸ ho, hrest ▸ hc⟩

/-- The first tag of what is still to come is looked for behind what has been read. -/
theorem opening?_drop_length (d : Delimiters) (u s : Text) :
    opening? d ((u ++ s).drop u.length) = opening? d s := by
  rw [List.drop_left]

/-- Some text follows a tag in whole lines: no marker ends a line. -/
theorem Found.lineFeed_mem {d : Delimiters} {s gap body after : Text} {e : Enclosure}
    (h : Found d s gap e body after) (hs : WholeLines s) : char '\n' ∈ after := by
  have hne : after ≠ [] := by
    rintro rfl
    have hclosing : WholeLines (e.closing d) := by
      rw [h.eq, List.append_nil, Enclosure.write, ← List.append_assoc] at hs
      exact hs.right
    exact d.closing_lineFeed_notMem e (mem_of_wholeLines hclosing (e.closing_ne_nil d))
  rw [h.eq] at hs
  exact mem_of_wholeLines hs.right hne

/-- The line that a tag ends on holds more than padding. -/
theorem isPadding_lastLine_write (d : Delimiters) (e : Enclosure) (before body : Text) {k : Text}
    (hk : char '\n' ∉ k) : isPadding (lastLine (before ++ e.write d body ++ k)) = false := by
  have hmarker := isPadding_lastLine_marker (e.isMarker_closing d)
    (before ++ (e.opening d ++ body)) hk
  simpa only [Enclosure.write, List.append_assoc] using hmarker

/-- Behind the line end that follows a tag a line begins, or else the line holds the tag. -/
theorem landing_lineEnd (d : Delimiters) (e : Enclosure) (before body after : Text) :
    Landing (before ++ e.write d body ++ OwnLine.lineEnd after) := by
  by_cases hn : char '\n' ∈ after
  · obtain ⟨l, r, rfl, hl⟩ := List.eq_append_cons_of_mem hn
    rw [(OwnLine.lineEnd_append_lineFeed hl r).1, ← List.append_assoc]
    exact Or.inl (wholeLines_concat _)
  · rw [(OwnLine.lineEnd_of_notMem hn).1]
    exact Or.inr (isPadding_lastLine_write d e before body hn)

/-- The tag with the line it has to itself. -/
def Tag.withLine (line : OwnLine) (tag : Tag) : Tag := { tag with ownLine := some line }

/-- The first tag of `s` when `u` has been read: the text that is kept before it, the tag, and what
has been read and what is still to come behind it. -/
inductive FirstTag (d : Delimiters) (u s : Text) : Text → Tag → Text → Text → Prop
  /-- Something else is on the tag's line: reading goes on right behind it. -/
  | inline {gap body after : Text} {e : Enclosure} (found : Found d s gap e body after)
      (alone : ¬ OwnLine.Alone (e.kindOf body) (u ++ gap) after) :
      FirstTag d u s gap (tagOf d e (u ++ gap).length body) (u ++ gap ++ e.write d body) after
  /-- The tag has its line to itself: the padding before it and the line end are passed over. -/
  | ownLine {kept padding body lineEnd rest : Text} {e : Enclosure}
      (found : Found d s (kept ++ padding) e body (lineEnd ++ rest))
      (alone : OwnLine.Alone (e.kindOf body) (u ++ (kept ++ padding)) (lineEnd ++ rest))
      (whole : WholeLines (u ++ kept)) (line : char '\n' ∉ padding)
      (lineEnd_eq : OwnLine.lineEnd (lineEnd ++ rest) = lineEnd) :
      FirstTag d u s kept
        ((tagOf d e (u ++ (kept ++ padding)).length body).withLine ⟨(u ++ kept).length, padding,
          (u ++ (kept ++ padding) ++ e.write d body ++ lineEnd).length⟩)
        (u ++ (kept ++ padding) ++ e.write d body ++ lineEnd) rest

namespace FirstTag

variable {d : Delimiters} {u s kept u' s' : Text} {tag : Tag}

/-- Nothing is lost on the way. -/
theorem append_eq (h : FirstTag d u s kept tag u' s') : u' ++ s' = u ++ s := by
  cases h with
  | inline found alone => rw [found.eq]; simp only [List.append_assoc]
  | ownLine found alone whole line lineEnd_eq => rw [found.eq]; simp only [List.append_assoc]

/-- What is still to come behind a tag has been to come before it. -/
theorem suffix (h : FirstTag d u s kept tag u' s') : s' <:+ s := by
  cases h with
  | inline found alone =>
    rw [found.eq]
    exact List.suffix_append _ _
  | ownLine found alone whole line lineEnd_eq =>
    rw [found.eq]
    exact (List.suffix_append _ _).trans (List.suffix_append _ _)

theorem length_lt (h : FirstTag d u s kept tag u' s') : s'.length < s.length := by
  cases h with
  | @inline body _ e found alone =>
    have hpos := List.length_pos_iff.mpr (e.opening_ne_nil d)
    rw [found.eq]
    simp only [Enclosure.write, List.length_append]
    omega
  | @ownLine padding body lineEnd _ e found alone whole line lineEnd_eq =>
    have hpos := List.length_pos_iff.mpr (e.opening_ne_nil d)
    rw [found.eq]
    simp only [Enclosure.write, List.length_append]
    omega

/-- **A step over a tag ends at the beginning of a line or behind more than padding.** -/
theorem landing (h : FirstTag d u s kept tag u' s') : Landing u' := by
  cases h with
  | @inline body _ e found alone =>
    have hpad := isPadding_lastLine_write d e (u ++ kept) body (List.not_mem_nil (a := char '\n'))
    rw [List.append_nil] at hpad
    exact Or.inr hpad
  | @ownLine padding body lineEnd _ e found alone whole line lineEnd_eq =>
    rw [← lineEnd_eq]
    exact landing_lineEnd d e (u ++ (kept ++ padding)) body (lineEnd ++ s')

end FirstTag

/-- Where a tag is found with the padding of its line, there is a step over it. -/
theorem exists_firstTag_of_padding {d : Delimiters} {u s gap body after : Text} {e : Enclosure}
    (found : Found d s gap e body after) (alone : OwnLine.Alone (e.kindOf body) (u ++ gap) after)
    (h : ∃ kept, gap = kept ++ lastLine (u ++ gap) ∧ WholeLines (u ++ kept)) :
    ∃ kept tag u' s', FirstTag d u s kept tag u' s' := by
  obtain ⟨kept, hgap, hwhole⟩ := h
  have hn := notMem_lastLine (u ++ gap)
  have hend := OwnLine.lineEnd_append_afterLine after
  generalize hp : lastLine (u ++ gap) = padding at hgap hn
  rw [hgap, ← hend] at found alone
  exact ⟨_, _, _, _, FirstTag.ownLine found alone hwhole hn (by rw [hend])⟩

/-- Where a tag is found from a landing, there is a step over it. -/
theorem exists_firstTag {d : Delimiters} {u s gap body after : Text} {e : Enclosure}
    (hu : Landing u) (found : Found d s gap e body after) :
    ∃ kept tag u' s', FirstTag d u s kept tag u' s' := by
  by_cases halone : OwnLine.Alone (e.kindOf body) (u ++ gap) after
  · exact exists_firstTag_of_padding found halone (hu.exists_padding halone.2.1)
  · exact ⟨_, _, _, _, FirstTag.inline found halone⟩

/-- **Induction along a reading**, one step at a time, whatever pair is in force behind it. -/
@[elab_as_elim]
theorem Landing.induction {P : Delimiters → Text → Text → Prop}
    (finished : ∀ {d u s}, opening? d s = none → P d u s)
    (unclosed : ∀ {d u s gap e rest}, opening? d s = some (gap, e, rest) →
      cut? (e.closing d) rest = none → P d u s)
    (tag : ∀ {d u s kept tag u' s'}, FirstTag d u s kept tag u' s' → (∀ d', P d' u' s') →
      P d u s)
    (d : Delimiters) {u : Text} (hu : Landing u) (s : Text) : P d u s := by
  induction hn : s.length using Nat.strongRecOn generalizing d u s with
  | _ n ih =>
    cases ho : opening? d s with
    | none => exact finished ho
    | some found =>
      obtain ⟨gap, e, rest⟩ := found
      cases hc : cut? (e.closing d) rest with
      | none => exact unclosed ho hc
      | some parts =>
        obtain ⟨kept, t, u', s', first⟩ := exists_firstTag hu (found_of_cut? ho hc)
        exact tag first fun d' => ih _ (hn ▸ first.length_lt) d' first.landing s' rfl

/-- **A line with nothing but a tag is passed over whole.** -/
theorem exists_firstTag_line {d : Delimiters} {u padding padding' body s : Text} {e : Enclosure}
    (hu : WholeLines u) (hbefore : isPadding padding = true) (hafter : isPadding padding' = true)
    (howns : (e.kindOf body).ownsLine = true)
    (found : Found d (padding ++ e.write d body ++ (padding' ++ char '\n' :: s)) padding e body
      (padding' ++ char '\n' :: s)) :
    ∃ tag, FirstTag d u (padding ++ e.write d body ++ padding' ++ [char '\n'] ++ s) [] tag
        (u ++ (padding ++ e.write d body ++ padding' ++ [char '\n'])) s ∧
      tag.kind = e.kindOf body ∧ tag.name = (kindAndName e (trim body)).2 := by
  have hfeed : char '\n' ∉ padding := OwnLine.notMem_of_isPadding hbefore (by decide) (by decide)
  have hfeed' : char '\n' ∉ padding' := OwnLine.notMem_of_isPadding hafter (by decide) (by decide)
  have hrest : padding' ++ char '\n' :: s = (padding' ++ [char '\n']) ++ s := by simp
  have halone : OwnLine.Alone (e.kindOf body) (u ++ ([] ++ padding))
      (padding' ++ char '\n' :: s) := by
    refine ⟨howns, ?_, ?_⟩
    · rw [List.nil_append, lastLine_append hu, lastLine_of_notMem hfeed]
      exact hbefore
    · rw [OwnLine.trailing_of_isPadding hafter]
      exact hafter
  have hend := (OwnLine.lineEnd_append_lineFeed hfeed' s).1
  rw [hrest] at found halone hend
  have hfound : Found d _ ([] ++ padding) e body (padding' ++ [char '\n'] ++ s) := found
  have hstep := FirstTag.ownLine hfound halone (by rwa [List.append_nil]) hfeed hend
  have hline : padding ++ e.write d body ++ (padding' ++ [char '\n'] ++ s) =
      padding ++ e.write d body ++ padding' ++ [char '\n'] ++ s := by simp only [List.append_assoc]
  have hread : u ++ ([] ++ padding) ++ e.write d body ++ (padding' ++ [char '\n']) =
      u ++ (padding ++ e.write d body ++ padding' ++ [char '\n']) := by
    simp only [List.append_assoc, List.nil_append]
  rw [hline, hread] at hstep
  exact ⟨_, hstep, rfl, rfl⟩

/-! ## The step over a tag, in the source -/

theorem stop_tagOf (d : Delimiters) (e : Enclosure) (before body : Text) :
    (tagOf d e before.length body).stop = (before ++ e.write d body).length := by
  simp only [tagOf, Enclosure.write, List.length_append]
  omega

theorem OwnLine.of?_tagOf (d : Delimiters) (e : Enclosure) (before body after : Text) :
    OwnLine.of? (before ++ e.write d body ++ after) (tagOf d e before.length body) =
      if OwnLine.Alone (e.kindOf body) before after then
        some ⟨before.length - (lastLine before).length, lastLine before,
          (before ++ e.write d body).length + OwnLine.lengthToNext after⟩
      else none :=
  OwnLine.of?_eq rfl (stop_tagOf d e before body)

theorem Run.beforeTag_of_none {tag : Tag} (h : tag.ownLine = none) (r : Run) :
    r.beforeTag tag = r := by
  rw [beforeTag, h]

theorem Run.before_append (u kept padding : Text) :
    (Run.mk (kept ++ padding) u.length).before (u ++ kept).length = ⟨kept, u.length⟩ := by
  have h : (((u ++ kept).length : Nat) : Int) - (u.length : Nat) = (kept.length : Nat) := by
    rw [List.length_append]
    omega
  rw [Run.before, h, upTo, if_pos (Int.natCast_nonneg _), Int.toNat_natCast, List.take_left]

/-- The parts of a step over a tag are the tag with its line, the text before the line, and the
place where the tag leaves off. -/
theorem FirstTag.exists_found {d : Delimiters} {u s kept u' s' : Text} {tag : Tag}
    (h : FirstTag d u s kept tag u' s') :
    ∃ gap e body after, Found d s gap e body after ∧
      (tagOf d e (u.length + gap.length) body).onLine (u ++ s) = tag ∧
      Run.beforeTag tag ⟨gap, u.length⟩ = ⟨kept, u.length⟩ ∧ tag.next = u'.length := by
  cases h with
  | @inline body _ e found alone =>
    have hof := OwnLine.of?_tagOf d e (u ++ kept) body s'
    rw [if_neg alone, List.append_assoc, List.append_assoc, ← List.append_assoc kept,
      ← found.eq] at hof
    refine ⟨kept, e, body, s', found, ?_, Run.beforeTag_of_none rfl _, stop_tagOf d e _ _⟩
    rw [← List.length_append, Tag.onLine, hof]
    rfl
  | @ownLine padding body lineEnd _ e found alone whole line lineEnd_eq =>
    have hof := OwnLine.of?_tagOf d e (u ++ (kept ++ padding)) body (lineEnd ++ s')
    have hlast : lastLine (u ++ (kept ++ padding)) = padding := by
      rw [← List.append_assoc, lastLine_append whole, lastLine_of_notMem line]
    have hpad : (u ++ (kept ++ padding)).length - padding.length = (u ++ kept).length := by
      simp only [List.length_append]
      omega
    have hend : (u ++ (kept ++ padding) ++ e.write d body).length +
        OwnLine.lengthToNext (lineEnd ++ s') =
          (u ++ (kept ++ padding) ++ e.write d body ++ lineEnd).length := by
      rw [← OwnLine.length_lineEnd, lineEnd_eq, ← List.length_append]
    rw [if_pos alone, hlast, hpad, hend, List.append_assoc u, List.append_assoc u,
      ← found.eq] at hof
    refine ⟨kept ++ padding, e, body, lineEnd ++ s', found, ?_, Run.before_append u kept padding,
      rfl⟩
    rw [← List.length_append, Tag.onLine, hof]
    simp only [Tag.withLine, List.append_assoc]

/-! ## Readings -/

/-- `Reads d u s stream`: when `u` has been read, the tokens of `s`, the first of them written with
the pair `d`, are those of `stream`. -/
inductive Reads : Delimiters → Text → Text → Stream → Prop
  /-- No tag is left. -/
  | finished {d : Delimiters} {u s : Text} (none_left : opening? d s = none) :
      Reads d u s ⟨(Run.mk s u.length).tokens, none⟩
  /-- A tag is not closed. -/
  | unclosed {d : Delimiters} {u s gap rest : Text} {e : Enclosure}
      (opening : opening? d s = some (gap, e, rest)) (closing : cut? (e.closing d) rest = none) :
      Reads d u s ⟨[], some ⟨.unclosedTag ((e.opening d ++ rest).take Scan.excerptLength)
        (e.closing d), (u ++ gap).length⟩⟩
  /-- A set-delimiter tag names no pair. -/
  | refused {d : Delimiters} {u s kept u' s' : Text} {tag : Tag} {fault : Delimiters.Fault}
      (first : FirstTag d u s kept tag u' s') (pair : tag.pairAfter d = .error fault) :
      Reads d u s (Stream.cons ⟨kept, u.length⟩ tag ⟨[], some ⟨.badDelimiters fault, tag.start⟩⟩)
  /-- A tag, and what is read behind it. -/
  | tag {d d' : Delimiters} {u s kept u' s' : Text} {tag : Tag} {stream : Stream}
      (first : FirstTag d u s kept tag u' s') (pair : tag.pairAfter d = .ok d')
      (rest : Reads d' u' s' stream) : Reads d u s (stream.cons ⟨kept, u.length⟩ tag)

theorem FirstTag.ofSource_eq {d : Delimiters} {u s kept u' s' : Text} {tag : Tag}
    (h : FirstTag d u s kept tag u' s') :
    Stream.ofSource (u ++ s) d u.length =
      match tag.pairAfter d with
      | .error fault =>
        Stream.cons ⟨kept, u.length⟩ tag ⟨[], some ⟨.badDelimiters fault, tag.start⟩⟩
      | .ok d' => (Stream.ofSource (u' ++ s') d' u'.length).cons ⟨kept, u.length⟩ tag := by
  obtain ⟨gap, e, body, after, found, htag, hrun, hnext⟩ := h.exists_found
  have hopening := (opening?_drop_length d u s).trans found.opening
  have hstart : tag.start = u.length + gap.length := by rw [← htag]; rfl
  have heq := Stream.ofSource_of_tag hopening found.closing
  rw [htag, hrun, hnext, ← hstart] at heq
  rw [h.append_eq]
  exact heq

/-- **A reading gives the stream of the source.** -/
theorem Reads.eq_ofSource {d : Delimiters} {u s : Text} {stream : Stream}
    (h : Reads d u s stream) : stream = Stream.ofSource (u ++ s) d u.length := by
  induction h with
  | @finished d u s none_left =>
    rw [Stream.ofSource_of_none ((opening?_drop_length d u s).trans none_left), List.drop_left]
  | @unclosed d u s gap rest e opening closing =>
    rw [Stream.ofSource_of_unclosed ((opening?_drop_length d u s).trans opening) closing,
      List.length_append]
  | refused first pair => rw [first.ofSource_eq, pair]
  | tag first pair rest ih => rw [first.ofSource_eq, pair, ih]

/-- **Every source can be read, from every landing.** -/
theorem reads_ofSource (d : Delimiters) {u : Text} (hu : Landing u) (s : Text) :
    Reads d u s (Stream.ofSource (u ++ s) d u.length) := by
  have hex : ∃ stream, Reads d u s stream := by
    refine Landing.induction ?finished ?unclosed ?tag d hu s
    case finished =>
      intro d u s ho
      exact ⟨_, .finished ho⟩
    case unclosed =>
      intro d u s gap e rest ho hc
      exact ⟨_, .unclosed ho hc⟩
    case tag =>
      intro d u s kept t u' s' first ih
      cases hp : t.pairAfter d with
      | error fault => exact ⟨_, .refused first hp⟩
      | ok d' =>
        obtain ⟨stream, rest⟩ := ih d'
        exact ⟨_, .tag first hp rest⟩
  obtain ⟨stream, h⟩ := hex
  rw [← h.eq_ofSource]
  exact h

end Mustache
