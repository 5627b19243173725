import Mustache.Proofs.Template.Kept
import Mustache.Proofs.Token.Resumed

/-!
# The text of a scan without the lines that tags own

From wherever a scan begins, the texts of its runs should be the source from there on without the
tags, and without what goes with the lines that tags own. From the beginning of a line, or from
behind something on a line that is not padding, they are (`Scan.Exact`).

A scan may also begin in the padding of a line that a tag owns. The line then begins before the run
that is to be cut, and so far before the end of the run is it cut: as much is left out before the
tag as there is of the line before the scan. Of longer padding something stays
(`Scan.StepInPadding`).

* `Stream.text_eq_slice` — every run has the text it covers
* `Scan.exact_of_landing` — scans that begin where no padding has been read
* `Scan.text_ofPair_iff` — the scans whose text is the source without the tags and their lines
-/

namespace Mustache

open Text

/-- The tokens of a source from an offset on, all of them written with one pair, without the lines
that tags own. -/
def Stream.ofPair (source : Text) (d : Delimiters) (start : Nat) : Stream :=
  ((Scan.ofSource source d start).withoutOwnLines source).toStream

variable {source : Text} {d : Delimiters} {start : Nat}

namespace Stream

theorem ofPair_of_none (h : opening? d (source.drop start) = none) :
    ofPair source d start = ⟨(Run.mk (source.drop start) start).tokens, none⟩ := by
  rw [ofPair, Scan.ofSource, Scan.ofText_of_none h]
  show Stream.mk ((Run.mk (source.drop start) start).after 0).tokens none = _
  rw [Run.after_of_le (Nat.zero_le _)]

theorem ofPair_of_unclosed {gap rest : Text} {e : Enclosure}
    (ho : opening? d (source.drop start) = some (gap, e, rest))
    (hc : cut? (e.closing d) rest = none) :
    ofPair source d start =
      ⟨[], some ⟨.unclosedTag ((e.opening d ++ rest).take Scan.excerptLength) (e.closing d),
        start + gap.length⟩⟩ := by
  rw [ofPair, Scan.ofSource, Scan.ofText_of_unclosed ho hc]
  rfl

theorem ofPair_of_found {gap rest body after : Text} {e : Enclosure}
    (ho : opening? d (source.drop start) = some (gap, e, rest))
    (hc : cut? (e.closing d) rest = some (body, after)) :
    ofPair source d start =
      (ofPair source d ((tagOf d e (start + gap.length) body).onLine source).next).cons
        (Run.beforeTag ((tagOf d e (start + gap.length) body).onLine source) ⟨gap, start⟩)
        ((tagOf d e (start + gap.length) body).onLine source) :=
  Scan.toStream_of_found ho hc

/-- Behind a tag that is found reading goes on further in the source. -/
theorem next_of_found {gap rest body after : Text} {e : Enclosure}
    (ho : opening? d (source.drop start) = some (gap, e, rest))
    (hc : cut? (e.closing d) rest = some (body, after)) :
    start < ((tagOf d e (start + gap.length) body).onLine source).next ∧
      ((tagOf d e (start + gap.length) body).onLine source).next ≤ source.length := by
  obtain ⟨k, -, hk, hnext⟩ := exists_blanks_of_onLine (drop_stop_of_found ho hc)
  have hopening := List.length_pos_iff.mpr (e.opening_ne_nil d)
  have hsource := length_of_opening? ho
  have hrest := length_of_cut? hc
  have hafter := congrArg List.length hk
  have hstop : (tagOf d e (start + gap.length) body).stop =
    start + gap.length + (e.opening d).length + body.length + (e.closing d).length := rfl
  rw [List.length_drop] at hsource
  rw [List.length_append] at hafter
  omega

/-- **Induction along a scan**, one tag at a time, each scanned from where the one before it leaves
off. -/
theorem ofPair_induction (source : Text) (d : Delimiters) {P : Nat → Prop}
    (finished : ∀ start, opening? d (source.drop start) = none → P start)
    (unclosed : ∀ start gap e rest, opening? d (source.drop start) = some (gap, e, rest) →
      cut? (e.closing d) rest = none → P start)
    (tag : ∀ start gap e rest body after, opening? d (source.drop start) = some (gap, e, rest) →
      cut? (e.closing d) rest = some (body, after) →
      P ((tagOf d e (start + gap.length) body).onLine source).next → P start)
    (start : Nat) : P start := by
  induction hn : source.length - start using Nat.strongRecOn generalizing start with
  | _ n ih =>
    cases ho : opening? d (source.drop start) with
    | none => exact finished start ho
    | some found =>
      obtain ⟨gap, e, rest⟩ := found
      cases hc : cut? (e.closing d) rest with
      | none => exact unclosed start gap e rest ho hc
      | some parts =>
        obtain ⟨body, after⟩ := parts
        have hnext := next_of_found ho hc
        exact tag start gap e rest body after ho hc (ih _ (by omega) _ rfl)

/-! ## The text of a run -/

theorem mem_tokens {r r' : Run} (h : .run r' ∈ r.tokens) : r' = r := by
  unfold Run.tokens at h
  split at h
  · cases h
  · exact Token.run.inj (List.mem_singleton.mp h)

/-- What is cut from a run before a tag is cut off at its end. -/
theorem beforeTag_eq_take (tag : Tag) (r : Run) :
    ∃ n, Run.beforeTag tag r = ⟨r.text.take n, r.start⟩ := by
  unfold Run.beforeTag
  split
  · unfold Run.before upTo
    split
    · exact ⟨_, rfl⟩
    · exact ⟨_, rfl⟩
  · exact ⟨r.text.length, by rw [List.take_length]⟩

/-- **Every run has the text that it covers**, wherever the scan begins. -/
theorem text_eq_slice {r : Run} (h : .run r ∈ (ofPair source d start).tokens) :
    r.text = slice source r.start r.stop := by
  induction start using ofPair_induction source d with
  | finished start ho =>
    rw [ofPair_of_none ho] at h
    rw [mem_tokens h]
    exact (slice_of_drop_eq (List.append_nil (source.drop start)).symm).symm
  | unclosed start gap e rest ho hc =>
    rw [ofPair_of_unclosed ho hc] at h
    cases h
  | tag start gap e rest body after ho hc ih =>
    rw [ofPair_of_found ho hc] at h
    rcases List.mem_append.mp h with h | h
    · obtain ⟨k, hk⟩ := beforeTag_eq_take
        ((tagOf d e (start + gap.length) body).onLine source) ⟨gap, start⟩
      rw [mem_tokens h, hk]
      refine (slice_of_drop_eq (t := gap.drop k ++ (e.opening d ++ rest)) ?_).symm
      rw [← List.append_assoc, List.take_append_drop, ← List.append_assoc]
      exact eq_of_opening? ho
    · exact ih ((List.mem_cons.mp h).resolve_left nofun)

end Stream

/-! ## Exact scans -/

/-- A step over a tag, and what is scanned behind it. -/
theorem FirstTag.ofPair_eq {u s kept u' s' : Text} {tag : Tag}
    (h : FirstTag d u s kept tag u' s') :
    Stream.ofPair (u ++ s) d u.length =
      (Stream.ofPair (u ++ s) d u'.length).cons ⟨kept, u.length⟩ tag := by
  obtain ⟨gap, e, body, after, found, htag, hrun, hnext⟩ := h.exists_found
  have hopening := (opening?_drop_length d u s).trans found.opening
  have heq := Stream.ofPair_of_found hopening found.closing
  rw [htag, hrun, hnext] at heq
  exact heq

namespace Scan

/-- From this offset on the texts of the runs are the source without the tags and the lines they
own, and none of these begin before. -/
structure Exact (source : Text) (d : Delimiters) (start : Nat) : Prop where
  begins : ∀ i, i < start →
    ((Stream.ofPair source d start).ranges source).any (inRange i) = false
  text_eq : (Stream.ofPair source d start).flaw = none →
    (Stream.ofPair source d start).text =
      withoutFrom ((Stream.ofPair source d start).ranges source) start (source.drop start)

theorem exact_of_none (h : opening? d (source.drop start) = none) : Exact source d start := by
  have hranges : (Stream.ofPair source d start).ranges source = [] := by
    rw [Stream.ofPair_of_none h, Stream.ranges, Stream.ranges_tokens]
  refine ⟨fun i _ => by rw [hranges]; rfl, fun _ => ?_⟩
  rw [hranges, withoutFrom_eq_self fun _ _ _ => rfl, Stream.ofPair_of_none h, Stream.text,
    Stream.text_tokens]

theorem exact_of_unclosed {gap rest : Text} {e : Enclosure}
    (ho : opening? d (source.drop start) = some (gap, e, rest))
    (hc : cut? (e.closing d) rest = none) : Exact source d start := by
  have hpair := Stream.ofPair_of_unclosed ho hc
  constructor
  · intro i _
    rw [hpair]
    rfl
  · intro hflaw
    rw [hpair] at hflaw
    cases hflaw

/-- A step over a tag leads from an exact scan back to an exact scan. -/
theorem exact_of_firstTag {u s kept u' s' : Text} {tag : Tag} (h : FirstTag d u s kept tag u' s')
    (rest : Exact (u ++ s) d u'.length) : Exact (u ++ s) d u.length := by
  obtain ⟨covered, hs, hu', hrange⟩ := h.exists_covered
  have hlen : u'.length = (u ++ kept).length + covered.length := by rw [hu', List.length_append]
  have hle : u.length ≤ (u ++ kept).length := (List.prefix_append u kept).length_le
  constructor
  · intro i hi
    rw [h.ofPair_eq, Stream.ranges_cons, List.any_append, hrange, rest.begins i (by omega), inRange,
      decide_eq_false (by simp only []; omega), Bool.false_and, Bool.or_false]
  · intro hflaw
    rw [h.ofPair_eq] at hflaw ⊢
    have hcut := withoutFrom_append_append s' List.length_append hlen (fun i _ => hrange i)
      rest.begins
    rw [← hs] at hcut
    have hdrop : (u ++ s).drop u'.length = s' := by rw [← h.append_eq, List.drop_left]
    rw [Stream.text_cons, Stream.ranges_cons, rest.text_eq hflaw, hdrop, List.drop_left, hcut]

/-- **A scan is exact from where no padding has been read.** -/
theorem exact_of_landing (d : Delimiters) {u : Text} (hu : Landing u) (s : Text) :
    Exact (u ++ s) d u.length := by
  refine Landing.induction ?finished ?unclosed ?tag d hu s
  case finished =>
    intro d u s ho
    exact exact_of_none ((opening?_drop_length d u s).trans ho)
  case unclosed =>
    intro d u s gap e rest ho hc
    exact exact_of_unclosed ((opening?_drop_length d u s).trans ho) hc
  case tag =>
    intro d u s kept tag u' s' first ih
    have hrest := ih d
    rw [first.append_eq] at hrest
    exact exact_of_firstTag first hrest

/-! ## Scans that begin in padding -/

/-- A scan of `gap` and what follows begins in the padding of a line that its first tag owns. Of the
padding before the tag as much is left out as there is of the line in what comes before, in `u`. -/
structure StepInPadding (source : Text) (d : Delimiters) (u gap : Text) (tag : Tag)
    (line : OwnLine) : Prop where
  stream_eq : Stream.ofPair source d u.length =
    (Stream.ofPair source d line.resume).cons
      ⟨gap.take (gap.length - (lastLine u).length), u.length⟩ tag
  start_eq : tag.start = u.length + gap.length
  line_eq : OwnLine.of? source tag = some line
  lineStart_add : line.lineStart + (lastLine u).length = u.length
  lineStart_lt : line.lineStart < u.length
  start_lt_stop : tag.start < tag.stop
  resume_le : line.resume ≤ source.length
  rest : Exact source d line.resume

/-- Where a line begins before the run, so far from its end is the run cut. -/
theorem before_of_add_eq {lineStart start n : Nat} (h : lineStart + n = start) (hn : 0 < n)
    (gap : Text) :
    (Run.mk gap start).before lineStart = ⟨gap.take (gap.length - n), start⟩ := by
  have hneg : (lineStart : Int) - (start : Nat) = -(n : Nat) := by omega
  rw [Run.before, hneg, upTo, if_neg (by omega), Int.neg_neg, Int.toNat_natCast]

theorem stepInPadding_of_found {u s gap body after : Text} {e : Enclosure}
    (found : Found d s gap e body after) (alone : OwnLine.Alone (e.kindOf body) (u ++ gap) after)
    (hgap : char '\n' ∉ gap) (hu : lastLine u ≠ []) :
    ∃ tag line, StepInPadding (u ++ s) d u gap tag line := by
  have hsource : u ++ gap ++ e.write d body ++ after = u ++ s := by
    rw [found.eq]
    simp only [List.append_assoc]
  have hof := OwnLine.of?_tagOf d e (u ++ gap) body after
  rw [if_pos alone, lastLine_append_of_notMem u hgap, hsource] at hof
  have hpos := List.length_pos_iff.mpr hu
  have hadd : (u ++ gap).length - (lastLine u ++ gap).length + (lastLine u).length =
      u.length := by
    have hle := length_lastLine_le u
    simp only [List.length_append]
    omega
  have hresume : (u ++ gap ++ e.write d body).length + OwnLine.lengthToNext after =
      (u ++ gap ++ e.write d body ++ OwnLine.lineEnd after).length := by
    rw [← OwnLine.length_lineEnd, ← List.length_append]
  have hsplit : u ++ gap ++ e.write d body ++ OwnLine.lineEnd after ++ OwnLine.afterLine after =
      u ++ s := by
    rw [List.append_assoc _ _ (OwnLine.afterLine after), OwnLine.lineEnd_append_afterLine, hsource]
  refine ⟨(tagOf d e (u ++ gap).length body).onLine (u ++ s), _, ?_, List.length_append, hof, hadd,
    Nat.lt_of_lt_of_eq (Nat.lt_add_of_pos_right hpos) hadd, ?_, ?_, ?_⟩
  · have hopening := (opening?_drop_length d u s).trans found.opening
    have heq := Stream.ofPair_of_found hopening found.closing
    rw [← List.length_append, Tag.next, Run.beforeTag, Tag.onLine, hof] at heq
    rw [Tag.onLine, hof]
    exact before_of_add_eq hadd hpos gap ▸ heq
  · have hopening := List.length_pos_iff.mpr (e.opening_ne_nil d)
    simp only [Tag.onLine, tagOf]
    omega
  · show _ + OwnLine.lengthToNext after ≤ _
    rw [hresume, ← hsplit]
    exact (List.prefix_append _ _).length_le
  · have hexact := exact_of_landing d (landing_lineEnd d e (u ++ gap) body after)
      (OwnLine.afterLine after)
    rw [hsplit, ← hresume] at hexact
    exact hexact

theorem exact_or_stepInPadding_of_found {u s gap body after : Text} {e : Enclosure}
    (found : Found d s gap e body after) :
    Exact (u ++ s) d u.length ∨ ∃ tag line, StepInPadding (u ++ s) d u gap tag line := by
  have hexact {kept tag u' s'} (first : FirstTag d u s kept tag u' s') :
      Exact (u ++ s) d u.length := by
    refine exact_of_firstTag first ?_
    rw [← first.append_eq]
    exact exact_of_landing d first.landing s'
  by_cases halone : OwnLine.Alone (e.kindOf body) (u ++ gap) after
  · by_cases hgap : char '\n' ∈ gap
    · obtain ⟨_, _, _, _, first⟩ :=
        exists_firstTag_of_padding found halone (exists_padding_of_mem u hgap)
      exact .inl (hexact first)
    · by_cases hu : lastLine u = []
      · have hlanding : Landing u := .inl (lastLine_eq_nil_iff.mp hu)
        exact .inl (exact_of_landing d hlanding s)
      · exact .inr (stepInPadding_of_found found halone hgap hu)
  · exact .inl (hexact (.inline found halone))

/-- **Wherever a scan begins, it is exact, or it begins in the padding of a line that its first tag
owns.** -/
theorem exact_or_stepInPadding (source : Text) (d : Delimiters) (start : Nat) :
    Exact source d start ∨
      ∃ u gap tag line, u.length = start ∧ StepInPadding source d u gap tag line := by
  cases ho : opening? d (source.drop start) with
  | none => exact .inl (exact_of_none ho)
  | some found =>
    obtain ⟨gap, e, rest⟩ := found
    cases hc : cut? (e.closing d) rest with
    | none => exact .inl (exact_of_unclosed ho hc)
    | some parts =>
      have hne : source.drop start ≠ [] := by
        intro hnil
        rw [hnil] at ho
        cases ho
      have hstart : (source.take start).length = start := by
        have := List.length_pos_iff.mpr hne
        rw [List.length_drop] at this
        rw [List.length_take]
        omega
      have hcases := exact_or_stepInPadding_of_found (u := source.take start) (found_of_cut? ho hc)
      rw [List.take_append_drop, hstart] at hcases
      rcases hcases with hexact | ⟨tag, line, hstep⟩
      · exact .inl hexact
      · exact .inr ⟨_, gap, tag, line, hstart, hstep⟩

/-! ## The text of a scan -/

/-- Where no range of a stream reaches back over an offset, a line that begins before it begins
with its tag. -/
theorem start_le_of_lineStart_lt {stream : Stream} {p : Nat}
    (h : ∀ i, i < p → (stream.ranges source).any (inRange i) = false) {t : Tag} {line : OwnLine}
    (ht : .tag t ∈ stream.tokens) (hline : OwnLine.of? source t = some line)
    (hlt : line.lineStart < p) : t.start ≤ line.lineStart := by
  by_contra hbefore
  have hmem : (line.lineStart, t.start) ∈ stream.ranges source := by
    refine List.mem_flatMap.mpr ⟨.tag t, ht, ?_⟩
    show _ ∈ t.ranges source
    rw [Tag.ranges, hline]
    simp
  have hany := List.any_eq_false.mp (h _ hlt) _ hmem
  simp only [inRange, Bool.and_eq_true, decide_eq_true_eq] at hany
  omega

namespace StepInPadding

variable {u gap : Text} {tag : Tag} {line : OwnLine}

theorem text_eq (h : StepInPadding source d u gap tag line)
    (hflaw : (Stream.ofPair source d u.length).flaw = none) :
    (Stream.ofPair source d u.length).text =
      gap.take (gap.length - (lastLine u).length) ++
        withoutFrom ((Stream.ofPair source d u.length).ranges source) u.length
          (source.drop u.length) := by
  have hresume := OwnLine.stop_le_resume h.line_eq
  have hstart := h.start_eq
  have hstop := h.start_lt_stop
  have hlineStart := h.lineStart_lt
  -- all that is left of the line is taken out
  let covered := (source.drop u.length).take (line.resume - u.length)
  have hdrop : covered ++ source.drop line.resume = source.drop u.length := by
    have hadd : line.resume = u.length + (line.resume - u.length) := by omega
    rw [hadd, ← List.drop_drop]
    exact List.take_append_drop _ _
  have hlen : line.resume = u.length + covered.length := by
    have := h.resume_le
    rw [List.length_take, List.length_drop]
    omega
  have hcovered : ∀ i, u.length ≤ i →
      (tag.ranges source).any (inRange i) = inRange i (u.length, line.resume) := by
    intro i hi
    rw [Tag.any_ranges_of_ownLine h.line_eq hstop.le, Bool.eq_iff_iff]
    simp only [inRange, Bool.and_eq_true, decide_eq_true_eq]
    omega
  have hnothing : u.length = u.length + ([] : Text).length := rfl
  have hcut := withoutFrom_append_append (source.drop line.resume) hnothing hlen hcovered
    h.rest.begins
  rw [List.nil_append, hdrop, List.nil_append] at hcut
  rw [h.stream_eq] at hflaw ⊢
  rw [Stream.text_cons, Stream.ranges_cons, hcut, h.rest.text_eq hflaw]

end StepInPadding

/-- **The text of a scan.** Each of its runs has the text that it covers. All of them together are
the source, from where the scan begins, without the tags and what is left there of the lines that
they own, unless the scan begins in the padding of such a line, and there is more of the padding
behind that place than before it. -/
theorem text_ofPair_iff (source : Text) (d : Delimiters) (start : Nat)
    (hflaw : (Stream.ofPair source d start).flaw = none) :
    (∀ r, .run r ∈ (Stream.ofPair source d start).tokens → r.text = slice source r.start r.stop) ∧
      ((Stream.ofPair source d start).text =
          withoutFrom ((Stream.ofPair source d start).ranges source) start (source.drop start) ↔
        ∀ t line, .tag t ∈ (Stream.ofPair source d start).tokens →
          OwnLine.of? source t = some line → line.lineStart < start →
          t.start - start ≤ start - line.lineStart) := by
  refine ⟨fun r hr => Stream.text_eq_slice hr, ?_⟩
  rcases exact_or_stepInPadding source d start with h | ⟨u, gap, tag, first, rfl, h⟩
  · refine iff_of_true (h.text_eq hflaw) fun t line ht hline hlt => ?_
    have := start_le_of_lineStart_lt h.begins ht hline hlt
    omega
  · have hstart := h.start_eq
    have hlineStart := h.lineStart_add
    rw [h.text_eq hflaw, List.append_left_eq_self, List.take_eq_nil_iff]
    constructor
    · intro hnil t line ht hline hlt
      rw [h.stream_eq] at ht
      rcases List.mem_append.mp ht with ht | ht
      · exact absurd ht (Run.tag_notMem_tokens _ t)
      · rcases List.mem_cons.mp ht with heq | ht
        · obtain rfl : t = tag := Token.tag.inj heq
          obtain rfl : first = line := Option.some.inj (h.line_eq.symm.trans hline)
          rcases hnil with hnil | rfl
          · omega
          · rw [List.length_nil] at hstart
            omega
        · have hresume := OwnLine.stop_le_resume h.line_eq
          have hstop := h.start_lt_stop
          have := start_le_of_lineStart_lt h.rest.begins ht hline (by omega)
          omega
    · intro hall
      have hmem : .tag tag ∈ (Stream.ofPair source d u.length).tokens := by
        rw [h.stream_eq]
        exact List.mem_append_right _ List.mem_cons_self
      have := hall tag first hmem h.line_eq h.lineStart_lt
      left
      omega

/-- A block on lines of its own, with three characters of padding before its first tag. The scan
from the last of them leaves the padding out. The scan from the one before does not: one character
of the line comes before the scan, and only one of the other two is left out. -/
theorem text_ofPair_padded :
    let source :=
      "\n  \t\x7b\x7b#a\x7d\x7d\nx\x7b\x7bb\x7d\x7d \n \x7b\x7b/a\x7d\x7d ".toText
    let shallow := Stream.ofPair source .standard 3
    let deep := Stream.ofPair source .standard 2
    (shallow.flaw = none ∧ deep.flaw = none) ∧
      (∀ r, .run r ∈ shallow.tokens → r.text = slice source r.start r.stop) ∧
      shallow.text = withoutFrom (shallow.ranges source) 3 (source.drop 3) ∧
      deep.text ≠ withoutFrom (deep.ranges source) 2 (source.drop 2) := by
  intro source shallow deep
  have hshallow : shallow.flaw = none := by decide +kernel
  have hdeep : deep.flaw = none := by decide +kernel
  obtain ⟨hruns, htext⟩ := text_ofPair_iff source .standard 3 hshallow
  have hpadded := (text_ofPair_iff source .standard 2 hdeep).2
  let opening : Tag := ⟨.openBlock, ['#', 'a'], ['a'], 4, 10, some ⟨1, "  \t".toText, 11⟩⟩
  let value : Tag := ⟨.interpolate, ['b'], ['b'], 12, 17, none⟩
  let closing : Tag := ⟨.closeBlock, ['/', 'a'], ['a'], 20, 26, some ⟨19, [' '], 27⟩⟩
  refine ⟨⟨hshallow, hdeep⟩, hruns, htext.mpr ?_, fun heq => ?_⟩
  · have htokens : shallow.tokens = [.tag opening, .run ⟨['x'], 11⟩, .tag value,
        .run ⟨[' ', '\n'], 17⟩, .tag closing] := by decide +kernel
    intro t line (ht : _ ∈ shallow.tokens) hline hlt
    have hmem : t ∈ [opening, value, closing] := by
      rw [htokens] at ht
      simpa using ht
    have hall : ∀ t ∈ [opening, value, closing], ∀ line ∈ OwnLine.of? source t,
        line.lineStart < 3 → t.start - 3 ≤ 3 - line.lineStart := by decide +kernel
    exact hall t hmem line hline hlt
  · have hmem : .tag opening ∈ deep.tokens := by decide +kernel
    have hline : OwnLine.of? source opening = some ⟨1, "  \t".toText, 11⟩ := by decide +kernel
    have := hpadded.mp heq opening _ hmem hline (by decide)
    exact absurd this (by decide)

/-- Three characters of padding before a remark, and a scan from the second of them. All of it is
on a line that the remark owns, and a character is left. -/
theorem text_ofPair_inPadding :
    ¬ ∀ (source : Text) (d : Delimiters) (start : Nat),
      (Stream.ofPair source d start).flaw = none →
        (Stream.ofPair source d start).text =
          withoutFrom ((Stream.ofPair source d start).ranges source) start
            (source.drop start) := by
  intro h
  let source : Text := "   \x7b\x7b!\x7d\x7d".toText
  have hflaw : (Stream.ofPair source .standard 1).flaw = none := by decide +kernel
  have htext : (Stream.ofPair source .standard 1).text = [' '] := by decide +kernel
  have hleft : withoutFrom ((Stream.ofPair source .standard 1).ranges source) 1
      (source.drop 1) = [] := by decide +kernel
  have := h source .standard 1 hflaw
  rw [htext, hleft] at this
  cases this

end Scan
end Mustache
