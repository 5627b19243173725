import Mustache.Proofs.Template.Passes

/-!
# The lines that tags own lie apart

To leave out the lines that tags own, a scan cuts the text behind a tag where the tag's line ends,
and the text before a tag where its line begins. Nothing checks that these offsets lie in the text
that is cut, and for a scan that begins in the padding of a line they need not. The passes over a
source begin elsewhere: at its beginning, behind a closing marker, or behind a line that a tag owns.
There the line of a tag never reaches back over what has been read, so all cuts are made inside.

For the same reason no line that a tag owns holds anything of another tag, of whatever pass.

* `Builder.PassesTo.exists_landing` — where passes begin
* `Scan.cutsInside_of_landing` — the cuts of a pass
* `Reads.pairwise_tags` — what tags take out of the text lies apart, and in their order
* `Stream.ownLines_apart` — the lines that the tags of a source own
-/

namespace Mustache

open Text

/-! ## Where passes begin -/

/-- Every tag that a scan from a landing finds is found from a landing. -/
theorem Landing.exists_firstTag_of_mem (d : Delimiters) {u : Text} (hu : Landing u) (s : Text)
    {t : Tag} : .tag t ∈ (Stream.ofPair (u ++ s) d u.length).tokens →
      ∃ d₁ u₁ s₁ kept u' s', FirstTag d₁ u₁ s₁ kept t u' s' ∧ u' ++ s' = u ++ s := by
  refine Landing.induction ?finished ?unclosed ?tag d hu s
  case finished =>
    intro d u s ho h
    rw [Stream.ofPair_of_none ((opening?_drop_length d u s).trans ho)] at h
    exact absurd h (Run.tag_notMem_tokens _ t)
  case unclosed =>
    intro d u s gap e rest ho hc h
    rw [Stream.ofPair_of_unclosed ((opening?_drop_length d u s).trans ho) hc] at h
    cases h
  case tag =>
    intro d u s kept tag u' s' first ih h
    rw [first.ofPair_eq, ← first.append_eq] at h
    rcases Stream.tag_mem_cons h with rfl | h
    · exact ⟨d, u, s, kept, u', s', first, first.append_eq⟩
    · rw [← first.append_eq]
      exact ih d h

/-- **Every pass begins where no padding has been read.** -/
theorem Builder.PassesTo.exists_landing {source : Text} {d d' : Delimiters} {n start : Nat}
    {b : Builder} (h : PassesTo source d n d' start b) :
    ∃ u s, u ++ s = source ∧ Landing u ∧ u.length = start := by
  induction h with
  | first => exact ⟨[], source, rfl, landing_nil, rfl⟩
  | next earlier pass ih =>
    obtain ⟨u, s, rfl, hu, rfl⟩ := ih
    obtain ⟨t, ht, hoffset⟩ := exists_tag_of_readOn pass
    obtain ⟨d₁, u₁, s₁, kept, u', s', first, happ⟩ := hu.exists_firstTag_of_mem _ s ht
    exact ⟨u', s', happ, first.landing, first.next_eq.symm.trans hoffset.symm⟩

/-! ## What a tag takes out of the text -/

/-- Where what a tag takes out of the text begins: with the line, if the tag has one to itself. It
ends where reading goes on. -/
def Tag.begins (t : Tag) : Nat :=
  match t.ownLine with
  | some line => line.lineStart
  | none => t.start

namespace FirstTag

variable {d : Delimiters} {u s kept u' s' : Text} {tag : Tag}

/-- A tag takes out what follows the text that is kept before it. -/
theorem begins_eq (h : FirstTag d u s kept tag u' s') : tag.begins = (u ++ kept).length := by
  cases h with
  | inline found alone => rfl
  | ownLine found alone whole line lineEnd_eq => rfl

/-- The scan from where a step begins is the tag of the step, and the scan from where it ends with
some text in front. -/
theorem exists_ofSource_eq (h : FirstTag d u s kept tag u' s') :
    ∃ gap t k, t.onLine (u ++ s) = tag ∧ tag.start = u.length + gap.length ∧
      k.length ≤ (Scan.ofSource (u ++ s) d u'.length).start ∧
      Scan.ofSource (u ++ s) d u.length =
        ⟨(⟨gap, u.length⟩, t) :: ((Scan.ofSource (u ++ s) d u'.length).widen k).segments,
          ((Scan.ofSource (u ++ s) d u'.length).widen k).ending⟩ := by
  obtain ⟨gap, e, body, after, found, htag, -, hnext⟩ := h.exists_found
  have hopening := (opening?_drop_length d u s).trans found.opening
  obtain ⟨k, hle, hscan⟩ :=
    Stream.exists_widen_of_onLine d (Stream.drop_stop_of_found hopening found.closing)
  rw [htag, hnext] at hle hscan
  refine ⟨gap, tagOf d e (u.length + gap.length) body, k, htag, by rw [← htag]; rfl, hle, ?_⟩
  rw [← hscan]
  exact Scan.ofText_of_tag hopening found.closing u.length

end FirstTag

/-! ## The cuts of a scan -/

/-- The text that a scan ends with. -/
def Ending.run : Ending → Run
  | .finished last => last
  | .unclosed gap _ _ => gap

namespace Run

/-- The offset lies in the run, or at its end. -/
def Holds (r : Run) (p : Nat) : Prop := r.start ≤ p ∧ p ≤ r.stop

instance (r : Run) (p : Nat) : Decidable (r.Holds p) := inferInstanceAs (Decidable (_ ∧ _))

/-- A run that is cut inside ends where it is cut. -/
theorem stop_before {r : Run} {p : Nat} (h : r.Holds p) : (r.before p).stop = p := by
  obtain ⟨hle, hstop⟩ := h
  rw [stop] at hstop
  have hbound : (p : Int) - r.start = (p - r.start : Nat) := by omega
  simp only [before, stop, hbound, upTo, Int.natCast_nonneg, if_true, Int.toNat_natCast,
    List.length_take]
  omega

/-- A run with text in front of it holds the offset where it began before. -/
theorem holds_widen {k : Text} {r : Run} (h : k.length ≤ r.start) : (r.widen k).Holds r.start := by
  refine ⟨Nat.sub_le _ _, ?_⟩
  rw [stop_widen h]
  exact Nat.le_add_right _ _

end Run

namespace Scan

/-- Where lines are left out of segments, as `elideLines` does, all cuts are made inside the runs
that are cut. The line of the tag before a run ends in it, if any of the run is to be left out, and
the line of the tag behind it begins in what is then left of the run. -/
def CutsInside (source : Text) : Nat → List (Run × Tag) → Ending → Prop
  | resume, [], ending => ending.run.start < resume → ending.run.Holds resume
  | resume, (gap, tag) :: segments, ending =>
    (gap.start < resume → gap.Holds resume) ∧
      (∀ line ∈ OwnLine.of? source tag, (gap.after resume).Holds line.lineStart) ∧
      CutsInside source (tag.onLine source).next segments ending

instance decidableCutsInside (source : Text) : (resume : Nat) → (segments : List (Run × Tag)) →
    (ending : Ending) → Decidable (CutsInside source resume segments ending)
  | resume, [], ending =>
    inferInstanceAs (Decidable (ending.run.start < resume → ending.run.Holds resume))
  | _, (_, tag) :: segments, ending =>
    haveI := decidableCutsInside source (tag.onLine source).next segments ending
    inferInstanceAs (Decidable (_ ∧ _ ∧ _))

/-- **Where all cuts are made inside, the text before a tag that owns its line is cut where the line
begins.** -/
theorem stop_of_cutsInside {source : Text} {resume : Nat} {segments : List (Run × Tag)}
    {ending : Ending} (h : CutsInside source resume segments ending) {run : Run} {tag : Tag}
    (hmem : (run, tag) ∈ elideLines source resume segments) {line : OwnLine}
    (hline : tag.ownLine = some line) : run.stop = line.lineStart := by
  induction segments generalizing resume with
  | nil => cases hmem
  | cons segment segments ih =>
    obtain ⟨gap, t⟩ := segment
    obtain ⟨-, htrim, hrest⟩ := h
    rcases List.mem_cons.mp hmem with heq | hmem
    · cases heq
      rw [Run.beforeTag, hline]
      exact Run.stop_before (htrim line hline)
    · exact ih hrest hmem

/-- **Text that has been left out already is cut off inside.** -/
theorem cutsInside_widen {source k : Text} {scan : Scan} (h : k.length ≤ scan.start)
    (hcuts : CutsInside source 0 scan.segments scan.ending) :
    CutsInside source scan.start (scan.widen k).segments (scan.widen k).ending := by
  obtain ⟨segments, ending⟩ := scan
  cases segments with
  | nil =>
    cases ending with
    | finished last => exact fun _ => Run.holds_widen h
    | unclosed gap excerpt closing => exact fun _ => Run.holds_widen h
  | cons segment segments =>
    obtain ⟨gap, tag⟩ := segment
    obtain ⟨-, htrim, hrest⟩ := hcuts
    refine ⟨fun _ => Run.holds_widen h, ?_, hrest⟩
    show ∀ line ∈ OwnLine.of? source tag, ((gap.widen k).after gap.start).Holds line.lineStart
    rw [Run.after_widen h]
    rw [Run.after_of_le (Nat.zero_le _)] at htrim
    exact htrim

/-- **A scan from where no padding has been read cuts inside.** -/
theorem cutsInside_of_landing (d : Delimiters) {u : Text} (hu : Landing u) (s : Text) :
    CutsInside (u ++ s) 0 (ofSource (u ++ s) d u.length).segments
      (ofSource (u ++ s) d u.length).ending := by
  refine Landing.induction ?finished ?unclosed ?tag d hu s
  case finished =>
    intro d u s ho
    rw [ofSource, List.drop_left, ofText_of_none ho]
    exact fun h => absurd h (Nat.not_lt_zero _)
  case unclosed =>
    intro d u s gap e rest ho hc
    rw [ofSource, List.drop_left, ofText_of_unclosed ho hc]
    exact fun h => absurd h (Nat.not_lt_zero _)
  case tag =>
    intro d u s kept tag u' s' first ih
    obtain ⟨gap, t, k, htag, hstart, hle, hscan⟩ := first.exists_ofSource_eq
    have hrest := ih d
    rw [first.append_eq] at hrest
    have hcuts := cutsInside_widen hle hrest
    have hpos : (ofSource (u ++ s) d u'.length).start = (t.onLine (u ++ s)).next := by
      rw [ofSource, start_ofText, htag, first.next_eq]
    rw [hpos] at hcuts
    rw [hscan]
    refine ⟨fun h => absurd h (Nat.not_lt_zero _), ?_, hcuts⟩
    -- the line begins behind what has been read, and no later than the tag
    intro line hline
    have hown : tag.ownLine = some line := by rw [← htag]; exact hline
    have hbegins := first.begins_eq
    have hkept := first.kept_le_start
    simp only [Tag.begins, hown] at hbegins
    rw [Run.after_of_le (Nat.zero_le _), Run.Holds, hbegins]
    rw [hstart] at hkept
    exact ⟨(List.prefix_append u kept).length_le, hkept⟩

end Scan

/-- A scan from within the padding of a line that a tag owns cuts the text before the tag where
nothing of it is: the line begins before the scan. -/
example :
    let source := "   \x7b\x7b!\x7d\x7d".toText
    let scan := Scan.ofSource source .standard 1
    ¬ Scan.CutsInside source 0 scan.segments scan.ending := by
  decide +kernel

/-! ## The lines that the tags of a source own -/

/-- The tag that a token is. -/
def Token.tag? : Token → Option Tag
  | .run _ => none
  | .tag t => some t

namespace Stream

/-- The tags of a stream in order. -/
def tags (stream : Stream) : List Tag := stream.tokens.filterMap Token.tag?

theorem mem_tags {stream : Stream} {t : Tag} : t ∈ stream.tags ↔ .tag t ∈ stream.tokens := by
  rw [tags, List.mem_filterMap]
  constructor
  · rintro ⟨token, hmem, htag⟩
    cases token with
    | run r => cases htag
    | tag t' =>
      cases htag
      exact hmem
  · intro h
    exact ⟨.tag t, h, rfl⟩

theorem tags_cons (gap : Run) (tag : Tag) (stream : Stream) :
    (stream.cons gap tag).tags = tag :: stream.tags := by
  have hgap : gap.tokens.filterMap Token.tag? = [] := gap.filterMap_tokens fun _ => rfl
  rw [tags, cons, List.filterMap_append, hgap]
  rfl

end Stream

/-- Every tag of a reading is the first one of some place that the reading gets to. -/
theorem Reads.exists_firstTag_of_mem {d : Delimiters} {u s : Text} {stream : Stream}
    (h : Reads d u s stream) {t : Tag} (ht : t ∈ stream.tags) :
    ∃ d₁ u₁ s₁ kept u' s', FirstTag d₁ u₁ s₁ kept t u' s' ∧ u' ++ s' = u ++ s ∧
      u.length ≤ u₁.length := by
  obtain ⟨before, after, htokens⟩ := List.append_of_mem (Stream.mem_tags.mp ht)
  obtain ⟨ts, d₁, u₁, s₁, kept, u', s', hto, first, -⟩ := h.exists_readsTo_tag htokens
  exact ⟨d₁, u₁, s₁, kept, u', s', first, first.append_eq.trans hto.append_eq, hto.length_le⟩

/-- What a tag takes out of the text begins behind what has been read before. -/
theorem Reads.le_begins {d : Delimiters} {u s : Text} {stream : Stream} (h : Reads d u s stream)
    {t : Tag} (ht : t ∈ stream.tags) : u.length ≤ t.begins := by
  obtain ⟨d₁, u₁, s₁, kept, u', s', first, -, hle⟩ := h.exists_firstTag_of_mem ht
  rw [first.begins_eq, List.length_append]
  exact hle.trans (Nat.le_add_right _ _)

/-- **What the tags of a reading take out of the text lies apart, and in their order.** -/
theorem Reads.pairwise_tags {d : Delimiters} {u s : Text} {stream : Stream}
    (h : Reads d u s stream) : stream.tags.Pairwise fun t t' => t.next ≤ t'.begins := by
  induction h with
  | finished none_left =>
    rw [Stream.tags, Run.filterMap_tokens fun _ => rfl]
    exact .nil
  | unclosed opening closing => exact .nil
  | refused first pair =>
    rw [Stream.tags_cons]
    exact List.pairwise_singleton _ _
  | tag first pair rest ih =>
    rw [Stream.tags_cons]
    refine .cons (fun t' ht' => ?_) ih
    rw [first.next_eq]
    exact rest.le_begins ht'

/-- The line of a tag holds the tag, padding before and behind it, and the end of the line. -/
structure Tag.OwnsBlanks (source : Text) (t : Tag) (line : OwnLine) : Prop where
  lineStart_le : line.lineStart ≤ t.start
  start_lt : t.start < t.stop
  stop_le : t.stop ≤ line.resume
  resume_le : line.resume ≤ source.length
  before : isPadding (Text.slice source line.lineStart t.start) = true
  behind : ∃ padding ending, Text.slice source t.stop line.resume = padding ++ ending ∧
    isPadding padding = true ∧ (ending = [] ∨ ending = ['\n'] ∨ ending = ['\r', '\n'])

/-- **The line that the tag of a step owns.** -/
theorem FirstTag.ownsBlanks {d : Delimiters} {u s kept u' s' : Text} {tag : Tag}
    (h : FirstTag d u s kept tag u' s') {line : OwnLine} (hline : tag.ownLine = some line) :
    tag.OwnsBlanks (u ++ s) line := by
  have hkept := h.kept_le_start
  have hlt := h.start_lt_stop
  have hle := h.stop_le
  have hsource : u'.length ≤ (u ++ s).length := by
    rw [← h.append_eq]
    exact (List.prefix_append u' s').length_le
  cases h with
  | inline found alone => cases hline
  | @ownLine padding body lineEnd _ e found alone whole feed lineEnd_eq =>
    cases hline
    obtain ⟨-, hbefore, hbehind⟩ := alone
    rw [← List.append_assoc, lastLine_append whole, lastLine_of_notMem feed] at hbefore
    refine ⟨hkept, hlt, hle, hsource, ?_, ?_⟩
    · have hslice := slice_append (u ++ kept) padding (e.write d body ++ (lineEnd ++ s'))
      have happ : u ++ kept ++ padding ++ (e.write d body ++ (lineEnd ++ s')) = u ++ s := by
        rw [found.eq]
        simp only [List.append_assoc]
      rw [happ, List.append_assoc u] at hslice
      show isPadding (slice (u ++ s) (u ++ kept).length (u ++ (kept ++ padding)).length) = true
      rw [hslice]
      exact hbefore
    · have hslice := slice_append (u ++ (kept ++ padding) ++ e.write d body) lineEnd s'
      have happ : u ++ (kept ++ padding) ++ e.write d body ++ lineEnd ++ s' = u ++ s := by
        rw [found.eq]
        simp only [List.append_assoc]
      rw [happ, ← stop_tagOf] at hslice
      obtain ⟨padding', ending, heq, hend⟩ := OwnLine.exists_padding_lineEnd hbehind
      exact ⟨padding', ending, hslice.trans (lineEnd_eq.symm.trans heq), hend⟩

namespace Stream

/-- **The lines that tags own are left out inside what is read, and lie apart.** In every pass over
a source, from the first to the last and with whatever pair is in force, all cuts are made inside
the runs that are cut, so the text before a tag ends where the line begins that the tag owns. What
the tags of the source take out of the text is apart from each other and in their order: a line that
a tag owns holds nothing of another tag. It holds nothing beside the tag but padding and a line
end. -/
theorem ownLines_apart (source : Text) (d : Delimiters) :
    (∀ n d' start b, Builder.PassesTo source d n d' start b →
        Scan.CutsInside source 0 (Scan.ofSource source d' start).segments
            (Scan.ofSource source d' start).ending ∧
          ∀ run tag line,
            (run, tag) ∈ ((Scan.ofSource source d' start).withoutOwnLines source).segments →
            tag.ownLine = some line → run.stop = line.lineStart) ∧
      ((ofSource source d 0).tags.Pairwise fun t t' => t.next ≤ t'.begins) ∧
      ∀ t ∈ (ofSource source d 0).tags, ∀ line, t.ownLine = some line →
        t.OwnsBlanks source line := by
  have hread : Reads d [] source (ofSource source d 0) := reads_ofSource d landing_nil source
  refine ⟨fun n d' start b h => ?_, hread.pairwise_tags, fun t ht line hline => ?_⟩
  · obtain ⟨u, s, rfl, hu, rfl⟩ := h.exists_landing
    have hcuts := Scan.cutsInside_of_landing d' hu s
    exact ⟨hcuts, fun _ _ _ hmem hline => Scan.stop_of_cutsInside hcuts hmem hline⟩
  · obtain ⟨d₁, u₁, s₁, kept, u', s', first, happ, -⟩ := hread.exists_firstTag_of_mem ht
    have howns := first.ownsBlanks hline
    rw [← first.append_eq, happ] at howns
    exact howns

/-- A change of the delimiters on a line of its own, a remark of two lines that owns both, and a
name with a line feed behind it. The second pass begins behind the line of the change. -/
theorem ownLines_apart_remark :
    let source := "\x7b\x7b=| |=\x7d\x7d\r\nx\n\t|!a\nb| \n|c|\n".toText
    let bars : Delimiters := ⟨['|'], ['|'], by decide, by decide⟩
    let scan := Scan.ofSource source bars 11
    let line : OwnLine := ⟨13, ['\t'], 22⟩
    let remark : Tag := ⟨.comment, "!a\nb".toText, "a\nb".toText, 14, 20, some line⟩
    let before : Run := ⟨['x', '\n'], 11⟩
    Builder.PassesTo source .standard 1 bars 11 .empty ∧
      Scan.CutsInside source 0 scan.segments scan.ending ∧
      (before, remark) ∈ (scan.withoutOwnLines source).segments ∧ before.stop = line.lineStart ∧
      ((ofSource source .standard 0).tags.Pairwise fun t t' => t.next ≤ t'.begins) ∧
      remark ∈ (ofSource source .standard 0).tags ∧ remark.OwnsBlanks source line := by
  intro source bars scan line remark before
  have hpass : Builder.empty.pass source .standard 0 = .ok (.empty, some ⟨bars, 11⟩) := by
    decide +kernel
  have hto : Builder.PassesTo source .standard 1 bars 11 .empty := Builder.PassesTo.first.next hpass
  have hsegment : (before, remark) ∈ (scan.withoutOwnLines source).segments := by decide +kernel
  have hmem : remark ∈ (ofSource source .standard 0).tags := by decide +kernel
  obtain ⟨hpasses, hapart, howns⟩ := ownLines_apart source .standard
  obtain ⟨hcuts, hstop⟩ := hpasses _ _ _ _ hto
  exact ⟨hto, hcuts, hsegment, hstop before remark line hsegment rfl, hapart, hmem,
    howns remark hmem line rfl⟩

end Stream
end Mustache
