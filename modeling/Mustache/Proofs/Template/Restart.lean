import Mustache.Proofs.Token.OwnLine
import Mustache.Proofs.Token.Search
import Mustache.Template.Stream

/-!
# Reading on and starting again

A scan goes on behind a tag while the line the tag owns is still to be left out; a scan that starts
again begins behind that line. The two agree, because what lies between the tag and the next line is
blank and no tag begins there. So the tokens of a source are those of its first tag, followed by the
tokens of the source from where that tag leaves off.

* `Scan.ofText_blanks` — blanks in front of a text widen the first gap of its scan
* `Stream.ofSource_of_tag` — the stream of a source whose first tag is known
-/

namespace Mustache

open Text

/-! ## Runs that begin earlier -/

namespace Run

/-- The run with more text in front of it. -/
def widen (k : Text) (r : Run) : Run := ⟨k ++ r.text, r.start - k.length⟩

theorem stop_widen {k : Text} {r : Run} (h : k.length ≤ r.start) : (r.widen k).stop = r.stop := by
  simp only [stop, widen, List.length_append]
  omega

theorem after_of_le {p : Nat} {r : Run} (h : p ≤ r.start) : r.after p = r :=
  if_neg (Nat.not_lt.mpr h)

/-- The part at or after the beginning of the run is the run. -/
theorem after_widen {k : Text} {r : Run} (h : k.length ≤ r.start) :
    (r.widen k).after r.start = r := by
  cases hk : k with
  | nil => exact after_of_le (r := r) (Nat.le_refl _)
  | cons c k' =>
    rw [← hk]
    have hpos : 0 < k.length := by rw [hk]; exact Nat.succ_pos _
    have hlt : (r.widen k).start < r.start := by
      show r.start - k.length < r.start
      omega
    have hdrop : r.start - (r.start - k.length) = k.length := by omega
    rw [after, if_pos hlt]
    simp only [widen, hdrop, List.drop_left]

end Run

/-- The ending with more text in front of it. -/
def Ending.widen (k : Text) : Ending → Ending
  | .finished last => .finished (last.widen k)
  | .unclosed gap excerpt closing => .unclosed (gap.widen k) excerpt closing

namespace Scan

/-! ## The scan of a text, one tag at a time -/

theorem ofText_of_none {d : Delimiters} {s : Text} (h : opening? d s = none) (start : Nat) :
    ofText d start s = ⟨[], .finished ⟨s, start⟩⟩ := by
  rw [ofText]
  split
  · rfl
  · next h' => rw [h] at h'; cases h'

theorem ofText_of_unclosed {d : Delimiters} {s gap rest : Text} {e : Enclosure}
    (ho : opening? d s = some (gap, e, rest)) (hc : cut? (e.closing d) rest = none)
    (start : Nat) :
    ofText d start s =
      ⟨[], .unclosed ⟨gap, start⟩ ((e.opening d ++ rest).take excerptLength) (e.closing d)⟩ := by
  rw [ofText]
  split
  · next h' => rw [ho] at h'; cases h'
  · next h' =>
    rw [ho] at h'
    cases h'
    split
    · rfl
    · next h' => rw [hc] at h'; cases h'

theorem ofText_of_tag {d : Delimiters} {s gap rest body after : Text} {e : Enclosure}
    (ho : opening? d s = some (gap, e, rest)) (hc : cut? (e.closing d) rest = some (body, after))
    (start : Nat) :
    ofText d start s =
      ⟨(⟨gap, start⟩, tagOf d e (start + gap.length) body) ::
          (ofText d (tagOf d e (start + gap.length) body).stop after).segments,
        (ofText d (tagOf d e (start + gap.length) body).stop after).ending⟩ := by
  rw [ofText]
  split
  · next h' => rw [ho] at h'; cases h'
  · next h' =>
    rw [ho] at h'
    cases h'
    split
    · next h' => rw [hc] at h'; cases h'
    · next h' =>
      rw [hc] at h'
      cases h'
      rfl

/-! ## Blanks in front -/

/-- The scan with more text in front of its first gap. -/
def widen (k : Text) (scan : Scan) : Scan :=
  match scan.segments with
  | [] => ⟨[], scan.ending.widen k⟩
  | (gap, tag) :: segments => ⟨(gap.widen k, tag) :: segments, scan.ending⟩

/-- **Blanks in front of a text widen the first gap of its scan, and change nothing else.** -/
theorem ofText_blanks (d : Delimiters) {k : Text} (hk : ∀ c ∈ k, isBlank c = true) (start : Nat)
    (s : Text) : ofText d start (k ++ s) = (ofText d (start + k.length) s).widen k := by
  have happ := opening?_blanks d hk s
  have hstart : start = start + k.length - k.length := by omega
  cases ho : opening? d s with
  | none =>
    rw [ho, Option.map_none] at happ
    rw [ofText_of_none happ, ofText_of_none ho]
    simp only [widen, Ending.widen, Run.widen, ← hstart]
  | some found =>
    obtain ⟨gap, e, rest⟩ := found
    rw [ho, Option.map_some] at happ
    cases hc : cut? (e.closing d) rest with
    | none =>
      rw [ofText_of_unclosed happ hc, ofText_of_unclosed ho hc]
      simp only [widen, Ending.widen, Run.widen, ← hstart]
    | some parts =>
      obtain ⟨body, after⟩ := parts
      have hlen : start + (k ++ gap).length = start + k.length + gap.length := by
        rw [List.length_append, Nat.add_assoc]
      rw [ofText_of_tag happ hc, ofText_of_tag ho hc]
      simp only [widen, Run.widen, ← hstart, hlen]

/-- Where the text begins that a scan is of. -/
def start (scan : Scan) : Nat :=
  match scan.segments, scan.ending with
  | (gap, _) :: _, _ => gap.start
  | [], .finished last => last.start
  | [], .unclosed gap _ _ => gap.start

theorem start_ofText (d : Delimiters) (p : Nat) (s : Text) : (ofText d p s).start = p := by
  cases ho : opening? d s with
  | none => rw [ofText_of_none ho]; rfl
  | some found =>
    obtain ⟨gap, e, rest⟩ := found
    cases hc : cut? (e.closing d) rest with
    | none => rw [ofText_of_unclosed ho hc]; rfl
    | some parts => rw [ofText_of_tag ho hc]; rfl

/-! ## Lines left out from an offset on -/

/-- The lines that tags own taken out of the text, when the text before `resume` has been left out
already. -/
def elidedFrom (source : Text) (resume : Nat) (scan : Scan) : Scan where
  segments := elideLines source resume scan.segments
  ending :=
    match scan.ending with
    | .finished last => .finished (last.after (resumeAfter source resume scan.segments))
    | .unclosed gap excerpt closing => .unclosed ⟨[], gap.stop⟩ excerpt closing

theorem resumeAfter_cons (source : Text) (resume : Nat) (gap : Run) (tag : Tag)
    (segments : List (Run × Tag)) :
    resumeAfter source resume ((gap, tag) :: segments) =
      resumeAfter source (tag.onLine source).next segments := by
  cases segments with
  | nil => rfl
  | cons segment segments =>
    rw [resumeAfter, resumeAfter, List.getLast?_cons_cons]
    rfl

theorem elidedFrom_cons (source : Text) (resume : Nat) (gap : Run) (tag : Tag)
    (segments : List (Run × Tag)) (ending : Ending) :
    elidedFrom source resume ⟨(gap, tag) :: segments, ending⟩ =
      ⟨(Run.beforeTag (tag.onLine source) (gap.after resume), tag.onLine source) ::
          (elidedFrom source (tag.onLine source).next ⟨segments, ending⟩).segments,
        (elidedFrom source (tag.onLine source).next ⟨segments, ending⟩).ending⟩ := by
  simp only [elidedFrom, elideLines, resumeAfter_cons]

theorem elideLines_widen (source : Text) {k : Text} (gap : Run) (h : k.length ≤ gap.start)
    (tag : Tag) (segments : List (Run × Tag)) :
    elideLines source gap.start ((gap.widen k, tag) :: segments) =
      elideLines source 0 ((gap, tag) :: segments) := by
  simp only [elideLines, Run.after_widen h, Run.after_of_le (Nat.zero_le gap.start)]

/-- **Text that has been left out already is left out.** -/
theorem elidedFrom_widen (source : Text) {k : Text} {scan : Scan} (h : k.length ≤ scan.start) :
    elidedFrom source scan.start (scan.widen k) = elidedFrom source 0 scan := by
  obtain ⟨segments, ending⟩ := scan
  cases segments with
  | nil =>
    cases ending with
    | finished last =>
      show Scan.mk [] (.finished ((last.widen k).after last.start)) =
        Scan.mk [] (.finished (last.after 0))
      rw [Run.after_widen h, Run.after_of_le (Nat.zero_le last.start)]
    | unclosed gap excerpt closing =>
      show Scan.mk [] (.unclosed ⟨[], (gap.widen k).stop⟩ excerpt closing) =
        Scan.mk [] (.unclosed ⟨[], gap.stop⟩ excerpt closing)
      rw [Run.stop_widen h]
  | cons segment segments =>
    obtain ⟨gap, tag⟩ := segment
    show elidedFrom source gap.start ⟨(gap.widen k, tag) :: segments, ending⟩ = _
    rw [elidedFrom_cons, elidedFrom_cons]
    have hgap : gap.after 0 = gap := Run.after_of_le (Nat.zero_le gap.start)
    rw [Run.after_widen h, hgap]

end Scan

/-! ## The stream of a source, one tag at a time -/

/-- The pair in force after a tag: a set-delimiter tag names another one. -/
def Tag.pairAfter (d : Delimiters) (tag : Tag) : Except Delimiters.Fault Delimiters :=
  if tag.kind = .delimiters then Delimiters.ofBody tag.name else .ok d

namespace Stream

/-- The stream with the tokens of a tag, and of the text before it, in front. -/
def cons (gap : Run) (tag : Tag) (stream : Stream) : Stream :=
  ⟨gap.tokens ++ .tag tag :: stream.tokens, stream.flaw⟩

/-- The stream of a source from the tag on that a scan begins with, when the text before `resume`
has been left out already. -/
def ofScan (source : Text) (resume : Nat) (scan : Scan) : Stream :=
  match scan.fromSwitch with
  | [] => (scan.elidedFrom source resume).toStream
  | (gap, tag) :: _ =>
    let segments := scan.beforeSwitch ++ [(gap, tag)]
    let tokens := (Scan.elideLines source resume segments).flatMap Scan.segmentTokens
    match Delimiters.ofBody tag.name with
    | .error fault => ⟨tokens, some ⟨.badDelimiters fault, tag.start⟩⟩
    | .ok d =>
      let rest := ofSource source d (tag.onLine source).next
      ⟨tokens ++ rest.tokens, rest.flaw⟩

theorem ofSource_eq_ofScan (source : Text) (d : Delimiters) (start : Nat) :
    ofSource source d start = ofScan source 0 (Scan.ofSource source d start) := by
  rw [ofSource, ofScan]
  generalize (Scan.ofSource source d start).fromSwitch = segments
  cases segments with
  | nil => rfl
  | cons segment segments => rfl

/-- Text that has been left out already is left out of the stream. -/
theorem ofScan_widen (source : Text) {k : Text} {scan : Scan} (h : k.length ≤ scan.start) :
    ofScan source scan.start (scan.widen k) = ofScan source 0 scan := by
  have helided := Scan.elidedFrom_widen source h
  obtain ⟨segments, ending⟩ := scan
  cases segments with
  | nil => exact congrArg Scan.toStream helided
  | cons segment segments =>
    obtain ⟨gap, tag⟩ := segment
    have hlines := Scan.elideLines_widen source gap h tag
    show ofScan source gap.start ⟨(gap.widen k, tag) :: segments, ending⟩ = _
    by_cases hk : tag.kind = .delimiters
    · simp only [ofScan, Scan.fromSwitch, Scan.beforeSwitch, List.dropWhile_cons,
        List.takeWhile_cons, hk, ne_eq, not_true_eq_false, decide_false, Bool.false_eq_true,
        if_false, List.nil_append, hlines]
    · simp only [ofScan, Scan.fromSwitch, Scan.beforeSwitch, List.dropWhile_cons,
        List.takeWhile_cons, hk, ne_eq, not_false_eq_true, decide_true, if_true, List.cons_append,
        hlines]
      split
      · exact congrArg Scan.toStream helided
      · rfl

theorem ofScan_cons_of_ne (source : Text) (resume : Nat) (gap : Run) {tag : Tag}
    (h : tag.kind ≠ .delimiters) (segments : List (Run × Tag)) (ending : Ending) :
    ofScan source resume ⟨(gap, tag) :: segments, ending⟩ =
      (ofScan source (tag.onLine source).next ⟨segments, ending⟩).cons
        (Run.beforeTag (tag.onLine source) (gap.after resume)) (tag.onLine source) := by
  simp only [ofScan, Scan.fromSwitch, Scan.beforeSwitch, List.dropWhile_cons,
    List.takeWhile_cons, h, ne_eq, not_false_eq_true, decide_true, if_true, List.cons_append,
    Scan.elidedFrom_cons, Scan.elideLines, List.flatMap_cons, Scan.segmentTokens]
  split
  · simp only [Scan.toStream, cons, Scan.tokens, Scan.flaw?, List.flatMap_cons,
      Scan.segmentTokens, List.append_assoc, List.cons_append, List.nil_append]
  · split <;> simp only [cons, List.append_assoc, List.cons_append, List.nil_append]

theorem ofScan_cons_of_eq (source : Text) (resume : Nat) (gap : Run) {tag : Tag}
    (h : tag.kind = .delimiters) (segments : List (Run × Tag)) (ending : Ending) :
    ofScan source resume ⟨(gap, tag) :: segments, ending⟩ =
      match Delimiters.ofBody tag.name with
      | .error fault =>
        cons (Run.beforeTag (tag.onLine source) (gap.after resume)) (tag.onLine source)
          ⟨[], some ⟨.badDelimiters fault, tag.start⟩⟩
      | .ok d =>
        (ofSource source d (tag.onLine source).next).cons
          (Run.beforeTag (tag.onLine source) (gap.after resume)) (tag.onLine source) := by
  simp only [ofScan, Scan.fromSwitch, Scan.beforeSwitch, List.dropWhile_cons,
    List.takeWhile_cons, h, ne_eq, not_true_eq_false, decide_false, Bool.false_eq_true, if_false,
    List.nil_append, Scan.elideLines, List.flatMap_cons, List.flatMap_nil, List.append_nil,
    Scan.segmentTokens]
  split <;> simp only [cons, List.append_assoc, List.cons_append, List.nil_append]

theorem ofSource_of_none {source : Text} {d : Delimiters} {start : Nat}
    (h : opening? d (source.drop start) = none) :
    ofSource source d start = ⟨(Run.mk (source.drop start) start).tokens, none⟩ := by
  rw [ofSource_eq_ofScan, Scan.ofSource, Scan.ofText_of_none h]
  show Stream.mk ((Run.mk (source.drop start) start).after 0).tokens none = _
  rw [Run.after_of_le (Nat.zero_le _)]

theorem ofSource_of_unclosed {source gap rest : Text} {d : Delimiters} {start : Nat}
    {e : Enclosure} (ho : opening? d (source.drop start) = some (gap, e, rest))
    (hc : cut? (e.closing d) rest = none) :
    ofSource source d start =
      ⟨[], some ⟨.unclosedTag ((e.opening d ++ rest).take Scan.excerptLength) (e.closing d),
        start + gap.length⟩⟩ := by
  rw [ofSource_eq_ofScan, Scan.ofSource, Scan.ofText_of_unclosed ho hc]
  rfl

/-- What follows the line of a tag, when the source is known to go on like this behind the tag. -/
theorem exists_blanks_of_onLine {source after : Text} {tag : Tag}
    (h : source.drop tag.stop = after) :
    ∃ k, (∀ c ∈ k, isBlank c = true) ∧ after = k ++ source.drop (tag.onLine source).next ∧
      (tag.onLine source).next = tag.stop + k.length := by
  cases hl : OwnLine.of? source tag with
  | none =>
    have hnext : (tag.onLine source).next = tag.stop := by
      simp only [Tag.next, Tag.onLine, hl]
    exact ⟨[], by simp, by rw [hnext, h]; rfl, hnext⟩
  | some line =>
    have hnext : (tag.onLine source).next = line.resume := by
      simp only [Tag.next, Tag.onLine, hl]
    simp only [OwnLine.of?, h] at hl
    split at hl
    · next halone =>
      cases hl
      refine ⟨OwnLine.lineEnd after, OwnLine.isBlank_of_mem_lineEnd halone.2.2, ?_, ?_⟩
      · rw [hnext, ← List.drop_drop, h]
        exact (OwnLine.lineEnd_append_afterLine after).symm
      · rw [hnext, OwnLine.length_lineEnd]
    · cases hl

/-- **What is behind a tag is scanned like the source from the next line on**, with blanks in front.
-/
theorem exists_widen_of_onLine {source after : Text} {tag : Tag} (d : Delimiters)
    (h : source.drop tag.stop = after) :
    ∃ k, k.length ≤ (Scan.ofSource source d (tag.onLine source).next).start ∧
      Scan.ofText d tag.stop after = (Scan.ofSource source d (tag.onLine source).next).widen k := by
  obtain ⟨k, hblank, hk, hnext⟩ := exists_blanks_of_onLine h
  refine ⟨k, ?_, ?_⟩
  · rw [Scan.ofSource, Scan.start_ofText, hnext]
    exact Nat.le_add_left _ _
  · rw [hk, Scan.ofText_blanks d hblank, ← hnext]
    rfl

/-- What is left of a source behind the tag that is found first. -/
theorem drop_stop_of_found {source gap rest body after : Text} {d : Delimiters} {start : Nat}
    {e : Enclosure} (ho : opening? d (source.drop start) = some (gap, e, rest))
    (hc : cut? (e.closing d) rest = some (body, after)) :
    source.drop (tagOf d e (start + gap.length) body).stop = after := by
  have hstop : (tagOf d e (start + gap.length) body).stop =
      start + (gap ++ e.opening d ++ body ++ e.closing d).length := by
    simp only [tagOf, List.length_append]
    omega
  rw [hstop, ← List.drop_drop, eq_of_opening? ho, eq_of_cut? hc]
  simp only [← List.append_assoc, List.drop_left]

/-- **The stream of a source is that of its first tag, followed by the stream of the source from
where the tag leaves off.** -/
theorem ofSource_of_tag {source gap rest body after : Text} {d : Delimiters} {start : Nat}
    {e : Enclosure}
    (ho : opening? d (source.drop start) = some (gap, e, rest))
    (hc : cut? (e.closing d) rest = some (body, after)) :
    ofSource source d start =
      match ((tagOf d e (start + gap.length) body).onLine source).pairAfter d with
      | .error fault =>
        cons (Run.beforeTag ((tagOf d e (start + gap.length) body).onLine source) ⟨gap, start⟩)
          ((tagOf d e (start + gap.length) body).onLine source)
          ⟨[], some ⟨.badDelimiters fault, start + gap.length⟩⟩
      | .ok d' =>
        (ofSource source d' ((tagOf d e (start + gap.length) body).onLine source).next).cons
          (Run.beforeTag ((tagOf d e (start + gap.length) body).onLine source) ⟨gap, start⟩)
          ((tagOf d e (start + gap.length) body).onLine source) := by
  have hafter : (Run.mk gap start).after 0 = ⟨gap, start⟩ := Run.after_of_le (Nat.zero_le _)
  rw [ofSource_eq_ofScan, Scan.ofSource, Scan.ofText_of_tag ho hc]
  generalize htag : tagOf d e (start + gap.length) body = tag
  have hpos : tag.start = start + gap.length := by rw [← htag]; rfl
  by_cases hk : tag.kind = .delimiters
  · rw [ofScan_cons_of_eq source 0 _ hk, hafter, hpos]
    simp only [Tag.pairAfter, Tag.onLine, hk, if_true]
  · obtain ⟨k, hle, hscan⟩ := exists_widen_of_onLine d (drop_stop_of_found ho hc)
    rw [htag] at hle hscan
    have hofScan := ofScan_widen source hle
    rw [Scan.ofSource, Scan.start_ofText] at hofScan
    rw [ofScan_cons_of_ne source 0 _ hk, hafter]
    show (ofScan source (tag.onLine source).next (Scan.ofText d tag.stop after)).cons _ _ = _
    rw [hscan, Scan.ofSource, hofScan]
    simp only [Tag.pairAfter, Tag.onLine, hk, if_false]
    rw [ofSource_eq_ofScan, Scan.ofSource]

end Stream
end Mustache
