import Mustache.Proofs.Template.Balanced

/-!
# Parsing one source after another

Where a line begins, a source can be cut in two. The first part is parsed as it is, the second with
the pair that is in force at the end of the first, and the trees stand side by side; only the text
before the cut and the text after it become one. Nothing of this depends on the offsets, so flaws of
the second part are reported with its offsets and lines counted from the beginning of the whole.

A reading does not see across the cut. Of what comes before, a step asks only for the last line,
which whole lines do not change (`FirstTag.shift`); and what a step finds in whole lines it finds
there whatever follows (`FirstTag.extend`).

* `Reads.shift` — a reading behind whole lines
* `Reads.append` — a reading that goes on behind the end of another
* `Template.parse_append` — the tree and the flaws of two sources in a row
-/

namespace Mustache

open Text

/-! ## Steps behind whole lines -/

theorem tagOf_shift (d : Delimiters) (e : Enclosure) (n start : Nat) (body : Text) :
    tagOf d e (n + start) body = (tagOf d e start body).shift n := by
  simp only [tagOf, Tag.shift, Nat.add_assoc, Option.map_none]

theorem Run.shift_mk (s u a : Text) :
    (Run.mk s u.length).shift a.length = ⟨s, (a ++ u).length⟩ := by
  rw [shift, List.length_append]

theorem Run.tokens_shift (n : Nat) (r : Run) :
    (r.shift n).tokens = r.tokens.map (Token.shift n) := by
  unfold Run.tokens Run.shift
  split
  · rfl
  · rfl

theorem Stream.cons_shift (n : Nat) (r : Run) (t : Tag) (s : Stream) :
    (s.cons r t).shift n = (s.shift n).cons (r.shift n) (t.shift n) := by
  simp only [Stream.shift, Stream.cons, List.map_append, List.map_cons, Run.tokens_shift]
  rfl

/-- **Whole lines in front do not change a step.** -/
theorem FirstTag.shift {d : Delimiters} {u s kept u' s' a : Text} {tag : Tag} (ha : WholeLines a)
    (h : FirstTag d u s kept tag u' s') :
    FirstTag d (a ++ u) s kept (tag.shift a.length) (a ++ u') s' := by
  cases h with
  | @inline body _ e found alone =>
    have halone : ¬ OwnLine.Alone (e.kindOf body) (a ++ u ++ kept) s' := by
      rw [List.append_assoc, OwnLine.alone_append_left ha]
      exact alone
    have hstep := FirstTag.inline found halone
    rw [List.append_assoc a, List.length_append, tagOf_shift, List.append_assoc a] at hstep
    exact hstep
  | @ownLine padding body lineEnd _ e found alone whole line lineEnd_eq =>
    have halone : OwnLine.Alone (e.kindOf body) (a ++ u ++ (kept ++ padding)) (lineEnd ++ s') := by
      rw [List.append_assoc, OwnLine.alone_append_left ha]
      exact alone
    have hwhole : WholeLines (a ++ u ++ kept) := by
      rw [List.append_assoc]
      exact ha.append whole
    have hstep := FirstTag.ownLine found halone hwhole line lineEnd_eq
    -- the offsets of the tag and those of its line are further on by as much
    have htag : (tagOf d e (a ++ u ++ (kept ++ padding)).length body).withLine
        ⟨(a ++ u ++ kept).length, padding,
          (a ++ u ++ (kept ++ padding) ++ e.write d body ++ lineEnd).length⟩ =
        Tag.shift a.length ((tagOf d e (u ++ (kept ++ padding)).length body).withLine
          ⟨(u ++ kept).length, padding,
            (u ++ (kept ++ padding) ++ e.write d body ++ lineEnd).length⟩) := by
      have hlen (t : Text) : (a ++ u ++ t).length = a.length + (u ++ t).length := by
        rw [List.append_assoc, List.length_append]
      have hstop : (a ++ u ++ (kept ++ padding) ++ e.write d body ++ lineEnd).length =
          a.length + (u ++ (kept ++ padding) ++ e.write d body ++ lineEnd).length := by
        simp only [List.append_assoc, List.length_append]
      rw [hlen, hlen, hstop, tagOf_shift]
      rfl
    rw [htag] at hstep
    simpa only [List.append_assoc] using hstep

/-- **Behind whole lines a reading is the same reading further on.** -/
theorem Reads.shift {d : Delimiters} {u s a : Text} {stream : Stream} (ha : WholeLines a)
    (h : Reads d u s stream) : Reads d (a ++ u) s (stream.shift a.length) := by
  induction h with
  | @finished d u s none_left =>
    have hread := Reads.finished (u := a ++ u) none_left
    rw [← Run.shift_mk, Run.tokens_shift] at hread
    exact hread
  | @unclosed d u s gap rest e opening closing =>
    have hread := Reads.unclosed (u := a ++ u) opening closing
    have hlen : (a ++ u ++ gap).length = a.length + (u ++ gap).length := by
      rw [List.append_assoc, List.length_append]
    rw [hlen] at hread
    exact hread
  | @refused d u s kept u' s' tag fault first pair =>
    have hread := Reads.refused (first.shift ha) pair
    rw [Stream.cons_shift, Run.shift_mk]
    exact hread
  | @tag d d' u s kept u' s' tag stream first pair rest ih =>
    have hread := Reads.tag (first.shift ha) pair ih
    rw [Stream.cons_shift, Run.shift_mk]
    exact hread

/-! ## Steps in whole lines -/

/-- What is found is found whatever follows, when its opening is. -/
theorem Found.append_of_opening {d : Delimiters} {s t gap body after : Text} {e : Enclosure}
    (h : Found d s gap e body after)
    (hopening : opening? d (s ++ t) = some (gap, e, body ++ e.closing d ++ after ++ t)) :
    Found d (s ++ t) gap e body (after ++ t) := by
  have hclosing := cut?_append h.closing t
  rw [List.append_assoc (body ++ e.closing d)] at hopening hclosing
  exact ⟨hopening, hclosing⟩

theorem Found.append {d : Delimiters} {s gap body after : Text} {e : Enclosure}
    (h : Found d s gap e body after) (hs : WholeLines s) (b : Text) :
    Found d (s ++ b) gap e body (after ++ b) :=
  h.append_of_opening (opening?_append_of_some hs h.opening b)

/-- A step is the same whatever follows, when what is found is found there and the line it stands on
is settled. -/
theorem FirstTag.extend_of_found {d : Delimiters} {u s kept u' s' t : Text} {tag : Tag}
    (h : FirstTag d u s kept tag u' s')
    (hfound : ∀ {gap e body after}, Found d s gap e body after →
      OwnLine.Settled after ∧ Found d (s ++ t) gap e body (after ++ t)) :
    FirstTag d u (s ++ t) kept tag u' (s' ++ t) := by
  cases h with
  | @inline body _ e found alone =>
    obtain ⟨hafter, found'⟩ := hfound found
    exact .inline found' ((hafter.alone_append t).not.mpr alone)
  | @ownLine padding body lineEnd _ e found alone whole line lineEnd_eq =>
    obtain ⟨hafter, found'⟩ := hfound found
    have halone := (hafter.alone_append t).mpr alone
    have hend := (OwnLine.trailing_append (hafter.lineFeed_mem alone) t).2.trans lineEnd_eq
    rw [List.append_assoc] at found' halone hend
    exact .ownLine found' halone whole line hend

/-- **A step in whole lines is the same whatever follows.** -/
theorem FirstTag.extend {d : Delimiters} {u s kept u' s' : Text} {tag : Tag} (hs : WholeLines s)
    (h : FirstTag d u s kept tag u' s') (b : Text) :
    FirstTag d u (s ++ b) kept tag u' (s' ++ b) :=
  h.extend_of_found fun found => ⟨Or.inl (found.lineFeed_mem hs), found.append hs b⟩

/-- **A step that follows whole lines without a tag takes them along.** -/
theorem FirstTag.precede {d : Delimiters} {u s b kept u' s' : Text} {tag : Tag}
    (hs : WholeLines s) (hnone : opening? d s = none) (h : FirstTag d (u ++ s) b kept tag u' s') :
    FirstTag d u (s ++ b) (s ++ kept) tag u' s' := by
  have hfound {gap body after : Text} {e : Enclosure} (found : Found d b gap e body after) :
      Found d (s ++ b) (s ++ gap) e body after := by
    refine ⟨?_, found.closing⟩
    rw [opening?_append_of_none hs hnone, found.opening]
    rfl
  cases h with
  | @inline body _ e found alone =>
    have halone : ¬ OwnLine.Alone (e.kindOf body) (u ++ (s ++ kept)) s' := by
      rw [← List.append_assoc]
      exact alone
    have hstep := FirstTag.inline (hfound found) halone
    rw [← List.append_assoc u] at hstep
    exact hstep
  | @ownLine padding body lineEnd _ e found alone whole line lineEnd_eq =>
    have hbefore : u ++ s ++ (kept ++ padding) = u ++ (s ++ kept ++ padding) := by
      simp only [List.append_assoc]
    have hfound' := hfound found
    rw [← List.append_assoc s] at hfound'
    rw [hbefore] at alone ⊢
    rw [List.append_assoc u] at whole ⊢
    exact .ownLine hfound' alone whole line lineEnd_eq

/-! ## Streams in a row -/

/-- The pair that a token brings into force. -/
def Token.pair? : Token → Option Delimiters
  | .tag t => if t.kind = .delimiters then (Delimiters.ofBody t.name).toOption else none
  | .run _ => none

namespace Stream

/-- The pair in force at the end of a stream that begins with the pair `d`. -/
def lastPair (d : Delimiters) (s : Stream) : Delimiters :=
  (s.tokens.filterMap Token.pair?).getLastD d

theorem filterMap_pair?_tokens (r : Run) : r.tokens.filterMap Token.pair? = [] :=
  r.filterMap_tokens fun _ => rfl

/-- What a tag brings into force is in force behind it, until another pair is named. -/
theorem getLastD_pair? {d d' : Delimiters} {tag : Tag} (h : tag.pairAfter d = .ok d')
    (ts : List Token) :
    ((Token.tag tag :: ts).filterMap Token.pair?).getLastD d =
      (ts.filterMap Token.pair?).getLastD d' := by
  unfold Tag.pairAfter at h
  by_cases hk : tag.kind = .delimiters
  · rw [if_pos hk] at h
    have hpair : Token.pair? (.tag tag) = some d' := by
      rw [Token.pair?, if_pos hk, h]
      rfl
    rw [List.filterMap_cons_some hpair, List.getLastD_cons]
  · rw [if_neg hk] at h
    cases h
    have hpair : Token.pair? (.tag tag) = none := by rw [Token.pair?, if_neg hk]
    rw [List.filterMap_cons_none hpair]

theorem lastPair_cons {d d' : Delimiters} {tag : Tag} (h : tag.pairAfter d = .ok d') (gap : Run)
    (s : Stream) : (s.cons gap tag).lastPair d = s.lastPair d' := by
  unfold lastPair cons
  rw [List.filterMap_append, filterMap_pair?_tokens, List.nil_append, getLastD_pair? h]

/-- The brackets of a stream. -/
def brackets (s : Stream) : List Token := s.tokens.filter Token.isBracket

/-- The stream is like the one and then the other, apart from where runs are cut. -/
structure Continues (whole first second : Stream) : Prop where
  flaw : whole.flaw = second.flaw
  brackets : whole.brackets = first.brackets ++ second.brackets
  marks : whole.flaw = none → Mark.joined whole.marks = Mark.joined (first.marks ++ second.marks)

theorem brackets_tokens (r : Run) : r.tokens.filter Token.isBracket = [] := by
  unfold Run.tokens
  split
  · rfl
  · rfl

theorem brackets_cons (gap : Run) (tag : Tag) (s : Stream) :
    (s.cons gap tag).brackets = [Token.tag tag].filter Token.isBracket ++ s.brackets := by
  rw [brackets, cons, List.filter_append, brackets_tokens, List.nil_append,
    ← List.singleton_append, List.filter_append]
  rfl

namespace Continues

variable {whole first second : Stream}

/-- A tag in front. -/
theorem cons (h : whole.Continues first second) (gap : Run) (tag : Tag) :
    (whole.cons gap tag).Continues (first.cons gap tag) second where
  flaw := h.flaw
  brackets := by rw [brackets_cons, brackets_cons, h.brackets, List.append_assoc]
  marks hflaw := by
    rw [marks_cons, marks_cons, List.append_assoc, List.append_assoc]
    exact Mark.joined_congr_append _ (Mark.joined_congr_append _ (h.marks hflaw))

/-- Text before the first tag. -/
theorem run (s kept : Text) (p q r : Nat) (tag : Tag) (rest : Stream) :
    (rest.cons ⟨s ++ kept, p⟩ tag).Continues ⟨(Run.mk s q).tokens, none⟩
      (rest.cons ⟨kept, r⟩ tag) where
  flaw := rfl
  brackets := by
    have hnone : Stream.brackets ⟨(Run.mk s q).tokens, none⟩ = [] := brackets_tokens _
    rw [brackets_cons, brackets_cons, hnone, List.nil_append]
  marks _ := by
    have hfirst : Stream.marks ⟨(Run.mk s q).tokens, none⟩ = Mark.ofText s :=
      Run.filterMap_mark?_tokens _
    rw [marks_cons, marks_cons, hfirst]
    exact Mark.joined_ofText_append s kept _

end Continues
end Stream

/-- **A reading of whole lines goes on as a reading of what follows them, with the pair that is in
force at their end.** -/
theorem Reads.append {d : Delimiters} {u s b : Text} {first second : Stream}
    (h : Reads d u s first) (hflaw : first.flaw = none) (hs : WholeLines (u ++ s))
    (hb : Reads (first.lastPair d) (u ++ s) b second) :
    ∃ whole, Reads d u (s ++ b) whole ∧ whole.Continues first second := by
  induction h with
  | unclosed opening closing => cases hflaw
  | refused tag pair => cases hflaw
  | @tag d d' u s kept u' s' tag stream step pair rest ih =>
    rw [Stream.lastPair_cons pair, ← step.append_eq] at hb
    rw [← step.append_eq] at hs
    obtain ⟨whole, hread, hcont⟩ := ih hflaw hs hb
    have hs' : WholeLines s := by
      rw [step.append_eq] at hs
      exact hs.right
    exact ⟨_, .tag (step.extend hs' b) pair hread, hcont.cons _ _⟩
  | @finished d u s none_left =>
    -- the first part ends in text, which goes to the text before the first tag of the second
    have hpair : Stream.lastPair d ⟨(Run.mk s u.length).tokens, none⟩ = d := by
      rw [Stream.lastPair, Stream.filterMap_pair?_tokens]
      rfl
    rw [hpair] at hb
    have hopen := opening?_append_of_none hs.right none_left b
    cases hb with
    | finished nothing =>
      rw [nothing, Option.map_none] at hopen
      refine ⟨_, .finished hopen, rfl, ?_, fun _ => ?_⟩
      · simp only [Stream.brackets, Stream.brackets_tokens]
        rfl
      · have hjoin := Mark.joined_ofText_append s b []
        rw [List.append_nil, List.append_nil] at hjoin
        simp only [Stream.marks, Run.filterMap_mark?_tokens]
        exact hjoin
    | @unclosed _ _ _ gap rest e opening closing =>
      rw [opening, Option.map_some] at hopen
      have hread := Reads.unclosed (u := u) hopen closing
      rw [← List.append_assoc] at hread
      refine ⟨_, hread, rfl, ?_, fun hnone => by cases hnone⟩
      simp only [Stream.brackets, Stream.brackets_tokens]
      rfl
    | refused step pair =>
      exact ⟨_, .refused (step.precede hs.right none_left) pair, .run s _ _ _ _ _ _⟩
    | tag step pair rest =>
      exact ⟨_, .tag (step.precede hs.right none_left) pair rest, .run s _ _ _ _ _ _⟩

/-! ## Trees in a row -/

namespace Node

/-- Nodes and then more nodes, where text at the end of the first and text at the beginning of the
second are made one. -/
def followedBy (ms ns : List Node) : List Node :=
  match ms.getLast?, ns with
  | some (.text s), .text t :: rest => ms.dropLast ++ .text (s ++ t) :: rest
  | _, _ => ms ++ ns

theorem getLast?_marksAll (ns : List Node) :
    (marksAll ns).getLast?.bind Mark.text? = ns.getLast?.bind text? := by
  rcases List.eq_nil_or_concat ns with rfl | ⟨ms, n, rfl⟩
  · rfl
  · have hmarks : n.marks ≠ [] := by cases n <;> simp [marks]
    have hlast : (marksAll (ms ++ [n])).getLast? = n.marks.getLast? := by
      rw [marksAll_append, marksAll, marksAll, List.append_nil, List.getLast?_append,
        List.getLast?_eq_some_getLast hmarks, Option.some_or]
    rw [List.concat_eq_append, hlast, List.getLast?_concat, Option.bind_some]
    cases hn : n.text? with
    | none => exact getLast?_marks hn
    | some s =>
      cases n with
      | text t => exact hn
      | _ => cases hn

/-- The marks of nodes in a row are the marks of both, joined. -/
theorem marksAll_followedBy {ms ns : List Node} (hm : Mark.Apart (marksAll ms))
    (hn : Mark.Apart (marksAll ns)) :
    marksAll (followedBy ms ns) = Mark.joined (marksAll ms ++ marksAll ns) := by
  unfold followedBy
  split
  · next s t ns hlast =>
    -- two texts meet; as one they are still apart from what is on either side
    obtain ⟨ms, rfl⟩ := List.getLast?_eq_some_iff.mp hlast
    have hend : marksAll (ms ++ [.text s]) = marksAll ms ++ [.text s] := by
      rw [marksAll_append]
      rfl
    have hstart : Mark.startsWithText (marksAll ns) = false :=
      hn.1.resolve_left (by simp [Mark.text?])
    rw [hend] at hm
    have happart : Mark.Apart (marksAll ms ++ [.text (s ++ t)] ++ marksAll ns) :=
      Mark.apart_append (hm.replace_text _) hn.2 (Or.inr hstart)
    rw [List.append_assoc, List.singleton_append] at happart
    rw [List.dropLast_concat, marksAll_append, hend, List.append_assoc]
    exact ((Mark.joined_text_text (marksAll ms) s t (marksAll ns)).trans
      (Mark.joined_of_apart happart)).symm
  · next ns _ _ hnot =>
    -- no two texts meet, so there is nothing to join
    rw [marksAll_append]
    refine (Mark.joined_of_apart (Mark.apart_append hm hn ?_)).symm
    rw [getLast?_marksAll, startsWithText_marksAll]
    cases hlast : ms.getLast? with
    | none => exact Or.inl rfl
    | some m =>
      cases m with
      | text s =>
        right
        cases ns with
        | nil => rfl
        | cons n ns =>
          cases n with
          | text t => exact absurd rfl (hnot s t ns hlast)
          | _ => rfl
      | _ => exact Or.inl rfl

end Node

/-! ## Places behind whole lines -/

/-- The place of an offset is seen from the text before it. -/
theorem Place.ofPosition_congr {source source' : Text} {position : Nat}
    (h : source'.take position = source.take position) :
    ofPosition source' position = ofPosition source position := by
  simp only [ofPosition, lineAt, columnAt, lineStart, h]

/-- Behind whole lines a place has the same column, on a line that much further down. -/
theorem Place.ofPosition_append {a : Text} (ha : WholeLines a) (b : Text) (position : Nat) :
    ofPosition (a ++ b) (a.length + position) =
      ⟨a.length + position, a.count (char '\n') + (ofPosition b position).line,
        (ofPosition b position).column⟩ := by
  have htake : (a ++ b).take (a.length + position) = a ++ b.take position := by
    rw [List.take_append, List.take_of_length_le (by omega), Nat.add_sub_cancel_left]
  have hline : lineAt (a ++ b) (a.length + position) = a.count (char '\n') + lineAt b position := by
    rw [lineAt, lineAt, htake, List.count_append, Nat.add_assoc]
  have hstart : lineStart (a ++ b) (a.length + position) = a.length + lineStart b position := by
    have hle := length_lastLine_le (b.take position)
    rw [lineStart, lineStart, htake, lastLine_append ha, List.length_append]
    omega
  have hcolumn : columnAt (a ++ b) (a.length + position) = columnAt b position := by
    rw [columnAt, columnAt, hstart]
    omega
  rw [ofPosition, hline, hcolumn]
  rfl

/-- The report of the same flaw when `a` comes before the source: further on, on a later line, in
the same column. -/
def ParseError.behind (a : Text) (e : ParseError) : ParseError :=
  { e with
    place := ⟨a.length + e.place.position, a.count (char '\n') + e.place.line, e.place.column⟩ }

theorem ParseError.ofFlaw_shift {a : Text} (ha : WholeLines a) (template : Option Text) (b : Text)
    (flaw : Flaw) :
    ofFlaw template (a ++ b) (flaw.shift a.length) = (ofFlaw template b flaw).behind a := by
  unfold ofFlaw behind Flaw.shift
  rw [Place.ofPosition_append ha]
  rfl

/-! ## Sources in a row -/

theorem Stream.marks_shift (n : Nat) (s : Stream) : (s.shift n).marks = s.marks := by
  unfold marks shift
  rw [List.filterMap_map]
  congr 1
  funext t
  cases t with
  | run r => rfl
  | tag t =>
    exact Token.mark?_congr rfl rfl (Option.map_map (·.padding) (OwnLine.shift n) t.ownLine)

/-- A builder that accepts a row of tokens goes on behind it. -/
theorem Builder.accepted_append {b b' : Builder} {ts : List Token} (h : b.feedAll ts = .ok b')
    (us : List Token) : b.accepted (ts ++ us) = ts ++ b'.accepted us := by
  induction ts generalizing b with
  | nil =>
    cases h
    rfl
  | cons t ts ih =>
    rw [feedAll] at h
    rw [List.cons_append, accepted]
    split at h
    · rw [ih h, List.cons_append]
    · cases h

theorem Builder.accepted_eq_self {b b' : Builder} {ts : List Token} (h : b.feedAll ts = .ok b') :
    b.accepted ts = ts := by
  have happend := accepted_append h []
  rwa [accepted, List.append_nil] at happend

/-- The pair in force at the end of a source that can be parsed. -/
theorem Stream.lastPair_eq {d : Delimiters} {s : Stream} {root : List Node}
    (h : s.build = .ok root) : s.lastPair d = s.switches.getLastD d := by
  unfold build at h
  split at h
  · cases h
  · next b hb =>
    rw [lastPair, switches, Builder.accepted_eq_self hb]
    rfl

/-- The streams of two sources in a row. -/
theorem Stream.exists_continues {a b : Text} {d : Delimiters} (ha : WholeLines a)
    (hflaw : (ofSource a d 0).flaw = none) :
    (ofSource (a ++ b) d 0).Continues (ofSource a d 0)
      ((ofSource b ((ofSource a d 0).lastPair d) 0).shift a.length) := by
  have hfirst : Reads d [] a (ofSource a d 0) := reads_ofSource d landing_nil a
  have hsecond := (reads_ofSource ((ofSource a d 0).lastPair d) landing_nil b).shift ha
  rw [List.append_nil] at hsecond
  obtain ⟨whole, hread, hcont⟩ := hfirst.append hflaw ha hsecond
  have hwhole : whole = ofSource (a ++ b) d 0 := hread.eq_ofSource
  rw [hwhole] at hcont
  exact hcont

namespace Template

/-- **At the beginning of a line a source can be cut in two.** What the first part is parsed to is
followed by what the second part is parsed to with the pair in force at the cut, and a flaw of the
second part is the flaw of the whole. -/
theorem parse_append {name a : Text} {d : Delimiters} {first : Template} (ha : WholeLines a)
    (hfirst : parse name a d = .ok first) (b : Text) :
    let d' := (Stream.ofSource a d 0).switches.getLastD d
    (∀ second, parse name b d' = .ok second →
      parse name (a ++ b) d = .ok ⟨name, Node.followedBy first.root second.root⟩) ∧
    (∀ e, parse name b d' = .error e → parse name (a ++ b) d = .error (e.behind a)) := by
  obtain ⟨-, hbuild⟩ := parse_eq_ok_iff.mp hfirst
  obtain ⟨hflaw, hnested, hmarks⟩ := Stream.build_eq_ok_iff.mp hbuild
  rw [← Stream.lastPair_eq hbuild]
  intro d'
  obtain ⟨hcflaw, hcbrackets, hcmarks⟩ := Stream.exists_continues (b := b) ha hflaw
  rw [Stream.marks_shift] at hcmarks
  constructor
  · intro second hsecond
    obtain ⟨hflaw', hnested', hmarks'⟩ :=
      Stream.build_eq_ok_iff.mp (parse_eq_ok_iff.mp hsecond).2
    have hwhole : (Stream.ofSource (a ++ b) d 0).flaw = none := by
      rw [hcflaw, Stream.shift, hflaw']
      rfl
    refine parse_eq_ok_iff.mpr ⟨rfl, Stream.build_eq_ok_iff.mpr ⟨hwhole, ?_, ?_⟩⟩
    · refine (hnested.append (hnested'.shift a.length)).congr ?_
      rw [List.filter_append]
      exact hcbrackets
    · have happart : Mark.Apart (Node.marksAll first.root) := by
        rw [hmarks]
        exact Mark.apart_joined _
      have happart' : Mark.Apart (Node.marksAll second.root) := by
        rw [hmarks']
        exact Mark.apart_joined _
      calc Node.marksAll (Node.followedBy first.root second.root)
          = Mark.joined (Node.marksAll first.root ++ Node.marksAll second.root) :=
            Node.marksAll_followedBy happart happart'
        _ = Mark.joined ((Stream.ofSource a d 0).marks ++ (Stream.ofSource b d' 0).marks) := by
            rw [hmarks, hmarks', Mark.joined_append_joined]
            exact Mark.joined_congr_append _ (Mark.joined_joined _)
        _ = Mark.joined (Stream.ofSource (a ++ b) d 0).marks := (hcmarks hwhole).symm
  · intro e he
    obtain ⟨flaw, hbuild', rfl⟩ := parse_eq_error_iff.mp he
    have hshift := (Stream.build_eq_error_iff.mp hbuild').shift a.length
    have hshows : (Stream.ofSource (a ++ b) d 0).FirstFlaw (flaw.shift a.length) := by
      refine (Stream.FirstFlaw.append hnested hshift).congr ?_ hcflaw
      rw [List.filter_append]
      exact hcbrackets
    exact parse_eq_error_iff.mpr
      ⟨_, Stream.build_eq_error_iff.mpr hshows, (ParseError.ofFlaw_shift ha _ b flaw).symm⟩

/-- A line that names another pair, and a line of text. -/
def switchedLines : Text := "\x7b\x7b=| |=\x7d\x7d\nx\n".toText

theorem parse_append_switchedLines :
    WholeLines switchedLines ∧
      parse ['t'] switchedLines .standard = .ok ⟨['t'], [.text ['x', '\n']]⟩ ∧
      parse ['t'] (switchedLines ++ "y|v|".toText) .standard =
        .ok ⟨['t'],
          Node.followedBy [.text ['x', '\n']] [.text ['y'], .interpolate ['v'] true]⟩ := by
  have hlines : WholeLines switchedLines := by decide
  have hfirst : parse ['t'] switchedLines .standard = .ok ⟨['t'], [.text ['x', '\n']]⟩ := by
    decide +kernel
  have hsecond : parse ['t'] "y|v|".toText
      ((Stream.ofSource switchedLines .standard 0).switches.getLastD .standard) =
        .ok ⟨['t'], [.text ['y'], .interpolate ['v'] true]⟩ := by
    decide +kernel
  exact ⟨hlines, hfirst, (parse_append hlines hfirst "y|v|".toText).1 _ hsecond⟩

end Template
end Mustache
