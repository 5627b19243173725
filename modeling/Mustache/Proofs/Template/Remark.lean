import Mustache.Proofs.Template.NamedPair
import Mustache.Proofs.Template.Reach

/-!
# A remark on a line of its own

A line with nothing but a comment can be put into a source wherever a line begins and no tag goes on
from the line before. It leaves nothing behind: the tree is the same, and so is a flaw, further on
when it shows behind the line. The comment is written with the pair in force where it is put.

What comes before the line is read as it was read, since no tag of it is still to be closed
(`Reads.lastPair_of_reaches`). What comes behind is read behind whole lines, with the line or
without.

* `Delimiters.exists_firstTag_remarkLine` — the step over the line
* `Stream.FirstFlaw.insert` — the flaw of a stream with more characters in its middle
* `Template.parse_remarkLine` — parsing with the line and without
-/

namespace Mustache

open Text

/-! ## The line -/

namespace Delimiters

variable (d : Delimiters)

/-- A line with nothing but a comment. -/
def remarkLine (padding remark padding' : Text) : Text :=
  padding ++ d.opening ++ char '!' :: remark ++ d.closing ++ padding' ++ [char '\n']

variable {d} {padding remark padding' : Text}

theorem remarkLine_eq : d.remarkLine padding remark padding' =
    padding ++ Enclosure.active.write d (char '!' :: remark) ++ padding' ++ [char '\n'] := by
  simp only [remarkLine, Enclosure.write, Enclosure.opening, Enclosure.closing, List.append_assoc,
    List.cons_append]

theorem wholeLines_remarkLine (d : Delimiters) (padding remark padding' : Text) :
    WholeLines (d.remarkLine padding remark padding') := wholeLines_concat _

theorem kindOf_remark (remark : Text) :
    Enclosure.active.kindOf (char '!' :: remark) = .comment := by
  rw [Enclosure.kindOf, trim_cons (by decide)]
  rfl

/-- The comment is found, and ends where it is meant to. -/
theorem found_remark (hbefore : isPadding padding = true)
    (hopening : ¬ Enclosure.triple.opening d <+: d.opening)
    (hclosing : ∀ i ≤ remark.length, ¬ d.closing <+: (char '!' :: remark ++ d.closing).drop i)
    (after : Text) :
    Found d (padding ++ Enclosure.active.write d (char '!' :: remark) ++ after) padding .active
      ('!' :: remark) after := by
  have hcut : cut? d.closing (char '!' :: remark ++ d.closing ++ after) =
      some (char '!' :: remark, after) := by
    have hfirst : cut? d.closing (char '!' :: remark ++ d.closing) =
        some (char '!' :: remark, []) := by
      rw [cut?_eq_some_iff]
      exact ⟨(List.append_nil _).symm, fun i hi => hclosing i (Nat.le_of_lt_succ hi)⟩
    exact cut?_append hfirst after
  refine ⟨?_, hcut⟩
  have hpre : ¬ Enclosure.triple.opening d <+:
      d.opening ++ (char '!' :: remark ++ d.closing ++ after) :=
    not_prefix_append_cons hopening (by simp [Enclosure.opening]) _
  have hopen := opening?_opening hpre
  have hblank : ∀ c ∈ padding, isBlank c = true :=
    fun _ hc => OwnLine.isBlank_of_mem_isPadding hbefore hc
  have hall := opening?_blanks d hblank (d.opening ++ (char '!' :: remark ++ d.closing ++ after))
  rw [hopen] at hall
  simpa only [Option.map_some, List.append_nil, Enclosure.write, Enclosure.opening,
    Enclosure.closing, List.append_assoc] using hall

/-- **The line is passed over whole**, and leaves nothing behind. -/
theorem exists_firstTag_remarkLine {u : Text} (hu : WholeLines u)
    (hbefore : isPadding padding = true) (hafter : isPadding padding' = true)
    (hopening : ¬ Enclosure.triple.opening d <+: d.opening)
    (hclosing : ∀ i ≤ remark.length, ¬ d.closing <+: (char '!' :: remark ++ d.closing).drop i)
    (s : Text) :
    ∃ tag, FirstTag d u (d.remarkLine padding remark padding' ++ s) [] tag
      (u ++ d.remarkLine padding remark padding') s ∧ tag.kind = .comment := by
  have hkind := kindOf_remark remark
  obtain ⟨tag, hstep, htag, -⟩ := exists_firstTag_line hu hbefore hafter (by rw [hkind]; rfl)
    (found_remark hbefore hopening hclosing (padding' ++ char '\n' :: s))
  rw [← remarkLine_eq] at hstep
  exact ⟨tag, hstep, htag.trans hkind⟩

end Delimiters

/-! ## Getting to a place between tags -/

/-- The token is no tag that goes on at the offset. -/
def Token.IsClearOf (p : Nat) : Token → Prop
  | .run _ => True
  | .tag t => t.stop ≤ p ∨ p ≤ t.start

instance (p : Nat) (t : Token) : Decidable (t.IsClearOf p) :=
  match t with
  | .run _ => inferInstanceAs (Decidable True)
  | .tag t => inferInstanceAs (Decidable (t.stop ≤ p ∨ p ≤ t.start))

/-- Reading gets to this offset, and no tag goes on there. -/
def Stream.Reaches (s : Stream) (p : Nat) : Prop :=
  (∀ t ∈ s.tokens, t.IsClearOf p) ∧ ∀ flaw ∈ s.flaw, p ≤ flaw.position

instance (s : Stream) (p : Nat) : Decidable (s.Reaches p) := inferInstanceAs (Decidable (_ ∧ _))

/-- Where no closing marker is found, the first one ends in what follows. -/
theorem Text.length_lt_of_cut?_append {m s t before after : Text} (hs : cut? m s = none)
    (hst : cut? m (s ++ t) = some (before, after)) : s.length < before.length + m.length := by
  rw [← List.length_append]
  by_contra hle
  have hpre : before ++ m <+: s :=
    List.prefix_of_prefix_length_le ⟨after, (eq_of_cut? hst).symm⟩ (List.prefix_append s t)
      (Nat.not_lt.mp hle)
  obtain ⟨rest, hrest⟩ := hpre
  refine not_prefix_of_cut?_eq_none hs before.length ?_
  rw [← hrest, List.append_assoc, List.drop_left]
  exact List.prefix_append m rest

/-- A tag that is not closed in whole lines is the first of the source. -/
theorem Reads.not_reaches_of_unclosed {d : Delimiters} {u s b gap rest : Text} {e : Enclosure}
    {whole : Stream} (h : Reads d u (s ++ b) whole) (hs : WholeLines s)
    (hopening : opening? d s = some (gap, e, rest)) (hclosing : cut? (e.closing d) rest = none) :
    ¬ whole.Reaches (u ++ s).length := by
  have hopen := opening?_append_of_some hs hopening b
  have hlen := length_of_opening? hopening
  have hpos := List.length_pos_iff.mpr (e.opening_ne_nil d)
  rintro ⟨htags, hflaw⟩
  -- the first tag begins before the place and does not end before it
  have hfirst {kept u' s' : Text} {tag : Tag} (first : FirstTag d u (s ++ b) kept tag u' s')
      (hmem : .tag tag ∈ whole.tokens) : False := by
    obtain ⟨gap', e', body, after, found, rfl, -, -⟩ := first.exists_found
    obtain ⟨rfl, rfl, hrest⟩ : gap = gap' ∧ e = e' ∧
        rest ++ b = body ++ e'.closing d ++ after := by
      simpa using hopen.symm.trans found.opening
    have hlate := length_lt_of_cut?_append hclosing (by rw [hrest]; exact found.closing)
    rcases htags _ hmem with hstop | hstart
    · simp only [Tag.onLine, tagOf, List.length_append] at hstop
      omega
    · simp only [Tag.onLine, tagOf, List.length_append] at hstart
      omega
  cases h with
  | finished none_left => rw [none_left] at hopen; cases hopen
  | unclosed opening closing =>
    rw [opening] at hopen
    cases hopen
    have := hflaw _ rfl
    simp only [List.length_append] at this
    omega
  | refused first pair => exact hfirst first (by simp [Stream.cons])
  | tag first pair rest => exact hfirst first (by simp [Stream.cons])

/-- **Whole lines that a reading gets over are read to their end**, and the pair in force there is
the pair in force at their end. -/
theorem Reads.lastPair_of_reaches {d : Delimiters} {u s b : Text} {first whole : Stream}
    (h : Reads d u s first) (hs : WholeLines (u ++ s)) (hwhole : Reads d u (s ++ b) whole)
    (hreach : whole.Reaches (u ++ s).length) :
    first.flaw = none ∧ first.lastPair d = whole.pairAt d (u ++ s).length := by
  induction h generalizing whole with
  | unclosed opening closing =>
    exact absurd hreach (hwhole.not_reaches_of_unclosed hs.right opening closing)
  | @finished d u s none_left =>
    have hnone (tag : Tag) (htag : .tag tag ∈ whole.tokens) : (u ++ s).length < tag.stop := by
      have hopen := opening?_append_of_none hs.right none_left b
      cases hb : opening? d b with
      | none =>
        rw [hb, Option.map_none] at hopen
        rw [hwhole.unique (.finished hopen)] at htag
        exact absurd htag (Run.tag_notMem_tokens _ tag)
      | some found =>
        rw [hb, Option.map_some] at hopen
        have hlt := hwhole.gap_lt_stop hopen htag
        rw [← List.append_assoc, List.length_append] at hlt
        omega
    rw [Stream.pairAt_of_lt hnone, Stream.lastPair, Stream.filterMap_pair?_tokens]
    exact ⟨rfl, rfl⟩
  | @refused d u s kept u' s' tag fault step pair =>
    have hstep := step.extend hs.right b
    rw [hwhole.unique (.refused hstep pair)] at hreach
    -- the tag that names no pair ends before the place
    have hposition : (u ++ s).length ≤ tag.start := hreach.2 _ rfl
    have hstop := step.start_lt_stop.trans_le step.stop_le
    rw [← step.append_eq, List.length_append] at hposition
    omega
  | @tag d d' u s kept u' s' tag rest step pair _ ih =>
    have hrest := reads_ofSource d' step.landing (s' ++ b)
    have hstop : tag.stop ≤ (u ++ s).length := by
      rw [← step.append_eq, List.length_append]
      exact step.stop_le.trans (Nat.le_add_right _ _)
    rw [hwhole.unique (.tag (step.extend hs.right b) pair hrest)] at hreach ⊢
    rw [Stream.lastPair_cons pair, Stream.pairAt_cons pair hstop]
    rw [← step.append_eq] at hs hreach ⊢
    refine ih hs hrest ⟨fun t ht => hreach.1 t ?_, hreach.2⟩
    exact List.mem_append_right _ (List.mem_cons_of_mem _ ht)

/-! ## More characters in the middle -/

/-- The flaw when `n` characters are put in at the offset `p`. -/
def Flaw.insert (p n : Nat) (flaw : Flaw) : Flaw :=
  { flaw with position := if flaw.position < p then flaw.position else flaw.position + n }

theorem Flaw.insert_shift (p n : Nat) (flaw : Flaw) :
    (flaw.shift p).insert p n = flaw.shift (p + n) := by
  have hposition : ¬ (flaw.shift p).position < p :=
    Nat.not_lt.mpr (Nat.le_add_right p flaw.position)
  rw [insert, if_neg hposition]
  show Flaw.mk flaw.kind (p + flaw.position + n) = ⟨flaw.kind, p + n + flaw.position⟩
  rw [Nat.add_right_comm]

namespace Stream

variable {whole whole' first second : Stream} {p n : Nat}

/-- What a stream with more characters in its middle has in common with the stream. -/
theorem filterMap_bracketBy?_insert (hfirst : ∀ tag, .tag tag ∈ first.tokens → tag.start < p)
    (h : whole.Continues first (second.shift p))
    (h' : whole'.Continues first (second.shift (p + n))) :
    whole'.tokens.filterMap (Token.bracketBy? fun t => (t.name, t.start)) =
      whole.tokens.filterMap (Token.bracketBy? fun t =>
        (t.name, if t.start < p then t.start else t.start + n)) := by
  rw [← Token.filterMap_bracketBy?_filter, ← Token.filterMap_bracketBy?_filter whole.tokens]
  show whole'.brackets.filterMap _ = whole.brackets.filterMap _
  rw [h.brackets, h'.brackets, List.filterMap_append, List.filterMap_append]
  congr 1
  · -- the tags before the place begin where they began
    refine List.filterMap_congr fun t ht => ?_
    cases t with
    | run r => rfl
    | tag t =>
      have hstart := hfirst t (List.mem_of_mem_filter ht)
      simp only [Token.bracketBy?, if_pos hstart]
  · -- the tags behind it begin further on
    unfold brackets
    rw [Token.filterMap_bracketBy?_filter, Token.filterMap_bracketBy?_filter]
    show (second.tokens.map _).filterMap _ = (second.tokens.map _).filterMap _
    rw [filterMap_bracketBy?_shift, filterMap_bracketBy?_shift]
    congr 2
    funext t
    have hstart : ¬ (t.shift p).start < p := Nat.not_lt.mpr (Nat.le_add_right p t.start)
    rw [if_neg hstart]
    show (t.name, p + n + t.start) = (t.name, p + t.start + n)
    rw [Nat.add_right_comm]

/-- **With more characters in its middle a stream shows the same flaw first**, further on when it
shows behind them. -/
theorem FirstFlaw.insert (hfirst : ∀ tag, .tag tag ∈ first.tokens → tag.start < p)
    (h : whole.Continues first (second.shift p))
    (h' : whole'.Continues first (second.shift (p + n))) {flaw : Flaw}
    (hflaw : whole.FirstFlaw flaw) : whole'.FirstFlaw (flaw.insert p n) := by
  have hstops : whole'.flaw = whole.flaw.map (Flaw.insert p n) := by
    rw [h.flaw, h'.flaw]
    show second.flaw.map _ = (second.flaw.map _).map _
    rw [Option.map_map]
    congr 1
    funext flaw
    exact (flaw.insert_shift p n).symm
  obtain ⟨flaw', hflaw', rfl⟩ := hflaw.exists_of_view (t := whole')
    (fun t t' heq => (congrArg Prod.fst heq : t'.name = id t.name)) Function.injective_id
    (fun flaw flaw' => flaw' = flaw.insert p n) (filterMap_bracketBy?_insert hfirst h h')
    (fun tag tag' expected heq => by
      obtain ⟨hname, hstart⟩ := Prod.mk.inj heq
      rw [hname, hstart, Option.map_id]
      rfl)
    (fun tag tag' heq => by
      obtain ⟨hname, hstart⟩ := Prod.mk.inj heq
      rw [hname, hstart]
      rfl)
    (fun flaw hs => ⟨_, by rw [hstops, hs]; rfl, rfl⟩)
    (fun hs => by rw [hstops, hs]; rfl)
  exact hflaw'

/-- **With more characters in its middle a stream has the same tree**, or the same flaw. -/
theorem build_insert (hfirst : ∀ tag, .tag tag ∈ first.tokens → tag.start < p)
    (h : whole.Continues first (second.shift p))
    (h' : whole'.Continues first (second.shift (p + n))) :
    whole'.build = whole.build.mapError (Flaw.insert p n) := by
  cases hbuild : whole.build with
  | ok root =>
    obtain ⟨hflaw, hnested, hmarks⟩ := build_eq_ok_iff.mp hbuild
    have hflaw' : whole'.flaw = none := by
      have hsecond := h.flaw.symm.trans hflaw
      rw [h'.flaw]
      rw [shift, Option.map_eq_none_iff] at hsecond ⊢
      exact hsecond
    have hnames (t t' : Tag)
        (heq : (t'.name, t'.start) = (t.name, if t.start < p then t.start else t.start + n)) :
        t'.name = id t.name := congrArg Prod.fst heq
    refine build_eq_ok_iff.mpr
      ⟨hflaw', hnested.of_view hnames (filterMap_bracketBy?_insert hfirst h h'), ?_⟩
    calc Node.marksAll root = Mark.joined whole.marks := hmarks
      _ = Mark.joined (first.marks ++ second.marks) := by rw [h.marks hflaw, marks_shift]
      _ = Mark.joined whole'.marks := by rw [h'.marks hflaw', marks_shift]
  | error flaw =>
    exact build_eq_error_iff.mpr (.insert hfirst h h' (build_eq_error_iff.mp hbuild))

/-- A comment with nothing before it may be left out behind a stream. -/
theorem Continues.of_cons_comment {tag : Tag} (htag : tag.kind = .comment) {q : Nat}
    (h : whole.Continues first (second.cons ⟨[], q⟩ tag)) : whole.Continues first second where
  flaw := h.flaw
  brackets := by
    have hbracket : [Token.tag tag].filter Token.isBracket = [] := by
      rw [List.filter_singleton, Token.isBracket, htag]
      rfl
    rw [h.brackets, brackets_cons, hbracket, List.nil_append]
  marks hflaw := by
    have hmark : Token.mark? (.tag tag) = none := by rw [Token.mark?, htag]
    rw [h.marks hflaw, marks_cons, hmark]
    rfl

end Stream

/-! ## Places -/

/-- **The place of a flaw when a line is put in**: before the line it is the same, behind it further
on, on a later line. -/
theorem ParseError.ofFlaw_insert {u line : Text} (hu : WholeLines u) (hline : WholeLines line)
    (template : Option Text) (v : Text) (flaw : Flaw) :
    ofFlaw template (u ++ line ++ v) (flaw.insert u.length line.length) =
      if flaw.position < u.length then ofFlaw template (u ++ v) flaw else
        { ofFlaw template (u ++ v) flaw with
          place := ⟨flaw.position + line.length,
            (Place.ofPosition (u ++ v) flaw.position).line + line.count (char '\n'),
            (Place.ofPosition (u ++ v) flaw.position).column⟩ } := by
  unfold ofFlaw Flaw.insert
  split
  · next hlt =>
    have htake (t : Text) : (u ++ t).take flaw.position = u.take flaw.position :=
      List.take_append_of_le_length hlt.le
    rw [List.append_assoc, Place.ofPosition_congr ((htake _).trans (htake v).symm)]
  · next hge =>
    obtain ⟨position, hposition⟩ := Nat.exists_eq_add_of_le (Nat.not_lt.mp hge)
    have hlen : flaw.position + line.length = (u ++ line).length + position := by
      rw [hposition, List.length_append, Nat.add_right_comm]
    rw [hlen, Place.ofPosition_append (hu.append hline), hposition, Place.ofPosition_append hu,
      List.count_append, Nat.add_right_comm]

/-! ## Parsing -/

section

variable {u v padding remark padding' : Text} {d d' : Delimiters} (hu : WholeLines u)
  (hreach : (Stream.ofSource (u ++ v) d 0).Reaches u.length)
  (hpair : (Stream.ofSource (u ++ v) d 0).pairAt d u.length = d')
  (hopening : ¬ Enclosure.triple.opening d' <+: d'.opening)
  (hbefore : isPadding padding = true) (hafter : isPadding padding' = true)
  (hclosing : ∀ i ≤ remark.length, ¬ d'.closing <+: (char '!' :: remark ++ d'.closing).drop i)

include hu hreach hpair hopening hbefore hafter hclosing

/-- **With such a line in its middle a source has the same tree**, or the same flaw. -/
theorem Stream.build_remarkLine :
    (ofSource (u ++ d'.remarkLine padding remark padding' ++ v) d 0).build =
      (ofSource (u ++ v) d 0).build.mapError
        (Flaw.insert u.length (d'.remarkLine padding remark padding').length) := by
  have hfirst : Reads d [] u (ofSource u d 0) := reads_ofSource d landing_nil u
  have hwhole : Reads d [] (u ++ v) (ofSource (u ++ v) d 0) := reads_ofSource d landing_nil _
  obtain ⟨hflaw, hlast⟩ := hfirst.lastPair_of_reaches hu hwhole hreach
  have hpair' : (ofSource u d 0).lastPair d = d' := hlast.trans hpair
  have hstart (tag : Tag) (htag : .tag tag ∈ (ofSource u d 0).tokens) : tag.start < u.length :=
    hfirst.tagAt_lt (Or.inl ⟨tag, htag, rfl⟩)
  -- behind the place the source is read behind whole lines, without the line or with it
  have hsecond : Reads d' [] v (ofSource v d' 0) := reads_ofSource d' landing_nil v
  have hwithout := hsecond.shift hu
  have hwith := hsecond.shift (hu.append (d'.wholeLines_remarkLine padding remark padding'))
  obtain ⟨tag, hstep, htag⟩ :=
    Delimiters.exists_firstTag_remarkLine hu hbefore hafter hopening hclosing v
  have hsame : tag.pairAfter d' = .ok d' := by
    rw [Tag.pairAfter, htag]
    rfl
  rw [List.append_nil] at hwithout hwith
  have hline := Reads.tag hstep hsame hwith
  obtain ⟨whole, hread, hcont⟩ := hfirst.append hflaw hu (by rw [hpair']; exact hwithout)
  obtain ⟨whole', hread', hcont'⟩ := hfirst.append hflaw hu (by rw [hpair']; exact hline)
  rw [List.length_append] at hcont'
  have hbuild := build_insert hstart hcont (hcont'.of_cons_comment htag)
  rw [List.append_assoc]
  rw [hread.eq_ofSource, hread'.eq_ofSource] at hbuild
  exact hbuild

end

namespace Template

/-- **A line with nothing but a comment is as good as no line.** It may be put in wherever a line
begins and reading gets to; the comment is written with the pair in force there. A flaw that shows
behind the line shows further on. -/
theorem parse_remarkLine {u v padding remark padding' : Text} {d d' : Delimiters}
    (hu : WholeLines u) (hreach : (Stream.ofSource (u ++ v) d 0).Reaches u.length)
    (hpair : (Stream.ofSource (u ++ v) d 0).pairAt d u.length = d')
    (hopening : ¬ [char '{', '{', '{'] <+: d'.opening)
    (hbefore : isPadding padding = true) (hafter : isPadding padding' = true)
    (hclosing : ∀ i ≤ remark.length, ¬ d'.closing <+: (char '!' :: remark ++ d'.closing).drop i)
    (name : Text) :
    let line := padding ++ d'.opening ++ char '!' :: remark ++ d'.closing ++ padding' ++ [char '\n']
    (∀ t, parse name (u ++ v) d = .ok t → parse name (u ++ line ++ v) d = .ok t) ∧
    (∀ e, parse name (u ++ v) d = .error e →
      parse name (u ++ line ++ v) d = .error (if e.place.position < u.length then e else
        { e with place := ⟨e.place.position + line.length, e.place.line + line.count (char '\n'),
          e.place.column⟩ })) := by
  intro line
  have hbuild := Stream.build_remarkLine hu hreach hpair hopening hbefore hafter hclosing
  constructor
  · intro t ht
    obtain ⟨hname, hroot⟩ := parse_eq_ok_iff.mp ht
    rw [hroot] at hbuild
    exact parse_eq_ok_iff.mpr ⟨hname, hbuild⟩
  · intro e he
    obtain ⟨flaw, hflaw, rfl⟩ := parse_eq_error_iff.mp he
    rw [hflaw] at hbuild
    refine parse_eq_error_iff.mpr ⟨_, hbuild, ?_⟩
    exact (ParseError.ofFlaw_insert hu (d'.wholeLines_remarkLine padding remark padding') _ v
      flaw).symm

/-- A pair is named, and a block is opened. -/
def openedLines : Text := "\x7b\x7b=<% %>=\x7d\x7d\n<%#a%>\n".toText

/-- A remark of two lines is put into a block, and the block is not closed by its name. -/
theorem parse_remarkLine_openedLines :
    let d : Delimiters := ⟨['<', '%'], ['%', '>'], by decide, by decide⟩
    let v : Text := "x<%/b%>".toText
    let line : Text :=
      [char ' '] ++ d.opening ++ char '!' :: ['k', '\n', 'l'] ++ d.closing ++ [char '\t'] ++
        [char '\n']
    WholeLines openedLines ∧
      (Stream.ofSource (openedLines ++ v) .standard 0).Reaches openedLines.length ∧
      (Stream.ofSource (openedLines ++ v) .standard 0).pairAt .standard openedLines.length = d ∧
      parse ['t'] (openedLines ++ line ++ v) .standard =
        .error ⟨.strayClose ['b'] (some ['a']), ⟨31, 5, 2⟩, some ['t']⟩ := by
  intro d v line
  have hlines : WholeLines openedLines := by decide
  have hreach : (Stream.ofSource (openedLines ++ v) .standard 0).Reaches openedLines.length := by
    decide +kernel
  have hpair : (Stream.ofSource (openedLines ++ v) .standard 0).pairAt .standard
      openedLines.length = d := by
    decide +kernel
  have hparse : parse ['t'] (openedLines ++ v) .standard =
      .error ⟨.strayClose ['b'] (some ['a']), ⟨20, 3, 2⟩, some ['t']⟩ := by
    decide +kernel
  have hopening : ¬ [char '{', '{', '{'] <+: d.opening := by decide
  have hbefore : isPadding [' '] = true := rfl
  have hafter : isPadding ['\t'] = true := rfl
  have hclosing : ∀ i ≤ [char 'k', '\n', 'l'].length,
      ¬ d.closing <+: (char '!' :: ['k', '\n', 'l'] ++ d.closing).drop i := by
    decide
  have hline := (parse_remarkLine hlines hreach hpair hopening hbefore hafter hclosing ['t']).2 _
    hparse
  have hbehind : ¬ 20 < openedLines.length := by decide
  rw [if_neg hbehind] at hline
  exact ⟨hlines, hreach, hpair, hline⟩

end Template
end Mustache
