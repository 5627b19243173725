import Mustache.Proofs.Template.Reach

/-!
# The first fault of a source

What is reported of a source is its first fault: the report points at the tag that shows it, and the
source up to that tag is without fault, apart from blocks that are not closed yet. A closing tag
that does not fit and a set-delimiter tag that names no pair stay what they are whatever follows.

Where a source is cut off before a tag, an earlier tag may come to have its line to itself that had
something behind it; what is left behind it then is blank, so nothing is read there in either case.
Where a source goes on, every tag that is followed by another stays what it was, since a marker of
the other one is still to come; and the last one is still a tag of the same kind and name.

* `ReadsTo.exists_cut`, `Stream.build_take` — a source that is cut off before a tag
* `ReadsTo.extend`, `Reads.firstFlaw_of_append` — a source that goes on
* `Template.parse_error_first` — what is known of a reported fault
-/

namespace Mustache

open Text

/-! ## What is found -/

theorem Found.unique {d : Delimiters} {s gap gap' body body' after after' : Text}
    {e e' : Enclosure} (h : Found d s gap e body after) (h' : Found d s gap' e' body' after') :
    gap' = gap ∧ e' = e ∧ body' = body ∧ after' = after := by
  obtain ⟨hgap, he, hrest⟩ : gap' = gap ∧ e' = e ∧
      body' ++ e'.closing d ++ after' = body ++ e.closing d ++ after := by
    simpa using h'.opening.symm.trans h.opening
  have hclosing := h'.closing
  rw [hrest, he, h.closing] at hclosing
  cases hclosing
  exact ⟨hgap, he, rfl, rfl⟩

/-- A step is over the tag that is found. -/
theorem FirstTag.eq_of_found {d : Delimiters} {u s kept u' s' gap body after : Text} {tag : Tag}
    {e : Enclosure} (h : FirstTag d u s kept tag u' s') (found : Found d s gap e body after) :
    tag = (tagOf d e (u ++ gap).length body).onLine (u ++ s) := by
  obtain ⟨gap', e', body', after', found', htag, -, -⟩ := h.exists_found
  obtain ⟨rfl, rfl, rfl, rfl⟩ := found.unique found'
  rw [← htag, List.length_append]

theorem FirstTag.suffix_of_found {d : Delimiters} {u s kept u' s' gap body after : Text} {tag : Tag}
    {e : Enclosure} (h : FirstTag d u s kept tag u' s') (found : Found d s gap e body after) :
    s' <:+ after := by
  cases h with
  | inline found' alone =>
    obtain ⟨-, -, -, rfl⟩ := found.unique found'
    exact List.suffix_refl _
  | ownLine found' alone whole line lineEnd_eq =>
    obtain ⟨-, -, -, rfl⟩ := found.unique found'
    exact List.suffix_append _ _

/-- What is found is found where the source is cut off behind it. -/
theorem Found.cut {d : Delimiters} {s gap body after after' : Text} {e : Enclosure}
    (h : Found d s gap e body after) (hafter : after' <+: after) :
    Found d (gap ++ e.write d body ++ after') gap e body after' := by
  have hopening := opening?_of_prefix h.opening ((List.prefix_append_right_inj _).mpr hafter)
  have hwrite : gap ++ e.write d body ++ after' =
      gap ++ e.opening d ++ (body ++ e.closing d ++ after') := by
    simp only [Enclosure.write, List.append_assoc]
  exact ⟨by rw [hwrite]; exact hopening, cut?_of_prefix h.closing hafter⟩

/-- What is found is found whatever follows, when it is as long as the markers. -/
theorem Found.extend {d : Delimiters} {s gap body after : Text} {e : Enclosure}
    (h : Found d s gap e body after)
    (hlong : ∀ e' : Enclosure, (e'.opening d).length ≤ (e.write d body ++ after).length)
    (t : Text) : Found d (s ++ t) gap e body (after ++ t) := by
  have hwrite : e.opening d ++ (body ++ e.closing d ++ after) = e.write d body ++ after := by
    simp only [Enclosure.write, List.append_assoc]
  exact h.append_of_opening
    (opening?_append_of_length_le h.opening (by rw [hwrite]; exact hlong) t)

/-! ## Sources that are cut off -/

theorem Run.filterMap_bracket?_tokens (r : Run) : r.tokens.filterMap Token.bracket? = [] :=
  r.filterMap_tokens fun _ => rfl

/-- Nothing is read in a blank text. -/
theorem Reads.filterMap_bracket?_of_blank {d : Delimiters} {u s : Text} {stream : Stream}
    (h : Reads d u s stream) (hs : ∀ c ∈ s, isBlank c = true) :
    stream.flaw = none ∧ stream.tokens.filterMap Token.bracket? = [] := by
  have hnone : opening? d s = none := by
    have hopen := opening?_blanks d hs []
    rw [List.append_nil] at hopen
    exact hopen
  rw [h.unique (.finished hnone)]
  exact ⟨rfl, Run.filterMap_bracket?_tokens _⟩

theorem Token.bracket?_congr {t t' : Tag} (kind : t'.kind = t.kind) (name : t'.name = t.name) :
    bracket? (.tag t') = bracket? (.tag t) := by
  simp only [bracket?, kind, name]

theorem Tag.pairAfter_congr {t t' : Tag} (kind : t'.kind = t.kind) (name : t'.name = t.name)
    (d : Delimiters) : t'.pairAfter d = t.pairAfter d := by
  simp only [pairAfter, kind, name]

theorem Stream.filterMap_bracket?_cons (gap : Run) (tag : Tag) (s : Stream) :
    (s.cons gap tag).tokens.filterMap Token.bracket? =
      [Token.tag tag].filterMap Token.bracket? ++ s.tokens.filterMap Token.bracket? := by
  rw [cons, List.filterMap_append, gap.filterMap_bracket?_tokens, List.nil_append,
    ← List.singleton_append, List.filterMap_append]

/-- A tag with nothing but blanks behind it is read, whether it has its line to itself or not. -/
theorem Found.exists_reads_of_blank {d d' : Delimiters} {u s gap body after : Text} {e : Enclosure}
    (found : Found d s gap e body after) (hu : Landing u)
    (pair : (tagOf d e (u ++ gap).length body).pairAfter d = .ok d')
    (hblank : ∀ c ∈ after, isBlank c = true) :
    ∃ stream, Reads d u s stream ∧ stream.flaw = none ∧
      stream.tokens.filterMap Token.bracket? =
        [Token.tag (tagOf d e (u ++ gap).length body)].filterMap Token.bracket? := by
  obtain ⟨kept, tag, u', s', hstep⟩ := exists_firstTag hu found
  have htag := hstep.eq_of_found found
  have hkind : tag.kind = (tagOf d e (u ++ gap).length body).kind := by rw [htag]; rfl
  have hname : tag.name = (tagOf d e (u ++ gap).length body).name := by rw [htag]; rfl
  have hsuffix := hstep.suffix_of_found found
  have hrest := reads_ofSource d' hstep.landing s'
  obtain ⟨hflaw, hnone⟩ :=
    hrest.filterMap_bracket?_of_blank fun c hc => hblank c (hsuffix.subset hc)
  refine ⟨_, .tag hstep ((Tag.pairAfter_congr hkind hname d).trans pair) hrest, hflaw, ?_⟩
  rw [Stream.filterMap_bracket?_cons, hnone, List.append_nil]
  simp only [List.filterMap_cons, Token.bracket?_congr hkind hname]

/-- **A step where the source is cut off before a tag further on.** -/
theorem FirstTag.exists_cut {d d' : Delimiters} {u s kept u' s' r' rest : Text} {tag : Tag}
    {stream' : Stream} (h : FirstTag d u s kept tag u' s') (hu : Landing u)
    (pair : tag.pairAfter d = .ok d') (hs' : s' = r' ++ rest) (hne : rest ≠ [])
    (hread : Reads d' u' r' stream') (hflaw : stream'.flaw = none) :
    ∃ r stream, u ++ r = u' ++ r' ∧ Reads d u r stream ∧ stream.flaw = none ∧
      stream.tokens.filterMap Token.bracket? =
        [Token.tag tag].filterMap Token.bracket? ++ stream'.tokens.filterMap Token.bracket? := by
  have hr' : r' <+: s' := ⟨rest, hs'.symm⟩
  cases h with
  | @ownLine padding body lineEnd _ e found alone whole line lineEnd_eq =>
    -- the line end is there in either case, so the tag has its line to itself in either case
    have hsne : s' ≠ [] := fun h => hne (List.append_eq_nil_iff.mp (hs'.symm.trans h)).2
    have hn := OwnLine.lineFeed_mem_of_lineEnd_eq lineEnd_eq hsne
    have hfound := found.cut ((List.prefix_append_right_inj lineEnd).mpr hr')
    rw [OwnLine.alone_append_right hn] at alone
    rw [(OwnLine.trailing_append hn s').2] at lineEnd_eq
    have hstep := FirstTag.ownLine hfound ((OwnLine.alone_append_right hn r').mpr alone) whole line
      ((OwnLine.trailing_append hn r').2.trans lineEnd_eq)
    refine ⟨_, _, ?_, .tag hstep pair hread, hflaw, Stream.filterMap_bracket?_cons _ _ _⟩
    simp only [List.append_assoc]
  | @inline body _ e found alone =>
    have hfound := found.cut hr'
    have happend : u ++ (kept ++ e.write d body ++ r') = u ++ kept ++ e.write d body ++ r' := by
      simp only [List.append_assoc]
    by_cases halone : OwnLine.Alone (e.kindOf body) (u ++ kept) r'
    · -- what is left of the tag's line is padding, and so is all that is left
      have hn : char '\n' ∉ r' := by
        intro hn
        rw [hs', OwnLine.alone_append_right hn] at alone
        exact alone halone
      have hblank : ∀ c ∈ r', isBlank c = true := by
        have hpadding := halone.2.2
        rw [OwnLine.trailing, firstLine_of_notMem hn] at hpadding
        exact fun c hc => OwnLine.isBlank_of_mem_isPadding hpadding hc
      obtain ⟨stream, hread₂, hflaw₂, hbrackets₂⟩ := hfound.exists_reads_of_blank hu pair hblank
      refine ⟨_, stream, happend, hread₂, hflaw₂, ?_⟩
      rw [hbrackets₂, (hread.filterMap_bracket?_of_blank hblank).2, List.append_nil]
    · refine ⟨_, _, happend, .tag (.inline hfound halone) pair hread, hflaw, ?_⟩
      exact Stream.filterMap_bracket?_cons _ _ _

/-- **Where a source is cut off before a tag, the tags before it are read.** Their brackets are the
same. -/
theorem ReadsTo.exists_cut {d d₁ : Delimiters} {u s u₁ s₁ gap rest : Text} {e : Enclosure}
    {ts : List Token} (h : ReadsTo d u s ts d₁ u₁ s₁) (hu : Landing u)
    (hopening : opening? d₁ s₁ = some (gap, e, rest)) :
    ∃ r stream, u ++ r = u₁ ++ gap ∧ Reads d u r stream ∧ stream.flaw = none ∧
      stream.tokens.filterMap Token.bracket? = ts.filterMap Token.bracket? := by
  induction h with
  | refl =>
    exact ⟨gap, _, rfl, .finished (opening?_gap hopening), rfl, Run.filterMap_bracket?_tokens _⟩
  | @tag d d' d₁ u s kept u' s' u₁ s₁ tag ts first pair hto ih =>
    obtain ⟨r', stream', hr', hread, hflaw, hbrackets⟩ := ih first.landing hopening
    have hs' : s' = r' ++ (e.opening d₁ ++ rest) := by
      have htotal := hto.append_eq
      rw [eq_of_opening? hopening, List.append_assoc, ← List.append_assoc, ← hr',
        List.append_assoc] at htotal
      exact (List.append_cancel_left htotal).symm
    have hne : e.opening d₁ ++ rest ≠ [] := fun h =>
      e.opening_ne_nil d₁ (List.append_eq_nil_iff.mp h).1
    obtain ⟨r, stream, hr, hread', hflaw', hbrackets'⟩ :=
      first.exists_cut hu pair hs' hne hread hflaw
    refine ⟨r, stream, hr.trans hr', hread', hflaw', ?_⟩
    rw [hbrackets', hbrackets]
    exact (Stream.filterMap_bracket?_cons ⟨kept, u.length⟩ tag ⟨ts, none⟩).symm

/-! ## Sources that go on -/

theorem Enclosure.opening_infix_write (d : Delimiters) (body after : Text) :
    d.opening <:+: active.write d body ++ after := by
  refine ⟨[], body ++ d.closing ++ after, ?_⟩
  simp only [write, opening, closing, List.nil_append, List.append_assoc]

/-- A tag and what comes behind it are as long as the markers. -/
theorem Enclosure.length_opening_le {d : Delimiters} {body after : Text} {e : Enclosure}
    (hmarker : d.opening <:+: e.write d body ++ after) (hne : body ++ after ≠ [])
    (e' : Enclosure) :
    (e'.opening d).length ≤ (e.write d body ++ after).length := by
  cases e' with
  | active => exact hmarker.length_le
  | triple =>
    have h₁ := List.length_pos_iff.mpr (e.opening_ne_nil d)
    have h₂ := List.length_pos_iff.mpr (e.closing_ne_nil d)
    have h₃ := List.length_pos_iff.mpr hne
    rw [List.length_append] at h₃
    simp only [write, List.length_append]
    show 3 ≤ _
    omega

namespace FirstTag

variable {d d' : Delimiters} {u s kept u' s' : Text} {tag : Tag}

/-- A tag that names another pair is written with the pair in force. So there is a marker of the
pair in force where one of the next pair is still to come. -/
theorem opening_infix_of_found (h : FirstTag d u s kept tag u' s') (pair : tag.pairAfter d = .ok d')
    (hmarker : d'.opening <:+: s') {gap body after : Text} {e : Enclosure}
    (found : Found d s gap e body after) : d.opening <:+: e.write d body ++ after := by
  have hsuffix := h.suffix_of_found found
  rw [h.eq_of_found found] at pair
  cases e with
  | active => exact Enclosure.opening_infix_write d body after
  | triple =>
    have hpair : d' = d := by cases pair; rfl
    rw [← hpair]
    exact hmarker.trans (hsuffix.trans (List.suffix_append _ after)).isInfix

theorem opening_infix (h : FirstTag d u s kept tag u' s') (pair : tag.pairAfter d = .ok d')
    (hmarker : d'.opening <:+: s') : d.opening <:+: s := by
  obtain ⟨gap, e, body, after, found, -⟩ := h.exists_found
  rw [found.eq, List.append_assoc]
  exact (h.opening_infix_of_found pair hmarker found).trans (List.suffix_append _ _).isInfix

/-- **A step is the same whatever follows, when a marker is still to come.** -/
theorem extend_of_marker (h : FirstTag d u s kept tag u' s') (pair : tag.pairAfter d = .ok d')
    (hmarker : d'.opening <:+: s') (t : Text) : FirstTag d u (s ++ t) kept tag u' (s' ++ t) := by
  -- the marker holds something that is not blank, and that settles the line the tag stands on
  obtain ⟨c, hc⟩ := List.exists_mem_of_ne_nil _ d'.isMarker_opening.1
  have hblank := (d'.isMarker_opening.2 c hc).1
  refine h.extend_of_found fun {gap e body after} found => ?_
  have hmem : c ∈ after := (h.suffix_of_found found).subset (hmarker.subset hc)
  have hne : body ++ after ≠ [] := List.ne_nil_of_mem (List.mem_append_right body hmem)
  have hinfix := h.opening_infix_of_found pair hmarker found
  exact ⟨Or.inr ⟨c, hmem, hblank⟩, found.extend (Enclosure.length_opening_le hinfix hne) t⟩

/-- **A tag that closes a block or names a pair is the same whatever follows.** -/
theorem exists_extend (h : FirstTag d u s kept tag u' s') (hu : Landing u)
    (hkind : tag.kind = .closeBlock ∨ tag.kind = .delimiters) (t : Text) :
    d.opening <:+: s ∧ ∃ kept₂ tag₂ u₂ s₂, FirstTag d u (s ++ t) kept₂ tag₂ u₂ s₂ ∧
      tag₂.kind = tag.kind ∧ tag₂.name = tag.name ∧ tag₂.start = tag.start := by
  obtain ⟨gap, e, body, after, found, rfl, -, -⟩ := h.exists_found
  cases e with
  | triple => rcases hkind with hkind | hkind <;> cases hkind
  | active =>
    have hbody : body ≠ [] := by
      rintro rfl
      rcases hkind with hkind | hkind <;> cases hkind
    have hinfix := Enclosure.opening_infix_write d body after
    have hfound := found.extend (Enclosure.length_opening_le hinfix (by simp [hbody])) t
    obtain ⟨kept₂, tag₂, u₂, s₂, hstep⟩ := exists_firstTag hu hfound
    refine ⟨?_, kept₂, tag₂, u₂, s₂, hstep, ?_⟩
    · rw [found.eq, List.append_assoc]
      exact hinfix.trans (List.suffix_append _ _).isInfix
    · rw [hstep.eq_of_found hfound, List.length_append]
      exact ⟨rfl, rfl, rfl⟩

end FirstTag

/-- **Reading gets as far whatever follows, when a marker is still to come.** -/
theorem ReadsTo.extend {d d₁ : Delimiters} {u s u₁ s₁ : Text} {ts : List Token}
    (h : ReadsTo d u s ts d₁ u₁ s₁) (hmarker : d₁.opening <:+: s₁) (t : Text) :
    d.opening <:+: s ∧ ReadsTo d u (s ++ t) ts d₁ u₁ (s₁ ++ t) := by
  induction h with
  | refl => exact ⟨hmarker, .refl⟩
  | tag first pair rest ih =>
    obtain ⟨hmarker', hrest⟩ := ih hmarker
    exact ⟨first.opening_infix pair hmarker',
      .tag (first.extend_of_marker pair hmarker' t) pair hrest⟩

/-! ## Faults -/

/-- Does the flaw say that a block is not closed? -/
def FlawKind.IsUnclosedBlock : FlawKind → Prop
  | .unclosedBlock _ => True
  | .unclosedTag _ _ | .badDelimiters _ | .strayClose _ _ => False

/-- Does the flaw show in a tag that is complete? Nothing that comes behind the tag mends it. -/
def FlawKind.IsFinal : FlawKind → Prop
  | .strayClose _ _ | .badDelimiters _ => True
  | .unclosedTag _ _ | .unclosedBlock _ => False

theorem Tag.kind_of_pairAfter_eq_error {t : Tag} {d : Delimiters} {fault : Delimiters.Fault}
    (h : t.pairAfter d = .error fault) : t.kind = .delimiters := by
  unfold pairAfter at h
  split at h
  · next hk => exact hk
  · cases h

/-- A stream that leaves blocks open and shows nothing else has a tree, or a block that is not
closed. -/
theorem Stream.build_of_leavesOpen {s : Stream} {stack : List Tag} (h : LeavesOpen s.tokens stack)
    (hs : s.flaw = none) :
    (∃ root, s.build = .ok root) ∨ ∃ flaw, s.build = .error flaw ∧ flaw.kind.IsUnclosedBlock := by
  obtain ⟨b, hb, -⟩ := Builder.feedAll_leavesOpen h
  have hbuild : s.build = b.finish := by
    unfold build
    rw [hb]
    simp only [hs]
  rw [hbuild]
  unfold Builder.finish
  split
  · exact Or.inl ⟨_, rfl⟩
  · exact Or.inr ⟨_, rfl, True.intro⟩

/-- **Up to the tag that shows the first flaw the reading leaves blocks open**, and nothing else. -/
theorem Reads.exists_readsTo_firstFlaw {d : Delimiters} {u s : Text} {stream : Stream}
    (h : Reads d u s stream) {flaw : Flaw} (hflaw : stream.FirstFlaw flaw)
    (hkind : ¬ flaw.kind.IsUnclosedBlock) :
    ∃ ts stack d₁ u₁ s₁ gap e rest, ReadsTo d u s ts d₁ u₁ s₁ ∧ LeavesOpen ts stack ∧
      opening? d₁ s₁ = some (gap, e, rest) ∧ flaw.position = (u₁ ++ gap).length := by
  cases hflaw with
  | strayClose tokens open_ closes name =>
    obtain ⟨ts, d₁, u₁, s₁, kept, u₂, s₂, hto, first, rfl⟩ := h.exists_readsTo_tag tokens
    obtain ⟨gap, e, rest, hopening, hstart⟩ := first.exists_opening
    have hts : ts.filterMap Token.bracket? =
        (ts ++ (Run.mk kept u₁.length).tokens).filterMap Token.bracket? := by
      rw [List.filterMap_append, Run.filterMap_bracket?_tokens, List.append_nil]
    obtain ⟨stack, hopen, -⟩ := open_.exists_of_bracket?_eq hts
    exact ⟨ts, stack, d₁, u₁, s₁, gap, e, rest, hto, hopen, hopening, hstart⟩
  | @unreadable stack _ open_ stops =>
    obtain ⟨ts, d₁, u₁, s₁, hto, hstop⟩ := h.exists_readsTo_flaw stops
    rcases hstop with ⟨gap, e, rest, hopening, htokens, rfl⟩ |
      ⟨kept, tag, u₂, s₂, fault, first, pair, htokens, rfl⟩
    · rw [htokens] at open_
      exact ⟨ts, stack, d₁, u₁, s₁, gap, e, rest, hto, open_, hopening, rfl⟩
    · -- a tag that names a pair is no bracket, so the same blocks are open before it
      obtain ⟨gap, e, rest, hopening, hstart⟩ := first.exists_opening
      have hbracket : Token.bracket? (.tag tag) = none := by
        rw [Token.bracket?, Tag.kind_of_pairAfter_eq_error pair]
        rfl
      have hts : ts.filterMap Token.bracket? = stream.tokens.filterMap Token.bracket? := by
        rw [htokens, List.filterMap_append, List.filterMap_append, Run.filterMap_bracket?_tokens,
          List.filterMap_cons_none hbracket, List.filterMap_nil, List.append_nil, List.append_nil]
      obtain ⟨stack', hopen, -⟩ := open_.exists_of_bracket?_eq hts
      exact ⟨ts, stack', d₁, u₁, s₁, gap, e, rest, hto, hopen, hopening, hstart⟩
  | unclosedBlock open_ finished => exact absurd True.intro hkind

/-- **Before the flaw that shows first there is none**, apart from blocks that are not closed. -/
theorem Stream.build_take {source : Text} {d : Delimiters} {flaw : Flaw}
    (h : (ofSource source d 0).build = .error flaw) (hkind : ¬ flaw.kind.IsUnclosedBlock) :
    (∃ root, (ofSource (source.take flaw.position) d 0).build = .ok root) ∨
      ∃ flaw', (ofSource (source.take flaw.position) d 0).build = .error flaw' ∧
        flaw'.kind.IsUnclosedBlock := by
  obtain ⟨ts, stack, d₁, u₁, s₁, gap, e, rest, hto, hopen, hopening, hposition⟩ :=
    (reads_ofSource d landing_nil source).exists_readsTo_firstFlaw (build_eq_error_iff.mp h) hkind
  obtain ⟨r, stream, hr, hread, hflaw, hbrackets⟩ := hto.exists_cut landing_nil hopening
  have htake : source.take flaw.position = r := by
    have hsource : u₁ ++ s₁ = source := hto.append_eq
    rw [hposition, ← hsource, eq_of_opening? hopening, List.append_assoc gap,
      ← List.append_assoc u₁, List.take_left, ← hr, List.nil_append]
  obtain ⟨stack', hopen', -⟩ := hopen.exists_of_bracket?_eq hbrackets
  have hstream : stream = ofSource r d 0 := hread.eq_ofSource
  rw [htake, ← hstream]
  exact build_of_leavesOpen hopen' hflaw

/-- **What shows first in a tag that is complete shows first when the source goes on, too.** -/
theorem Reads.firstFlaw_of_append {d : Delimiters} {u s t : Text} {stream whole : Stream}
    (h : Reads d u s stream) (hu : Landing u) {flaw : Flaw} (hflaw : stream.FirstFlaw flaw)
    (hkind : flaw.kind.IsFinal) (hwhole : Reads d u (s ++ t) whole) : whole.FirstFlaw flaw := by
  cases hflaw with
  | strayClose tokens open_ closes name =>
    obtain ⟨ts, d₁, u₁, s₁, kept, u₂, s₂, hto, first, rfl⟩ := h.exists_readsTo_tag tokens
    obtain ⟨hmarker, kept', tag, u₂', s₂', first', kind, hname, hstart⟩ :=
      first.exists_extend (hto.landing hu) (Or.inl closes) t
    have pair : tag.pairAfter d₁ = .ok d₁ := by
      rw [Tag.pairAfter, kind, closes]
      rfl
    have hread := (hto.extend hmarker t).2.reads (.tag first' pair
      (reads_ofSource d₁ first'.landing s₂'))
    -- the text before the tag may be another, when the tag has no longer its line to itself
    have hbefore : (ts ++ (Run.mk kept' u₁.length).tokens).filterMap Token.bracket? =
        (ts ++ (Run.mk kept u₁.length).tokens).filterMap Token.bracket? := by
      simp only [List.filterMap_append, Run.filterMap_bracket?_tokens]
    obtain ⟨stack', hopen, hhead⟩ := open_.exists_of_bracket?_eq hbefore
    rw [hwhole.unique hread, ← hhead, ← hname, ← hstart]
    refine .strayClose (List.append_assoc ts _ _).symm hopen (kind.trans closes) ?_
    rw [hhead, hname]
    exact name
  | unreadable open_ stops =>
    obtain ⟨ts, d₁, u₁, s₁, hto, hstop⟩ := h.exists_readsTo_flaw stops
    rcases hstop with ⟨gap, e, rest, hopening, htokens, rfl⟩ |
      ⟨kept, tag, u₂, s₂, fault, first, pair, htokens, rfl⟩
    · exact absurd hkind id
    · obtain ⟨hmarker, kept', tag', u₂', s₂', first', kind, hname, hstart⟩ :=
        first.exists_extend (hto.landing hu) (Or.inr (Tag.kind_of_pairAfter_eq_error pair)) t
      have hread := (hto.extend hmarker t).2.reads (.refused first'
        ((Tag.pairAfter_congr kind hname d₁).trans pair))
      have htokens' : (ts ++ ((Run.mk kept' u₁.length).tokens ++ [Token.tag tag'])).filterMap
          Token.bracket? = stream.tokens.filterMap Token.bracket? := by
        rw [htokens]
        simp only [List.filterMap_append, Run.filterMap_bracket?_tokens, List.filterMap_cons,
          Token.bracket?_congr kind hname]
      obtain ⟨stack', hopen, -⟩ := open_.exists_of_bracket?_eq htokens'
      rw [hwhole.unique hread]
      exact .unreadable hopen (by rw [hstart]; rfl)
  | unclosedBlock open_ finished => exact absurd hkind id

namespace Template

/-- **A report points at the first fault, and the fault is final.** It names the template; it points
into the source, at an opening marker of the pair in force or at three braces. Up to there nothing
is wrong with the source, apart from blocks that are not closed yet; and what shows in a tag that is
complete is reported whatever follows. -/
theorem parse_error_first {name source : Text} {d : Delimiters} {e : ParseError}
    (h : parse name source d = .error e) :
    e.template = some name ∧
    e.place.position < source.length ∧
    e.place = Place.ofPosition source e.place.position ∧
    ([char '{', '{', '{'] <+: source.drop e.place.position ∨
      ((Stream.ofSource source d 0).pairAt d e.place.position).opening <+:
        source.drop e.place.position) ∧
    (¬ e.kind.IsUnclosedBlock →
      (∃ t, parse name (source.take e.place.position) d = .ok t) ∨
        ∃ e', parse name (source.take e.place.position) d = .error e' ∧
          e'.kind.IsUnclosedBlock) ∧
    (e.kind.IsFinal → ∀ t, parse name (source ++ t) d = .error e) := by
  obtain ⟨flaw, hflaw, rfl⟩ := parse_eq_error_iff.mp h
  have hfirst := Stream.build_eq_error_iff.mp hflaw
  have hread := reads_ofSource d landing_nil source
  refine ⟨rfl, Stream.position_lt_of_build hflaw, rfl, ?_, fun hkind => ?_, fun hkind t => ?_⟩
  · obtain ⟨e, hopening⟩ := hread.exists_opening_prefix hfirst.tagAt
    cases e with
    | triple => exact Or.inl hopening
    | active => exact Or.inr hopening
  · rcases Stream.build_take hflaw hkind with ⟨root, hroot⟩ | ⟨flaw', hflaw', hkind'⟩
    · exact Or.inl ⟨⟨name, root⟩, parse_eq_ok_iff.mpr ⟨rfl, hroot⟩⟩
    · exact Or.inr ⟨_, parse_eq_error_iff.mpr ⟨flaw', hflaw', rfl⟩, hkind'⟩
  · have hwhole := reads_ofSource d landing_nil (source ++ t)
    have hflaw' := hread.firstFlaw_of_append landing_nil hfirst hkind hwhole
    refine parse_eq_error_iff.mpr ⟨flaw, Stream.build_eq_error_iff.mpr hflaw', ?_⟩
    have hle := (Stream.position_lt_of_build hflaw).le
    rw [ParseError.ofFlaw, ParseError.ofFlaw,
      Place.ofPosition_congr (List.take_append_of_le_length hle)]

/-- A pair is named, a block is opened, and the tag at the end closes another one. The tag has its
line to itself, unless the line goes on. -/
theorem parse_error_first_otherBlock :
    let source : Text := "\x7b\x7b=<% %>=\x7d\x7d\n<%#a%>\n  <%/b%>".toText
    let e : ParseError := ⟨.strayClose ['b'] (some ['a']), ⟨21, 3, 3⟩, some ['t']⟩
    parse ['t'] source .standard = .error e ∧ ¬ e.kind.IsUnclosedBlock ∧ e.kind.IsFinal ∧
      ((∃ t, parse ['t'] (source.take 21) .standard = .ok t) ∨
        ∃ e', parse ['t'] (source.take 21) .standard = .error e' ∧ e'.kind.IsUnclosedBlock) ∧
      ∀ t, parse ['t'] (source ++ t) .standard = .error e := by
  intro source e
  have hparse : parse ['t'] source .standard = .error e := by decide +kernel
  obtain ⟨-, -, -, -, hbefore, hfinal⟩ := parse_error_first hparse
  have hblock : ¬ e.kind.IsUnclosedBlock := id
  exact ⟨hparse, hblock, True.intro, hbefore hblock, hfinal True.intro⟩

end Template
end Mustache
