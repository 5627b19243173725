import Mustache.Proofs.Template.Seam

/-!
# How far a reading gets

A reading goes over one tag after another. `ReadsTo` says what it has read when it gets to a certain
place, and with which pair it goes on from there; what comes behind that place is left open. The
offsets of tags grow on the way, so it can be told from the stream of a source which pair is in
force at an offset (`Stream.pairAt`): there the source has an opening marker of that pair, or three
braces, wherever a tag begins.

* `ReadsTo.reads` — a reading that is gone on with
* `Reads.exists_readsTo_tag`, `Reads.exists_readsTo_flaw` — every tag is got to, and what stops the
  reading
* `Reads.exists_opening_prefix` — where a tag begins there is an opening marker
* `Stream.FirstFlaw.tagAt` — where a flaw shows a tag begins
-/

namespace Mustache

open Text

/-- `ReadsTo d u s ts d' u' s'`: when `u` has been read and `d` is in force, reading goes over tags
of `s`, with the tokens `ts`, to where `u'` has been read, `s'` is left and `d'` is in force. -/
inductive ReadsTo : Delimiters → Text → Text → List Token → Delimiters → Text → Text → Prop
  | refl {d : Delimiters} {u s : Text} : ReadsTo d u s [] d u s
  | tag {d d' d'' : Delimiters} {u s kept u' s' u'' s'' : Text} {tag : Tag} {ts : List Token}
      (first : FirstTag d u s kept tag u' s') (pair : tag.pairAfter d = .ok d')
      (rest : ReadsTo d' u' s' ts d'' u'' s'') :
      ReadsTo d u s ((Run.mk kept u.length).tokens ++ .tag tag :: ts) d'' u'' s''

namespace ReadsTo

variable {d d' : Delimiters} {u s u' s' : Text} {ts : List Token}

theorem append_eq (h : ReadsTo d u s ts d' u' s') : u' ++ s' = u ++ s := by
  induction h with
  | refl => rfl
  | tag first pair rest ih => rw [ih, first.append_eq]

theorem landing (h : ReadsTo d u s ts d' u' s') (hu : Landing u) : Landing u' := by
  induction h with
  | refl => exact hu
  | tag first pair rest ih => exact ih first.landing

/-- **A reading can be gone on with.** -/
theorem reads (h : ReadsTo d u s ts d' u' s') {stream : Stream} (hrest : Reads d' u' s' stream) :
    Reads d u s ⟨ts ++ stream.tokens, stream.flaw⟩ := by
  induction h with
  | refl => exact hrest
  | @tag d d' d'' u s kept u' s' u'' s'' tag ts first pair rest ih =>
    have hread := Reads.tag first pair (ih hrest)
    rw [List.append_assoc, List.cons_append]
    exact hread

end ReadsTo

/-- There is one reading. -/
theorem Reads.unique {d : Delimiters} {u s : Text} {stream stream' : Stream}
    (h : Reads d u s stream) (h' : Reads d u s stream') : stream = stream' :=
  h.eq_ofSource.trans h'.eq_ofSource.symm

/-! ## Getting to a tag -/

theorem Run.tag_notMem_tokens (r : Run) (tag : Tag) : Token.tag tag ∉ r.tokens := by
  unfold tokens
  split
  · exact List.not_mem_nil
  · intro h
    cases List.mem_singleton.mp h

theorem Stream.tag_mem_cons {gap : Run} {first tag : Tag} {rest : Stream}
    (h : .tag tag ∈ (rest.cons gap first).tokens) : tag = first ∨ .tag tag ∈ rest.tokens := by
  rcases List.mem_append.mp h with h | h
  · exact absurd h (gap.tag_notMem_tokens tag)
  · rcases List.mem_cons.mp h with heq | h
    · exact .inl (Token.tag.inj heq)
    · exact .inr h

/-- A tag of a stream is the first one, or one of those behind it. -/
theorem Stream.tokens_cons_cases {gap : Run} {first tag : Tag} {rest : Stream}
    {before after : List Token} (h : (rest.cons gap first).tokens = before ++ .tag tag :: after) :
    (before = gap.tokens ∧ first = tag) ∨
      ∃ before', rest.tokens = before' ++ .tag tag :: after ∧
        before = gap.tokens ++ .tag first :: before' := by
  have hgap : gap.tokens ++ .tag first :: rest.tokens = before ++ .tag tag :: after := h
  rcases List.append_eq_append_iff.mp hgap with ⟨k, hk, hrest⟩ | ⟨k, hk, hrest⟩
  · cases k with
    | nil =>
      rw [List.append_nil] at hk
      exact Or.inl ⟨hk, by injection hrest with h; injection h⟩
    | cons t k =>
      injection hrest with ht hrest
      rw [← ht] at hk
      exact Or.inr ⟨k, hrest, hk⟩
  · cases k with
    | nil =>
      rw [List.append_nil] at hk
      exact Or.inl ⟨hk.symm, by injection hrest with h; injection h with h; exact h.symm⟩
    | cons t k =>
      injection hrest with ht
      rw [← ht] at hk
      have hmem : Token.tag tag ∈ gap.tokens := by rw [hk]; simp
      exact absurd hmem (gap.tag_notMem_tokens tag)

/-- **Every tag of a reading is got to.** -/
theorem Reads.exists_readsTo_tag {d : Delimiters} {u s : Text} {stream : Stream}
    (h : Reads d u s stream) {before after : List Token} {tag : Tag}
    (htokens : stream.tokens = before ++ .tag tag :: after) :
    ∃ ts d₁ u₁ s₁ kept u₂ s₂, ReadsTo d u s ts d₁ u₁ s₁ ∧ FirstTag d₁ u₁ s₁ kept tag u₂ s₂ ∧
      before = ts ++ (Run.mk kept u₁.length).tokens := by
  induction h generalizing before with
  | @finished d u s none_left =>
    have hmem : Token.tag tag ∈ (Run.mk s u.length).tokens := by
      rw [show (Run.mk s u.length).tokens = _ from htokens]
      simp
    exact absurd hmem (Run.tag_notMem_tokens _ tag)
  | unclosed opening closing => cases before <;> cases htokens
  | refused first pair =>
    rcases Stream.tokens_cons_cases htokens with ⟨rfl, rfl⟩ | ⟨before', hrest, -⟩
    · exact ⟨_, _, _, _, _, _, _, .refl, first, rfl⟩
    · cases before' <;> cases hrest
  | tag first pair rest ih =>
    rcases Stream.tokens_cons_cases htokens with ⟨rfl, rfl⟩ | ⟨before', hrest, rfl⟩
    · exact ⟨_, _, _, _, _, _, _, .refl, first, rfl⟩
    · obtain ⟨ts, d₁, u₁, s₁, kept, u₂, s₂, hto, hfirst, rfl⟩ := ih hrest
      refine ⟨_, _, _, _, _, _, _, .tag first pair hto, hfirst, ?_⟩
      rw [List.append_assoc, List.cons_append]

/-- **What stops a reading is got to**: a tag that is not closed, or one that names no pair. -/
theorem Reads.exists_readsTo_flaw {d : Delimiters} {u s : Text} {stream : Stream}
    (h : Reads d u s stream) {flaw : Flaw} (hflaw : stream.flaw = some flaw) :
    ∃ ts d₁ u₁ s₁, ReadsTo d u s ts d₁ u₁ s₁ ∧
      ((∃ gap e rest, opening? d₁ s₁ = some (gap, e, rest) ∧ stream.tokens = ts ∧
          flaw = ⟨.unclosedTag ((e.opening d₁ ++ rest).take Scan.excerptLength) (e.closing d₁),
            (u₁ ++ gap).length⟩) ∨
        ∃ kept tag u₂ s₂ fault, FirstTag d₁ u₁ s₁ kept tag u₂ s₂ ∧
          tag.pairAfter d₁ = .error fault ∧
          stream.tokens = ts ++ ((Run.mk kept u₁.length).tokens ++ [.tag tag]) ∧
          flaw = ⟨.badDelimiters fault, tag.start⟩) := by
  induction h with
  | finished none_left => cases hflaw
  | unclosed opening closing =>
    cases hflaw
    exact ⟨_, _, _, _, .refl, Or.inl ⟨_, _, _, opening, rfl, rfl⟩⟩
  | refused first pair =>
    cases hflaw
    exact ⟨_, _, _, _, .refl, Or.inr ⟨_, _, _, _, _, first, pair, rfl, rfl⟩⟩
  | tag first pair rest ih =>
    obtain ⟨ts, d₁, u₁, s₁, hto, hstop⟩ := ih hflaw
    refine ⟨_, _, _, _, .tag first pair hto, ?_⟩
    rcases hstop with ⟨gap, e, text, hopening, htokens, hflaw⟩ |
      ⟨kept, tag, u₂, s₂, fault, hfirst, hpair, htokens, hflaw⟩
    · refine Or.inl ⟨gap, e, text, hopening, ?_, hflaw⟩
      rw [Stream.cons, htokens]
    · refine Or.inr ⟨kept, tag, u₂, s₂, fault, hfirst, hpair, ?_, hflaw⟩
      rw [Stream.cons, htokens, ← List.cons_append, ← List.append_assoc]

/-! ## Offsets -/

namespace FirstTag

variable {d : Delimiters} {u s kept u' s' : Text} {tag : Tag}

/-- A tag begins where its opening marker is found. -/
theorem exists_opening (h : FirstTag d u s kept tag u' s') :
    ∃ gap e rest, opening? d s = some (gap, e, rest) ∧ tag.start = (u ++ gap).length := by
  obtain ⟨gap, e, body, after, found, htag, -, -⟩ := h.exists_found
  refine ⟨gap, e, _, found.opening, ?_⟩
  rw [← htag, List.length_append]
  rfl

theorem kept_le_start (h : FirstTag d u s kept tag u' s') : (u ++ kept).length ≤ tag.start := by
  cases h with
  | inline found alone => exact Nat.le_refl _
  | ownLine found alone whole line lineEnd_eq =>
    simp only [Tag.withLine, tagOf, List.length_append]
    omega

theorem start_lt_stop (h : FirstTag d u s kept tag u' s') : tag.start < tag.stop := by
  obtain ⟨gap, e, body, after, found, rfl, -, -⟩ := h.exists_found
  have hpos := List.length_pos_iff.mpr (e.opening_ne_nil d)
  simp only [Tag.onLine, tagOf]
  omega

theorem stop_le (h : FirstTag d u s kept tag u' s') : tag.stop ≤ u'.length := by
  cases h with
  | @inline body _ e found alone => exact Nat.le_of_eq (stop_tagOf d e _ body)
  | @ownLine padding body lineEnd _ e found alone whole line lineEnd_eq =>
    have hstop := stop_tagOf d e (u ++ (kept ++ padding)) body
    have hlen : (u ++ (kept ++ padding) ++ e.write d body ++ lineEnd).length =
        (u ++ (kept ++ padding) ++ e.write d body).length + lineEnd.length := List.length_append
    exact (Nat.le_of_eq hstop).trans (hlen ▸ Nat.le_add_right _ _)

/-- Reading goes on behind what a step has read. -/
theorem next_eq (h : FirstTag d u s kept tag u' s') : tag.next = u'.length := by
  obtain ⟨gap, e, body, after, -, -, -, hnext⟩ := h.exists_found
  exact hnext

theorem length_le (h : FirstTag d u s kept tag u' s') : u.length ≤ u'.length := by
  have h₁ := h.kept_le_start
  have h₂ := h.start_lt_stop
  have h₃ := h.stop_le
  rw [List.length_append] at h₁
  omega

end FirstTag

theorem ReadsTo.length_le {d d' : Delimiters} {u s u' s' : Text} {ts : List Token}
    (h : ReadsTo d u s ts d' u' s') : u.length ≤ u'.length := by
  induction h with
  | refl => exact Nat.le_refl _
  | tag first pair rest ih => exact first.length_le.trans ih

/-- No tag begins before the first opening marker. -/
theorem Reads.gap_lt_stop {d : Delimiters} {u s gap text : Text} {e : Enclosure} {stream : Stream}
    (h : Reads d u s stream) (hopening : opening? d s = some (gap, e, text)) {tag : Tag}
    (htag : .tag tag ∈ stream.tokens) : (u ++ gap).length < tag.stop := by
  have hfirst {kept u' s' : Text} {tag : Tag} (first : FirstTag d u s kept tag u' s') :
      (u ++ gap).length < tag.stop := by
    obtain ⟨gap', e', text', hopening', hstart⟩ := first.exists_opening
    rw [hopening'] at hopening
    cases hopening
    rw [← hstart]
    exact first.start_lt_stop
  obtain ⟨before, after, htokens⟩ := List.append_of_mem htag
  obtain ⟨ts, d₁, u₁, s₁, kept, u₂, s₂, hto, last, -⟩ := h.exists_readsTo_tag htokens
  cases hto with
  | refl => exact hfirst last
  | tag first pair rest =>
    calc (u ++ gap).length
        ≤ u₁.length := (hfirst first).le.trans (first.stop_le.trans rest.length_le)
      _ ≤ (u₁ ++ kept).length := by rw [List.length_append]; exact Nat.le_add_right _ _
      _ < tag.stop := last.kept_le_start.trans_lt last.start_lt_stop

/-! ## The pair in force at an offset -/

namespace Stream

/-- The pair in force at an offset: the last one that a tag before it has named. -/
def pairAt (d : Delimiters) (s : Stream) (p : Nat) : Delimiters :=
  ((s.tokens.filter (·.stop ≤ p)).filterMap Token.pair?).getLastD d

/-- Before the first tag the first pair is in force. -/
theorem pairAt_of_lt {s : Stream} {p : Nat} (h : ∀ tag, .tag tag ∈ s.tokens → p < tag.stop)
    (d : Delimiters) : s.pairAt d p = d := by
  have hnone : (s.tokens.filter (·.stop ≤ p)).filterMap Token.pair? = [] := by
    rw [List.filterMap_eq_nil_iff]
    intro t ht
    rw [List.mem_filter, decide_eq_true_iff] at ht
    cases t with
    | run r => rfl
    | tag tag => exact absurd ht.2 (Nat.not_le.mpr (h tag ht.1))
  rw [pairAt, hnone]
  rfl

theorem pairAt_cons {d d' : Delimiters} {tag : Tag} (h : tag.pairAfter d = .ok d') {p : Nat}
    (hp : tag.stop ≤ p) (gap : Run) (s : Stream) : (s.cons gap tag).pairAt d p = s.pairAt d' p := by
  have hgap : (gap.tokens.filter (·.stop ≤ p)).filterMap Token.pair? = [] := by
    rw [List.filterMap_eq_nil_iff]
    intro t ht
    cases t with
    | run r => rfl
    | tag tag => exact absurd (List.mem_filter.mp ht |>.1) (gap.tag_notMem_tokens tag)
  have htag : (Token.tag tag :: s.tokens).filter (·.stop ≤ p) =
      .tag tag :: s.tokens.filter (·.stop ≤ p) := List.filter_cons_of_pos (decide_eq_true hp)
  rw [pairAt, cons, List.filter_append, List.filterMap_append, hgap, List.nil_append, htag,
    getLastD_pair? h]
  rfl

/-- A tag begins at the offset: one of those that are read, or one that stops the reading. -/
def TagAt (s : Stream) (p : Nat) : Prop :=
  (∃ tag, .tag tag ∈ s.tokens ∧ tag.start = p) ∨ ∃ flaw, s.flaw = some flaw ∧ flaw.position = p

end Stream

namespace Reads

variable {d : Delimiters} {u s : Text} {stream : Stream}

/-- **Where a tag begins a reading gets to its opening marker.** -/
theorem exists_readsTo (h : Reads d u s stream) {p : Nat} (hp : stream.TagAt p) :
    ∃ ts d₁ u₁ s₁ gap e rest, ReadsTo d u s ts d₁ u₁ s₁ ∧
      opening? d₁ s₁ = some (gap, e, rest) ∧ p = (u₁ ++ gap).length := by
  rcases hp with ⟨tag, htag, rfl⟩ | ⟨flaw, hflaw, rfl⟩
  · obtain ⟨before, after, htokens⟩ := List.append_of_mem htag
    obtain ⟨ts, d₁, u₁, s₁, kept, u₂, s₂, hto, first, -⟩ := h.exists_readsTo_tag htokens
    obtain ⟨gap, e, rest, hopening, hstart⟩ := first.exists_opening
    exact ⟨ts, d₁, u₁, s₁, gap, e, rest, hto, hopening, hstart⟩
  · obtain ⟨ts, d₁, u₁, s₁, hto, hstop⟩ := h.exists_readsTo_flaw hflaw
    rcases hstop with ⟨gap, e, rest, hopening, -, rfl⟩ |
      ⟨kept, tag, u₂, s₂, fault, first, -, -, rfl⟩
    · exact ⟨ts, d₁, u₁, s₁, gap, e, rest, hto, hopening, rfl⟩
    · obtain ⟨gap, e, rest, hopening, hstart⟩ := first.exists_opening
      exact ⟨ts, d₁, u₁, s₁, gap, e, rest, hto, hopening, hstart⟩

/-- The pair that a reading gets to a place with is in force up to the next tag. -/
theorem pairAt_eq (h : Reads d u s stream) {d₁ : Delimiters} {u₁ s₁ : Text} {ts : List Token}
    (hto : ReadsTo d u s ts d₁ u₁ s₁) {p : Nat} (hp : u₁.length ≤ p)
    (hbehind : ∀ rest tag, Reads d₁ u₁ s₁ rest → .tag tag ∈ rest.tokens → p < tag.stop) :
    stream.pairAt d p = d₁ := by
  induction hto generalizing stream with
  | refl => exact Stream.pairAt_of_lt (fun tag htag => hbehind stream tag h htag) _
  | @tag d d' _ u s kept u' s' _ _ tag ts first pair rest ih =>
    have hrest := reads_ofSource d' first.landing s'
    rw [h.unique (.tag first pair hrest),
      Stream.pairAt_cons pair (first.stop_le.trans (rest.length_le.trans hp))]
    exact ih hrest hp hbehind

/-- **Where a tag begins, the source has an opening marker of the pair in force, or three
braces.** -/
theorem exists_opening_prefix (h : Reads d u s stream) {p : Nat} (hp : stream.TagAt p) :
    ∃ e : Enclosure, e.opening (stream.pairAt d p) <+: (u ++ s).drop p := by
  obtain ⟨ts, d₁, u₁, s₁, gap, e, rest, hto, hopening, rfl⟩ := h.exists_readsTo hp
  have hpair : stream.pairAt d (u₁ ++ gap).length = d₁ := by
    refine h.pairAt_eq hto ?_ fun rest tag hrest htag => hrest.gap_lt_stop hopening htag
    rw [List.length_append]
    exact Nat.le_add_right _ _
  have hsource : u ++ s = (u₁ ++ gap) ++ (e.opening d₁ ++ rest) := by
    rw [← hto.append_eq, eq_of_opening? hopening]
    simp only [List.append_assoc]
  rw [hpair, hsource, List.drop_left]
  exact ⟨e, List.prefix_append _ _⟩

end Reads

/-! ## Where flaws show -/

/-- A block that a row leaves open begins with a tag of the row. -/
theorem LeavesOpen.mem {ts : List Token} {stack : List Tag} (h : LeavesOpen ts stack) {tag : Tag}
    (htag : tag ∈ stack) : .tag tag ∈ ts := by
  induction h with
  | nested nested => cases htag
  | @opened ts us stack t _ opens inside ih =>
    rcases List.mem_cons.mp htag with rfl | htag
    · exact List.mem_append_right ts List.mem_cons_self
    · exact List.mem_append_left _ (ih htag)

/-- **A flaw shows where a tag begins.** -/
theorem Stream.FirstFlaw.tagAt {s : Stream} {flaw : Flaw} (h : s.FirstFlaw flaw) :
    s.TagAt flaw.position := by
  cases h with
  | @strayClose before after tag stack tokens open_ closes name =>
    refine Or.inl ⟨tag, ?_, rfl⟩
    rw [tokens]
    exact List.mem_append_right before List.mem_cons_self
  | unreadable open_ stops => exact Or.inr ⟨flaw, stops, rfl⟩
  | unclosedBlock open_ finished => exact Or.inl ⟨_, open_.mem List.mem_cons_self, rfl⟩

/-- Every tag begins within the source. -/
theorem Reads.tagAt_lt {d : Delimiters} {u s : Text} {stream : Stream} (h : Reads d u s stream)
    {p : Nat} (hp : stream.TagAt p) : p < (u ++ s).length := by
  obtain ⟨e, rest, hrest⟩ := h.exists_opening_prefix hp
  have hlen := congrArg List.length hrest
  have hpos := List.length_pos_iff.mpr (e.opening_ne_nil (stream.pairAt d p))
  rw [List.length_append, List.length_drop] at hlen
  omega

/-- A flaw shows within the source. -/
theorem Stream.position_lt_of_build {source : Text} {d : Delimiters} {flaw : Flaw}
    (h : (ofSource source d 0).build = .error flaw) : flaw.position < source.length :=
  (reads_ofSource d landing_nil source).tagAt_lt (build_eq_error_iff.mp h).tagAt

end Mustache
