import Mustache.Proofs.Token.Search
import Mustache.Template.Stream

/-!
# The tokens of a scan tile the source

The tokens of a scan lie end to end: the first begins where the scan began, each one where the one
before it ends. Text lies between tags only, and no tag could have begun in it; a tag goes from the
first opening after the token before it to the first closing marker behind that opening. The tiles
reach the end of the source, or the tag that is never closed.

* `Tiles.gap` — text in front of tiles makes one tile, or none when it is empty
* `Tag.exact_of_found` — a tag that is found first is exact
* `Scan.tilesFrom_ofSource` — the tokens of a scan are a tiling, and where it ends
-/

namespace Mustache

open Text

/-! ## Places in a source -/

namespace Text

/-- The part of a text from one offset up to another. -/
def slice (source : Text) (i j : Nat) : Text := (source.drop i).take (j - i)

/-- Of the places from `p` on where `m` occurs in the source, `k` is the first. -/
structure FirstFrom (source m : Text) (p k : Nat) : Prop where
  le : p ≤ k
  occurs : m <+: source.drop k
  first : ∀ i, p ≤ i → i < k → ¬ m <+: source.drop i

theorem slice_of_drop_eq {source s t : Text} {p : Nat} (h : source.drop p = s ++ t) :
    slice source p (p + s.length) = s := by
  rw [slice, h, Nat.add_sub_cancel_left, List.take_left]

theorem slice_append (u s t : Text) : slice (u ++ s ++ t) u.length (u ++ s).length = s := by
  rw [List.length_append]
  apply slice_of_drop_eq (t := t)
  rw [List.append_assoc, List.drop_left]

theorem drop_add_of_drop_eq {source s t : Text} {p : Nat} (h : source.drop p = s ++ t) :
    source.drop (p + s.length) = t := by
  rw [← List.drop_drop, h, List.drop_left]

/-- What is cut at is the first occurrence. -/
theorem firstFrom_of_cut? {source m rest body after : Text} {p : Nat} (h : source.drop p = rest)
    (hc : cut? m rest = some (body, after)) : FirstFrom source m p (p + body.length) := by
  have hdrop : source.drop p = body ++ (m ++ after) := by
    rw [h, eq_of_cut? hc, List.append_assoc]
  refine ⟨Nat.le_add_right _ _, ?_, ?_⟩
  · rw [drop_add_of_drop_eq hdrop]
    exact List.prefix_append m after
  · intro i hpi hi
    have hbefore := not_prefix_of_cut? hc (i - p) (by omega)
    rw [← h, List.drop_drop, Nat.add_sub_cancel' hpi] at hbefore
    exact hbefore

end Text

/-! ## Exact tokens -/

/-- No tag begins from one offset up to another. -/
def Bare (source : Text) (d : Delimiters) (p q : Nat) : Prop :=
  ∀ i, p ≤ i → i < q → ∀ e : Enclosure, ¬ e.opening d <+: source.drop i

/-- A run is exact when it is not empty, has the text it covers, and no tag begins in it. -/
structure Run.Exact (source : Text) (d : Delimiters) (r : Run) : Prop where
  ne_nil : r.text ≠ []
  text_eq : r.text = slice source r.start r.stop
  bare : Bare source d r.start r.stop

/-- What a tag at this offset is written between: three braces, if they are there. -/
def Enclosure.atOffset (source : Text) (d : Delimiters) (p : Nat) : Enclosure :=
  Enclosure.beginning d (source.drop p)

/-- Where the body of a tag at this offset begins. -/
def bodyStart (source : Text) (d : Delimiters) (p : Nat) : Nat :=
  p + ((Enclosure.atOffset source d p).opening d).length

/-- The marker that a tag at this offset ends with. -/
def closingAt (source : Text) (d : Delimiters) (p : Nat) : Text :=
  (Enclosure.atOffset source d p).closing d

/-- Does a tag begin at this offset? -/
def OpensAt (source : Text) (d : Delimiters) (p : Nat) : Prop :=
  (Enclosure.atOffset source d p).opening d <+: source.drop p

/-- A tag is exact when one begins at its offset, and it ends with the first closing marker behind
the opening one; its content is what stands between the two. -/
structure Tag.Exact (source : Text) (d : Delimiters) (t : Tag) : Prop where
  opens : OpensAt source d t.start
  closes : ∃ k, FirstFrom source (closingAt source d t.start) (bodyStart source d t.start) k ∧
    t.stop = k + (closingAt source d t.start).length ∧
    t = tagOf d (Enclosure.atOffset source d t.start) t.start
      (slice source (bodyStart source d t.start) k)

/-- A tag begins at the position of the flaw, and no closing marker follows its opening one. -/
structure Flaw.Unclosed (source : Text) (d : Delimiters) (flaw : Flaw) : Prop where
  opens : OpensAt source d flaw.position
  never : ∀ i, bodyStart source d flaw.position ≤ i →
    ¬ closingAt source d flaw.position <+: source.drop i
  kind_eq : flaw.kind = .unclosedTag
    (slice source flaw.position (flaw.position + Scan.excerptLength))
    (closingAt source d flaw.position)

/-! ## Tilings -/

/-- Is the token text? -/
def Token.IsRun : Token → Prop
  | .run _ => True
  | .tag _ => False

/-- `Tiles source d p ts q`: the tokens `ts` are exact, lie end to end from `p` to `q`, and text is
never followed by text. -/
inductive Tiles (source : Text) (d : Delimiters) : Nat → List Token → Nat → Prop
  | nil {p : Nat} : Tiles source d p [] p
  | run {r : Run} {ts : List Token} {q : Nat} (exact : r.Exact source d)
      (apart : ∀ t ∈ ts.head?, ¬ t.IsRun) (rest : Tiles source d r.stop ts q) :
      Tiles source d r.start (.run r :: ts) q
  | tag {t : Tag} {ts : List Token} {q : Nat} (exact : t.Exact source d)
      (rest : Tiles source d t.stop ts q) : Tiles source d t.start (.tag t :: ts) q

variable {source : Text} {d : Delimiters}

/-- **Text in front of tiles makes one more tile, if there is any.** -/
theorem Tiles.gap {gap s : Text} {start q : Nat} {ts : List Token}
    (h : source.drop start = gap ++ s) (bare : Bare source d start (start + gap.length))
    (apart : ∀ t ∈ ts.head?, ¬ t.IsRun) (rest : Tiles source d (start + gap.length) ts q) :
    Tiles source d start ((Run.mk gap start).tokens ++ ts) q := by
  by_cases hgap : gap = []
  · rw [hgap, List.length_nil, Nat.add_zero] at rest
    rw [Run.tokens, if_pos hgap]
    exact rest
  · rw [Run.tokens, if_neg hgap]
    exact .run (r := ⟨gap, start⟩) ⟨hgap, (slice_of_drop_eq h).symm, bare⟩ apart rest

/-- The text that a tiling ends with. -/
theorem Tiles.last {gap s : Text} {start : Nat} (h : source.drop start = gap ++ s)
    (bare : Bare source d start (start + gap.length)) :
    Tiles source d start (Run.mk gap start).tokens (start + gap.length) := by
  have hapart : ∀ t ∈ ([] : List Token).head?, ¬ t.IsRun := by simp
  have htiles := Tiles.gap h bare hapart .nil
  rw [List.append_nil] at htiles
  exact htiles

theorem bare_of_opening?_eq_none {start : Nat} (ho : opening? d (source.drop start) = none)
    (q : Nat) : Bare source d start q := by
  intro i hi _ e
  have hnone := not_prefix_of_opening?_eq_none ho (i - start) e
  rw [List.drop_drop, Nat.add_sub_cancel' hi] at hnone
  exact hnone

section Found

variable {gap rest : Text} {e : Enclosure} {start : Nat}

/-- Before the first opening there is none. -/
theorem bare_of_opening? (ho : opening? d (source.drop start) = some (gap, e, rest)) :
    Bare source d start (start + gap.length) := by
  intro i hi hlt e'
  have hnone := (not_prefix_of_opening? ho).1 (i - start) (by omega) e'
  rw [List.drop_drop, Nat.add_sub_cancel' hi] at hnone
  exact hnone

/-- What is found in the rest of a source, told by the offset where it is found. -/
theorem opensAt_of_opening? (ho : opening? d (source.drop start) = some (gap, e, rest)) :
    OpensAt source d (start + gap.length) ∧
      Enclosure.atOffset source d (start + gap.length) = e ∧
      source.drop (start + gap.length) = e.opening d ++ rest ∧
      source.drop (bodyStart source d (start + gap.length)) = rest := by
  have he : Enclosure.atOffset source d (start + gap.length) = e := by
    rw [(not_prefix_of_opening? ho).2, Enclosure.atOffset, List.drop_drop]
  have hdrop : source.drop (start + gap.length) = e.opening d ++ rest := by
    apply drop_add_of_drop_eq
    rw [eq_of_opening? ho, List.append_assoc]
  refine ⟨?_, he, hdrop, ?_⟩
  · rw [OpensAt, he, hdrop]
    exact List.prefix_append _ rest
  · rw [bodyStart, he]
    exact drop_add_of_drop_eq hdrop

/-- **A tag that is found first is exact.** -/
theorem Tag.exact_of_found {body after : Text}
    (ho : opening? d (source.drop start) = some (gap, e, rest))
    (hc : cut? (e.closing d) rest = some (body, after)) :
    (tagOf d e (start + gap.length) body).Exact source d := by
  obtain ⟨hopens, he, -, hrest⟩ := opensAt_of_opening? ho
  have hcloser : closingAt source d (start + gap.length) = e.closing d := by rw [closingAt, he]
  have hstart : bodyStart source d (start + gap.length) =
      start + gap.length + (e.opening d).length := by rw [bodyStart, he]
  have hbody : slice source (bodyStart source d (start + gap.length))
      (bodyStart source d (start + gap.length) + body.length) = body := by
    apply slice_of_drop_eq (t := e.closing d ++ after)
    rw [hrest, eq_of_cut? hc, List.append_assoc]
  have hfirst := firstFrom_of_cut? hrest hc
  refine ⟨hopens, bodyStart source d (start + gap.length) + body.length, ?_, ?_, ?_⟩
  · show FirstFrom source (closingAt source d (start + gap.length)) _ _
    rw [hcloser]
    exact hfirst
  · show start + gap.length + (e.opening d).length + body.length + (e.closing d).length =
      bodyStart source d (start + gap.length) + body.length +
        (closingAt source d (start + gap.length)).length
    rw [hstart, hcloser]
  · show _ = tagOf d (Enclosure.atOffset source d (start + gap.length)) (start + gap.length) _
    rw [he]
    exact congrArg _ hbody.symm

/-- A tag without a closing marker behind it is a flaw of the source. -/
theorem Flaw.unclosed_of_found (ho : opening? d (source.drop start) = some (gap, e, rest))
    (hc : cut? (e.closing d) rest = none) :
    Flaw.Unclosed source d
      ⟨.unclosedTag ((e.opening d ++ rest).take Scan.excerptLength) (e.closing d),
        start + gap.length⟩ := by
  obtain ⟨hopens, he, hdrop, hrest⟩ := opensAt_of_opening? ho
  have hcloser : closingAt source d (start + gap.length) = e.closing d := by rw [closingAt, he]
  refine ⟨hopens, ?_, ?_⟩
  · intro i hi
    show ¬ closingAt source d (start + gap.length) <+: source.drop i
    have hnone := not_prefix_of_cut?_eq_none hc (i - bodyStart source d (start + gap.length))
    rw [← hrest, List.drop_drop, Nat.add_sub_cancel' hi, ← hcloser] at hnone
    exact hnone
  · show FlawKind.unclosedTag _ _ = FlawKind.unclosedTag
      (slice source (start + gap.length) (start + gap.length + Scan.excerptLength))
      (closingAt source d (start + gap.length))
    rw [slice, Nat.add_sub_cancel_left, hdrop, hcloser]

end Found

namespace Scan

/-- The tokens of a scan tile the source up to its end, or up to the tag that is not closed. -/
structure TilesFrom (source : Text) (d : Delimiters) (start : Nat) (scan : Scan) : Prop where
  finished : scan.flaw? = none → Tiles source d start scan.tokens source.length
  unclosed : ∀ flaw, scan.flaw? = some flaw →
    Tiles source d start scan.tokens flaw.position ∧ flaw.Unclosed source d

theorem tokens_cons (gap : Run) (tag : Tag) (scan : Scan) :
    tokens ⟨(gap, tag) :: scan.segments, scan.ending⟩ =
      gap.tokens ++ .tag tag :: scan.tokens := by
  simp only [tokens, List.flatMap_cons, segmentTokens, List.append_assoc, List.cons_append,
    List.nil_append]

/-- One more tag, and the text before it, in front of a tiling. -/
theorem TilesFrom.cons {gap s : Text} {start : Nat} {tag : Tag} {scan : Scan}
    (h : source.drop start = gap ++ s) (bare : Bare source d start (start + gap.length))
    (hstart : tag.start = start + gap.length) (exact : tag.Exact source d)
    (rest : TilesFrom source d tag.stop scan) :
    TilesFrom source d start ⟨(⟨gap, start⟩, tag) :: scan.segments, scan.ending⟩ := by
  have happ : ∀ q, Tiles source d tag.stop scan.tokens q →
      Tiles source d start (tokens ⟨(⟨gap, start⟩, tag) :: scan.segments, scan.ending⟩) q := by
    intro q hq
    have hapart : ∀ t ∈ (Token.tag tag :: scan.tokens).head?, ¬ t.IsRun := by
      rintro t ⟨⟩ hrun
      exact hrun
    rw [tokens_cons]
    exact Tiles.gap h bare hapart (hstart ▸ Tiles.tag exact hq)
  constructor
  · intro hnone
    exact happ _ (rest.finished hnone)
  · intro flaw hflaw
    obtain ⟨htiles, hunclosed⟩ := rest.unclosed flaw hflaw
    exact ⟨happ _ htiles, hunclosed⟩

/-- The scan of the rest of a source is a tiling from there on. -/
theorem tilesFrom_ofText {s : Text} {start : Nat} (hs : source.drop start = s)
    (hle : start ≤ source.length) : TilesFrom source d start (ofText d start s) := by
  have hlength : source.length = start + s.length := by
    rw [← hs, List.length_drop, Nat.add_sub_cancel' hle]
  fun_induction ofText d start s with
  | case1 start s ho =>
    subst hs
    have htiles := Tiles.last (List.append_nil (source.drop start)).symm
      (bare_of_opening?_eq_none ho _)
    rw [← hlength] at htiles
    constructor
    · intro _
      exact htiles
    · intro flaw h
      cases h
  | case2 start s gap e rest ho hc =>
    subst hs
    have hgap : source.drop start = gap ++ (e.opening d ++ rest) := by
      rw [eq_of_opening? ho, List.append_assoc]
    constructor
    · intro h
      cases h
    · rintro flaw ⟨⟩
      exact ⟨Tiles.last hgap (bare_of_opening? ho), Flaw.unclosed_of_found ho hc⟩
  | case3 start s gap e rest ho body after hc tag scan ih =>
    subst hs
    have hrest : source.drop start = gap ++ e.opening d ++ body ++ e.closing d ++ after := by
      rw [eq_of_opening? ho, eq_of_cut? hc]
      simp only [List.append_assoc]
    have hstop : tag.stop = start + (gap ++ e.opening d ++ body ++ e.closing d).length := by
      simp only [tag, tagOf, List.length_append]
      omega
    have hafter : source.drop tag.stop = after := by
      rw [hstop]
      exact drop_add_of_drop_eq hrest
    have hlength' : source.length = tag.stop + after.length := by
      rw [hlength, hrest, hstop, List.length_append, Nat.add_assoc]
    have htiles := ih hafter (by omega) hlength'
    simp only [List.append_assoc] at hrest
    exact TilesFrom.cons hrest (bare_of_opening? ho) rfl (Tag.exact_of_found ho hc) htiles

/-- **The tokens of a scan are an exact tiling of the source** from the offset where it began: up to
the end when the scan finishes, and up to the tag that has no closing marker when it does not. -/
theorem tilesFrom_ofSource (source : Text) (d : Delimiters) {start : Nat}
    (h : start ≤ source.length) : TilesFrom source d start (ofSource source d start) :=
  tilesFrom_ofText rfl h

/-- With single braces for delimiters the markers are parts of the three braces, which win where
both begin; the last tag is not closed. -/
theorem tilesFrom_ofSource_braces :
    let source := "a\x7b\x7b\x7bb\x7d\x7d\x7dc\x7bd\x7d\x7be".toText
    let d : Delimiters := ⟨['{'], ['}'], by decide, by decide⟩
    1 ≤ source.length ∧ ∃ flaw, (ofSource source d 1).flaw? = some flaw ∧ flaw.position = 12 ∧
      Tiles source d 1 (ofSource source d 1).tokens 12 ∧ flaw.Unclosed source d := by
  intro source d
  have hle : 1 ≤ source.length := by decide
  have hflaw : (ofSource source d 1).flaw? = some ⟨.unclosedTag ['{', 'e'] ['}'], 12⟩ := by
    decide +kernel
  obtain ⟨htiles, hunclosed⟩ := (tilesFrom_ofSource source d hle).unclosed _ hflaw
  exact ⟨hle, _, hflaw, rfl, htiles, hunclosed⟩

end Scan
end Mustache
