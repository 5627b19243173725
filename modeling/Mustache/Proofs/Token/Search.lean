import Mathlib.Data.List.Infix
import Mustache.Proofs.Text.Lines
import Mustache.Token.Scan

/-!
# Where markers are found

A search finds what it looks for at the first place there is. No marker begins at a character that
it does not hold, and none holds a blank. So none begins in a stretch of blanks, and none goes on
past the end of a line: what is found in a text of whole lines is found at the same place when more
text follows, and nothing new is found in it.

* `cut?_eq_some_iff`, `opening?_eq_some_iff` — what is found is found first
* `cut?_append_of_notMem`, `opening?_append_of_notMem` — what is passed over in a search
* `cut?_append`, `opening?_append_of_length_le` — what is found first is first whatever follows
* `cut?_of_prefix`, `opening?_of_prefix` — and where the text is cut off behind it
* `opening?_append_of_some`, `opening?_append_of_none` — openings in a text after whole lines
-/

namespace Mustache

open Text

/-! ## Markers -/

theorem IsMarker.notMem_of_isBlank {m : Text} (h : IsMarker m) {c : CodePoint}
    (hc : isBlank c = true) : c ∉ m := by
  intro hm
  rw [(h.2 c hm).1] at hc
  cases hc

theorem IsMarker.lineFeed_notMem {m : Text} (h : IsMarker m) : char '\n' ∉ m :=
  h.notMem_of_isBlank (by decide)

namespace Enclosure

theorem isMarker_opening (d : Delimiters) (e : Enclosure) : IsMarker (e.opening d) := by
  cases e with
  | active => exact d.isMarker_opening
  | triple => exact show IsMarker [char '{', '{', '{'] by decide

theorem isMarker_closing (d : Delimiters) (e : Enclosure) : IsMarker (e.closing d) := by
  cases e with
  | active => exact d.isMarker_closing
  | triple => exact show IsMarker [char '}', '}', '}'] by decide

/-- A tag as it is written. -/
def write (d : Delimiters) (e : Enclosure) (body : Text) : Text :=
  e.opening d ++ body ++ e.closing d

/-- What a tag with this body is for. -/
def kindOf (e : Enclosure) (body : Text) : TagKind := (kindAndName e (trim body)).1

end Enclosure

namespace Text

/-! ## What is found first -/

theorem strip?_eq_none_iff {pat s : Text} : strip? pat s = none ↔ ¬ pat <+: s := by
  rw [Option.eq_none_iff_forall_ne_some]
  constructor
  · rintro h ⟨rest, hrest⟩
    exact h rest (strip?_eq_some_iff.mpr hrest.symm)
  · intro h rest hrest
    exact h ⟨rest, (strip?_eq_some_iff.mp hrest).symm⟩

/-- **There is no occurrence before the one that is found.** -/
theorem not_prefix_of_cut? {pat s before rest : Text} (h : cut? pat s = some (before, rest)) :
    ∀ i < before.length, ¬ pat <+: s.drop i := by
  induction s generalizing before with
  | nil =>
    obtain ⟨r, -, he⟩ := Option.map_eq_some_iff.mp h
    cases he
    intro i hi
    cases hi
  | cons c s ih =>
    rw [cut?] at h
    split at h
    · cases h
      intro i hi
      cases hi
    · next hnone =>
      obtain ⟨⟨b, r⟩, hbr, he⟩ := Option.map_eq_some_iff.mp h
      cases he
      intro i hi
      cases i with
      | zero => exact strip?_eq_none_iff.mp hnone
      | succ i => exact ih hbr i (Nat.lt_of_succ_lt_succ hi)

/-- There is none where none is found. -/
theorem not_prefix_of_cut?_eq_none {pat s : Text} (h : cut? pat s = none) (i : Nat) :
    ¬ pat <+: s.drop i := by
  induction s generalizing i with
  | nil =>
    rw [List.drop_nil]
    exact strip?_eq_none_iff.mp (Option.map_eq_none_iff.mp h)
  | cons c s ih =>
    rw [cut?] at h
    split at h
    · cases h
    · next hnone =>
      cases i with
      | zero => exact strip?_eq_none_iff.mp hnone
      | succ i => exact ih (Option.map_eq_none_iff.mp h) i

/-- **What is found is the first occurrence.** -/
theorem cut?_eq_some_iff {pat s before rest : Text} :
    cut? pat s = some (before, rest) ↔
      s = before ++ pat ++ rest ∧ ∀ i < before.length, ¬ pat <+: s.drop i := by
  constructor
  · exact fun h => ⟨eq_of_cut? h, not_prefix_of_cut? h⟩
  · rintro ⟨hs, hfirst⟩
    induction before generalizing s with
    | nil =>
      have hstrip : strip? pat s = some rest := strip?_eq_some_iff.mpr hs
      cases s with
      | nil =>
        rw [cut?, hstrip]
        rfl
      | cons c s => rw [cut?, hstrip]
    | cons c before ih =>
      obtain rfl : s = c :: (before ++ pat ++ rest) := hs
      have hhere := strip?_eq_none_iff.mpr (hfirst 0 (Nat.succ_pos _))
      have hrest := ih rfl fun i hi => hfirst (i + 1) (Nat.succ_lt_succ hi)
      rw [List.drop_zero] at hhere
      rw [cut?, hhere, hrest]
      rfl

/-! ## Characters that a marker does not hold -/

/-- A text that begins with a marker is cut there. -/
theorem cut?_self_append {m : Text} (hne : m ≠ []) (s : Text) :
    cut? m (m ++ s) = some ([], s) := by
  cases m with
  | nil => exact absurd rfl hne
  | cons p m =>
    have hstrip : strip? (p :: m) (p :: (m ++ s)) = some s := strip?_eq_some_iff.mpr rfl
    rw [List.cons_append, cut?, hstrip]

/-- A marker does not begin with a character it does not hold. -/
theorem strip?_cons_of_notMem {m : Text} (hne : m ≠ []) {c : CodePoint} (hc : c ∉ m) (s : Text) :
    strip? m (c :: s) = none := by
  cases m with
  | nil => exact absurd rfl hne
  | cons p m =>
    have hp : p ≠ c := fun h => hc (h ▸ List.mem_cons_self)
    rw [strip?, if_neg hp]

/-- A marker does not begin among characters it does not hold. -/
theorem cut?_append_of_notMem {m : Text} (hne : m ≠ []) {k : Text} (hk : ∀ c ∈ k, c ∉ m)
    (s : Text) : cut? m (k ++ s) = (cut? m s).map fun (before, rest) => (k ++ before, rest) := by
  induction k with
  | nil => simp
  | cons c k ih =>
    rw [List.cons_append, cut?, strip?_cons_of_notMem hne (hk c List.mem_cons_self),
      ih fun x hx => hk x (List.mem_cons_of_mem _ hx)]
    simp only [Option.map_map]
    rfl

/-- What a text does not begin with, it does not begin with when a character follows that the
beginning does not hold. -/
theorem not_prefix_append_cons {m k : Text} (hk : ¬ m <+: k) {c : CodePoint} (hc : c ∉ m)
    (s : Text) :
    ¬ m <+: k ++ c :: s := by
  rintro ⟨rest, hrest⟩
  rcases List.append_eq_append_iff.mp hrest with ⟨u, hu, -⟩ | ⟨u, hu, hcs⟩
  · exact hk ⟨u, hu.symm⟩
  · cases u with
    | nil => exact hk ⟨[], by rw [hu]; simp⟩
    | cons b u =>
      have hb : c = b := (List.cons.inj hcs).1
      exact hc (by rw [hu, hb]; simp)

/-- A marker that does not occur in a text does not occur before the next character that the marker
does not hold. -/
theorem cut?_append_cons {m : Text} (hne : m ≠ []) {k : Text} (hk : ¬ m <:+: k) {c : CodePoint}
    (hc : c ∉ m) (s : Text) :
    cut? m (k ++ c :: s) = (cut? m s).map fun (before, rest) => (k ++ c :: before, rest) := by
  induction k with
  | nil => exact cut?_append_of_notMem hne (k := [c]) (by simpa using hc) s
  | cons a k ih =>
    have hstrip : strip? m (a :: (k ++ c :: s)) = none :=
      strip?_eq_none_iff.mpr (not_prefix_append_cons (fun h => hk h.isInfix) hc s)
    have hk' : ¬ m <:+: k := fun h => hk (h.trans (List.suffix_cons a k).isInfix)
    rw [List.cons_append, cut?, hstrip, ih hk']
    simp only [Option.map_map]
    rfl

/-- No marker begins in blanks. -/
theorem cut?_blanks {m : Text} (hm : IsMarker m) {k : Text} (hk : ∀ c ∈ k, isBlank c = true)
    (s : Text) : cut? m (k ++ s) = (cut? m s).map fun (before, rest) => (k ++ before, rest) :=
  cut?_append_of_notMem hm.1 (fun c hc => hm.notMem_of_isBlank (hk c hc)) s

/-! ## More text behind -/

/-- A marker that begins in whole lines ends in them. -/
theorem prefix_of_prefix_append_wholeLines {m s t : Text} (hm : IsMarker m) (hs : WholeLines s)
    (hne : s ≠ []) (h : m <+: s ++ t) : m <+: s := by
  obtain ⟨rest, hrest⟩ := h
  rcases List.append_eq_append_iff.mp hrest with ⟨u, hu, -⟩ | ⟨u, hu, -⟩
  · exact ⟨u, hu.symm⟩
  · -- a marker that goes on past the text holds its last line feed
    have hmem : char '\n' ∈ m := by
      rw [hu]
      exact List.mem_append_left u (mem_of_wholeLines hs hne)
    exact absurd hmem hm.lineFeed_notMem

/-- **The first occurrence in a text is the first whatever follows the text.** -/
theorem cut?_append {pat s before rest : Text} (h : cut? pat s = some (before, rest)) (t : Text) :
    cut? pat (s ++ t) = some (before, rest ++ t) := by
  obtain ⟨hs, hbefore⟩ := cut?_eq_some_iff.mp h
  refine cut?_eq_some_iff.mpr ⟨by rw [hs, List.append_assoc], fun i hi h' => hbefore i hi ?_⟩
  -- an occurrence before it is as long, so it does not go on past the text
  have hlen := length_of_cut? h
  rw [List.drop_append_of_le_length (by omega)] at h'
  refine List.prefix_of_prefix_length_le h' (List.prefix_append _ t) ?_
  rw [List.length_drop]
  omega

/-- **The first occurrence is the first where the text is cut off behind it.** -/
theorem cut?_of_prefix {pat s before rest : Text} (h : cut? pat s = some (before, rest))
    {rest' : Text} (hrest : rest' <+: rest) :
    cut? pat (before ++ pat ++ rest') = some (before, rest') := by
  obtain ⟨hs, hbefore⟩ := cut?_eq_some_iff.mp h
  have hpre : before ++ pat ++ rest' <+: s := hs ▸ (List.prefix_append_right_inj _).mpr hrest
  exact cut?_eq_some_iff.mpr ⟨rfl, fun i hi h' => hbefore i hi (h'.trans (hpre.drop i))⟩

end Text

/-! ## Openings -/

/-- Where nothing opens a tag the search goes on. -/
theorem opening?_cons_of_bare {d : Delimiters} {c : CodePoint} {s : Text}
    (h : ∀ e : Enclosure, ¬ e.opening d <+: c :: s) :
    opening? d (c :: s) = (opening? d s).map fun (gap, e, rest) => (c :: gap, e, rest) := by
  rw [opening?, strip?_eq_none_iff.mpr (h .triple), strip?_eq_none_iff.mpr (h .active)]

/-- What a tag is written between when one begins here: three braces, if they are here. -/
def Enclosure.beginning (d : Delimiters) (s : Text) : Enclosure :=
  if Enclosure.triple.opening d <+: s then .triple else .active

/-- What a search for an opening comes to at the first character of a text. -/
theorem opening?_cons_cases (d : Delimiters) (c : CodePoint) (s : Text) :
    (∃ rest, opening? d (c :: s) = some ([], Enclosure.beginning d (c :: s), rest)) ∨
      ∀ e : Enclosure, ¬ e.opening d <+: c :: s := by
  unfold Enclosure.beginning
  rw [opening?]
  cases h3 : strip? (Enclosure.triple.opening d) (c :: s) with
  | some rest =>
    have hpre : Enclosure.triple.opening d <+: c :: s := ⟨rest, (strip?_eq_some_iff.mp h3).symm⟩
    rw [if_pos hpre]
    exact Or.inl ⟨rest, rfl⟩
  | none =>
    rw [if_neg (strip?_eq_none_iff.mp h3)]
    cases h2 : strip? (Enclosure.active.opening d) (c :: s) with
    | some rest => exact Or.inl ⟨rest, rfl⟩
    | none =>
      right
      intro e
      cases e with
      | active => exact strip?_eq_none_iff.mp h2
      | triple => exact strip?_eq_none_iff.mp h3

/-- **There is no opening before the one that is found**, and three braces are found as such. -/
theorem not_prefix_of_opening? {d : Delimiters} {s gap rest : Text} {e : Enclosure}
    (h : opening? d s = some (gap, e, rest)) :
    (∀ i < gap.length, ∀ e' : Enclosure, ¬ e'.opening d <+: s.drop i) ∧
      e = Enclosure.beginning d (s.drop gap.length) := by
  induction s generalizing gap with
  | nil => cases h
  | cons c s ih =>
    rcases opening?_cons_cases d c s with ⟨r, hr⟩ | hnone
    · rw [hr] at h
      cases h
      refine ⟨?_, rfl⟩
      intro i hi
      cases hi
    · rw [opening?_cons_of_bare hnone] at h
      obtain ⟨⟨g, e', r⟩, hg, he⟩ := Option.map_eq_some_iff.mp h
      cases he
      obtain ⟨hbefore, hat⟩ := ih hg
      refine ⟨?_, hat⟩
      intro i hi
      cases i with
      | zero => exact hnone
      | succ i => exact hbefore i (Nat.lt_of_succ_lt_succ hi)

/-- There is no opening where none is found. -/
theorem not_prefix_of_opening?_eq_none {d : Delimiters} {s : Text} (h : opening? d s = none)
    (i : Nat) (e : Enclosure) : ¬ e.opening d <+: s.drop i := by
  induction s generalizing i with
  | nil =>
    rw [List.drop_nil, List.prefix_nil]
    exact e.opening_ne_nil d
  | cons c s ih =>
    rcases opening?_cons_cases d c s with ⟨r, hr⟩ | hnone
    · rw [hr] at h
      cases h
    · rw [opening?_cons_of_bare hnone] at h
      cases i with
      | zero => exact hnone e
      | succ i => exact ih (Option.map_eq_none_iff.mp h) i

/-- **What is found is the first opening**, of three braces where they are. -/
theorem opening?_eq_some_iff {d : Delimiters} {s gap rest : Text} {e : Enclosure} :
    opening? d s = some (gap, e, rest) ↔
      s = gap ++ e.opening d ++ rest ∧
        (∀ i < gap.length, ∀ e' : Enclosure, ¬ e'.opening d <+: s.drop i) ∧
        e = Enclosure.beginning d (s.drop gap.length) := by
  constructor
  · exact fun h => ⟨eq_of_opening? h, not_prefix_of_opening? h⟩
  · rintro ⟨hs, hfirst, he⟩
    induction gap generalizing s with
    | nil =>
      have hpre : e.opening d <+: s := ⟨rest, hs.symm⟩
      cases s with
      | nil => exact absurd (List.prefix_nil.mp hpre) (e.opening_ne_nil d)
      | cons c s =>
        rcases opening?_cons_cases d c s with ⟨r, hr⟩ | hnone
        · have he' : Enclosure.beginning d (c :: s) = e := he.symm
          rw [he'] at hr
          have hrest := List.append_cancel_left (hs.symm.trans (eq_of_opening? hr))
          rw [hr, hrest]
        · exact absurd hpre (hnone e)
    | cons c gap ih =>
      obtain rfl : s = c :: (gap ++ e.opening d ++ rest) := hs
      have hrest := ih rfl (fun i hi => hfirst (i + 1) (Nat.succ_lt_succ hi)) he
      rw [opening?_cons_of_bare (hfirst 0 (Nat.succ_pos _)), hrest]
      rfl

/-- Nothing is found where nothing opens a tag. -/
theorem opening?_eq_none_iff {d : Delimiters} {s : Text} :
    opening? d s = none ↔ ∀ i, ∀ e : Enclosure, ¬ e.opening d <+: s.drop i := by
  constructor
  · exact fun h i e => not_prefix_of_opening?_eq_none h i e
  · intro h
    cases ho : opening? d s with
    | none => rfl
    | some found =>
      obtain ⟨gap, e, rest⟩ := found
      refine absurd ?_ (h gap.length e)
      rw [eq_of_opening? ho, List.append_assoc, List.drop_left]
      exact List.prefix_append _ _

/-! ## Openings in shorter and longer texts -/

/-- What is found where a text is cut off behind an opening. -/
theorem Enclosure.beginning_of_prefix {d : Delimiters} {s t : Text} (hst : s <+: t)
    (hs : (Enclosure.beginning d t).opening d <+: s) :
    Enclosure.beginning d s = Enclosure.beginning d t := by
  unfold Enclosure.beginning at hs ⊢
  split at hs
  · next h => rw [if_pos hs, if_pos h]
  · next h => rw [if_neg fun hpre => h (hpre.trans hst), if_neg h]

/-- **The first opening is the first where the text is cut off behind it.** -/
theorem opening?_of_prefix {d : Delimiters} {s gap rest : Text} {e : Enclosure}
    (h : opening? d s = some (gap, e, rest)) {rest' : Text} (hrest : rest' <+: rest) :
    opening? d (gap ++ e.opening d ++ rest') = some (gap, e, rest') := by
  obtain ⟨hs, hbefore, he⟩ := opening?_eq_some_iff.mp h
  have hpre : gap ++ e.opening d ++ rest' <+: s := hs ▸ (List.prefix_append_right_inj _).mpr hrest
  refine opening?_eq_some_iff.mpr
    ⟨rfl, fun i hi e' h' => hbefore i hi e' (h'.trans (hpre.drop i)), ?_⟩
  refine he.trans (Enclosure.beginning_of_prefix (hpre.drop _) ?_).symm
  rw [← he, List.append_assoc, List.drop_left]
  exact List.prefix_append _ _

/-- Before the first opening there is none. -/
theorem opening?_gap {d : Delimiters} {s gap rest : Text} {e : Enclosure}
    (h : opening? d s = some (gap, e, rest)) : opening? d gap = none := by
  obtain ⟨hs, hbefore, -⟩ := opening?_eq_some_iff.mp h
  rw [opening?_eq_none_iff]
  intro i e' h'
  by_cases hi : i < gap.length
  · have hpre : gap <+: s := by
      rw [hs, List.append_assoc]
      exact List.prefix_append _ _
    exact hbefore i hi e' (h'.trans (hpre.drop i))
  · rw [List.drop_of_length_le (Nat.not_lt.mp hi), List.prefix_nil] at h'
    exact e'.opening_ne_nil d h'

/-- The first opening is the first whatever follows, when no marker goes on past the text. -/
theorem opening?_append_of_inside {d : Delimiters} {s t gap rest : Text} {e : Enclosure}
    (h : opening? d s = some (gap, e, rest))
    (hinside : ∀ i ≤ gap.length, ∀ e' : Enclosure,
      e'.opening d <+: s.drop i ++ t → e'.opening d <+: s.drop i) :
    opening? d (s ++ t) = some (gap, e, rest ++ t) := by
  obtain ⟨hs, hbefore, he⟩ := opening?_eq_some_iff.mp h
  have hlen := length_of_opening? h
  have hdrop {i : Nat} (hi : i ≤ gap.length) : (s ++ t).drop i = s.drop i ++ t :=
    List.drop_append_of_le_length (by omega)
  refine opening?_eq_some_iff.mpr ⟨by rw [hs, List.append_assoc], fun i hi e' h' => ?_, ?_⟩
  · rw [hdrop hi.le] at h'
    exact hbefore i hi e' (hinside i hi.le e' h')
  · have hiff : Enclosure.triple.opening d <+: s.drop gap.length ++ t ↔
        Enclosure.triple.opening d <+: s.drop gap.length :=
      ⟨hinside _ (Nat.le_refl _) .triple, fun h' => h'.trans (List.prefix_append _ t)⟩
    rw [he, hdrop (Nat.le_refl _)]
    simp only [Enclosure.beginning, hiff]

/-- **The first opening is the first whatever follows**, when what comes behind it is as long as the
markers. -/
theorem opening?_append_of_length_le {d : Delimiters} {s gap rest : Text} {e : Enclosure}
    (h : opening? d s = some (gap, e, rest))
    (hlong : ∀ e' : Enclosure, (e'.opening d).length ≤ (e.opening d ++ rest).length) (t : Text) :
    opening? d (s ++ t) = some (gap, e, rest ++ t) := by
  refine opening?_append_of_inside h fun i hi e' h' => ?_
  refine List.prefix_of_prefix_length_le h' (List.prefix_append _ t) ?_
  have hlen := length_of_opening? h
  have := hlong e'
  rw [List.length_append] at this
  rw [List.length_drop]
  omega

/-- A text that begins with the opening marker begins with a tag. -/
theorem opening?_opening {d : Delimiters} {s : Text}
    (h : ¬ Enclosure.triple.opening d <+: d.opening ++ s) :
    opening? d (d.opening ++ s) = some ([], .active, s) := by
  have hstrip : strip? (Enclosure.active.opening d) (d.opening ++ s) = some s :=
    strip?_eq_some_iff.mpr rfl
  rw [← strip?_eq_none_iff] at h
  obtain ⟨p, m, hp⟩ := List.exists_cons_of_ne_nil (Enclosure.active.opening_ne_nil d)
  have hopening : d.opening = p :: m := hp
  rw [hopening, List.cons_append] at h hstrip ⊢
  rw [opening?, h, hstrip]

/-- No tag begins among characters that no opening marker holds. -/
theorem opening?_append_of_notMem (d : Delimiters) {k : Text}
    (hk : ∀ c ∈ k, ∀ e : Enclosure, c ∉ e.opening d) (s : Text) :
    opening? d (k ++ s) = (opening? d s).map fun (gap, e, rest) => (k ++ gap, e, rest) := by
  induction k with
  | nil => simp
  | cons c k ih =>
    have hc (e : Enclosure) : strip? (e.opening d) (c :: (k ++ s)) = none :=
      strip?_cons_of_notMem (e.opening_ne_nil d) (hk c List.mem_cons_self e) (k ++ s)
    rw [List.cons_append, opening?, hc .triple, hc .active,
      ih fun x hx => hk x (List.mem_cons_of_mem _ hx), Option.map_map]
    rfl

/-- **Blanks in front of a text hide no opening and make none.** -/
theorem opening?_blanks (d : Delimiters) {k : Text} (hk : ∀ c ∈ k, isBlank c = true) (s : Text) :
    opening? d (k ++ s) = (opening? d s).map fun (gap, e, rest) => (k ++ gap, e, rest) :=
  opening?_append_of_notMem d
    (fun c hc e => (e.isMarker_opening d).notMem_of_isBlank (hk c hc)) s

/-- The opening found in whole lines is found when more text follows. -/
theorem opening?_append_of_some {d : Delimiters} {s gap rest : Text} {e : Enclosure}
    (hs : WholeLines s) (h : opening? d s = some (gap, e, rest)) (t : Text) :
    opening? d (s ++ t) = some (gap, e, rest ++ t) := by
  refine opening?_append_of_inside h fun i hi e' h' => ?_
  have hrest : WholeLines (s.drop i) := by
    rw [← List.take_append_drop i s] at hs
    exact hs.right
  have hne : s.drop i ≠ [] := by
    have hlen := length_of_opening? h
    have hpos := List.length_pos_iff.mpr (e.opening_ne_nil d)
    rw [Ne, List.drop_eq_nil_iff]
    omega
  exact prefix_of_prefix_append_wholeLines (e'.isMarker_opening d) hrest hne h'

/-- When there is none in whole lines, the first opening is the first of the text that follows. -/
theorem opening?_append_of_none {d : Delimiters} {s : Text} (hs : WholeLines s)
    (h : opening? d s = none) (t : Text) :
    opening? d (s ++ t) = (opening? d t).map fun (gap, e, rest) => (s ++ gap, e, rest) := by
  induction s with
  | nil => simp
  | cons c s ih =>
    have hall := opening?_eq_none_iff.mp h
    have hbare (e : Enclosure) : ¬ e.opening d <+: c :: (s ++ t) := fun h' =>
      hall 0 e (prefix_of_prefix_append_wholeLines (e.isMarker_opening d) hs (by simp) h')
    have hnone : opening? d s = none := opening?_eq_none_iff.mpr fun i => hall (i + 1)
    rw [List.cons_append, opening?_cons_of_bare hbare, ih hs.tail hnone, Option.map_map]
    rfl

end Mustache
