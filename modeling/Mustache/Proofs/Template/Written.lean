import Mustache.Proofs.Template.Balanced

/-!
# One template written with different delimiters

A template can be thought of without its delimiters, as a row of texts and of contents of tags. Its
tree is the same with whatever pair the row is written down, as long as no character of the pair
occurs in the row and three braces cannot come about.

Every marker is then found where it was written, and what stands beside a tag on its line looks the
same in both sources: blanks, or something that is not blank. Two readings, one of each source, go
side by side from places that are both at the beginning of a line or both behind more than padding
(`Level`), and give the same marks.

* `found_write` — a tag is found where it is written
* `Level.alone` — whether a tag has its line to itself is the same in both sources
* `reads_row` — the readings of a row written with two pairs
* `Template.parse_writeAll` — the trees, or the flaws, of a row written with two pairs
-/

namespace Mustache

open Text

/-! ## Items -/

/-- A piece of a template that is not written down yet. -/
inductive Item where
  /-- Text between tags. -/
  | text (s : Text)
  /-- A tag, by what is to stand between its delimiters. -/
  | tag (content : Text)
deriving DecidableEq, Repr

namespace Item

/-- The characters of the item that do not depend on the delimiters. -/
def content : Item → Text
  | text s => s
  | tag content => content

/-- The item written with a pair of delimiters. -/
def write (d : Delimiters) : Item → Text
  | text s => s
  | tag content => Enclosure.active.write d content

/-- The items written one after the other. -/
def writeAll (d : Delimiters) (items : List Item) : Text := items.flatMap (write d)

/-- The item does not set the delimiters. -/
def Keeps : Item → Prop
  | text _ => True
  | tag content => (trim content).head? ≠ some (char '=')

instance (item : Item) : Decidable item.Keeps :=
  match item with
  | text _ => isTrue True.intro
  | tag content => inferInstanceAs (Decidable ((trim content).head? ≠ some (char '=')))

end Item

namespace Delimiters

/-- The pair is the standard one, or has no braces. -/
def IsUsual (d : Delimiters) : Prop :=
  d = .standard ∨ ∀ c ∈ d.opening ++ d.closing, c ≠ '{' ∧ c ≠ '}'

instance (d : Delimiters) : Decidable d.IsUsual :=
  haveI := List.decidableBAll (fun c : CodePoint => c ≠ '{' ∧ c ≠ '}') (d.opening ++ d.closing)
  inferInstanceAs (Decidable (_ ∨ _))

/-- The text holds no brace and no character of the pair. -/
def Spares (d : Delimiters) (s : Text) : Prop :=
  ∀ c ∈ s, (c ≠ '{' ∧ c ≠ '}') ∧ c ∉ d.opening ∧ c ∉ d.closing

instance (d : Delimiters) (s : Text) : Decidable (d.Spares s) :=
  List.decidableBAll (fun c : CodePoint => (c ≠ '{' ∧ c ≠ '}') ∧ c ∉ d.opening ∧ c ∉ d.closing) s

variable {d : Delimiters}

theorem Spares.append {s t : Text} (hs : d.Spares s) (ht : d.Spares t) : d.Spares (s ++ t) := by
  intro c hc
  rcases List.mem_append.mp hc with hc | hc
  · exact hs c hc
  · exact ht c hc

theorem Spares.notMem_opening {s : Text} (h : d.Spares s) {c : CodePoint} (hc : c ∈ s)
    (e : Enclosure) : c ∉ e.opening d := by
  cases e with
  | active => exact (h c hc).2.1
  | triple =>
    have hne := (h c hc).1.1
    simp [Enclosure.opening, hne]

end Delimiters

/-! ## Tags are found where they are written -/

section

variable {d : Delimiters} (hd : d.IsUsual)

include hd

/-- Three braces do not come about. -/
theorem not_triple_prefix_opening {body : Text} (hbody : d.Spares body) (after : Text) :
    ¬ Enclosure.triple.opening d <+: d.opening ++ (body ++ d.closing ++ after) := by
  intro hpre
  rcases hd with rfl | hfree
  · -- behind the two braces of the standard pair comes the body, or what closes it
    cases body with
    | nil => simp [Enclosure.opening, Delimiters.standard] at hpre
    | cons c body =>
      have hc : '{' = c := by simpa [Enclosure.opening, Delimiters.standard] using hpre
      exact (hbody c List.mem_cons_self).1.1 hc.symm
  · obtain ⟨p, m, hp⟩ := List.exists_cons_of_ne_nil (Enclosure.active.opening_ne_nil d)
    have hopening : d.opening = p :: m := hp
    have hmem : p ∈ d.opening ++ d.closing := by
      rw [hopening]
      exact List.mem_cons_self
    rw [hopening] at hpre
    exact (hfree p hmem).1 (List.cons_prefix_cons.mp hpre).1.symm

/-- **A tag is found where it is written.** -/
theorem found_write {gap body : Text} (hgap : d.Spares gap) (hbody : d.Spares body)
    (after : Text) :
    Found d (gap ++ (Enclosure.active.write d body ++ after)) gap .active body after := by
  have hwrite : Enclosure.active.write d body ++ after =
      d.opening ++ (body ++ d.closing ++ after) := by
    simp only [Enclosure.write, Enclosure.opening, Enclosure.closing, List.append_assoc]
  constructor
  · rw [opening?_append_of_notMem d fun c hc e => hgap.notMem_opening hc e, hwrite,
      opening?_opening (not_triple_prefix_opening hd hbody after)]
    simp only [Option.map_some, List.append_nil]
    rfl
  · show cut? d.closing (body ++ d.closing ++ after) = _
    rw [List.append_assoc, cut?_append_of_notMem d.isMarker_closing.1
      fun c hc => (hbody c hc).2.2, cut?_self_append d.isMarker_closing.1]
    simp only [Option.map_some, List.append_nil]

end

/-! ## What stands beside a tag on its line -/

/-- The two places are both at the beginning of a line, or both behind more than padding. -/
inductive Level (u u' : Text) : Prop
  | lines (left : WholeLines u) (right : WholeLines u')
  | inside (left : isPadding (lastLine u) = false) (right : isPadding (lastLine u') = false)

namespace Level

variable {u u' : Text}

theorem symm (h : Level u u') : Level u' u := by
  cases h with
  | lines left right => exact .lines right left
  | inside left right => exact .inside right left

theorem landing (h : Level u u') : Landing u := by
  cases h with
  | lines left right => exact Or.inl left
  | inside left right => exact Or.inr left

/-- Padding behind the one place is the same padding behind the other. -/
theorem lastLine_eq (h : Level u u') {gap : Text}
    (hpad : isPadding (lastLine (u ++ gap)) = true) :
    lastLine (u' ++ gap) = lastLine (u ++ gap) := by
  by_cases hgap : char '\n' ∈ gap
  · rw [lastLine_append_of_mem u hgap, lastLine_append_of_mem u' hgap]
  · cases h with
    | lines left right => rw [lastLine_append left, lastLine_append right]
    | inside left right =>
      rw [lastLine_append_of_notMem u hgap, isPadding, List.all_append, Bool.and_eq_true] at hpad
      rw [isPadding, hpad.1] at left
      cases left

end Level

/-! ## Rows of tags -/

/-- Contents of tags, each with the text behind the tag, written with a pair. -/
def writeRow (d : Delimiters) (row : List (Text × Text)) : Text :=
  row.flatMap fun (body, behind) => Enclosure.active.write d body ++ behind

theorem writeRow_cons (d : Delimiters) (body behind : Text) (row : List (Text × Text)) :
    writeRow d ((body, behind) :: row) =
      Enclosure.active.write d body ++ (behind ++ writeRow d row) := by
  rw [writeRow, List.flatMap_cons, List.append_assoc]
  rfl

/-- Neither the text in front of a row nor the row holds a brace or a character of the pair. -/
structure Delimiters.SparesRow (d : Delimiters) (gap : Text) (row : List (Text × Text)) : Prop where
  gap : d.Spares gap
  row : ∀ p ∈ row, d.Spares p.1 ∧ d.Spares p.2

namespace Delimiters.SparesRow

variable {d : Delimiters} {gap body behind : Text} {row : List (Text × Text)}

theorem head (h : d.SparesRow gap ((body, behind) :: row)) : d.Spares body :=
  (h.row _ List.mem_cons_self).1

theorem tail (h : d.SparesRow gap ((body, behind) :: row)) : d.SparesRow behind row :=
  ⟨(h.row _ List.mem_cons_self).2, fun p hp => h.row p (List.mem_cons_of_mem _ hp)⟩

theorem afterLine (h : d.SparesRow gap row) : d.SparesRow (OwnLine.afterLine gap) row :=
  ⟨fun c hc => h.gap c (List.mem_of_mem_drop hc), h.row⟩

end Delimiters.SparesRow

namespace Item

/-- The text before the first tag, and the tags each with the text behind it. -/
def toRow : List Item → Text × List (Text × Text)
  | [] => ([], [])
  | text s :: items => (s ++ (toRow items).1, (toRow items).2)
  | tag content :: items => ([], (content, (toRow items).1) :: (toRow items).2)

theorem writeAll_eq (d : Delimiters) (items : List Item) :
    writeAll d items = (toRow items).1 ++ writeRow d (toRow items).2 := by
  induction items with
  | nil => rfl
  | cons item items ih =>
    rw [writeAll, List.flatMap_cons]
    rw [writeAll] at ih
    cases item with
    | text s => rw [ih, toRow, write, List.append_assoc]
    | tag content => rw [ih, toRow, writeRow_cons, write, List.nil_append]

theorem sparesRow_toRow {d : Delimiters} {items : List Item}
    (h : ∀ item ∈ items, d.Spares item.content) :
    d.SparesRow (toRow items).1 (toRow items).2 := by
  induction items with
  | nil => exact ⟨fun _ hc => (List.not_mem_nil hc).elim, fun _ hp => (List.not_mem_nil hp).elim⟩
  | cons item items ih =>
    have hitem := h item List.mem_cons_self
    have hrest := ih fun x hx => h x (List.mem_cons_of_mem item hx)
    cases item with
    | text s => exact ⟨.append hitem hrest.gap, hrest.row⟩
    | tag content =>
      refine ⟨fun _ hc => (List.not_mem_nil hc).elim, ?_⟩
      intro p hp
      rcases List.mem_cons.mp hp with rfl | hp
      · exact ⟨hitem, hrest.gap⟩
      · exact hrest.row p hp

theorem keeps_toRow {items : List Item} (h : ∀ item ∈ items, item.Keeps) :
    ∀ p ∈ (toRow items).2, (trim p.1).head? ≠ some (char '=') := by
  induction items with
  | nil => exact fun _ hp => (List.not_mem_nil hp).elim
  | cons item items ih =>
    have hrest := ih fun x hx => h x (List.mem_cons_of_mem item hx)
    cases item with
    | text s => exact hrest
    | tag content =>
      intro p hp
      rcases List.mem_cons.mp hp with rfl | hp
      · exact h _ List.mem_cons_self
      · exact hrest p hp

end Item

/-- Behind a tag with a line to itself its line ends before the next tag. -/
theorem lineFeed_mem_or_eq_nil {d : Delimiters} {behind : Text} {row : List (Text × Text)}
    (h : isPadding (OwnLine.trailing (behind ++ writeRow d row)) = true) :
    char '\n' ∈ behind ∨ row = [] := by
  cases row with
  | nil => exact Or.inr rfl
  | cons p row =>
    left
    by_contra hn
    obtain ⟨body, more⟩ := p
    obtain ⟨c, m, hm⟩ := List.exists_cons_of_ne_nil d.isMarker_opening.1
    have hc : isBlank c = false := (d.isMarker_opening.2 c (by rw [hm]; exact List.mem_cons_self)).1
    have hopening : Enclosure.active.opening d = c :: m := hm
    rw [writeRow_cons, Enclosure.write, hopening, List.cons_append, List.cons_append,
      List.cons_append, OwnLine.isPadding_trailing_eq_false hn hc] at h
    cases h

/-- The line then ends as it does in the text behind the tag. -/
theorem lineEnd_append_writeRow (d : Delimiters) {behind : Text} {row : List (Text × Text)}
    (h : char '\n' ∈ behind ∨ row = []) :
    OwnLine.trailing (behind ++ writeRow d row) = OwnLine.trailing behind ∧
      OwnLine.lineEnd (behind ++ writeRow d row) = OwnLine.lineEnd behind := by
  rcases h with h | rfl
  · exact OwnLine.trailing_append h _
  · rw [writeRow, List.flatMap_nil, List.append_nil]
    exact ⟨rfl, rfl⟩

/-- **Whether a tag has its line to itself does not depend on the delimiters.** -/
theorem Level.alone {u u' : Text} (h : Level u u') (d d' : Delimiters) {kind : TagKind}
    {gap behind : Text} {row : List (Text × Text)}
    (halone : OwnLine.Alone kind (u ++ gap) (behind ++ writeRow d row)) :
    OwnLine.Alone kind (u' ++ gap) (behind ++ writeRow d' row) := by
  obtain ⟨hkind, hpad, htrail⟩ := halone
  have hend := lineFeed_mem_or_eq_nil htrail
  refine ⟨hkind, ?_, ?_⟩
  · rw [h.lastLine_eq hpad]
    exact hpad
  · rw [(lineEnd_append_writeRow d' hend).1, ← (lineEnd_append_writeRow d hend).1]
    exact htrail

/-- Behind a tag, and behind the rest of its line, two sources are level. -/
theorem level_behind (d d' : Delimiters) (u u' body behind : Text) :
    Level (u ++ Enclosure.active.write d body ++ OwnLine.lineEnd behind)
      (u' ++ Enclosure.active.write d' body ++ OwnLine.lineEnd behind) := by
  by_cases hn : char '\n' ∈ behind
  · obtain ⟨line, rest, rfl, hline⟩ := List.eq_append_cons_of_mem hn
    rw [(OwnLine.lineEnd_append_lineFeed hline rest).1, ← List.append_assoc, ← List.append_assoc]
    exact .lines (wholeLines_concat _) (wholeLines_concat _)
  · rw [(OwnLine.lineEnd_of_notMem hn).1]
    exact .inside (isPadding_lastLine_write d .active u body hn)
      (isPadding_lastLine_write d' .active u' body hn)

/-! ## The readings of a row -/

theorem TagKind.eq_of_ofSigil? {c : CodePoint} (h : ofSigil? c = some .delimiters) : c = '=' := by
  unfold ofSigil? at h
  split at h
  case h_6 => rfl
  all_goals cases h

/-- A tag that does not begin with an equals sign sets no delimiters. -/
theorem Enclosure.kindOf_ne_delimiters {body : Text} (h : (trim body).head? ≠ some (char '=')) :
    Enclosure.active.kindOf body ≠ .delimiters := by
  unfold kindOf
  cases hb : trim body with
  | nil => exact TagKind.noConfusion
  | cons c name =>
    rw [hb] at h
    have hsigil : TagKind.ofSigil? c ≠ some .delimiters := by
      intro hc
      rw [TagKind.eq_of_ofSigil? hc] at h
      exact h rfl
    rw [kindAndName]
    cases hk : TagKind.ofSigil? c with
    | none => exact TagKind.noConfusion
    | some kind =>
      rw [hk] at hsigil
      have hkind : kind ≠ .delimiters := fun hd => hsigil (congrArg some hd)
      cases kind with
      | delimiters => exact absurd rfl hkind
      | _ =>
        simp only
        split <;> exact hkind

/-- The step over a tag of a row that has its line to itself. -/
theorem firstTag_ownLine {d : Delimiters} (hd : d.IsUsual) {u kept padding body behind : Text}
    {row : List (Text × Text)} (spares : d.SparesRow (kept ++ padding) ((body, behind) :: row))
    (alone : OwnLine.Alone (Enclosure.active.kindOf body) (u ++ (kept ++ padding))
      (behind ++ writeRow d row))
    (whole : WholeLines (u ++ kept)) (line : char '\n' ∉ padding) :
    ∃ start resume,
      FirstTag d u (kept ++ padding ++ writeRow d ((body, behind) :: row)) kept
        ((tagOf d .active (u ++ (kept ++ padding)).length body).withLine ⟨start, padding, resume⟩)
        (u ++ (kept ++ padding) ++ Enclosure.active.write d body ++ OwnLine.lineEnd behind)
        (OwnLine.afterLine behind ++ writeRow d row) := by
  have hend := (lineEnd_append_writeRow d (lineFeed_mem_or_eq_nil alone.2.2)).2
  have hafter : behind ++ writeRow d row =
      OwnLine.lineEnd behind ++ (OwnLine.afterLine behind ++ writeRow d row) := by
    rw [← List.append_assoc, OwnLine.lineEnd_append_afterLine]
  have hfound := found_write hd spares.gap spares.head (behind ++ writeRow d row)
  rw [← writeRow_cons, hafter] at hfound
  rw [hafter] at alone hend
  exact ⟨_, _, .ownLine hfound alone whole line hend⟩

/-- **Over the first tag of a row there is a step in both sources**, from level places to level
places. The two tags are for the same thing and leave the same mark, and the same text is kept
before them. -/
theorem Level.exists_steps {d d' : Delimiters} (hd : d.IsUsual) (hd' : d'.IsUsual)
    {gap body behind : Text} {row : List (Text × Text)}
    (spares : d.SparesRow gap ((body, behind) :: row))
    (spares' : d'.SparesRow gap ((body, behind) :: row)) {u u' : Text} (level : Level u u') :
    ∃ kept tag tag' v v' left,
      FirstTag d u (gap ++ writeRow d ((body, behind) :: row)) kept tag v
        (left ++ writeRow d row) ∧
      FirstTag d' u' (gap ++ writeRow d' ((body, behind) :: row)) kept tag' v'
        (left ++ writeRow d' row) ∧
      Level v v' ∧ d.SparesRow left row ∧ d'.SparesRow left row ∧
      tag.kind = Enclosure.active.kindOf body ∧ tag'.kind = tag.kind ∧
      Token.mark? (.tag tag') = Token.mark? (.tag tag) := by
  by_cases halone : OwnLine.Alone (Enclosure.active.kindOf body) (u ++ gap)
      (behind ++ writeRow d row)
  · -- the tag has its line to itself in both sources, with the same padding before it
    have halone' := level.alone d d' halone
    have hlast := level.lastLine_eq halone.2.1
    obtain ⟨kept, hgap, hwhole⟩ := level.landing.exists_padding halone.2.1
    obtain ⟨kept', hgap', hwhole'⟩ := level.symm.landing.exists_padding halone'.2.1
    have hline := notMem_lastLine (u ++ gap)
    rw [hlast] at hgap'
    generalize lastLine (u ++ gap) = padding at hgap hgap' hline
    obtain rfl : kept' = kept := List.append_cancel_right (hgap'.symm.trans hgap)
    subst hgap
    obtain ⟨start, resume, first⟩ := firstTag_ownLine hd spares halone hwhole hline
    obtain ⟨start', resume', first'⟩ := firstTag_ownLine hd' spares' halone' hwhole' hline
    exact ⟨_, _, _, _, _, _, first, first', level_behind d d' _ _ body behind,
      spares.tail.afterLine, spares'.tail.afterLine, rfl, rfl, Token.mark?_congr rfl rfl rfl⟩
  · have halone' : ¬ OwnLine.Alone (Enclosure.active.kindOf body) (u' ++ gap)
        (behind ++ writeRow d' row) := fun h => halone (level.symm.alone d' d h)
    have first := FirstTag.inline (found_write hd spares.gap spares.head _) halone
    have first' := FirstTag.inline (found_write hd' spares'.gap spares'.head _) halone'
    have hlevel := level_behind d d' (u ++ gap) (u' ++ gap) body []
    have hnil : OwnLine.lineEnd [] = [] := rfl
    rw [hnil, List.append_nil, List.append_nil] at hlevel
    rw [← writeRow_cons] at first first'
    exact ⟨_, _, _, _, _, _, first, first', hlevel, spares.tail, spares'.tail, rfl, rfl,
      Token.mark?_congr rfl rfl rfl⟩

/-- **The readings of a row written with two pairs have the same marks, and no flaw.** -/
theorem reads_row {d d' : Delimiters} (hd : d.IsUsual) (hd' : d'.IsUsual)
    {row : List (Text × Text)} (keeps : ∀ p ∈ row, (trim p.1).head? ≠ some (char '=')) {gap : Text}
    (spares : d.SparesRow gap row) (spares' : d'.SparesRow gap row) {u u' : Text}
    (level : Level u u') :
    ∃ s s', Reads d u (gap ++ writeRow d row) s ∧ Reads d' u' (gap ++ writeRow d' row) s' ∧
      s.flaw = none ∧ s'.flaw = none ∧ s'.marks = s.marks := by
  induction row generalizing gap u u' with
  | nil =>
    have hnone {d : Delimiters} (hgap : d.Spares gap) :
        opening? d (gap ++ writeRow d []) = none := by
      rw [opening?_append_of_notMem d fun c hc e => hgap.notMem_opening hc e]
      rfl
    refine ⟨_, _, .finished (hnone spares.gap), .finished (hnone spares'.gap), rfl, rfl, ?_⟩
    simp only [Stream.marks, Run.filterMap_mark?_tokens]
    rfl
  | cons p row ih =>
    obtain ⟨body, behind⟩ := p
    obtain ⟨kept, tag, tag', v, v', left, first, first', hlevel, hspares, hspares', hkind, hkind',
      hmark⟩ := level.exists_steps hd hd' spares spares'
    obtain ⟨s, s', hs, hs', hflaw, hflaw', hmarks⟩ :=
      ih (fun p hp => keeps p (List.mem_cons_of_mem _ hp)) hspares hspares' hlevel
    -- the pair stays in force
    have hne : tag.kind ≠ .delimiters := by
      rw [hkind]
      exact Enclosure.kindOf_ne_delimiters (keeps _ List.mem_cons_self)
    have hpair : tag.pairAfter d = .ok d := if_neg hne
    have hpair' : tag'.pairAfter d' = .ok d' := if_neg (by rw [hkind']; exact hne)
    exact ⟨_, _, .tag first hpair hs, .tag first' hpair' hs', hflaw, hflaw',
      Stream.marks_cons_congr rfl hmark hmarks⟩

/-! ## Parsing -/

/-- **The tree of a row of items does not depend on the delimiters it is written with**, and if it
has none, neither does what is wrong with its blocks. -/
theorem Template.parse_writeAll {d d' : Delimiters} (hd : d.IsUsual) (hd' : d'.IsUsual)
    {items : List Item}
    (h : ∀ item ∈ items, d.Spares item.content ∧ d'.Spares item.content ∧ item.Keeps)
    (name : Text) :
    (∃ t, parse name (Item.writeAll d items) d = .ok t ∧
      parse name (Item.writeAll d' items) d' = .ok t) ∨
    ∃ e e', parse name (Item.writeAll d items) d = .error e ∧
      parse name (Item.writeAll d' items) d' = .error e' ∧ e'.kind = e.kind ∧
      e.kind.IsUnbalanced := by
  have hspares := Item.sparesRow_toRow fun item hitem => (h item hitem).1
  have hspares' := Item.sparesRow_toRow fun item hitem => (h item hitem).2.1
  have hkeeps := Item.keeps_toRow fun item hitem => (h item hitem).2.2
  obtain ⟨s, s', hs, hs', hflaw, hflaw', hmarks⟩ :=
    reads_row hd hd' hkeeps hspares hspares' (.lines wholeLines_nil wholeLines_nil)
  rw [← Item.writeAll_eq] at hs hs'
  have hstream : s = Stream.ofSource (Item.writeAll d items) d 0 := hs.eq_ofSource
  have hstream' : s' = Stream.ofSource (Item.writeAll d' items) d' 0 := hs'.eq_ofSource
  rw [hstream] at hflaw hmarks
  rw [hstream'] at hflaw' hmarks
  rcases Stream.build_eq_of_marks hflaw hflaw' hmarks with
    ⟨root, hroot, hroot'⟩ | ⟨flaw, flaw', herror, herror', hkind, hunbalanced⟩
  · exact Or.inl ⟨⟨name, root⟩, parse_eq_ok_iff.mpr ⟨rfl, hroot⟩, parse_eq_ok_iff.mpr ⟨rfl, hroot'⟩⟩
  · exact Or.inr ⟨_, _, parse_eq_error_iff.mpr ⟨flaw, herror, rfl⟩,
      parse_eq_error_iff.mpr ⟨flaw', herror', rfl⟩, hkind, hunbalanced⟩

/-- A page with a section and an included part on lines of their own. -/
def pageItems : List Item :=
  [.text "a\r\n ".toText, .tag "# s".toText, .text "\r\n b ".toText, .tag "x".toText,
    .text "\n\t".toText, .tag "> p ".toText, .text " \n".toText, .tag "/s".toText]

/-- The page written with the standard pair, and with a pair whose markers are one and the same. -/
theorem Template.parse_writeAll_page :
    let bar : Delimiters := ⟨['|'], ['|'], by decide, by decide⟩
    Delimiters.standard.IsUsual ∧ bar.IsUsual ∧
      (∀ item ∈ pageItems,
        Delimiters.standard.Spares item.content ∧ bar.Spares item.content ∧ item.Keeps) ∧
      ∃ t, parse [] (Item.writeAll .standard pageItems) .standard = .ok t ∧
        parse [] (Item.writeAll bar pageItems) bar = .ok t := by
  intro bar
  have hstandard : Delimiters.standard.IsUsual := by decide
  have hbar : bar.IsUsual := by decide
  have hitems : ∀ item ∈ pageItems,
      Delimiters.standard.Spares item.content ∧ bar.Spares item.content ∧ item.Keeps := by
    decide
  refine ⟨hstandard, hbar, hitems, ?_⟩
  rcases parse_writeAll hstandard hbar hitems [] with h | ⟨e, e', he, -⟩
  · exact h
  · have hok : parse [] (Item.writeAll .standard pageItems) .standard = .ok ⟨[], [
        .text "a\r\n".toText,
        .block ['s'] false [.text " b ".toText, .interpolate ['x'] true, .text ['\n'],
          .inclusion ['p'] ['\t'] true]]⟩ := by
      decide +kernel
    rw [hok] at he
    cases he

end Mustache
