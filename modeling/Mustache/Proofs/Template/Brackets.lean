import Mustache.Template.Stream

/-!
# Brackets

The tags that open and close blocks are brackets. Rows of tokens whose brackets are properly nested
under equal names are given by a grammar, without a tree and without a stack of open blocks
(`Nested`), and so are rows that leave some blocks open (`LeavesOpen`) and the flaw that shows first
in a row (`Stream.FirstFlaw`).

Nothing but the brackets counts for them, and the offsets of the tokens do not.

* `Nested.of_view`, `LeavesOpen.exists_of_view`, `Stream.FirstFlaw.exists_of_view` — rows whose
  brackets look alike, seen through two views
* `Nested.of_bracket?_eq`, `Stream.FirstFlaw.exists_of_bracket?_eq` — rows whose brackets have the
  same names
* `Nested.congr`, `Stream.FirstFlaw.congr` — rows with the same brackets
* `Stream.FirstFlaw.append` — a nested row in front
* `Stream.FirstFlaw.shift` — the same row at other offsets
-/

namespace Mustache

/-! ## Brackets -/

/-- Does a tag of this kind begin a block? -/
def TagKind.opens : TagKind → Bool
  | .openBlock | .openInverted => true
  | _ => false

/-- Does the token begin or end a block? -/
def Token.isBracket : Token → Bool
  | .run _ => false
  | .tag t => t.kind.opens || t.kind == .closeBlock

/-- What counts of a bracket: whether it begins a block, and its name. -/
def Token.bracket? : Token → Option (Bool × Text)
  | .run _ => none
  | .tag t =>
    if t.kind.opens then some (true, t.name)
    else if t.kind = .closeBlock then some (false, t.name)
    else none

/-- The brackets of the row are properly nested, and what closes a block has the name of what opens
it. -/
inductive Nested : List Token → Prop
  | nil : Nested []
  | other {t : Token} {ts : List Token} (bracket : t.isBracket = false) (rest : Nested ts) :
      Nested (t :: ts)
  | block {opened closed : Tag} {body ts : List Token} (opens : opened.kind.opens = true)
      (closes : closed.kind = .closeBlock) (name : opened.name = closed.name)
      (inside : Nested body) (rest : Nested ts) :
      Nested (.tag opened :: body ++ .tag closed :: ts)

/-- The row leaves these blocks open, the innermost first, and is properly nested otherwise. -/
inductive LeavesOpen : List Token → List Tag → Prop
  | nested {ts : List Token} (nested : Nested ts) : LeavesOpen ts []
  | opened {ts us : List Token} {stack : List Tag} {t : Tag} (before : LeavesOpen ts stack)
      (opens : t.kind.opens = true) (inside : Nested us) :
      LeavesOpen (ts ++ .tag t :: us) (t :: stack)

/-- The flaw that shows first: a closing tag that does not close the innermost open block, or else
what stops the reading, or else a block that is open at the end. -/
inductive Stream.FirstFlaw (stream : Stream) : Flaw → Prop
  | strayClose {before after : List Token} {t : Tag} {stack : List Tag}
      (tokens : stream.tokens = before ++ .tag t :: after) (open_ : LeavesOpen before stack)
      (closes : t.kind = .closeBlock) (name : stack.head?.map (·.name) ≠ some t.name) :
      FirstFlaw stream ⟨.strayClose t.name (stack.head?.map (·.name)), t.start⟩
  | unreadable {stack : List Tag} {flaw : Flaw} (open_ : LeavesOpen stream.tokens stack)
      (stops : stream.flaw = some flaw) : FirstFlaw stream flaw
  | unclosedBlock {t : Tag} {stack : List Tag} (open_ : LeavesOpen stream.tokens (t :: stack))
      (finished : stream.flaw = none) : FirstFlaw stream ⟨.unclosedBlock t.name, t.start⟩

/-- Does the flaw say that a block is not closed, or is closed where it is not open? -/
def FlawKind.IsUnbalanced : FlawKind → Prop
  | .strayClose _ _ | .unclosedBlock _ => True
  | .unclosedTag _ _ | .badDelimiters _ => False

theorem Nested.append {ts us : List Token} (ht : Nested ts) (hu : Nested us) :
    Nested (ts ++ us) := by
  induction ht with
  | nil => exact hu
  | other bracket _ ih => exact .other bracket ih
  | block opens closes name inside _ _ ih =>
    rw [List.append_assoc, List.cons_append]
    exact .block opens closes name inside ih

theorem LeavesOpen.append {ts us : List Token} {stack : List Tag} (ht : LeavesOpen ts stack)
    (hu : Nested us) : LeavesOpen (ts ++ us) stack := by
  cases ht with
  | nested nested => exact .nested (nested.append hu)
  | opened before opens inside =>
    rw [List.append_assoc, List.cons_append]
    exact .opened before opens (inside.append hu)

theorem LeavesOpen.nested_of_nil {ts : List Token} (h : LeavesOpen ts []) : Nested ts := by
  cases h with
  | nested nested => exact nested

/-- The innermost open block is closed by a tag of its name. -/
theorem LeavesOpen.close {ts : List Token} {stack : List Tag} {opened closed : Tag}
    (ht : LeavesOpen ts (opened :: stack)) (closes : closed.kind = .closeBlock)
    (name : opened.name = closed.name) : LeavesOpen (ts ++ [.tag closed]) stack := by
  cases ht with
  | opened before opens inside =>
    rw [List.append_assoc]
    exact before.append (.block opens closes name inside .nil)

/-! ## What is seen of brackets -/

/-- What is seen of tags alone is not seen of a run. -/
theorem Run.filterMap_tokens {α : Type} {view : Token → Option α} (h : ∀ r, view (.run r) = none)
    (r : Run) : r.tokens.filterMap view = [] := by
  unfold tokens
  split
  · rfl
  · rw [List.filterMap_cons_none (h r), List.filterMap_nil]

namespace Token

/-- What is seen of a bracket: whether it begins a block, and what `view` shows of it. -/
def bracketBy? {α : Type} (view : Tag → α) : Token → Option (Bool × α)
  | .run _ => none
  | .tag t =>
    if t.kind.opens then some (true, view t)
    else if t.kind = .closeBlock then some (false, view t)
    else none

section

variable {α : Type} {view : Tag → α}

theorem bracketBy?_of_opens {t : Tag} (h : t.kind.opens = true) :
    bracketBy? view (.tag t) = some (true, view t) := by
  rw [bracketBy?, if_pos h]

theorem bracketBy?_of_closes {t : Tag} (h : t.kind = .closeBlock) :
    bracketBy? view (.tag t) = some (false, view t) := by
  have hopens : ¬ t.kind.opens = true := by rw [h]; exact Bool.false_ne_true
  rw [bracketBy?, if_neg hopens, if_pos h]

theorem bracketBy?_eq_none_iff {t : Token} : t.bracketBy? view = none ↔ t.isBracket = false := by
  cases t with
  | run r => exact ⟨fun _ => rfl, fun _ => rfl⟩
  | tag t => cases hk : t.kind <;> simp [bracketBy?, isBracket, TagKind.opens, hk]

/-- A bracket that begins a block, or one that ends a block. -/
theorem exists_of_bracketBy?_eq_some {t : Token} {opens : Bool} {a : α}
    (h : t.bracketBy? view = some (opens, a)) :
    ∃ tag, t = .tag tag ∧ view tag = a ∧
      if opens then tag.kind.opens = true else tag.kind = .closeBlock := by
  cases t with
  | run r => cases h
  | tag t =>
    rw [bracketBy?] at h
    split at h
    · next ho =>
      cases h
      exact ⟨t, rfl, rfl, ho⟩
    · split at h
      · next hc =>
        cases h
        exact ⟨t, rfl, rfl, hc⟩
      · cases h

theorem filterMap_bracketBy?_filter (ts : List Token) :
    (ts.filter isBracket).filterMap (bracketBy? view) = ts.filterMap (bracketBy? view) := by
  rw [List.filterMap_filter]
  congr 1
  funext t
  split
  · rfl
  · next h =>
    rw [Bool.not_eq_true] at h
    exact (bracketBy?_eq_none_iff.mpr h).symm

end

/-- Brackets seen by their names. -/
theorem bracket?_eq_bracketBy? : bracket? = bracketBy? (·.name) := by
  funext t
  cases t <;> rfl

end Token

theorem nested_of_no_bracket {ts : List Token} (h : ∀ t ∈ ts, t.isBracket = false) :
    Nested ts := by
  induction ts with
  | nil => exact .nil
  | cons t ts ih =>
    exact .other (h t List.mem_cons_self) (ih fun u hu => h u (List.mem_cons_of_mem t hu))

/-! ## Rows whose brackets look alike

The brackets of one row, seen through one view, are those of another row, seen through another.
What looks alike has the same name, up to a renaming. -/

section

variable {α : Type} {view view' : Tag → α} {rename : Text → Text}

theorem nested_of_bracketBy?_eq_none {ts : List Token}
    (h : ∀ t ∈ ts, t.bracketBy? view = none) : Nested ts :=
  nested_of_no_bracket fun t ht => Token.bracketBy?_eq_none_iff.mp (h t ht)

variable (hnames : ∀ t t', view' t' = view t → t'.name = rename t.name)

include hnames

/-- **Whether a row is nested is seen from the names of its brackets.** -/
theorem Nested.of_view {ts us : List Token} (ht : Nested ts)
    (h : us.filterMap (Token.bracketBy? view') = ts.filterMap (Token.bracketBy? view)) :
    Nested us := by
  induction ht generalizing us with
  | nil => exact nested_of_bracketBy?_eq_none (List.filterMap_eq_nil_iff.mp h)
  | other bracket _ ih =>
    exact ih (h.trans (List.filterMap_cons_none (Token.bracketBy?_eq_none_iff.mpr bracket)))
  | @block opened closed body ts opens closes name _ _ ihbody ihrest =>
    rw [List.cons_append, List.filterMap_cons_some (Token.bracketBy?_of_opens opens),
      List.filterMap_append, List.filterMap_cons_some (Token.bracketBy?_of_closes closes)] at h
    -- cut the row where its brackets are those around the body
    obtain ⟨before, first, rest, rfl, hbefore, hfirst, hrest⟩ := List.filterMap_eq_cons_iff.mp h
    obtain ⟨inside, rest, rfl, hinside, hrest⟩ := List.filterMap_eq_append_iff.mp hrest
    obtain ⟨after, last, rest, rfl, hafter, hlast, hts⟩ := List.filterMap_eq_cons_iff.mp hrest
    obtain ⟨opened', rfl, hopened, opens'⟩ := Token.exists_of_bracketBy?_eq_some hfirst
    obtain ⟨closed', rfl, hclosed, closes'⟩ := Token.exists_of_bracketBy?_eq_some hlast
    have hname : opened'.name = closed'.name := by
      rw [hnames _ _ hopened, hnames _ _ hclosed, name]
    have hbody := (ihbody hinside).append (nested_of_bracketBy?_eq_none hafter)
    have hblock := Nested.block opens' closes' hname hbody (ihrest hts)
    rw [List.cons_append, List.append_assoc] at hblock
    exact (nested_of_bracketBy?_eq_none hbefore).append hblock

/-- **What is seen of the blocks that a row leaves open is seen from its brackets.** -/
theorem LeavesOpen.exists_of_view {ts us : List Token} {stack : List Tag}
    (ht : LeavesOpen ts stack)
    (h : us.filterMap (Token.bracketBy? view') = ts.filterMap (Token.bracketBy? view)) :
    ∃ stack', LeavesOpen us stack' ∧ stack'.map view' = stack.map view := by
  induction ht generalizing us with
  | nested nested => exact ⟨[], .nested (nested.of_view hnames h), rfl⟩
  | @opened ts vs stack t _ opens inside ih =>
    rw [List.filterMap_append, List.filterMap_cons_some (Token.bracketBy?_of_opens opens)] at h
    obtain ⟨before, rest, rfl, hbefore, hrest⟩ := List.filterMap_eq_append_iff.mp h
    obtain ⟨more, first, after, rfl, hmore, hfirst, hafter⟩ := List.filterMap_eq_cons_iff.mp hrest
    obtain ⟨opened, rfl, hopened, opens'⟩ := Token.exists_of_bracketBy?_eq_some hfirst
    obtain ⟨stack', hopen, hstack⟩ := ih hbefore
    have hopen' := LeavesOpen.opened (hopen.append (nested_of_bracketBy?_eq_none hmore)) opens'
      (inside.of_view hnames hafter)
    rw [List.append_assoc] at hopen'
    refine ⟨opened :: stack', hopen', ?_⟩
    rw [List.map_cons, List.map_cons, hopened, hstack]

theorem head?_name_of_view {stack stack' : List Tag} (h : stack'.map view' = stack.map view) :
    stack'.head?.map (·.name) = (stack.head?.map (·.name)).map rename := by
  cases stack with
  | nil =>
    rw [List.map_eq_nil_iff.mp h]
    rfl
  | cons t stack =>
    obtain ⟨t', stack', rfl, ht', -⟩ := List.map_eq_cons_iff.mp h
    exact congrArg some (hnames t t' ht')

/-- **What flaw shows first is seen from the brackets.** The flaws of two rows whose brackets look
alike correspond, when the flaws do that come of two brackets that look alike, and those that stop
the rows. -/
theorem Stream.FirstFlaw.exists_of_view (hrename : Function.Injective rename)
    (Corresponds : Flaw → Flaw → Prop) {s t : Stream} {flaw : Flaw} (h : s.FirstFlaw flaw)
    (htokens : t.tokens.filterMap (Token.bracketBy? view') =
      s.tokens.filterMap (Token.bracketBy? view))
    (stray : ∀ tag tag' expected, view' tag' = view tag →
      Corresponds ⟨.strayClose tag.name expected, tag.start⟩
        ⟨.strayClose tag'.name (expected.map rename), tag'.start⟩)
    (unclosed : ∀ tag tag', view' tag' = view tag →
      Corresponds ⟨.unclosedBlock tag.name, tag.start⟩ ⟨.unclosedBlock tag'.name, tag'.start⟩)
    (stops : ∀ flaw, s.flaw = some flaw → ∃ flaw', t.flaw = some flaw' ∧ Corresponds flaw flaw')
    (finished : s.flaw = none → t.flaw = none) :
    ∃ flaw', t.FirstFlaw flaw' ∧ Corresponds flaw flaw' := by
  cases h with
  | @strayClose before after tag stack tokens open_ closes name =>
    rw [tokens, List.filterMap_append,
      List.filterMap_cons_some (Token.bracketBy?_of_closes closes)] at htokens
    obtain ⟨front, rest, hfront, hbefore, hrest⟩ := List.filterMap_eq_append_iff.mp htokens
    obtain ⟨more, first, behind, rfl, hmore, hfirst, -⟩ := List.filterMap_eq_cons_iff.mp hrest
    obtain ⟨closed, rfl, hclosed, closes'⟩ := Token.exists_of_bracketBy?_eq_some hfirst
    obtain ⟨stack', hopen, hstack⟩ := open_.exists_of_view hnames hbefore
    have hhead := head?_name_of_view hnames hstack
    have hname := hnames _ _ hclosed
    rw [← List.append_assoc] at hfront
    have hflaw := FirstFlaw.strayClose hfront (hopen.append (nested_of_bracketBy?_eq_none hmore))
      closes' (by
        rw [hhead, hname, ← Option.map_some, (Option.map_injective hrename).ne_iff]
        exact name)
    rw [hhead] at hflaw
    exact ⟨_, hflaw, stray _ _ _ hclosed⟩
  | unreadable open_ stops' =>
    obtain ⟨stack', hopen, -⟩ := open_.exists_of_view hnames htokens
    obtain ⟨flaw', hflaw', hcorr⟩ := stops _ stops'
    exact ⟨flaw', .unreadable hopen hflaw', hcorr⟩
  | @unclosedBlock opened stack open_ finished' =>
    obtain ⟨stack', hopen, hstack⟩ := open_.exists_of_view hnames htokens
    cases stack' with
    | nil => cases hstack
    | cons opened' stack' =>
      exact ⟨_, .unclosedBlock hopen (finished finished'), unclosed _ _ (List.cons.inj hstack).1⟩

end

/-! ## Rows with the same brackets -/

/-- Whether a row is nested is seen from the names of its brackets alone. -/
theorem Nested.of_bracket?_eq {ts us : List Token} (ht : Nested ts)
    (h : us.filterMap Token.bracket? = ts.filterMap Token.bracket?) : Nested us := by
  rw [Token.bracket?_eq_bracketBy?] at h
  have hnames (t t' : Tag) (heq : t'.name = t.name) : t'.name = id t.name := heq
  exact ht.of_view hnames h

/-- Rows with the same brackets are nested together. -/
theorem Nested.congr {ts us : List Token} (ht : Nested ts)
    (h : us.filter Token.isBracket = ts.filter Token.isBracket) : Nested us := by
  refine ht.of_bracket?_eq ?_
  rw [Token.bracket?_eq_bracketBy?, ← Token.filterMap_bracketBy?_filter us, h,
    Token.filterMap_bracketBy?_filter]

/-- What a row leaves open is seen from its brackets, up to offsets. -/
theorem LeavesOpen.exists_of_bracket?_eq {ts us : List Token} {stack : List Tag}
    (ht : LeavesOpen ts stack)
    (h : us.filterMap Token.bracket? = ts.filterMap Token.bracket?) :
    ∃ stack', LeavesOpen us stack' ∧ stack'.head?.map (·.name) = stack.head?.map (·.name) := by
  rw [Token.bracket?_eq_bracketBy?] at h
  have hnames (t t' : Tag) (heq : t'.name = t.name) : t'.name = id t.name := heq
  obtain ⟨stack', hopen, hstack⟩ := ht.exists_of_view hnames h
  refine ⟨stack', hopen, ?_⟩
  rw [head?_name_of_view hnames hstack, Option.map_id]
  rfl

/-- What a row leaves open it leaves open behind a nested one. -/
theorem LeavesOpen.prepend {ts us : List Token} {stack : List Tag} (ht : Nested ts)
    (hu : LeavesOpen us stack) : LeavesOpen (ts ++ us) stack := by
  induction hu with
  | nested nested => exact .nested (ht.append nested)
  | opened _ opens inside ih =>
    rw [← List.append_assoc]
    exact .opened ih opens inside

namespace Stream.FirstFlaw

/-- **Streams with the same brackets, and stopped by the same flaw, show the same flaw first.** -/
theorem congr {s t : Stream} {flaw : Flaw} (h : s.FirstFlaw flaw)
    (htokens : t.tokens.filter Token.isBracket = s.tokens.filter Token.isBracket)
    (hflaw : t.flaw = s.flaw) : t.FirstFlaw flaw := by
  have hbrackets : t.tokens.filterMap (Token.bracketBy? id) =
      s.tokens.filterMap (Token.bracketBy? id) := by
    rw [← Token.filterMap_bracketBy?_filter t.tokens, htokens, Token.filterMap_bracketBy?_filter]
  have hnames (t t' : Tag) (heq : id t' = id t) : t'.name = id t.name := congrArg Tag.name heq
  obtain ⟨flaw', hfirst, rfl⟩ := h.exists_of_view hnames Function.injective_id
    (fun flaw flaw' => flaw' = flaw) hbrackets
    (fun tag tag' expected heq => by rw [show tag' = tag from heq, Option.map_id]; rfl)
    (fun tag tag' heq => by rw [show tag' = tag from heq])
    (fun flaw hs => ⟨flaw, hflaw.trans hs, rfl⟩) hflaw.trans
  exact hfirst

/-- **What flaw shows first is seen from the names of the brackets**, apart from where it shows. -/
theorem exists_of_bracket?_eq {s t : Stream} {flaw : Flaw} (h : s.FirstFlaw flaw)
    (htokens : t.tokens.filterMap Token.bracket? = s.tokens.filterMap Token.bracket?)
    (hflaw : t.flaw = s.flaw) : ∃ flaw', t.FirstFlaw flaw' ∧ flaw'.kind = flaw.kind := by
  rw [Token.bracket?_eq_bracketBy?] at htokens
  have hnames (t t' : Tag) (heq : t'.name = t.name) : t'.name = id t.name := heq
  exact h.exists_of_view hnames Function.injective_id
    (fun flaw flaw' => flaw'.kind = flaw.kind) htokens
    (fun tag tag' expected heq => by rw [show tag'.name = tag.name from heq, Option.map_id]; rfl)
    (fun tag tag' heq => by rw [show tag'.name = tag.name from heq])
    (fun flaw hs => ⟨flaw, hflaw.trans hs, rfl⟩) hflaw.trans

/-- A stream that can be read shows no flaw but that of its brackets. -/
theorem isUnbalanced {s : Stream} {flaw : Flaw} (h : s.FirstFlaw flaw) (hs : s.flaw = none) :
    flaw.kind.IsUnbalanced := by
  cases h with
  | strayClose tokens open_ closes name => exact True.intro
  | unreadable open_ stops =>
    rw [hs] at stops
    cases stops
  | unclosedBlock open_ finished => exact True.intro

/-- **Behind a nested row the same flaw shows first.** -/
theorem append {ts us : List Token} {stopped : Option Flaw} {flaw : Flaw} (ht : Nested ts)
    (h : FirstFlaw ⟨us, stopped⟩ flaw) : FirstFlaw ⟨ts ++ us, stopped⟩ flaw := by
  cases h with
  | @strayClose before after tag stack tokens open_ closes name =>
    obtain rfl : us = _ := tokens
    exact .strayClose (List.append_assoc ts _ _).symm (.prepend ht open_) closes name
  | unreadable open_ stops => exact .unreadable (.prepend ht open_) stops
  | unclosedBlock open_ finished => exact .unclosedBlock (.prepend ht open_) finished

end Stream.FirstFlaw

/-! ## The same row at other offsets -/

/-- The line `n` characters further on. -/
def OwnLine.shift (n : Nat) (line : OwnLine) : OwnLine :=
  ⟨n + line.lineStart, line.padding, n + line.resume⟩

/-- The tag `n` characters further on. -/
def Tag.shift (n : Nat) (t : Tag) : Tag :=
  { t with start := n + t.start, stop := n + t.stop, ownLine := t.ownLine.map (.shift n) }

/-- The run `n` characters further on. -/
def Run.shift (n : Nat) (r : Run) : Run := { r with start := n + r.start }

/-- The token `n` characters further on. -/
def Token.shift (n : Nat) : Token → Token
  | .run r => .run (r.shift n)
  | .tag t => .tag (t.shift n)

/-- The flaw `n` characters further on. -/
def Flaw.shift (n : Nat) (flaw : Flaw) : Flaw := { flaw with position := n + flaw.position }

/-- The stream `n` characters further on. -/
def Stream.shift (n : Nat) (s : Stream) : Stream :=
  ⟨s.tokens.map (.shift n), s.flaw.map (.shift n)⟩

theorem filterMap_bracketBy?_shift {α : Type} (view : Tag → α) (n : Nat) (ts : List Token) :
    (ts.map (Token.shift n)).filterMap (Token.bracketBy? view) =
      ts.filterMap (Token.bracketBy? fun t => view (t.shift n)) := by
  rw [List.filterMap_map]
  congr 1
  funext t
  cases t <;> rfl

theorem name_of_eq_shift {n : Nat} (t t' : Tag) (h : id t' = t.shift n) : t'.name = id t.name := by
  rw [show t' = t.shift n from h]
  rfl

theorem Nested.shift {ts : List Token} (h : Nested ts) (n : Nat) :
    Nested (ts.map (Token.shift n)) :=
  h.of_view name_of_eq_shift (filterMap_bracketBy?_shift id n ts)

/-- **At other offsets the same flaw shows first.** -/
theorem Stream.FirstFlaw.shift {s : Stream} {flaw : Flaw} (h : s.FirstFlaw flaw) (n : Nat) :
    (s.shift n).FirstFlaw (flaw.shift n) := by
  obtain ⟨flaw', hfirst, rfl⟩ := h.exists_of_view (t := s.shift n) name_of_eq_shift
    Function.injective_id (fun flaw flaw' => flaw' = flaw.shift n)
    (filterMap_bracketBy?_shift id n s.tokens)
    (fun tag tag' expected heq => by rw [show tag' = tag.shift n from heq, Option.map_id]; rfl)
    (fun tag tag' heq => by rw [show tag' = tag.shift n from heq]; rfl)
    (fun flaw hs => ⟨_, congrArg (Option.map (Flaw.shift n)) hs, rfl⟩)
    (congrArg (Option.map (Flaw.shift n)))
  exact hfirst

end Mustache
