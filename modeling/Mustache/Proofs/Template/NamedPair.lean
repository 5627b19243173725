import Mustache.Proofs.Delimiters
import Mustache.Proofs.Template.Seam

/-!
# A pair named in the first line

The pair that a source begins with can be given apart from it, or the source can say so itself, in a
first line with nothing but a set-delimiter tag. Either way the source is read alike: the tag has
its line to itself, so reading goes on with the named pair where the next line begins, and behind
whole lines a reading is the same one further on.

The tag is written with the standard pair, and ends at the first two closing braces. That they are
the ones it is written with is all that is asked of the named pair.

* `Delimiters.ofBody_named` — a pair is read as it is written
* `Delimiters.firstTag_settingLine` — the step over the first line
* `Stream.build_shift` — the tree of a stream further on
* `Template.parse_settingLine` — the two ways to give the first pair
-/

namespace Mustache

open Text

namespace Delimiters

variable (d : Delimiters)

/-- The pair as a set-delimiter tag names it. -/
def named : Text := d.opening ++ char ' ' :: d.closing ++ [char '=']

/-- A line that sets the delimiters, for a source that begins with the standard pair. -/
def settingLine : Text :=
  [char '{', '{', '='] ++ d.opening ++ [char ' '] ++ d.closing ++ [char '=', '}', '}', '\n']

theorem settingLine_eq :
    d.settingLine = Enclosure.active.write .standard (char '=' :: d.named) ++ [char '\n'] := by
  simp only [settingLine, Enclosure.write, Enclosure.opening, Enclosure.closing, standard, named,
    List.append_assoc, List.cons_append, List.nil_append]

/-! ## Reading the named pair -/

theorem isNamedBy_named : d.IsNamedBy d.named := by
  refine ⟨[], [' '], [], [], fun c hc => ?_, List.cons_ne_nil _ _, by simp [named]⟩
  obtain rfl : c = ' ' := List.mem_singleton.mp hc
  rfl

/-- **A pair is read as it is written.** -/
theorem ofBody_named : ofBody d.named = .ok d := d.isNamedBy_named.ofBody_eq

theorem trim_cons_named : trim (char '=' :: d.named) = char '=' :: d.named := by
  refine trim_eq_self (fun c hc => ?_) fun c hc => ?_
  · obtain rfl : '=' = c := Option.some.inj hc
    decide
  · have hlast : (char '=' :: d.named).getLast? = some (char '=') :=
      List.getLast?_concat (l := char '=' :: _)
    rw [hlast] at hc
    cases hc
    decide

theorem kindAndName_named :
    kindAndName .active (trim ('=' :: d.named)) = (.delimiters, d.named) := by
  rw [trim_cons_named]
  rfl

/-! ## The step over the first line -/

section

variable {d} (hopening : ¬ [char '}', '}'] <:+: d.opening)
  (hclosing : ¬ [char '}', '}'] <:+: d.closing)

include hopening hclosing

/-- The tag ends where it is meant to. -/
theorem found_named (s : Text) :
    Found .standard (d.settingLine ++ s) [] .active (char '=' :: d.named) (char '\n' :: s) := by
  constructor
  · have hpre : ¬ Enclosure.triple.opening .standard <+:
        standard.opening ++ (char '=' :: d.named ++ [char '}', '}'] ++ char '\n' :: s) := by
      simp [Enclosure.opening, standard]
    have hopen := opening?_opening hpre
    rw [settingLine_eq]
    simpa only [Enclosure.write, Enclosure.opening, Enclosure.closing, standard, List.append_assoc,
      List.cons_append, List.nil_append] using hopen
  · -- neither marker holds two closing braces, and what stands between them holds none
    have hne : (['}', '}'] : Text) ≠ [] := by simp
    have hbody : char '=' :: d.named ++ [char '}', '}'] ++ char '\n' :: s =
        [char '='] ++ (d.opening ++ char ' ' ::
          (d.closing ++ char '=' :: ([char '}', '}'] ++ char '\n' :: s))) := by
      simp [named]
    show cut? ['}', '}'] (char '=' :: d.named ++ [char '}', '}'] ++ char '\n' :: s) = _
    rw [hbody, cut?_append_of_notMem hne (by simp), cut?_append_cons hne hopening (by simp),
      cut?_append_cons hne hclosing (by simp), cut?_self_append hne]
    simp [named]

/-- **The first line is passed over whole.** -/
theorem firstTag_settingLine (s : Text) :
    ∃ tag, FirstTag .standard [] (d.settingLine ++ s) [] tag d.settingLine s ∧
      tag.pairAfter .standard = .ok d ∧ Token.mark? (.tag tag) = none := by
  have hkind : Enclosure.active.kindOf ('=' :: d.named) = .delimiters :=
    congrArg Prod.fst d.kindAndName_named
  have hfound : Found .standard ([] ++ Enclosure.active.write .standard (char '=' :: d.named) ++
      ([] ++ char '\n' :: s)) [] .active (char '=' :: d.named) ([] ++ char '\n' :: s) := by
    have hfound := found_named hopening hclosing s
    rw [settingLine_eq, List.append_assoc] at hfound
    exact hfound
  obtain ⟨tag, hstep, htag, hname⟩ := exists_firstTag_line wholeLines_nil rfl rfl
    (by rw [hkind]; rfl) hfound
  rw [hkind] at htag
  rw [kindAndName_named] at hname
  refine ⟨tag, ?_, ?_, ?_⟩
  · rw [settingLine_eq]
    simpa only [List.append_nil, List.nil_append] using hstep
  · rw [Tag.pairAfter, if_pos htag, hname]
    exact d.ofBody_named
  · rw [Token.mark?, htag]

end
end Delimiters

/-! ## Trees of streams -/

/-- What leaves no mark leaves the tree as it is. -/
theorem Builder.feed_of_mark?_eq_none {t : Token} (h : t.mark? = none) (b : Builder) :
    b.feed t = .ok b := by
  cases t with
  | run r => cases h
  | tag t =>
    cases hk : t.kind <;> simp only [Token.mark?, hk, reduceCtorEq] at h
    case comment | delimiters => simp only [feed, hk]

namespace Stream

theorem build_cons_of_mark?_eq_none {tag : Tag} (h : Token.mark? (.tag tag) = none) (p : Nat)
    (s : Stream) : (s.cons ⟨[], p⟩ tag).build = s.build := by
  have hfeed : Builder.empty.feedAll (s.cons ⟨[], p⟩ tag).tokens =
      Builder.empty.feedAll s.tokens := by
    show Builder.empty.feedAll (.tag tag :: s.tokens) = _
    rw [Builder.feedAll, Builder.feed_of_mark?_eq_none h]
  rw [build, hfeed]
  rfl

/-- **Further on a stream has the same tree, or the same flaw further on.** -/
theorem build_shift (n : Nat) (s : Stream) :
    (s.shift n).build = s.build.mapError (Flaw.shift n) := by
  cases hs : s.build with
  | ok root =>
    obtain ⟨hflaw, hnested, hmarks⟩ := build_eq_ok_iff.mp hs
    refine build_eq_ok_iff.mpr ⟨?_, hnested.shift n, ?_⟩
    · rw [shift, hflaw]
      rfl
    · rw [hmarks]
      exact congrArg Mark.joined (marks_shift n s).symm
  | error flaw => exact build_eq_error_iff.mpr ((build_eq_error_iff.mp hs).shift n)

end Stream

/-! ## Parsing -/

namespace Delimiters

theorem wholeLines_settingLine (d : Delimiters) : WholeLines d.settingLine := by
  rw [settingLine_eq]
  exact wholeLines_concat _

theorem count_settingLine (d : Delimiters) : d.settingLine.count (char '\n') = 1 := by
  have hopening := List.count_eq_zero.mpr d.isMarker_opening.lineFeed_notMem
  have hclosing := List.count_eq_zero.mpr d.isMarker_closing.lineFeed_notMem
  simp [settingLine, hopening, hclosing]

/-- The stream of a source whose first line names the pair. -/
theorem build_settingLine {d : Delimiters} (hopening : ¬ [char '}', '}'] <:+: d.opening)
    (hclosing : ¬ [char '}', '}'] <:+: d.closing) (source : Text) :
    (Stream.ofSource (d.settingLine ++ source) .standard 0).build =
      (Stream.ofSource source d 0).build.mapError (Flaw.shift d.settingLine.length) := by
  obtain ⟨tag, first, pair, mark⟩ := firstTag_settingLine hopening hclosing source
  have hrest := (reads_ofSource d landing_nil source).shift d.wholeLines_settingLine
  rw [List.append_nil] at hrest
  have hwhole := (Reads.tag first pair hrest).eq_ofSource
  calc (Stream.ofSource (d.settingLine ++ source) .standard 0).build
      = (((Stream.ofSource source d 0).shift d.settingLine.length).cons ⟨[], 0⟩ tag).build :=
        congrArg Stream.build hwhole.symm
    _ = ((Stream.ofSource source d 0).shift d.settingLine.length).build :=
        Stream.build_cons_of_mark?_eq_none mark 0 _
    _ = _ := Stream.build_shift _ _

end Delimiters

namespace Template

/-- **A source begins with a pair, or says so in its first line: the tree is the same.** A flaw is
the same, too, on the line after. -/
theorem parse_settingLine {d : Delimiters} (hopening : ¬ [char '}', '}'] <:+: d.opening)
    (hclosing : ¬ [char '}', '}'] <:+: d.closing) (name source : Text) :
    (∀ t, parse name source d = .ok t →
      parse name (d.settingLine ++ source) .standard = .ok t) ∧
    (∀ e, parse name source d = .error e →
      parse name (d.settingLine ++ source) .standard = .error { e with
        place := ⟨d.settingLine.length + e.place.position, e.place.line + 1,
          e.place.column⟩ }) := by
  have hbuild := Delimiters.build_settingLine hopening hclosing source
  constructor
  · intro t ht
    obtain ⟨hname, hroot⟩ := parse_eq_ok_iff.mp ht
    rw [hroot] at hbuild
    exact parse_eq_ok_iff.mpr ⟨hname, hbuild⟩
  · intro e he
    obtain ⟨flaw, hflaw, rfl⟩ := parse_eq_error_iff.mp he
    rw [hflaw] at hbuild
    refine parse_eq_error_iff.mpr ⟨_, hbuild, ?_⟩
    rw [ParseError.ofFlaw_shift d.wholeLines_settingLine, ParseError.behind,
      d.count_settingLine, Nat.add_comm 1]

/-- The pair has braces, and the source closes a block on its second line that is not open. -/
theorem parse_settingLine_braces :
    let d : Delimiters := ⟨['<', '{', '{', '{'], ['}', '>'], by decide, by decide⟩
    ¬ [char '}', '}'] <:+: d.opening ∧ ¬ [char '}', '}'] <:+: d.closing ∧
      parse ['t'] (d.settingLine ++ "a\n<\x7b\x7b\x7b/x\x7d>".toText) .standard =
        .error ⟨.strayClose ['x'] none, ⟨16, 3, 1⟩, some ['t']⟩ := by
  intro d
  have hopening : ¬ [char '}', '}'] <:+: d.opening := by decide
  have hclosing : ¬ [char '}', '}'] <:+: d.closing := by decide
  have hparse : parse ['t'] "a\n<\x7b\x7b\x7b/x\x7d>".toText d =
      .error ⟨.strayClose ['x'] none, ⟨2, 2, 1⟩, some ['t']⟩ := by
    decide +kernel
  exact ⟨hopening, hclosing, (parse_settingLine hopening hclosing _ _).2 _ hparse⟩

end Template
end Mustache
