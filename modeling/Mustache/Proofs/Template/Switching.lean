import Mustache.Proofs.Delimiters
import Mustache.Proofs.Template.Reach

/-!
# Switching to another pair

When the tree of a source is built up to a set-delimiter tag, one of two things happens there. If
the body of the tag names a pair, that pair comes into force. If it does not, reading stops behind
the tag: no pair takes the place of the one in force, and the report is about the tag.

* `Stream.switches_of_ofBody` — a pair that is named comes into force
* `Stream.ofSource_eq_of_refused` — a tag that names none is the last one that is read
* `Template.switch_or_refusal` — which bodies do the one, and which the other
-/

namespace Mustache

namespace Stream

variable {before after : List Token} {tag : Tag} {b : Builder}

/-- The pairs that come into force up to a set-delimiter tag, at it, and behind it. -/
theorem switches_eq_append {s : Stream} (htokens : s.tokens = before ++ .tag tag :: after)
    (hb : Builder.empty.feedAll before = .ok b) (hk : tag.kind = .delimiters) :
    s.switches = before.filterMap Token.pair? ++
      ((Delimiters.ofBody tag.name).toOption.toList ++
        (b.accepted after).filterMap Token.pair?) := by
  have hswitches : s.switches = (Builder.empty.accepted s.tokens).filterMap Token.pair? := rfl
  have hpair : Token.pair? (.tag tag) = (Delimiters.ofBody tag.name).toOption := if_pos hk
  rw [hswitches, htokens, Builder.accepted_append hb, Builder.accepted,
    Builder.feed_of_delimiters hk, List.filterMap_append, List.filterMap_cons, hpair]
  cases (Delimiters.ofBody tag.name).toOption with
  | none => rfl
  | some d => rfl

/-- **A pair that is named comes into force.** -/
theorem switches_of_ofBody {s : Stream} {d : Delimiters}
    (htokens : s.tokens = before ++ .tag tag :: after)
    (hb : Builder.empty.feedAll before = .ok b) (hk : tag.kind = .delimiters)
    (hd : Delimiters.ofBody tag.name = .ok d) :
    before.filterMap Token.pair? ++ [d] <+: s.switches := by
  rw [switches_eq_append htokens hb hk, hd, ← List.append_assoc]
  exact List.prefix_append _ _

/-- **A set-delimiter tag that names no pair is the last tag that is read.** -/
theorem ofSource_eq_of_refused {source : Text} {d : Delimiters} {fault : Delimiters.Fault}
    (htokens : (ofSource source d 0).tokens = before ++ .tag tag :: after)
    (hk : tag.kind = .delimiters) (hfault : Delimiters.ofBody tag.name = .error fault) :
    ofSource source d 0 = ⟨before ++ [.tag tag], some ⟨.badDelimiters fault, tag.start⟩⟩ := by
  have hread : Reads d [] source (ofSource source d 0) := reads_ofSource d landing_nil source
  obtain ⟨ts, d₁, u₁, s₁, kept, u₂, s₂, hto, first, rfl⟩ := hread.exists_readsTo_tag htokens
  have hpair : tag.pairAfter d₁ = .error fault := by
    rw [Tag.pairAfter, if_pos hk, hfault]
  rw [hread.unique (hto.reads (.refused first hpair)), List.append_assoc]
  rfl

/-- The tree is built up to the tag that is refused, and the flaw of the reading shows. -/
theorem build_of_refused {flaw : Flaw} (hb : Builder.empty.feedAll before = .ok b)
    (hk : tag.kind = .delimiters) :
    (Stream.mk (before ++ [.tag tag]) (some flaw)).build = .error flaw := by
  rw [build, Builder.feedAll_append hb, Builder.feedAll, Builder.feed_of_delimiters hk]
  rfl

end Stream

namespace Template

/-- **The body of a set-delimiter tag has the form of a pair's name, or the tag is refused.** What
has this form is read as the pair, and nothing else is read as one. When the tree of a source is
built up to a set-delimiter tag, the pair that it names comes into force; if it names none, the pair
from before stays the last one that has come into force, and the tag is reported. -/
theorem switch_or_refusal (name source : Text) (d : Delimiters) :
    (∀ (body : Text) (d' : Delimiters), Delimiters.ofBody body = .ok d' ↔ d'.IsNamedBy body) ∧
    (∀ body : Text, (∀ d' : Delimiters, ¬ d'.IsNamedBy body) →
      ∃ fault, Delimiters.ofBody body = .error fault) ∧
    ∀ (before after : List Token) (tag : Tag) (b : Builder),
      (Stream.ofSource source d 0).tokens = before ++ .tag tag :: after →
      Builder.empty.feedAll before = .ok b → tag.kind = .delimiters →
      (∀ d' : Delimiters, d'.IsNamedBy tag.name →
        before.filterMap Token.pair? ++ [d'] <+: (Stream.ofSource source d 0).switches) ∧
      ((∀ d' : Delimiters, ¬ d'.IsNamedBy tag.name) →
        (Stream.ofSource source d 0).switches = before.filterMap Token.pair? ∧
        ∃ fault, Delimiters.ofBody tag.name = .error fault ∧
          parse name source d = .error
            ⟨.badDelimiters fault, Place.ofPosition source tag.start, some name⟩) := by
  refine ⟨fun _ _ => Delimiters.ofBody_eq_ok_iff,
    fun _ => Delimiters.exists_fault_of_not_isNamedBy, ?_⟩
  intro before after tag b htokens hb hk
  refine ⟨fun d' hd' => Stream.switches_of_ofBody htokens hb hk hd'.ofBody_eq, fun hnone => ?_⟩
  obtain ⟨fault, hfault⟩ := Delimiters.exists_fault_of_not_isNamedBy hnone
  have hstream := Stream.ofSource_eq_of_refused htokens hk hfault
  refine ⟨?_, fault, hfault, parse_eq_error_iff.mpr
    ⟨⟨.badDelimiters fault, tag.start⟩, ?_, rfl⟩⟩
  · rw [hstream, Stream.switches_eq_append rfl hb hk, hfault]
    exact List.append_nil _
  · rw [hstream]
    exact Stream.build_of_refused hb hk

/-- The first tag names a pair, with a line end between the markers. The second one names none, as
its first word holds an equals sign. -/
theorem switch_or_refusal_equals :
    let d : Delimiters := ⟨['<', '%'], ['%', '>'], by decide, by decide⟩
    let source := "\x7b\x7b= <%\n%> =\x7d\x7d<%=a=b c=%>".toText
    d.IsNamedBy " <%\n%> =".toText ∧ [d] <+: (Stream.ofSource source .standard 0).switches ∧
      (∀ d' : Delimiters, ¬ d'.IsNamedBy "a=b c=".toText) ∧
      (Stream.ofSource source .standard 0).switches = [d] ∧
      ∃ fault, parse ['t'] source .standard =
        .error ⟨.badDelimiters fault, Place.ofPosition source 13, some ['t']⟩ := by
  intro d source
  let first : Tag := ⟨.delimiters, "= <%\n%> =".toText, " <%\n%> =".toText, 0, 13, none⟩
  let second : Tag := ⟨.delimiters, "=a=b c=".toText, "a=b c=".toText, 13, 24, none⟩
  have hsome : d.IsNamedBy first.name := Delimiters.isNamedBy_of_ofBody (by decide)
  have hnone (d' : Delimiters) : ¬ d'.IsNamedBy second.name := by
    intro hd'
    have hfault : Delimiters.ofBody second.name = .error (.equals ['a', '=', 'b']) := by decide
    rw [hd'.ofBody_eq] at hfault
    cases hfault
  have htokens : (Stream.ofSource source .standard 0).tokens = [.tag first, .tag second] := by
    decide +kernel
  have hswitch := (switch_or_refusal ['t'] source .standard).2.2
  obtain ⟨hnamed, -⟩ := hswitch [] [.tag second] first .empty htokens rfl rfl
  obtain ⟨-, hrefused⟩ := hswitch [.tag first] [] second .empty htokens rfl rfl
  obtain ⟨hswitches, fault, -, hparse⟩ := hrefused hnone
  exact ⟨hsome, hnamed d hsome, hnone, hswitches.trans (by decide), fault, hparse⟩

end Template
end Mustache
