import Mustache.Proofs.Template.Reach
import Mustache.Proofs.Token.Tiling

/-!
# Scans that are taken up again

A scan whose own lines have been left out may be dropped behind any of its tags and taken up again
where the tag leaves off. The one that goes on carries something with it there: the offset up to
which the text is still to be left out, and text that has been found and not given out yet. The one
that starts again has neither, and begins past the end of the line. What comes of the two is the
same, token by token, and so is the flaw that they end with.

* `Scan.toStream_of_found` — a scan is its first tag, and the scan taken up again behind it
* `Scan.toStream_next` — a scan may be taken up again behind each of its tags
-/

namespace Mustache

open Text

namespace Scan

variable {source : Text} {d : Delimiters} {start : Nat}

/-- A scan of which lines have been left out, one tag at a time. -/
theorem toStream_elidedFrom_cons (source : Text) (resume : Nat) (gap : Run) (tag : Tag)
    (scan : Scan) :
    (elidedFrom source resume ⟨(gap, tag) :: scan.segments, scan.ending⟩).toStream =
      (scan.elidedFrom source (tag.onLine source).next).toStream.cons
        (Run.beforeTag (tag.onLine source) (gap.after resume)) (tag.onLine source) := by
  rw [elidedFrom_cons]
  unfold toStream Stream.cons
  rw [tokens_cons]
  rfl

/-- **A scan is its first tag, and the scan that is taken up again where the tag leaves off.** -/
theorem toStream_of_found {gap rest body after : Text} {e : Enclosure}
    (ho : opening? d (source.drop start) = some (gap, e, rest))
    (hc : cut? (e.closing d) rest = some (body, after)) :
    ((ofSource source d start).withoutOwnLines source).toStream =
      ((ofSource source d
          ((tagOf d e (start + gap.length) body).onLine source).next).withoutOwnLines
            source).toStream.cons
        (Run.beforeTag ((tagOf d e (start + gap.length) body).onLine source) ⟨gap, start⟩)
        ((tagOf d e (start + gap.length) body).onLine source) := by
  obtain ⟨k, hle, hscan⟩ :=
    Stream.exists_widen_of_onLine d (Stream.drop_stop_of_found ho hc)
  -- the scan that goes on leaves out the blanks that the other one does not get to see
  have helided := elidedFrom_widen source hle
  rw [← hscan, ofSource, start_ofText] at helided
  have hgap : (Run.mk gap start).after 0 = ⟨gap, start⟩ := Run.after_of_le (Nat.zero_le _)
  show (elidedFrom source 0 (ofText d start (source.drop start))).toStream = _
  rw [ofText_of_tag ho hc, toStream_elidedFrom_cons, helided, hgap]
  rfl

/-- Where a scan holds a tag, one has been found in the source. -/
theorem exists_found_of_tag_mem {t : Tag}
    (h : .tag t ∈ ((ofSource source d start).withoutOwnLines source).tokens) :
    ∃ gap e rest body after, opening? d (source.drop start) = some (gap, e, rest) ∧
      cut? (e.closing d) rest = some (body, after) := by
  cases ho : opening? d (source.drop start) with
  | none =>
    rw [ofSource, ofText_of_none ho] at h
    exact absurd h (Run.tag_notMem_tokens _ t)
  | some found =>
    obtain ⟨gap, e, rest⟩ := found
    cases hc : cut? (e.closing d) rest with
    | none =>
      rw [ofSource, ofText_of_unclosed ho hc] at h
      cases h
    | some parts => exact ⟨gap, e, rest, parts.1, parts.2, rfl, hc⟩

/-- **Going on with a scan and starting again come to the same**: behind each tag of a scan, what
follows of it is what the scan from the place on where the tag leaves off is made of. The tokens are
equal in everything they have, and the scans end with the same flaw, if with any. -/
theorem toStream_next (source : Text) (d : Delimiters) (start : Nat) {before behind : List Token}
    {t : Tag}
    (h : ((ofSource source d start).withoutOwnLines source).tokens = before ++ .tag t :: behind) :
    ((ofSource source d t.next).withoutOwnLines source).toStream =
      ⟨behind, ((ofSource source d start).withoutOwnLines source).flaw?⟩ := by
  induction hlen : before.length using Nat.strong_induction_on generalizing start before with
  | _ n ih =>
    have hmem : .tag t ∈ ((ofSource source d start).withoutOwnLines source).tokens := by
      rw [h]
      exact List.mem_append_right _ List.mem_cons_self
    obtain ⟨gap, e, rest, body, after, ho, hc⟩ := exists_found_of_tag_mem hmem
    have hstream := toStream_of_found ho hc
    generalize (tagOf d e (start + gap.length) body).onLine source = first at hstream
    have hflaw : ((ofSource source d start).withoutOwnLines source).flaw? =
        ((ofSource source d first.next).withoutOwnLines source).flaw? :=
      congrArg Stream.flaw hstream
    have htokens := (congrArg Stream.tokens hstream).symm.trans h
    rcases Stream.tokens_cons_cases htokens with ⟨rfl, rfl⟩ | ⟨before', hrest, rfl⟩
    · -- it is the first tag
      have hbehind : ((ofSource source d first.next).withoutOwnLines source).tokens = behind :=
        (List.cons.inj (List.append_cancel_left htokens)).2
      rw [hflaw, ← hbehind]
      rfl
    · have hlt : before'.length < n := by
        rw [← hlen, List.length_append, List.length_cons]
        omega
      rw [hflaw]
      exact ih _ hlt first.next hrest rfl

/-- A block that opens and closes on lines of its own. The scan begins in the padding of the first
line, and ends at a tag that is not closed. -/
theorem toStream_next_block :
    let source :=
      "  \x7b\x7b#a\x7d\x7d \r\n\x7b\x7bb\x7d\x7d.\n\t\x7b\x7b/a\x7d\x7d\n\n\x7b\x7bc".toText
    let opening : Tag := ⟨.openBlock, ['#', 'a'], ['a'], 2, 8, some ⟨0, [' ', ' '], 11⟩⟩
    let value : Tag := ⟨.interpolate, ['b'], ['b'], 11, 16, none⟩
    let closing : Tag := ⟨.closeBlock, ['/', 'a'], ['a'], 19, 25, some ⟨18, ['\t'], 26⟩⟩
    let behind : List Token := [.tag value, .run ⟨['.', '\n'], 16⟩, .tag closing]
    ((ofSource source .standard 1).withoutOwnLines source).tokens =
        [] ++ .tag opening :: behind ∧
      ((ofSource source .standard opening.next).withoutOwnLines source).toStream =
        ⟨behind, some ⟨.unclosedTag ['\x7b', '\x7b', 'c'] ['\x7d', '\x7d'], 27⟩⟩ := by
  intro source opening value closing behind
  have htokens : ((ofSource source .standard 1).withoutOwnLines source).tokens =
      [] ++ .tag opening :: behind := by decide +kernel
  have hflaw : ((ofSource source .standard 1).withoutOwnLines source).flaw? =
      some ⟨.unclosedTag ['\x7b', '\x7b', 'c'] ['\x7d', '\x7d'], 27⟩ := by decide +kernel
  exact ⟨htokens, hflaw ▸ toStream_next source .standard 1 htokens⟩

end Scan
end Mustache
