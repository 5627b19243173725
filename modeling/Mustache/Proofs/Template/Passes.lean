import Mustache.Proofs.Token.Elided

/-!
# Reading in passes

A template can be read in passes. A pass goes through the tokens of one scan and ends at the first
tag that changes the delimiters; the next begins where that tag leaves off, with the pair it names.
How many passes there are cannot be told beforehand, as it hangs on the tags that are found on the
way. But each begins further on in the source than the one before it, so they come to an end, and
then the tree is the one that all tokens of the source write.

* `Builder.offset_of_pass` — the next pass begins further on
* `Builder.buildFrom_eq` — what a pass leaves to the next one
* `Builder.passes_end` — the passes over a source, and how many there are
-/

namespace Mustache

open Text

/-- Where reading starts again, and the pair of delimiters that is in force there. -/
structure Restart where
  pair : Delimiters
  offset : Nat
deriving DecidableEq

/-- A set-delimiter tag has reading start again behind it, if it names a pair; other tokens have
not. -/
def Token.restart? : Token → Option (Except Flaw Restart)
  | .run _ => none
  | .tag t =>
    if t.kind = .delimiters then
      match Delimiters.ofBody t.name with
      | .ok d => some (.ok ⟨d, t.next⟩)
      | .error fault => some (.error ⟨.badDelimiters fault, t.start⟩)
    else none

namespace Stream

/-- Every tag of a scan leaves off behind the offset where the scan begins, and in the source. -/
theorem next_of_mem {source : Text} {d : Delimiters} {start : Nat} {t : Tag}
    (h : .tag t ∈ (ofPair source d start).tokens) :
    start < t.next ∧ t.next ≤ source.length := by
  induction start using ofPair_induction source d with
  | finished start ho =>
    rw [ofPair_of_none ho] at h
    exact absurd h (Run.tag_notMem_tokens _ t)
  | unclosed start gap e rest ho hc =>
    rw [ofPair_of_unclosed ho hc] at h
    cases h
  | tag start gap e rest body after ho hc ih =>
    have hnext := next_of_found ho hc
    rw [ofPair_of_found ho hc] at h
    rcases tag_mem_cons h with rfl | h
    · exact hnext
    · obtain ⟨hlt, hle⟩ := ih h
      exact ⟨hnext.1.trans hlt, hle⟩

/-- The builder with all tokens of a stream read. -/
def buildFrom (b : Builder) (s : Stream) : Except Flaw Builder :=
  match b.feedAll s.tokens with
  | .error flaw => .error flaw
  | .ok b =>
    match s.flaw with
    | some flaw => .error flaw
    | none => .ok b

end Stream

namespace Builder

/-- With tokens read up to the first that has reading start again, and where it starts again if
there is one. Behind the last token comes the flaw that has stopped the scan, if it was stopped. -/
def readOn (b : Builder) (flaw : Option Flaw) :
    List Token → Except Flaw (Builder × Option Restart)
  | [] =>
    match flaw with
    | some flaw => .error flaw
    | none => .ok (b, none)
  | t :: ts =>
    match t.restart? with
    | some (.ok restart) => .ok (b, some restart)
    | some (.error flaw) => .error flaw
    | none =>
      match b.feed t with
      | .ok b => b.readOn flaw ts
      | .error flaw => .error flaw

/-- With one pass made over a source, from an offset on. -/
def pass (b : Builder) (source : Text) (d : Delimiters) (start : Nat) :
    Except Flaw (Builder × Option Restart) :=
  b.readOn (Stream.ofPair source d start).flaw (Stream.ofPair source d start).tokens

/-- `PassesTo source d n d' start b`: when a source is read with the pair `d`, passes over it lead
to one that begins at `start`, with the pair `d'` in force and `b` built already, after `n`
others. -/
inductive PassesTo (source : Text) (d : Delimiters) : Nat → Delimiters → Nat → Builder → Prop
  | first : PassesTo source d 0 d 0 .empty
  | next {n : Nat} {d' : Delimiters} {start : Nat} {b b' : Builder} {restart : Restart}
      (earlier : PassesTo source d n d' start b)
      (pass : b.pass source d' start = .ok (b', some restart)) :
      PassesTo source d (n + 1) restart.pair restart.offset b'

/-! ## Where a pass ends -/

/-- Reading starts again behind one of the tags. -/
theorem exists_tag_of_readOn {b b' : Builder} {flaw : Option Flaw} {ts : List Token}
    {restart : Restart} (h : b.readOn flaw ts = .ok (b', some restart)) :
    ∃ t, .tag t ∈ ts ∧ restart.offset = t.next := by
  induction ts generalizing b with
  | nil => cases flaw <;> cases h
  | cons t ts ih =>
    rw [readOn] at h
    split at h
    · next ht =>
      cases h
      cases t with
      | run r => cases ht
      | tag t =>
        refine ⟨t, List.mem_cons_self, ?_⟩
        rw [Token.restart?] at ht
        split at ht
        · split at ht
          · cases ht; rfl
          · cases ht
        · cases ht
    · cases h
    · split at h
      · obtain ⟨t', ht', heq⟩ := ih h
        exact ⟨t', List.mem_cons_of_mem t ht', heq⟩
      · cases h

/-- **A pass that is not the last leaves off further on in the source.** -/
theorem offset_of_pass {source : Text} {d : Delimiters} {start : Nat} {b b' : Builder}
    {restart : Restart} (h : b.pass source d start = .ok (b', some restart)) :
    start < restart.offset ∧ restart.offset ≤ source.length := by
  obtain ⟨t, ht, hoffset⟩ := exists_tag_of_readOn h
  rw [hoffset]
  exact Stream.next_of_mem ht

/-! ## What a pass leaves to the next one -/

/-- Tokens that do not have reading start again are fed one after the other. -/
theorem readOn_append {b b' : Builder} {ts : List Token} (h : b.feedAll ts = .ok b')
    (hts : ∀ t ∈ ts, t.restart? = none) (flaw : Option Flaw) (us : List Token) :
    b.readOn flaw (ts ++ us) = b'.readOn flaw us := by
  induction ts generalizing b with
  | nil => cases h; rfl
  | cons t ts ih =>
    rw [feedAll] at h
    rw [List.cons_append, readOn, hts t List.mem_cons_self]
    cases hfeed : b.feed t with
    | error fault =>
      rw [hfeed] at h
      cases h
    | ok b₁ =>
      rw [hfeed] at h
      exact ih h fun t' ht' => hts t' (List.mem_cons_of_mem t ht')

/-- Text always fits. -/
theorem exists_feedAll_tokens (b : Builder) (r : Run) : ∃ b', b.feedAll r.tokens = .ok b' := by
  unfold Run.tokens
  split
  · exact ⟨b, rfl⟩
  · exact ⟨b.addText r.text, rfl⟩

theorem restart?_of_mem_tokens {r : Run} {t : Token} (h : t ∈ r.tokens) : t.restart? = none := by
  cases t with
  | run r' => rfl
  | tag t => exact absurd h (r.tag_notMem_tokens t)

theorem build_eq_buildFrom (s : Stream) : s.build = (s.buildFrom .empty).bind finish := by
  unfold Stream.build Stream.buildFrom
  cases empty.feedAll s.tokens with
  | error flaw => rfl
  | ok b => cases s.flaw <;> rfl

theorem buildFrom_cons {b b₁ : Builder} {gap : Run} (h : b.feedAll gap.tokens = .ok b₁) (t : Tag)
    (s : Stream) :
    (s.cons gap t).buildFrom b =
      match b₁.feed (.tag t) with
      | .ok b₂ => s.buildFrom b₂
      | .error flaw => .error flaw := by
  rw [Stream.buildFrom, Stream.cons, feedAll_append h, feedAll]
  cases b₁.feed (.tag t) with
  | ok b₂ => rfl
  | error flaw => rfl

/-- What a pass has built is what the stream of the source goes on from: with the pair and the
offset where reading starts again, or with nothing left to read. -/
theorem buildFrom_eq (source : Text) (d : Delimiters) (start : Nat) (b : Builder) :
    (Stream.ofSource source d start).buildFrom b =
      match b.pass source d start with
      | .error flaw => .error flaw
      | .ok (b', none) => .ok b'
      | .ok (b', some restart) =>
        (Stream.ofSource source restart.pair restart.offset).buildFrom b' := by
  induction start using Stream.ofPair_induction source d generalizing b with
  | finished start ho =>
    obtain ⟨b', hb⟩ := b.exists_feedAll_tokens ⟨source.drop start, start⟩
    have hread := readOn_append hb (fun _ => restart?_of_mem_tokens) none []
    rw [List.append_nil] at hread
    rw [pass, Stream.ofPair_of_none ho, hread, Stream.ofSource_of_none ho, Stream.buildFrom, hb]
    rfl
  | unclosed start gap e rest ho hc =>
    rw [pass, Stream.ofPair_of_unclosed ho hc, Stream.ofSource_of_unclosed ho hc]
    rfl
  | tag start gap e rest body after ho hc ih =>
    have hstream := Stream.ofSource_of_tag ho hc
    have hpair := Stream.ofPair_of_found ho hc
    generalize htag : (tagOf d e (start + gap.length) body).onLine source = t at hstream hpair ih
    have hstart : t.start = start + gap.length := by rw [← htag]; rfl
    rw [← hstart] at hstream
    generalize Run.beforeTag t ⟨gap, start⟩ = run at hstream hpair
    obtain ⟨b₁, hb₁⟩ := b.exists_feedAll_tokens run
    have hpass : b.pass source d start =
        b₁.readOn (Stream.ofPair source d t.next).flaw
          (.tag t :: (Stream.ofPair source d t.next).tokens) := by
      rw [pass, hpair]
      exact readOn_append hb₁ (fun _ => restart?_of_mem_tokens) _ _
    rw [hpass, readOn, Token.restart?]
    by_cases hk : t.kind = .delimiters
    · have hfeed := feed_of_delimiters hk b₁
      rw [Tag.pairAfter, if_pos hk] at hstream
      rw [if_pos hk]
      cases hd : Delimiters.ofBody t.name with
      | error fault =>
        rw [hd] at hstream
        rw [hstream, buildFrom_cons hb₁, hfeed]
        rfl
      | ok d' =>
        rw [hd] at hstream
        rw [hstream, buildFrom_cons hb₁, hfeed]
    · rw [Tag.pairAfter, if_neg hk] at hstream
      rw [hstream, buildFrom_cons hb₁, if_neg hk]
      cases hfeed : b₁.feed (.tag t) with
      | error flaw => rfl
      | ok b₂ => exact ih b₂

/-! ## All passes -/

namespace PassesTo

variable {source : Text} {d d' : Delimiters} {n start : Nat} {b : Builder}

/-- Each pass has begun behind an offset of its own. -/
theorem le_start (h : PassesTo source d n d' start b) : n ≤ start ∧ start ≤ source.length := by
  induction h with
  | first => exact ⟨Nat.le_refl 0, Nat.zero_le _⟩
  | next earlier pass ih =>
    obtain ⟨hlt, hle⟩ := offset_of_pass pass
    exact ⟨ih.1.trans_lt hlt, hle⟩

/-- What is built in the end does not change from pass to pass. -/
theorem buildFrom_eq (h : PassesTo source d n d' start b) :
    (Stream.ofSource source d 0).buildFrom .empty =
      (Stream.ofSource source d' start).buildFrom b := by
  induction h with
  | first => rfl
  | next earlier pass ih => rw [ih, Builder.buildFrom_eq, pass]

/-- **From every pass on, passes lead to one that is the last.** -/
theorem exists_last (h : PassesTo source d n d' start b) :
    ∃ n' d'' start' b' result, PassesTo source d n' d'' start' b' ∧
      b'.pass source d'' start' = Except.map (·, none) result := by
  induction hk : source.length - start using Nat.strongRecOn generalizing n d' start b with
  | _ k ih =>
    cases hpass : b.pass source d' start with
    | error flaw => exact ⟨n, d', start, b, .error flaw, h, hpass⟩
    | ok left =>
      obtain ⟨b', restart⟩ := left
      cases restart with
      | none => exact ⟨n, d', start, b, .ok b', h, hpass⟩
      | some restart =>
        obtain ⟨hlt, hle⟩ := offset_of_pass hpass
        exact ih _ (by omega) (h.next hpass) rfl

end PassesTo
end Builder

/-! ## How many tokens a pass has -/

theorem Run.length_tokens_le (r : Run) : r.tokens.length ≤ r.text.length := by
  unfold tokens
  split
  · exact Nat.zero_le _
  · next h => exact List.length_pos_iff.mpr h

/-- Each token of a scan covers some of the text. -/
theorem Scan.length_tokens_ofText_le (d : Delimiters) (start : Nat) (s : Text) :
    (ofText d start s).tokens.length ≤ s.length := by
  fun_induction ofText d start s with
  | case1 start s ho => exact Run.length_tokens_le _
  | case2 start s gap e rest ho hc =>
    have hgap : (Run.mk gap start).tokens.length ≤ gap.length := Run.length_tokens_le _
    have hlen := length_of_opening? ho
    show (Run.mk gap start).tokens.length ≤ _
    omega
  | case3 start s gap e rest ho body after hc tag scan ih =>
    have hgap : (Run.mk gap start).tokens.length ≤ gap.length := Run.length_tokens_le _
    have hopening := List.length_pos_iff.mpr (e.opening_ne_nil d)
    have hlen := length_of_opening? ho
    have hrest := length_of_cut? hc
    have htokens : scan.tokens.length ≤ after.length := ih
    rw [tokens_cons, List.length_append, List.length_cons]
    omega

theorem Scan.length_tokens_ofSource_le (source : Text) (d : Delimiters) (start : Nat) :
    (ofSource source d start).tokens.length ≤ source.length := by
  refine (length_tokens_ofText_le d start (source.drop start)).trans ?_
  rw [List.length_drop]
  exact Nat.sub_le _ _

namespace Builder

/-- **Reading in passes comes to an end.** A pass that is not the last has the next begin behind the
offset where it has begun itself, and in the source, whatever the two pairs are. So there are no
more passes behind the first than the source has characters, and none has more tokens than that. The
last one gives the tree that all tokens of the source write, or its flaw. -/
theorem passes_end (source : Text) (d : Delimiters) :
    (∀ d' start (b b' : Builder) restart, b.pass source d' start = .ok (b', some restart) →
        start < restart.offset ∧ restart.offset ≤ source.length) ∧
      (∀ n d' start b, PassesTo source d n d' start b →
        n ≤ source.length ∧ (Scan.ofSource source d' start).tokens.length ≤ source.length) ∧
      ∃ n d' start b result, PassesTo source d n d' start b ∧
        b.pass source d' start = Except.map (·, none) result ∧
        (Stream.ofSource source d 0).build = result.bind finish := by
  refine ⟨fun _ _ _ _ _ => offset_of_pass, fun n d' start b h => ?_, ?_⟩
  · exact ⟨h.le_start.1.trans h.le_start.2, Scan.length_tokens_ofSource_le source d' start⟩
  · obtain ⟨n, d', start, b, result, hto, hlast⟩ := (PassesTo.first (d := d)).exists_last
    refine ⟨n, d', start, b, result, hto, hlast, ?_⟩
    rw [build_eq_buildFrom, hto.buildFrom_eq, Builder.buildFrom_eq, hlast]
    cases result <;> rfl

/-- Two changes of the delimiters, the first with text behind it and the second on a line of its
own: the first pass leaves off right behind its tag, the second one behind the line. -/
theorem passes_end_twoChanges :
    let source := "\x7b\x7b=| |=\x7d\x7d |#a|\n  |=<% %>=|  \n<%/a%>".toText
    let bars : Delimiters := ⟨['|'], ['|'], by decide, by decide⟩
    let angles : Delimiters := ⟨['<', '%'], ['%', '>'], by decide, by decide⟩
    ∃ b b', empty.pass source .standard 0 = .ok (empty, some ⟨bars, 9⟩) ∧
      empty.pass source bars 9 = .ok (b, some ⟨angles, 29⟩) ∧
      b.pass source angles 29 = .ok (b', none) ∧
      (0 < 9 ∧ 9 ≤ source.length) ∧ (9 < 29 ∧ 29 ≤ source.length) ∧
      2 ≤ source.length ∧ (Scan.ofSource source angles 29).tokens.length ≤ source.length := by
  intro source bars angles
  let opening : Tag := ⟨.openBlock, ['#', 'a'], ['a'], 10, 14, none⟩
  let b : Builder := ⟨[.text ['\n']], [⟨opening, [.text [' ']]⟩]⟩
  let b' : Builder := ⟨[.block ['a'] false [.text ['\n']], .text [' ']], []⟩
  have h₁ : empty.pass source .standard 0 = .ok (empty, some ⟨bars, 9⟩) := by decide +kernel
  have h₂ : empty.pass source bars 9 = .ok (b, some ⟨angles, 29⟩) := by decide +kernel
  have h₃ : b.pass source angles 29 = .ok (b', none) := by decide +kernel
  obtain ⟨hoffset, hpasses, -⟩ := passes_end source .standard
  have hto : PassesTo source .standard 2 angles 29 b := (PassesTo.first.next h₁).next h₂
  exact ⟨b, b', h₁, h₂, h₃, hoffset _ _ _ _ _ h₁, hoffset _ _ _ _ _ h₂, hpasses _ _ _ _ hto⟩

end Builder
end Mustache
