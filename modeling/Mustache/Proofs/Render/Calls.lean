import Mustache.Proofs.Render.Hosts

/-!
# The calls of a render

What a render asks of its host is on record, call by call. The record tells the whole story: with it
the host can be asked again, and gives the same replies in the same order. All calls but the last
are answered, for a call that is refused is the end of the render; so a render fails for a refused
call exactly when there is one, and the fault hands on what the host refused it with.

Two renders of one template on two hosts go the same way as long as the hosts give the same replies.
So the calls up to one that is refused are the first calls of every render on a host that has
replied in the same way until then.

* `eval_records` — what the record of a render says
* `eval_keepsPace` — two hosts that reply alike, as far as they do
* `Template.fault_renderWithin` — why a render fails for a call
-/

namespace Mustache

open Text

section

variable {σ τ ε : Type}

/-! ## Calls and replies -/

/-- What a host may answer to a call. -/
inductive Reply where
  | escaped (s : Text)
  | found (t : Option Template)
deriving DecidableEq, Repr

/-- The name of the template that a call looks for. -/
def Call.sought? : Call → Option Text
  | .escape _ => none
  | .find name => some name

namespace Host

variable (host : Host σ ε) (h : σ)

/-- What the host replies to a call, and its state afterwards. -/
def reply (call : Call) : Except ε Reply × σ :=
  match call with
  | .escape s => ((host.escape s).map .escaped, h)
  | .find name => ((host.find name h).1.map .found, (host.find name h).2)

/-- The state of the host after some calls. -/
def after (calls : List Call) : σ := calls.foldl (fun h call => (host.reply h call).2) h

/-- What the host replies to some calls, in order. -/
def replies (h : σ) : List Call → List (Except ε Reply)
  | [] => []
  | call :: calls => (host.reply h call).1 :: replies (host.reply h call).2 calls

/-- The host answers all the calls. -/
def AnswersAll (calls : List Call) : Prop := ∀ reply ∈ host.replies h calls, reply.isOk

/-- The host never refuses a call. -/
def NeverRefuses : Prop := ∀ h call, (host.reply h call).1.isOk

theorem after_append (calls more : List Call) :
    host.after h (calls ++ more) = host.after (host.after h calls) more := by
  simp only [after, List.foldl_append]

theorem replies_append (calls more : List Call) :
    host.replies h (calls ++ more) =
      host.replies h calls ++ host.replies (host.after h calls) more := by
  induction calls generalizing h with
  | nil => rfl
  | cons call calls ih =>
    rw [List.cons_append, replies, replies, ih, List.cons_append]
    rfl

theorem length_replies (calls : List Call) : (host.replies h calls).length = calls.length := by
  induction calls generalizing h with
  | nil => rfl
  | cons call calls ih => rw [replies, List.length_cons, List.length_cons, ih]

variable {host h} {calls more : List Call}

theorem answersAll_append :
    host.AnswersAll h (calls ++ more) ↔
      host.AnswersAll h calls ∧ host.AnswersAll (host.after h calls) more := by
  simp only [AnswersAll, replies_append, List.forall_mem_append]

theorem answersAll_singleton {call : Call} :
    host.AnswersAll h [call] ↔ (host.reply h call).1.isOk := by
  simp only [AnswersAll, replies, List.forall_mem_singleton]

/-! ## What has come of the calls -/

/-- What has come of a run that has made these calls: all of them were answered, and the fault, if
there is one, has nothing to do with them; or the last one was refused, and the fault is that. -/
inductive ComesTo (host : Host σ ε) (h : σ) : List Call → Option (RenderFault ε) → Prop
  | answered {calls : List Call} {fault : Option (RenderFault ε)}
      (answers : host.AnswersAll h calls) (own : fault.bind RenderFault.cause? = none) :
      ComesTo host h calls fault
  | refused {earlier : List Call} {call : Call} {fault : RenderFault ε} {cause : ε}
      (answers : host.AnswersAll h earlier)
      (refuses : (host.reply (host.after h earlier) call).1 = .error cause)
      (hands : fault.cause? = some cause) (tells : fault.sought? = call.sought?) :
      ComesTo host h (earlier ++ [call]) (some fault)

/-- A run whose first call is refused. -/
theorem ComesTo.refused_first {call : Call} {fault : RenderFault ε} {cause : ε}
    (refuses : (host.reply h call).1 = .error cause) (hands : fault.cause? = some cause)
    (tells : fault.sought? = call.sought?) : host.ComesTo h [call] (some fault) := by
  show host.ComesTo h ([] ++ [call]) (some fault)
  exact .refused nofun refuses hands tells

/-- A run that has not failed can be continued. -/
theorem ComesTo.append {fault : Option (RenderFault ε)} (first : host.ComesTo h calls none)
    (second : host.ComesTo (host.after h calls) more fault) :
    host.ComesTo h (calls ++ more) fault := by
  cases first with
  | answered answers _ =>
    cases second with
    | answered answers' own => exact .answered (answersAll_append.mpr ⟨answers, answers'⟩) own
    | refused answers' refuses hands tells =>
      rw [← List.append_assoc]
      refine .refused (answersAll_append.mpr ⟨answers, answers'⟩) ?_ hands tells
      rwa [after_append]

/-- A run that has failed for a refused call has made one. -/
theorem ComesTo.exists_cause_iff {fault : Option (RenderFault ε)}
    (hends : host.ComesTo h calls fault) :
    (∃ cause, fault.bind RenderFault.cause? = some cause) ↔
      ∃ cause, .error cause ∈ host.replies h calls := by
  cases hends with
  | answered answers own =>
    rw [own]
    constructor
    · rintro ⟨_, ⟨⟩⟩
    · rintro ⟨cause, hmem⟩
      cases answers _ hmem
  | @refused earlier call fault cause answers refuses hands tells =>
    have hmem : .error cause ∈ host.replies h (earlier ++ [call]) := by
      rw [replies_append, replies, refuses]
      exact List.mem_append_right _ List.mem_cons_self
    exact ⟨fun _ => ⟨cause, hmem⟩, fun _ => ⟨cause, hands⟩⟩

/-- The call that a run has failed for is its last one. -/
theorem ComesTo.exists_last {fault : RenderFault ε} {cause : ε}
    (hends : host.ComesTo h calls (some fault)) (hcause : fault.cause? = some cause) :
    ∃ earlier call, calls = earlier ++ [call] ∧ host.AnswersAll h earlier ∧
      (host.reply (host.after h earlier) call).1 = .error cause ∧
      fault.sought? = call.sought? := by
  cases hends with
  | answered answers own =>
    rw [Option.bind_some, hcause] at own
    cases own
  | @refused earlier call _ cause' answers refuses hands tells =>
    obtain rfl : cause' = cause := Option.some.inj (hands.symm.trans hcause)
    exact ⟨earlier, call, rfl, answers, refuses, tells⟩

end Host

/-! ## The record of a render -/

/-- From the one state these calls have been made, and what they have left of the host is in the
other. -/
structure RenderState.Makes (host : Host σ ε) (s : RenderState σ) (made : List Call)
    (t : RenderState σ) : Prop where
  calls : t.calls = made.reverse ++ s.calls
  host : t.host = host.after s.host made

theorem RenderState.Makes.trans {host : Host σ ε} {s t u : RenderState σ} {made more : List Call}
    (h : s.Makes host made t) (h' : t.Makes host more u) : s.Makes host (made ++ more) u := by
  constructor
  · rw [h'.calls, h.calls, List.reverse_append, List.append_assoc]
  · rw [h'.host, h.host, Host.after_append]

namespace Step

/-- The step puts the calls that it makes on record, and ends as they end. -/
def Records (host : Host σ ε) (f : Step σ ε) : Prop :=
  ∀ s, ∃ made, s.Makes host made (f s).1 ∧ host.ComesTo s.host made (f s).2

namespace Records

variable {host : Host σ ε} {f g : Step σ ε}

/-- A step that makes no call. -/
theorem of_no_call {write : Sink → Sink} {fault : Option (RenderFault ε)}
    (own : fault.bind RenderFault.cause? = none)
    (hf : ∀ s, f s = ({ s with sink := write s.sink }, fault)) : f.Records host := by
  intro s
  rw [hf]
  exact ⟨[], ⟨rfl, rfl⟩, .answered nofun own⟩

theorem escaped (host : Host σ ε) (name s : Text) : (escaped host name s).Records host := by
  intro st
  have hreply : (host.reply st.host (.escape s)).1 = (host.escape s).map .escaped := rfl
  unfold Step.escaped
  cases he : host.escape s with
  | ok out =>
    rw [he] at hreply
    have hok : (host.reply st.host (.escape s)).1.isOk := by
      rw [hreply]
      rfl
    exact ⟨[.escape s], ⟨rfl, rfl⟩, .answered (Host.answersAll_singleton.mpr hok) rfl⟩
  | error cause =>
    rw [he] at hreply
    exact ⟨[.escape s], ⟨rfl, rfl⟩, .refused_first hreply rfl rfl⟩

theorem andThen (hf : f.Records host) (hg : g.Records host) : (f.andThen g).Records host := by
  intro s
  obtain ⟨made, hmakes, hends⟩ := hf s
  unfold Step.andThen
  generalize f s = r at hmakes hends ⊢
  obtain ⟨t, _ | fault⟩ := r
  · obtain ⟨more, hmakes', hends'⟩ := hg t
    rw [hmakes.host] at hends'
    exact ⟨made ++ more, hmakes.trans hmakes', hends.append hends'⟩
  · exact ⟨made, hmakes, hends⟩

theorem found (host : Host σ ε) (name : Text) {expand : Template → Step σ ε}
    (hexpand : ∀ t, (expand t).Records host) : (found host name expand).Records host := by
  intro st
  have hreply : (host.reply st.host (.find name)).1 = (host.find name st.host).1.map .found := rfl
  have hmakes : st.Makes host [.find name]
      { st with calls := .find name :: st.calls, host := (host.find name st.host).2 } := ⟨rfl, rfl⟩
  simp only [Step.found]
  generalize host.find name st.host = r at hreply hmakes ⊢
  obtain ⟨cause | o, h⟩ := r
  · exact ⟨[.find name], hmakes, .refused_first hreply rfl rfl⟩
  · have hok : (host.reply st.host (.find name)).1.isOk := by
      rw [hreply]
      rfl
    have hends : host.ComesTo st.host [.find name] none :=
      .answered (Host.answersAll_singleton.mpr hok) rfl
    cases o with
    | none => exact ⟨[.find name], hmakes, hends⟩
    | some t =>
      obtain ⟨more, hmakes', hends'⟩ :=
        hexpand t { st with calls := .find name :: st.calls, host := h }
      rw [hmakes.host] at hends'
      exact ⟨.find name :: more, hmakes.trans hmakes', hends.append hends'⟩

/-- What has been put on record stays there. -/
theorem calls_suffix (hf : f.Records host) (s : RenderState σ) : s.calls <:+ (f s).1.calls := by
  obtain ⟨made, hmakes, -⟩ := hf s
  exact ⟨made.reverse, hmakes.calls.symm⟩

theorem calls_suffix_andThen (hg : g.Records host) (s : RenderState σ) :
    (f s).1.calls <:+ ((f.andThen g) s).1.calls := by
  unfold Step.andThen
  generalize f s = r
  obtain ⟨t, _ | fault⟩ := r
  · exact hg.calls_suffix t
  · exact List.suffix_rfl

/-- The first call of an inclusion looks for the template. -/
theorem calls_suffix_found {name : Text} {expand : Template → Step σ ε}
    (hexpand : ∀ t, (expand t).Records host) (s : RenderState σ) :
    .find name :: s.calls <:+ (Step.found host name expand s).1.calls := by
  simp only [Step.found]
  generalize host.find name s.host = r
  obtain ⟨cause | _ | t, h⟩ := r
  · exact List.suffix_rfl
  · exact List.suffix_rfl
  · exact (hexpand t).calls_suffix { s with calls := .find name :: s.calls, host := h }

end Records
end Step

/-! ## Two hosts side by side -/

theorem eq_of_map_eq_map {α β : Type} {f : α → β} (hf : Function.Injective f) {a b : Except ε α}
    (h : a.map f = b.map f) : a = b := by
  rcases a with cause | a <;> rcases b with cause' | b <;>
    simp only [Except.map, Except.ok.injEq, Except.error.injEq, reduceCtorEq] at h
  · rw [h]
  · rw [hf h]

/-- How runs from two states compare: either both have made the same calls, with the same replies,
and have come to the same; or there is a first call that the hosts have not given the same reply to,
and from there on they have gone their own ways. -/
inductive RenderState.KeepsPace (host : Host σ ε) (host' : Host τ ε) (s : RenderState σ)
    (s' : RenderState τ) (r : RenderState σ × Option (RenderFault ε))
    (r' : RenderState τ × Option (RenderFault ε)) : Prop
  | together (made : List Call) (same : host.replies s.host made = host'.replies s'.host made)
      (left : s.Makes host made r.1) (right : s'.Makes host' made r'.1)
      (sink : r.1.sink = r'.1.sink) (fault : r.2 = r'.2)
  | apart (made : List Call) (call : Call)
      (same : host.replies s.host made = host'.replies s'.host made)
      (differ : (host.reply (host.after s.host made) call).1 ≠
        (host'.reply (host'.after s'.host made) call).1)
      (left : call :: (made.reverse ++ s.calls) <:+ r.1.calls)
      (right : call :: (made.reverse ++ s'.calls) <:+ r'.1.calls)

section

variable {host : Host σ ε} {host' : Host τ ε}

/-- Hosts that give the same replies give each of them in the same way. -/
theorem Host.reply_eq_of_replies_eq {h : σ} {h' : τ} {made rest : List Call} {call : Call}
    (same : host.replies h (made ++ call :: rest) = host'.replies h' (made ++ call :: rest)) :
    (host.reply (host.after h made) call).1 = (host'.reply (host'.after h' made) call).1 := by
  rw [replies_append, replies_append] at same
  have hlength : (host.replies h made).length = (host'.replies h' made).length := by
    rw [length_replies, length_replies]
  exact (List.cons.inj (List.append_inj_right same hlength)).1

/-- Runs that have kept pace so far go on from there. -/
theorem RenderState.KeepsPace.goOn {s t : RenderState σ} {s' t' : RenderState τ} {made : List Call}
    (same : host.replies s.host made = host'.replies s'.host made)
    (left : s.Makes host made t) (right : s'.Makes host' made t')
    {r : RenderState σ × Option (RenderFault ε)} {r' : RenderState τ × Option (RenderFault ε)}
    (next : t.KeepsPace host host' t' r r') : s.KeepsPace host host' s' r r' := by
  have hsame {more : List Call}
      (hmore : host.replies t.host more = host'.replies t'.host more) :
      host.replies s.host (made ++ more) = host'.replies s'.host (made ++ more) := by
    rw [Host.replies_append, Host.replies_append, same, ← left.host, ← right.host, hmore]
  cases next with
  | together more hmore left' right' sink fault =>
    exact .together (made ++ more) (hsame hmore) (left.trans left') (right.trans right') sink fault
  | apart more call hmore differ left' right' =>
    refine .apart (made ++ more) call (hsame hmore) ?_ ?_ ?_
    · rwa [Host.after_append, Host.after_append, ← left.host, ← right.host]
    · rwa [List.reverse_append, List.append_assoc, ← left.calls]
    · rwa [List.reverse_append, List.append_assoc, ← right.calls]

namespace Step

/-- Done on two hosts, from states with the same output, the steps keep pace. -/
structure KeepsPace (host : Host σ ε) (host' : Host τ ε) (f : Step σ ε) (g : Step τ ε) :
    Prop where
  left : f.Records host
  right : g.Records host'
  pace : ∀ (s : RenderState σ) (s' : RenderState τ), s.sink = s'.sink →
    s.KeepsPace host host' s' (f s) (g s')

namespace KeepsPace

/-- Steps that make no call keep pace when they do the same to the output. -/
theorem of_no_call (write : Sink → Sink) (fault : Option (RenderFault ε))
    (own : fault.bind RenderFault.cause? = none) {f : Step σ ε} {g : Step τ ε}
    (hf : ∀ s, f s = ({ s with sink := write s.sink }, fault))
    (hg : ∀ s, g s = ({ s with sink := write s.sink }, fault)) : KeepsPace host host' f g where
  left := .of_no_call own hf
  right := .of_no_call own hg
  pace := by
    intro s s' hsink
    rw [hf, hg]
    exact .together [] rfl ⟨rfl, rfl⟩ ⟨rfl, rfl⟩ (congrArg write hsink) rfl

theorem andThen {f f' : Step σ ε} {g g' : Step τ ε} (hf : KeepsPace host host' f g)
    (hf' : KeepsPace host host' f' g') :
    KeepsPace host host' (f.andThen f') (g.andThen g') where
  left := hf.left.andThen hf'.left
  right := hf.right.andThen hf'.right
  pace := by
    intro s s' hsink
    have hleft := hf'.left.calls_suffix_andThen (f := f) s
    have hright := hf'.right.calls_suffix_andThen (f := g) s'
    have hpace := hf.pace s s' hsink
    unfold Step.andThen at hleft hright ⊢
    generalize f s = r at hleft hpace ⊢
    generalize g s' = r' at hright hpace ⊢
    cases hpace with
    | apart made call same differ left right =>
      exact .apart made call same differ (left.trans hleft) (right.trans hright)
    | together made same left right sink hfault =>
      obtain ⟨t, fault⟩ := r
      obtain ⟨t', fault'⟩ := r'
      obtain rfl : fault = fault' := hfault
      cases fault with
      | some fault => exact .together made same left right sink rfl
      | none => exact .goOn same left right (hf'.pace t t' sink)

/-- Runs part at their first call if it is not given the same reply. -/
theorem apart_at {s : RenderState σ} {s' : RenderState τ} {call : Call}
    {r : RenderState σ × Option (RenderFault ε)} {r' : RenderState τ × Option (RenderFault ε)}
    (differ : (host.reply s.host call).1 ≠ (host'.reply s'.host call).1)
    (left : call :: s.calls <:+ r.1.calls) (right : call :: s'.calls <:+ r'.1.calls) :
    s.KeepsPace host host' s' r r' :=
  .apart [] call rfl differ left right

theorem escaped (name s : Text) :
    KeepsPace host host' (escaped host name s) (escaped host' name s) where
  left := .escaped host name s
  right := .escaped host' name s
  pace := by
    intro st st' hsink
    by_cases hreply : (host.reply st.host (.escape s)).1 = (host'.reply st'.host (.escape s)).1
    · have hsame : host.replies st.host [.escape s] = host'.replies st'.host [.escape s] := by
        simp only [Host.replies, hreply]
      have hescape : host.escape s = host'.escape s :=
        eq_of_map_eq_map (fun _ _ => Reply.escaped.inj) hreply
      unfold Step.escaped
      rw [hescape]
      cases host'.escape s with
      | ok out =>
        exact .together [.escape s] hsame ⟨rfl, rfl⟩ ⟨rfl, rfl⟩
          (congrArg (·.writeValue out) hsink) rfl
      | error cause => exact .together [.escape s] hsame ⟨rfl, rfl⟩ ⟨rfl, rfl⟩ hsink rfl
    · refine apart_at hreply ?_ ?_
      · unfold Step.escaped
        cases host.escape s <;> exact List.suffix_rfl
      · unfold Step.escaped
        cases host'.escape s <;> exact List.suffix_rfl

theorem found (name : Text) {expand : Template → Step σ ε} {expand' : Template → Step τ ε}
    (hexpand : ∀ t, KeepsPace host host' (expand t) (expand' t)) :
    KeepsPace host host' (found host name expand) (found host' name expand') where
  left := .found host name fun t => (hexpand t).left
  right := .found host' name fun t => (hexpand t).right
  pace := by
    intro st st' hsink
    by_cases hreply : (host.reply st.host (.find name)).1 = (host'.reply st'.host (.find name)).1
    · have hsame : host.replies st.host [.find name] = host'.replies st'.host [.find name] := by
        simp only [Host.replies, hreply]
      have hfind : (host.find name st.host).1 = (host'.find name st'.host).1 :=
        eq_of_map_eq_map (fun _ _ => Reply.found.inj) hreply
      have hleft : st.Makes host [.find name]
        { st with calls := .find name :: st.calls, host := (host.find name st.host).2 } :=
          ⟨rfl, rfl⟩
      have hright : st'.Makes host' [.find name]
        { st' with calls := .find name :: st'.calls, host := (host'.find name st'.host).2 } :=
          ⟨rfl, rfl⟩
      simp only [Step.found]
      generalize host.find name st.host = r at hfind hleft ⊢
      generalize host'.find name st'.host = r' at hfind hright ⊢
      obtain ⟨answer, h⟩ := r
      obtain ⟨answer', h'⟩ := r'
      obtain rfl : answer = answer' := hfind
      rcases answer with cause | _ | t
      · exact .together [.find name] hsame hleft hright hsink rfl
      · exact .together [.find name] hsame hleft hright hsink rfl
      · exact .goOn hsame hleft hright ((hexpand t).pace _ _ hsink)
    · exact apart_at hreply (Records.calls_suffix_found (fun t => (hexpand t).left) st)
        (Records.calls_suffix_found (fun t => (hexpand t).right) st')

theorem compatible (host : Host σ ε) (host' : Host τ ε) :
    Compatible host host' (fun _ => True) (KeepsPace host host') where
  skip := .of_no_call id none rfl (fun _ => rfl) fun _ => rfl
  undecodable := fun fault =>
    .of_no_call id (some (.undecodable fault)) rfl (fun _ => rfl) fun _ => rfl
  tooDeep := .of_no_call id (some .tooDeep) rfl (fun _ => rfl) fun _ => rfl
  write := fun f => .of_no_call f none rfl (fun _ => rfl) fun _ => rfl
  escaped := escaped
  andThen := andThen
  found := fun _ hexpand => found _ fun t => hexpand t .of_true

end KeepsPace
end Step

/-- **The same render on two hosts goes the same way as long as they give the same replies.** -/
theorem eval_keepsPace (host : Host σ ε) (host' : Host τ ε) (depth : Nat) (ns : List Node)
    (c : Context) (indentation : Text) :
    Step.KeepsPace host host' (eval host depth ns c indentation)
      (eval host' depth ns c indentation) :=
  eval_of_compatible (Step.KeepsPace.compatible host host') depth ns c indentation .of_true

/-- **The record of a run tells what has come of it.** -/
theorem eval_records (host : Host σ ε) (depth : Nat) (ns : List Node) (c : Context)
    (indentation : Text) : (eval host depth ns c indentation).Records host :=
  (eval_keepsPace host host depth ns c indentation).left

end

/-! ## Why a render fails for a call -/

/-- Why there is no output. -/
def Rendering.fault? (r : Rendering σ ε) : Option (RenderFault ε) :=
  match r.result with
  | .ok _ => none
  | .error fault => some fault

/-- The render has been stopped by a call: all calls before it were answered, it was refused, and
nothing was asked for after it. The fault hands on what the host refused it with, and names the
template that was looked for, if one was. -/
structure Rendering.StoppedBy (host : Host σ ε) (h : σ) (r : Rendering σ ε) (earlier : List Call)
    (call : Call) (cause : ε) : Prop where
  calls : r.calls = earlier ++ [call]
  answers : host.AnswersAll h earlier
  refuses : (host.reply (host.after h earlier) call).1 = .error cause
  fault : ∃ fault, r.result = .error fault ∧ fault.cause? = some cause ∧
    fault.sought? = call.sought?

namespace Host

/-- A host that never refuses a call: where the other one does, a text is left as it is, and there
is no template. -/
def forgiving (host : Host σ ε) : Host σ ε where
  escape := fun s =>
    match host.escape s with
    | .ok out => .ok out
    | .error _ => .ok s
  find := fun name h =>
    match host.find name h with
    | (.ok o, h) => (.ok o, h)
    | (.error _, h) => (.ok none, h)

theorem neverRefuses_forgiving (host : Host σ ε) : host.forgiving.NeverRefuses := by
  rintro h (s | name)
  · simp only [reply, forgiving]
    cases host.escape s <;> rfl
  · simp only [reply, forgiving]
    rcases host.find name h with ⟨_ | _, _⟩ <;> rfl

theorem reply_forgiving {host : Host σ ε} {h : σ} {call : Call}
    (hok : (host.reply h call).1.isOk) : host.forgiving.reply h call = host.reply h call := by
  cases call with
  | escape s =>
    simp only [reply, forgiving] at hok ⊢
    cases he : host.escape s with
    | ok out => rfl
    | error cause =>
      rw [he] at hok
      cases hok
  | find name =>
    simp only [reply, forgiving] at hok ⊢
    generalize host.find name h = r at hok ⊢
    obtain ⟨_ | o, h'⟩ := r
    · cases hok
    · rfl

/-- What the host answers, the forgiving host answers too. -/
theorem replies_forgiving {host : Host σ ε} {h : σ} {calls : List Call}
    (answers : host.AnswersAll h calls) :
    host.forgiving.replies h calls = host.replies h calls := by
  induction calls generalizing h with
  | nil => rfl
  | cons call calls ih =>
    obtain ⟨hok, hrest⟩ := List.forall_mem_cons.mp answers
    rw [replies, replies, reply_forgiving hok, ih hrest]

end Host

namespace Template

variable (host : Host σ ε) (t : Template) (limit : Nat) (data : Value) (h : σ)

/-- The record of a render tells what has come of it. -/
theorem record_renderWithin :
    (t.renderWithin limit host data h).host =
        host.after h (t.renderWithin limit host data h).calls ∧
      host.ComesTo h (t.renderWithin limit host data h).calls
        (t.renderWithin limit host data h).fault? := by
  obtain ⟨made, hmakes, hends⟩ :=
    eval_records host limit t.root (.ofRoot data) [] ⟨.empty, [], h⟩
  unfold renderWithin
  generalize eval host limit t.root (.ofRoot data) [] ⟨.empty, [], h⟩ = r at hmakes hends ⊢
  have hcalls : (Rendering.ofRun r).calls = made := by
    rw [Rendering.calls_ofRun, hmakes.calls, List.append_nil, List.reverse_reverse]
  have hfault : (Rendering.ofRun r).fault? = r.2 := by
    rw [Rendering.fault?, Rendering.result_ofRun]
    cases r.2 <;> rfl
  rw [hcalls, hfault, Rendering.host_ofRun]
  exact ⟨hmakes.host, hends⟩

/-- As long as another host gives the same replies, the calls are the first ones of the render on
that host. -/
theorem calls_prefix {earlier : List Call} {call : Call}
    (hcalls : (t.renderWithin limit host data h).calls = earlier ++ [call]) (host' : Host τ ε)
    (h' : τ) (same : host'.replies h' earlier = host.replies h earlier) :
    (t.renderWithin limit host data h).calls <+: (t.renderWithin limit host' data h').calls := by
  have hpace := (eval_keepsPace host host' limit t.root (.ofRoot data) []).pace
    ⟨.empty, [], h⟩ ⟨.empty, [], h'⟩ rfl
  unfold renderWithin at hcalls ⊢
  rw [Rendering.calls_ofRun] at hcalls
  rw [Rendering.calls_ofRun, Rendering.calls_ofRun]
  cases hpace with
  | together made _ left right => rw [left.calls, right.calls]
  | apart made call' _ differ left right =>
    rw [← List.reverse_prefix, hcalls, List.reverse_cons, List.append_nil,
      List.reverse_reverse] at left
    rw [← List.reverse_prefix, List.reverse_cons, List.append_nil, List.reverse_reverse] at right
    rw [hcalls]
    -- the hosts have given the same replies to all earlier calls, so they part at the last one
    rcases List.prefix_concat_iff.mp left with heq | ⟨rest, rfl⟩
    · rwa [← heq]
    · rw [List.append_assoc, List.singleton_append] at same
      exact absurd (Host.reply_eq_of_replies_eq same.symm) differ

/-- **A render fails for a refused call when there is one.** The render fails because its host has
refused something exactly when one of the calls that it has made was refused. That call is the last
one, and the fault hands on what the host refused it with. Up to that call the render has made the
same calls as it makes on any host that has replied in the same way before, such as one that never
refuses anything. -/
theorem fault_renderWithin (host : Host σ ε) (t : Template) (limit : Nat) (data : Value) (h : σ) :
    let r := t.renderWithin limit host data h
    r.host = host.after h r.calls ∧
      ((∃ fault cause, r.result = .error fault ∧ fault.cause? = some cause) ↔
        ∃ cause, .error cause ∈ host.replies h r.calls) ∧
      ∀ fault cause, r.result = .error fault → fault.cause? = some cause →
        ∃ earlier call, r.StoppedBy host h earlier call cause ∧
          (∀ {τ : Type} (host' : Host τ ε) (h' : τ),
            host'.replies h' earlier = host.replies h earlier →
              r.calls <+: (t.renderWithin limit host' data h').calls) ∧
          ∃ host' : Host σ ε, host'.NeverRefuses ∧
            host'.replies h earlier = host.replies h earlier := by
  intro r
  obtain ⟨hhost, hends⟩ : r.host = host.after h r.calls ∧ host.ComesTo h r.calls r.fault? :=
    t.record_renderWithin host limit data h
  refine ⟨hhost, ?_, ?_⟩
  · rw [← hends.exists_cause_iff]
    simp only [Rendering.fault?]
    cases r.result with
    | ok out => simp only [reduceCtorEq, false_and, exists_false, Option.bind_none]
    | error fault =>
      simp only [Except.error.injEq, Option.bind_some, exists_and_left, exists_eq_left']
  · intro fault cause hresult hcause
    rw [Rendering.fault?, hresult] at hends
    obtain ⟨earlier, call, hcalls, answers, refuses, tells⟩ := hends.exists_last hcause
    refine ⟨earlier, call, ⟨hcalls, answers, refuses, fault, hresult, hcause, tells⟩, ?_, ?_⟩
    · intro τ host' h' same
      exact t.calls_prefix host limit data h hcalls host' h' same
    · exact ⟨host.forgiving, host.neverRefuses_forgiving, Host.replies_forgiving answers⟩

end Template

end

/-- A row, and a list of rows. -/
def row : Template := ⟨"row".toText, [.interpolate ".".toText true]⟩

def rowList : Template :=
  ⟨"list".toText, [.block "rows".toText false [.inclusion "row".toText [' '] true]]⟩

/-- A host that has the row once and then never again. -/
def rowOnce : Host Bool Text where
  escape := fun s => .ok s
  find := fun _ gone => if gone then (.error "gone".toText, true) else (.ok (some row), true)

/-- Two rows, of which the host has one. -/
theorem Template.fault_renderWithin_rowList :
    let r := rowList.renderWithin 1 rowOnce
      (.map [("rows".toText, .list [.str ['a'], .str ['b']])]) false
    r.result = .error (.find "row".toText "gone".toText) ∧
      r.calls = [.find "row".toText, .escape ['a']] ++ [.find "row".toText] ∧
      ∃ earlier call, r.StoppedBy rowOnce false earlier call "gone".toText ∧
        (∀ {τ : Type} (host : Host τ Text) (h : τ),
          host.replies h earlier = rowOnce.replies false earlier →
            r.calls <+: (rowList.renderWithin 1 host
              (.map [("rows".toText, .list [.str ['a'], .str ['b']])]) h).calls) ∧
        ∃ host : Host Bool Text, host.NeverRefuses ∧
          host.replies false earlier = rowOnce.replies false earlier := by
  intro r
  have hresult : r.result = .error (.find "row".toText "gone".toText) := by decide +kernel
  have hcalls : r.calls = [.find "row".toText, .escape ['a']] ++ [.find "row".toText] := by
    decide +kernel
  exact ⟨hresult, hcalls, (fault_renderWithin rowOnce rowList 1
    (.map [("rows".toText, .list [.str ['a'], .str ['b']])]) false).2.2 _ _ hresult rfl⟩

end Mustache
