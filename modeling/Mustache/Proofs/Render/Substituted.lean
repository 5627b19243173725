import Mustache.Proofs.Render.Calls
import Mustache.Proofs.Render.Lined

/-!
# Escaping is a substitution

A render does not look at what escaping makes of a value. All that escaping can change in the course
of a render is whether a line begins behind the value, and this only by making nothing of it. So for
all ways to escape that make nothing of nothing else there is one draft of the output, in pieces
(`Piece`): what is written is the draft with the values escaped that are marked in it.

Without any escaping, the draft is what the same template comes to when no value is to be escaped at
all, neither in it nor in those that it includes (`Template.unescaped`).

* `eval_drafts` — the draft of a render
* `Template.renderWithin_substitutes` — what a render is with each way to escape
-/

namespace Mustache

open Text

/-! ## Pieces -/

/-- A piece of output: text as it stands, or the text of a value that is to be escaped. -/
inductive Piece where
  | literal (s : Text)
  | escapable (s : Text)
deriving DecidableEq, Repr

/-- What is written for a piece. -/
def Piece.written (φ : Escape) : Piece → Text
  | .literal s => s
  | .escapable s => φ s

/-- The text that is escaped in a piece. -/
def Piece.escapable? : Piece → Option Text
  | .literal _ => none
  | .escapable s => some s

/-- The text that a call has escaped. -/
def Call.escaped? : Call → Option Text
  | .escape s => some s
  | .find _ => none

/-- Only of the empty text escaping makes nothing. -/
def Escape.ErasesNothing (φ : Escape) : Prop := ∀ s, φ s = [] → s = []

/-! ## Templates without escaping -/

mutual

/-- The node, its values not to be escaped. -/
def Node.unescaped (n : Node) : Node :=
  match n with
  | .text s => .text s
  | .interpolate name _ => .interpolate name false
  | .block name inverted body => .block name inverted (Node.unescapedAll body)
  | .inclusion name padding standalone => .inclusion name padding standalone
termination_by structural n

/-- The same of nodes in a row. -/
def Node.unescapedAll (ns : List Node) : List Node :=
  match ns with
  | [] => []
  | n :: ns => n.unescaped :: Node.unescapedAll ns
termination_by structural ns

end

/-- The template, no value in it to be escaped. -/
def Template.unescaped (t : Template) : Template := ⟨t.name, Node.unescapedAll t.root⟩

namespace Host

variable {σ ε : Type}

/-- The host with another way to escape, which never fails. -/
def escaping (φ : Escape) (host : Host σ ε) : Host σ ε :=
  { host with escape := fun s => .ok (φ s) }

/-- The host with any way to escape, and with templates in which no value is to be escaped. -/
def unescaped (escape : Text → Except ε Text) (host : Host σ ε) : Host σ ε where
  escape := escape
  find := fun name h =>
    ((host.find name h).1.map (Option.map Template.unescaped), (host.find name h).2)

end Host

section

variable {σ ε α : Type}

/-! ## Drafts -/

/-- How far a render has come, whatever its way to escape. Each text is marked in the output that
has been given to escaping, and none of them is empty. -/
structure Draft (σ : Type) where
  /-- The pieces of output, the latest first. -/
  pieces : List Piece
  /-- Does a line begin here? -/
  lineBegins : Bool
  /-- The calls made, the latest first. -/
  calls : List Call
  /-- The state of the host. -/
  host : σ
  escapes : calls.filterMap Call.escaped? = pieces.filterMap Piece.escapable?
  nonempty : [] ∉ pieces.filterMap Piece.escapable?

namespace Draft

/-- The output, with a way to escape. -/
def text (φ : Escape) (d : Draft σ) : Text := d.pieces.reverse.flatMap (Piece.written φ)

/-- Nothing so far. -/
def start (h : σ) : Draft σ := ⟨[], true, [], h, rfl, nofun⟩

/-- With a piece of text. -/
def addLiteral (s : Text) (lineBegins : Bool) (d : Draft σ) : Draft σ :=
  { d with pieces := .literal s :: d.pieces, lineBegins }

/-- With the text of a value, which has been escaped. -/
def addEscapable (s : Text) (hs : s ≠ []) (d : Draft σ) : Draft σ where
  pieces := .escapable s :: d.pieces
  lineBegins := false
  calls := .escape s :: d.calls
  host := d.host
  escapes := congrArg (s :: ·) d.escapes
  nonempty := by
    intro hmem
    rcases List.mem_cons.mp hmem with hnil | hmem
    · exact hs hnil.symm
    · exact d.nonempty hmem

/-- With a template looked for. -/
def addFind (name : Text) (h : σ) (d : Draft σ) : Draft σ :=
  { d with calls := .find name :: d.calls, host := h }

theorem text_addLiteral (φ : Escape) (s : Text) (lineBegins : Bool) (d : Draft σ) :
    (d.addLiteral s lineBegins).text φ = d.text φ ++ s := by
  simp [text, addLiteral, Piece.written]

theorem text_addEscapable (φ : Escape) {s : Text} (hs : s ≠ []) (d : Draft σ) :
    (d.addEscapable s hs).text φ = d.text φ ++ φ s := by
  simp [text, addEscapable, Piece.written]

/-- The state is as the draft says when this is the way to escape. What has been written is so if
escaping erases nothing. -/
structure Shows (φ : Escape) (d : Draft σ) (s : RenderState σ) : Prop where
  calls : s.calls = d.calls
  host : s.host = d.host
  text : φ.ErasesNothing → s.sink.toText = d.text φ
  line : φ.ErasesNothing → s.sink.lineBegins = d.lineBegins

/-- The state is as the draft says when nothing is escaped, but for the calls. -/
structure ShowsBare (d : Draft σ) (s : RenderState σ) : Prop where
  host : s.host = d.host
  text : s.sink.toText = d.text Escape.none
  line : s.sink.lineBegins = d.lineBegins

end Draft

/-! ## Steps -/

/-- From every draft the steps get to one draft: the first ones each with its way to escape, the
second one without any escaping. They all fail in the same way, or none does. -/
def Step.Drafts (f : Escape → Step σ ε) (g : Step σ ε) : Prop :=
  ∀ d : Draft σ, ∃ (d' : Draft σ) (fault : Option (RenderFault ε)),
    (∀ φ s, d.Shows φ s → d'.Shows φ (f φ s).1 ∧ (f φ s).2 = fault) ∧
      ∀ s, d.ShowsBare s → d'.ShowsBare (g s).1 ∧ (g s).2 = fault

namespace Step.Drafts

variable {f f' : Escape → Step σ ε} {g g' : Step σ ε}

theorem skip : Drafts (fun _ => (Step.skip : Step σ ε)) .skip :=
  fun d => ⟨d, none, fun _ _ hs => ⟨hs, rfl⟩, fun _ hs => ⟨hs, rfl⟩⟩

theorem fail (fault : RenderFault ε) :
    Drafts (fun _ => (Step.fail fault : Step σ ε)) (.fail fault) :=
  fun d => ⟨d, some fault, fun _ _ hs => ⟨hs, rfl⟩, fun _ hs => ⟨hs, rfl⟩⟩

/-- What a step writes is a piece of text, if it depends on nothing but whether a line begins. -/
theorem write {f : Sink → Sink} (more : Bool → Text) (line : Bool → Bool)
    (htext : ∀ o, (f o).toText = o.toText ++ more o.lineBegins)
    (hline : ∀ o, (f o).lineBegins = line o.lineBegins) :
    Drafts (fun _ => (Step.write f : Step σ ε)) (.write f) := by
  intro d
  refine ⟨d.addLiteral (more d.lineBegins) (line d.lineBegins), none, ?_, ?_⟩
  · intro φ s hs
    refine ⟨⟨hs.calls, hs.host, fun hφ => ?_, fun hφ => ?_⟩, rfl⟩
    · rw [Draft.text_addLiteral, ← hs.text hφ, ← hs.line hφ]
      exact htext s.sink
    · exact (hline s.sink).trans (congrArg line (hs.line hφ))
  · intro s hs
    refine ⟨⟨hs.host, ?_, ?_⟩, rfl⟩
    · rw [Draft.text_addLiteral, ← hs.text, ← hs.line]
      exact htext s.sink
    · exact (hline s.sink).trans (congrArg line hs.line)

theorem writeText (indentation s : Text) :
    Drafts (fun _ => (Step.write (·.writeText indentation s) : Step σ ε))
      (.write (·.writeText indentation s)) :=
  .write (fun b => indentBefore indentation b s) (fun b => lineBeginsAfter b s)
    (Sink.toText_writeText indentation s) (Sink.lineBegins_writeText indentation s)

theorem writeIndentation (indentation : Text) :
    Drafts (fun _ => (Step.write (·.writeIndentation indentation) : Step σ ε))
      (.write (·.writeIndentation indentation)) := by
  refine .write (lead indentation) (fun b => if indentation ≠ [] ∧ b then false else b)
    (Sink.toText_writeIndentation indentation) fun o => ?_
  unfold Sink.writeIndentation
  split
  · rfl
  · rfl

theorem writeValue (s : Text) :
    Drafts (fun _ => (Step.write (·.writeValue s) : Step σ ε)) (.write (·.writeValue s)) := by
  refine .write (fun _ => s) (fun b => if s = [] then b else false)
    (Sink.toText_writeValue s) fun o => ?_
  unfold Sink.writeValue
  split
  · rfl
  · rfl

theorem startLine :
    Drafts (fun _ => (Step.write Sink.startLine : Step σ ε)) (.write Sink.startLine) :=
  .write (fun _ => []) (fun _ => true) (fun _ => (List.append_nil _).symm) fun _ => rfl

/-- A value that is escaped is marked in the draft. -/
theorem escaped (host : Host σ ε) (name : Text) {s : Text} (hs : s ≠ []) :
    Drafts (fun φ => Step.escaped (host.escaping φ) name s) (.write (·.writeValue s)) := by
  intro d
  refine ⟨d.addEscapable s hs, none, ?_, ?_⟩
  · intro φ st hst
    have hcalls := congrArg (List.cons (Call.escape s)) hst.calls
    refine ⟨⟨hcalls, hst.host, fun hφ => ?_, fun hφ => ?_⟩, rfl⟩
    · rw [Draft.text_addEscapable, ← hst.text hφ]
      exact Sink.toText_writeValue (φ s) st.sink
    · show (st.sink.writeValue (φ s)).lineBegins = false
      unfold Sink.writeValue
      rw [if_neg fun hnil => hs (hφ s hnil)]
  · intro st hst
    refine ⟨⟨hst.host, ?_, ?_⟩, rfl⟩
    · rw [Draft.text_addEscapable, ← hst.text]
      exact Sink.toText_writeValue s st.sink
    · show (st.sink.writeValue s).lineBegins = false
      unfold Sink.writeValue
      rw [if_neg hs]

theorem andThen (hf : Drafts f g) (hf' : Drafts f' g') :
    Drafts (fun φ => (f φ).andThen (f' φ)) (g.andThen g') := by
  intro d
  obtain ⟨d₁, fault, hshows, hbare⟩ := hf d
  cases fault with
  | some fault =>
    refine ⟨d₁, some fault, ?_, ?_⟩
    · intro φ s hs
      obtain ⟨h₁, hfault⟩ := hshows φ s hs
      beta_reduce
      rw [andThen_of_some hfault]
      exact ⟨h₁, rfl⟩
    · intro s hs
      obtain ⟨h₁, hfault⟩ := hbare s hs
      rw [andThen_of_some hfault]
      exact ⟨h₁, rfl⟩
  | none =>
    obtain ⟨d₂, fault, hshows', hbare'⟩ := hf' d₁
    refine ⟨d₂, fault, ?_, ?_⟩
    · intro φ s hs
      obtain ⟨h₁, hfault⟩ := hshows φ s hs
      beta_reduce
      rw [andThen_of_none hfault]
      exact hshows' φ _ h₁
    · intro s hs
      obtain ⟨h₁, hfault⟩ := hbare s hs
      rw [andThen_of_none hfault]
      exact hbare' _ h₁

theorem each {l : List α} {f : Escape → α → Step σ ε} {g : α → Step σ ε}
    (h : ∀ a, Drafts (fun φ => f φ a) (g a)) :
    Drafts (fun φ => Step.each l (f φ)) (Step.each l g) := by
  induction l with
  | nil => exact .skip
  | cons a l ih => exact (h a).andThen ih

/-- Steps that look for a template, and then do others. -/
theorem find (d : Draft σ) (name : Text) (h : σ) (next : Drafts f' g')
    (hf : ∀ φ st, d.Shows φ st → f φ st = f' φ ⟨st.sink, .find name :: st.calls, h⟩)
    (hg : ∀ st, d.ShowsBare st → g st = g' ⟨st.sink, .find name :: st.calls, h⟩) :
    ∃ (d' : Draft σ) (fault : Option (RenderFault ε)),
      (∀ φ s, d.Shows φ s → d'.Shows φ (f φ s).1 ∧ (f φ s).2 = fault) ∧
        ∀ s, d.ShowsBare s → d'.ShowsBare (g s).1 ∧ (g s).2 = fault := by
  obtain ⟨d', fault, hshows, hbare⟩ := next (d.addFind name h)
  refine ⟨d', fault, ?_, ?_⟩
  · intro φ st hst
    rw [hf φ st hst]
    exact hshows φ _ ⟨congrArg (List.cons (.find name)) hst.calls, rfl, hst.text, hst.line⟩
  · intro st hst
    rw [hg st hst]
    exact hbare _ ⟨rfl, hst.text, hst.line⟩

theorem found (host : Host σ ε) (escape : Text → Except ε Text) (name : Text)
    {expand : Escape → Template → Step σ ε} {expand' : Template → Step σ ε}
    (hexpand : ∀ t, Drafts (fun φ => expand φ t) (expand' t.unescaped)) :
    Drafts (fun φ => Step.found (host.escaping φ) name (expand φ))
      (Step.found (host.unescaped escape) name expand') := by
  intro d
  -- all hosts are in the state of the draft, so they find the same
  cases hfind : host.find name d.host with
  | mk answer h =>
    have hanswer {φ : Escape} {st : RenderState σ} (hst : d.Shows φ st) :
        (host.escaping φ).find name st.host = (answer, h) := by
      rw [hst.host]
      exact hfind
    have hbare {st : RenderState σ} (hst : d.ShowsBare st) :
        (host.unescaped escape).find name st.host =
          (answer.map (Option.map Template.unescaped), h) := by
      rw [hst.host]
      simp only [Host.unescaped, hfind]
    rcases answer with cause | _ | t
    · refine find d name h (.fail (.find name cause)) (fun φ st hst => ?_) fun st hst => ?_
      · simp only [Step.found, hanswer hst, Step.fail]
      · simp only [Step.found, hbare hst, Except.map, Step.fail]
    · refine find d name h .skip (fun φ st hst => ?_) fun st hst => ?_
      · simp only [Step.found, hanswer hst, Step.skip]
      · simp only [Step.found, hbare hst, Except.map, Option.map_none, Step.skip]
    · refine find d name h (hexpand t) (fun φ st hst => ?_) fun st hst => ?_
      · simp only [Step.found, hanswer hst]
      · simp only [Step.found, hbare hst, Except.map, Option.map_some]

end Step.Drafts

/-! ## Rendering -/

section

variable (host : Host σ ε) (escape : Text → Except ε Text)
  {expand : Escape → List Node → Context → Text → Step σ ε}
  {expand' : List Node → Context → Text → Step σ ε}

theorem evalName_drafts (c : Context) (name : Text) (escaped : Bool) :
    Step.Drafts (fun φ => evalName (host.escaping φ) c name escaped)
      (evalName (host.unescaped escape) c name false) := by
  unfold evalName
  cases (c.referent name).text? with
  | error fault => exact .fail _
  | ok s =>
    simp only [Bool.false_eq_true, false_and, if_false]
    by_cases h : escaped = true ∧ s ≠ []
    · simp only [if_pos h]
      exact .escaped host name h.2
    · simp only [if_neg h]
      exact .writeValue s

mutual

/-- A node has a draft, if what is included has one. -/
theorem evalNode_drafts
    (hexpand : ∀ ns c indentation, Step.Drafts (fun φ => expand φ ns c indentation)
      (expand' (Node.unescapedAll ns) c indentation))
    (n : Node) (c : Context) (indentation : Text) :
    Step.Drafts (fun φ => evalNode (host.escaping φ) (expand φ) n c indentation)
      (evalNode (host.unescaped escape) expand' n.unescaped c indentation) := by
  match n with
  | .text s =>
    simp only [Node.unescaped, evalNode]
    exact .writeText indentation s
  | .interpolate name escaped =>
    simp only [Node.unescaped, evalNode]
    exact .andThen (.writeIndentation indentation) (evalName_drafts host escape c name escaped)
  | .block name true body =>
    simp only [Node.unescaped, evalNode]
    split
    · exact .skip
    · exact evalNodes_drafts hexpand body c indentation
  | .block name false body =>
    simp only [Node.unescaped, evalNode]
    exact .each fun scope => evalNodes_drafts hexpand body (c.push scope) indentation
  | .inclusion name padding true =>
    simp only [Node.unescaped, evalNode]
    exact .found host escape name fun t =>
      .andThen .startLine (hexpand t.root c (indentation ++ padding))
  | .inclusion name padding false =>
    simp only [Node.unescaped, evalNode]
    exact .andThen (.writeIndentation indentation)
      (.found host escape name fun t => hexpand t.root c [])
termination_by structural n

/-- The same of nodes in a row. -/
theorem evalNodes_drafts
    (hexpand : ∀ ns c indentation, Step.Drafts (fun φ => expand φ ns c indentation)
      (expand' (Node.unescapedAll ns) c indentation))
    (ns : List Node) (c : Context) (indentation : Text) :
    Step.Drafts (fun φ => evalNodes (host.escaping φ) (expand φ) ns c indentation)
      (evalNodes (host.unescaped escape) expand' (Node.unescapedAll ns) c indentation) := by
  match ns with
  | [] => exact .skip
  | n :: ns =>
    simp only [Node.unescapedAll, evalNodes]
    exact (evalNode_drafts hexpand n c indentation).andThen
      (evalNodes_drafts hexpand ns c indentation)
termination_by structural ns

end

/-- **A render has a draft**, at any depth of inclusion. -/
theorem eval_drafts (depth : Nat) (ns : List Node) (c : Context) (indentation : Text) :
    Step.Drafts (fun φ => eval (host.escaping φ) depth ns c indentation)
      (eval (host.unescaped escape) depth (Node.unescapedAll ns) c indentation) := by
  induction depth generalizing ns c indentation with
  | zero => exact evalNodes_drafts host escape (fun _ _ _ => .fail _) ns c indentation
  | succ depth ih => exact evalNodes_drafts host escape ih ns c indentation

end

/-! ## What a render comes to -/

theorem Escape.erasesNothing_none : Escape.none.ErasesNothing := fun _ h => h

theorem Draft.shows_start (φ : Escape) (h : σ) : (start h).Shows φ ⟨.empty, [], h⟩ :=
  ⟨rfl, rfl, fun _ => rfl, fun _ => rfl⟩

theorem Draft.showsBare_start (h : σ) : (start h).ShowsBare ⟨.empty, [], h⟩ := ⟨rfl, rfl, rfl⟩

/-- **Escaping is a substitution.** If a template renders without escaping, there is one row of
pieces such that with every way to escape that erases nothing the output is the row with its
escapable pieces escaped. Whatever the way to escape, the calls are the same: it is these pieces,
none of them empty, that are escaped, in order, and the same templates are looked for. And without
escaping the template renders as it does with any way to escape when no value is to be escaped. -/
theorem Template.renderWithin_substitutes (host : Host σ ε) (t : Template) (limit : Nat)
    (data : Value) (h : σ) :
    let plain := t.renderWithin limit (host.escaping Escape.none) data h
    (∀ out, plain.result = .ok out → ∃ pieces : List Piece,
      (∀ φ : Escape, φ.ErasesNothing →
        (t.renderWithin limit (host.escaping φ) data h).result =
          .ok (pieces.flatMap (Piece.written φ))) ∧
      (∀ φ : Escape, (t.renderWithin limit (host.escaping φ) data h).calls.filterMap Call.escaped? =
        pieces.filterMap Piece.escapable?) ∧
      [] ∉ pieces.filterMap Piece.escapable?) ∧
    (∀ φ : Escape, (t.renderWithin limit (host.escaping φ) data h).calls = plain.calls) ∧
    ∀ escape, (t.unescaped.renderWithin limit (host.unescaped escape) data h).result =
      plain.result := by
  intro plain
  obtain ⟨d, fault, hshows, -⟩ :=
    eval_drafts host host.escape limit t.root (.ofRoot data) [] (.start h)
  have hend (φ : Escape) := hshows φ _ (Draft.shows_start φ h)
  have hcalls (φ : Escape) :
      (t.renderWithin limit (host.escaping φ) data h).calls = d.calls.reverse := by
    rw [renderWithin, Rendering.calls_ofRun, (hend φ).1.calls]
  refine ⟨?_, fun φ => (hcalls φ).trans (hcalls Escape.none).symm, ?_⟩
  · intro out hout
    obtain rfl : fault = none := by
      simp only [plain, renderWithin, Rendering.result_ofRun, (hend Escape.none).2] at hout
      cases fault with
      | none => rfl
      | some fault => cases hout
    refine ⟨d.pieces.reverse, fun φ hφ => ?_, fun φ => ?_, ?_⟩
    · simp only [renderWithin, Rendering.result_ofRun, (hend φ).2]
      exact congrArg Except.ok ((hend φ).1.text hφ)
    · rw [hcalls, List.filterMap_reverse, List.filterMap_reverse, d.escapes]
    · rw [List.filterMap_reverse, List.mem_reverse]
      exact d.nonempty
  · intro escape
    obtain ⟨d, fault, hshows, hbare⟩ :=
      eval_drafts host escape limit t.root (.ofRoot data) [] (.start h)
    obtain ⟨hd, hfault⟩ := hshows Escape.none _ (Draft.shows_start _ h)
    obtain ⟨hd', hfault'⟩ := hbare _ (Draft.showsBare_start h)
    simp only [plain, renderWithin, Template.unescaped, Rendering.result_ofRun, hfault, hfault',
      hd.text Escape.erasesNothing_none, hd'.text]

end

/-- A letter, with a line that is two columns in. -/
def letter : Template := ⟨"letter".toText, [.inclusion "line".toText [' ', ' '] true]⟩

/-- A line with a value that is escaped and another one that is not. -/
def letterLine : Template :=
  ⟨"line".toText, [.interpolate "a".toText true, .text ['\n'], .interpolate "b".toText false,
    .interpolate "a".toText true]⟩

/-- A host that has the line. -/
def letterHost : Host Unit Text := ⟨.ok, fun _ h => (.ok (some letterLine), h)⟩

theorem Template.renderWithin_substitutes_letter :
    let data := .map [("a".toText, .str ['<']), ("b".toText, .str ['&'])]
    let plain := letter.renderWithin 1 (letterHost.escaping Escape.none) data ()
    plain.result = .ok "  <\n  &<".toText ∧
      ∃ pieces : List Piece,
        (∀ φ : Escape, φ.ErasesNothing →
          (letter.renderWithin 1 (letterHost.escaping φ) data ()).result =
            .ok (pieces.flatMap (Piece.written φ))) ∧
        (∀ φ : Escape,
          (letter.renderWithin 1 (letterHost.escaping φ) data ()).calls.filterMap Call.escaped? =
            pieces.filterMap Piece.escapable?) ∧
        [] ∉ pieces.filterMap Piece.escapable? := by
  intro data plain
  have hresult : plain.result = .ok "  <\n  &<".toText := by decide +kernel
  exact ⟨hresult, (renderWithin_substitutes letterHost letter 1 data ()).1 _ hresult⟩

end Mustache
