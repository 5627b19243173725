import Mustache.Proofs.Render.Alike
import Mustache.Proofs.Template.Lined

/-!
# Where lines begin in the output

A sink knows whether a line begins, and a template in lines knows it too. The two agree as far as
the output depends on it: where a line of the template begins, one begins in the output; and with an
indentation none begins in the output elsewhere, since what is written in front of a value is not
empty (`Sink.At`). Rendering keeps this up (`evalNodes_ensures`), through sections done any number
of times and through inclusions at any depth, provided that all templates there are are in lines.

* `Sink.toText_writeText`, `Sink.lineBegins_writeText` — what writing indented text comes to
* `eval_ensures` — a render of nodes in lines ends where a line begins
-/

namespace Mustache

open Text

/-! ## Writing text -/

namespace Sink

theorem toText_writeIndentation (indentation : Text) (o : Sink) :
    (o.writeIndentation indentation).toText = o.toText ++ lead indentation o.lineBegins := by
  unfold writeIndentation lead
  by_cases hi : indentation = []
  · rw [if_neg fun h => h.1 hi, hi]
    cases o.lineBegins <;> exact (List.append_nil _).symm
  · cases hl : o.lineBegins with
    | false =>
      rw [if_neg fun h => Bool.false_ne_true h.2]
      exact (List.append_nil _).symm
    | true =>
      rw [if_pos ⟨hi, rfl⟩]
      exact toText_mk indentation o.written false

theorem writeIndentation_of_not_begins {o : Sink} (h : o.lineBegins = false) (indentation : Text) :
    o.writeIndentation indentation = o := by
  unfold writeIndentation
  rw [if_neg fun hi => Bool.false_ne_true (h.symm.trans hi.2)]

/-- Writing a text line by line. -/
theorem foldl_lines (indentation s : Text) (o : Sink) :
    let written := (lines s).foldl (fun o line => (o.writeIndentation indentation).put line) o
    written.toText = o.toText ++ indentBefore indentation o.lineBegins s ∧
      written.lineBegins = lineBeginsAfter o.lineBegins s := by
  induction s generalizing o with
  | nil => exact ⟨(List.append_nil _).symm, rfl⟩
  | cons c s ih =>
    intro written
    have hput : ((o.writeIndentation indentation).put [c]).toText =
        o.toText ++ lead indentation o.lineBegins ++ [c] := by
      rw [toText_put, toText_writeIndentation]
    have hline : ((o.writeIndentation indentation).put [c]).lineBegins = (c == '\n') := by
      simp only [put, List.getLast?_singleton, Option.some.injEq]
      rfl
    obtain ⟨htext, hbegins⟩ := ih ((o.writeIndentation indentation).put [c])
    rw [hput, hline, List.append_assoc, List.append_assoc, List.singleton_append] at htext
    rw [hline] at hbegins
    -- the first character, written alone, makes no difference
    have hfirst : written.Alike ((lines s).foldl
        (fun o line => (o.writeIndentation indentation).put line)
        ((o.writeIndentation indentation).put [c])) := by
      show Sink.Alike ((lines (c :: s)).foldl _ o) _
      rw [lines]
      by_cases hc : c = '\n'
      · rw [if_pos hc]
        exact .refl _
      · rw [if_neg hc]
        have hbeq : (c == '\n') = false := beq_eq_false_iff_ne.mpr hc
        cases hl : lines s with
        | nil => exact .refl _
        | cons l ls =>
          have hne := head_ne_nil_of_lines hl
          rw [List.foldl_cons, List.foldl_cons, writeIndentation_of_not_begins (hline.trans hbeq)]
          refine Alike.foldl_put ⟨?_, ?_⟩ indentation ls
          · rw [toText_put, toText_put, toText_put, List.append_assoc]
            rfl
          · simp only [put, List.getLast?_cons_of_ne_nil hne]
    exact ⟨hfirst.text.trans htext, hfirst.line.trans hbegins⟩

/-- **What is written is the indented text.** -/
theorem toText_writeText (indentation s : Text) (o : Sink) :
    (o.writeText indentation s).toText =
      o.toText ++ indentBefore indentation o.lineBegins s := by
  unfold writeText
  by_cases hs : s = []
  · rw [if_pos hs, hs]
    exact (List.append_nil _).symm
  · rw [if_neg hs]
    by_cases hi : indentation = []
    · rw [if_pos hi, hi, indentBefore_nil, toText_put]
    · rw [if_neg hi]
      exact (foldl_lines indentation s o).1

/-- A line begins behind the text where one does in the template. -/
theorem lineBegins_writeText (indentation s : Text) (o : Sink) :
    (o.writeText indentation s).lineBegins = lineBeginsAfter o.lineBegins s := by
  unfold writeText
  by_cases hs : s = []
  · rw [if_pos hs, hs]
    rfl
  · rw [if_neg hs]
    by_cases hi : indentation = []
    · rw [if_pos hi, lineBeginsAfter_eq hs]
      rfl
    · rw [if_neg hi]
      exact (foldl_lines indentation s o).2

/-! ## Where lines begin -/

/-- A line begins in the output where one begins in the template, and with an indentation none
begins elsewhere. -/
structure At (indentation : Text) (b : Bool) (o : Sink) : Prop where
  begins : b = true → o.lineBegins = true
  goesOn : indentation ≠ [] → b = false → o.lineBegins = false

namespace At

variable {indentation : Text} {b : Bool} {o : Sink}

theorem of_lineBegins (h : o.lineBegins = true) : At indentation true o := by
  refine ⟨fun _ => h, ?_⟩
  intro _ hfalse
  cases hfalse

/-- At the beginning of a line no indentation is seen. -/
theorem change (h : At indentation true o) (other : Text) : At other true o :=
  of_lineBegins (h.begins rfl)

/-- What a line begins with in the template is what it begins with in the output. -/
theorem lead_eq (h : At indentation b o) : lead indentation o.lineBegins = lead indentation b := by
  by_cases hi : indentation = []
  · rw [hi]
    cases o.lineBegins <;> cases b <;> rfl
  · cases b with
    | true => rw [h.begins rfl]
    | false => rw [h.goesOn hi rfl]

theorem indentBefore_eq (h : At indentation b o) (s : Text) :
    indentBefore indentation o.lineBegins s = indentBefore indentation b s := by
  cases s with
  | nil => rfl
  | cons c s => rw [indentBefore, indentBefore, h.lead_eq]

theorem writeText (h : At indentation b o) (s : Text) :
    At indentation (lineBeginsAfter b s) (o.writeText indentation s) := by
  by_cases hs : s = []
  · unfold Sink.writeText
    rw [if_pos hs, hs]
    exact h
  · have hline := lineBegins_writeText indentation s o
    rw [lineBeginsAfter_eq hs, ← lineBeginsAfter_eq hs b] at hline
    exact ⟨hline.trans, fun _ => hline.trans⟩

/-- Behind an indentation the line has begun. -/
theorem writeIndentation (h : At indentation b o) :
    At indentation false (o.writeIndentation indentation) := by
  refine ⟨fun hfalse => Bool.noConfusion hfalse, fun hi _ => ?_⟩
  unfold Sink.writeIndentation
  cases b with
  | true => rw [if_pos ⟨hi, h.begins rfl⟩]
  | false =>
    have hline := h.goesOn hi rfl
    rw [if_neg fun hboth => Bool.false_ne_true (hline.symm.trans hboth.2)]
    exact hline

/-- A value does not begin a line, whatever it ends with. -/
theorem writeValue (h : At indentation false o) (s : Text) :
    At indentation false (o.writeValue s) := by
  refine ⟨fun hfalse => Bool.noConfusion hfalse, fun hi _ => ?_⟩
  unfold Sink.writeValue
  split
  · exact h.goesOn hi rfl
  · rfl

theorem startLine : At indentation true o.startLine := of_lineBegins rfl

end At
end Sink

/-! ## What rendering keeps up -/

section

variable {σ ε : Type}

/-- The host of the state is as it is kept, and the output is where the template is. -/
structure RenderState.At (kept : σ → Prop) (indentation : Text) (b : Bool) (s : RenderState σ) :
    Prop where
  host : kept s.host
  sink : s.sink.At indentation b

/-- As long as the state is as it is kept, all templates that the host finds are in lines, and
finding keeps the state. -/
structure Host.Lined (host : Host σ ε) (kept : σ → Prop) : Prop where
  keeps : ∀ name h, kept h → kept (host.find name h).2
  lined : ∀ name h t, kept h → (host.find name h).1 = .ok (some t) → Node.Lined t.root true

variable {kept : σ → Prop} {host : Host σ ε} {b : Bool} {c : Context} {indentation : Text}

open RenderState (At)

theorem Step.Ensures.write {f : Sink → Sink} {b' : Bool} {indentation' : Text}
    (h : ∀ o : Sink, o.At indentation b → (f o).At indentation' b') :
    Ensures (At kept indentation b) (write f : Step σ ε) (At kept indentation' b') :=
  fun s hs _ => ⟨hs.host, h s.sink hs.sink⟩

theorem evalName_ensures (name : Text) (escape : Bool) :
    Step.Ensures (At kept indentation false) (evalName host c name escape)
      (At kept indentation false) := by
  unfold evalName
  cases (c.referent name).text? with
  | error fault => exact .fail _
  | ok s =>
    simp only []
    split
    · intro st hst hnone
      unfold Step.escaped at hnone ⊢
      cases he : host.escape s with
      | ok out => exact ⟨hst.host, hst.sink.writeValue out⟩
      | error cause =>
        rw [he] at hnone
        cases hnone
    · exact .write fun o ho => ho.writeValue s

/-- An inclusion ensures what the templates found ensure. -/
theorem Step.Ensures.found_lined (hl : host.Lined kept) {name : Text}
    {expand : Template → Step σ ε}
    (h : ∀ t, Node.Lined t.root true →
      Ensures (At kept indentation true) (expand t) (At kept indentation true)) :
    Ensures (At kept indentation true) (Step.found host name expand) (At kept indentation true) :=
  .found (fun s hs => ⟨hl.keeps name s.host hs.host, hs.sink⟩)
    (fun s t hs => hl.lined name s.host t hs.host) h

variable {expand : List Node → Context → Text → Step σ ε}

mutual

/-- Rendering a node gets to where a line begins when one begins behind the node. -/
theorem evalNode_ensures (hl : host.Lined kept)
    (hexpand : ∀ ns c indentation, Node.Lined ns true →
      Step.Ensures (At kept indentation true) (expand ns c indentation)
        (At kept indentation true))
    (n : Node) (c : Context) {b : Bool} (h : n.Fits b) :
    Step.Ensures (At kept indentation b) (evalNode host expand n c indentation)
      (At kept indentation (n.lineBegins b)) := by
  match n with
  | .text s =>
    rw [evalNode]
    exact .write fun o ho => ho.writeText s
  | .interpolate name escape =>
    rw [evalNode]
    exact .andThen (.write fun o ho => ho.writeIndentation) (evalName_ensures name escape)
  | .block name true body =>
    obtain ⟨rfl, hbody⟩ := h
    rw [evalNode]
    split
    · exact .skip
    · exact evalNodes_ensures hl hexpand body c hbody
  | .block name false body =>
    obtain ⟨rfl, hbody⟩ := h
    rw [evalNode]
    exact .each fun scope => evalNodes_ensures hl hexpand body (c.push scope) hbody
  | .inclusion name padding standalone =>
    obtain ⟨rfl, rfl⟩ := h
    rw [evalNode]
    refine .found_lined hl fun t ht => ?_
    -- inside, the indentation is another one, but where a line begins that makes no difference
    have hinside := hexpand t.root c (indentation ++ padding) ht
    have hstart : Step.Ensures (At kept indentation true) (.write Sink.startLine : Step σ ε)
        (At kept (indentation ++ padding) true) := .write fun _ _ => .startLine
    intro s hs hnone
    have hend := hstart.andThen hinside s hs hnone
    exact ⟨hend.host, hend.sink.change indentation⟩
termination_by structural n

/-- **Rendering nodes in lines ends where a line begins.** -/
theorem evalNodes_ensures (hl : host.Lined kept)
    (hexpand : ∀ ns c indentation, Node.Lined ns true →
      Step.Ensures (At kept indentation true) (expand ns c indentation)
        (At kept indentation true))
    (ns : List Node) (c : Context) {b : Bool} (h : Node.Lined ns b) :
    Step.Ensures (At kept indentation b) (evalNodes host expand ns c indentation)
      (At kept indentation true) := by
  match ns with
  | [] =>
    obtain rfl : b = true := h
    exact .skip
  | n :: ns =>
    rw [evalNodes]
    exact (evalNode_ensures hl hexpand n c h.1).andThen (evalNodes_ensures hl hexpand ns c h.2)
termination_by structural ns

end

/-- So it is at any depth of inclusion. -/
theorem eval_ensures (hl : host.Lined kept) (depth : Nat) (ns : List Node) (c : Context)
    (indentation : Text) (h : Node.Lined ns true) :
    Step.Ensures (At kept indentation true) (eval host depth ns c indentation)
      (At kept indentation true) := by
  induction depth generalizing ns c indentation with
  | zero => exact evalNodes_ensures hl (fun _ _ _ _ => .fail _) ns c h
  | succ depth ih => exact evalNodes_ensures hl ih ns c h

end

end Mustache
