import Mustache.Render.Sink
import Mustache.Template.Basic
import Mustache.Text.Encoding
import Mustache.Text.Quoted

/-!
# Steps of a render

A render asks two things of its surroundings, its host: to escape a value, and to find a template by
name. A host may refuse either, and it may have a state that finding changes, such as a store that
keeps what it has loaded.

A step of a render changes the state of the render and may fail. Steps are done one after the other
until one fails; what was changed until then stays changed, so that the calls made are on record and
the host keeps what it has learned.

## Main statements

* `Step.andThen_assoc`, `Step.skip_andThen`, `Step.andThen_skip` — steps form a monoid.
-/

namespace Mustache

open Text

/-- What a render asks of its surroundings. The state has type `σ` and refusals have type `ε`. -/
structure Host (σ ε : Type) where
  /-- The escaped form of a value's text. -/
  escape : Text → Except ε Text
  /-- The template by a name, if there is one. -/
  find : Text → σ → Except ε (Option Template) × σ

/-- A call that a render makes to its host. -/
inductive Call where
  | escape (s : Text)
  | find (name : Text)
deriving DecidableEq, Repr

/-- Why a render fails. -/
inductive RenderFault (ε : Type) where
  /-- The value of this name could not be escaped. -/
  | escape (name : Text) (cause : ε)
  /-- The template by this name could not be looked for. -/
  | find (name : Text) (cause : ε)
  /-- A byte string is not text. -/
  | undecodable (fault : DecodeFault)
  /-- Templates include each other too deeply. -/
  | tooDeep
deriving DecidableEq, Repr

/-- The message, when the causes are worded by `describe`. -/
def RenderFault.message {ε : Type} (describe : ε → Text) : RenderFault ε → Text
  | .escape name cause =>
    "Escape function failed on ".toText ++ quoted name ++ ": ".toText ++ describe cause
  | .find name cause =>
    "Partial resolver failed for ".toText ++ quoted name ++ ": ".toText ++ describe cause
  | .undecodable fault => fault.message
  | .tooDeep => "templates include each other too deeply".toText

/-- What the host refused a call with, if that is why the render failed. -/
def RenderFault.cause? {ε : Type} : RenderFault ε → Option ε
  | .escape _ cause | .find _ cause => some cause
  | .undecodable _ | .tooDeep => none

/-- The name of the template that was looked for, if that is why the render failed. -/
def RenderFault.sought? {ε : Type} : RenderFault ε → Option Text
  | .find name _ => some name
  | .escape .. | .undecodable _ | .tooDeep => none

/-- How far a render has come. -/
structure RenderState (σ : Type) where
  sink : Sink
  /-- The calls made, the latest first. -/
  calls : List Call
  /-- The state of the host. -/
  host : σ

/-- Something a render does. -/
def Step (σ ε : Type) : Type := RenderState σ → RenderState σ × Option (RenderFault ε)

namespace Step

variable {σ ε α : Type}

/-- Nothing. -/
def skip : Step σ ε := fun s => (s, none)

/-- To give up. -/
def fail (fault : RenderFault ε) : Step σ ε := fun s => (s, some fault)

/-- To write. -/
def write (f : Sink → Sink) : Step σ ε := fun s => ({ s with sink := f s.sink }, none)

/-- One step and then another, unless the first fails. -/
def andThen (f g : Step σ ε) : Step σ ε := fun s =>
  match f s with
  | (s, none) => g s
  | (s, some fault) => (s, some fault)

/-- A step for every member of a list. -/
def each (l : List α) (f : α → Step σ ε) : Step σ ε :=
  l.foldr (fun a rest => (f a).andThen rest) skip

theorem andThen_of_none {f : Step σ ε} {s : RenderState σ} (h : (f s).2 = none) (g : Step σ ε) :
    f.andThen g s = g (f s).1 := by
  unfold andThen
  generalize f s = r at h ⊢
  obtain ⟨t, fault⟩ := r
  obtain rfl : fault = none := h
  rfl

theorem andThen_of_some {f : Step σ ε} {s : RenderState σ} {fault : RenderFault ε}
    (h : (f s).2 = some fault) (g : Step σ ε) : f.andThen g s = ((f s).1, some fault) := by
  unfold andThen
  generalize f s = r at h ⊢
  obtain ⟨t, fault'⟩ := r
  obtain rfl : fault' = some fault := h
  rfl

theorem skip_andThen (f : Step σ ε) : skip.andThen f = f := rfl

theorem andThen_skip (f : Step σ ε) : f.andThen skip = f := by
  funext s
  simp only [andThen, skip]
  split
  · next h => rw [h]
  · next h => rw [h]

theorem andThen_assoc (f g h : Step σ ε) :
    (f.andThen g).andThen h = f.andThen (g.andThen h) := by
  funext s
  simp only [andThen]
  rcases f s with ⟨s', _ | fault⟩ <;> rfl

/-- To have a value's text escaped and write it. -/
def escaped (host : Host σ ε) (name s : Text) : Step σ ε := fun st =>
  let st := { st with calls := .escape s :: st.calls }
  match host.escape s with
  | .ok out => ({ st with sink := st.sink.writeValue out }, none)
  | .error cause => (st, some (.escape name cause))

/-- To have a template found and go on with it; without it there is nothing to do. -/
def found (host : Host σ ε) (name : Text) (expand : Template → Step σ ε) : Step σ ε := fun st =>
  let st := { st with calls := .find name :: st.calls }
  match host.find name st.host with
  | (.ok (some t), h) => expand t { st with host := h }
  | (.ok none, h) => ({ st with host := h }, none)
  | (.error cause, h) => ({ st with host := h }, some (.find name cause))

end Step
end Mustache
