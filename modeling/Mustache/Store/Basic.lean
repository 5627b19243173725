import Mustache.Render.Step
import Mustache.Store.Loader
import Mustache.Store.Notice

/-!
# Stores of templates

A store keeps templates by name, and loads one that it does not have from its folder if it has a
folder. What cannot be loaded leaves the store as it was.

`loadAll` loads all that a template includes, directly or through what it includes, so that a flaw
shows before anything is rendered.

## Main statements

* `get_of_kept` — a template that is kept is given back, and nothing changes;
* `units_of_get_error` — a template that cannot be had changes nothing that is kept.

## Termination

A template that is loaded may include others, so the list of names still to be loaded grows while it
is worked off. But every name in it comes from a template of the store or from a file, and is asked
for once: the names not yet asked for get fewer.
-/

namespace Mustache

open Text

/-- Templates by name, where more of them are loaded from, and what there is to report. -/
structure Store where
  units : Table Text Template
  loader : Option Loader
  /-- The notices so far, the latest first. -/
  journal : List Notice
deriving DecidableEq

namespace Store

/-- A store that keeps nothing yet. -/
def empty (loader : Option Loader) : Store := ⟨[], loader, []⟩

/-- With a notice. -/
def note (n : Notice) (s : Store) : Store := { s with journal := n :: s.journal }

/-- The notices so far, in order. -/
def notices (s : Store) : List Notice := s.journal.reverse

/-! ## Keeping -/

/-- With a template kept under its own name. -/
def put (t : Template) (s : Store) : Store := { s with units := Table.insert t.name t s.units }

/-- Is a template by this name kept? -/
def contains (name : Text) (s : Store) : Bool := (Table.get? name s.units).isSome

/-- The number of templates kept. -/
def size (s : Store) : Nat := s.units.length

/-- With no template kept. -/
def clear (s : Store) : Store := { s with units := [] }

/-- A template parsed, with notices of it. -/
def parse (name source : Text) (s : Store) : Except ParseError Template × Store :=
  let stream := Stream.ofSource source .standard 0
  let s := stream.switches.foldl (fun s d => s.note (.delimitersSet name d)) s
  match Template.parse name source .standard with
  | .ok t => (.ok t, s.note (.parsed name t.root.length))
  | .error e => (.error e, s)

/-- A template parsed and kept. -/
def add (name source : Text) (s : Store) : Except ParseError Template × Store :=
  match s.parse name source with
  | (.ok t, s) => (.ok t, s.put t)
  | (.error e, s) => (.error e, s)

/-! ## Having -/

/-- A template loaded and kept. -/
def load (l : Loader) (fs : Files) (name : Text) (s : Store) :
    Except LoadError (Option Template) × Store :=
  match l.find? fs name with
  | .error e => (.error (.access e), s)
  | .ok none => (.ok none, s)
  | .ok (some p) =>
    let s := s.note (.loading name p)
    match fs.readText p l.encoding with
    | .error e => (.error e, s)
    | .ok source =>
      match s.add name source with
      | (.ok t, s) => (.ok (some t), s.note (.kept name))
      | (.error e, s) => (.error (.parse e), s)

/-- The template by a name: the one that is kept, or else the one loaded. -/
def get (fs : Files) (name : Text) (s : Store) : Except LoadError (Option Template) × Store :=
  match Table.get? name s.units, s.loader with
  | some t, _ => (.ok (some t), s)
  | none, none => (.ok none, s)
  | none, some l => s.load l fs name

theorem get_of_kept {fs : Files} {name : Text} {s : Store} {t : Template}
    (h : Table.get? name s.units = some t) : s.get fs name = (.ok (some t), s) := by
  simp [get, h]

theorem units_foldl_note (ns : List Delimiters) (f : Delimiters → Notice) (s : Store) :
    (ns.foldl (fun s d => s.note (f d)) s).units = s.units := by
  induction ns generalizing s with
  | nil => rfl
  | cons n ns ih => exact ih (s.note (f n))

theorem units_parse (name source : Text) (s : Store) : (s.parse name source).2.units = s.units := by
  unfold parse
  split <;> exact units_foldl_note _ (Notice.delimitersSet name) s

/-- A template that cannot be parsed changes nothing that is kept. -/
theorem units_of_add_error {name source : Text} {s s' : Store} {e : ParseError}
    (h : s.add name source = (.error e, s')) : s'.units = s.units := by
  have hu := units_parse name source s
  unfold add at h
  split at h
  · cases h
  · next hp =>
    cases h
    rw [hp] at hu
    exact hu

/-- A template that cannot be loaded changes nothing that is kept. -/
theorem units_of_load_error {l : Loader} {fs : Files} {name : Text} {s s' : Store} {e : LoadError}
    (h : s.load l fs name = (.error e, s')) : s'.units = s.units := by
  unfold load at h
  split at h
  · cases h
    rfl
  · cases h
  · dsimp only at h
    split at h
    · cases h
      rfl
    · split at h
      · cases h
      · next hadd =>
        cases h
        exact (units_of_add_error hadd).trans rfl

/-- A template that cannot be had changes nothing that is kept. -/
theorem units_of_get_error {fs : Files} {name : Text} {s s' : Store} {e : LoadError}
    (h : s.get fs name = (.error e, s')) : s'.units = s.units := by
  unfold get at h
  split at h
  · cases h
  · cases h
  · exact units_of_load_error h

/-! ## Loading all that is included -/

/-- The names that the files would include by if each of them were a template. -/
def namesInFiles (l : Loader) (fs : Files) : List Text :=
  fs.entries.flatMap fun
    | (_, .folder) => []
    | (_, .file bytes) =>
      match l.encoding.decode bytes with
      | .error _ => []
      | .ok s =>
        match Template.parse [] (unifyLineEnds s) .standard with
        | .ok t => t.includedNames
        | .error _ => []

/-- The names that can come up while templates are loaded. -/
def vocabulary (fs : Files) (s : Store) : List Text :=
  s.units.flatMap (fun (_, t) => t.includedNames) ++
    match s.loader with
    | some l => namesInFiles l fs
    | none => []

/-- The names but one. -/
def without (name : Text) (names : List Text) : List Text := names.filter (· ≠ name)

theorem length_without_lt {name : Text} {names : List Text} (h : name ∈ names) :
    (without name names).length < names.length :=
  List.length_filter_lt_length_iff_exists.2 ⟨name, h, by simp⟩

/-- The pending names from the first on that has not been asked for. -/
def skipSeen (unseen pending : List Text) : List Text := pending.dropWhile (· ∉ unseen)

theorem mem_of_skipSeen {unseen pending rest : List Text} {name : Text}
    (h : skipSeen unseen pending = name :: rest) : name ∈ unseen := by
  induction pending with
  | nil => simp [skipSeen] at h
  | cons p pending ih =>
    by_cases hp : p ∈ unseen
    · simp only [skipSeen, List.dropWhile_cons, hp, not_true_eq_false, decide_false] at h
      cases h
      exact hp
    · simp only [skipSeen, List.dropWhile_cons, hp, not_false_eq_true, decide_true] at h
      exact ih h

/-- To get the templates by the pending names, each name of `unseen` at most once, and all that they
include. The answer is the names that no template goes by, in the order in which they were asked
for. -/
def searchNames {σ ε : Type} (get : Text → σ → Except ε (Option Template) × σ)
    (unseen pending : List Text) (s : σ) : Except ε (List Text) × σ :=
  match _h : skipSeen unseen pending with
  | [] => (.ok [], s)
  | name :: pending =>
    match get name s with
    | (.error e, s) => (.error e, s)
    | (.ok none, s) =>
      match searchNames get (without name unseen) pending s with
      | (.ok missing, s) => (.ok (name :: missing), s)
      | (.error e, s) => (.error e, s)
    | (.ok (some t), s) => searchNames get (without name unseen) (pending ++ t.includedNames) s
termination_by unseen.length
decreasing_by all_goals exact length_without_lt (mem_of_skipSeen _h)

/-- To load all that a template includes, at any remove. The answer is the names that no template
goes by. The template itself counts as loaded. -/
def loadAll (fs : Files) (t : Template) (s : Store) : Except LoadError (List Text) × Store :=
  searchNames (get fs) (without t.name (t.includedNames ++ s.vocabulary fs)) t.includedNames s

/-! ## As the host of a render -/

/-- A store gives a render the templates it asks for; values are escaped by `escape`. -/
def host {ε : Type} (fs : Files) (escape : Text → Except ε Text) : Host Store (LoadError ⊕ ε) where
  escape := fun s => (escape s).mapError .inr
  find := fun name s =>
    match s.get fs name with
    | (.ok none, s) => (.ok none, s.note (.notFound name))
    | (.ok (some t), s) => (.ok (some t), s)
    | (.error e, s) => (.error (.inl e), s)

end Store
end Mustache
