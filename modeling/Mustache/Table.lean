import Mustache.Text.Basic

/-!
# Tables

A table is a list of entries in the order in which their keys were first written. Writing a key
again changes its value and keeps its place.

## Main statements

* `get?_insert_self`, `get?_insert_of_ne` — a written value is read back, and writing one key
  disturbs no other;
* `insert_of_get?_eq_none` — a new key comes last.
-/

namespace Mustache

/-- Entries by key, in the order of first writing. -/
abbrev Table (κ α : Type) := List (κ × α)

namespace Table

variable {κ α : Type} [DecidableEq κ]

/-- The value at a key. -/
def get? (key : κ) : Table κ α → Option α
  | [] => none
  | (k, a) :: t => if k = key then some a else get? key t

/-- With this value at the key. -/
def insert (key : κ) (value : α) : Table κ α → Table κ α
  | [] => [(key, value)]
  | (k, a) :: t => if k = key then (k, value) :: t else (k, a) :: insert key value t

/-- The table that writing the entries in order gives. -/
def ofEntries (entries : List (κ × α)) : Table κ α :=
  entries.foldl (fun t (k, a) => insert k a t) []

/-- The keys in order. -/
def keys (t : Table κ α) : List κ := t.map (·.1)

@[simp] theorem get?_insert_self (key : κ) (value : α) (t : Table κ α) :
    get? key (insert key value t) = some value := by
  induction t with
  | nil => simp [insert, get?]
  | cons e t ih =>
    obtain ⟨k, a⟩ := e
    by_cases h : k = key
    · simp [insert, get?, h]
    · simp [insert, get?, h, ih]

theorem get?_insert_of_ne {key other : κ} (h : other ≠ key) (value : α) (t : Table κ α) :
    get? other (insert key value t) = get? other t := by
  induction t with
  | nil => simp [insert, get?, Ne.symm h]
  | cons e t ih =>
    obtain ⟨k, a⟩ := e
    by_cases hk : k = key
    · subst hk
      simp [insert, get?, Ne.symm h]
    · by_cases ho : k = other
      · subst ho
        simp [insert, get?, hk]
      · simp [insert, get?, hk, ho, ih]

theorem insert_of_get?_eq_none {key : κ} {t : Table κ α} (h : get? key t = none) (value : α) :
    insert key value t = t ++ [(key, value)] := by
  induction t with
  | nil => rfl
  | cons e t ih =>
    obtain ⟨k, a⟩ := e
    by_cases hk : k = key
    · simp [get?, hk] at h
    · simp [insert, hk, ih (by simpa [get?, hk] using h)]

theorem mem_of_mem_insert {key : κ} {value : α} {e : κ × α} {t : Table κ α}
    (h : e ∈ insert key value t) : e = (key, value) ∨ e ∈ t := by
  induction t with
  | nil => exact .inl (List.mem_singleton.mp h)
  | cons f t ih =>
    obtain ⟨k, a⟩ := f
    by_cases hk : k = key
    · simp only [insert, hk, if_true, List.mem_cons] at h
      rcases h with rfl | h
      · exact .inl rfl
      · exact .inr (List.mem_cons_of_mem _ h)
    · simp only [insert, hk, if_false, List.mem_cons] at h
      rcases h with rfl | h
      · exact .inr List.mem_cons_self
      · exact (ih h).imp_right (List.mem_cons_of_mem _)

theorem get?_append (key : κ) (t u : Table κ α) :
    get? key (t ++ u) = (get? key t).or (get? key u) := by
  induction t with
  | nil => rfl
  | cons e t ih =>
    obtain ⟨k, a⟩ := e
    by_cases hk : k = key
    · simp [get?, hk]
    · simp [get?, hk, ih]

theorem mem_of_get?_eq_some {key : κ} {value : α} {t : Table κ α} (h : get? key t = some value) :
    (key, value) ∈ t := by
  induction t with
  | nil => simp [get?] at h
  | cons e t ih =>
    obtain ⟨k, a⟩ := e
    by_cases hk : k = key
    · simp [get?, hk] at h
      simp [hk, h]
    · exact List.mem_cons_of_mem _ (ih (by simpa [get?, hk] using h))

end Table
end Mustache
