import Mustache.Context
import Mustache.Proofs.Text.Words

/-!
# Where a name leads

A name is sought in two phases. Its first key is looked up in one scope after the other, and the
first that has something there settles it. From then on only what has been found counts: every
further key is looked up in what the key before it led to, and where one of them leads nowhere the
name refers to nothing, whatever the scopes further out have.

The walk along the keys stops when nothing is left to look in. That is no more than a shortcut,
since there is nothing at any key of what is missing (`Context.follow_eq_foldl`).

* `Context.referent_eq` — what a name refers to, without the shortcuts
* `Context.referent_twoPhase` — names in a context with a further scope, and names of two parts
-/

namespace Mustache

open Text

namespace Value

theorem isMissing_iff {v : Value} : v.isMissing = true ↔ v = .missing := by
  cases v <;> simp [isMissing]

theorem child_missing (key : Text) : missing.child key = .missing := rfl

/-- From what is missing no path leads anywhere. -/
theorem foldl_child_missing (path : List Text) : path.foldl child .missing = .missing := by
  induction path with
  | nil => rfl
  | cons key path ih => rw [List.foldl_cons, child_missing, ih]

end Value

namespace Context

/-! ## The keys of a name -/

/-- The key that a name begins with. -/
def firstKey (name : Text) : Text := (pieces (· == '.') name).headD []

/-- The keys of a name behind the first. -/
def furtherKeys (name : Text) : List Text := (pieces (· == '.') name).tail

theorem pieces_eq_cons (name : Text) :
    pieces (· == '.') name = firstKey name :: furtherKeys name := by
  unfold firstKey furtherKeys
  cases h : pieces (· == '.') name with
  | nil => exact absurd h (pieces_ne_nil _ name)
  | cons key path => rfl

/-- The keys of a name of two parts are those of the one and those of the other. -/
theorem keys_append (a b : Text) :
    firstKey (a ++ char '.' :: b) = firstKey a ∧
      furtherKeys (a ++ char '.' :: b) = furtherKeys a ++ firstKey b :: furtherKeys b := by
  have hkeys : firstKey (a ++ char '.' :: b) :: furtherKeys (a ++ char '.' :: b) =
      firstKey a :: (furtherKeys a ++ firstKey b :: furtherKeys b) := by
    rw [← pieces_eq_cons, pieces_append_separator rfl, pieces_eq_cons a, pieces_eq_cons b]
    rfl
  exact List.cons.inj hkeys

/-! ## Following the keys -/

theorem follow_eq_foldl (v : Value) (path : List Text) :
    follow v path = path.foldl Value.child v := by
  induction path generalizing v with
  | nil => rfl
  | cons key path ih =>
    rw [follow, List.foldl_cons]
    split
    · next hmissing =>
      rw [Value.isMissing_iff.mp hmissing, Value.child_missing, Value.foldl_child_missing]
    · exact ih _

/-- **What a name refers to**: from what its first key refers to, each further key leads on. -/
theorem referent_eq (c : Context) {name : Text} (hdot : name ≠ [char '.']) :
    c.referent name = (furtherKeys name).foldl Value.child (c.find (firstKey name)) := by
  unfold referent
  rw [if_neg hdot, pieces_eq_cons]
  exact follow_eq_foldl _ _

theorem find_ofRoot (root : Value) (key : Text) : (ofRoot root).find key = root.child key := by
  cases hroot : root.isMissing with
  | true =>
    rw [Value.isMissing_iff.mp hroot]
    rfl
  | false =>
    rw [ofRoot, hroot]
    show (if (root.child key).isMissing then Value.missing else root.child key) = root.child key
    split
    · next hchild => exact (Value.isMissing_iff.mp hchild).symm
    · rfl

/-! ## The two phases -/

/-- A scope that has the first key of a name settles it, even if the name then leads nowhere. -/
theorem referent_push_of_ne (c : Context) {scope : Value} {name : Text} (hdot : name ≠ ['.'])
    (hfound : scope.child (firstKey name) ≠ .missing) :
    (c.push scope).referent name =
      (furtherKeys name).foldl Value.child (scope.child (firstKey name)) := by
  rw [referent_eq _ hdot, find_push, if_neg (mt Value.isMissing_iff.mp hfound)]

/-- A scope that does not have the first key of a name is passed over. -/
theorem referent_push_of_eq (c : Context) {scope : Value} {name : Text} (hdot : name ≠ ['.'])
    (hmissing : scope.child (firstKey name) = .missing) :
    (c.push scope).referent name = c.referent name := by
  rw [referent_eq _ hdot, referent_eq _ hdot, find_push,
    if_pos (Value.isMissing_iff.mpr hmissing)]

/-- The second part of a name is sought in what the first refers to, and nowhere else. -/
theorem referent_append (c : Context) {a b : Text} (ha : a ≠ ['.']) (hb : b ≠ ['.'])
    (hne : a ≠ [] ∨ b ≠ []) :
    c.referent (a ++ char '.' :: b) = (ofRoot (c.referent a)).referent b := by
  have hdot : a ++ char '.' :: b ≠ ['.'] := by
    intro h
    rcases List.append_eq_singleton_iff.mp h with ⟨ha, hb⟩ | ⟨-, hb⟩
    · exact hne.elim (absurd ha) (absurd (List.cons.inj hb).2)
    · cases hb
  obtain ⟨hfirst, hfurther⟩ := keys_append a b
  rw [referent_eq _ hdot, referent_eq _ ha, referent_eq _ hb, hfirst, hfurther, find_ofRoot,
    List.foldl_append, List.foldl_cons]

/-- **Names obey two phases.** With a further scope, a name other than the dot refers to what its
further keys lead to from what that scope has at its first key; if the scope has nothing there, to
what it refers to without the scope. And of a name of two parts the second is looked up in what the
first refers to alone, so where the first refers to nothing the whole name does. -/
theorem referent_twoPhase (c : Context) :
    (∀ (scope : Value) (name : Text), name ≠ ['.'] →
      (scope.child (firstKey name) ≠ .missing →
        (c.push scope).referent name =
          (furtherKeys name).foldl Value.child (scope.child (firstKey name))) ∧
      (scope.child (firstKey name) = .missing →
        (c.push scope).referent name = c.referent name)) ∧
    ∀ a b : Text, a ≠ ['.'] → b ≠ ['.'] → (a ≠ [] ∨ b ≠ []) →
      c.referent (a ++ char '.' :: b) = (ofRoot (c.referent a)).referent b ∧
      (c.referent a = .missing → c.referent (a ++ char '.' :: b) = .missing) := by
  refine ⟨fun scope name hdot => ⟨referent_push_of_ne c hdot, referent_push_of_eq c hdot⟩, ?_⟩
  intro a b ha hb hne
  refine ⟨referent_append c ha hb hne, fun hmissing => ?_⟩
  rw [referent_append c ha hb hne, hmissing, referent_eq _ hb, find_ofRoot, Value.child_missing,
    Value.foldl_child_missing]

/-- A scope with something null at the key `a`, pushed onto one with more there, some of it at an
empty key: the name `a..x` leads nowhere, and before it leads to a number. -/
theorem referent_twoPhase_hidden :
    let c := ofRoot (.map [(['a'], .map [([], .map [(['x'], .int 7)])]), (['b'], .bool false)])
    let scope := Value.map [(['a'], .null)]
    let name := "a..x".toText
    (name ≠ ['.'] ∧ scope.child (firstKey name) ≠ .missing ∧
      (c.push scope).referent name = .missing) ∧
    (scope.child (firstKey ['b']) = .missing ∧ (c.push scope).referent ['b'] = .bool false) ∧
    c.referent name = (ofRoot (c.referent ['a'])).referent ['.', 'x'] ∧
      c.referent name = .int 7 ∧
      c.referent ['c'] = .missing ∧ c.referent "c.a".toText = .missing := by
  intro c scope name
  have hphases := referent_twoPhase c
  have hname : name ≠ ['.'] := by decide
  have hfound : scope.child (firstKey name) ≠ .missing := nofun
  have hmissing : scope.child (firstKey ['b']) = .missing := rfl
  have hnothing : c.referent ['c'] = .missing := rfl
  have hparts := (hphases.2 ['a'] ['.', 'x'] (by decide) (by decide) (.inr (by decide))).1
  exact ⟨⟨hname, hfound, (hphases.1 scope name hname).1 hfound⟩,
    ⟨hmissing, (hphases.1 scope ['b'] (by decide)).2 hmissing⟩,
    hparts, hparts.trans rfl, hnothing,
    (hphases.2 ['c'] ['a'] (by decide) (by decide) (.inr (by decide))).2 hnothing⟩

end Context
end Mustache
