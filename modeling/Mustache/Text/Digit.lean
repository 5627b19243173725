import Mustache.Text.Basic

/-!
# Decimal digits

A decimal digit is a character with the Unicode category Nd. Such characters come in runs of ten,
one run for each script that has digits of its own, so the table lists the zeros alone.

## Main statements

* `digit?_of_isDigit` — the ASCII digits are digits, with their usual values;
* `digit?_lt` — a digit is worth less than ten.
-/

namespace Mustache.Text

/-- The zeros of all scripts that have decimal digits. -/
def digitZeros : List Nat :=
  [0x0030, 0x0660, 0x06F0, 0x07C0, 0x0966, 0x09E6, 0x0A66, 0x0AE6,
   0x0B66, 0x0BE6, 0x0C66, 0x0CE6, 0x0D66, 0x0DE6, 0x0E50, 0x0ED0,
   0x0F20, 0x1040, 0x1090, 0x17E0, 0x1810, 0x1946, 0x19D0, 0x1A80,
   0x1A90, 0x1B50, 0x1BB0, 0x1C40, 0x1C50, 0xA620, 0xA8D0, 0xA900,
   0xA9D0, 0xA9F0, 0xAA50, 0xABF0, 0xFF10, 0x104A0, 0x10D30, 0x11066,
   0x110F0, 0x11136, 0x111D0, 0x112F0, 0x11450, 0x114D0, 0x11650, 0x116C0,
   0x11730, 0x118E0, 0x11950, 0x11C50, 0x11D50, 0x11DA0, 0x16A60, 0x16AC0,
   0x16B50, 0x1D7CE, 0x1D7D8, 0x1D7E2, 0x1D7EC, 0x1D7F6, 0x1E140, 0x1E2F0,
   0x1E950, 0x1FBF0]

/-- The value of a decimal digit of any script. -/
def digit? (c : CodePoint) : Option Nat :=
  (digitZeros.find? fun z => z ≤ c.toNat && c.toNat < z + 10).map (c.toNat - ·)

theorem digit?_lt {c : CodePoint} {d : Nat} (h : digit? c = some d) : d < 10 := by
  obtain ⟨z, hz, rfl⟩ := Option.map_eq_some_iff.1 h
  have := List.find?_some hz
  simp only [Bool.and_eq_true, decide_eq_true_eq] at this
  omega

theorem digit?_of_isDigit {c : CodePoint} (h : c.isDigit = true) :
    digit? c = some (c.toNat - 48) := by
  have hb : 48 ≤ c.toNat ∧ c.toNat < 48 + 10 := by
    simp only [CodePoint.isDigit, Bool.and_eq_true, decide_eq_true_eq] at h
    omega
  simp [digit?, digitZeros, hb]

/-- The number that a text of decimal digits writes; digits of several scripts may be mixed, and
there may be any number of them. -/
def number? : Text → Option Nat
  | [] => none
  | s => s.foldl (fun n c => n.bind fun n => (digit? c).map (10 * n + ·)) (some 0)

end Mustache.Text
