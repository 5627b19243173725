import Mustache.Json.Basic
import Mustache.Text.Place

/-!
# Reading JSON

The reader goes through the text once and stops at the first character that cannot stand where it
stands. A fault is recorded with the number of characters that were left there; with the whole text
at hand that is an offset. Beyond the standard grammar, `NaN`, `Infinity` and `-Infinity` are
numbers. A key that is written twice has its last value and its first place.

## Termination

Of two calls inside each other at least one has taken a character, so twice the length of the text
bounds their depth.
-/

namespace Mustache

open Text

/-- Why a text is not JSON. -/
inductive JsonFaultKind where
  | value
  | propertyName
  | colon
  | comma
  | extraData
  | unterminatedString
  | controlCharacter
  | escape
  | unicodeEscape
  | byteOrderMark
deriving DecidableEq, Repr

/-- What is expected, or wrong, in words. -/
def JsonFaultKind.message : JsonFaultKind → Text
  | .value => "Expecting value".toText
  | .propertyName => "Expecting property name enclosed in double quotes".toText
  | .colon => "Expecting ':' delimiter".toText
  | .comma => "Expecting ',' delimiter".toText
  | .extraData => "Extra data".toText
  | .unterminatedString => "Unterminated string starting at".toText
  | .controlCharacter => "Invalid control character at".toText
  | .escape => "Invalid \\escape".toText
  | .unicodeEscape => "Invalid \\uXXXX escape".toText
  | .byteOrderMark => "Unexpected UTF-8 BOM (decode using utf-8-sig)".toText

/-- Why reading stops. -/
inductive JsonStop where
  /-- The text is not JSON; so many characters are left where that shows. -/
  | fault (kind : JsonFaultKind) (left : Nat)
  /-- A whole number has more digits than are accepted. -/
  | tooManyDigits (count : Nat)
deriving DecidableEq, Repr

namespace JsonValue

/-- What a reader gives: something, and the text after it. -/
abbrev Reads (α : Type) := Except JsonStop (α × Text)

/-! ## Blanks and literals -/

/-- May the character stand between the parts of a JSON text? -/
def isSpace (c : CodePoint) : Bool := c == ' ' || c == '\t' || c == '\n' || c == '\r'

/-- The text without the blanks at its beginning. -/
def skipBlanks (s : Text) : Text := s.dropWhile isSpace

/-- The values that are written as words. -/
def words : List (Text × JsonValue) :=
  [("null".toText, .null), ("true".toText, .bool true), ("false".toText, .bool false),
    ("NaN".toText, .double .nan), ("Infinity".toText, .double (.infinity false)),
    ("-Infinity".toText, .double (.infinity true))]

/-- A value written as a word, if the text begins with one. -/
def word? (s : Text) : Option (JsonValue × Text) :=
  words.findSome? fun (w, j) => (strip? w s).map (j, ·)

/-! ## Numbers -/

/-- The value of ASCII digits. -/
def digitsValue (ds : Text) : Nat := ds.foldl (fun n c => 10 * n + (c.toNat - 48)) 0

/-- The digits before the point: a zero alone, or digits that begin with none. -/
def wholeDigits : Text → Text
  | [] => []
  | c :: s =>
    if c = '0' then [char '0']
    else if c.isDigit then c :: s.takeWhile CodePoint.isDigit
    else []

/-- The digits after a point, if there is one with digits after it. -/
def fractionDigits (s : Text) : Text :=
  match s with
  | char '.' :: s => s.takeWhile CodePoint.isDigit
  | _ => []

/-- The sign and the digits of an exponent, if there is one with digits in it, and the number of its
characters. -/
def exponent? (s : Text) : Option (Int × Nat) :=
  match s with
  | c :: s =>
    if c = 'e' ∨ c = 'E' then
      let (negative, skipped) := match s with
        | char '-' :: _ => (true, 1)
        | char '+' :: _ => (false, 1)
        | _ => (false, 0)
      let ds := (s.drop skipped).takeWhile CodePoint.isDigit
      if ds = [] then none
      else
        let n : Int := digitsValue ds
        some (if negative then -n else n, 1 + skipped + ds.length)
    else none
  | [] => none

/-- The most digits that a whole number may have. -/
def digitLimit : Nat := 4300

/-- A number. Without a point and an exponent it is a whole number, otherwise a double. -/
def readNumber (s : Text) : Reads JsonValue :=
  let (negative, unsigned) := match s with
    | char '-' :: s => (true, s)
    | s => (false, s)
  let whole := wholeDigits unsigned
  if whole = [] then .error (.fault .value s.length)
  else
    let rest := unsigned.drop whole.length
    let fraction := fractionDigits rest
    let rest := if fraction = [] then rest else rest.drop (fraction.length + 1)
    match exponent? rest with
    | some (e, n) =>
      .ok (.double (Decimal.ofParts negative whole fraction e).toDouble, rest.drop n)
    | none =>
      if fraction ≠ [] then .ok (.double (Decimal.ofParts negative whole fraction 0).toDouble, rest)
      else if digitLimit < whole.length then .error (.tooManyDigits whole.length)
      else
        let n : Int := digitsValue whole
        .ok (.int (if negative then -n else n), rest)

/-! ## Strings -/

/-- The value of a hexadecimal digit. -/
def hexValue? (c : CodePoint) : Option Nat :=
  if c.isDigit then some (c.toNat - 48)
  else if 97 ≤ c.toNat ∧ c.toNat ≤ 102 then some (c.toNat - 87)
  else if 65 ≤ c.toNat ∧ c.toNat ≤ 70 then some (c.toNat - 55)
  else none

/-- The number that four hexadecimal digits write. -/
def hexNumber? (ds : Text) : Option Nat :=
  ds.foldl (fun n c => n.bind fun n => (hexValue? c).map (16 * n + ·)) (some 0)

/-- The character that stands after a backslash for another one. -/
def named? : CodePoint → Option CodePoint
  | char '"' => some (char '"')
  | char '\\' => some (char '\\')
  | char '/' => some (char '/')
  | char 'b' => some (char '\x08')
  | char 'f' => some (char '\x0c')
  | char 'n' => some (char '\n')
  | char 'r' => some (char '\r')
  | char 't' => some (char '\t')
  | _ => none

/-- Is it the first, or the second, half of a character beyond the first 2¹⁶? -/
def isHalf (second : Bool) (n : Nat) : Bool :=
  if second then 0xDC00 ≤ n && n ≤ 0xDFFF else 0xD800 ≤ n && n ≤ 0xDBFF

/-- The second half of a character, where the text goes on with one: its number. What begins like
one has to be sound. -/
def secondHalf? (s : Text) : Except JsonStop (Option Nat) :=
  match s with
  | char '\\' :: char 'u' :: ds =>
    if s.length ≤ 6 then .ok none
    else
      match hexNumber? (ds.take 4) with
      | none => .error (.fault .unicodeEscape (ds.length + 1))
      | some n => .ok (if isHalf true n then some n else none)
  | _ => .ok none

/-- A code point by the number after `u`, with the number of characters that write it. Half a
character alone is a surrogate. -/
def readUnicode (s : Text) : Except JsonStop (CodePoint × Nat) :=
  if s.length ≤ 4 then .error (.fault .unicodeEscape (s.length + 1))
  else
    match hexNumber? (s.take 4) with
    | none => .error (.fault .unicodeEscape (s.length + 1))
    | some n =>
      if isHalf false n then
        match secondHalf? (s.drop 4) with
        | .error e => .error e
        | .ok (some m) => .ok (CodePoint.ofNat (0x10000 + (n - 0xD800) * 0x400 + (m - 0xDC00)), 10)
        | .ok none => .ok (CodePoint.ofNat n, 4)
      else .ok (CodePoint.ofNat n, 4)

/-- The rest of a string whose opening quote had `opened` characters left, itself included. -/
def readString (opened : Nat) (s : Text) : Reads Text :=
  match s with
  | [] => .error (.fault .unterminatedString opened)
  | char '"' :: s => .ok ([], s)
  | [char '\\'] => .error (.fault .unterminatedString opened)
  | char '\\' :: c :: s =>
    if c = 'u' then
      match readUnicode s with
      | .error e => .error e
      | .ok (d, n) => (readString opened (s.drop n)).map fun (t, r) => (d :: t, r)
    else
      match named? c with
      | some d => (readString opened s).map fun (t, r) => (d :: t, r)
      | none => .error (.fault .escape (s.length + 2))
  | c :: s =>
    if c.toNat ≤ 0x1F then .error (.fault .controlCharacter (s.length + 1))
    else (readString opened s).map fun (t, r) => (c :: t, r)
termination_by s.length
decreasing_by all_goals
  simp only [List.length_cons, List.length_drop]
  omega

/-! ## Values -/

mutual

/-- A value. -/
def readValue (depth : Nat) (s : Text) : Reads JsonValue :=
  match depth, s with
  | 0, s => .error (.fault .value s.length)
  | _ + 1, [] => .error (.fault .value 0)
  | depth + 1, c :: s =>
    if c = '"' then (readString (s.length + 1) s).map fun (t, r) => (.str t, r)
    else if c = '[' then
      match skipBlanks s with
      | char ']' :: r => .ok (.array [], r)
      | s => (readItems depth s).map fun (items, r) => (.array items, r)
    else if c = '\x7b' then
      match skipBlanks s with
      | char '\x7d' :: r => .ok (.object [], r)
      | s => (readMembers depth [] s).map fun (es, r) => (.object es, r)
    else
      match word? (c :: s) with
      | some (j, r) => .ok (j, r)
      | none => readNumber (c :: s)
termination_by structural depth

/-- The items of an array up to its end, at least one. -/
def readItems (depth : Nat) (s : Text) : Reads (List JsonValue) :=
  match depth with
  | 0 => .error (.fault .value s.length)
  | depth + 1 =>
    match readValue depth s with
    | .error e => .error e
    | .ok (j, r) =>
      match skipBlanks r with
      | char ']' :: r => .ok ([j], r)
      | char ',' :: r => (readItems depth (skipBlanks r)).map fun (js, r) => (j :: js, r)
      | r => .error (.fault .comma r.length)
termination_by structural depth

/-- The entries of an object up to its end, at least one, after those read already. -/
def readMembers (depth : Nat) (entries : Table Text JsonValue) (s : Text) :
    Reads (Table Text JsonValue) :=
  match depth with
  | 0 => .error (.fault .value s.length)
  | depth + 1 =>
    match s with
    | char '"' :: k =>
      match readString s.length k with
      | .error e => .error e
      | .ok (key, r) =>
        match skipBlanks r with
        | char ':' :: r =>
          match readValue depth (skipBlanks r) with
          | .error e => .error e
          | .ok (j, r) =>
            let entries := Table.insert key j entries
            match skipBlanks r with
            | char '\x7d' :: r => .ok (entries, r)
            | char ',' :: r => readMembers depth entries (skipBlanks r)
            | r => .error (.fault .comma r.length)
        | r => .error (.fault .colon r.length)
    | s => .error (.fault .propertyName s.length)
termination_by structural depth

end

/-- Why a text is not read as JSON. -/
inductive ReadError where
  | fault (kind : JsonFaultKind) (place : Place)
  | tooManyDigits (count : Nat)
deriving DecidableEq, Repr

/-- The message: what is expected or wrong, and where. -/
def ReadError.message : ReadError → Text
  | .fault kind place =>
    let number (n : Nat) : Text := (toString n).toText
    kind.message ++ ": line ".toText ++ number place.line ++ " column ".toText ++
      number place.column ++ " (char ".toText ++ number place.position ++ [char ')']
  | .tooManyDigits count =>
    "Exceeds the limit (4300 digits) for integer string conversion: value has ".toText ++
      (toString count).toText ++
      " digits; use sys.set_int_max_str_digits() to increase the limit".toText

/-- Where reading a text stopped, as an error of the text. -/
def errorOf (source : Text) : JsonStop → ReadError
  | .fault kind left => .fault kind (Place.ofPosition source (source.length - left))
  | .tooManyDigits count => .tooManyDigits count

/-- The value that a whole text writes. -/
def ofText (source : Text) : Except ReadError JsonValue :=
  if source.head? = some (char '\ufeff') then
    .error (errorOf source (.fault .byteOrderMark source.length))
  else
    match readValue (2 * source.length + 1) (skipBlanks source) with
    | .error e => .error (errorOf source e)
    | .ok (j, r) =>
      match skipBlanks r with
      | [] => .ok j
      | r => .error (errorOf source (.fault .extraData r.length))

end JsonValue
end Mustache
