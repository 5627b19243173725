import Mustache.Text.Quoted

/-!
# Encodings

How the bytes of a file stand for text. Decoding is strict: the first bytes that stand for nothing
make the whole fail, with their offsets and the reason. So is encoding, because a surrogate has no
form in bytes; only in the name of a file some of them stand for the bytes that are no text.
-/

namespace Mustache

/-- How text is kept in bytes. -/
inductive Encoding where
  | utf8
  | latin1
  | ascii
deriving DecidableEq, Repr

/-- Why a text cannot be put into bytes: the first and the last offset of the surrogates at fault,
and the first of them. -/
structure EncodeFault where
  first : Nat
  last : Nat
  surrogate : Fin 0x800
deriving DecidableEq, Repr

/-- Why bytes are not text: the first and the last offset of the ones at fault, the first of them,
and the reason. -/
structure DecodeFault where
  encoding : Encoding
  first : Nat
  last : Nat
  byte : UInt8
  reason : Text
deriving DecidableEq, Repr

namespace Encoding

/-- The name of an encoding in messages. -/
def name : Encoding → Text
  | utf8 => "utf-8".toText
  | latin1 => "latin-1".toText
  | ascii => "ascii".toText

/-! ## Reading -/

/-- What the first byte of a character in UTF-8 says: how many bytes follow, the bits it gives
itself, and the range of the byte after it. The ranges keep out long forms, surrogates and what lies
beyond the last character. -/
def lead? (b : UInt8) : Option (Nat × Nat × Nat × Nat) :=
  let n := b.toNat
  if 0xC2 ≤ n ∧ n ≤ 0xDF then some (1, n - 0xC0, 0x80, 0xBF)
  else if n = 0xE0 then some (2, 0, 0xA0, 0xBF)
  else if n = 0xED then some (2, 0xD, 0x80, 0x9F)
  else if 0xE1 ≤ n ∧ n ≤ 0xEF then some (2, n - 0xE0, 0x80, 0xBF)
  else if n = 0xF0 then some (3, 0, 0x90, 0xBF)
  else if 0xF1 ≤ n ∧ n ≤ 0xF3 then some (3, n - 0xF0, 0x80, 0xBF)
  else if n = 0xF4 then some (3, 4, 0x80, 0x8F)
  else none

/-- The end of a character in UTF-8: its number and the bytes after it. Otherwise how many of the
bytes that should follow are sound, and whether the text ends there. -/
def continue? : Nat → Nat → Nat → Nat → Nat → List UInt8 → Except (Nat × Bool) (Nat × List UInt8)
  | 0, _, _, code, _, bs => .ok (code, bs)
  | _ + 1, _, _, _, sound, [] => .error (sound, true)
  | more + 1, low, high, code, sound, b :: bs =>
    if low ≤ b.toNat ∧ b.toNat ≤ high then
      continue? more 0x80 0xBF (code * 64 + (b.toNat - 0x80)) (sound + 1) bs
    else .error (sound, false)

theorem length_of_continue? {more low high code sound n : Nat} {bs rest : List UInt8}
    (h : continue? more low high code sound bs = .ok (n, rest)) : rest.length ≤ bs.length := by
  induction more generalizing low high code sound bs with
  | zero =>
    simp only [continue?, Except.ok.injEq, Prod.mk.injEq] at h
    simp [h.2]
  | succ more ih =>
    cases bs with
    | nil => simp [continue?] at h
    | cons b bs =>
      simp only [continue?] at h
      split at h
      · have := ih h
        simp only [List.length_cons]
        omega
      · simp at h

/-- The text that bytes are in UTF-8, the first of them at this offset. -/
def decodeUtf8 (offset : Nat) (bs : List UInt8) : Except DecodeFault Text :=
  match bs with
  | [] => .ok []
  | b :: bs =>
    if b.toNat < 0x80 then
      (decodeUtf8 (offset + 1) bs).map (CodePoint.ofNat b.toNat :: ·)
    else
      match lead? b with
      | none => .error ⟨.utf8, offset, offset, b, "invalid start byte".toText⟩
      | some (more, code, low, high) =>
        match _h : continue? more low high code 0 bs with
        | .ok (n, rest) => (decodeUtf8 (offset + 1 + more) rest).map (CodePoint.ofNat n :: ·)
        | .error (sound, true) =>
          .error ⟨.utf8, offset, offset + sound, b, "unexpected end of data".toText⟩
        | .error (sound, false) =>
          .error ⟨.utf8, offset, offset + sound, b, "invalid continuation byte".toText⟩
termination_by bs.length
decreasing_by
  · simp
  · have := length_of_continue? _h
    simp only [List.length_cons]
    omega

/-- The text that bytes are in ASCII, the first of them at this offset. -/
def decodeAscii (offset : Nat) : List UInt8 → Except DecodeFault Text
  | [] => .ok []
  | b :: bs =>
    if b.toNat < 0x80 then (decodeAscii (offset + 1) bs).map (CodePoint.ofNat b.toNat :: ·)
    else .error ⟨.ascii, offset, offset, b, "ordinal not in range(128)".toText⟩

/-- The text that bytes are in an encoding. -/
def decode (e : Encoding) (bs : List UInt8) : Except DecodeFault Text :=
  match e with
  | utf8 => decodeUtf8 0 bs
  | latin1 => .ok (bs.map fun b => CodePoint.ofNat b.toNat)
  | ascii => decodeAscii 0 bs

/-! ## Writing -/

/-- A code point in UTF-8. A surrogate has no form there; where one is let through all the same, it
stands for the byte that its number ends in. -/
def encodeChar (c : CodePoint) : List UInt8 :=
  let n := c.toNat
  let tail (n : Nat) : UInt8 := UInt8.ofNat (0x80 + n % 64)
  match c with
  | .surrogate _ => [UInt8.ofNat n]
  | .char _ =>
    if n < 0x80 then [UInt8.ofNat n]
    else if n < 0x800 then [UInt8.ofNat (0xC0 + n / 64), tail n]
    else if n < 0x10000 then [UInt8.ofNat (0xE0 + n / 4096), tail (n / 64), tail n]
    else [UInt8.ofNat (0xF0 + n / 262144), tail (n / 4096), tail (n / 64), tail n]

/-- The bytes of a text in UTF-8, whose surrogates are let through. -/
def bytesOf (s : Text) : List UInt8 := s.flatMap encodeChar

/-- The first surrogate that is not let through, together with the surrogates right behind it, in a
text that begins at this offset. -/
def encodeFault? (through : Fin 0x800 → Bool) (offset : Nat) : Text → Option EncodeFault
  | [] => none
  | .char _ :: s => encodeFault? through (offset + 1) s
  | .surrogate n :: s =>
    if through n then encodeFault? through (offset + 1) s
    else some ⟨offset, offset + (s.takeWhile CodePoint.isSurrogate).length, n⟩

/-- A text in UTF-8, if it has no surrogates but those that are let through. -/
def encode (through : Fin 0x800 → Bool) (s : Text) : Except EncodeFault (List UInt8) :=
  match encodeFault? through 0 s with
  | some fault => .error fault
  | none => .ok (bytesOf s)

/-- The contents of a file with this text, which must have no surrogates. -/
def encodeUtf8 (s : Text) : Except EncodeFault (List UInt8) := encode (fun _ => false) s

/-- The name of a file, or the path to it, with this text. The surrogates from `U+DC80` to `U+DCFF`
stand for the bytes from 0x80 on, where these are no text. -/
def encodePath (s : Text) : Except EncodeFault (List UInt8) :=
  encode (fun n => 0x480 ≤ n.val && n.val ≤ 0x4FF) s

end Encoding

/-- The message for bytes that are not text. -/
def DecodeFault.message (f : DecodeFault) : Text :=
  let number (n : Nat) : Text := (toString n).toText
  let bytes : Text :=
    if f.first = f.last then
      "byte 0x".toText ++ Text.hex 2 f.byte.toNat ++ " in position ".toText ++ number f.first
    else "bytes in position ".toText ++ number f.first ++ [char '-'] ++ number f.last
  [char '\''] ++ f.encoding.name ++ "' codec can't decode ".toText ++ bytes ++ ": ".toText ++
    f.reason

/-- The message for a text that cannot be put into bytes. -/
def EncodeFault.message (f : EncodeFault) : Text :=
  let number (n : Nat) : Text := (toString n).toText
  let surrogates : Text :=
    if f.first = f.last then
      "character '".toText ++ Text.numericEscape (CodePoint.surrogate f.surrogate).toNat ++
        "' in position ".toText ++ number f.first
    else "characters in position ".toText ++ number f.first ++ [char '-'] ++ number f.last
  "'utf-8' codec can't encode ".toText ++ surrogates ++ ": surrogates not allowed".toText

namespace Text

/-- The text with every line end — carriage return and line feed, or either alone — as one line
feed. -/
def unifyLineEnds : Text → Text
  | [] => []
  | [char '\r'] => [char '\n']
  | char '\r' :: char '\n' :: s => '\n' :: unifyLineEnds s
  | c :: s => (if c = '\r' then '\n' else c) :: unifyLineEnds s

end Text
end Mustache
