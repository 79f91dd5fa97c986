/-!
# UTF-8

Characters as bytes and back. Decoding is strict: an overlong form, a surrogate, a value beyond `U+10FFFF` or a
sequence cut short is refused, and the first malformed part is reported with its place, its bytes and the reason.

* `encode`: the bytes of a text;
* `decode`: the text of a byte sequence, or its first malformed part;
* `slice`: the bytes between two offsets, clamped to the data.
-/

namespace SwitchLint.Text.Utf8

/-- Why a part of a byte sequence is malformed. -/
inductive Reason where
  | invalidStart
  | invalidContinuation
  | unexpectedEnd
  deriving DecidableEq

/-- A malformed part: the offset of its first byte, its bytes, and what is wrong. -/
structure Malformed where
  start : Nat
  bytes : List UInt8
  reason : Reason
  deriving DecidableEq

/-- A character whose first bytes have been read: its offset, these bytes, the value so far, the number of bytes still
to come, and the bounds on the next one. -/
structure Pending where
  start : Nat
  bytes : List UInt8
  value : Nat
  missing : Nat
  low : Nat
  high : Nat

/-- The bytes of one character. -/
def encodeChar (c : Char) : List UInt8 :=
  let n := c.toNat
  if n < 0x80 then [.ofNat n]
  else if n < 0x800 then [.ofNat (0xC0 + n / 64), .ofNat (0x80 + n % 64)]
  else if n < 0x10000 then [.ofNat (0xE0 + n / 4096), .ofNat (0x80 + n / 64 % 64), .ofNat (0x80 + n % 64)]
  else [.ofNat (0xF0 + n / 262144), .ofNat (0x80 + n / 4096 % 64), .ofNat (0x80 + n / 64 % 64),
    .ofNat (0x80 + n % 64)]

/-- The bytes of a text. -/
def encode (s : List Char) : List UInt8 :=
  s.flatMap encodeChar

/-- What the first byte `b` of a character of several bytes, at the offset `start`, says about the rest: the number of
bytes to come, and the bounds on the next one that keep out overlong forms, surrogates and too large values. -/
def Pending.ofLead (start : Nat) (b : UInt8) : Option Pending :=
  let n := b.toNat
  if 0xC2 ≤ n ∧ n ≤ 0xDF then some ⟨start, [b], n - 0xC0, 1, 0x80, 0xBF⟩
  else if n = 0xE0 then some ⟨start, [b], 0, 2, 0xA0, 0xBF⟩
  else if n = 0xED then some ⟨start, [b], 0xD, 2, 0x80, 0x9F⟩
  else if 0xE1 ≤ n ∧ n ≤ 0xEF then some ⟨start, [b], n - 0xE0, 2, 0x80, 0xBF⟩
  else if n = 0xF0 then some ⟨start, [b], 0, 3, 0x90, 0xBF⟩
  else if 0xF1 ≤ n ∧ n ≤ 0xF3 then some ⟨start, [b], n - 0xF0, 3, 0x80, 0xBF⟩
  else if n = 0xF4 then some ⟨start, [b], 4, 3, 0x80, 0x8F⟩
  else none

/-- A pending character after one more byte. -/
def Pending.push (p : Pending) (b : UInt8) : Pending :=
  ⟨p.start, p.bytes ++ [b], p.value * 64 + (b.toNat - 0x80), p.missing - 1, 0x80, 0xBF⟩

/-- Decodes the bytes from `offset` on, where `pending` is the character already begun. -/
def decodeFrom (offset : Nat) (pending : Option Pending) : List UInt8 → Except Malformed (List Char)
  | [] =>
    match pending with
    | none => .ok []
    | some p => .error ⟨p.start, p.bytes, .unexpectedEnd⟩
  | b :: bs =>
    match pending with
    | none =>
      if b.toNat < 0x80 then (Char.ofNat b.toNat :: ·) <$> decodeFrom (offset + 1) none bs
      else
        match Pending.ofLead offset b with
        | none => .error ⟨offset, [b], .invalidStart⟩
        | some p => decodeFrom (offset + 1) (some p) bs
    | some p =>
      if p.low ≤ b.toNat ∧ b.toNat ≤ p.high then
        let q := p.push b
        if q.missing = 0 then (Char.ofNat q.value :: ·) <$> decodeFrom (offset + 1) none bs
        else decodeFrom (offset + 1) (some q) bs
      else .error ⟨p.start, p.bytes, .invalidContinuation⟩

/-- The text of a byte sequence, or its first malformed part. -/
def decode (data : List UInt8) : Except Malformed (List Char) :=
  decodeFrom 0 none data

/-- The bytes from offset `start` to offset `stop`, as far as the data goes; none if `stop` does not lie after
`start`. -/
def slice (data : List UInt8) (start stop : Nat) : List UInt8 :=
  (data.drop start).take (stop - start)

/-- The wording of a reason. -/
def Reason.message : Reason → String
  | .invalidStart => "invalid start byte"
  | .invalidContinuation => "invalid continuation byte"
  | .unexpectedEnd => "unexpected end of data"

/-- A byte as two lower-case hexadecimal digits. -/
def hexByte (b : UInt8) : String :=
  String.ofList [Nat.digitChar (b.toNat / 16), Nat.digitChar (b.toNat % 16)]

/-- The message for a malformed part: one byte is shown, several are given by their first and last offset. -/
def Malformed.message (m : Malformed) : String :=
  match m.bytes with
  | [b] => s!"'utf-8' codec can't decode byte 0x{hexByte b} in position {m.start}: {m.reason.message}"
  | bs =>
    s!"'utf-8' codec can't decode bytes in position {m.start}-{m.start + bs.length - 1}: {m.reason.message}"

end SwitchLint.Text.Utf8
