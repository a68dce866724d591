/-
  LoxLang.Text.Utf8
  ─────────────────
  **Reading UTF-8.**  A source file is read strictly: the first byte that cannot go
  on a character ends the reading, and the fault tells which bytes were at hand.
-/

namespace LoxLang.Text

/-- Why bytes are no character. -/
inductive Utf8Cause where
  | invalidStart
  | invalidContinuation
  | unexpectedEnd
  deriving DecidableEq, Repr

/-- What is said about bytes that are no character. -/
def Utf8Cause.message : Utf8Cause → String
  | .invalidStart => "invalid start byte"
  | .invalidContinuation => "invalid continuation byte"
  | .unexpectedEnd => "unexpected end of data"

/-- Bytes that are no character: the first of them, where it stands, and how many
there are. -/
structure Utf8Fault where
  first : UInt8
  position : Nat
  count : Nat
  cause : Utf8Cause
  deriving DecidableEq, Repr

/-- A byte as two hexadecimal digits. -/
def hexByte (b : UInt8) : String :=
  String.ofList [Nat.digitChar (b.toNat / 16), Nat.digitChar (b.toNat % 16)]

/-- The message of a fault. -/
def Utf8Fault.message (f : Utf8Fault) : String :=
  let place :=
    if f.count = 1 then "byte 0x" ++ hexByte f.first ++ " in position " ++ toString f.position
    else "bytes in position " ++ toString f.position ++ "-"
      ++ toString (f.position + f.count - 1)
  "'utf-8' codec can't decode " ++ place ++ ": " ++ f.cause.message

/-- A character of which some bytes are read and `missing + 1` are not: the next
one must lie between `low` and `high`. -/
structure Utf8Partial where
  first : UInt8
  count : Nat
  missing : Nat
  low : UInt8
  high : UInt8
  code : Nat

/-- What a first byte starts: a character of its own, or one of several bytes.  The
ranges leave out overlong forms, surrogates and what lies beyond Unicode. -/
def utf8Start? (b : UInt8) : Option (Char ⊕ Utf8Partial) :=
  if b < 0x80 then some (.inl (Char.ofNat b.toNat))
  else if 0xC2 ≤ b ∧ b ≤ 0xDF then some (.inr ⟨b, 1, 0, 0x80, 0xBF, b.toNat - 0xC0⟩)
  else if 0xE0 ≤ b ∧ b ≤ 0xEF then
    some (.inr ⟨b, 1, 1, if b = 0xE0 then 0xA0 else 0x80, if b = 0xED then 0x9F else 0xBF,
      b.toNat - 0xE0⟩)
  else if 0xF0 ≤ b ∧ b ≤ 0xF4 then
    some (.inr ⟨b, 1, 2, if b = 0xF0 then 0x90 else 0x80, if b = 0xF4 then 0x8F else 0xBF,
      b.toNat - 0xF0⟩)
  else none

/-- Decode the bytes from `position` on, where `pending` is a character begun just
before, and `read` holds the characters so far, the last one first. -/
def decodeUtf8From (position : Nat) (pending : Option Utf8Partial) (read : List Char) :
    List UInt8 → Except Utf8Fault (List Char)
  | [] =>
      match pending with
      | none => .ok read.reverse
      | some p => .error ⟨p.first, position - p.count, p.count, .unexpectedEnd⟩
  | b :: bs =>
      match pending with
      | none =>
          match utf8Start? b with
          | some (.inl c) => decodeUtf8From (position + 1) none (c :: read) bs
          | some (.inr p) => decodeUtf8From (position + 1) (some p) read bs
          | none => .error ⟨b, position, 1, .invalidStart⟩
      | some p =>
          if p.low ≤ b ∧ b ≤ p.high then
            let code := p.code * 64 + (b.toNat - 0x80)
            match p.missing with
            | 0 => decodeUtf8From (position + 1) none (Char.ofNat code :: read) bs
            | missing + 1 =>
                decodeUtf8From (position + 1)
                  (some ⟨p.first, p.count + 1, missing, 0x80, 0xBF, code⟩) read bs
          else .error ⟨p.first, position - p.count, p.count, .invalidContinuation⟩

/-- The text that the bytes encode, or the first fault. -/
def decodeUtf8 (bytes : List UInt8) : Except Utf8Fault String :=
  (decodeUtf8From 0 none [] bytes).map String.ofList

end LoxLang.Text
